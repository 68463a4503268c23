import NeuralMesh.Mesh.RoutingTable

/-! The identity of a mesh node: the private key that it finds in its identity file, or generates
and writes there. -/
namespace NeuralMesh.Mesh.Identity

open Js Codec Transition RoutingTable

/-- Private keys of libp2p, and their texts in the file. -/
structure Keys (K : Type) where
  peerId : K → JsString
  /-- `u8ToString(privateKeyToProtobuf(privateKey), "base64")` -/
  privKey : K → JsString
  /-- `privateKeyFromProtobuf(u8FromString(value, "base64"))`; `none` is an exception. -/
  privateKeyOf : JsValue → Option K
  key_read : ∀ key, privateKeyOf (.str (privKey key)) = some key

variable {K : Type} (keys : Keys K)

/-! ### The file -/

def identityJson (key : K) : JsValue :=
  .obj [(js "id", .str (keys.peerId key)), (js "privKey", .str (keys.privKey key))]

/-- The bytes that `saveIdentity` writes. -/
def identityBytes (key : K) : Bytes := utf8 (indentedText [] (identityJson keys key))

/-- `json.privKey`, which throws for `null`, as a key. -/
def keyOf : JsValue → Option K
  | .undefined | .null => none
  | json => keys.privateKeyOf (member (js "privKey") json)

/-- The key that `loadOrCreateIdentity` finds; every exception on the way is caught. -/
def loadIdentity (file : Option Bytes) : Option K :=
  file.bind fun bytes => (parseDoubles (decodeUtf8 bytes)).bind (keyOf keys)

def saveIdentity (key : K) (saved : WriteOutcome) (file : Option Bytes) : Option Bytes :=
  match saved with
  | .wrote bytes => some ((identityBytes keys key).take bytes)
  | .refused => file

theorem isPlain_identityJson (key : K) : isPlain (identityJson keys key) = true := by
  simp [identityJson, isPlain, allMembersPlain_iff]

theorem load_identityBytes (key : K) :
    loadIdentity keys (some (identityBytes keys key)) = some key := by
  have ordered : isOrdered (identityJson keys key) = true := by
    refine Server.fixedKeys_ordered [js "id", js "privKey"] (by decide) rfl ?_
    simp [isOrdered]
  have read : parse (decodeUtf8 (identityBytes keys key)) = some (identityJson keys key) := by
    rw [identityBytes, decodeUtf8_utf8]
    exact parse_indentedText (isPlain_identityJson keys key) ordered
  have doubles : asDoubles (identityJson keys key) = identityJson keys key := rfl
  have privKey : member (js "privKey") (identityJson keys key) = .str (keys.privKey key) := rfl
  have found : keyOf keys (identityJson keys key) = keys.privateKeyOf (.str (keys.privKey key)) :=
    congrArg keys.privateKeyOf privKey
  rw [loadIdentity, Option.bind_some, parseDoubles, read, Option.map_some, doubles,
    Option.bind_some, found, keys.key_read]

/-- A file whose writing was cut short has no key. -/
theorem load_cut (key : K) {n : Nat} (short : n < (identityBytes keys key).length) :
    loadIdentity keys (some ((identityBytes keys key).take n)) = none := by
  have rest : (identityBytes keys key).drop n ≠ [] := by
    intro none
    have all := List.drop_eq_nil_iff.mp none
    omega
  have unread : parse (decodeUtf8 ((identityBytes keys key).take n)) = none :=
    parse_torn (isPlain_identityJson keys key) rfl (List.take_append_drop n _).symm rest
  rw [loadIdentity, Option.bind_some, parseDoubles, unread]
  rfl

/-! ### Starts -/

/-- What happens to the processes of a node, which come one after the other. -/
inductive NodeEvent (K : Type) where
  /-- Whether the file can be read, the key that is generated if one is needed, and how it is
  saved. -/
  | start (readable : Bool) (generated : Option K) (saved : WriteOutcome)
  | exit

/-- The key of the running node, and the file. -/
structure MeshNode (K : Type) where
  localPrivateKey : Option K
  file : Option Bytes

/-- A new key is generated and saved; without a key the node does not start. -/
def MeshNode.create (node : MeshNode K) (generated : Option K) (saved : WriteOutcome) :
    MeshNode K :=
  match generated with
  | none => node
  | some privateKey => ⟨some privateKey, saveIdentity keys privateKey saved node.file⟩

def MeshNode.step (node : MeshNode K) : NodeEvent K → MeshNode K
  | .start readable generated saved =>
    if node.localPrivateKey.isSome then node
    else
      match if readable then loadIdentity keys node.file else none with
      | some privateKey => { node with localPrivateKey := some privateKey }
      | none => node.create keys generated saved
  | .exit => { node with localPrivateKey := none }

/-- What the file is for: the key that later processes have. -/
structure Remembered (K : Type) where
  localPrivateKey : Option K
  durable : Option K

/-- A generated key takes the place of the durable one when it is saved, wholly or in part. -/
def Remembered.save (key : K) (saved : WriteOutcome) (durable : Option K) : Option K :=
  match saved with
  | .wrote bytes => if (identityBytes keys key).length ≤ bytes then some key else none
  | .refused => durable

def Remembered.create (node : Remembered K) (generated : Option K) (saved : WriteOutcome) :
    Remembered K :=
  match generated with
  | none => node
  | some privateKey => ⟨some privateKey, Remembered.save keys privateKey saved node.durable⟩

def Remembered.step (node : Remembered K) : NodeEvent K → Remembered K
  | .start readable generated saved =>
    if node.localPrivateKey.isSome then node
    else
      match if readable then node.durable else none with
      | some privateKey => { node with localPrivateKey := some privateKey }
      | none => node.create keys generated saved
  | .exit => { node with localPrivateKey := none }

theorem load_saved (key : K) (saved : WriteOutcome) (file : Option Bytes) :
    loadIdentity keys (saveIdentity keys key saved file) =
      Remembered.save keys key saved (loadIdentity keys file) := by
  cases saved with
  | refused => rfl
  | wrote bytes =>
    rw [saveIdentity, Remembered.save]
    split_ifs with complete
    · rw [List.take_of_length_le complete]
      exact load_identityBytes keys key
    · exact load_cut keys key (Nat.lt_of_not_le complete)

/-- The file holds the key that later processes have. -/
structure Represents (node : MeshNode K) (remembered : Remembered K) : Prop where
  running : node.localPrivateKey = remembered.localPrivateKey
  durable : loadIdentity keys node.file = remembered.durable

variable {keys}

theorem represents_create {node : MeshNode K} {remembered : Remembered K}
    (represents : Represents keys node remembered) (generated : Option K) (saved : WriteOutcome) :
    Represents keys (node.create keys generated saved)
      (remembered.create keys generated saved) := by
  cases generated with
  | none => exact represents
  | some privateKey =>
    have durable := load_saved keys privateKey saved node.file
    rw [represents.durable] at durable
    exact ⟨rfl, durable⟩

theorem represents_step {node : MeshNode K} {remembered : Remembered K}
    (represents : Represents keys node remembered) (event : NodeEvent K) :
    Represents keys (node.step keys event) (remembered.step keys event) := by
  cases event with
  | exit => exact ⟨rfl, represents.durable⟩
  | start readable generated saved =>
    simp only [MeshNode.step, Remembered.step, represents.running, represents.durable]
    split_ifs
    · exact represents
    · cases found : remembered.durable with
      | some privateKey => exact ⟨rfl, represents.durable.trans found⟩
      | none => exact represents_create represents generated saved
    · exact represents_create represents generated saved

variable (keys) in
/-- Each process has the durable key if the file can be read, and otherwise a new one, which becomes
the durable key when it is saved as a whole. -/
theorem run_identity (file : Option Bytes) (events : List (NodeEvent K)) :
    (run (MeshNode.step keys) ⟨none, file⟩ events).localPrivateKey =
      (run (Remembered.step keys) ⟨none, loadIdentity keys file⟩ events).localPrivateKey := by
  suffices all : ∀ (node : MeshNode K) (remembered : Remembered K),
      Represents keys node remembered →
        Represents keys (run (MeshNode.step keys) node events)
          (run (Remembered.step keys) remembered events) from
    (all ⟨none, file⟩ ⟨none, loadIdentity keys file⟩ ⟨rfl, rfl⟩).running
  induction events with
  | nil => exact fun node remembered represents => represents
  | cons event events ih =>
    exact fun node remembered represents => ih _ _ (represents_step represents event)

/-- Keys that are their own texts. -/
def textKeys : Keys JsString where
  peerId key := key
  privKey key := key
  privateKeyOf
    | .str text => some text
    | _ => none
  key_read _ := rfl

/-- A process that saves eight bytes only leaves no key to the next one. -/
example : (run (MeshNode.step textKeys) ⟨none, none⟩ [.start true (some (js "a")) (.wrote 8), .exit,
    .start true (some (js "b")) .refused]).localPrivateKey = some (js "b") := by decide

end NeuralMesh.Mesh.Identity
