import NeuralMesh.Answers
import NeuralMesh.Codec.Utf8
import NeuralMesh.Js.Value

/-! The certificates of the node. A load assigns each buffer as soon as its file is read, so one
that fails between two files leaves buffers of different loads. -/
namespace NeuralMesh.Security

open Js Codec Transition Answers

structure CertManagerOptions where
  rootCertPath : Option JsString
  certChainPath : JsString
  privateKeyPath : JsString

/-- An absent path and an empty one are no path. -/
def CertManagerOptions.hasRoot (options : CertManagerOptions) : Bool :=
  options.rootCertPath.any (· ≠ [])

structure CertManager where
  rootCertBuffer : Option Bytes
  certChainBuffer : Option Bytes
  privateKeyBuffer : Option Bytes

/-- What the file system answers during one load; a file that cannot be read has no content. -/
structure CertFiles where
  rootExists : Bool
  rootRead : Option Bytes
  chainExists : Bool
  keyExists : Bool
  chainRead : Option Bytes
  keyRead : Option Bytes

inductive CertError where
  | thrown (message : JsString)
  | readFailed (path : JsString)
  | invalidCertificate

/-- The timer of a scheduled reload does what `reload` does, and catches what it throws. -/
inductive CertOp where
  | loadCertificates
  | reload

structure CertCall where
  op : CertOp
  files : CertFiles

namespace CertManager

/-- Before the constructor loads. -/
def unloaded : CertManager := ⟨none, none, none⟩

section Options

variable (options : CertManagerOptions) (isX509 : Bytes → Bool)

def readsRoot (files : CertFiles) : Bool := options.hasRoot && files.rootExists

def loadRoot (s : CertManager) (files : CertFiles) : Except CertError CertManager :=
  if readsRoot options files then
    match files.rootRead with
    | none => .error (.readFailed (options.rootCertPath.getD []))
    | some root => .ok { s with rootCertBuffer := some root }
  else .ok s

def loadCertificates (s : CertManager) (files : CertFiles) : Except CertError Unit × CertManager :=
  match loadRoot options s files with
  | .error error => (.error error, s)
  | .ok s =>
    if !files.chainExists then
      (.error (.thrown (js "Certificate chain file not found: " ++ options.certChainPath)), s)
    else if !files.keyExists then
      (.error (.thrown (js "Private key file not found: " ++ options.privateKeyPath)), s)
    else
      match files.chainRead with
      | none => (.error (.readFailed options.certChainPath), s)
      | some chain =>
        let s := { s with certChainBuffer := some chain }
        match files.keyRead with
        | none => (.error (.readFailed options.privateKeyPath), s)
        | some key => (.ok (), { s with privateKeyBuffer := some key })

def inspectCertificate (s : CertManager) : Except CertError Unit :=
  match s.certChainBuffer with
  | none => .error (.thrown (js "[CertManager] No certificate loaded to inspect."))
  | some chain => if isX509 chain then .ok () else .error .invalidCertificate

def reload (s : CertManager) (files : CertFiles) : Except CertError Unit × CertManager :=
  match loadCertificates options s files with
  | (.error error, s) => (.error error, s)
  | (.ok (), s) => (inspectCertificate isX509 s, s)

def onCall (s : CertManager) (call : CertCall) : Except CertError Unit × CertManager :=
  match call.op with
  | .loadCertificates => loadCertificates options s call.files
  | .reload => reload options isX509 s call.files

/-! ### One load -/

/-- The root after its file has been read, where it is read. -/
def rootAfter (s : CertManager) (files : CertFiles) : Option Bytes :=
  if readsRoot options files then files.rootRead else s.rootCertBuffer

/-- Where a load stops, and what it has assigned by then. -/
inductive Loads (s : CertManager) (files : CertFiles) :
    Except CertError Unit × CertManager → Prop where
  | rootFails (error : CertError) (reads : readsRoot options files = true)
      (unread : files.rootRead = none) : Loads s files (.error error, s)
  | chainFails (error : CertError) (root : (readsRoot options files && files.rootRead.isNone) = false)
      (missing : (!files.chainExists || !files.keyExists || files.chainRead.isNone) = true) :
      Loads s files (.error error, { s with rootCertBuffer := rootAfter options s files })
  | keyFails (error : CertError) (root : (readsRoot options files && files.rootRead.isNone) = false)
      (found : (!files.chainExists || !files.keyExists || files.chainRead.isNone) = false)
      (unread : files.keyRead = none) :
      Loads s files (.error error, { s with
        rootCertBuffer := rootAfter options s files
        certChainBuffer := files.chainRead })
  | returns (root : (readsRoot options files && files.rootRead.isNone) = false)
      (found : (!files.chainExists || !files.keyExists || files.chainRead.isNone) = false)
      (read : files.keyRead.isSome = true) :
      Loads s files (.ok (), ⟨rootAfter options s files, files.chainRead, files.keyRead⟩)

/-- The buffers of one load alone. -/
def loaded (files : CertFiles) : CertManager :=
  ⟨if readsRoot options files then files.rootRead else none, files.chainRead, files.keyRead⟩

/-- A call that throws leaves the buffers, and one that returns has them all from its load. -/
structure Atomic (s : CertManager) (call : CertCall) : Prop where
  throws : ∀ error, (onCall options isX509 s call).1 = .error error →
    (onCall options isX509 s call).2 = s
  returns : (onCall options isX509 s call).1 = .ok () →
    (onCall options isX509 s call).2 = loaded options call.files

/-- Only a reload inspects the certificate. -/
def inspects (call : CertCall) : Bool :=
  match call.op with
  | .loadCertificates => false
  | .reload => !call.files.chainRead.any isX509

/-- The files that a call reads before it throws are the ones that are held; where no root is read,
none is held. -/
def Careful (s : CertManager) (call : CertCall) : Prop :=
  let files := call.files
  if readsRoot options files && files.rootRead.isNone then True
  else if !files.chainExists || !files.keyExists || files.chainRead.isNone then
    readsRoot options files = true → files.rootRead = s.rootCertBuffer
  else if files.keyRead.isNone then
    (readsRoot options files = true → files.rootRead = s.rootCertBuffer) ∧
      files.chainRead = s.certChainBuffer
  else if inspects isX509 call then
    (readsRoot options files = true → files.rootRead = s.rootCertBuffer) ∧
      files.chainRead = s.certChainBuffer ∧ files.keyRead = s.privateKeyBuffer
  else readsRoot options files = false → s.rootCertBuffer = none

end Options

variable {options : CertManagerOptions} {isX509 : Bytes → Bool} {s : CertManager}

theorem loadRoot_eq (files : CertFiles) : loadRoot options s files =
    if readsRoot options files && files.rootRead.isNone then
      .error (.readFailed (options.rootCertPath.getD []))
    else .ok { s with rootCertBuffer := rootAfter options s files } := by
  rw [loadRoot, rootAfter]
  cases readsRoot options files with
  | false => rfl
  | true => cases files.rootRead <;> rfl

theorem loadCertificates_loads (files : CertFiles) :
    Loads options s files (loadCertificates options s files) := by
  rw [loadCertificates, loadRoot_eq]
  cases root : readsRoot options files && files.rootRead.isNone with
  | true =>
    obtain ⟨reads, unread⟩ := Bool.and_eq_true_iff.mp root
    exact .rootFails _ reads (Option.isNone_iff_eq_none.mp unread)
  | false =>
    rw [if_neg Bool.false_ne_true]
    dsimp only
    cases chainExists : files.chainExists with
    | false => exact .chainFails _ root (by rw [chainExists]; rfl)
    | true =>
      cases keyExists : files.keyExists with
      | false => exact .chainFails _ root (by rw [chainExists, keyExists]; rfl)
      | true =>
        cases chainRead : files.chainRead with
        | none => exact .chainFails _ root (by rw [chainExists, keyExists, chainRead]; rfl)
        | some chain =>
          have found : (!files.chainExists || !files.keyExists || files.chainRead.isNone) = false := by
            rw [chainExists, keyExists, chainRead]
            rfl
          cases keyRead : files.keyRead with
          | none =>
            have stopped : Loads options s files _ := .keyFails (.readFailed options.privateKeyPath)
              root found keyRead
            rw [chainRead] at stopped
            exact stopped
          | some key =>
            have returned : Loads options s files _ := .returns root found (by rw [keyRead]; rfl)
            rw [chainRead, keyRead] at returned
            exact returned

theorem rootAfter_eq_held (files : CertFiles) : rootAfter options s files = s.rootCertBuffer ↔
    (readsRoot options files = true → files.rootRead = s.rootCertBuffer) := by
  rw [rootAfter]
  cases readsRoot options files <;> simp

theorem rootAfter_eq_loaded (files : CertFiles) :
    rootAfter options s files = (loaded options files).rootCertBuffer ↔
      (readsRoot options files = false → s.rootCertBuffer = none) := by
  rw [rootAfter, loaded]
  cases readsRoot options files <;> simp

theorem onCall_error {call : CertCall} {error : CertError} {after : CertManager}
    (failed : loadCertificates options s call.files = (.error error, after)) :
    onCall options isX509 s call = (.error error, after) := by
  rw [onCall, reload, failed]
  cases call.op <;> rfl

/-- A load that returns has a chain, which a reload inspects. -/
theorem onCall_returned {call : CertCall} {after : CertManager}
    (returned : loadCertificates options s call.files = (.ok (), after))
    (chain : after.certChainBuffer = call.files.chainRead) (read : call.files.chainRead ≠ none) :
    onCall options isX509 s call =
      (if inspects isX509 call then .error .invalidCertificate else .ok (), after) := by
  obtain ⟨bytes, held⟩ := Option.ne_none_iff_exists'.mp read
  rw [onCall, reload, returned, inspects, held]
  rw [held] at chain
  cases call.op with
  | loadCertificates => rfl
  | reload =>
    dsimp only
    rw [inspectCertificate, chain]
    cases x509 : isX509 bytes <;> simp [x509]

theorem rooted_eq_iff (files : CertFiles) (chain key : Option Bytes) :
    (⟨rootAfter options s files, chain, key⟩ : CertManager) = s ↔
      (readsRoot options files = true → files.rootRead = s.rootCertBuffer) ∧
        chain = s.certChainBuffer ∧ key = s.privateKeyBuffer := by
  rw [← rootAfter_eq_held]
  cases s
  exact Eq.to_iff (CertManager.mk.injEq ..)

theorem atomic_of_error {call : CertCall} {error : CertError} {after : CertManager}
    (threw : onCall options isX509 s call = (.error error, after)) :
    Atomic options isX509 s call ↔ after = s := by
  constructor
  · intro atomic
    have kept := atomic.throws error (congrArg Prod.fst threw)
    rwa [threw] at kept
  · intro kept
    refine ⟨fun _ _ => (congrArg Prod.snd threw).trans kept, fun returned => ?_⟩
    cases (congrArg Prod.fst threw).symm.trans returned

theorem atomic_of_ok {call : CertCall} {after : CertManager}
    (returned : onCall options isX509 s call = (.ok (), after)) :
    Atomic options isX509 s call ↔ after = loaded options call.files := by
  constructor
  · intro atomic
    have own := atomic.returns (congrArg Prod.fst returned)
    rwa [returned] at own
  · intro own
    refine ⟨fun error threw => ?_, fun _ => (congrArg Prod.snd returned).trans own⟩
    cases (congrArg Prod.fst returned).symm.trans threw

/-- Exactly the careful calls are atomic. -/
theorem atomic_iff_careful (call : CertCall) :
    Atomic options isX509 s call ↔ Careful options isX509 s call := by
  have loads : Loads options s call.files _ := loadCertificates_loads call.files
  generalize result : loadCertificates options s call.files = stopped at loads
  rw [Careful]
  cases loads with
  | rootFails error reads unread =>
    rw [atomic_of_error (onCall_error result), reads, unread]
    exact iff_of_true rfl trivial
  | chainFails error root missing =>
    rw [atomic_of_error (onCall_error result), if_neg (by rw [root]; exact Bool.false_ne_true), if_pos missing]
    exact (rooted_eq_iff ..).trans (and_iff_left ⟨rfl, rfl⟩)
  | keyFails error root found unread =>
    rw [atomic_of_error (onCall_error result), if_neg (by rw [root]; exact Bool.false_ne_true),
      if_neg (by rw [found]; exact Bool.false_ne_true), unread, Option.isNone_none, if_pos rfl]
    exact (rooted_eq_iff ..).trans (and_congr_right fun _ => and_iff_left rfl)
  | returns root found read =>
    have chain : call.files.chainRead ≠ none := by
      intro none
      rw [none, Option.isNone_none, Bool.or_true] at found
      cases found
    rw [if_neg (by rw [root]; exact Bool.false_ne_true),
      if_neg (by rw [found]; exact Bool.false_ne_true),
      if_neg (by rw [Option.isNone_eq_false_iff.mpr read]; exact Bool.false_ne_true)]
    have answered : onCall options isX509 s call = _ := onCall_returned result rfl chain
    cases bad : inspects isX509 call with
    | true =>
      rw [bad, if_pos rfl] at answered
      rw [atomic_of_error answered, if_pos rfl]
      exact rooted_eq_iff ..
    | false =>
      rw [bad, if_neg Bool.false_ne_true] at answered
      rw [atomic_of_ok answered, if_neg Bool.false_ne_true, ← rootAfter_eq_loaded]
      exact (Eq.to_iff (CertManager.mk.injEq ..)).trans (and_iff_left ⟨rfl, rfl⟩)

/-! ### Runs -/

/-- The buffers are those of one load that has returned. -/
def HeldFrom (options : CertManagerOptions) (done : List (CertCall × Except CertError Unit))
    (s : CertManager) : Prop :=
  ∃ d ∈ done, d.2 = .ok () ∧ s = loaded options d.1.files

theorem onCall_heldFrom {done : List (CertCall × Except CertError Unit)}
    (held : HeldFrom options done s) {call : CertCall} (careful : Careful options isX509 s call) :
    HeldFrom options (done ++ [(call, (onCall options isX509 s call).1)])
      (next (onCall options isX509) s call) := by
  have atomic := (atomic_iff_careful call).mpr careful
  rw [next]
  cases answer : (onCall options isX509 s call).1 with
  | error error =>
    obtain ⟨d, member, returned, same⟩ := held
    exact ⟨d, List.mem_append_left _ member, returned, (atomic.throws error answer).trans same⟩
  | ok _ =>
    exact ⟨_, List.mem_append_right _ List.mem_cons_self, rfl, atomic.returns answer⟩

/-- A constructor that returns has the buffers of its load. -/
theorem constructed_heldFrom {files : CertFiles}
    (returned : (loadCertificates options unloaded files).1 = .ok ()) :
    HeldFrom options [(⟨.loadCertificates, files⟩, .ok ())]
      (loadCertificates options unloaded files).2 := by
  refine ⟨_, List.mem_singleton_self _, rfl, ?_⟩
  have loads : Loads options unloaded files _ := loadCertificates_loads files
  generalize loadCertificates options unloaded files = stopped at loads returned
  cases loads with
  | rootFails | chainFails | keyFails => cases returned
  | returns root found read =>
    have none : rootAfter options unloaded files = _ :=
      (rootAfter_eq_loaded files).mpr fun _ => rfl
    rw [none]
    rfl

theorem run_heldFrom {done : List (CertCall × Except CertError Unit)}
    (held : HeldFrom options done s) {calls : List CertCall}
    (careful : Allowed (next (onCall options isX509)) (Careful options isX509) s calls) :
    HeldFrom options (done ++ trace (onCall options isX509) s calls)
      (run (next (onCall options isX509)) s calls) := by
  induction calls generalizing done s with
  | nil =>
    rw [trace, List.append_nil]
    exact held
  | cons call calls ih =>
    have later := ih (onCall_heldFrom held careful.1) careful.2
    rwa [List.append_assoc] at later

/-- A call is atomic exactly when it is careful. After a constructor that returns, in a run of
careful calls, a call that throws leaves the buffers, and at every moment they are those of one
load that has returned. -/
theorem careful_reloads (options : CertManagerOptions) (isX509 : Bytes → Bool) :
    (∀ s call, Atomic options isX509 s call ↔ Careful options isX509 s call) ∧
    ∀ files calls, (loadCertificates options unloaded files).1 = .ok () →
      let constructed := (loadCertificates options unloaded files).2
      Allowed (next (onCall options isX509)) (Careful options isX509) constructed calls →
      (∀ before call later error, calls = before ++ call :: later →
        let held := run (next (onCall options isX509)) constructed before
        (onCall options isX509 held call).1 = .error error →
          next (onCall options isX509) held call = held) ∧
      ∀ before, before <+: calls →
        HeldFrom options
          ((⟨.loadCertificates, files⟩, .ok ()) :: trace (onCall options isX509) constructed before)
          (run (next (onCall options isX509)) constructed before) := by
  refine ⟨fun _ => atomic_iff_careful, ?_⟩
  intro files calls returned constructed careful
  constructor
  · rintro before call later error rfl held threw
    exact ((atomic_iff_careful call).mpr careful.of_run.1).throws error threw
  · rintro before ⟨later, rfl⟩
    exact run_heldFrom (constructed_heldFrom returned) careful.of_append

/-- Files that can all be read, of one generation. -/
def generation (n : UInt8) : CertFiles := ⟨true, some [n], true, true, some [n], some [n]⟩

def exampleOptions : CertManagerOptions := ⟨some (js "root.pem"), js "chain.pem", js "key.pem"⟩

/-- The chain is missing when the new root has been read: the old chain stays beside it. -/
theorem missing_chain_mixes : ¬ ∀ files call,
    (loadCertificates exampleOptions unloaded files).1 = .ok () →
    Atomic exampleOptions (fun _ => true) (loadCertificates exampleOptions unloaded files).2 call := by
  intro atomic
  have kept := (atomic (generation 1) ⟨.reload, { generation 2 with chainExists := false }⟩ rfl).throws
    _ rfl
  cases kept

end CertManager

end NeuralMesh.Security
