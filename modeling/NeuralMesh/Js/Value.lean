import NeuralMesh.Js.NumberText
import NeuralMesh.Js.StringText
import Mathlib.Data.List.Basic
import Mathlib.Data.List.Sort

/-! ECMAScript data values and `JSON.stringify`. Objects list their own
properties in enumeration order. -/
namespace NeuralMesh.Js

inductive JsNumber where
  | finite (value : Decimal)
  | nan
  | infinite (negative : Bool)
  deriving DecidableEq

inductive JsValue where
  | undefined
  | null
  | bool (value : Bool)
  | num (value : JsNumber)
  | str (value : JsString)
  | arr (elements : List JsValue)
  | obj (members : List (JsString × JsValue))

namespace JsValue

@[elab_as_elim, induction_eliminator]
theorem induct {P : JsValue → Prop} (undefined : P .undefined) (null : P .null)
    (bool : ∀ b, P (.bool b)) (num : ∀ n, P (.num n)) (str : ∀ s, P (.str s))
    (arr : ∀ elements, (∀ v ∈ elements, P v) → P (.arr elements))
    (obj : ∀ members, (∀ m ∈ members, P m.2) → P (.obj members)) (v : JsValue) : P v := by
  refine JsValue.rec (motive_1 := P) (motive_2 := fun vs => ∀ v ∈ vs, P v)
    (motive_3 := fun ms => ∀ m ∈ ms, P m.2) (motive_4 := fun m => P m.2)
    undefined null bool num str (fun _ ih => arr _ ih) (fun _ ih => obj _ ih) ?_ ?_ ?_ ?_ ?_ v
  · simp
  · intro v vs first rest
    simpa using ⟨first, rest⟩
  · simp
  · intro m ms first rest
    simpa using ⟨first, fun k v member => rest (k, v) member⟩
  · intro k v ih
    exact ih

end JsValue

/-! ### Text -/

def commaJoin : List Text → Text
  | [] => []
  | [t] => t
  | t :: ts => t ++ ',' :: commaJoin ts

/-- What follows the first text of a joined list. -/
def commaTail (ts : List Text) : Text := ts.flatMap (',' :: ·)

@[simp] theorem commaTail_nil : commaTail [] = [] := rfl

@[simp] theorem commaTail_cons (t : Text) (ts : List Text) :
    commaTail (t :: ts) = ',' :: (t ++ commaTail ts) := rfl

theorem commaJoin_cons (t : Text) (ts : List Text) : commaJoin (t :: ts) = t ++ commaTail ts := by
  induction ts generalizing t with
  | nil => exact (List.append_nil t).symm
  | cons u us ih =>
    show t ++ ',' :: commaJoin (u :: us) = t ++ commaTail (u :: us)
    rw [ih]
    rfl

def nullText : Text := ['n', 'u', 'l', 'l']

def boolText : Bool → Text
  | true => ['t', 'r', 'u', 'e']
  | false => ['f', 'a', 'l', 's', 'e']

/-- `JSON.stringify` of a number: only finite numbers have a spelling. -/
def JsNumber.jsonText : JsNumber → Text
  | .finite d => numberText d
  | .nan | .infinite _ => nullText

mutual

/-- `SerializeJSONProperty`, with `null` for an `undefined` array element. -/
def jsonText : JsValue → Text
  | .undefined => nullText
  | .null => nullText
  | .bool b => boolText b
  | .num n => n.jsonText
  | .str s => quote s
  | .arr elements => '[' :: (commaJoin (elementTexts elements) ++ [']'])
  | .obj members => '{' :: (commaJoin (memberTexts members) ++ ['}'])

def elementTexts : List JsValue → List Text
  | [] => []
  | v :: vs => jsonText v :: elementTexts vs

/-- Members whose value is `undefined` are left out. -/
def memberTexts : List (JsString × JsValue) → List Text
  | [] => []
  | (_, .undefined) :: ms => memberTexts ms
  | (k, v) :: ms => (quote k ++ ':' :: jsonText v) :: memberTexts ms

end

/-- `JSON.stringify`: `none` is the value `undefined`. -/
def stringify : JsValue → Option Text
  | .undefined => none
  | v => some (jsonText v)

@[simp] theorem elementTexts_eq (vs : List JsValue) : elementTexts vs = vs.map jsonText := by
  induction vs with
  | nil => rfl
  | cons v vs ih => rw [elementTexts, ih, List.map_cons]

theorem memberTexts_cons {v : JsValue} (k : JsString) (ms : List (JsString × JsValue))
    (present : v ≠ .undefined) :
    memberTexts ((k, v) :: ms) = (quote k ++ ':' :: jsonText v) :: memberTexts ms := by
  cases v <;> first | rfl | exact absurd rfl present

theorem stringify_of_ne {v : JsValue} (present : v ≠ .undefined) :
    stringify v = some (jsonText v) := by
  cases v <;> first | rfl | exact absurd rfl present

/-! ### JSON values -/

def isUndefined : JsValue → Bool
  | .undefined => true
  | _ => false

/-- The index of an array-index key, which objects enumerate first. -/
def arrayIndex (key : JsString) : Option Nat :=
  let digits := key.map fun u => Char.ofNat u.toNat
  if validInteger digits && digits.all isDigit && ofDigits digits < 4294967295 then
    some (ofDigits digits)
  else none

/-- `a` may come before `b` among the own properties of one object. -/
def precedes (a b : JsString) : Bool :=
  match arrayIndex a, arrayIndex b with
  | some i, some j => i < j
  | some _, none => true
  | none, some _ => false
  | none, none => a != b

mutual

/-- No `undefined` and only finite numbers: the text of the value shows all of it. -/
def isPlain : JsValue → Bool
  | .undefined => false
  | .num (.finite _) => true
  | .num _ => false
  | .null | .bool _ | .str _ => true
  | .arr elements => allPlain elements
  | .obj members => allMembersPlain members

def allPlain : List JsValue → Bool
  | [] => true
  | v :: vs => isPlain v && allPlain vs

def allMembersPlain : List (JsString × JsValue) → Bool
  | [] => true
  | (_, v) :: ms => isPlain v && allMembersPlain ms

end

mutual

/-- Every object lists each key once, in enumeration order. -/
def isOrdered : JsValue → Bool
  | .arr elements => allOrdered elements
  | .obj members =>
    decide (members.Pairwise fun a b => precedes a.1 b.1) && allMembersOrdered members
  | _ => true

def allOrdered : List JsValue → Bool
  | [] => true
  | v :: vs => isOrdered v && allOrdered vs

def allMembersOrdered : List (JsString × JsValue) → Bool
  | [] => true
  | (_, v) :: ms => isOrdered v && allMembersOrdered ms

end

/-- The values of JSON texts. -/
structure Json where
  value : JsValue
  plain : isPlain value = true
  ordered : isOrdered value = true

@[simp] theorem allPlain_iff (vs : List JsValue) :
    allPlain vs = true ↔ ∀ v ∈ vs, isPlain v = true := by
  induction vs with
  | nil => simp [allPlain]
  | cons v vs ih => simp [allPlain, ih]

@[simp] theorem allMembersPlain_iff (ms : List (JsString × JsValue)) :
    allMembersPlain ms = true ↔ ∀ m ∈ ms, isPlain m.2 = true := by
  induction ms with
  | nil => simp [allMembersPlain]
  | cons m ms ih => simp [allMembersPlain, ih]

@[simp] theorem allOrdered_iff (vs : List JsValue) :
    allOrdered vs = true ↔ ∀ v ∈ vs, isOrdered v = true := by
  induction vs with
  | nil => simp [allOrdered]
  | cons v vs ih => simp [allOrdered, ih]

@[simp] theorem allMembersOrdered_iff (ms : List (JsString × JsValue)) :
    allMembersOrdered ms = true ↔ ∀ m ∈ ms, isOrdered m.2 = true := by
  induction ms with
  | nil => simp [allMembersOrdered]
  | cons m ms ih => simp [allMembersOrdered, ih]

theorem isOrdered_obj (members : List (JsString × JsValue)) : isOrdered (.obj members) = true ↔
    members.Pairwise (fun a b => precedes a.1 b.1) ∧ ∀ m ∈ members, isOrdered m.2 = true := by
  simp [isOrdered]

theorem unit_of_digit {u v : CodeUnit} (digit : isDigit (Char.ofNat u.toNat) = true)
    (same : Char.ofNat u.toNat = Char.ofNat v.toNat) : u = v := by
  have code {w : CodeUnit} (digit : isDigit (Char.ofNat w.toNat) = true) :
      (Char.ofNat w.toNat).toNat = w.toNat := by
    apply char_ofNat
    by_contra invalid
    simp [Char.ofNat, invalid, isDigit] at digit
  have codes := congrArg Char.toNat same
  rw [code digit, code (same ▸ digit)] at codes
  exact UInt16.toNat_inj.mp codes

theorem arrayIndex_injective {a b : JsString} {i : Nat} (left : arrayIndex a = some i)
    (right : arrayIndex b = some i) : a = b := by
  unfold arrayIndex at left right
  dsimp only at left right
  split_ifs at left with leftIndex
  split_ifs at right with rightIndex
  simp only [Bool.and_eq_true, List.all_eq_true] at leftIndex rightIndex
  obtain ⟨⟨leftValid, leftDigits⟩, -⟩ := leftIndex
  obtain ⟨⟨rightValid, rightDigits⟩, -⟩ := rightIndex
  have value := (Option.some.inj left).trans (Option.some.inj right).symm
  have texts := validInteger_unique leftDigits rightDigits leftValid rightValid value
  clear left right leftValid rightValid value rightDigits
  induction a generalizing b with
  | nil =>
    rw [List.map_nil, eq_comm, List.map_eq_nil_iff] at texts
    exact texts.symm
  | cons u a ih =>
    cases b with
    | nil => simp at texts
    | cons v b =>
      rw [List.map_cons, List.map_cons, List.cons.injEq] at texts
      rw [unit_of_digit (leftDigits _ (by simp)) texts.1,
        ih (fun c member => leftDigits c (List.mem_cons_of_mem _ member)) texts.2]

/-- Of two different keys one may come first; where the order is fixed, an index
comes before everything that the other key precedes. -/
theorem precedes_of_not {k key : JsString} (different : k ≠ key)
    (after : precedes k key = false) :
    precedes key k = true ∧ ∀ m, precedes k m = true → precedes key m = true := by
  unfold precedes at after ⊢
  cases first : arrayIndex k with
  | none =>
    cases second : arrayIndex key with
    | none => simp [first, second, different] at after
    | some j =>
      refine ⟨rfl, fun m _ => ?_⟩
      cases third : arrayIndex m with
      | none => rfl
      | some l => simp_all
  | some i =>
    cases second : arrayIndex key with
    | none => simp [first, second] at after
    | some j =>
      have apart : i ≠ j := by
        rintro rfl
        exact different (arrayIndex_injective first second)
      simp only [first, second, decide_eq_false_iff_not] at after
      refine ⟨by simpa using by omega, fun m before => ?_⟩
      cases third : arrayIndex m with
      | none => rfl
      | some l =>
        simp only [third, decide_eq_true_eq] at before ⊢
        omega

theorem precedes_ne {a b : JsString} (h : precedes a b = true) : a ≠ b := by
  rintro rfl
  unfold precedes at h
  cases index : arrayIndex a <;> simp [index] at h

theorem memberTexts_present {ms : List (JsString × JsValue)}
    (present : ∀ m ∈ ms, m.2 ≠ .undefined) :
    memberTexts ms = ms.map fun m => quote m.1 ++ ':' :: jsonText m.2 := by
  induction ms with
  | nil => rfl
  | cons m ms ih =>
    rw [memberTexts_cons m.1 ms (present m List.mem_cons_self),
      ih fun m member => present m (List.mem_cons_of_mem _ member), List.map_cons]

theorem plain_present {v : JsValue} (plain : isPlain v = true) : v ≠ .undefined := by
  rintro rfl
  simp [isPlain] at plain

example : stringify (.obj [(js "a", .undefined), (js "b", .arr [.undefined, .num .nan])]) =
    some "\x7b\"b\":[null,null]\x7d".toList := by decide

end NeuralMesh.Js
