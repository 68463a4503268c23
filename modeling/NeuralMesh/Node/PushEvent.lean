import NeuralMesh.Node.ZkReceipt

/-! The host function through which a sandboxed module pushes an event. The end of the pushed range
is a sum of two 32-bit integers of the guest, which panics or wraps around when it overflows. -/
namespace NeuralMesh.Node

open Js Codec

/-! ### The host function -/

/-- How the node is compiled: an overflowing addition panics or wraps around. -/
inductive OverflowMode where
  | checked
  | wrapping
  deriving DecidableEq

/-- `a + b` over `u32`, nothing when it panics. -/
def OverflowMode.add (mode : OverflowMode) (a b : UInt32) : Option UInt32 :=
  match mode with
  | .checked => if a.toNat + b.toNat < 2 ^ 32 then some (a + b) else none
  | .wrapping => some (a + b)

/-- `data.get(start..stop)`. -/
def getRange (data : Bytes) (start stop : Nat) : Option Bytes :=
  if start ≤ stop ∧ stop ≤ data.length then some ((data.take stop).drop start) else none

/-- How a call ends: it returns after a response went to the channel, it returns an error to the
guest, or it panics. -/
inductive PushOutcome where
  | sent (response : LogicResponse)
  | failed (error : Text)
  | panicked

def noMemory : Text := "failed to find host memory".toList

def outOfBounds : Text := "OOB memory access".toList

/-- The function `push_event` over the exported memory of the guest. -/
def hostPushEvent (mode : OverflowMode) (memory : Option Bytes) (ptr len : UInt32) : PushOutcome :=
  match memory with
  | none => .failed noMemory
  | some mem =>
    match mode.add ptr len with
    | none => .panicked
    | some stop =>
      match getRange mem ptr.toNat stop.toNat with
      | none => .failed outOfBounds
      -- whether the channel takes the response is not looked at
      | some data => .sent (pushEvent data)

/-! ### What it should do -/

/-- The response carries the bytes as its text, or says that they are no text. -/
def Carries (response : LogicResponse) (data : Bytes) : Prop :=
  ∃ text, response = ⟨"[WATCHDOG PUSH ALERT]: ".toList ++ text, [], [], false⟩ ∧
    (utf8 text = data ∨ (∀ other, utf8 other ≠ data) ∧ text = "BAD_UTF8".toList)

/-- The bounds of a call, with the end of the range as a natural number. -/
structure KeepsBounds (mode : OverflowMode) (memory : Bytes) (ptr len : UInt32) : Prop where
  inside : ptr.toNat + len.toNat ≤ memory.length →
    ∃ response, hostPushEvent mode (some memory) ptr len = .sent response ∧
      Carries response ((memory.drop ptr.toNat).take len.toNat)
  outside : memory.length < ptr.toNat + len.toNat →
    hostPushEvent mode (some memory) ptr len = .failed outOfBounds
  returns : hostPushEvent mode (some memory) ptr len ≠ .panicked

/-- The sum fits, or it wraps around where the range is out of bounds anyway. -/
def Harmless (mode : OverflowMode) (size : Nat) (ptr len : UInt32) : Prop :=
  ptr.toNat + len.toNat < 2 ^ 32 ∨ mode = .wrapping ∧ size < ptr.toNat + len.toNat

section Calls

variable {mode : OverflowMode} {memory : Bytes} {ptr len : UInt32}

theorem pushEvent_carries (data : Bytes) : Carries (pushEvent data) data := by
  refine ⟨pushedText data, rfl, ?_⟩
  by_cases text : utf8 (decodeUtf8 data) = data
  · refine Or.inl ?_
    rw [pushedText, if_pos text]
    exact text
  · refine Or.inr ⟨fun other spelled => text ?_, if_neg text⟩
    rw [← spelled, decodeUtf8_utf8]

theorem add_toNat (fits : ptr.toNat + len.toNat < 2 ^ 32) :
    (ptr + len).toNat = ptr.toNat + len.toNat := by
  rw [UInt32.toNat_add, Nat.mod_eq_of_lt fits]

/-- A sum that wraps around ends before the range starts. -/
theorem add_toNat_lt (overflow : 2 ^ 32 ≤ ptr.toNat + len.toNat) :
    (ptr + len).toNat < ptr.toNat := by
  have small := len.toNat_lt
  rw [UInt32.toNat_add]
  omega

theorem add_fits (fits : ptr.toNat + len.toNat < 2 ^ 32) : mode.add ptr len = some (ptr + len) := by
  cases mode with
  | checked => exact if_pos fits
  | wrapping => rfl

theorem hostPushEvent_fits (fits : ptr.toNat + len.toNat < 2 ^ 32) :
    hostPushEvent mode (some memory) ptr len =
      if ptr.toNat + len.toNat ≤ memory.length then
        .sent (pushEvent ((memory.drop ptr.toNat).take len.toNat))
      else .failed outOfBounds := by
  have start : ptr.toNat ≤ ptr.toNat + len.toNat := Nat.le_add_right _ _
  simp only [hostPushEvent, add_fits fits, add_toNat fits, getRange, start, true_and]
  by_cases inside : ptr.toNat + len.toNat ≤ memory.length
  · simp only [if_pos inside, List.drop_take, Nat.add_sub_cancel_left]
  · simp only [if_neg inside]

theorem hostPushEvent_checked (overflow : 2 ^ 32 ≤ ptr.toNat + len.toNat) :
    hostPushEvent .checked (some memory) ptr len = .panicked := by
  simp only [hostPushEvent, OverflowMode.add, if_neg (Nat.not_lt.mpr overflow)]

theorem hostPushEvent_wrapped (overflow : 2 ^ 32 ≤ ptr.toNat + len.toNat) :
    hostPushEvent .wrapping (some memory) ptr len = .failed outOfBounds := by
  have empty : ¬(ptr.toNat ≤ (ptr + len).toNat ∧ (ptr + len).toNat ≤ memory.length) := by
    have before := add_toNat_lt overflow
    omega
  simp only [hostPushEvent, OverflowMode.add, getRange, if_neg empty]

theorem keepsBounds_of_fits (fits : ptr.toNat + len.toNat < 2 ^ 32) :
    KeepsBounds mode memory ptr len := by
  have call := @hostPushEvent_fits mode memory ptr len fits
  by_cases inside : ptr.toNat + len.toNat ≤ memory.length
  · rw [if_pos inside] at call
    refine ⟨fun _ => ⟨_, call, pushEvent_carries _⟩, fun outside => ?_, ?_⟩
    · exact absurd inside (Nat.not_le.mpr outside)
    · simp only [call, ne_eq, reduceCtorEq, not_false_eq_true]
  · rw [if_neg inside] at call
    refine ⟨fun within => absurd within inside, fun _ => call, ?_⟩
    simp only [call, ne_eq, reduceCtorEq, not_false_eq_true]

/-- A call keeps the bounds exactly when its sum fits in 32 bits, or wraps around out of bounds. A
memory of 4 GiB has a range that wraps around within bounds: one that ends with the memory. -/
theorem keepsBounds_iff (mode : OverflowMode) (memory : Bytes) (ptr len : UInt32) :
    KeepsBounds mode memory ptr len ↔ Harmless mode memory.length ptr len := by
  by_cases fits : ptr.toNat + len.toNat < 2 ^ 32
  · exact ⟨fun _ => Or.inl fits, fun _ => keepsBounds_of_fits fits⟩
  have overflow := Nat.not_lt.mp fits
  cases mode with
  | checked =>
    constructor
    · intro bounds
      exact absurd (hostPushEvent_checked overflow) bounds.returns
    · rintro (small | ⟨wrapping, -⟩)
      · exact absurd small fits
      · exact absurd wrapping (by decide)
  | wrapping =>
    have call := @hostPushEvent_wrapped memory ptr len overflow
    constructor
    · intro bounds
      refine Or.inr ⟨rfl, Nat.not_le.mp fun inside => ?_⟩
      obtain ⟨response, sent, -⟩ := bounds.inside inside
      rw [call] at sent
      cases sent
    · rintro (small | ⟨-, outside⟩)
      · exact absurd small fits
      · refine ⟨fun inside => absurd inside (Nat.not_le.mpr outside), fun _ => call, ?_⟩
        simp only [call, ne_eq, reduceCtorEq, not_false_eq_true]

/-- A guest makes a node with overflow checks panic, whatever its memory: a range that starts at
its second byte and ends after 4 GiB. -/
theorem longRange_panics : ¬KeepsBounds .checked [0] 1 0xFFFFFFFF := by
  intro bounds
  exact bounds.returns (hostPushEvent_checked (by decide))

end Calls

end NeuralMesh.Node
