import Mathlib.Data.List.GetD
import NeuralMesh.Codec.Base64
import NeuralMesh.Draining

/-! Messages behind their length, an unsigned 32-bit number with its highest byte first, and
frames that put a flag byte before the length. -/
namespace NeuralMesh.Codec

open Draining

def uint32BE (n : Nat) : Bytes :=
  [UInt8.ofNat (n / 16777216), UInt8.ofNat (n / 65536), UInt8.ofNat (n / 256), UInt8.ofNat n]

/-- `writeUInt32BE` into a fresh field; `none` is its `RangeError`. -/
def writeUInt32BE (n : Nat) : Option Bytes := if n < 4294967296 then some (uint32BE n) else none

/-- `readUInt32BE` at an offset with four bytes behind it. -/
def readUInt32BE (bytes : Bytes) (offset : Nat) : Nat :=
  ((bytes.drop offset).take 4).foldl (fun n byte => n * 256 + byte.toNat) 0

@[simp] theorem uint32BE_length (n : Nat) : (uint32BE n).length = 4 := rfl

theorem writeUInt32BE_eq_some {n : Nat} {bytes : Bytes} :
    writeUInt32BE n = some bytes ↔ n < 4294967296 ∧ bytes = uint32BE n := by
  unfold writeUInt32BE
  split_ifs with range
  · rw [Option.some.injEq, eq_comm]
    exact (and_iff_right range).symm
  · exact iff_of_false nofun fun written => range written.1

theorem foldl_uint32BE {n : Nat} (range : n < 4294967296) :
    (uint32BE n).foldl (fun n byte => n * 256 + byte.toNat) 0 = n := by
  simp only [uint32BE, List.foldl_cons, List.foldl_nil, UInt8.toNat_ofNat']
  omega

theorem uint32BE_foldl (b₀ b₁ b₂ b₃ : UInt8) :
    uint32BE ([b₀, b₁, b₂, b₃].foldl (fun n byte => n * 256 + byte.toNat) 0) =
      [b₀, b₁, b₂, b₃] := by
  have h₀ := b₀.toNat_lt
  have h₁ := b₁.toNat_lt
  have h₂ := b₂.toNat_lt
  have h₃ := b₃.toNat_lt
  simp only [uint32BE, List.foldl_cons, List.foldl_nil, List.cons.injEq, ← UInt8.toNat_inj,
    UInt8.toNat_ofNat', and_true]
  refine ⟨?_, ?_, ?_, ?_⟩ <;> omega

theorem four_bytes {bytes : Bytes} (four : bytes.length = 4) :
    ∃ b₀ b₁ b₂ b₃, bytes = [b₀, b₁, b₂, b₃] :=
  List.length_eq_four.mp four

theorem readUInt32BE_lt (bytes : Bytes) (offset : Nat) :
    readUInt32BE bytes offset < 4294967296 := by
  have step (n : Nat) (k : Nat) (bound : n < 256 ^ k) (b : UInt8) :
      n * 256 + b.toNat < 256 ^ (k + 1) := by
    have := b.toNat_lt
    rw [Nat.pow_succ]
    omega
  have fold (l : Bytes) : ∀ n k, n < 256 ^ k →
      l.foldl (fun n byte => n * 256 + byte.toNat) n < 256 ^ (k + l.length) := by
    induction l with
    | nil => exact fun _ _ bound => bound
    | cons b l ih =>
      intro n k bound
      have later := ih _ _ (step n k bound b)
      rwa [List.foldl_cons, List.length_cons, ← Nat.succ_add_eq_add_succ]
  have few : ((bytes.drop offset).take 4).length ≤ 4 := List.length_take_le _ _
  calc readUInt32BE bytes offset < 256 ^ (0 + ((bytes.drop offset).take 4).length) :=
        fold _ 0 0 Nat.zero_lt_one
    _ ≤ 256 ^ 4 := Nat.pow_le_pow_right (by decide) (by omega)

theorem readUInt32BE_append {bytes : Bytes} {offset : Nat} (inside : offset + 4 ≤ bytes.length)
    (more : Bytes) : readUInt32BE (bytes ++ more) offset = readUInt32BE bytes offset := by
  have enough : 4 ≤ (bytes.drop offset).length := by rw [List.length_drop]; omega
  rw [readUInt32BE, readUInt32BE, List.drop_append_of_le_length (by omega),
    List.take_append_of_le_length enough]

theorem readUInt32BE_front {n : Nat} (range : n < 4294967296) (rest : Bytes) :
    readUInt32BE (uint32BE n ++ rest) 0 = n := by
  rw [readUInt32BE, List.drop_zero, ← uint32BE_length n, List.take_left]
  exact foldl_uint32BE range

theorem drop_uint32BE (n : Nat) (rest : Bytes) : (uint32BE n ++ rest).drop 4 = rest := by
  rw [← uint32BE_length n, List.drop_left]

theorem uint32BE_readUInt32BE {bytes : Bytes} {offset : Nat} (inside : offset + 4 ≤ bytes.length) :
    uint32BE (readUInt32BE bytes offset) = (bytes.drop offset).take 4 := by
  have four : ((bytes.drop offset).take 4).length = 4 := by
    rw [List.length_take, List.length_drop]
    omega
  obtain ⟨b₀, b₁, b₂, b₃, split⟩ := four_bytes four
  rw [readUInt32BE, split, uint32BE_foldl]

/-! ### Frames -/

def frameBytes (flag : UInt8) (payload : Bytes) : Bytes :=
  flag :: (uint32BE payload.length ++ payload)

/-- The first frame: its flag, its payload and what follows it. -/
def takeFrame : Bytes → Option ((UInt8 × Bytes) × Bytes)
  | [] => none
  | flag :: bytes =>
    if 4 + readUInt32BE bytes 0 ≤ bytes.length then
      some ((flag, (bytes.drop 4).take (readUInt32BE bytes 0)),
        bytes.drop (4 + readUInt32BE bytes 0))
    else none

theorem takeFrame_eq_some {bytes rest payload : Bytes} {flag : UInt8} :
    takeFrame bytes = some ((flag, payload), rest) ↔
      payload.length < 4294967296 ∧ bytes = frameBytes flag payload ++ rest := by
  constructor
  · intro read
    cases bytes with
    | nil => cases read
    | cons first bytes =>
      rw [takeFrame] at read
      split_ifs at read with whole
      cases read
      have size : ((bytes.drop 4).take (readUInt32BE bytes 0)).length = readUInt32BE bytes 0 := by
        rw [List.length_take, List.length_drop]
        omega
      rw [frameBytes, size, uint32BE_readUInt32BE (by omega), List.drop_zero]
      refine ⟨readUInt32BE_lt bytes 0, ?_⟩
      rw [List.cons_append, List.append_assoc, ← List.drop_drop, List.take_append_drop,
        List.take_append_drop]
  · rintro ⟨range, rfl⟩
    have size := readUInt32BE_front range (payload ++ rest)
    rw [frameBytes, List.cons_append, List.append_assoc, takeFrame, size, ← List.drop_drop,
      drop_uint32BE, List.take_left, List.drop_left, if_pos]
    simp only [List.length_append, uint32BE_length]
    omega

theorem takeFrame_short {bytes : Bytes} (short : bytes.length < 5) : takeFrame bytes = none := by
  cases bytes with
  | nil => rfl
  | cons flag bytes =>
    rw [takeFrame, if_neg]
    rw [List.length_cons] at short
    omega

/-- The first frame behind an offset. -/
theorem takeFrame_drop {bytes : Bytes} {offset : Nat} (header : offset + 5 ≤ bytes.length) :
    takeFrame (bytes.drop offset) =
      if offset + 5 + readUInt32BE bytes (offset + 1) ≤ bytes.length then
        some ((bytes.getD offset 0,
            (bytes.drop (offset + 5)).take (readUInt32BE bytes (offset + 1))),
          bytes.drop (offset + 5 + readUInt32BE bytes (offset + 1)))
      else none := by
  have split : bytes.drop offset = bytes.getD offset 0 :: bytes.drop (offset + 1) := by
    rw [List.getD_eq_getElem bytes 0 (by omega), List.getElem_cons_drop]
  have length : readUInt32BE (bytes.drop (offset + 1)) 0 = readUInt32BE bytes (offset + 1) := by
    rw [readUInt32BE, readUInt32BE, List.drop_zero]
  have room : (bytes.drop (offset + 1)).length = bytes.length - (offset + 1) := List.length_drop
  rw [split, takeFrame, length, room, List.drop_drop, List.drop_drop, ← Nat.add_assoc]
  apply if_congr
  · omega
  · rfl
  · rfl

def frameReader : Reader UInt8 (UInt8 × Bytes) where
  take := takeFrame
  shrinks := by
    intro bytes rest ⟨flag, payload⟩ read
    obtain ⟨-, rfl⟩ := takeFrame_eq_some.mp read
    simp only [frameBytes, List.cons_append, List.length_cons, List.length_append]
    omega
  stable := by
    intro bytes rest ⟨flag, payload⟩ read more
    obtain ⟨range, rfl⟩ := takeFrame_eq_some.mp read
    exact takeFrame_eq_some.mpr ⟨range, List.append_assoc _ _ _⟩

theorem frame_spells {payload : Bytes} (range : payload.length < 4294967296) (flag : UInt8) :
    Spells frameReader (flag, payload) (frameBytes flag payload) :=
  fun _ => takeFrame_eq_some.mpr ⟨range, rfl⟩

theorem drain_frames_front (bytes : Bytes) : ∃ wires,
    List.Forall₂ (fun frame wire => wire = frameBytes frame.1 frame.2)
      (drain frameReader bytes).1 wires ∧
    bytes = wires.flatten ++ (drain frameReader bytes).2 := by
  apply drain_front
  intro bytes rest ⟨flag, payload⟩ read
  exact ⟨_, rfl, (takeFrame_eq_some.mp read).2⟩

end NeuralMesh.Codec
