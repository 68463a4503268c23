import NeuralMesh.Codec.Base64
import NeuralMesh.Js.StringText

/-! Lower-case hexadecimal text of bytes. -/
namespace NeuralMesh.Codec

open NeuralMesh.Js

def hexText : Bytes → Text
  | [] => []
  | b :: bs => hexDigit (b.toNat / 16) :: hexDigit (b.toNat % 16) :: hexText bs

theorem hexDigit_injective {m n : Nat} (left : m < 16) (right : n < 16)
    (same : hexDigit m = hexDigit n) : m = n := by
  have values := congrArg hexValue same
  rw [hexValue_hexDigit m left, hexValue_hexDigit n right] at values
  exact Option.some.inj values

theorem hexText_injective : Function.Injective hexText := by
  intro a b same
  induction a generalizing b with
  | nil =>
    cases b with
    | nil => rfl
    | cons c b => cases same
  | cons c a ih =>
    cases b with
    | nil => cases same
    | cons d b =>
      simp only [hexText, List.cons.injEq] at same
      obtain ⟨upper, lower, rest⟩ := same
      have bounds := And.intro c.toNat_lt d.toNat_lt
      have high := hexDigit_injective (by omega) (by omega) upper
      have low := hexDigit_injective (by omega) (by omega) lower
      have byte : c = d := UInt8.toNat_inj.mp (by omega)
      rw [byte, ih rest]

theorem hexText_length (bytes : Bytes) : (hexText bytes).length = 2 * bytes.length := by
  induction bytes with
  | nil => rfl
  | cons b bytes ih =>
    rw [hexText, List.length_cons, List.length_cons, ih, List.length_cons]
    omega

/-- `Buffer.from(text, "hex")`, up to the first pair that is no byte. -/
def hexBytes : Text → Bytes
  | a :: b :: text =>
    match hexValue a, hexValue b with
    | some high, some low => UInt8.ofNat (high * 16 + low) :: hexBytes text
    | _, _ => []
  | _ => []

theorem hexBytes_hexText (bytes : Bytes) : hexBytes (hexText bytes) = bytes := by
  induction bytes with
  | nil => rfl
  | cons b bs ih =>
    have bound := b.toNat_lt
    rw [hexText, hexBytes, hexValue_hexDigit _ (by omega), hexValue_hexDigit _ (by omega), ih]
    dsimp only
    rw [byte_eq (b := b) (by omega)]

end NeuralMesh.Codec
