import NeuralMesh.Js.Decimal

/-! Base64 with padding. The decoder skips every character outside the
alphabet, so white space and padding are ignored. -/
namespace NeuralMesh.Codec

open NeuralMesh.Js (Text)

abbrev Bytes := List UInt8

def sextetChar (n : Nat) : Char :=
  if n < 26 then Char.ofNat (n + 65)
  else if n < 52 then Char.ofNat (n + 71)
  else if n < 62 then Char.ofNat (n - 4)
  else if n = 62 then '+'
  else '/'

/-- Both the standard and the URL alphabet are accepted. -/
def charSextet (c : Char) : Option Nat :=
  let n := c.toNat
  if 65 ≤ n ∧ n ≤ 90 then some (n - 65)
  else if 97 ≤ n ∧ n ≤ 122 then some (n - 71)
  else if 48 ≤ n ∧ n ≤ 57 then some (n + 4)
  else if c = '+' ∨ c = '-' then some 62
  else if c = '/' ∨ c = '_' then some 63
  else none

def base64Text : Bytes → Text
  | [] => []
  | [a] => [sextetChar (a.toNat / 4), sextetChar (a.toNat % 4 * 16), '=', '=']
  | [a, b] => [sextetChar (a.toNat / 4), sextetChar (a.toNat % 4 * 16 + b.toNat / 16),
      sextetChar (b.toNat % 16 * 4), '=']
  | a :: b :: c :: rest =>
    sextetChar (a.toNat / 4) :: sextetChar (a.toNat % 4 * 16 + b.toNat / 16) ::
      sextetChar (b.toNat % 16 * 4 + c.toNat / 64) :: sextetChar (c.toNat % 64) :: base64Text rest

def sextetBytes : List Nat → Bytes
  | a :: b :: c :: d :: rest =>
    UInt8.ofNat (a * 4 + b / 16) :: UInt8.ofNat (b % 16 * 16 + c / 4) ::
      UInt8.ofNat (c % 4 * 64 + d) :: sextetBytes rest
  | [a, b, c] => [UInt8.ofNat (a * 4 + b / 16), UInt8.ofNat (b % 16 * 16 + c / 4)]
  | [a, b] => [UInt8.ofNat (a * 4 + b / 16)]
  | _ => []

def base64Bytes (text : Text) : Bytes := sextetBytes (text.filterMap charSextet)

theorem charSextet_sextetChar : ∀ n < 64, charSextet (sextetChar n) = some n := by decide

/-- Every character of base64 text is a 7-bit character. -/
theorem sextetChar_ascii : ∀ n < 64, (sextetChar n).toNat < 128 := by decide

theorem byte_eq {n : Nat} {b : UInt8} (value : n = b.toNat) : UInt8.ofNat n = b := by
  rw [value, UInt8.ofNat_toNat]

theorem base64Bytes_base64Text (bytes : Bytes) : base64Bytes (base64Text bytes) = bytes := by
  have bound (b : UInt8) : b.toNat < 256 := b.toNat_lt
  have padding : charSextet '=' = none := by decide
  unfold base64Bytes
  induction bytes using base64Text.induct with
  | case1 => rfl
  | case2 a =>
    have first := bound a
    simp only [base64Text, List.filterMap_cons, List.filterMap_nil, padding,
      charSextet_sextetChar _ (show a.toNat / 4 < 64 by omega),
      charSextet_sextetChar _ (show a.toNat % 4 * 16 < 64 by omega), sextetBytes]
    rw [byte_eq (b := a) (by omega)]
  | case3 a b =>
    have first := bound a
    have second := bound b
    simp only [base64Text, List.filterMap_cons, List.filterMap_nil, padding,
      charSextet_sextetChar _ (show a.toNat / 4 < 64 by omega),
      charSextet_sextetChar _ (show a.toNat % 4 * 16 + b.toNat / 16 < 64 by omega),
      charSextet_sextetChar _ (show b.toNat % 16 * 4 < 64 by omega), sextetBytes]
    rw [byte_eq (b := a) (by omega), byte_eq (b := b) (by omega)]
  | case4 a b c rest ih =>
    have first := bound a
    have second := bound b
    have third := bound c
    simp only [base64Text, List.filterMap_cons,
      charSextet_sextetChar _ (show a.toNat / 4 < 64 by omega),
      charSextet_sextetChar _ (show a.toNat % 4 * 16 + b.toNat / 16 < 64 by omega),
      charSextet_sextetChar _ (show b.toNat % 16 * 4 + c.toNat / 64 < 64 by omega),
      charSextet_sextetChar _ (show c.toNat % 64 < 64 by omega), sextetBytes, ih]
    rw [byte_eq (b := a) (by omega), byte_eq (b := b) (by omega), byte_eq (b := c) (by omega)]

theorem base64Text_ascii (bytes : Bytes) : ∀ c ∈ base64Text bytes, c.toNat < 128 := by
  have bound (b : UInt8) : b.toNat < 256 := b.toNat_lt
  induction bytes using base64Text.induct with
  | case1 => simp [base64Text]
  | case2 a =>
    have first := bound a
    simp only [base64Text, List.forall_mem_cons, List.not_mem_nil, false_implies, implies_true,
      and_true]
    exact ⟨sextetChar_ascii _ (by omega), sextetChar_ascii _ (by omega), by decide, by decide⟩
  | case3 a b =>
    have first := bound a
    have second := bound b
    simp only [base64Text, List.forall_mem_cons, List.not_mem_nil, false_implies, implies_true,
      and_true]
    exact ⟨sextetChar_ascii _ (by omega), sextetChar_ascii _ (by omega),
      sextetChar_ascii _ (by omega), by decide⟩
  | case4 a b c rest ih =>
    have first := bound a
    have second := bound b
    have third := bound c
    simp only [base64Text, List.forall_mem_cons]
    exact ⟨sextetChar_ascii _ (by omega), sextetChar_ascii _ (by omega),
      sextetChar_ascii _ (by omega), sextetChar_ascii _ (by omega), ih⟩

end NeuralMesh.Codec
