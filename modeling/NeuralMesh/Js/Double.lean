import NeuralMesh.Js.Parse

/-! Binary64 arithmetic on exact fractions. A finite number is represented by the
shortest decimal that denotes it, which is the one that is printed; an operation
takes the exact result to the nearest double, ties to even, and to an infinity
beyond the largest one. -/
namespace NeuralMesh.Js

/-- A non-negative fraction; the denominator is positive. -/
structure Fraction where
  num : Nat
  den : Nat

namespace Fraction

def zero : Fraction := ⟨0, 1⟩

def scale (q : Fraction) (base : Nat) (e : Int) : Fraction :=
  if 0 ≤ e then ⟨q.num * base ^ e.toNat, q.den⟩ else ⟨q.num, q.den * base ^ (-e).toNat⟩

def equals (p q : Fraction) : Bool := p.num * q.den == q.num * p.den

def times (q : Fraction) (n : Nat) : Fraction := ⟨q.num * n, q.den⟩

/-- The nearest integer, ties to even. -/
def roundEven (q : Fraction) : Nat :=
  let floor := q.num / q.den
  let rest := 2 * (q.num % q.den)
  if rest < q.den ∨ (rest = q.den ∧ floor % 2 = 0) then floor else floor + 1

/-- `Math.round`: the nearest integer, ties up. -/
def roundUp (q : Fraction) : Nat := (2 * q.num + q.den) / (2 * q.den)

/-- The exponent of the largest power of two that is not above a positive fraction. -/
def binade (q : Fraction) : Int :=
  let e : Int := q.num.log2 - q.den.log2
  let power := scale ⟨1, 1⟩ 2 e
  if power.num * q.den ≤ q.num * power.den then e else e - 1

/-- The nearest double; `none` is an overflow. -/
def nearest (q : Fraction) : Option Fraction :=
  if q.num = 0 then some zero
  else
    -- 53 significant bits, or fewer among the subnormal numbers
    let e := max (q.binade - 52) (-1074)
    let x := scale ⟨(q.scale 2 (-e)).roundEven, 1⟩ 2 e
    if 2 ^ 1024 * x.den ≤ x.num then none else some x

end Fraction

open Fraction

def magnitude (d : Decimal) : Fraction := scale ⟨d.coefficient.natAbs, 1⟩ 10 d.exponent

/-- The double that a decimal denotes, without its sign. -/
def doubleMagnitude (d : Decimal) : Option Fraction := (magnitude d).nearest

def denotes (x : Fraction) (d : Decimal) : Bool :=
  match doubleMagnitude d with
  | some y => y.equals x
  | none => false

/-- The number of digits of a positive double before the point, less the zeros after it. -/
def pointPosition (x : Fraction) : Int :=
  if x.den ≤ x.num then (natText (x.num / x.den)).length
  else 1 - (natText ((x.den - 1) / x.num)).length

/-- The decimal with this many digits that is closest to the double. -/
def closest (x : Fraction) (digits : Nat) : Decimal :=
  let e := pointPosition x - digits
  Decimal.normalize (x.scale 10 (-e)).roundEven e

/-- Seventeen digits denote any double. -/
def shortest (x : Fraction) : Decimal :=
  if x.num = 0 then 0
  else (((List.range 17).map fun k => closest x (k + 1)).find? (denotes x)).getD (closest x 17)

def ofFraction (negative : Bool) (q : Fraction) : JsNumber :=
  match q.nearest with
  | none => .infinite negative
  | some x =>
    if negative then .finite (Decimal.normalize (-(shortest x).coefficient) (shortest x).exponent)
    else .finite (shortest x)

/-- The number that a decimal literal denotes. -/
def toDouble (d : Decimal) : JsNumber := ofFraction (d.coefficient < 0) (magnitude d)

mutual

def asDoubles : JsValue → JsValue
  | .num (.finite d) => .num (toDouble d)
  | .arr elements => .arr (asDoublesAll elements)
  | .obj members => .obj (asDoublesMembers members)
  | v => v

def asDoublesAll : List JsValue → List JsValue
  | [] => []
  | v :: vs => asDoubles v :: asDoublesAll vs

def asDoublesMembers : List (JsString × JsValue) → List (JsString × JsValue)
  | [] => []
  | (k, v) :: ms => (k, asDoubles v) :: asDoublesMembers ms

end

/-- `JSON.parse` of a text that need not come from `JSON.stringify`. -/
def parseDoubles (text : Text) : Option JsValue := (parse text).map asDoubles

end NeuralMesh.Js
