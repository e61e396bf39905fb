/- The shortest decimal that reads back as a given binary floating-point number. -/
namespace SoliditySession

/-- `digits * 10 ^ exponent`. -/
structure Decimal where
  negative : Bool
  digits : Nat
  exponent : Int

namespace Decimal

/-- A positive number between its neighbours: `value`, `low` and `high` over the denominator `den`,
where `low` and `high` are the midpoints to the neighbours and count as inside if `closed`. -/
structure Gap where
  value : Nat
  low : Nat
  high : Nat
  den : Nat
  closed : Bool

/-- The gap around `mantissa * 2 ^ (exponent - 1074)`; a lower neighbour in the next smaller
binade is half as far away. -/
def gap (mantissa exponent : Nat) (binadeStart : Bool) : Gap :=
  let scale := Nat.pow 2 exponent
  { value := 4 * mantissa * scale
    low := (4 * mantissa - if binadeStart then 1 else 2) * scale
    high := (4 * mantissa + 2) * scale
    den := 4 * Nat.pow 2 1074
    closed := mantissa % 2 == 0 }

def Gap.inside (g : Gap) (num den : Nat) : Bool :=
  if g.closed then g.low * den ≤ num * g.den && num * g.den ≤ g.high * den
  else g.low * den < num * g.den && num * g.den < g.high * den

/-- The least `k ≤ bound` with `den ≤ num * 10 ^ k`. -/
def shift (num den : Nat) : Nat → Nat
  | 0 => 0
  | bound + 1 => if den ≤ num then 0 else 1 + shift (num * 10) den bound

/-- The power of ten of the leading digit. -/
def Gap.magnitude (g : Gap) : Int :=
  if g.den ≤ g.value then ((Nat.toDigits 10 (g.value / g.den)).length : Int) - 1
  else -(shift g.value g.den 400 : Int)

/-- The nearer of the two neighbours on the grid of `10 ^ unit` that lies inside; of two equally near
ones the even one. -/
def Gap.onGrid (g : Gap) (unit : Int) : Option Nat :=
  let up := Nat.pow 10 unit.toNat
  let down := Nat.pow 10 (-unit).toNat
  let c := g.value * down / (g.den * up)
  let floorIn := g.inside (c * up) down
  let ceilIn := g.inside ((c + 1) * up) down
  let below := g.value * down - c * up * g.den
  let above := (c + 1) * up * g.den - g.value * down
  if floorIn && (!ceilIn || below < above || (below == above && c % 2 == 0)) then some c
  else if ceilIn then some (c + 1)
  else none

def Gap.shortest (g : Gap) : Nat → Int → Nat × Int
  | 0, unit => (g.value * Nat.pow 10 (-unit).toNat / (g.den * Nat.pow 10 unit.toNat), unit)
  | n + 1, unit =>
    match g.onGrid unit with
    | some d => if d == 10 then (1, unit + 1) else (d, unit)
    | none => g.shortest n (unit - 1)

/-- The shortest decimal for the finite number with the given bits. -/
def ofBits (bits : UInt64) : Decimal :=
  let n := bits.toNat
  let negative := n / Nat.pow 2 63 == 1
  let e := n / Nat.pow 2 52 % Nat.pow 2 11
  let f := n % Nat.pow 2 52
  if e == 0 && f == 0 then ⟨negative, 0, 0⟩
  else
    let g := if e == 0 then gap f 0 false else gap (f + Nat.pow 2 52) (e - 1) (f == 0 && e > 1)
    let (d, unit) := g.shortest 17 g.magnitude
    ⟨negative, d, unit⟩

def sign (d : Decimal) : String := if d.negative then "-" else ""

/-- The power of ten of the leading digit. -/
def magnitude (d : Decimal) : Int := d.exponent + (Nat.toDigits 10 d.digits).length - 1

/-- All places written out, with at least one behind the point. -/
def positional (d : Decimal) : String :=
  let ds := Nat.toDigits 10 d.digits
  let zeros := if d.digits == 0 then 0 else d.exponent.toNat
  let places := (-d.exponent).toNat
  let written := List.replicate (places + 1 - ds.length) '0' ++ ds ++ List.replicate zeros '0'
  let whole := written.length - places
  d.sign ++ String.ofList
    (written.take whole ++ '.' :: if places == 0 then ['0'] else written.drop whole)

/-- One digit before the point, which stands only if more digits follow, and the power of ten
with its sign. -/
def scientific (d : Decimal) : String :=
  let ds := Nat.toDigits 10 d.digits
  let fraction := if ds.length ≤ 1 then [] else '.' :: ds.drop 1
  d.sign ++ String.ofList (ds.take 1 ++ fraction) ++
    (if d.magnitude < 0 then "e-" else "e+") ++ toString d.magnitude.natAbs

/-- Positional if the leading digit stands at most sixteen places before the point and at most five
behind it. -/
def text (d : Decimal) : String :=
  if -5 ≤ d.magnitude && d.magnitude < 16 then d.positional else d.scientific

end Decimal
end SoliditySession
