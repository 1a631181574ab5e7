import ColumnFormula.Number.Binary64

/-!
# Decimals

A decimal is a whole number scaled by a power of ten. `Decimal.magnitude` rounds one to
the nearest double; `Decimal.shortest` goes back, to the decimal with the fewest digits
among those that round to a given double.
-/

namespace ColumnFormula

/-- The number `digits * 10 ^ exponent`. -/
structure Decimal where
  digits : Nat
  exponent : Int
  deriving DecidableEq, Repr

namespace Decimal

open Binary64

-- As in `Binary64`.
attribute [local instance (high)] instPowNat

/-- A decimal as a quotient of whole numbers. -/
def quotient (d : Decimal) : Nat × Nat :=
  if 0 ≤ d.exponent then (d.digits * 10 ^ d.exponent.toNat, 1)
  else (d.digits, 10 ^ (-d.exponent).toNat)

/-- The magnitude of the nearest double. Decimals beyond every finite double, and those
closer to zero than to any other, are told by their exponent alone. -/
def magnitude (d : Decimal) : Nat :=
  if d.digits = 0 then 0
  else if 309 ≤ d.exponent then infinity
  else if d.exponent < -(d.digits.log2 + 1100 : Nat) then 0
  else nearest d.quotient.1 d.quotient.2

/-! ## The shortest decimal -/

/-- `value * scale` lies among the numbers that round to the magnitude `k`. Numbers are
counted in half units, and the ends belong to an even magnitude. -/
def rounds (k : Nat) (value scale : Nat) : Bool :=
  let low := (units (k - 1) + units k) * scale
  let high := (units k + units (k + 1)) * scale
  (low < value && value < high) || (k % 2 == 0 && (value == low || value == high))

/-- The multiple of `step` nearest to `value`, counted in steps, of those two next to it that
are hits. Of two equally near the greater is taken. -/
def nearestHit (hit : Nat → Bool) (value step : Nat) : Option Nat :=
  let below := value / step
  match hit below, hit (below + 1) with
  | true, true => some (if 2 * (value % step) < step then below else below + 1)
  | true, false => some below
  | false, true => some (below + 1)
  | false, false => none

/-- The multiple of `10 ^ exponent` nearest to the magnitude `k`, if one rounds to it. -/
def onGrid (k : Nat) (exponent : Int) : Option Nat :=
  let step := 2 ^ (1075 : Nat) * 10 ^ exponent.toNat
  let scale := 10 ^ (-exponent).toNat
  nearestHit (fun n => rounds k (n * step) scale) (2 * units k * scale) step

/-- The first hit on ever finer grids, of which there are `n`. -/
def firstHit (grid : Int → Option Nat) (exponent : Int) : Nat → Option Decimal
  | 0 => none
  | n + 1 =>
    match grid exponent with
    | some digits => some ⟨digits, exponent⟩
    | none => firstHit grid (exponent - 1) n

/-- The exponent of a grid too coarse to tell a positive finite magnitude from zero, or
just fine enough. A power of two has `30103 / 100000` as many decimal digits as binary. -/
def coarsest (k : Nat) : Int := ((units k).log2 - 1073 : Int) * 30103 / 100000 + 1

/-- The decimal with the fewest digits that rounds to a positive finite magnitude, the
nearest one of those. The exact value stands at the end of the search. -/
def shortest (k : Nat) : Decimal :=
  (firstHit (onGrid k) (coarsest k) 25).getD ⟨units k * 5 ^ (1074 : Nat), -1074⟩

theorem magnitude_zero (e : Int) : magnitude ⟨0, e⟩ = 0 := by simp [magnitude]

end Decimal

end ColumnFormula
