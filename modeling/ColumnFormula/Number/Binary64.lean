/-!
# Doubles as whole numbers of units

Every finite double is a whole number of units of `2 ^ -1074`. Its bits without the
sign, read as a number, are its *magnitude*: magnitudes count the non-negative doubles in
increasing order, from zero to `infinity`. `units` gives the value of a magnitude and
`nearest` the magnitude closest to a quotient; `place` puts a double on the number line,
both zeros at one point and a NaN nowhere.
-/

namespace ColumnFormula.Binary64

-- Powers are those of the core library, also beside a library that has its own.
attribute [local instance (high)] instPowNat

/-- The magnitude of an infinite double. Larger ones belong to NaNs. -/
def infinity : Nat := 2047 * 2 ^ (52 : Nat)

/-- The value of a magnitude, in units of `2 ^ -1074`. -/
def units (k : Nat) : Nat :=
  let shift := k / 2 ^ (52 : Nat) - 1
  (k - shift * 2 ^ (52 : Nat)) * 2 ^ shift

/-- A quotient to the nearest whole number, a half to the even one. -/
def divHalfEven (num den : Nat) : Nat :=
  let q := num / den
  let twice := 2 * (num % den)
  if twice < den then q else if den < twice then q + 1 else q + q % 2

/-- The magnitude nearest to `num / den`, a half to the even one. -/
def nearest (num den : Nat) : Nat :=
  let scaled := num * 2 ^ (1074 : Nat)
  let shift := (scaled / den).log2 - 52
  min (shift * 2 ^ (52 : Nat) + divHalfEven scaled (den * 2 ^ shift)) infinity

/-- Every whole number below this is a double. -/
def wholes : Nat := 2 ^ (53 : Nat)

def magnitude (x : Float) : Nat := x.toBits.toNat % 2 ^ (63 : Nat)

/-- The sign bit, set for the negative zero too. -/
def isNegative (x : Float) : Bool := 2 ^ (63 : Nat) ≤ x.toBits.toNat

def isNaN (x : Float) : Bool := infinity < magnitude x

def ofMagnitude (negative : Bool) (k : Nat) : Float :=
  Float.ofBits (UInt64.ofNat (if negative then 2 ^ (63 : Nat) + k else k))

/-- The double nearest to a whole number, a half to the even one. -/
def ofInt (i : Int) : Float := ofMagnitude (i < 0) (nearest i.natAbs 1)

def nan : Float := ofMagnitude false (infinity + 2 ^ (51 : Nat))

/-- Where a double stands among the others: its signed magnitude, none for a NaN. -/
def place (x : Float) : Option Int :=
  if isNaN x then none
  else some (if isNegative x then -(magnitude x : Int) else magnitude x)

/-- Equality of numbers: the zeros are equal, and a NaN equals nothing. -/
def equals (x y : Float) : Bool :=
  match place x, place y with
  | some p, some q => p == q
  | _, _ => false

/-- The order of numbers: a NaN is neither below nor above anything. -/
def less (x y : Float) : Bool :=
  match place x, place y with
  | some p, some q => p < q
  | _, _ => false

/-- The total order: all NaNs are one value, above every number. -/
def order (x y : Float) : Ordering :=
  match place x, place y with
  | some p, some q => compare p q
  | some _, none => .lt
  | none, some _ => .gt
  | none, none => .eq

/-- Equality under the total order. -/
def same (x y : Float) : Bool := place x == place y

theorem same_iff {x y : Float} : same x y = true ↔ place x = place y := by simp [same]

theorem equals_comm (x y : Float) : equals x y = equals y x := by
  unfold equals; cases place x <;> cases place y <;> simp [Bool.beq_comm]

end ColumnFormula.Binary64
