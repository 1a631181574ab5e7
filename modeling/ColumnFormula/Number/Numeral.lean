import ColumnFormula.Number.Decimal

/-!
# Numerals

The written forms of numbers. A real is written with the fewest digits that read back,
always with a fraction or an exponent, so that it never looks like an integer. Reading a
numeral gives the nearest double (`real?`); it takes more forms than are written.
-/

namespace ColumnFormula.Numeral

/-! ## Writing -/

def ofNat (n : Nat) : List Char := Nat.toDigits 10 n

def ofInt (i : Int) : List Char :=
  if i < 0 then '-' :: ofNat i.natAbs else ofNat i.natAbs

/-- Digits with the point `point` places from their start, filled up with zeros. -/
def positional (digits : List Char) (point : Int) : List Char :=
  if point ≤ 0 then '0' :: '.' :: (List.replicate (-point).toNat '0' ++ digits)
  else if digits.length ≤ point.toNat then
    digits ++ List.replicate (point.toNat - digits.length) '0' ++ ['.', '0']
  else digits.take point.toNat ++ '.' :: digits.drop point.toNat

/-- The same number as one digit, the others after a point, and a power of ten. -/
def scientific (digits : List Char) (point : Int) : List Char :=
  let power := 'e' :: ofInt (point - 1)
  match digits with
  | [] => power
  | [d] => d :: power
  | d :: ds => d :: '.' :: (ds ++ power)

/-- Numbers from `1e-4` up to `1e16` are written in positional form. -/
def ofDecimal (d : Decimal) : List Char :=
  let digits := ofNat d.digits
  let point := digits.length + d.exponent
  if -4 < point ∧ point ≤ 16 then positional digits point else scientific digits point

def ofMagnitude (k : Nat) : List Char :=
  if k = 0 then ['0', '.', '0']
  else if k = Binary64.infinity then ['i', 'n', 'f']
  else ofDecimal (Decimal.shortest k)

/-- The written form of a real. A NaN has no sign. -/
def ofReal (x : Float) : List Char :=
  if Binary64.isNaN x then ['N', 'a', 'N']
  else if Binary64.isNegative x then '-' :: ofMagnitude (Binary64.magnitude x)
  else ofMagnitude (Binary64.magnitude x)

/-! ## Reading -/

def digits? (cs : List Char) : Option Nat :=
  if cs ≠ [] ∧ cs.all Char.isDigit then some (Nat.ofDigitChars 10 cs 0) else none

/-- The sign in front of a numeral, set for a minus, and what follows. -/
def sign : List Char → Bool × List Char
  | '-' :: cs => (true, cs)
  | '+' :: cs => (false, cs)
  | cs => (false, cs)

def integer? (cs : List Char) : Option Int :=
  let (negative, cs) := sign cs
  (digits? cs).map fun n => if negative then -(n : Int) else n

/-- The exponent at the end of a numeral: none written is zero. -/
def exponent? : List Char → Option Int
  | [] => some 0
  | c :: cs => if c = 'e' ∨ c = 'E' then integer? cs else none

/-- Digits around an optional point, at least one of them, and an optional exponent. -/
def decimal? (cs : List Char) : Option Decimal :=
  let whole := cs.takeWhile Char.isDigit
  let rest := cs.dropWhile Char.isDigit
  let (fraction, rest) :=
    match rest with
    | '.' :: rest => (rest.takeWhile Char.isDigit, rest.dropWhile Char.isDigit)
    | rest => ([], rest)
  if whole = [] ∧ fraction = [] then none
  else (exponent? rest).map fun e =>
    ⟨Nat.ofDigitChars 10 (whole ++ fraction) 0, e - fraction.length⟩

/-- A signed numeral, or in any letter case the name of an infinity or of a NaN. -/
def real? (cs : List Char) : Option Float :=
  let (negative, cs) := sign cs
  let name := String.ofList (cs.map Char.toLower)
  if name = "inf" ∨ name = "infinity" then some (Binary64.ofMagnitude negative Binary64.infinity)
  else if name = "nan" then some Binary64.nan
  else (decimal? cs).map fun d => Binary64.ofMagnitude negative d.magnitude

theorem digits?_ofNat (n : Nat) : digits? (ofNat n) = some n := by
  have h : ∀ c ∈ Nat.toDigits 10 n, c.isDigit = true := fun _ =>
    Nat.isDigit_of_mem_toDigits (by decide) (by decide)
  simpa [digits?, ofNat, Nat.toDigits_ne_nil, Nat.ofDigitChars_ten_toDigits] using h

end ColumnFormula.Numeral
