import ColumnFormula.Proofs.Number.Bits
import ColumnFormula.Proofs.Number.Rounding

/-!
# Whole numbers among the doubles

A finite double has an exact value (`value?`), and two doubles are equal as numbers exactly if
neither is a NaN and the values are one (`equals_iff_value?`). A whole number below `2 ^ 53`, of
either sign, is the value of the double that it is rounded to (`represents_ofInt`).
-/

namespace ColumnFormula.Binary64

variable {x y : Float} {i j : Int} {v : Int}

/-! ## Exact values -/

/-- A quantity under the sign bit. -/
def signed (negative : Bool) (n : Nat) : Int := if negative then -n else n

/-- The exact value of a finite double, in units of `2 ^ -1074`. -/
def value? (x : Float) : Option Int :=
  if magnitude x < infinity then some (signed (isNegative x) (units (magnitude x))) else none

/-- The double is finite, and its exact value is the whole number. -/
def Represents (x : Float) (i : Int) : Prop := value? x = some (i * (2 ^ 1074 : Nat))

theorem value?_eq_some_iff :
    value? x = some v ↔
      magnitude x < infinity ∧ signed (isNegative x) (units (magnitude x)) = v := by
  rw [value?]
  split <;> simp_all

theorem place_eq_some_iff {p : Int} :
    place x = some p ↔ isNaN x = false ∧ signed (isNegative x) (magnitude x) = p := by
  rw [place]
  cases isNaN x <;> simp [signed]

theorem isNaN_of_finite (h : magnitude x < infinity) : isNaN x = false :=
  decide_eq_false (Nat.not_lt.2 (Nat.le_of_lt h))

theorem units_zero : units 0 = 0 := units_of_lt (by decide)

theorem units_injective {j k : Nat} (h : units j = units k) : j = k := by
  rcases Nat.lt_trichotomy j k with lt | eq | gt
  · have := units_lt lt
    omega
  · exact eq
  · have := units_lt gt
    omega

/-- On the number line doubles stand as their values do. -/
theorem signed_units {a b : Bool} {j k : Nat} :
    signed a (units j) = signed b (units k) ↔ signed a j = signed b k := by
  have positive : ∀ {n : Nat}, units n = 0 ↔ n = 0 := fun {n} =>
    ⟨fun h => units_injective (h.trans units_zero.symm), fun h => h ▸ units_zero⟩
  have zero := @positive j
  have zero' := @positive k
  have same : units j = units k ↔ j = k := ⟨units_injective, congrArg units⟩
  cases a <;> cases b <;> simp only [signed, Bool.false_eq_true, if_false, if_true] <;> omega

/-- Only a finite double of the same value equals one that is finite. -/
theorem equals_iff_value? (hx : value? x = some v) : equals x y = true ↔ value? y = some v := by
  obtain ⟨finite, rfl⟩ := value?_eq_some_iff.1 hx
  have px := place_eq_some_iff.2 ⟨isNaN_of_finite finite, rfl⟩
  rw [equals, px, value?_eq_some_iff]
  cases py : place y with
  | none =>
    refine ⟨nofun, fun h => ?_⟩
    rw [place_eq_some_iff.2 ⟨isNaN_of_finite h.1, rfl⟩] at py
    cases py
  | some p =>
    obtain ⟨-, rfl⟩ := place_eq_some_iff.1 py
    simp only [beq_iff_eq]
    rw [eq_comm, ← signed_units, iff_and_self]
    intro h
    have level := signed_units.1 h
    unfold signed at level
    split at level <;> split at level <;> omega

/-! ## Whole numbers -/

/-- Below `2 ^ 53` every whole number is the value of a magnitude. -/
theorem exists_units {n : Nat} (h : n < 2 ^ 53) :
    ∃ k < infinity, units k = n * 2 ^ 1074 := by
  rcases Nat.eq_zero_or_pos n with rfl | hn
  · exact ⟨0, by decide, by rw [units_zero, Nat.zero_mul]⟩
  obtain ⟨low, high⟩ := (Nat.log2_eq_iff (by omega)).1 (rfl : n.log2 = n.log2)
  have bits : n.log2 ≤ 52 := by
    have := (Nat.log2_lt (by omega)).2 h
    omega
  -- as many bits below the leading one as a significand has
  have least : 2 ^ 52 ≤ n * 2 ^ (52 - n.log2) :=
    calc 2 ^ 52 = 2 ^ n.log2 * 2 ^ (52 - n.log2) := by rw [← Nat.pow_add]; congr 1; omega
      _ ≤ _ := Nat.mul_le_mul_right _ low
  have greatest : n * 2 ^ (52 - n.log2) < 2 ^ 53 :=
    calc n * 2 ^ (52 - n.log2) < 2 ^ (n.log2 + 1) * 2 ^ (52 - n.log2) :=
          Nat.mul_lt_mul_of_pos_right high (Nat.two_pow_pos _)
      _ = 2 ^ 53 := by rw [← Nat.pow_add]; congr 1; omega
  refine ⟨(1022 + n.log2) * 2 ^ 52 + n * 2 ^ (52 - n.log2), ?_, ?_⟩
  · have : infinity = 2047 * 2 ^ 52 := rfl
    omega
  · rw [units_shifted least (Nat.le_of_lt greatest), Nat.mul_assoc, ← Nat.pow_add]
    congr 2
    omega

theorem divHalfEven_zero (d : Nat) : divHalfEven 0 d = 0 := by simp [divHalfEven]

theorem nearest_zero (d : Nat) : nearest 0 d = 0 := by
  simp only [nearest, Nat.zero_mul, Nat.zero_div, Nat.log2_zero, Nat.zero_sub, divHalfEven_zero,
    Nat.add_zero, Nat.zero_min]

theorem nearest_whole {n : Nat} (h : n < 2 ^ 53) :
    nearest n 1 < infinity ∧ units (nearest n 1) = n * 2 ^ 1074 := by
  rcases Nat.eq_zero_or_pos n with rfl | hn
  · rw [nearest_zero, units_zero, Nat.zero_mul]
    exact ⟨by decide, rfl⟩
  obtain ⟨k, finite, value⟩ := exists_units h
  have positive : 0 < k := by
    rcases Nat.eq_zero_or_pos k with rfl | hk
    · have := Nat.mul_pos hn (Nat.two_pow_pos 1074)
      rw [units_zero] at value
      omega
    · exact hk
  have cell : Cell k (2 * units k * 1) 1 := cell_self Nat.one_pos positive
  rw [Nat.mul_one, value] at cell
  rw [nearest_eq Nat.one_pos cell finite]
  exact ⟨finite, value⟩

theorem represents_ofInt (h : i.natAbs < wholes) : Represents (ofInt i) i := by
  obtain ⟨finite, value⟩ := nearest_whole (n := i.natAbs) h
  obtain ⟨magnitude, sign⟩ := magnitude_ofMagnitude (i < 0) (Nat.le_of_lt finite)
  rw [Represents, value?_eq_some_iff, ofInt, magnitude, sign, value]
  refine ⟨finite, ?_⟩
  generalize 2 ^ 1074 = one
  rcases lt_or_ge i 0 with negative | nonnegative
  · simp only [signed, decide_eq_true negative, if_true]
    rw [Int.natCast_mul, ← Int.neg_mul]
    congr 1
    omega
  · simp only [signed, decide_eq_false (Int.not_lt.2 nonnegative), Bool.false_eq_true, if_false]
    rw [Int.natCast_mul]
    congr 1
    omega

theorem Represents.unique (hi : Represents x i) (hj : Represents x j) : i = j := by
  have same := Option.some.inj (hi.symm.trans hj)
  exact Int.eq_of_mul_eq_mul_right (by positivity) same

end ColumnFormula.Binary64
