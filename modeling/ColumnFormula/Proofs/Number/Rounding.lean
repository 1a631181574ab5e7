import ColumnFormula.Number.Decimal
import Mathlib.Tactic.Ring

/-!
# Rounding

Every magnitude has a cell: the numbers from half way to the one below up to half way to the
one above, with the ends for an even magnitude. Cells do not overlap (`Cell.unique`), and
`nearest` finds the magnitude in whose cell a quotient lies (`cell_nearest`). So the search for
the shortest decimal, which stops at any decimal of the cell, finds one that reads back
(`magnitude_shortest`).
-/

namespace ColumnFormula

namespace Binary64

/-! ## Units -/

theorem units_of_lt {k : Nat} (h : k < 2 ^ 53) : units k = k := by
  have shift : k / 2 ^ 52 - 1 = 0 := by omega
  simp only [units, shift]
  omega

/-- A significand of 53 bits, shifted. The one after the last belongs to the next shift. -/
theorem units_shifted {s m : Nat} (hl : 2 ^ 52 ≤ m) (hu : m ≤ 2 ^ 53) :
    units (s * 2 ^ 52 + m) = m * 2 ^ s := by
  rcases Nat.lt_or_eq_of_le hu with hu | rfl
  · have shift : (s * 2 ^ 52 + m) / 2 ^ 52 - 1 = s := by omega
    simp only [units, shift]
    congr 1
    omega
  · have shift : (s * 2 ^ 52 + 2 ^ 53) / 2 ^ 52 - 1 = s + 1 := by omega
    have significand : s * 2 ^ 52 + 2 ^ 53 - (s + 1) * 2 ^ 52 = 2 ^ 52 := by omega
    simp only [units, shift, significand]
    ring

theorem magnitude_cases (k : Nat) :
    k < 2 ^ 52 ∨ ∃ s m, k = s * 2 ^ 52 + m ∧ 2 ^ 52 ≤ m ∧ m < 2 ^ 53 := by
  by_cases h : k < 2 ^ 52
  · exact .inl h
  · refine .inr ⟨k / 2 ^ 52 - 1, k - (k / 2 ^ 52 - 1) * 2 ^ 52, ?_, ?_, ?_⟩ <;> omega

theorem units_lt_succ (k : Nat) : units k < units (k + 1) := by
  rcases magnitude_cases k with h | ⟨s, m, rfl, hl, hu⟩
  · rw [units_of_lt (by omega), units_of_lt (by omega)]
    omega
  · rw [Nat.add_assoc, units_shifted hl (by omega), units_shifted (by omega) (by omega),
      Nat.add_mul]
    have := Nat.two_pow_pos s
    omega

theorem units_lt {j k : Nat} (h : j < k) : units j < units k := by
  induction h with
  | refl => exact units_lt_succ j
  | step _ ih => exact Nat.lt_trans ih (units_lt_succ _)

theorem units_le {j k : Nat} (h : j ≤ k) : units j ≤ units k := by
  rcases Nat.lt_or_eq_of_le h with h | rfl
  · exact Nat.le_of_lt (units_lt h)
  · exact Nat.le_refl _

/-! ## Cells -/

/-- `value / scale` half units lie in the cell of the magnitude `k`. -/
structure Cell (k value scale : Nat) : Prop where
  above : (units (k - 1) + units k) * scale < value ∨
    (units (k - 1) + units k) * scale = value ∧ k % 2 = 0
  below : value < (units k + units (k + 1)) * scale ∨
    value = (units k + units (k + 1)) * scale ∧ k % 2 = 0

variable {j k value scale : Nat}

theorem Cell.not_lt (hs : 0 < scale) (hj : Cell j value scale) (hk : Cell k value scale) :
    ¬j < k := by
  intro h
  have ends : units j + units (j + 1) ≤ units (k - 1) + units k :=
    Nat.add_le_add (units_le (by omega)) (units_le h)
  have := Nat.mul_le_mul_right scale ends
  rcases hj.below with hb | ⟨hb, even⟩
  · rcases hk.above with ha | ⟨ha, -⟩ <;> omega
  · rcases hk.above with ha | ⟨ha, even'⟩
    · omega
    · -- the end is shared by two even magnitudes, which cannot be neighbours
      have gap : j + 1 < k := by omega
      have := units_lt gap
      have := units_le (show j ≤ k - 1 by omega)
      have := Nat.mul_lt_mul_of_pos_right
        (show units j + units (j + 1) < units (k - 1) + units k by omega) hs
      omega

theorem Cell.unique (hs : 0 < scale) (hj : Cell j value scale) (hk : Cell k value scale) :
    j = k := by
  have := hj.not_lt hs hk
  have := hk.not_lt hs hj
  omega

theorem cell_of_rounds (hs : 0 < scale) (h : Decimal.rounds k value scale = true) :
    Cell k value scale := by
  have width : (units (k - 1) + units k) * scale < (units k + units (k + 1)) * scale := by
    refine Nat.mul_lt_mul_of_pos_right ?_ hs
    have := units_le (show k - 1 ≤ k by omega)
    have := units_lt_succ k
    omega
  simp only [Decimal.rounds, Bool.or_eq_true, Bool.and_eq_true, decide_eq_true_eq,
    beq_iff_eq] at h
  rcases h with ⟨ha, hb⟩ | ⟨even, rfl | rfl⟩
  · exact ⟨.inl ha, .inl hb⟩
  · exact ⟨.inr ⟨rfl, even⟩, .inl width⟩
  · exact ⟨.inl width, .inr ⟨rfl, even⟩⟩

theorem Cell.mul {c : Nat} (hc : 0 < c) (h : Cell k value scale) :
    Cell k (value * c) (scale * c) := by
  obtain ⟨above, below⟩ := h
  refine ⟨above.imp (fun h => ?_) fun h => ?_, below.imp (fun h => ?_) fun h => ?_⟩
  · rw [← Nat.mul_assoc]; exact Nat.mul_lt_mul_of_pos_right h hc
  · rw [← Nat.mul_assoc, h.1]; exact ⟨rfl, h.2⟩
  · rw [← Nat.mul_assoc]; exact Nat.mul_lt_mul_of_pos_right h hc
  · rw [← Nat.mul_assoc, h.1]; exact ⟨rfl, h.2⟩

/-- A positive magnitude lies within its own cell. -/
theorem cell_self (hs : 0 < scale) (hk : 0 < k) : Cell k (2 * units k * scale) scale := by
  have := units_lt (show k - 1 < k by omega)
  have := units_lt_succ k
  exact ⟨.inl (Nat.mul_lt_mul_of_pos_right (by omega) hs),
    .inl (Nat.mul_lt_mul_of_pos_right (by omega) hs)⟩

/-! ## The nearest magnitude -/

theorem divHalfEven_spec {n d : Nat} (hd : 0 < d) :
    (2 * divHalfEven n d * d < 2 * n + d ∨
      2 * divHalfEven n d * d = 2 * n + d ∧ divHalfEven n d % 2 = 0) ∧
    (2 * n < 2 * divHalfEven n d * d + d ∨
      2 * n = 2 * divHalfEven n d * d + d ∧ divHalfEven n d % 2 = 0) := by
  have split := Nat.div_add_mod n d
  have rest := Nat.mod_lt n hd
  have comm : d * (n / d) = n / d * d := Nat.mul_comm ..
  have succ : 2 * (n / d + 1) * d = 2 * (n / d * d) + 2 * d := by ring
  have same : 2 * (n / d) * d = 2 * (n / d * d) := by ring
  unfold divHalfEven
  simp only
  split
  · rw [same]; omega
  · split
    · rw [succ]; omega
    · rcases Nat.mod_two_eq_zero_or_one (n / d) with even | odd
      · rw [even, Nat.add_zero, same]; omega
      · rw [odd, succ]; omega

/-- The shift that leaves 53 bits, unless there are fewer of them. -/
theorem shift_spec (n : Nat) : n < 2 ^ (53 + (n.log2 - 52)) ∧
    (0 < n.log2 - 52 → 2 ^ (52 + (n.log2 - 52)) ≤ n) := by
  constructor
  · exact Nat.lt_of_lt_of_le Nat.lt_log2_self (Nat.pow_le_pow_right (by decide) (by omega))
  · intro h
    have shift : 52 + (n.log2 - 52) = n.log2 := by omega
    rw [shift]
    exact Nat.log2_self_le fun hn => by simp [hn] at h

theorem units_significand {s q : Nat} (hq : q ≤ 2 ^ 53) (normal : 0 < s → 2 ^ 52 ≤ q) :
    units (s * 2 ^ 52 + q) = q * 2 ^ s := by
  by_cases hs : 0 < s ∨ 2 ^ 52 ≤ q
  · exact units_shifted (hs.elim normal id) hq
  · obtain rfl : s = 0 := by omega
    rw [Nat.zero_mul, Nat.zero_add, Nat.pow_zero, Nat.mul_one]
    exact units_of_lt (by omega)

/-- The numbers that round to a significand of at most 53 bits under a shift. -/
theorem cell_significand {s q n d : Nat} (hd : 0 < d) (hq : q ≤ 2 ^ 53)
    (normal : 0 < s → 2 ^ 52 ≤ q ∧ 2 ^ 52 * (d * 2 ^ s) ≤ n)
    (above : 2 * q * (d * 2 ^ s) < 2 * n + d * 2 ^ s ∨
      2 * q * (d * 2 ^ s) = 2 * n + d * 2 ^ s ∧ q % 2 = 0)
    (below : 2 * n < 2 * q * (d * 2 ^ s) + d * 2 ^ s ∨
      2 * n = 2 * q * (d * 2 ^ s) + d * 2 ^ s ∧ q % 2 = 0) :
    Cell (s * 2 ^ 52 + q) (2 * n) d := by
  have parity : (s * 2 ^ 52 + q) % 2 = q % 2 := by omega
  have self : units (s * 2 ^ 52 + q) = q * 2 ^ s :=
    units_significand hq fun hs => (normal hs).1
  have next : (q + 1) * 2 ^ s ≤ units (s * 2 ^ 52 + q + 1) := by
    rcases Nat.lt_or_eq_of_le hq with hq | rfl
    · rw [Nat.add_assoc, units_significand hq fun hs => by have := (normal hs).1; omega]
    · have shift : s * 2 ^ 52 + 2 ^ 53 + 1 = (s + 1) * 2 ^ 52 + (2 ^ 52 + 1) := by omega
      rw [shift, units_shifted (by omega) (by omega), Nat.pow_succ]
      have := Nat.two_pow_pos s
      omega
  constructor
  · rw [parity]
    by_cases lowest : 0 < s ∧ q = 2 ^ 52
    · -- the magnitude below belongs to the shift before, at half the distance
      have previous := units_lt (show s * 2 ^ 52 + q - 1 < s * 2 ^ 52 + q by omega)
      refine .inl (Nat.lt_of_lt_of_le (Nat.mul_lt_mul_of_pos_right
        (show _ < 2 * (q * 2 ^ s) by omega) hd) ?_)
      have := (normal lowest.1).2
      rw [lowest.2]
      have regroup : ∀ a b : Nat, 2 * (a * b) * d = 2 * (a * (d * b)) := fun a b => by ring
      rw [regroup]
      omega
    · rcases Nat.eq_zero_or_pos q with rfl | hq0
      · obtain rfl : s = 0 := by
          by_contra hs
          have := (normal (by omega)).1
          omega
        have zero : units 0 = 0 := units_of_lt (by decide)
        rw [Nat.zero_mul, Nat.zero_add, Nat.zero_sub, zero, Nat.zero_mul]
        omega
      · have previous : units (s * 2 ^ 52 + q - 1) = (q - 1) * 2 ^ s := by
          rw [Nat.add_sub_assoc hq0]
          exact units_significand (by omega) fun hs => by have := (normal hs).1; omega
        have low : (units (s * 2 ^ 52 + q - 1) + units (s * 2 ^ 52 + q)) * d + d * 2 ^ s =
            2 * q * (d * 2 ^ s) := by
          obtain ⟨r, rfl⟩ := Nat.exists_eq_add_of_le' hq0
          rw [previous, self, Nat.add_sub_cancel]
          ring
        omega
  · have high : 2 * q * (d * 2 ^ s) + d * 2 ^ s ≤
        (units (s * 2 ^ 52 + q) + units (s * 2 ^ 52 + q + 1)) * d :=
      calc 2 * q * (d * 2 ^ s) + d * 2 ^ s = (q * 2 ^ s + (q + 1) * 2 ^ s) * d := by ring
        _ ≤ _ := Nat.mul_le_mul_right _ (by rw [self]; omega)
    rw [parity]
    omega

/-- What `nearest` gives short of infinity. -/
theorem cell_nearest {n d : Nat} (hd : 0 < d) :
    Cell (((n / d).log2 - 52) * 2 ^ 52 + divHalfEven n (d * 2 ^ ((n / d).log2 - 52)))
      (2 * n) d := by
  have shift := shift_spec (n / d)
  generalize (n / d).log2 - 52 = s at shift
  have spec := divHalfEven_spec (n := n) (Nat.mul_pos hd (Nat.two_pow_pos s))
  generalize divHalfEven n (d * 2 ^ s) = q at spec
  have upper : n < 2 ^ 53 * (d * 2 ^ s) := by
    have := (Nat.div_lt_iff_lt_mul hd).1 shift.1
    rwa [Nat.pow_add, Nat.mul_assoc, Nat.mul_comm (2 ^ s)] at this
  have lower : 0 < s → 2 ^ 52 * (d * 2 ^ s) ≤ n := fun hs => by
    have := (Nat.le_div_iff_mul_le hd).1 (shift.2 hs)
    rwa [Nat.pow_add, Nat.mul_assoc, Nat.mul_comm (2 ^ s)] at this
  have hD : 0 < d * 2 ^ s := Nat.mul_pos hd (Nat.two_pow_pos s)
  refine cell_significand hd ?_ (fun hs => ⟨?_, lower hs⟩) spec.1 spec.2
  · have := Nat.lt_of_mul_lt_mul_right
      (show (2 * q) * (d * 2 ^ s) < (2 ^ 54 + 2) * (d * 2 ^ s) by rw [Nat.add_mul]; omega)
    omega
  · have := lower hs
    have := Nat.lt_of_mul_lt_mul_right
      (show (2 ^ 53 - 2) * (d * 2 ^ s) < (2 * q) * (d * 2 ^ s) by rw [Nat.sub_mul]; omega)
    omega

theorem nearest_eq {n d : Nat} (hd : 0 < d) (h : Cell k (2 * (n * 2 ^ 1074)) d)
    (hk : k < infinity) : nearest n d = k := by
  have unbounded := (cell_nearest (n := n * 2 ^ 1074) hd).unique hd h
  rw [nearest]
  simp only [unbounded]
  omega

end Binary64

/-! ## Decimals -/

namespace Decimal

open Binary64

variable {k : Nat} {d : Decimal}

/-- The decimal lies in the cell of the magnitude `k`. -/
def Rounds (d : Decimal) (k : Nat) : Prop := Cell k (2 * (d.quotient.1 * 2 ^ 1074)) d.quotient.2

theorem quotient_of_nonneg {e : Int} (digits : Nat) (h : 0 ≤ e) :
    quotient ⟨digits, e⟩ = (digits * 10 ^ e.toNat, 1) := if_pos h

theorem quotient_of_neg {e : Int} (digits : Nat) (h : e < 0) :
    quotient ⟨digits, e⟩ = (digits, 10 ^ (-e).toNat) := if_neg (Int.not_le.2 h)

theorem rounds_mk {digits : Nat} {e : Int} : Rounds ⟨digits, e⟩ k ↔
    Cell k (2 * (digits * 10 ^ e.toNat * 2 ^ 1074)) (10 ^ (-e).toNat) := by
  rw [Rounds]
  by_cases he : 0 ≤ e
  · have scale : (-e).toNat = 0 := by omega
    rw [quotient_of_nonneg _ he, scale, Nat.pow_zero]
  · have step : e.toNat = 0 := by omega
    rw [quotient_of_neg _ (by omega), step, Nat.pow_zero, Nat.mul_one]

/-- A whole number with a zero after the point. -/
theorem Rounds.shift {digits : Nat} {e : Int} (h : Rounds ⟨digits, e⟩ k) (he : 0 ≤ e) :
    Rounds ⟨digits * 10 ^ (e.toNat + 1), -1⟩ k := by
  have scale : (-e).toNat = 0 := by omega
  have cell := rounds_mk.1 h
  rw [scale] at cell
  refine rounds_mk.2 ?_
  have regroup : ∀ a b c : Nat, 2 * (a * (b * 10) * 10 ^ 0 * c) = 2 * (a * b * c) * 10 := by
    intro a b c
    ring
  rw [Nat.pow_succ, show (-1 : Int).toNat = 0 from rfl, regroup]
  exact cell.mul (c := 10) (by decide)

theorem quotient_pos (d : Decimal) : 0 < d.quotient.2 := by
  rw [quotient]
  split
  · exact Nat.one_pos
  · exact Nat.pow_pos (by decide)

/-- The first power of two that is no double. -/
theorem units_infinity : units infinity = 2 ^ 1024 * 2 ^ 1074 := by
  have shifted : infinity = 2046 * 2 ^ 52 + 2 ^ 52 := by decide
  have power : 2 ^ 52 * 2 ^ 2046 = 2 ^ 1024 * 2 ^ 1074 := by decide +kernel
  rw [shifted, units_shifted (Nat.le_refl _) (by decide), power]

theorem Rounds.digits_ne_zero (h : d.Rounds k) (hk : 0 < k) : d.digits ≠ 0 := by
  intro hd
  have zero : d.quotient.1 = 0 := by
    rw [quotient, hd]
    split
    · exact Nat.zero_mul _
    · rfl
  have positive := Nat.mul_pos (show 0 < units (k - 1) + units k by
    have := units_lt (show k - 1 < k by omega)
    omega) d.quotient_pos
  rcases h.above with h | ⟨h, -⟩ <;> rw [zero, Nat.zero_mul] at h <;> omega

theorem Rounds.exponent_lt (h : d.Rounds k) (hk : 0 < k) (hf : k < infinity) :
    d.exponent < 309 := by
  have hd := h.digits_ne_zero hk
  obtain ⟨digits, exponent⟩ := d
  by_contra large
  simp only at hd large
  rw [Rounds, quotient_of_nonneg _ (show 0 ≤ exponent by omega)] at h
  have high : units k + units (k + 1) ≤ 2 * (2 ^ 1024 * 2 ^ 1074) := by
    have := units_le (show k ≤ infinity by omega)
    have := units_le (show k + 1 ≤ infinity by omega)
    rw [units_infinity] at *
    generalize 2 ^ 1024 * 2 ^ 1074 = infinite at *
    omega
  have power : 2 ^ 1024 < digits * 10 ^ exponent.toNat := by
    have gap : 2 ^ 1024 < 10 ^ 309 := by decide +kernel
    refine Nat.lt_of_lt_of_le gap (Nat.le_trans ?_ (Nat.le_mul_of_pos_left _ (by omega)))
    exact Nat.pow_le_pow_right (by decide) (by omega)
  have value := Nat.mul_lt_mul_of_pos_right power (Nat.two_pow_pos 1074)
  have below := h.below
  simp only [Nat.mul_one] at below
  generalize 2 ^ 1024 * 2 ^ 1074 = infinite at *
  generalize digits * 10 ^ exponent.toNat * 2 ^ 1074 = x at *
  omega

theorem Rounds.le_exponent (h : d.Rounds k) (hk : 0 < k) :
    -(d.digits.log2 + 1100 : Nat) ≤ d.exponent := by
  obtain ⟨digits, exponent⟩ := d
  by_contra small
  simp only at small
  rw [Rounds, quotient_of_neg _ (show exponent < 0 by omega)] at h
  have value : 2 * (digits * 2 ^ 1074) < 10 ^ (-exponent).toNat :=
    calc 2 * (digits * 2 ^ 1074) < 2 * (2 ^ (digits.log2 + 1) * 2 ^ 1074) :=
          Nat.mul_lt_mul_of_pos_left
            (Nat.mul_lt_mul_of_pos_right Nat.lt_log2_self (Nat.two_pow_pos _)) (by decide)
      _ = 2 ^ (1 + (digits.log2 + 1 + 1074)) := by rw [← Nat.pow_add, Nat.pow_add 2 1, Nat.pow_one]
      _ ≤ 2 ^ (-exponent).toNat := Nat.pow_le_pow_right (by decide) (by omega)
      _ ≤ 10 ^ (-exponent).toNat := Nat.pow_le_pow_left (by decide) _
  have low := Nat.le_mul_of_pos_left (10 ^ (-exponent).toNat)
    (show 0 < units (k - 1) + units k by
      have := units_lt (show k - 1 < k by omega)
      omega)
  have above := h.above
  simp only at above
  generalize 2 * (digits * 2 ^ 1074) = x at *
  omega

/-- A decimal reads as the magnitude in whose cell it lies. -/
theorem Rounds.magnitude_eq (h : d.Rounds k) (hk : 0 < k) (hf : k < infinity) :
    d.magnitude = k := by
  have high := h.exponent_lt hk hf
  have low := h.le_exponent hk
  rw [magnitude, if_neg (h.digits_ne_zero hk), if_neg (by omega), if_neg (by omega)]
  exact nearest_eq d.quotient_pos h hf

theorem hit_of_nearestHit {hit : Nat → Bool} {value step n : Nat}
    (h : nearestHit hit value step = some n) : hit n = true := by
  rw [nearestHit] at h
  split at h <;> rename_i below above
  · split at h <;> cases h
    · exact below
    · exact above
  · cases h; exact below
  · cases h; exact above
  · cases h

theorem rounds_of_onGrid {e : Int} {digits : Nat} (h : onGrid k e = some digits) :
    Rounds ⟨digits, e⟩ k := by
  rw [onGrid] at h
  have hit := hit_of_nearestHit h
  have cell : Cell k (digits * (2 ^ 1075 * 10 ^ e.toNat)) (10 ^ (-e).toNat) :=
    cell_of_rounds (Nat.pow_pos (by decide)) hit
  have regroup : ∀ a b one two : Nat, two = 2 * one → a * (two * b) = 2 * (a * b * one) := by
    rintro a b one _ rfl
    ring
  rw [regroup digits _ (2 ^ 1074) _ (by decide +kernel)] at cell
  exact rounds_mk.2 cell

/-- The units of a magnitude as a decimal. -/
theorem rounds_exact (hk : 0 < k) : Rounds ⟨units k * 5 ^ 1074, -1074⟩ k := by
  have self : Cell k (2 * units k * 10 ^ 1074) (10 ^ 1074) :=
    cell_self (Nat.pow_pos (by decide)) hk
  have regroup : ∀ a five one ten : Nat, ten = five * one →
      2 * a * ten = 2 * (a * five * 10 ^ 0 * one) := by
    rintro a five one _ rfl
    ring
  rw [regroup (units k) (5 ^ 1074) (2 ^ 1074) _ (by decide +kernel)] at self
  exact rounds_mk.2 self

theorem grid_of_firstHit {grid : Int → Option Nat} {e : Int} {n : Nat}
    (h : firstHit grid e n = some d) : grid d.exponent = some d.digits := by
  induction n generalizing e with
  | zero => cases h
  | succ n ih =>
    rw [firstHit] at h
    split at h
    · rename_i hit
      cases h
      exact hit
    · exact ih h

theorem rounds_shortest (hk : 0 < k) : (shortest k).Rounds k := by
  rw [shortest]
  cases h : firstHit (onGrid k) (coarsest k) 25 with
  | none => exact rounds_exact hk
  | some d => exact rounds_of_onGrid (grid_of_firstHit h)

theorem magnitude_shortest (hk : 0 < k) (hf : k < infinity) : (shortest k).magnitude = k :=
  (rounds_shortest hk).magnitude_eq hk hf

end Decimal

end ColumnFormula
