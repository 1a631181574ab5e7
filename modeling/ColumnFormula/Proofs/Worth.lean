import ColumnFormula.Scalar
import ColumnFormula.Proofs.Number.Wholes

/-!
# What scalars agree on

Agreement is having one worth (`agrees_iff_worth`): a place on the number line, an integer out of
the range in which reals can tell integers apart, or a text. So it is symmetric and transitive, and
all scalars but a NaN agree with themselves (`agrees_partialEquivalence`). An integer within the
range agrees with the real of the same value and with no other one. An integer out of the range
agrees with no real at all (`agrees_real_iff`), also where it is the value of one
(`first_beyond_agrees_with_no_real`).
-/

namespace ColumnFormula

namespace Binary64

variable {x y : Float}

theorem equals_iff_place : equals x y = true ↔ ∃ p, place x = some p ∧ place y = some p := by
  rw [equals]
  cases place x <;> cases place y <;> grind

theorem equals_iff_same :
    equals x y = true ↔ same x y = true ∧ isNaN x = false ∧ isNaN y = false := by
  rw [equals_iff_place, same_iff, place, place]
  cases isNaN x <;> cases isNaN y <;> grind

end Binary64

open Binary64

variable {i j : Int64} {x y : Float}

/-! ## Widened integers -/

theorem widenExact?_eq_some_iff {w : Float} :
    widenExact? i = some w ↔ i.toInt.natAbs < wholes ∧ widen i = w := by
  rw [widenExact?]
  split <;> simp_all

theorem isSome_widenExact? : (widenExact? i).isSome = true ↔ i.toInt.natAbs < wholes := by
  rw [widenExact?]
  split <;> simp_all

/-- An integer that is widened at all keeps its value. -/
theorem represents_widenExact? {w : Float} (h : widenExact? i = some w) :
    Represents w i.toInt := by
  obtain ⟨within, rfl⟩ := widenExact?_eq_some_iff.1 h
  exact represents_ofInt within

theorem isNaN_of_represents {n : Int} (h : Represents x n) : isNaN x = false :=
  isNaN_of_finite (value?_eq_some_iff.1 h).1

namespace Scalar

variable {a b c : Scalar}

theorem agrees_integer_real :
    (integer i).agrees (real x) = true ↔ ∃ w, widenExact? i = some w ∧ equals w x = true := by
  rw [agrees]
  cases widenExact? i <;> simp

/-! ## Worth -/

/-- What a scalar counts as where it is compared. -/
inductive Worth where
  | point (place : Int)
  | beyond (i : Int64)
  | text (value : String)

/-- The worth of a scalar. A NaN has none. -/
def worth? : Scalar → Option Worth
  | integer i =>
    match widenExact? i with
    | some w => (place w).map .point
    | none => some (.beyond i)
  | real x => (place x).map .point
  | text s => some (.text s)

theorem worth?_real {w : Worth} :
    (real x).worth? = some w ↔ ∃ p, place x = some p ∧ w = .point p := by
  simp [worth?, eq_comm]

/-- The worth of an integer is that of the real that it is widened to, if it is. -/
theorem worth?_integer {w : Worth} :
    (integer i).worth? = some w ↔
      (∃ v, widenExact? i = some v ∧ (real v).worth? = some w) ∨
        widenExact? i = none ∧ w = .beyond i := by
  rw [worth?]
  cases widenExact? i <;> simp [worth?, eq_comm]

theorem equals_iff_worth :
    equals x y = true ↔ ∃ w, (real x).worth? = some w ∧ (real y).worth? = some w := by
  rw [equals_iff_place]
  constructor
  · rintro ⟨p, hx, hy⟩
    exact ⟨.point p, worth?_real.2 ⟨p, hx, rfl⟩, worth?_real.2 ⟨p, hy, rfl⟩⟩
  · rintro ⟨w, hx, hy⟩
    obtain ⟨p, px, rfl⟩ := worth?_real.1 hx
    obtain ⟨q, py, same⟩ := worth?_real.1 hy
    cases same
    exact ⟨p, px, py⟩

def isNaN : Scalar → Bool
  | real x => Binary64.isNaN x
  | _ => false

/-- All scalars but a NaN have a worth. -/
theorem exists_worth_iff : (∃ w, a.worth? = some w) ↔ a.isNaN = false := by
  cases a with
  | integer i =>
    refine ⟨fun _ => rfl, fun _ => ?_⟩
    cases h : widenExact? i with
    | none => exact ⟨.beyond i, worth?_integer.2 (.inr ⟨h, rfl⟩)⟩
    | some v =>
      have number := isNaN_of_represents (represents_widenExact? h)
      have there := place_eq_some_iff.2 ⟨number, rfl⟩
      exact ⟨_, worth?_integer.2 (.inl ⟨v, h, worth?_real.2 ⟨_, there, rfl⟩⟩)⟩
  | real x =>
    rw [isNaN, worth?, place]
    cases Binary64.isNaN x <;> simp
  | text s => exact ⟨fun _ => rfl, fun _ => ⟨_, rfl⟩⟩

/-- Integers are told apart by their worth. Within the range their values tell them apart. -/
theorem worth?_integer_injective {w : Worth} (hi : (integer i).worth? = some w)
    (hj : (integer j).worth? = some w) : i = j := by
  rcases worth?_integer.1 hi with ⟨v, wide, hv⟩ | ⟨-, rfl⟩ <;>
    rcases worth?_integer.1 hj with ⟨u, wide', hu⟩ | ⟨-, same⟩
  · have level := equals_iff_worth.2 ⟨w, hv, hu⟩
    have value := (equals_iff_value? (represents_widenExact? wide)).1 level
    exact Int64.toInt.inj (Represents.unique value (represents_widenExact? wide'))
  · obtain ⟨p, -, rfl⟩ := worth?_real.1 hv
    cases same
  · obtain ⟨p, -, same⟩ := worth?_real.1 hu
    cases same
  · cases same
    rfl

theorem agrees_integer_real_iff_worth :
    (integer i).agrees (real x) = true ↔
      ∃ w, (integer i).worth? = some w ∧ (real x).worth? = some w := by
  rw [agrees_integer_real]
  constructor
  · rintro ⟨v, wide, level⟩
    obtain ⟨w, hv, hx⟩ := equals_iff_worth.1 level
    exact ⟨w, worth?_integer.2 (.inl ⟨v, wide, hv⟩), hx⟩
  · rintro ⟨w, hi, hx⟩
    rcases worth?_integer.1 hi with ⟨v, wide, hv⟩ | ⟨-, rfl⟩
    · exact ⟨v, wide, equals_iff_worth.2 ⟨w, hv, hx⟩⟩
    · obtain ⟨p, -, same⟩ := worth?_real.1 hx
      cases same

theorem worth?_number_ne_text {n : Scalar} {s : String} (hn : n.kind ≠ .text) :
    n.worth? ≠ some (.text s) := by
  intro h
  cases n with
  | integer i =>
    rcases worth?_integer.1 h with ⟨v, -, hv⟩ | ⟨-, same⟩
    · obtain ⟨p, -, same⟩ := worth?_real.1 hv
      cases same
    · cases same
  | real x =>
    obtain ⟨p, -, same⟩ := worth?_real.1 h
    cases same
  | text s => exact hn rfl

/-- Scalars agree if they have one worth. -/
theorem agrees_iff_worth : a.agrees b = true ↔ ∃ w, a.worth? = some w ∧ b.worth? = some w := by
  have swap : ∀ {u v : Scalar}, (∃ w, u.worth? = some w ∧ v.worth? = some w) ↔
      ∃ w, v.worth? = some w ∧ u.worth? = some w := by
    simp only [and_comm, implies_true]
  have apart : ∀ {n : Scalar} {s : String}, n.kind ≠ .text →
      ¬∃ w, n.worth? = some w ∧ (text s).worth? = some w := by
    rintro n s hn ⟨w, h, same⟩
    cases same
    exact worth?_number_ne_text hn h
  have whole : ∀ i, (integer i).kind ≠ .text := fun i => by simp [kind]
  have fraction : ∀ x, (real x).kind ≠ .text := fun x => by simp [kind]
  cases a with
  | integer i =>
    cases b with
    | integer j =>
      rw [agrees, beq_iff_eq]
      constructor
      · rintro rfl
        obtain ⟨w, h⟩ := exists_worth_iff.2 (rfl : (integer i).isNaN = false)
        exact ⟨w, h, h⟩
      · rintro ⟨w, hi, hj⟩
        exact worth?_integer_injective hi hj
    | real x => exact agrees_integer_real_iff_worth
    | text s => exact iff_of_false Bool.false_ne_true (apart (whole i))
  | real x =>
    cases b with
    | integer j => rw [agrees_comm, swap, agrees_integer_real_iff_worth]
    | real y => exact equals_iff_worth
    | text s => exact iff_of_false Bool.false_ne_true (apart (fraction x))
  | text s =>
    cases b with
    | integer j => exact iff_of_false Bool.false_ne_true (swap.not.2 (apart (whole j)))
    | real y => exact iff_of_false Bool.false_ne_true (swap.not.2 (apart (fraction y)))
    | text t =>
      rw [agrees, beq_iff_eq]
      simp [worth?, eq_comm]

/-! ## Agreement -/

theorem agrees_trans (hab : a.agrees b = true) (hbc : b.agrees c = true) : a.agrees c = true := by
  obtain ⟨v, ha, hb⟩ := agrees_iff_worth.1 hab
  obtain ⟨w, hb', hc⟩ := agrees_iff_worth.1 hbc
  obtain rfl : v = w := Option.some.inj (hb.symm.trans hb')
  exact agrees_iff_worth.2 ⟨v, ha, hc⟩

theorem agrees_self_iff : a.agrees a = true ↔ a.isNaN = false := by
  rw [agrees_iff_worth, ← exists_worth_iff]
  simp only [and_self]

/-- Among scalars of one kind agreement is identity, but for the NaNs. -/
theorem agrees_iff_same (h : a.kind = b.kind) :
    a.agrees b = true ↔ a.same b = true ∧ a.isNaN = false ∧ b.isNaN = false := by
  cases a with
  | integer i =>
    cases b with
    | integer j => exact (and_iff_left ⟨rfl, rfl⟩).symm
    | _ => cases h
  | real x =>
    cases b with
    | real y => exact equals_iff_same
    | _ => cases h
  | text s =>
    cases b with
    | text t => exact (and_iff_left ⟨rfl, rfl⟩).symm
    | _ => cases h

/-- Agreement is symmetric and transitive. All scalars but a NaN agree with themselves, and those of
one kind agree if they are the same and no NaNs. -/
theorem agrees_partialEquivalence (a b c : Scalar) :
    (a.agrees b = true → b.agrees a = true) ∧
      (a.agrees b = true → b.agrees c = true → a.agrees c = true) ∧
      (a.agrees a = true ↔ a.isNaN = false) ∧
      (a.kind = b.kind →
        (a.agrees b = true ↔ a.same b = true ∧ a.isNaN = false ∧ b.isNaN = false)) :=
  ⟨fun h => agrees_comm a b ▸ h, agrees_trans, agrees_self_iff, agrees_iff_same⟩

/-- The greatest integer within the range by way of the real that it is, and both zeros. -/
theorem agrees_partialEquivalence_byReal :
    (integer 9007199254740991).agrees (real 9007199254740991.0) = true ∧
      (real 9007199254740991.0).agrees (integer 9007199254740991) = true ∧
      (integer 9007199254740991).agrees (integer 9007199254740991) = true ∧
      (real 0.0).kind = (real (-0.0)).kind ∧ (real 0.0).agrees (real (-0.0)) = true := by
  have there : (integer 9007199254740991).agrees (real 9007199254740991.0) = true := by
    decide +kernel
  obtain ⟨symm, trans, -⟩ := agrees_partialEquivalence (integer 9007199254740991)
    (real 9007199254740991.0) (integer 9007199254740991)
  obtain ⟨-, -, -, zeros⟩ := agrees_partialEquivalence (real 0.0) (real (-0.0)) (real 0.0)
  exact ⟨there, symm there, trans there (symm there), rfl, (zeros rfl).2 (by decide +kernel)⟩

/-- An integer is widened exactly if its magnitude is at most `2 ^ 53 - 1`, and keeps its value.
Then it agrees with the finite reals of its value, of which there are two if it is zero, and with no
other reals. Any other integer agrees with no real. -/
theorem agrees_real_iff (i : Int64) (x : Float) :
    ((widenExact? i).isSome = true ↔ i.toInt.natAbs ≤ 9007199254740991) ∧
      (∀ w, widenExact? i = some w → Represents w i.toInt) ∧
      ((integer i).agrees (real x) = true ↔
        i.toInt.natAbs ≤ 9007199254740991 ∧ Represents x i.toInt) ∧
      ((real x).agrees (integer i) = true ↔
        i.toInt.natAbs ≤ 9007199254740991 ∧ Represents x i.toInt) := by
  have range : i.toInt.natAbs < wholes ↔ i.toInt.natAbs ≤ 9007199254740991 := Nat.lt_succ_iff
  have agree : (integer i).agrees (real x) = true ↔
      i.toInt.natAbs ≤ 9007199254740991 ∧ Represents x i.toInt := by
    rw [agrees_integer_real, ← range]
    constructor
    · rintro ⟨w, wide, level⟩
      have within := (widenExact?_eq_some_iff.1 wide).1
      exact ⟨within, (equals_iff_value? (represents_widenExact? wide)).1 level⟩
    · rintro ⟨within, value⟩
      have wide := widenExact?_eq_some_iff.2 ⟨within, rfl⟩
      exact ⟨_, wide, (equals_iff_value? (represents_widenExact? wide)).2 value⟩
  refine ⟨isSome_widenExact?.trans range, fun w => represents_widenExact?, agree, ?_⟩
  rw [agrees_comm]
  exact agree

theorem agrees_real_iff_least :
    widenExact? (-9007199254740991) = some (-9007199254740991.0) ∧
      Represents (-9007199254740991.0) (-9007199254740991 : Int64).toInt ∧
      (integer (-9007199254740991)).agrees (real (-9007199254740991.0)) = true := by
  have wide : widenExact? (-9007199254740991) = some (-9007199254740991.0) := by decide +kernel
  obtain ⟨-, value, agree, -⟩ := agrees_real_iff (-9007199254740991) (-9007199254740991.0)
  exact ⟨wide, value _ wide, agree.2 ⟨by decide, value _ wide⟩⟩

/-- The first integer out of the range is a double, and yet it is not widened and does not agree
with that double. -/
theorem first_beyond_agrees_with_no_real :
    ¬((widenExact? 9007199254740992).isSome = true ↔
        ∃ x, Represents x (9007199254740992 : Int64).toInt) ∧
      ¬((integer 9007199254740992).agrees (real 9007199254740992.0) = true ↔
        Represents 9007199254740992.0 (9007199254740992 : Int64).toInt) ∧
      ¬((real 9007199254740992.0).agrees (integer 9007199254740992) = true ↔
        Represents 9007199254740992.0 (9007199254740992 : Int64).toInt) := by
  have value : Represents 9007199254740992.0 (9007199254740992 : Int64).toInt := by
    unfold Represents
    decide +kernel
  have narrow : (widenExact? 9007199254740992).isSome = false := by decide
  have apart : (integer 9007199254740992).agrees (real 9007199254740992.0) = false := by decide
  refine ⟨fun h => ?_, fun h => ?_, fun h => ?_⟩
  · rw [narrow] at h
    cases h.2 ⟨_, value⟩
  · rw [apart] at h
    cases h.2 value
  · rw [agrees_comm, apart] at h
    cases h.2 value

end Scalar

end ColumnFormula
