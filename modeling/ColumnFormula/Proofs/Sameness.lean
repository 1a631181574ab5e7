import Mathlib
import ColumnFormula.Evaluation
import ColumnFormula.Proofs.Naming
import ColumnFormula.Proofs.Pass

/-!
# Formulas that are the same

Sameness of formulas is that of their constants, and two reals are the same if they are equal as
numbers or both NaNs. So formulas that are the same can differ in the signs of their zeros, and in
nothing else (`eq_or_zeros_of_same`). Where a sign differs the names of the columns do, as the
negative zero is written with a minus: either of the name and the signs (`zeroSigns`) tells a
formula among those that are the same (`same_told`).
-/

namespace ColumnFormula

namespace Binary64

/-- Reals that are the same are equal, or zeros with different signs. -/
theorem eq_or_zeros_of_same {x y : Float} (h : same x y = true) :
    x = y ∨ magnitude x = 0 ∧ magnitude y = 0 ∧ isNegative y = !isNegative x := by
  have h := same_iff.1 h
  unfold place at h
  cases hx : isNaN x <;> cases hy : isNaN y <;> rw [hx, hy] at h
  · simp only [Bool.false_eq_true, if_false, Option.some.injEq] at h
    by_cases signs : isNegative x = isNegative y
    · refine .inl (eq_of_magnitude ?_ signs)
      rw [signs] at h
      split at h <;> omega
    · refine .inr ?_
      cases sx : isNegative x <;> cases sy : isNegative y <;> simp_all
  · cases h
  · cases h
  · exact .inl (eq_of_isNaN hx hy)

end Binary64

/-- Constants that are the same are equal, or zeros with different signs. -/
theorem Scalar.eq_or_zeros_of_same {v w : Scalar} (h : v.same w = true) :
    v = w ∨ ∃ x y, v = real x ∧ w = real y ∧ Binary64.magnitude x = 0 ∧ Binary64.magnitude y = 0 ∧
      Binary64.isNegative y = !Binary64.isNegative x := by
  cases v with
  | integer i => cases w with
    | integer j => exact .inl (congrArg integer (eq_of_beq h))
    | _ => cases h
  | real x => cases w with
    | real y =>
      rcases Binary64.eq_or_zeros_of_same h with rfl | zeros
      · exact .inl rfl
      · exact .inr ⟨x, y, rfl, rfl, zeros⟩
    | _ => cases h
  | text t => cases w with
    | text u => exact .inl (congrArg text (eq_of_beq h))
    | _ => cases h

theorem Numeral.ofReal_zero {x : Float} (h : Binary64.magnitude x = 0) :
    ofReal x = if Binary64.isNegative x then ['-', '0', '.', '0'] else ['0', '.', '0'] := by
  have number : Binary64.isNaN x = false := by
    rw [Binary64.isNaN, h]
    rfl
  rw [ofReal, number, h]
  rfl

namespace Formula

open Numeral

variable {α : Type} {a b : Formula} {xs ys : List Formula} {v w : Scalar}

/-! ## Induction over two formulas that are the same -/

theorem sameAll_cons {x : Formula} (h : sameAll (x :: xs) ys = true) :
    ∃ y ys', ys = y :: ys' ∧ x.same y = true ∧ sameAll xs ys' = true := by
  cases ys with
  | nil => cases h
  | cons y ys => exact ⟨y, ys, rfl, Bool.and_eq_true_iff.1 h⟩

mutual

/-- What holds of all constants that are the same, and of a reference and itself, is carried from
children to derivations. -/
theorem same_induction {P : Formula → Formula → Prop}
    (constant : ∀ v w, v.same w = true → P (constant v) (constant w))
    (reference : ∀ x column, x.reads? = some column → P x x)
    (operation : ∀ operator xs ys, List.Forall₂ (fun x y => x.same y = true ∧ P x y) xs ys →
      P (operation operator xs) (operation operator ys))
    (call : ∀ function xs ys, List.Forall₂ (fun x y => x.same y = true ∧ P x y) xs ys →
      P (call function xs) (call function ys)) :
    ∀ a b, a.same b = true → P a b
  | .constant v, b, h => by
    cases b with
    | constant w => exact constant v w h
    | _ => cases h
  | .var m t, b, h => by
    cases b with
    | var n u =>
      obtain ⟨names, types⟩ := Bool.and_eq_true_iff.1 h
      rw [← eq_of_beq names, ← eq_of_beq types]
      exact reference _ _ rfl
    | _ => cases h
  | .prop i c, b, h => by
    cases b with
    | prop j d =>
      obtain ⟨identifiers, columns⟩ := Bool.and_eq_true_iff.1 h
      rw [← eq_of_beq identifiers, ← eq_of_beq columns]
      exact reference _ _ rfl
    | _ => cases h
  | .operation o xs, b, h => by
    cases b with
    | operation p ys =>
      obtain ⟨operators, operands⟩ := Bool.and_eq_true_iff.1 h
      rw [← eq_of_beq operators]
      exact operation o xs ys (sameAll_induction constant reference operation call xs ys operands)
    | _ => cases h
  | .call f xs, b, h => by
    cases b with
    | call g ys =>
      obtain ⟨functions, arguments⟩ := Bool.and_eq_true_iff.1 h
      rw [← eq_of_beq functions]
      exact call f xs ys (sameAll_induction constant reference operation call xs ys arguments)
    | _ => cases h

theorem sameAll_induction {P : Formula → Formula → Prop}
    (constant : ∀ v w, v.same w = true → P (.constant v) (.constant w))
    (reference : ∀ x column, x.reads? = some column → P x x)
    (operation : ∀ operator xs ys, List.Forall₂ (fun x y => x.same y = true ∧ P x y) xs ys →
      P (.operation operator xs) (.operation operator ys))
    (call : ∀ function xs ys, List.Forall₂ (fun x y => x.same y = true ∧ P x y) xs ys →
      P (.call function xs) (.call function ys)) :
    ∀ xs ys, sameAll xs ys = true → List.Forall₂ (fun x y => x.same y = true ∧ P x y) xs ys
  | [], ys, h => by
    cases ys with
    | nil => exact .nil
    | cons => cases h
  | x :: xs, ys, h => by
    obtain ⟨y, ys, rfl, first, rest⟩ := sameAll_cons h
    exact .cons ⟨first, same_induction constant reference operation call x y first⟩
      (sameAll_induction constant reference operation call xs ys rest)

end

theorem isBracketed_of_same (h : a.same b = true) (single : Bool) :
    a.isBracketed single = b.isBracketed single := by
  cases a <;> cases b <;> first | rfl | cases h

/-! ## What tells formulas apart -/

/-- What is written of the one and of the other, whatever follows, is the same only if they are
one formula. -/
def Tells (write : Formula → List α) (a b : Formula) : Prop :=
  ∀ r s, write a ++ r = write b ++ s → a = b ∧ r = s

theorem tells_self (write : Formula → List α) (a : Formula) : Tells write a a :=
  fun _ _ h => ⟨rfl, List.append_cancel_left h⟩

theorem Tells.eq {write : Formula → List α} (h : Tells write a b) (hw : write a = write b) :
    a = b := (h [] [] (by rw [hw])).1

theorem Tells.after {write : Formula → List α} (h : Tells write a b) (front : List α) :
    Tells (fun x => front ++ write x) a b := by
  intro r s e
  rw [List.append_assoc, List.append_assoc] at e
  exact h r s (List.append_cancel_left e)

theorem tells_flatMap {write : Formula → List α} (h : List.Forall₂ (Tells write) xs ys)
    {r s : List α} (e : xs.flatMap write ++ r = ys.flatMap write ++ s) : xs = ys ∧ r = s := by
  induction h with
  | nil => exact ⟨rfl, e⟩
  | cons first _ ih =>
    rw [List.flatMap_cons, List.flatMap_cons, List.append_assoc, List.append_assoc] at e
    obtain ⟨rfl, others⟩ := first _ _ e
    obtain ⟨rfl, following⟩ := ih others
    exact ⟨rfl, following⟩

/-! ## Names -/

/-- What is written of several formulas with a separator in between. -/
def joined (separator : List Char) (write : Formula → List Char) : List Formula → List Char
  | [] => []
  | x :: xs => write x ++ xs.flatMap fun y => separator ++ write y

theorem tells_joined {separator : List Char} {write : Formula → List Char}
    (h : List.Forall₂ (Tells write) xs ys) {r s : List Char}
    (e : joined separator write xs ++ r = joined separator write ys ++ s) : xs = ys ∧ r = s := by
  cases h with
  | nil => exact ⟨rfl, e⟩
  | cons first rest =>
    rw [joined, joined, List.append_assoc, List.append_assoc] at e
    obtain ⟨rfl, others⟩ := first _ _ e
    have rest := rest.imp fun _ _ told => Tells.after told separator
    obtain ⟨rfl, following⟩ := tells_flatMap rest others
    exact ⟨rfl, following⟩

theorem toList_joined (separator : String) {name : Formula → String} (xs : List Formula) :
    (separator.intercalate (xs.map name)).toList =
      joined separator.toList (fun x => (name x).toList) xs := by
  cases xs with
  | nil => rfl
  | cons x xs =>
    rw [joined, List.map_cons]
    induction xs generalizing x with
    | nil => simp
    | cons y ys ih =>
      rw [List.map_cons, String.intercalate_cons_cons, String.toList_append,
        String.toList_append, ih y]
      simp

theorem toList_several (operator : Operator) (h : xs.length ≠ 1) :
    (operation operator xs).columnName.toList =
      joined operator.symbol.toList (operandName false) xs := by
  rw [columnName, operandNames_eq_map, toList_joined]
  · simp only [toList_operand]
  · rintro x rfl
    exact h rfl

theorem toList_call (function : Builtin) (xs : List Formula) :
    (call function xs).columnName.toList =
      function.name.toList ++ '(' :: (joined [',', ' '] (·.columnName.toList) xs ++ [')']) := by
  rw [columnName, String.toList_append, toList_bracketed, columnNames_eq_map, toList_joined]
  rfl

theorem Tells.bracketed (hs : a.same b = true) (h : Tells (·.columnName.toList) a b)
    (single : Bool) : Tells (operandName single) a b := by
  intro r s e
  rw [operandName, operandName, isBracketed_of_same hs single] at e
  split at e
  · simp only [List.cons_append, List.append_assoc, List.cons.injEq, true_and] at e
    obtain ⟨rfl, closed⟩ := h _ _ e
    exact ⟨rfl, (List.cons.inj closed).2⟩
  · exact h r s e

/-- The negative zero alone begins with a minus. -/
theorem columnName_tells_constant (h : v.same w = true) :
    Tells (·.columnName.toList) (constant v) (constant w) := by
  rcases Scalar.eq_or_zeros_of_same h with rfl | ⟨x, y, rfl, rfl, zx, zy, signs⟩
  · exact tells_self _ _
  · intro r s e
    simp only [columnName, toList_real, ofReal_zero zx, ofReal_zero zy, signs] at e
    cases sign : Binary64.isNegative x <;> rw [sign] at e <;>
      exact absurd (List.cons.inj e).1 (by decide)

/-- Among formulas that are the same the name of the column tells which one it is. -/
theorem columnName_tells : ∀ a b : Formula, a.same b = true → Tells (·.columnName.toList) a b := by
  apply same_induction
  case constant => exact fun v w => columnName_tells_constant
  case reference => exact fun x _ _ => tells_self _ x
  case operation =>
    intro operator xs ys h r s e
    have operands := fun single => h.imp fun x y told => Tells.bracketed told.1 told.2 single
    by_cases single : xs.length = 1
    · obtain ⟨x, rfl⟩ := List.length_eq_one_iff.1 single
      cases operands true with
      | cons told none =>
        cases none
        simp only [toList_single, List.append_assoc] at e
        obtain ⟨rfl, following⟩ := told _ _ (List.append_cancel_left e)
        exact ⟨rfl, following⟩
    · have several : ys.length ≠ 1 := h.length_eq ▸ single
      simp only [toList_several operator single, toList_several operator several] at e
      obtain ⟨rfl, following⟩ := tells_joined (operands false) e
      exact ⟨rfl, following⟩
  case call =>
    intro function xs ys h r s e
    simp only [toList_call, List.append_assoc, List.cons_append] at e
    have arguments := (List.cons.inj (List.append_cancel_left e)).2
    obtain ⟨rfl, closed⟩ := tells_joined (h.imp fun _ _ told => told.2) arguments
    exact ⟨rfl, (List.cons.inj closed).2⟩

/-! ## Signs of zeros -/

/-- The sign of a constant that is a zero, set for a minus. -/
def zeroSign? : Formula → Option Bool
  | constant (.real x) => if Binary64.magnitude x = 0 then some (Binary64.isNegative x) else none
  | _ => none

/-- The signs of all the zeros, as they are written from left to right. -/
def zeroSigns (x : Formula) : List Bool := x.parts.filterMap zeroSign?

theorem zeroSigns_constant (v : Scalar) :
    (constant v).zeroSigns = (zeroSign? (constant v)).toList := by
  rw [zeroSigns, parts_constant]
  cases h : zeroSign? (constant v) <;> simp [h]

theorem zeroSigns_derivation {x : Formula} {s : Strategy} (h : x.strategy? = some s) :
    x.zeroSigns = x.children.flatMap zeroSigns := by
  have none : zeroSign? x = none := by
    cases x with
    | constant => cases h
    | _ => rfl
  rw [zeroSigns, parts_derivation h, List.filterMap_append, List.filterMap_flatMap]
  simp [none]
  rfl

theorem zeroSigns_tell_constant (h : v.same w = true) :
    Tells zeroSigns (constant v) (constant w) := by
  rcases Scalar.eq_or_zeros_of_same h with rfl | ⟨x, y, rfl, rfl, zx, zy, signs⟩
  · exact tells_self _ _
  · intro r s e
    simp only [zeroSigns_constant, zeroSign?, if_pos zx, if_pos zy, signs] at e
    have first : Binary64.isNegative x = !Binary64.isNegative x := (List.cons.inj e).1
    simp at first

/-- Among formulas that are the same the signs of the zeros tell which one it is. -/
theorem zeroSigns_tell : ∀ a b : Formula, a.same b = true → Tells zeroSigns a b := by
  apply same_induction
  case constant => exact fun v w => zeroSigns_tell_constant
  case reference => exact fun x _ _ => tells_self _ x
  case operation =>
    intro operator xs ys h r s e
    rw [zeroSigns_derivation rfl, zeroSigns_derivation rfl] at e
    obtain ⟨rfl, following⟩ := tells_flatMap (h.imp fun _ _ told => told.2) e
    exact ⟨rfl, following⟩
  case call =>
    intro function xs ys h r s e
    rw [zeroSigns_derivation rfl, zeroSigns_derivation rfl] at e
    obtain ⟨rfl, following⟩ := tells_flatMap (h.imp fun _ _ told => told.2) e
    exact ⟨rfl, following⟩

/-- Of formulas that are the same, those are equal whose zeros have the same signs throughout. They
name one column, and come to the same on any table. If a sign differs, so do the names of the
columns, and no evaluation of the one ends in the column of the other. -/
theorem same_told (h : a.same b = true) :
    (a.columnName = b.columnName ↔ a.zeroSigns = b.zeroSigns) ∧
      (a.zeroSigns = b.zeroSigns → ∀ t, a.evaluate t = b.evaluate t) ∧
      (a.zeroSigns ≠ b.zeroSigns → ∀ t u m n, (a.evaluate t).1 = .ok m →
        (b.evaluate u).1 = .ok n → m ≠ n) := by
  have byName : a.columnName = b.columnName → a = b := fun same =>
    (columnName_tells a b h).eq (congrArg String.toList same)
  have bySigns : a.zeroSigns = b.zeroSigns → a = b := (zeroSigns_tell a b h).eq
  refine ⟨⟨fun same => congrArg _ (byName same), fun same => congrArg _ (bySigns same)⟩,
    fun same t => by rw [bySigns same], fun differ t u m n hm hn same => ?_⟩
  have ha := name_of_run (x := a) (p := ⟨t, []⟩) (Prod.ext hm rfl)
  have hb := name_of_run (x := b) (p := ⟨u, []⟩) (Prod.ext hn rfl)
  exact differ (congrArg _ (byName (ha.symm.trans (same.trans hb))))

/-- The reciprocal of a real. -/
def reciprocal (x : Float) : Formula :=
  .operation .divide [.constant (.integer 1), .constant (.real x)]

theorem same_told_reciprocal :
    (reciprocal 0.0).same (reciprocal (-0.0)) = true ∧
      (reciprocal 0.0).zeroSigns = [false] ∧ (reciprocal (-0.0)).zeroSigns = [true] ∧
      (reciprocal 0.0).columnName = "1/0.0" ∧ (reciprocal (-0.0)).columnName = "1/-0.0" ∧
      ∀ t u m n, ((reciprocal 0.0).evaluate t).1 = .ok m →
        ((reciprocal (-0.0)).evaluate u).1 = .ok n → m ≠ n := by
  have same : (reciprocal 0.0).same (reciprocal (-0.0)) = true := by decide +kernel
  have plus : (reciprocal 0.0).zeroSigns = [false] := by decide +kernel
  have minus : (reciprocal (-0.0)).zeroSigns = [true] := by decide +kernel
  have differ : (reciprocal 0.0).zeroSigns ≠ (reciprocal (-0.0)).zeroSigns := by
    rw [plus, minus]
    decide
  exact ⟨same, plus, minus, by decide +kernel, by decide +kernel, (same_told same).2.2 differ⟩

/-- The zeros are the same, but they name two columns and leave two tables. -/
theorem zeros_same_named_apart :
    let plus := constant (.real 0.0)
    let minus := constant (.real (-0.0))
    plus.same minus = true ∧ plus.columnName = "0.0" ∧ minus.columnName = "-0.0" ∧
      (plus.evaluate .empty).1 = .ok "0.0" ∧ (minus.evaluate .empty).1 = .ok "-0.0" ∧
      (plus.evaluate .empty).2.same (minus.evaluate .empty).2 = false := by
  decide +kernel

end Formula

end ColumnFormula
