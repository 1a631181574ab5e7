import Mathlib.Data.List.Forall2
import ColumnFormula.Proofs.Compiled

/-!
# What a function asks of its arguments

All that a function looks at are the kinds that an argument may give and the shape in which it is
written (`Argument`). It takes as many arguments as it has slots, each of the kinds and the shape of
its slot, and `ifeq` numbers with numbers or texts with texts (`Takes`). Why it does not take others
is said by `Misused`, and the check of its signature finds out (`check_outcome`).
-/

namespace ColumnFormula

/-- What can be seen of an argument: the kinds that it may give and the shapes that it has. -/
@[ext]
structure Argument where
  Gives : Kind → Prop
  Has : Shape → Prop

namespace Argument

/-! ## Taken or not -/

variable (a b : Argument)

def Numeric : Prop := ∀ k, a.Gives k → k = .integer ∨ k = .real

def Textual : Prop := ∀ k, a.Gives k → k = .text

/-- Both arguments give numbers only, or both texts only. -/
def Comparable : Prop := a.Numeric ∧ b.Numeric ∨ a.Textual ∧ b.Textual

/-- The argument gives nothing but some kinds. -/
def Only (kinds : KindSet) : Prop := ∀ k, a.Gives k → kinds.contains k = true

/-- The kinds are those that the argument may give. -/
def Found (kinds : KindSet) : Prop := ∀ k, kinds.contains k = true ↔ a.Gives k

/-- The argument is of the kinds and of the shape that the slot is for. -/
structure Fits (slot : Slot) : Prop where
  kinds : a.Only slot.kinds
  shape : a.Has slot.shape

end Argument

/-- The arguments in the first `n` places fit their slots. -/
def FirstFit (slots : List Slot) (as : List Argument) (n : Nat) : Prop :=
  ∀ i < n, ∀ slot a, slots[i]? = some slot → as[i]? = some a → a.Fits slot

/-- The function takes the arguments. -/
structure Takes (f : Builtin) (as : List Argument) : Prop where
  count : as.length = f.signature.slots.length
  slots : FirstFit f.signature.slots as f.signature.slots.length
  comparable : f = .ifeq → ∀ left right rest, as = left :: right :: rest → left.Comparable right

/-- Why a slot, counted by its place, does not take an argument: its kinds are looked at before its
shape. -/
inductive Unfit (name : String) (p : Position) (place : Nat) (slot : Slot) (a : Argument) :
    ResolveError → Prop where
  | kinds {found : KindSet} : ¬a.Only slot.kinds → a.Found found →
      Unfit name p place slot a (.argumentKinds name place slot.kinds found p)
  | shape : a.Only slot.kinds → ¬a.Has slot.shape →
      Unfit name p place slot a (.argumentShape name place slot.shape p)

/-- Why a function of some name does not take the arguments: their number is looked at first, then
one slot after the other, and last whether they can be compared. -/
inductive Misused (f : Builtin) (name : String) (as : List Argument) (p : Position) :
    ResolveError → Prop where
  | count : as.length ≠ f.signature.slots.length →
      Misused f name as p (.argumentCount name f.signature.slots.length as.length p)
  | slot {i : Nat} {slot : Slot} {a : Argument} {error : ResolveError} :
      as.length = f.signature.slots.length → FirstFit f.signature.slots as i →
      f.signature.slots[i]? = some slot → as[i]? = some a →
      Unfit name p (i + 1) slot a error → Misused f name as p error
  | incomparable {left right : Argument} {rest : List Argument} {first second : KindSet} :
      as.length = f.signature.slots.length →
      FirstFit f.signature.slots as f.signature.slots.length → f = .ifeq →
      as = left :: right :: rest → ¬left.Comparable right →
      left.Found first → right.Found second →
      Misused f name as p (.incomparable name first second p)

/-! ## What is taken -/

section

variable {f : Builtin} {name : String} {a : Argument} {as : List Argument} {slot : Slot}
  {place : Nat} {p : Position} {error error' : ResolveError}

theorem Argument.only_numeric_iff : a.Only .numeric ↔ a.Numeric := by
  simp only [Only, KindSet.contains_numeric]
  rfl

theorem Argument.only_text_iff : a.Only (.single .text) ↔ a.Textual := by
  simp only [Only, KindSet.contains_single, beq_iff_eq]
  exact forall₂_congr fun _ _ => eq_comm

theorem firstFit_zero (slots : List Slot) (as : List Argument) : FirstFit slots as 0 :=
  fun _ hi => absurd hi (Nat.not_lt_zero _)

theorem firstFit_cons {slots : List Slot} {n : Nat} :
    FirstFit (slot :: slots) (a :: as) (n + 1) ↔ a.Fits slot ∧ FirstFit slots as n := by
  constructor
  · intro h
    refine ⟨h 0 (by omega) slot a rfl rfl, fun i hi slot' a' hs ha => ?_⟩
    exact h (i + 1) (by omega) slot' a' hs ha
  · rintro ⟨first, rest⟩ i hi slot' a' hs ha
    cases i with
    | zero => cases hs; cases ha; exact first
    | succ i => exact rest i (by omega) slot' a' hs ha

theorem Takes.fits (h : Takes f as) (i : Nat) (hs : f.signature.slots[i]? = some slot)
    (ha : as[i]? = some a) : a.Fits slot :=
  h.slots i (List.getElem?_eq_some_iff.1 hs).1 slot a hs ha

/-- Where all slots are for some kinds, all arguments are of these. -/
theorem Takes.only {kinds : KindSet} (h : Takes f as)
    (hs : ∀ slot ∈ f.signature.slots, slot.kinds = kinds) : ∀ a ∈ as, a.Only kinds := by
  intro a ha
  obtain ⟨i, hi, rfl⟩ := List.mem_iff_getElem.1 ha
  have place : i < f.signature.slots.length := h.count ▸ hi
  have fits := h.fits i (List.getElem?_eq_getElem place) (List.getElem?_eq_getElem hi)
  rw [← hs _ (List.getElem_mem place)]
  exact fits.kinds

/-! ## One fault at most -/

theorem Argument.Found.unique {s t : KindSet} (hs : a.Found s) (ht : a.Found t) : s = t :=
  KindSet.ext_contains fun k => (hs k).trans (ht k).symm

theorem Unfit.not_fits (h : Unfit name p place slot a error) : ¬a.Fits slot := by
  intro fits
  cases h with
  | kinds kinds => exact kinds fits.kinds
  | shape _ shape => exact shape fits.shape

theorem Unfit.unique (h : Unfit name p place slot a error)
    (h' : Unfit name p place slot a error') : error = error' := by
  cases h with
  | kinds kinds found => cases h' with
    | kinds _ found' => rw [found.unique found']
    | shape kinds' => exact absurd kinds' kinds
  | shape kinds => cases h' with
    | kinds kinds' => exact absurd kinds kinds'
    | shape => rfl

theorem Misused.not_takes (h : Misused f name as p error) : ¬Takes f as := by
  intro takes
  cases h with
  | count count => exact count takes.count
  | slot _ _ hs ha unfit => exact unfit.not_fits (takes.fits _ hs ha)
  | incomparable _ _ hf has unlike => exact unlike (takes.comparable hf _ _ _ has)

theorem Misused.unique (h : Misused f name as p error) (h' : Misused f name as p error') :
    error = error' := by
  cases h with
  | count count => cases h' with
    | count => rfl
    | slot count' | incomparable count' => exact absurd count' count
  | @slot i slot a _ count before hs ha unfit => cases h' with
    | count count' => exact absurd count count'
    | @slot j slot' a' _ _ before' hs' ha' unfit' =>
      -- The earlier of two places is unfit by the one fault and fits by the other.
      rcases Nat.lt_trichotomy i j with hij | rfl | hji
      · exact absurd (before' i hij _ _ hs ha) unfit.not_fits
      · rw [hs] at hs'
        rw [ha] at ha'
        cases hs'
        cases ha'
        exact unfit.unique unfit'
      · exact absurd (before j hji _ _ hs' ha') unfit'.not_fits
    | incomparable _ all =>
      exact absurd (all i (List.getElem?_eq_some_iff.1 hs).1 _ _ hs ha) unfit.not_fits
  | incomparable count all _ has _ first second => cases h' with
    | count count' => exact absurd count count'
    | @slot j _ _ _ _ _ hs' ha' unfit' =>
      exact absurd (all j (List.getElem?_eq_some_iff.1 hs').1 _ _ hs' ha') unfit'.not_fits
    | incomparable _ _ _ has' _ first' second' =>
      rw [has] at has'
      cases has'
      rw [first.unique first', second.unique second']

theorem Misused.position_eq (h : Misused f name as p error) : error.position = p := by
  cases h with
  | slot _ _ _ _ unfit => cases unfit <;> rfl
  | _ => rfl

end

/-! ## Formulas as arguments -/

namespace Formula

/-- The formula is of the form that a shape asks for. -/
inductive Has : Formula → Shape → Prop where
  | any (x : Formula) : x.Has .any
  | var (name : String) (type : VariableType) : (var name type).Has .column
  | prop (identifier column : String) : (prop identifier column).Has .column
  | constant (value : Scalar) : (constant value).Has .constant

def argument (x : Formula) : Argument := ⟨fun k => x.kinds.contains k = true, x.Has⟩

/-- What the formula is made of is taken by the operator or function on top of it. -/
inductive Obeys : Formula → Prop where
  | constant (value : Scalar) : (constant value).Obeys
  | var (name : String) (type : VariableType) : (var name type).Obeys
  | prop (identifier column : String) : (prop identifier column).Obeys
  | negate {x : Formula} : x.argument.Numeric → (operation .negate [x]).Obeys
  | binary {operator : Operator} {x y : Formula} : operator ≠ .negate →
      x.argument.Numeric → y.argument.Numeric → (operation operator [x, y]).Obeys
  | call {f : Builtin} {xs : List Formula} : Takes f (xs.map argument) → (call f xs).Obeys

variable {x y : Formula} {p : Position}

theorem length_of_takes {f : Builtin} {xs : List Formula} (h : Takes f (xs.map argument)) :
    xs.length = f.signature.arity :=
  (List.length_map argument).symm.trans h.count

theorem found_kinds (x : Formula) : x.argument.Found x.kinds := fun _ => Iff.rfl

theorem within_iff {kinds : KindSet} : x.kinds.within kinds = true ↔ x.argument.Only kinds :=
  KindSet.within_iff

theorem numeric_iff : x.kinds.within .numeric = true ↔ x.argument.Numeric :=
  within_iff.trans Argument.only_numeric_iff

theorem textual_iff : x.kinds.within (.single .text) = true ↔ x.argument.Textual :=
  within_iff.trans Argument.only_text_iff

theorem comparable_iff :
    Signature.canCompare x.kinds y.kinds = true ↔ x.argument.Comparable y.argument := by
  simp only [Signature.canCompare, Argument.Comparable, Bool.or_eq_true, Bool.and_eq_true,
    numeric_iff, textual_iff]

theorem fits_iff {shape : Shape} : shape.fits x = true ↔ x.Has shape := by
  cases shape with
  | any => exact ⟨fun _ => .any x, fun _ => rfl⟩
  | column | constant =>
    cases x <;> constructor <;> intro h <;> cases h <;> first | rfl | constructor

end Formula

/-! ## Checks -/

theorem Builtin.comparable_iff {f : Builtin} : f.signature.comparable = true ↔ f = .ifeq := by
  cases f <;> decide

namespace Signature

open Formula

variable {x y : Formula} {p : Position}

/-- What the check of the slots from some place on finds out. -/
theorem checkSlots_outcome (name : String) (p : Position) {slots : List Slot} (place : Nat)
    {xs : List Formula} (length : xs.length = slots.length) :
    match checkSlots name p place slots xs with
    | none => FirstFit slots (xs.map argument) slots.length
    | some error => ∃ i slot a, FirstFit slots (xs.map argument) i ∧ slots[i]? = some slot ∧
        (xs.map argument)[i]? = some a ∧ Unfit name p (place + i) slot a error := by
  -- Places are counted from `place` in errors, but from zero in what has been looked at.
  induction slots generalizing xs place with
  | nil =>
    obtain rfl := List.length_eq_zero_iff.1 length
    exact firstFit_zero _ _
  | cons slot slots ih =>
    cases xs with
    | nil => cases length
    | cons x xs =>
      rw [checkSlots, List.map_cons]
      by_cases kinds : x.kinds.within slot.kinds = true
      · by_cases shape : slot.shape.fits x = true
        · have fits : x.argument.Fits slot := ⟨within_iff.1 kinds, fits_iff.1 shape⟩
          have rest := ih (place + 1) (Nat.succ.inj length)
          rw [if_neg (by simp [kinds]), if_neg (by simp [shape])]
          split
          · rename_i check
            rw [check] at rest
            exact firstFit_cons.2 ⟨fits, rest⟩
          · rename_i error check
            rw [check] at rest
            obtain ⟨i, slot', a, before, hs, ha, unfit⟩ := rest
            rw [Nat.add_right_comm] at unfit
            exact ⟨i + 1, slot', a, firstFit_cons.2 ⟨fits, before⟩, hs, ha, unfit⟩
        · rw [if_neg (by simp [kinds]), if_pos (by simpa using shape)]
          exact ⟨0, slot, x.argument, firstFit_zero _ _, rfl, rfl,
            .shape (within_iff.1 kinds) (mt fits_iff.2 shape)⟩
      · rw [if_pos (by simpa using kinds)]
        exact ⟨0, slot, x.argument, firstFit_zero _ _, rfl, rfl,
          .kinds (mt within_iff.2 kinds) x.found_kinds⟩

/-- What the comparison of two arguments finds out. -/
theorem checkComparable_outcome (name : String) (p : Position) (x y : Formula) :
    match checkComparable name p [x, y] with
    | none => x.argument.Comparable y.argument
    | some error => ¬x.argument.Comparable y.argument ∧
        error = .incomparable name x.kinds y.kinds p := by
  rw [checkComparable]
  by_cases like : canCompare x.kinds y.kinds = true
  · rw [if_pos like]
    exact comparable_iff.1 like
  · rw [if_neg like]
    exact ⟨mt comparable_iff.2 like, rfl⟩

/-- What the check of a call finds out. -/
theorem check_outcome (f : Builtin) (p : Position) (xs : List Formula) :
    match f.signature.check f.name p xs with
    | none => Takes f (xs.map argument)
    | some error => Misused f f.name (xs.map argument) p error := by
  unfold check arity
  by_cases length : xs.length = f.signature.slots.length
  · have count : (xs.map argument).length = f.signature.slots.length := by
      rw [List.length_map, length]
    have slots := checkSlots_outcome f.name p 1 length
    rw [if_neg (not_not_intro length)]
    cases check : checkSlots f.name p 1 f.signature.slots xs with
    | some error =>
      rw [check] at slots
      obtain ⟨i, slot, a, before, hs, ha, unfit⟩ := slots
      rw [Nat.add_comm] at unfit
      exact .slot count before hs ha unfit
    | none =>
      rw [check] at slots
      by_cases hf : f = .ifeq
      · rw [if_pos (Builtin.comparable_iff.2 hf)]
        obtain ⟨left, right, rfl⟩ : ∃ left right, xs = [left, right] :=
          List.length_eq_two.1 (by rw [length, hf]; rfl)
        have comparison := checkComparable_outcome f.name p left right
        split at comparison
        · rename_i none
          rw [none]
          refine ⟨count, slots, fun _ l r rest has => ?_⟩
          cases has
          exact comparison
        · rename_i error some
          obtain ⟨unlike, rfl⟩ := comparison
          rw [some]
          exact .incomparable count slots hf rfl unlike left.found_kinds right.found_kinds
      · rw [if_neg (mt Builtin.comparable_iff.1 hf)]
        exact ⟨count, slots, fun h => absurd h hf⟩
  · rw [if_pos length, ← List.length_map (f := argument)]
    exact .count (by rwa [List.length_map])

/-- What the check of a negation finds out. -/
theorem check_negate (x : Formula) (p : Position) :
    Operator.negate.signature.check Operator.negate.symbol p [x] =
      if x.kinds.within .numeric then none
      else some (.argumentKinds "-" 1 .numeric x.kinds p) := by
  cases hx : x.kinds.within .numeric <;>
    simp [check, Operator.signature, arity, checkSlots, Shape.fits, Operator.symbol, hx]

/-- What the check of an operation between two operands finds out: the left one comes first. -/
theorem check_binary {operator : Operator} (h : operator ≠ .negate) (x y : Formula)
    (p : Position) :
    operator.signature.check operator.symbol p [x, y] =
      if x.kinds.within .numeric then
        if y.kinds.within .numeric then none
        else some (.argumentKinds operator.symbol 2 .numeric y.kinds p)
      else some (.argumentKinds operator.symbol 1 .numeric x.kinds p) := by
  cases hx : x.kinds.within .numeric <;> cases hy : y.kinds.within .numeric <;>
    cases operator <;>
    first
    | contradiction
    | simp [check, Operator.signature, arity, checkSlots, Shape.fits, hx, hy]

end Signature

theorem Operator.arity_eq_two {operator : Operator} (h : operator ≠ .negate) :
    operator.signature.arity = 2 := by
  cases operator <;> first | contradiction | rfl

namespace Formula

variable {s : Schema} {Text : String → Prop} {x : Formula}

theorem takes_of_resolved {f : Builtin} {xs : List Formula} (h : (call f xs).Resolved s Text) :
    Takes f (xs.map argument) := by
  obtain ⟨p, check⟩ := h
  have outcome := Signature.check_outcome f p xs
  rwa [check] at outcome

theorem obeys_of_resolved (h : x.Resolved s Text) : x.Obeys := by
  cases x with
  | constant value => exact .constant value
  | var name type => exact .var name type
  | prop identifier column => exact .prop identifier column
  | operation operator operands =>
    obtain ⟨p, check⟩ := h
    have length := length_of_check check
    by_cases hn : operator = .negate
    · subst hn
      obtain ⟨x, rfl⟩ := List.length_eq_one_iff.1 length
      rw [Signature.check_negate] at check
      split at check
      · rename_i numeric
        exact .negate (numeric_iff.1 numeric)
      · cases check
    · obtain ⟨x, y, rfl⟩ := List.length_eq_two.1 (length.trans (Operator.arity_eq_two hn))
      rw [Signature.check_binary hn] at check
      split at check
      · rename_i first
        split at check
        · rename_i second
          exact .binary hn (numeric_iff.1 first) (numeric_iff.1 second)
        · cases check
      · cases check
  | call f xs => exact .call (takes_of_resolved h)

end Formula

end ColumnFormula
