import ColumnFormula.Proofs.Arguments

/-!
# What a signature grants

An operation or function that works row by row takes numbers only, as many as its kernel is for, and
of numbers every kernel makes something (`takesNumbers_of_resolved`).
-/

namespace ColumnFormula

/-! ## Kernels -/

theorem Measurement.isSome_real? {m : Measurement} : m.real?.isSome = true ↔ m.kind ≠ .text := by
  unfold real? kind
  cases m.quantity <;> simp [Scalar.toReal?, Scalar.kind]

theorem Measurement.isSome_toReal? {m : Measurement} :
    m.toReal?.isSome = true ↔ m.kind ≠ .text := by
  unfold toReal? kind
  cases m.quantity <;> simp [Scalar.kind]

theorem Measurement.toReal?_eq_none_iff {m : Measurement} : m.toReal? = none ↔ m.kind = .text := by
  rw [← Option.not_isSome_iff_eq_none, isSome_toReal?, not_not]

theorem Measurement.real?_of_toReal? {m n : Measurement} (h : m.toReal? = some n) :
    n.real?.isSome = true := by
  obtain ⟨value, error, -, -, rfl⟩ := exists_of_toReal? h
  rfl

namespace Kernel

/-- The kernel makes something of any `count` numbers. -/
def TakesNumbers (kernel : Kernel) (count : Nat) : Prop :=
  ∀ ms : List Measurement, ms.length = count → (∀ m ∈ ms, m.kind ≠ .text) →
    (kernel ms).isSome = true

theorem takesNumbers_unary (f : Float → Float) : (unary f).TakesNumbers 1 := by
  intro ms length numbers
  obtain ⟨m, rfl⟩ := List.length_eq_one_iff.1 length
  have number := numbers m List.mem_cons_self
  obtain ⟨n, hn⟩ := Option.isSome_iff_exists.1 (Measurement.isSome_toReal?.2 number)
  obtain ⟨value, hv⟩ := Option.isSome_iff_exists.1 (Measurement.real?_of_toReal? hn)
  simp [unary, hn, hv]

theorem takesNumbers_binary (f : Float → Float → Float) : (binary f).TakesNumbers 2 := by
  intro ms length numbers
  obtain ⟨m, k, rfl⟩ := List.length_eq_two.1 length
  have left := numbers m List.mem_cons_self
  have right := numbers k (List.mem_cons_of_mem _ List.mem_cons_self)
  obtain ⟨n, hn⟩ := Option.isSome_iff_exists.1 (Measurement.isSome_toReal?.2 left)
  obtain ⟨value, hv⟩ := Option.isSome_iff_exists.1 (Measurement.real?_of_toReal? hn)
  obtain ⟨other, ho⟩ := Option.isSome_iff_exists.1 (Measurement.isSome_real?.2 right)
  simp [binary, hn, hv, ho]

theorem takesNumbers_abs : abs.TakesNumbers 1 := by
  intro ms length numbers
  obtain ⟨m, rfl⟩ := List.length_eq_one_iff.1 length
  have number := numbers m List.mem_cons_self
  rw [Measurement.kind] at number
  cases hq : m.quantity with
  | integer i =>
    rw [abs, hq, distance]
    split <;> rfl
  | real => rw [abs, hq]; rfl
  | text => exact absurd (by rw [hq]; rfl) number

end Kernel

theorem Operator.takesNumbers (operator : Operator) :
    operator.kernel.TakesNumbers operator.signature.arity := by
  cases operator with
  | negate => exact Kernel.takesNumbers_unary _
  | _ => exact Kernel.takesNumbers_binary _

/-- Functions that work row by row are for numbers. -/
theorem Builtin.takesNumbers {function : Builtin} {kernel : Kernel}
    (h : function.strategy = .perRow kernel) :
    kernel.TakesNumbers function.signature.arity ∧
      ∀ slot ∈ function.signature.slots, slot.kinds = .numeric := by
  cases function with
  | avg | find | ifeq | max | min | or => cases h
  | abs =>
    cases h
    exact ⟨Kernel.takesNumbers_abs, by decide⟩
  | pow =>
    cases h
    exact ⟨Kernel.takesNumbers_binary _, by decide⟩
  | _ =>
    cases h
    exact ⟨Kernel.takesNumbers_unary _, by decide⟩

namespace Formula

variable {s : Schema} {Text : String → Prop} {x : Formula}

/-- A formula that works row by row has numbers for arguments, as many as its kernel takes. -/
theorem takesNumbers_of_resolved {kernel : Kernel} (hs : x.strategy? = some (.perRow kernel))
    (h : x.Resolved s Text) :
    kernel.TakesNumbers x.children.length ∧ ∀ y ∈ x.children, y.argument.Numeric := by
  cases x with
  | operation operator operands =>
    cases hs
    have takes := operator.takesNumbers
    cases obeys_of_resolved h with
    | negate numeric => exact ⟨takes, List.forall_mem_singleton.2 numeric⟩
    | binary two left right =>
      rw [Operator.arity_eq_two two] at takes
      exact ⟨takes, List.forall_mem_cons.2 ⟨left, List.forall_mem_singleton.2 right⟩⟩
  | call function arguments =>
    have accepted := takes_of_resolved h
    obtain ⟨takes, numeric⟩ := Builtin.takesNumbers (Option.some.inj hs)
    have length := length_of_takes accepted
    rw [children, length]
    refine ⟨takes, fun y hy => Argument.only_numeric_iff.1 ?_⟩
    exact accepted.only numeric _ (List.mem_map_of_mem hy)
  | _ => cases hs

end Formula

end ColumnFormula
