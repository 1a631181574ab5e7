import Mathlib
import ColumnFormula.Proofs.Agreement
import ColumnFormula.Proofs.Compiled

/-!
# Soundness of kinds

The kinds of a formula are told before any data is seen. After an evaluation the cells of all its
parts are of these kinds (`evaluate_kinds`), given that the cells it reads are of the kinds that
the schema declares (`Supplied`). There is one exception: the least integer has no absolute value
among the integers, so `abs` makes a real of it although it tells the kind of its argument
(`Overflows`).

`Strategy.Source` lists where a cell of a derived column comes from. Of all functions only `abs`
and `or` make cells other than reals (`Builtin.makes_reals`).
-/

namespace ColumnFormula

/-! ## Kernels -/

namespace Kernel

theorem kind_of_unary {f : Float → Float} {cells : List Measurement} {m : Measurement}
    (h : unary f cells = some m) : m.kind = .real := by
  unfold unary at h
  split at h
  · obtain ⟨x, -, h⟩ := Option.bind_eq_some_iff.1 h
    obtain ⟨value, -, h⟩ := Option.bind_eq_some_iff.1 h
    cases h
    rfl
  · cases h

theorem kind_of_binary {f : Float → Float → Float} {cells : List Measurement} {m : Measurement}
    (h : binary f cells = some m) : m.kind = .real := by
  unfold binary at h
  split at h
  · obtain ⟨x, -, h⟩ := Option.bind_eq_some_iff.1 h
    obtain ⟨value, -, h⟩ := Option.bind_eq_some_iff.1 h
    obtain ⟨other, -, h⟩ := Option.bind_eq_some_iff.1 h
    cases h
    rfl
  · cases h

/-- The distance of the least integer from zero. -/
def leastDistance : Float := 9223372036854775808.0

theorem abs_widen_least : (widen Int64.minValue).abs = leastDistance := by decide +kernel

theorem abs_leastDistance : leastDistance.abs = leastDistance := by decide +kernel

theorem abs_eq_some {cells : List Measurement} {m : Measurement} (h : abs cells = some m) :
    ∃ x, cells = [x] ∧ distance x.quantity = some m.quantity := by
  unfold abs at h
  split at h
  · rename_i x
    obtain ⟨quantity, hd, rfl⟩ := Option.map_eq_some_iff.1 h
    exact ⟨x, rfl, hd⟩
  · cases h

end Kernel

/-! ## Where cells come from -/

theorem Measurement.kind_of_toReal? {x m : Measurement} (h : x.toReal? = some m) :
    m.kind = .real := by
  obtain ⟨value, error, -, -, rfl⟩ := exists_of_toReal? h
  rfl

namespace Strategy

theorem present?_eq_some_iff {cells : List (Option Measurement)} {ms : List Measurement} :
    present? cells = some ms ↔ cells = ms.map some := by
  induction cells generalizing ms with
  | nil => cases ms <;> simp [present?]
  | cons cell cells ih =>
    cases cell with
    | none => cases ms <;> simp [present?]
    | some m =>
      cases ms with
      | nil => simp [present?]
      | cons n ms =>
        simp only [present?, Option.map_eq_some_iff, ih, List.map_cons, List.cons.injEq,
          Option.some.injEq]
        constructor
        · rintro ⟨_, hc, rfl, rfl⟩
          exact ⟨rfl, hc⟩
        · rintro ⟨rfl, hc⟩
          exact ⟨ms, hc, rfl, rfl⟩

theorem at_eachRow {size row : Nat} {cell : Nat → Option Measurement} {m : Measurement} :
    (eachRow size cell).at row = some m ↔ row < size ∧ cell row = some m := by
  unfold eachRow Column.at
  by_cases h : row < size <;> simp [h]

theorem kind_of_spread {reduction : Reduction} {name : String} {column : Column} {row : Nat}
    {m : Measurement} (h : (reduction.spread name column).at row = some m) : m.kind = .real := by
  unfold Reduction.spread Column.at at h
  rw [List.getElem?_map] at h
  cases hc : column[row]? with
  | none => rw [hc] at h; cases h
  | some cell => rw [hc] at h; cases h; rfl

theorem kind_of_flag {cells : List (Option Measurement)} {m : Measurement}
    (h : flag cells = some m) : m.kind = .real := by
  unfold flag at h
  split at h
  · cases h
    rfl
  · cases h

theorem either_eq_some {l r : Option Measurement} {m : Measurement}
    (h : either [l, r] = some m) : l = some m ∨ r = some m := by
  cases l with
  | none => exact .inr h
  | some x => exact .inl h

/-- Where the measurement in a row of the column of a derivation comes from. -/
inductive Source (columns : List Column) (row : Nat) (m : Measurement) : Strategy → Prop where
  | computed {kernel : Kernel} {cells : List Measurement} :
      columns.map (·.at row) = cells.map some → kernel cells = some m →
      Source columns row m (perRow kernel)
  | reduced {reduction : Reduction} : m.kind = .real → Source columns row m (aggregate reduction)
  | found : m.kind = .real → Source columns row m lookup
  | flagged : m.kind = .real → Source columns row m conditional
  | taken {column : Column} : column ∈ columns → column.at row = some m →
      Source columns row m coalesce

theorem source_of_combine {s : Strategy} {formula : String} {names : List String} {size row : Nat}
    {columns : List Column} {column : Column} {m : Measurement}
    (h : s.combine formula names size columns = .ok column) (hm : column.at row = some m) :
    Source columns row m s := by
  unfold combine at h
  split at h
  · cases h
    obtain ⟨-, hk⟩ := at_eachRow.1 hm
    obtain ⟨cells, hc, hk⟩ := Option.bind_eq_some_iff.1 hk
    exact .computed (present?_eq_some_iff.1 hc) hk
  · cases h
    exact .reduced (kind_of_spread hm)
  · split at h
    · cases h
      cases hm
    · split at h
      · cases h
        obtain ⟨-, hf⟩ := at_eachRow.1 hm
        obtain ⟨x, -, hx⟩ := Option.bind_eq_some_iff.1 hf
        exact .found (Measurement.kind_of_toReal? hx)
      · cases h
  · cases h
    exact .flagged (kind_of_flag (at_eachRow.1 hm).2)
  · cases h
    rcases either_eq_some (at_eachRow.1 hm).2 with hl | hr
    · exact .taken List.mem_cons_self hl
    · exact .taken (List.mem_cons_of_mem _ List.mem_cons_self) hr
  · cases h
    cases (at_eachRow.1 hm).2

end Strategy

open Strategy (Source)

variable {columns : List Column} {row : Nat} {m : Measurement}

theorem Operator.makes_reals {operator : Operator}
    (h : Source columns row m (.perRow operator.kernel)) : m.kind = .real := by
  cases h with
  | computed _ hk =>
    cases operator with
    | negate => exact Kernel.kind_of_unary hk
    | _ => exact Kernel.kind_of_binary hk

/-- A function that does not tell the kinds of its arguments tells reals, and makes reals. -/
theorem Builtin.makes_reals {function : Builtin} (h : function.signature.returns ≠ .arguments) :
    function.signature.returns = .always (.single .real) ∧
      ∀ columns row m, Source columns row m function.strategy → m.kind = .real := by
  cases function with
  | abs | or => exact absurd rfl h
  | avg | min | max | find | ifeq => exact ⟨rfl, fun _ _ _ h => by cases h; assumption⟩
  | pow =>
    refine ⟨rfl, fun _ _ _ h => ?_⟩
    cases h with
    | computed _ hk => exact Kernel.kind_of_binary hk
  | _ =>
    refine ⟨rfl, fun _ _ _ h => ?_⟩
    cases h with
    | computed _ hk => exact Kernel.kind_of_unary hk

theorem Builtin.returns_arguments {function : Builtin}
    (h : function.signature.returns = .arguments) : function = .abs ∨ function = .or := by
  cases function <;> first | exact .inl rfl | exact .inr rfl | cases h

/-! ## Kinds of results -/

namespace Formula

variable {s : Schema} {t u : Table} {root x y : Formula}

/-- The cells that a reference reads are of the kinds that the schema declares: those of a
variable of its kind, and those of a property texts. -/
def Supplied (s : Schema) (t : Table) : Formula → Prop
  | var name _ => ∀ type, s.variableType? name = some type →
    ∀ row m, t.cell? row name = some m → m.kind = type.kind
  | prop _ column => ∀ row m, t.cell? row column = some m → m.kind = .text
  | _ => True

/-- In this row of the table a part of `x` takes the absolute value of the least integer. -/
def Overflows (u : Table) (row : Nat) (x : Formula) : Prop :=
  ∃ y, call .abs [y] ∈ x.parts ∧
    ∃ m, u.cell? row y.columnName = some m ∧ m.quantity = .integer Int64.minValue

/-- A measurement of a kind that `x` tells, or the distance of the least integer in place of an
integer. -/
def Allows (u : Table) (row : Nat) (x : Formula) (m : Measurement) : Prop :=
  x.kinds.contains m.kind = true ∨
    x.kinds.contains .integer = true ∧ m.quantity = .real Kernel.leastDistance ∧ Overflows u row x

/-- What an argument may hold, a call that tells the kinds of its arguments may. -/
theorem Allows.of_child (hy : y ∈ x.children)
    (hk : ∀ k, y.kinds.contains k = true → x.kinds.contains k = true)
    (h : Allows u row y m) : Allows u row x m := by
  refine h.imp (hk _) ?_
  rintro ⟨integer, quantity, z, hz, least⟩
  exact ⟨hk _ integer, quantity, z, parts_trans hz (child_mem_parts hy), least⟩

theorem contains_of_child {function : Builtin} {arguments : List Formula}
    (hf : function.signature.returns = .arguments) (hy : y ∈ arguments) (k : Kind)
    (h : y.kinds.contains k = true) : (call function arguments).kinds.contains k = true := by
  rw [kinds_of_arguments hf]
  exact contains_kindsOfAll.2 ⟨y, hy, h⟩

theorem distance_cases {a b : Scalar} (h : Kernel.distance a = some b) :
    a = .integer Int64.minValue ∧ b = .real Kernel.leastDistance ∨
      (∃ i j, a = .integer i ∧ b = .integer j) ∨ ∃ r : Float, a = .real r ∧ b = .real r.abs := by
  cases a with
  | integer i =>
    rw [Kernel.distance] at h
    split at h
    · rename_i least
      cases h
      rw [least, Kernel.abs_widen_least]
      exact .inl ⟨rfl, rfl⟩
    · cases h
      exact .inr (.inl ⟨_, _, rfl, rfl⟩)
  | real r =>
    cases h
    exact .inr (.inr ⟨r, rfl, rfl⟩)
  | text => cases h

/-- The absolute value of a cell has its kind, but for that of the least integer. -/
theorem Allows.abs {k : Measurement} (hk : u.cell? row y.columnName = some k)
    (hd : Kernel.distance k.quantity = some m.quantity) (h : Allows u row y k) :
    Allows u row (call .abs [y]) m := by
  have hy : y ∈ (call .abs [y]).children := List.mem_singleton_self y
  have kinds : ∀ k, y.kinds.contains k = true → (call .abs [y]).kinds.contains k = true :=
    contains_of_child rfl hy
  have integer : ∀ i, k.quantity = .integer i → y.kinds.contains .integer = true := by
    intro i hi
    refine h.elim (fun hc => ?_) And.left
    rwa [Measurement.kind, hi] at hc
  rcases distance_cases hd with ⟨least, hq⟩ | ⟨i, j, hi, hq⟩ | ⟨r, hr, hq⟩
  · exact .inr ⟨kinds _ (integer _ least), hq, y, self_mem_parts _, k, hk, least⟩
  · refine .inl ?_
    rw [Measurement.kind, hq]
    exact kinds _ (integer i hi)
  · refine (h.of_child hy kinds).imp (fun hc => ?_) ?_
    · rw [Measurement.kind, hr] at hc
      rwa [Measurement.kind, hq]
    · rintro ⟨hc, distance, overflows⟩
      rw [hr, Scalar.real.injEq] at distance
      rw [hq, distance, Kernel.abs_leastDistance]
      exact ⟨hc, rfl, overflows⟩

theorem kind_of_constantColumn {value : Scalar} {size row : Nat} {m : Measurement}
    (h : (constantColumn value size).at row = some m) : m.kind = value.kind := by
  unfold constantColumn Column.at at h
  rw [List.getElem?_replicate] at h
  split at h
  · cases h
    rfl
  · cases h

theorem contains_of_reference {column : String} (hc : x.reads? = some column)
    (resolved : x.Resolved s Quotable) (supplied : x.Supplied s t)
    (hm : t.cell? row column = some m) : x.kinds.contains m.kind = true := by
  cases x with
  | var name type =>
    cases hc
    rw [supplied type resolved row m hm]
    simp [kinds]
  | prop identifier column =>
    cases hc
    rw [supplied row m hm]
    rfl
  | _ => cases hc

/-- A call of `abs` or `or`: the one changes its argument's cell, the other takes it over. -/
theorem allows_of_arguments {function : Builtin} {arguments : List Formula}
    (hf : function.signature.returns = .arguments)
    (ih : ∀ y ∈ arguments, ∀ k, u.cell? row y.columnName = some k → Allows u row y k)
    (source : Source (arguments.map fun y => u.column y.columnName) row m function.strategy) :
    Allows u row (call function arguments) m := by
  rcases Builtin.returns_arguments hf with rfl | rfl
  · cases source with
    | computed hc hk =>
      obtain ⟨k, rfl, hd⟩ := Kernel.abs_eq_some hk
      obtain ⟨y, rfl, hy⟩ : ∃ y, arguments = [y] ∧ u.cell? row y.columnName = some k := by
        simpa [List.map_eq_cons_iff, Column.at_column] using hc
      exact .abs hy hd (ih y (List.mem_singleton_self y) k hy)
  · cases source with
    | taken hc hat =>
      obtain ⟨y, hy, rfl⟩ := List.mem_map.1 hc
      rw [Column.at_column] at hat
      exact (ih y hy m hat).of_child hy (contains_of_child hf hy)

theorem allows_of_derivation {strategy : Strategy} (hd : x.strategy? = some strategy)
    (ih : ∀ y ∈ x.children, ∀ k, u.cell? row y.columnName = some k → Allows u row y k)
    (source : Source (x.children.map fun y => u.column y.columnName) row m strategy) :
    Allows u row x m := by
  cases x with
  | operation operator operands =>
    cases hd
    refine .inl ?_
    rw [kinds_operation, Operator.makes_reals source]
    rfl
  | call function arguments =>
    cases hd
    cases hf : function.signature.returns with
    | always kinds =>
      have told : function.signature.returns ≠ .arguments := by rw [hf]; nofun
      obtain ⟨reals, made⟩ := Builtin.makes_reals told
      refine .inl ?_
      rw [kinds_of_always reals, made _ _ _ source]
      rfl
    | arguments => exact allows_of_arguments hf ih source
  | _ => cases hd

/-- The cells that a table shows are of the kinds that the parts tell. -/
theorem allows_of_shows (hr : ∀ x ∈ root.parts, x.Resolved s Quotable)
    (hs : ∀ x ∈ root.parts, x.Supplied s t) (h : Shows root t u) (hx : x ∈ root.parts)
    (hm : u.cell? row x.columnName = some m) : Allows u row x m := by
  induction x using byKind generalizing row m with
  | constant value =>
    rw [columnName, ← Column.at_column, h.constant hx] at hm
    refine .inl ?_
    rw [kind_of_constantColumn hm, kinds]
    simp
  | reference x column hc =>
    rw [columnName_reference hc, ← Column.at_column, h.reference hx hc, Column.at_column] at hm
    exact .inl (contains_of_reference hc (hr x hx) (hs x hx) hm)
  | derivation x strategy hd ih =>
    rw [← Column.at_column] at hm
    refine allows_of_derivation hd (fun y hy k hk => ?_)
      (Strategy.source_of_combine (h.combine hx hd) hm)
    exact ih y hy (parts_trans (child_mem_parts hy) hx) hk

end Formula

namespace Equation

open Formula

/-- After an evaluation every part has cells of the kinds that it tells. Only where the absolute
value of the least integer is taken there may be a real, its distance from zero, in place of an
integer. -/
theorem evaluate_kinds {s : Schema} {text : String} {e : Equation} (h : compile s text = .ok e)
    (hu : e.root.Unambiguous) {p : Pass} (hs : ∀ x ∈ e.root.parts, x.Supplied s p.table)
    {name : String} (hn : (p.evaluate e.root).1 = .ok name) :
    ∀ x ∈ e.root.parts, ∀ row m,
      (p.evaluate e.root).2.table.cell? row x.columnName = some m →
        x.kinds.contains m.kind = true ∨
          x.kinds.contains .integer = true ∧ m.quantity = .real 9223372036854775808.0 ∧
            ∃ y, .call .abs [y] ∈ x.parts ∧
              ∃ k, (p.evaluate e.root).2.table.cell? row y.columnName = some k ∧
                k.quantity = .integer Int64.minValue :=
  fun _ hx _ _ hm =>
    allows_of_shows (compile_resolved h) hs (shows_of_evaluate hu hn) hx hm

/-- A schema with a variable of whole numbers. -/
def counted : Schema := Schema.empty.addVariable "n" .result .integer

/-- The least whole number and another one below zero. -/
def counts : Table :=
  ((Table.ofColumns ["n"]).push
    (.ofList [("n", .bare "n" .all (.integer Int64.minValue))])).push
    (.ofList [("n", .bare "n" .all (.integer (-3)))])

def distanceOfCount : Formula := .call .abs [.var "n" ⟨.result, .integer⟩]

theorem compile_distanceOfCount :
    compile counted "abs('n')" = .ok ⟨"abs('n')", distanceOfCount⟩ := by cbv

theorem mem_parts_distanceOfCount {x : Formula} (h : x ∈ distanceOfCount.parts) :
    x = .var "n" ⟨.result, .integer⟩ ∨ x = distanceOfCount := by
  simpa [distanceOfCount, parts, partsOfAll] using h

theorem distanceOfCount_unambiguous : distanceOfCount.Unambiguous := by
  intro x hx y hy h
  rcases mem_parts_distanceOfCount hx with rfl | rfl <;>
    rcases mem_parts_distanceOfCount hy with rfl | rfl <;>
    first | rfl | exact absurd h (by decide)

theorem distanceOfCount_supplied : ∀ x ∈ distanceOfCount.parts, x.Supplied counted counts := by
  intro x hx
  rcases mem_parts_distanceOfCount hx with rfl | rfl
  · intro type ht row m hm
    cases ht
    match row, hm with
    | 0, hm | 1, hm => cases hm; rfl
  · trivial

theorem evaluate_kinds_counts : ∃ e, compile counted "abs('n')" = .ok e ∧ e.root.Unambiguous ∧
    (∀ x ∈ e.root.parts, x.Supplied counted counts) ∧
      (Pass.evaluate ⟨counts, ["n"]⟩ e.root).1 = .ok "abs(n)" ∧
        ∀ x ∈ e.root.parts, ∀ row m,
          (Pass.evaluate ⟨counts, ["n"]⟩ e.root).2.table.cell? row x.columnName = some m →
            x.kinds.contains m.kind = true ∨
              x.kinds.contains .integer = true ∧ m.quantity = .real 9223372036854775808.0 ∧
                ∃ y, .call .abs [y] ∈ x.parts ∧
                  ∃ k, (Pass.evaluate ⟨counts, ["n"]⟩ e.root).2.table.cell? row y.columnName =
                      some k ∧
                    k.quantity = .integer Int64.minValue := by
  have outcome : (Pass.evaluate ⟨counts, ["n"]⟩ distanceOfCount).1 = .ok "abs(n)" := rfl
  exact ⟨_, compile_distanceOfCount, distanceOfCount_unambiguous, distanceOfCount_supplied, outcome,
    evaluate_kinds compile_distanceOfCount distanceOfCount_unambiguous distanceOfCount_supplied
      outcome⟩

/-- No integer is as far from zero as the least one: `abs` tells an integer and makes a real. -/
theorem least_integer_escapes_kinds : ∃ e, compile counted "abs('n')" = .ok e ∧
    e.root.Unambiguous ∧ (∀ x ∈ e.root.parts, x.Supplied counted counts) ∧
      (e.evaluate counts).1 = .ok "abs(n)" ∧
        ∃ m, (e.evaluate counts).2.cell? 0 "abs(n)" = some m ∧ m.kind = .real ∧
          e.root.kinds.contains m.kind = false :=
  ⟨_, compile_distanceOfCount, distanceOfCount_unambiguous, distanceOfCount_supplied, rfl,
    ⟨"n", .real _, _, _, _, _, _⟩, rfl, rfl, rfl⟩

end Equation

end ColumnFormula
