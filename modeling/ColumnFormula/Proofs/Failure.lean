import ColumnFormula.Proofs.Pass

/-!
# Why a pass fails

Only two things can go wrong in a pass (`Failure`): a column that is read was not there to
begin with, or a search found no matching row among those there are (`failure_of_run`). Where
neither can happen an evaluation succeeds (`evaluate_fails`).
-/

namespace ColumnFormula

/-- Of the strategies only a lookup fails, and only on a table with rows. -/
theorem Strategy.combine_error {s : Strategy} {formula : String} {names : List String}
    {size : Nat} {columns : List Column} {e : EvaluationError}
    (h : s.combine formula names size columns = .error e) :
    s = .lookup ∧ 0 < size ∧ ∃ sought property value, names = [sought, property, value] ∧
      e = .noMatchingRow property value formula := by
  unfold combine at h
  split at h
  · cases h
  · cases h
  · split at h
    · cases h
    · rename_i hs
      split at h
      · cases h
      · cases h; exact ⟨rfl, Nat.pos_of_ne_zero hs, _, _, _, rfl, rfl⟩
  all_goals cases h

namespace Formula

open Pass

/-- The errors of a pass for `x` that begins on the table `t`. -/
inductive Failure (x : Formula) (t : Table) : EvaluationError → Prop where
  | missing {column : String} : column ∈ x.columnsRead → t.has column = false →
      Failure x t (.missingColumn column column)
  | unmatched {y sought property value : Formula} : y ∈ x.parts →
      y = call .find [sought, property, value] → 0 < t.size →
      Failure x t (.noMatchingRow property.columnName value.columnName y.columnName)

variable {x : Formula} {t u : Table} {p q : Pass} {e : EvaluationError}

theorem Failure.of_child {y : Formula} (h : y ∈ x.children) (hf : Failure y t e) :
    Failure x t e := by
  cases hf with
  | missing hc ht => exact .missing (columnsRead_child h hc) ht
  | unmatched hz hs ht => exact .unmatched (parts_trans hz (child_mem_parts h)) hs ht

/-- What is missing later was missing before. -/
theorem Failure.of_writes {Name : String → Prop} (h : Writes Name p q)
    (hf : Failure x q.table e) : Failure x p.table e := by
  cases hf with
  | missing hc ht =>
    refine .missing hc (Bool.eq_false_iff.2 fun hp => ?_)
    rw [h.has hp] at ht
    cases ht
  | unmatched hz hs ht => exact .unmatched hz hs (h.size_eq ▸ ht)

/-- A lookup among three columns is a search with three arguments. -/
theorem eq_find {sought property value : String} (hs : x.strategy? = some .lookup)
    (hn : [sought, property, value] = columnNames x.children) :
    ∃ a b c, x = call .find [a, b, c] ∧ property = b.columnName ∧ value = c.columnName := by
  cases x with
  | call function arguments =>
    obtain rfl : function = .find := by cases function <;> first | rfl | cases hs
    rw [columnNames_eq_map] at hn
    match arguments, hn with
    | [a, b, c], hn => cases hn; exact ⟨a, b, c, rfl, rfl, rfl⟩
  | _ => cases hs

theorem failure_of_runAll {xs : List Formula}
    (h : ∀ x ∈ xs, ∀ p q e, x.run p = (.error e, q) → Failure x p.table e)
    (hr : runAll xs p = (.error e, q)) : ∃ x ∈ xs, Failure x p.table e := by
  induction xs generalizing p with
  | nil => cases hr
  | cons x xs ih =>
    have writes := run_writes x p
    rw [runAll] at hr
    split at hr
    · rename_i e' q' hx
      cases hr
      exact ⟨x, List.mem_cons_self .., h x (List.mem_cons_self ..) p _ _ hx⟩
    · rename_i name q' hx
      rw [hx] at writes
      split at hr
      · rename_i e' q'' hxs
        cases hr
        obtain ⟨y, hy, hf⟩ := ih (fun y hy => h y (List.mem_cons_of_mem _ hy)) hxs
        exact ⟨y, List.mem_cons_of_mem _ hy, hf.of_writes writes⟩
      · cases hr

theorem failure_of_run (h : x.run p = (.error e, q)) : Failure x p.table e := by
  induction x using byKind generalizing p q e with
  | constant value =>
    rw [run_constant] at h
    split at h <;> cases h
  | reference x column hc =>
    rw [run_reference hc, require_eq, Table.read] at h
    split at h
    · cases h
    · rename_i ht
      cases h
      exact .missing (mem_columnsRead.2 ⟨x, self_mem_parts x, hc⟩) (Bool.eq_false_iff.2 ht)
  | derivation x s hs ih =>
    have children : ∀ q e, runAll x.children p = (.error e, q) → Failure x p.table e := by
      intro q e hr
      obtain ⟨y, hy, hf⟩ := failure_of_runAll (fun y hy p q e => ih y hy) hr
      exact hf.of_child hy
    rw [run_derivation hs] at h
    split at h
    · cases h
    · split at h
      · rename_i e' q' hr
        cases h
        exact children _ _ hr
      · rename_i names q' hr
        have writes : p.Writes x.Writer (runAll x.children p).2 :=
          runAll_writes (fun y hy p => (run_writes y p).mono fun _ hn => hn.of_child hy) p
        rw [hr] at writes
        rw [finish_eq] at h
        split at h
        · rename_i e' he
          cases h
          obtain ⟨rfl, hsize, sought, property, value, hn, rfl⟩ := Strategy.combine_error he
          obtain ⟨a, b, c, hx, rfl, rfl⟩ := eq_find hs (hn.symm.trans (names_of_runAll hr))
          exact .unmatched (self_mem_parts x) hx (writes.size_eq ▸ hsize)
        · cases h

/-! ## Evaluations -/

/-- An evaluation fails for two reasons only. A column that the formula reads was not declared,
or the table has rows and a search among the parts found none that matches. So it succeeds where
all the columns are declared, if nothing is searched or there are no rows. -/
theorem evaluate_fails (x : Formula) (p : Pass) :
    (∀ column, (p.evaluate x).1 ≠ .error (.columnExists column)) ∧
      (∀ name, (p.evaluate x).1 ≠ .error (.unknownDefinition name)) ∧
      (∀ column formula, (p.evaluate x).1 = .error (.missingColumn column formula) →
        (∃ y ∈ x.parts, y.reads? = some column ∧ formula = y.columnName) ∧
          p.table.has column = false) ∧
      (∀ property value formula,
        (p.evaluate x).1 = .error (.noMatchingRow property value formula) →
        0 < p.table.size ∧ ∃ a b c, call .find [a, b, c] ∈ x.parts ∧
          property = b.columnName ∧ value = c.columnName ∧
          formula = (call .find [a, b, c]).columnName) ∧
      ((∀ column ∈ x.columnsRead, p.table.has column = true) →
        (∀ arguments, call .find arguments ∉ x.parts) ∨ p.table.size = 0 →
        (p.evaluate x).1 = .ok x.columnName) := by
  have failure : ∀ e, (p.evaluate x).1 = .error e → Failure x p.table e := fun e he =>
    failure_of_run (p := ⟨p.table, []⟩) (Prod.ext he rfl)
  refine ⟨fun column he => (nomatch failure _ he), fun name he => (nomatch failure _ he),
    fun column formula he => ?_, fun property value formula he => ?_, fun declared hs => ?_⟩
  · cases failure _ he with
    | missing read absent =>
      obtain ⟨y, hy, reads⟩ := mem_columnsRead.1 read
      exact ⟨⟨y, hy, reads, (columnName_reference reads).symm⟩, absent⟩
  · cases failure _ he with
    | unmatched part find rows =>
      subst find
      exact ⟨rows, _, _, _, part, rfl, rfl, rfl⟩
  · cases outcome : (p.evaluate x).1 with
    | ok name => rw [name_of_run (p := ⟨p.table, []⟩) (Prod.ext outcome rfl)]
    | error e =>
      cases failure e outcome with
      | missing read absent =>
        rw [declared _ read] at absent
        cases absent
      | unmatched part find rows =>
        subst find
        rcases hs with absent | empty
        · exact absurd part (absent _)
        · omega

/-- The distance from zero of the count that is 3. -/
def distanceOfThree : Formula :=
  .call .abs
    [.call .find [.var "count" ⟨.result, .integer⟩, .var "count" ⟨.result, .integer⟩,
      .constant (.integer 3)]]

def oneCount : Table :=
  (Table.ofColumns ["count"]).push (.ofList [("count", .bare "count" .all (.integer 4))])

/-- Without rows there is a result, with rows that do not match none, and neither is there one
without the column. -/
theorem evaluate_fails_distanceOfThree :
    (Pass.evaluate ⟨.ofColumns ["count"], []⟩ distanceOfThree).1 =
        .ok "abs(find(count, count, 3))" ∧
      (Pass.evaluate ⟨oneCount, []⟩ distanceOfThree).1 =
        .error (.noMatchingRow "count" "3" "find(count, count, 3)") ∧
      (0 < oneCount.size ∧ ∃ a b c, call .find [a, b, c] ∈ distanceOfThree.parts ∧
        "count" = b.columnName ∧ "3" = c.columnName ∧
        "find(count, count, 3)" = (call .find [a, b, c]).columnName) ∧
      (Pass.evaluate ⟨.empty, []⟩ distanceOfThree).1 =
        .error (.missingColumn "count" "count") ∧
      (∃ y ∈ distanceOfThree.parts, y.reads? = some "count" ∧ "count" = y.columnName) ∧
        Table.empty.has "count" = false := by
  have only : ∀ column ∈ distanceOfThree.columnsRead, column = "count" := by decide
  obtain ⟨-, -, -, -, succeeds⟩ := evaluate_fails distanceOfThree ⟨.ofColumns ["count"], []⟩
  obtain ⟨-, -, -, unmatched, -⟩ := evaluate_fails distanceOfThree ⟨oneCount, []⟩
  obtain ⟨-, -, missing, -, -⟩ := evaluate_fails distanceOfThree ⟨.empty, []⟩
  exact ⟨succeeds (fun column hc => by rw [only column hc]; rfl) (.inr rfl), rfl,
    unmatched _ _ _ rfl, rfl, missing _ _ rfl⟩

end Formula

end ColumnFormula
