import ColumnFormula.Proofs.Denotation

/-!
# What a pass writes

`run_constant`, `run_reference` and `run_derivation` are the steps of a pass. Whatever a pass
does to a table is a sequence of writes (`Writes`): whole columns, each for the first time in
the pass and each named after a part of the formula that is no reference (`run_writes`).
`schedule` lists the columns that a pass without failure writes; a pass that fails has
written a prefix of it (`keeps_run`).
-/

namespace ColumnFormula

/-! ## Steps -/

namespace Formula

theorem run_constant (value : Scalar) (p : Pass) :
    (constant value).run p =
      if p.written.contains value.columnName then (.ok value.columnName, p)
      else
        (.ok value.columnName,
          p.write value.columnName (constantColumn value p.table.size)) := by
  rw [run]

theorem require_eq (p : Pass) (name : String) :
    require p name name = (p.table.read name).map fun _ => name := by
  rw [require, Table.read]
  split <;> rfl

theorem run_reference {x : Formula} {column : String} (h : x.reads? = some column)
    (p : Pass) : x.run p = (require p column column, p) := by
  cases x with
  | var | prop => cases h; rw [run]
  | _ => cases h

theorem run_derivation {x : Formula} {s : Strategy} (h : x.strategy? = some s) (p : Pass) :
    x.run p =
      if p.written.contains x.columnName then (.ok x.columnName, p)
      else
        match runAll x.children p with
        | (.error e, p) => (.error e, p)
        | (.ok names, p) => finish s x.columnName names p := by
  cases x with
  | operation | call => cases h; rw [run]; rfl
  | _ => cases h

theorem finish_eq (s : Strategy) (formula : String) (names : List String) (p : Pass) :
    finish s formula names p =
      match s.combine formula names p.table.size (names.map p.table.column) with
      | .error e => (.error e, p)
      | .ok values => (.ok formula, p.write formula values) := by
  have same := Strategy.column_select s formula names p.table
  unfold finish
  cases h : s.combine formula names p.table.size (names.map p.table.column) <;>
    simp only [same, h]

/-- A pass that comes to an end ends in the column of its formula. -/
theorem name_of_run {x : Formula} {p q : Pass} {name : String}
    (h : x.run p = (.ok name, q)) : name = x.columnName := by
  cases hs : x.strategy? with
  | none =>
    cases x with
    | constant value =>
      rw [run_constant] at h
      split at h <;> cases h <;> rfl
    | var | prop =>
      rw [run_reference rfl, require] at h
      split at h <;> cases h
      rfl
    | operation | call => cases hs
  | some s =>
    rw [run_derivation hs] at h
    split at h
    · cases h
      rfl
    · split at h
      · cases h
      · rw [finish_eq] at h
        split at h <;> cases h
        rfl

theorem names_of_runAll {xs : List Formula} {p q : Pass} {names : List String}
    (h : runAll xs p = (.ok names, q)) : names = columnNames xs := by
  induction xs generalizing p names with
  | nil => cases h; rfl
  | cons x xs ih =>
    rw [runAll] at h
    split at h
    · cases h
    · rename_i name p' hx
      split at h
      · cases h
      · rename_i rest p'' hxs
        cases h
        rw [columnNames, name_of_run hx, ih hxs]

end Formula

/-! ## Writes -/

namespace Pass

/-- From the first pass to the second by writing columns new to the pass. -/
inductive Writes (Name : String → Prop) (p : Pass) : Pass → Prop where
  | refl : Writes Name p p
  | write {q : Pass} {name : String} (values : Column) : Writes Name p q → Name name →
      name ∉ q.written → Writes Name p (q.write name values)

namespace Writes

variable {Name Other : String → Prop} {p q r : Pass}

theorem trans (h : Writes Name p q) (h' : Writes Name q r) : Writes Name p r := by
  induction h' with
  | refl => exact h
  | write values _ hn hw ih => exact .write values ih hn hw

theorem mono (h : Writes Name p q) (hn : ∀ name, Name name → Other name) :
    Writes Other p q := by
  induction h with
  | refl => exact .refl
  | write values _ hname hw ih => exact .write values ih (hn _ hname) hw

theorem size_eq (h : Writes Name p q) : q.table.size = p.table.size := by
  induction h with
  | refl => rfl
  | write values _ _ _ ih => rw [Pass.write, Table.size_put, ih]

theorem has (h : Writes Name p q) {column : String} (hc : p.table.has column = true) :
    q.table.has column = true := by
  induction h with
  | refl => exact hc
  | write values _ _ _ ih => rw [Pass.write, Table.has_put, ih, Bool.true_or]

/-- All that was written before stays on record. -/
theorem written_extends (h : Writes Name p q) : p.written <+: q.written := by
  induction h with
  | refl => exact List.prefix_refl _
  | write values _ _ _ ih => exact ih.trans (List.prefix_append ..)

theorem mem_written (h : Writes Name p q) {name : String} (hw : name ∈ q.written) :
    name ∈ p.written ∨ Name name := by
  induction h with
  | refl => exact .inl hw
  | write values _ hn _ ih =>
    rcases List.mem_append.1 hw with hw | hw
    · exact ih hw
    · rw [List.mem_singleton] at hw
      exact .inr (hw ▸ hn)

/-- No column is written twice. -/
theorem nodup (h : Writes Name p q) (hp : p.written.Nodup) : q.written.Nodup := by
  induction h with
  | refl => exact hp
  | write values _ _ hw ih =>
    refine List.nodup_append.2 ⟨ih, List.pairwise_singleton _ _, fun a ha b hb => ?_⟩
    rw [List.mem_singleton.1 hb]
    rintro rfl
    exact hw ha

/-- A column not written since, or not again, is as it was. -/
theorem column_eq (h : Writes Name p q) (column : String)
    (hc : column ∈ p.written ∨ column ∉ q.written) :
    q.table.column column = p.table.column column ∧
      q.table.has column = p.table.has column := by
  induction h with
  | refl => exact ⟨rfl, rfl⟩
  | @write q name values h _ hw ih =>
    have other : column ≠ name := by
      rintro rfl
      rcases hc with hc | hc
      · exact hw (h.written_extends.subset hc)
      · exact hc (List.mem_append_right _ (List.mem_singleton_self _))
    have earlier : column ∈ p.written ∨ column ∉ q.written :=
      hc.imp_right fun hc hq => hc (List.mem_append_left _ hq)
    refine ⟨?_, ?_⟩
    · rw [Pass.write, Table.column_put_of_ne other, (ih earlier).1]
    · rw [Pass.write, Table.has_put, (ih earlier).2]
      simp [other]

end Writes

end Pass

namespace Formula

open Pass

/-- The names of the parts that write. -/
def Writer (x : Formula) (name : String) : Prop := ∃ y ∈ x.writers, y.columnName = name

theorem Writer.of_child {x y : Formula} (h : y ∈ x.children) {name : String}
    (hn : y.Writer name) : x.Writer name := by
  obtain ⟨z, hz, rfl⟩ := hn
  obtain ⟨hz, hr⟩ := mem_writers.1 hz
  exact ⟨z, mem_writers.2 ⟨parts_trans hz (child_mem_parts h), hr⟩, rfl⟩

theorem Writer.length_lt {x y : Formula} (h : y ∈ x.children) {name : String}
    (hn : y.Writer name) : name.length < x.columnName.length := by
  obtain ⟨z, hz, rfl⟩ := hn
  exact Nat.lt_of_le_of_lt (length_columnName_part (mem_writers.1 hz).1)
    (length_columnName_child h)

theorem writer_self {x : Formula} (h : x.reads? = none) : x.Writer x.columnName :=
  ⟨x, mem_writers.2 ⟨self_mem_parts x, h⟩, rfl⟩

theorem runAll_writes {Name : String → Prop} {xs : List Formula}
    (h : ∀ x ∈ xs, ∀ p, Writes Name p (x.run p).2) (p : Pass) :
    Writes Name p (runAll xs p).2 := by
  induction xs generalizing p with
  | nil => exact .refl
  | cons x xs ih =>
    have first := h x (List.mem_cons_self ..) p
    rw [runAll]
    split
    · rename_i e q hx
      rwa [hx] at first
    · rename_i name q hx
      rw [hx] at first
      have rest := first.trans (ih (fun y hy => h y (List.mem_cons_of_mem _ hy)) q)
      split <;> rename_i hxs <;> rwa [hxs] at rest

theorem run_writes (x : Formula) (p : Pass) : Writes x.Writer p (x.run p).2 := by
  induction x using byKind generalizing p with
  | constant value =>
    rw [run_constant]
    split
    · exact .refl
    · rename_i hw
      exact .write _ .refl (writer_self (x := constant value) rfl) (by simpa using hw)
  | reference x column h => rw [run_reference h]; exact .refl
  | derivation x s h ih =>
    rw [run_derivation h]
    split
    · exact .refl
    · rename_i hw
      -- no child writes the column of the whole, whose name is longer than theirs
      have children : Writes (fun name => x.Writer name ∧ name ≠ x.columnName) p
          (runAll x.children p).2 :=
        runAll_writes (fun y hy q => (ih y hy q).mono fun name hn =>
          ⟨hn.of_child hy, fun e => absurd (hn.length_lt hy) (by rw [e]; omega)⟩) p
      split
      · rename_i e q hr
        rw [hr] at children
        exact children.mono fun _ hn => hn.1
      · rename_i names q hr
        rw [hr] at children
        have fresh : x.columnName ∉ q.written := fun hq =>
          (children.mem_written hq).elim (by simpa using hw) fun hn => hn.2 rfl
        rw [finish_eq]
        split
        · exact children.mono fun _ hn => hn.1
        · exact .write _ (children.mono fun _ hn => hn.1)
            (writer_self (reads?_derivation h)) fresh

theorem runAll_extends (xs : List Formula) (p : Pass) :
    p.written <+: (runAll xs p).2.written := by
  have writes : p.Writes (fun _ => True) (runAll xs p).2 :=
    runAll_writes (fun x _ p => (run_writes x p).mono fun _ _ => trivial) p
  exact writes.written_extends

/-! ## Schedules -/

mutual

/-- The columns written after a run without failure, if those in `written` were before. -/
def schedule : Formula → List String → List String
  | constant value, written =>
    if written.contains value.columnName then written else written ++ [value.columnName]
  | var .., written => written
  | prop .., written => written
  | operation operator operands, written =>
    let name := (operation operator operands).columnName
    if written.contains name then written else scheduleAll operands written ++ [name]
  | call function arguments, written =>
    let name := (call function arguments).columnName
    if written.contains name then written else scheduleAll arguments written ++ [name]

def scheduleAll : List Formula → List String → List String
  | [], written => written
  | x :: xs, written => scheduleAll xs (x.schedule written)

end

theorem schedule_reference {x : Formula} {column : String} (h : x.reads? = some column)
    (written : List String) : x.schedule written = written := by
  cases x with
  | var | prop => rw [schedule]
  | _ => cases h

theorem schedule_derivation {x : Formula} {s : Strategy} (h : x.strategy? = some s)
    (written : List String) :
    x.schedule written =
      if written.contains x.columnName then written
      else scheduleAll x.children written ++ [x.columnName] := by
  cases x with
  | operation | call => rw [schedule]; rfl
  | _ => cases h

/-- Scheduled columns come after all those written before. -/
theorem prefix_schedule (x : Formula) (written : List String) :
    written <+: x.schedule written := by
  induction x using byKind generalizing written with
  | constant value =>
    rw [schedule]
    split
    · exact List.prefix_refl _
    · exact List.prefix_append ..
  | reference x _ h =>
    have same := schedule_reference h written
    exact ⟨[], by rw [same, List.append_nil]⟩
  | derivation x s h ih =>
    rw [schedule_derivation h]
    split
    · exact List.prefix_refl _
    · exact (prefix_scheduleAll ih written).trans (List.prefix_append ..)
where
  prefix_scheduleAll {xs : List Formula}
      (h : ∀ x ∈ xs, ∀ written, written <+: x.schedule written) (written : List String) :
      written <+: scheduleAll xs written := by
    induction xs generalizing written with
    | nil => exact List.prefix_refl _
    | cons x xs ih =>
      exact (h x (List.mem_cons_self ..) written).trans
        (ih (fun y hy => h y (List.mem_cons_of_mem _ hy)) _)

/-- What a run has written, compared with the schedule. -/
def Keeps {α : Type} (r : Except EvaluationError α × Pass) (scheduled : List String) : Prop :=
  match r.1 with
  | .ok _ => r.2.written = scheduled
  | .error _ => r.2.written <+: scheduled

theorem keeps_runAll {xs : List Formula}
    (h : ∀ x ∈ xs, ∀ p : Pass, Keeps (x.run p) (x.schedule p.written)) (p : Pass) :
    Keeps (runAll xs p) (scheduleAll xs p.written) := by
  induction xs generalizing p with
  | nil => rfl
  | cons x xs ih =>
    have first := h x (List.mem_cons_self ..) p
    rw [runAll, scheduleAll]
    split
    · rename_i e q hx
      rw [hx] at first
      exact first.trans (prefix_schedule.prefix_scheduleAll (fun y _ => prefix_schedule y) _)
    · rename_i name q hx
      rw [hx] at first
      have rest := ih (fun y hy => h y (List.mem_cons_of_mem _ hy)) q
      rw [show q.written = x.schedule p.written from first] at rest
      split <;> rename_i hxs <;> rwa [hxs] at rest

/-- A run keeps to the schedule as far as it comes. -/
theorem keeps_run (x : Formula) (p : Pass) : Keeps (x.run p) (x.schedule p.written) := by
  induction x using byKind generalizing p with
  | constant value =>
    rw [run_constant, schedule]
    split <;> rfl
  | reference x column h =>
    rw [run_reference h, schedule_reference h, require]
    split
    · rfl
    · exact List.prefix_refl _
  | derivation x s h ih =>
    rw [run_derivation h, schedule_derivation h]
    split
    · rfl
    · have children := keeps_runAll ih p
      split
      · rename_i e q hr
        rw [hr] at children
        exact List.IsPrefix.trans children (List.prefix_append ..)
      · rename_i names q hr
        rw [hr] at children
        have hq : q.written = scheduleAll x.children p.written := children
        rw [finish_eq, ← hq]
        split
        · exact List.prefix_append ..
        · rfl

theorem mem_schedule {x : Formula} {p : Pass} {name : String}
    (h : name ∈ (x.run p).2.written) : name ∈ x.schedule p.written := by
  have keeps := keeps_run x p
  rw [Keeps] at keeps
  split at keeps
  · rw [← keeps]; exact h
  · exact keeps.subset h

end Formula

end ColumnFormula
