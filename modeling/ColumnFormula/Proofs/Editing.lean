import ColumnFormula.Proofs.Custody

/-!
# Tables under edit

However a table is made and edited, by hand or by evaluations and applications that succeed or
fail, it declares no column twice and holds cells in declared columns only (`Sound`). Columns are
declared behind those there are, and rows come by `push` alone. All of this is shown of the three
primitive edits and carried along their sequences (`Grown`); a pass and an application are
sequences of `put` (`Pass.Writes.grown`, `grown_apply`).
-/

namespace ColumnFormula

theorem Named.mem_names_set {α : Type} {m : Named α} {name key : String} {value : Option α}
    (h : key ∈ (m.set name value).names) : key = name ∨ key ∈ m.names := by
  rw [← Named.get?_isSome, Named.get?_set] at h
  split at h
  · exact .inl ‹_›
  · exact .inr (Named.get?_isSome.1 h)

namespace Table

variable {t u v : Table} {column name : String} {m n : Nat}

/-! ## Declarations -/

theorem extend_cons (columns : List String) (name : String) (names : List String) :
    extend columns (name :: names) = extend (extend columns [name]) names := rfl

theorem extend_singleton (columns : List String) (name : String) :
    extend columns [name] = if columns.contains name then columns else columns ++ [name] := rfl

theorem prefix_extend (columns names : List String) : columns <+: extend columns names := by
  induction names generalizing columns with
  | nil => exact List.prefix_refl _
  | cons name names ih =>
    rw [extend_cons]
    refine List.IsPrefix.trans ?_ (ih _)
    rw [extend_singleton]
    split
    · exact List.prefix_refl _
    · exact List.prefix_append ..

theorem nodup_extend {columns : List String} (h : columns.Nodup) (names : List String) :
    (extend columns names).Nodup := by
  induction names generalizing columns with
  | nil => exact h
  | cons name names ih =>
    rw [extend_cons]
    refine ih ?_
    rw [extend_singleton]
    split
    · exact h
    · rename_i new
      exact List.nodup_append.2 ⟨h, List.pairwise_singleton _ _, fun a ha b hb same =>
        new (List.contains_iff_mem.2 (List.mem_singleton.1 hb ▸ same ▸ ha))⟩

/-- What is added to some columns are the new names, each where it occurs first. -/
theorem extend_eq_append (columns names : List String) :
    extend columns names = columns ++ (names.filter fun n => !columns.contains n).eraseDups := by
  induction names generalizing columns with
  | nil => rw [List.filter_nil, List.eraseDups_nil, List.append_nil]; rfl
  | cons name names ih =>
    rw [extend_cons, extend_singleton, ih]
    by_cases there : columns.contains name = true
    · simp only [there, if_true, List.filter_cons, Bool.not_true, Bool.false_eq_true, if_false]
    · have further : (names.filter fun n => !(columns ++ [name]).contains n) =
          (names.filter fun n => !columns.contains n).filter fun n => !n == name := by
        rw [List.filter_filter]
        refine List.filter_congr fun n _ => ?_
        by_cases h : n = name <;> simp [h]
      rw [Bool.not_eq_true] at there
      rw [there, if_neg Bool.false_ne_true, further, List.filter_cons, there, Bool.not_false,
        if_pos rfl, List.eraseDups_cons, List.append_assoc]
      rfl

theorem columns_ofColumns (names : List String) : (ofColumns names).columns = names.eraseDups := by
  rw [ofColumns, extend_eq_append]
  simp

/-- Each column is declared once, and so is every column with a cell in it. -/
structure Sound (t : Table) : Prop where
  nodup : t.columns.Nodup
  declared : ∀ row ∈ t.rows, ∀ name ∈ row.names, name ∈ t.columns

theorem Sound.absent (h : t.Sound) (hn : t.has name = false) (row : Nat) :
    t.cell? row name = none := by
  cases hr : t.rows[row]? with
  | none => rw [cell?, hr]; rfl
  | some r =>
    rw [cell?, hr, Option.bind_some, ← Option.not_isSome_iff_eq_none, Named.get?_isSome]
    intro there
    have declared := h.declared r (List.mem_of_getElem? hr) name there
    rw [has, List.contains_iff_mem.2 declared] at hn
    cases hn

theorem sound_ofColumns (names : List String) : (ofColumns names).Sound where
  nodup := nodup_extend List.nodup_nil names
  declared _ hr := absurd hr List.not_mem_nil

/-! ## Growth -/

/-- The table `u` comes from `t` by edits that add so many rows. -/
structure Grown (rows : Nat) (t u : Table) : Prop where
  columns : t.columns <+: u.columns
  size : u.size = t.size + rows
  sound : t.Sound → u.Sound

theorem Grown.refl (t : Table) : Grown 0 t t := ⟨List.prefix_refl _, rfl, id⟩

theorem Grown.trans (h : Grown m t u) (h' : Grown n u v) : Grown (m + n) t v where
  columns := h.columns.trans h'.columns
  size := by rw [h'.size, h.size, Nat.add_assoc]
  sound := h'.sound ∘ h.sound

theorem grown_declare (t : Table) (column : String) : Grown 0 t (t.declare column) where
  columns := prefix_extend ..
  size := rfl
  sound h := ⟨nodup_extend h.nodup _, fun row hr name hn =>
    (prefix_extend ..).subset (h.declared row hr name hn)⟩

theorem grown_push (t : Table) (row : Row) : Grown 1 t (t.push row) where
  columns := prefix_extend ..
  size := by simp [push, Table.size]
  sound h := by
    refine ⟨nodup_extend h.nodup _, fun other hr name hn => mem_extend.2 ?_⟩
    rcases List.mem_append.1 hr with hr | hr
    · exact .inl (h.declared other hr name hn)
    · exact .inr (List.mem_singleton.1 hr ▸ hn)

theorem grown_put (t : Table) (column : String) (values : Column) :
    Grown 0 t (t.put column values) where
  columns := prefix_extend ..
  size := size_put ..
  sound h := by
    refine ⟨nodup_extend h.nodup _, fun row hr name hn => mem_extend.2 ?_⟩
    obtain ⟨r, hr⟩ := List.getElem?_of_mem hr
    rw [put, getElem?_putCells] at hr
    obtain ⟨before, there, rfl⟩ := Option.map_eq_some_iff.1 hr
    rcases Named.mem_names_set hn with rfl | old
    · exact .inr List.mem_cons_self
    · exact .inl (h.declared before (List.mem_of_getElem? there) name old)

end Table

open Table

/-- All that a pass does to its table is to put columns. -/
theorem Pass.Writes.grown {Name : String → Prop} {p q : Pass} (h : Pass.Writes Name p q) :
    Grown 0 p.table q.table := by
  induction h with
  | refl => exact .refl _
  | write values _ _ _ ih => exact ih.trans (grown_put ..)

theorem Formula.grown_evaluate (x : Formula) (t : Table) : Grown 0 t (x.evaluate t).2 :=
  (run_writes x ⟨t, []⟩).grown

/-- Whatever comes of it, an application evaluates, copies or does nothing. -/
theorem Workbook.grown_apply (w : Workbook) (name : String) (t : Table) :
    Grown 0 t (w.apply name t).2.2 := by
  cases hd : w.get? name with
  | none =>
    rw [(apply_undefined hd).1]
    exact .refl t
  | some e =>
    have evaluated : Grown 0 t (Pass.evaluate ⟨t, []⟩ e.root).2.table := e.root.grown_evaluate t
    rcases apply_cases (t := t) hd with
      ⟨-, -, hr, -⟩ | ⟨-, error, p, hp, hr, -⟩ | ⟨-, source, p, hp, hr, -⟩
    · rw [hr]
      exact .refl t
    · rw [hr]
      rwa [hp] at evaluated
    · rw [hr]
      rw [hp] at evaluated
      exact evaluated.trans (grown_put ..)

namespace Table

/-! ## Sequences of edits -/

/-- What can be done to a table. -/
inductive Edit where
  | declare (column : String)
  | push (row : Row)
  | put (column : String) (values : Column)
  | evaluate (x : Formula)
  | apply (w : Workbook) (name : String)

def Edit.rows : Edit → Nat
  | push _ => 1
  | _ => 0

def edit (t : Table) : Edit → Table
  | .declare column => t.declare column
  | .push row => t.push row
  | .put column values => t.put column values
  | .evaluate x => (x.evaluate t).2
  | .apply w name => (w.apply name t).2.2

def edited (t : Table) (edits : List Edit) : Table := edits.foldl edit t

theorem grown_edit (t : Table) (e : Edit) : Grown e.rows t (t.edit e) := by
  cases e with
  | declare column => exact grown_declare t column
  | push row => exact grown_push t row
  | put column values => exact grown_put t column values
  | evaluate x => exact x.grown_evaluate t
  | apply w name => exact w.grown_apply name t

theorem grown_edited (t : Table) (edits : List Edit) :
    Grown (edits.map Edit.rows).sum t (t.edited edits) := by
  induction edits generalizing t with
  | nil => exact .refl t
  | cons e edits ih => exact (grown_edit t e).trans (ih (t.edit e))

/-- After any edits of a new table, with or without columns, no column is declared twice and there
are cells in declared columns only, so that any other column reads as absent. Whatever is done next,
the columns stay where they are, and only a push adds a row. A column that is put holds the values
row by row, as far as there are rows and values, and no other cell changes. -/
theorem edited_sound (names : List String) (edits : List Edit) :
    let t := (ofColumns names).edited edits
    t.Sound ∧ (∀ name, t.has name = false → ∀ row, t.cell? row name = none) ∧
    (∀ more, t.columns <+: (t.edited more).columns ∧
      (t.edited more).size = t.size + (more.map Edit.rows).sum) ∧
    ∀ name values row column, (t.edit (.put name values)).cell? row column =
      if column = name then (if row < t.size then values[row]?.join else none)
      else t.cell? row column := by
  intro t
  have sound : t.Sound := (grown_edited _ edits).sound (sound_ofColumns names)
  exact ⟨sound, fun name hn => sound.absent hn, fun more =>
    ⟨(grown_edited t more).columns, (grown_edited t more).size⟩,
    fun name values row column => cell?_put t name column values row⟩

/-- A table can also be new without columns. -/
example : ofColumns [] = empty := rfl

end Table

end ColumnFormula
