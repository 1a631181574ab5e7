import ColumnFormula.Proofs.Pass

/-!
# Evaluation and denotation agree

A pass finds results by the names of their columns, so it can only be right if no two parts
of a formula want one column for different things: `Unambiguous`. For such formulas `Faithful`
is kept by every write: the references still read what the table held at the start, and every
written column holds what the parts of its name stand for.
-/

namespace ColumnFormula

namespace Formula

/-- Parts that name one column differ at most in what their references are read as. -/
def Unambiguous (x : Formula) : Prop :=
  ∀ y ∈ x.parts, ∀ z ∈ x.parts, y.columnName = z.columnName → y.skeleton = z.skeleton

/-- The results of `x` can be found in its column. -/
def Ready (t : Table) (p : Pass) (x : Formula) : Prop :=
  x.columnName ∈ p.written ∨ x.reads? = some x.columnName ∧ t.has x.columnName = true

/-- The pass is under way for `root` and began on the table `t`. -/
structure Faithful (root : Formula) (t : Table) (p : Pass) : Prop where
  size : p.table.size = t.size
  read : ∀ x ∈ root.parts, ∀ column, x.reads? = some column →
    p.table.read column = t.read column
  written : ∀ x ∈ root.parts, x.columnName ∈ p.written →
    x.denote t = .ok (p.table.column x.columnName)
  parts : ∀ x ∈ root.parts, x.columnName ∈ p.written → ∀ y ∈ x.parts, Ready t p y

variable {root x : Formula} {t : Table} {p : Pass}

theorem Faithful.start (root : Formula) (t : Table) : Faithful root t ⟨t, []⟩ where
  size := rfl
  read _ _ _ _ := rfl
  written _ _ h := nomatch h
  parts _ _ h := nomatch h

theorem Ready.mono {q : Pass} (h : Ready t p x) (hw : p.written <+: q.written) : Ready t q x :=
  h.imp_left fun h => hw.subset h

/-- Formulas of one skeleton have their parts in the same columns. -/
theorem Ready.congr {y : Formula} (h : x.skeleton = y.skeleton)
    (hy : ∀ z ∈ y.parts, Ready t p z) : ∀ z ∈ x.parts, Ready t p z := by
  intro z hz
  have same : z.skeleton ∈ y.parts.map skeleton := by
    rw [← parts_skeleton, ← h, parts_skeleton]
    exact List.mem_map_of_mem hz
  obtain ⟨w, hw, hs⟩ := List.mem_map.1 same
  have ready := hy w hw
  rwa [Ready, ← columnName_skeleton w, ← reads?_skeleton w, hs, columnName_skeleton,
    reads?_skeleton] at ready

theorem Faithful.denote_eq (h : Faithful root t p) (hx : x ∈ root.parts) (hr : Ready t p x) :
    x.denote t = .ok (p.table.column x.columnName) := by
  rcases hr with hw | ⟨hc, ht⟩
  · exact h.written x hx hw
  · have same := h.read x hx _ hc
    have there : t.read x.columnName = .ok (t.column x.columnName) := by
      rw [Table.read, if_pos ht]
    rw [there, Table.read] at same
    split at same
    · rw [denote_reference hc, there, ← Except.ok.inj same]
    · cases same

/-- The column of a part may be written: no reference reads it, and whoever shares its name
stands for the same. -/
theorem Faithful.write (h : Faithful root t p) (hu : root.Unambiguous) (hx : x ∈ root.parts)
    (hr : x.reads? = none) {values : Column} (hv : x.denote t = .ok values)
    (hc : ∀ y ∈ x.children, ∀ z ∈ y.parts, Ready t p z) :
    Faithful root t (p.write x.columnName values) where
  size := by rw [Pass.write, Table.size_put, h.size]
  read y hy column hc := by
    have other : column ≠ x.columnName := by
      intro e
      have same := hu y hy x hx ((columnName_reference hc).trans e)
      rw [← reads?_skeleton, same, reads?_skeleton, hr] at hc
      cases hc
    rw [Pass.write, Table.read, Table.has_put, Table.column_put_of_ne other,
      ← h.read y hy column hc, Table.read]
    simp [other]
  written y hy hw := by
    by_cases e : y.columnName = x.columnName
    · have fits : values.length = p.table.size := (length_denote hv).trans h.size.symm
      rw [denote_congr (hu y hy x hx e) t, hv, e, Pass.write, Table.column_put_self fits]
    · have earlier : y.columnName ∈ p.written := by
        simpa [Pass.write, e] using hw
      rw [h.written y hy earlier, Pass.write, Table.column_put_of_ne e]
  parts y hy hw := by
    have later : p.written <+: (p.write x.columnName values).written := List.prefix_append ..
    by_cases e : y.columnName = x.columnName
    · refine Ready.congr (hu y hy x hx e) fun z hz => ?_
      rcases mem_parts hz with ⟨w, hw, hz⟩ | rfl
      · exact (hc w hw z hz).mono later
      · exact .inl (by simp [Pass.write])
    · have earlier : y.columnName ∈ p.written := by
        simpa [Pass.write, e] using hw
      exact fun z hz => (h.parts y hy earlier z hz).mono later

/-! ## Runs -/

/-- A run with the outcome of a denotation, which leaves a faithful pass that has the results. -/
structure Agrees (root : Formula) (t : Table) (x : Formula)
    (r : Except EvaluationError String × Pass) : Prop where
  faithful : Faithful root t r.2
  outcome : r.1 = (x.denote t).map fun _ => x.columnName
  ready : ∀ column, x.denote t = .ok column → ∀ y ∈ x.parts, Ready t r.2 y

/-- The same for several formulas, one after the other. -/
structure AgreesAll (root : Formula) (t : Table) (xs : List Formula)
    (r : Except EvaluationError (List String) × Pass) : Prop where
  faithful : Faithful root t r.2
  outcome : r.1 = (denoteAll t xs).map fun _ => columnNames xs
  ready : ∀ columns, denoteAll t xs = .ok columns →
    ∀ x ∈ xs, ∀ y ∈ x.parts, Ready t r.2 y

theorem Agrees.denote_error {e : EvaluationError} (h : Agrees root t x (.error e, p)) :
    x.denote t = .error e := by
  have outcome := h.outcome
  cases hd : x.denote t with
  | error e' => rw [hd] at outcome; cases outcome; rfl
  | ok => rw [hd] at outcome; cases outcome

theorem Agrees.denote_ok {name : String} (h : Agrees root t x (.ok name, p)) :
    name = x.columnName ∧ ∃ column, x.denote t = .ok column := by
  have outcome := h.outcome
  cases hd : x.denote t with
  | error => rw [hd] at outcome; cases outcome
  | ok column => rw [hd] at outcome; cases outcome; exact ⟨rfl, column, rfl⟩

theorem AgreesAll.denoteAll_error {xs : List Formula} {e : EvaluationError}
    (h : AgreesAll root t xs (.error e, p)) : denoteAll t xs = .error e := by
  have outcome := h.outcome
  cases hd : denoteAll t xs with
  | error e' => rw [hd] at outcome; cases outcome; rfl
  | ok => rw [hd] at outcome; cases outcome

theorem AgreesAll.denoteAll_ok {xs : List Formula} {names : List String}
    (h : AgreesAll root t xs (.ok names, p)) :
    names = columnNames xs ∧ ∃ columns, denoteAll t xs = .ok columns := by
  have outcome := h.outcome
  cases hd : denoteAll t xs with
  | error => rw [hd] at outcome; cases outcome
  | ok columns => rw [hd] at outcome; cases outcome; exact ⟨rfl, columns, rfl⟩

theorem agrees_runAll {xs : List Formula}
    (h : ∀ x ∈ xs, ∀ p, Faithful root t p → Agrees root t x (x.run p))
    (hp : Faithful root t p) : AgreesAll root t xs (runAll xs p) := by
  induction xs generalizing p with
  | nil => exact ⟨hp, rfl, fun _ _ _ hx => absurd hx List.not_mem_nil⟩
  | cons x xs ih =>
    have first := h x (List.mem_cons_self ..) p hp
    rw [runAll]
    split
    · rename_i e q hr
      rw [hr] at first
      have fails : denoteAll t (x :: xs) = .error e := by rw [denoteAll, first.denote_error]
      exact ⟨first.faithful, by rw [fails]; rfl, fun _ hc => by rw [fails] at hc; cases hc⟩
    · rename_i name q hr
      rw [hr] at first
      obtain ⟨rfl, column, hx⟩ := first.denote_ok
      have rest := ih (fun y hy => h y (List.mem_cons_of_mem _ hy)) first.faithful
      have there := fun y hy => (first.ready column hx y hy).mono (runAll_extends xs q)
      split
      · rename_i e q' hr'
        rw [hr'] at rest
        have fails : denoteAll t (x :: xs) = .error e := by
          rw [denoteAll, hx, rest.denoteAll_error]
        exact ⟨rest.faithful, by rw [fails]; rfl, fun _ hc => by rw [fails] at hc; cases hc⟩
      · rename_i names q' hr'
        rw [hr'] at rest there
        obtain ⟨rfl, columns, hxs⟩ := rest.denoteAll_ok
        have all : denoteAll t (x :: xs) = .ok (column :: columns) := by rw [denoteAll, hx, hxs]
        refine ⟨rest.faithful, by rw [all]; rfl, fun _ _ y hy => ?_⟩
        rcases List.mem_cons.1 hy with rfl | hy
        · exact there
        · exact rest.ready columns hxs y hy

theorem Agrees.memo (hp : Faithful root t p) (hx : x ∈ root.parts)
    (hw : x.columnName ∈ p.written) : Agrees root t x (.ok x.columnName, p) :=
  ⟨hp, by rw [hp.written x hx hw]; rfl, fun _ _ => hp.parts x hx hw⟩

/-- What a write leaves agrees with the formula written. -/
theorem Agrees.write (hp : Faithful root t p) (hu : root.Unambiguous) (hx : x ∈ root.parts)
    (hr : x.reads? = none) {values : Column} (hv : x.denote t = .ok values)
    (hc : ∀ y ∈ x.children, ∀ z ∈ y.parts, Ready t p z) :
    Agrees root t x (.ok x.columnName, p.write x.columnName values) := by
  have faithful := hp.write hu hx hr hv hc
  exact ⟨faithful, by rw [hv]; rfl,
    fun _ _ => faithful.parts x hx (by simp [Pass.write])⟩

theorem agrees_run (hu : root.Unambiguous) (hx : x ∈ root.parts) (hp : Faithful root t p) :
    Agrees root t x (x.run p) := by
  induction x using byKind generalizing p with
  | constant value =>
    rw [run_constant]
    split
    · rename_i hw
      exact .memo hp hx (List.contains_iff_mem.1 hw)
    · have fits : (constant value).denote t = .ok (constantColumn value p.table.size) := by
        rw [hp.size]; rfl
      exact .write hp hu hx rfl fits nofun
  | reference x column hc =>
    have name := columnName_reference hc
    rw [run_reference hc, require_eq, hp.read x hx column hc]
    refine ⟨hp, by rw [denote_reference hc, name], fun c hd y hy => .inr ?_⟩
    rw [parts_reference hc, List.mem_singleton] at hy
    rw [denote_reference hc] at hd
    rw [hy, name]
    exact ⟨hc, Table.has_of_read hd⟩
  | derivation x s hs ih =>
    rw [run_derivation hs]
    split
    · rename_i hw
      exact .memo hp hx (List.contains_iff_mem.1 hw)
    · have parts : ∀ y ∈ x.children, y ∈ root.parts := fun y hy =>
        parts_trans (child_mem_parts hy) hx
      have args := agrees_runAll (fun y hy q hq => ih y hy (parts y hy) hq) hp
      split
      · rename_i e q hr
        rw [hr] at args
        have fails : x.denote t = .error e := by
          rw [denote_derivation hs, args.denoteAll_error]
        exact ⟨args.faithful, by rw [fails]; rfl, fun _ h => by rw [fails] at h; cases h⟩
      · rename_i names q hr
        rw [hr] at args
        obtain ⟨rfl, columns, hc⟩ := args.denoteAll_ok
        have ready := args.ready columns hc
        -- the arguments are read off the table, where later ones have left the earlier ones alone
        have cells : columns = (columnNames x.children).map q.table.column := by
          have := denoteAll_eq_map fun y hy =>
            args.faithful.denote_eq (parts y hy) (ready y hy y (self_mem_parts y))
          rw [hc] at this
          rw [Except.ok.inj this, columnNames_eq_map, List.map_map]
          rfl
        have whole :
            x.denote t = s.combine x.columnName (columnNames x.children) t.size columns := by
          rw [denote_derivation hs, hc]
        rw [finish_eq, args.faithful.size, ← cells]
        split
        · rename_i e he
          rw [he] at whole
          exact ⟨args.faithful, by rw [whole]; rfl, fun _ h => by rw [whole] at h; cases h⟩
        · rename_i values hv
          rw [hv] at whole
          exact .write args.faithful hu hx (reads?_derivation hs) whole ready

/-! ## What an evaluation shows -/

/-- In the table `u` the column of every part of `root` holds what it stands for on `t`. -/
def Shows (root : Formula) (t u : Table) : Prop :=
  ∀ x ∈ root.parts, x.denote t = .ok (u.column x.columnName)

theorem shows_of_evaluate (hu : root.Unambiguous) {name : String}
    (h : (p.evaluate root).1 = .ok name) : Shows root p.table (p.evaluate root).2.table := by
  have agrees := agrees_run hu (self_mem_parts root) (Faithful.start root p.table)
  have ok : Agrees root p.table root (.ok name, (p.evaluate root).2) := h ▸ agrees
  obtain ⟨-, column, hd⟩ := ok.denote_ok
  exact fun x hx => agrees.faithful.denote_eq hx (agrees.ready column hd x hx)

namespace Shows

variable {u : Table}

theorem constant {value : Scalar} (h : Shows root t u) (hx : .constant value ∈ root.parts) :
    u.column value.columnName = constantColumn value t.size :=
  (Except.ok.inj (h _ hx)).symm

theorem reference (h : Shows root t u) (hx : x ∈ root.parts) {column : String}
    (hc : x.reads? = some column) : u.column column = t.column column := by
  have shown := h x hx
  rw [denote_reference hc, Table.read, columnName_reference hc] at shown
  split at shown
  · exact (Except.ok.inj shown).symm
  · cases shown

/-- The column of a derivation is made of those of its children in the same table. -/
theorem combine (h : Shows root t u) (hx : x ∈ root.parts) {s : Strategy}
    (hs : x.strategy? = some s) :
    s.combine x.columnName (columnNames x.children) t.size
        (x.children.map fun y => u.column y.columnName) =
      .ok (u.column x.columnName) := by
  have children : denoteAll t x.children = .ok (x.children.map fun y => u.column y.columnName) :=
    denoteAll_eq_map fun y hy => h y (parts_trans (child_mem_parts hy) hx)
  have shown := h x hx
  rwa [denote_derivation hs, children] at shown

end Shows

/-! ## Evaluation -/

/-- An evaluation has the outcome of the denotation on the table it was given, whatever was
written before. After a success every part's column holds what the part stands for. -/
theorem evaluate_agrees (hu : x.Unambiguous) (p : Pass) :
    (p.evaluate x).1 = (x.denote p.table).map (fun _ => x.columnName) ∧
      ∀ name, (p.evaluate x).1 = .ok name → ∀ y ∈ x.parts,
        y.denote p.table = .ok ((p.evaluate x).2.table.column y.columnName) := by
  have agrees := agrees_run hu (self_mem_parts x) (Faithful.start x p.table)
  refine ⟨agrees.outcome, fun name hn y hy => ?_⟩
  have ok : Agrees x p.table x (.ok name, (p.evaluate x).2) := hn ▸ agrees
  obtain ⟨-, column, hd⟩ := ok.denote_ok
  exact agrees.faithful.denote_eq hy (agrees.ready column hd y hy)

/-- The time on machine b, found twice by different names of one field. -/
def foundTwice : Formula :=
  .call .or
    [.call .find [.var "time" ⟨.result, .real⟩, .prop "Machine" "machine", .constant (.text "b")],
      .call .find [.var "time" ⟨.result, .real⟩, .prop "machine" "machine", .constant (.text "b")]]

def twoMachines : Table :=
  ((Table.ofColumns ["time", "machine"]).push
    (.ofList [("time", .bare "time" .all (.real 4.0)),
      ("machine", .bare "machine" .all (.text "a"))])).push
    (.ofList [("time", .bare "time" .all (.real 2.0)),
      ("machine", .bare "machine" .all (.text "b"))])

theorem foundTwice_unambiguous : foundTwice.Unambiguous := by
  intro y hy z hz h
  simp only [foundTwice, parts, partsOfAll, List.append_nil, List.cons_append, List.nil_append,
    List.mem_cons, List.not_mem_nil, or_false] at hy hz
  rcases hy with rfl | rfl | rfl | rfl | rfl | rfl | rfl | rfl | rfl <;>
    rcases hz with rfl | rfl | rfl | rfl | rfl | rfl | rfl | rfl | rfl <;>
    first | rfl | exact absurd h (by decide)

theorem evaluate_agrees_foundTwice :
    foundTwice.Unambiguous ∧
      (Pass.evaluate ⟨twoMachines, ["machine"]⟩ foundTwice).1 = .ok foundTwice.columnName ∧
      (Pass.evaluate ⟨twoMachines, ["machine"]⟩ foundTwice).2.table.column foundTwice.columnName =
        [some (.bare "time" .all (.real 2.0)), some (.bare "time" .all (.real 2.0))] := by
  have agrees := evaluate_agrees foundTwice_unambiguous ⟨twoMachines, ["machine"]⟩
  have found : foundTwice.denote twoMachines =
      .ok [some (.bare "time" .all (.real 2.0)), some (.bare "time" .all (.real 2.0))] := rfl
  have ok := agrees.1
  rw [found] at ok
  have column := agrees.2 _ ok foundTwice (self_mem_parts _)
  rw [found] at column
  exact ⟨foundTwice_unambiguous, ok, (Except.ok.inj column).symm⟩

end Formula

end ColumnFormula
