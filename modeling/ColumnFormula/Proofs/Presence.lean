import Mathlib
import ColumnFormula.Proofs.Kinds
import ColumnFormula.Proofs.Signatures

/-!
# Which cells are there

A kernel that meets a text gives nothing, so a text among numbers would show as a cell that is
missing. The signatures rule this out: where a formula tells numbers only, its cells hold numbers,
and where it tells texts only, they hold texts (`Suits`). So nothing is lost on the way
(`evaluate_loses_no_cell`): whenever an evaluation comes to the last step of a derivation
(`Finishes`), also of one that fails later, its kernel makes something of each complete row and a
comparison compares like with like. After a success a cell is missing only where one of those it
is made from is (`Filled`).
-/

namespace ColumnFormula

namespace Formula

/-! ## Numbers and texts -/

/-- A number where the formula tells numbers only, and a text where it tells texts only. -/
structure Suits (x : Formula) (m : Measurement) : Prop where
  number : x.argument.Numeric → m.kind ≠ .text
  text : x.argument.Textual → m.kind = .text

variable {s : Schema} {t u : Table} {root x y : Formula} {p : Pass} {m : Measurement} {row : Nat}

theorem Suits.of_contains (h : x.kinds.contains m.kind = true) : x.Suits m where
  number numeric kind := by
    rcases numeric _ h with integer | real
    · exact nomatch kind.symm.trans integer
    · exact nomatch kind.symm.trans real
  text textual := textual _ h

theorem Suits.of_argument {function : Builtin} {arguments : List Formula}
    (hf : function.signature.returns = .arguments) (hy : y ∈ arguments) (h : y.Suits m) :
    (call function arguments).Suits m where
  number numeric := h.number fun k hk => numeric k (contains_of_child hf hy k hk)
  text textual := h.text fun k hk => textual k (contains_of_child hf hy k hk)

/-- An absolute value is a number, and there is none of a text. -/
theorem Suits.of_distance {arguments : List Formula} {k : Measurement} (hy : y ∈ arguments)
    (h : y.Suits k) (hd : Kernel.distance k.quantity = some m.quantity) :
    (call .abs arguments).Suits m := by
  have numbers : k.kind ≠ .text ∧ m.kind ≠ .text := by
    unfold Measurement.kind
    rcases distance_cases hd with ⟨hk, hm⟩ | ⟨_, _, hk, hm⟩ | ⟨_, hk, hm⟩ <;>
      rw [hk, hm] <;> exact ⟨nofun, nofun⟩
  refine ⟨fun _ => numbers.2, fun textual => absurd (h.text fun k hk => ?_) numbers.1⟩
  exact textual k (contains_of_child rfl hy k hk)

theorem suits_of_derivation {strategy : Strategy} {columns : List Column}
    (hd : x.strategy? = some strategy)
    (ih : ∀ column ∈ columns, ∀ k, column.at row = some k → ∃ y ∈ x.children, y.Suits k)
    (source : Strategy.Source columns row m strategy) : x.Suits m := by
  cases x with
  | operation operator operands =>
    cases hd
    refine .of_contains ?_
    rw [kinds_operation, Operator.makes_reals source]
    rfl
  | call function arguments =>
    cases hd
    cases hf : function.signature.returns with
    | always kinds =>
      have told : function.signature.returns ≠ .arguments := by rw [hf]; nofun
      obtain ⟨reals, made⟩ := Builtin.makes_reals told
      refine .of_contains ?_
      rw [kinds_of_always reals, made _ _ _ source]
      rfl
    | arguments =>
      rcases Builtin.returns_arguments hf with rfl | rfl
      · cases source with
        | computed hc hk =>
          obtain ⟨k, rfl, distance⟩ := Kernel.abs_eq_some hk
          obtain ⟨column, rfl, hat⟩ : ∃ column, columns = [column] ∧ column.at row = some k := by
            simpa [List.map_eq_cons_iff] using hc
          obtain ⟨y, hy, suits⟩ := ih column List.mem_cons_self k hat
          exact suits.of_distance hy distance
      · cases source with
        | taken hc hat =>
          obtain ⟨y, hy, suits⟩ := ih _ hc m hat
          exact suits.of_argument hf hy
  | _ => cases hd

/-- What a part stands for suits it, given that the cells read are of the declared kinds. -/
theorem suits_of_denote (hr : ∀ x ∈ root.parts, x.Resolved s Quotable)
    (hs : ∀ x ∈ root.parts, x.Supplied s t) (hx : x ∈ root.parts) {column : Column}
    (h : x.denote t = .ok column) (hm : column.at row = some m) : x.Suits m := by
  induction x using byKind generalizing column row m with
  | constant value =>
    cases h
    refine .of_contains ?_
    rw [kind_of_constantColumn hm, kinds]
    simp
  | reference x name hc =>
    rw [denote_reference hc, Table.read] at h
    split at h
    · cases h
      rw [Column.at_column] at hm
      exact .of_contains (contains_of_reference hc (hr x hx) (hs x hx) hm)
    · cases h
  | derivation x strategy hd ih =>
    rw [denote_derivation hd] at h
    split at h
    · cases h
    · rename_i columns hc
      refine suits_of_derivation hd (fun c hm k hk => ?_) (Strategy.source_of_combine h hm)
      obtain ⟨y, hy, denotes⟩ := mem_denoteAll hc hm
      exact ⟨y, hy, ih y hy (parts_trans (child_mem_parts hy) hx) denotes hk⟩

/-- So does what its column holds, where that is what it stands for. -/
theorem suits_of_cell (hr : ∀ x ∈ root.parts, x.Resolved s Quotable)
    (hs : ∀ x ∈ root.parts, x.Supplied s t) (hx : x ∈ root.parts)
    (h : x.denote t = .ok (u.column x.columnName)) (hm : u.cell? row x.columnName = some m) :
    x.Suits m := by
  rw [← Column.at_column] at hm
  exact suits_of_denote hr hs hx h hm

/-- A kernel makes something of a row in which no argument is missing. -/
theorem isSome_kernel {kernel : Kernel} {cell : Formula → Option Measurement}
    {ms : List Measurement} (hk : x.strategy? = some (.perRow kernel))
    (hr : x.Resolved s Quotable) (hs : ∀ y ∈ x.children, ∀ m, cell y = some m → y.Suits m)
    (hc : x.children.map cell = ms.map some) : (kernel ms).isSome = true := by
  obtain ⟨takes, numeric⟩ := takesNumbers_of_resolved hk hr
  refine takes ms (by simpa using (congrArg List.length hc).symm) fun m hm => ?_
  obtain ⟨y, hy, there⟩ : ∃ y ∈ x.children, cell y = some m := by
    rw [← List.mem_map, hc]
    exact List.mem_map_of_mem hm
  exact (hs y hy m there).number (numeric y hy)

/-- What is compared are two numbers or two texts. -/
theorem kind_iff_of_compared {cell : Formula → Option Measurement} {l r : Measurement}
    (hk : x.strategy? = some .conditional) (hr : x.Resolved s Quotable)
    (hs : ∀ y ∈ x.children, ∀ m, cell y = some m → y.Suits m)
    (hc : x.children.map cell = [some l, some r]) : l.kind = .text ↔ r.kind = .text := by
  cases x with
  | call function arguments =>
    cases function with
    | ifeq =>
      obtain ⟨a, b, rfl, ha, hb⟩ :
          ∃ a b, arguments = [a, b] ∧ cell a = some l ∧ cell b = some r := by
        simpa [children, List.map_eq_cons_iff] using hc
      have left := hs a List.mem_cons_self l ha
      have right := hs b (List.mem_cons_of_mem _ List.mem_cons_self) r hb
      rcases (takes_of_resolved hr).comparable rfl _ _ [] rfl with ⟨ha, hb⟩ | ⟨ha, hb⟩
      · exact iff_of_false (left.number ha) (right.number hb)
      · exact iff_of_true (left.text ha) (right.text hb)
    | _ => cases hk
  | operation => cases hk
  | _ => cases hk

/-! ## What a run comes to -/

/-- A run of `x` from the pass `p` comes to the last step of the derivation `y`, in the pass `q`
and with the arguments in the columns `names`. -/
inductive Finishes : Formula → Pass → Formula → List String → Pass → Prop where
  | here {x : Formula} {strategy : Strategy} {p q : Pass} {names : List String} :
      x.strategy? = some strategy → x.columnName ∉ p.written →
      runAll x.children p = (.ok names, q) → Finishes x p x names q
  | within {x y z : Formula} {strategy : Strategy} {xs ys : List Formula} {p p' q : Pass}
      {done names : List String} :
      x.strategy? = some strategy → x.columnName ∉ p.written → x.children = xs ++ y :: ys →
      runAll xs p = (.ok done, p') → Finishes y p' z names q → Finishes x p z names q

/-- A column that a list of formulas writes is written by one of them, after those before it. -/
theorem exists_writer_of_runAll {name : String} {xs : List Formula} {p : Pass}
    (hn : name ∈ (runAll xs p).2.written) (hp : name ∉ p.written) :
    ∃ before y after done q, xs = before ++ y :: after ∧ runAll before p = (.ok done, q) ∧
      name ∉ q.written ∧ name ∈ (y.run q).2.written := by
  induction xs generalizing p with
  | nil => exact absurd hn hp
  | cons x xs ih =>
    by_cases hx : name ∈ (x.run p).2.written
    · exact ⟨[], x, xs, [], p, rfl, rfl, hp, hx⟩
    rw [runAll] at hn
    cases hr : x.run p with
    | mk outcome q =>
      rw [hr] at hn hx
      cases outcome with
      | error e => exact absurd hn hx
      | ok first =>
        have further : name ∈ (runAll xs q).2.written := by
          rcases hs : runAll xs q with ⟨e | names, q'⟩ <;> simpa only [hs] using hn
        obtain ⟨before, y, after, done, q', rfl, ran, new, wrote⟩ := ih further hx
        exact ⟨x :: before, y, after, first :: done, q', rfl, by simp only [runAll, hr, ran],
          new, wrote⟩

/-- Every column that a run writes is that of a constant or of a derivation whose last step the
run comes to. -/
theorem finishes_of_written {name : String} (hn : name ∈ (x.run p).2.written)
    (hp : name ∉ p.written) : (∃ value, constant value ∈ x.parts ∧ name = value.columnName) ∨
      ∃ y names q, Finishes x p y names q ∧ name = y.columnName := by
  induction x using byKind generalizing p with
  | constant value =>
    rw [run_constant] at hn
    split at hn
    · exact absurd hn hp
    · rcases List.mem_append.1 hn with hn | hn
      · exact absurd hn hp
      · exact .inl ⟨value, self_mem_parts _, List.mem_singleton.1 hn⟩
  | reference x column hc =>
    rw [run_reference hc] at hn
    exact absurd hn hp
  | derivation x strategy hd ih =>
    rw [run_derivation hd] at hn
    split at hn
    · exact absurd hn hp
    rename_i hx
    have fresh : x.columnName ∉ p.written := mt List.contains_iff_mem.2 hx
    by_cases hc : name ∈ (runAll x.children p).2.written
    · obtain ⟨before, y, after, done, q, children, ran, new, wrote⟩ :=
        exists_writer_of_runAll hc hp
      have hy : y ∈ x.children := children ▸ List.mem_append_right _ List.mem_cons_self
      rcases ih y hy wrote new with ⟨value, hv, rfl⟩ | ⟨z, names, q', finishes, rfl⟩
      · exact .inl ⟨value, parts_trans hv (child_mem_parts hy), rfl⟩
      · exact .inr ⟨z, names, q', .within hd fresh children ran finishes, rfl⟩
    · split at hn
      · rename_i hr
        rw [hr] at hc
        exact absurd hn hc
      · rename_i names q hr
        rw [hr] at hc
        rw [finish_eq] at hn
        split at hn
        · exact absurd hn hc
        · rcases List.mem_append.1 hn with hn | hn
          · exact absurd hn hc
          · exact .inr ⟨x, names, q, .here hd fresh hr, List.mem_singleton.1 hn⟩

/-- The arguments of a derivation are in their columns when its last step is taken. -/
theorem Finishes.arguments {names : List String} {p q : Pass} (h : Finishes x p y names q)
    (hu : root.Unambiguous) (hx : x ∈ root.parts) (hp : Faithful root t p) :
    y ∈ root.parts ∧ names = columnNames y.children ∧
      ∀ z ∈ y.children, z.denote t = .ok (q.table.column z.columnName) := by
  have runs : ∀ {xs}, (∀ y ∈ xs, y ∈ root.parts) → ∀ {p}, Faithful root t p →
      AgreesAll root t xs (runAll xs p) := fun parts _ hp =>
    agrees_runAll (fun y hy _ hq => agrees_run hu (parts y hy) hq) hp
  induction h with
  | @here x strategy p q names _ _ hr =>
    have parts : ∀ y ∈ x.children, y ∈ root.parts := fun y hy =>
      parts_trans (child_mem_parts hy) hx
    have args := runs parts hp
    rw [hr] at args
    obtain ⟨rfl, columns, hc⟩ := args.denoteAll_ok
    exact ⟨hx, rfl, fun z hz => args.faithful.denote_eq (parts z hz)
      (args.ready columns hc z hz z (self_mem_parts z))⟩
  | @within x y z strategy xs ys p p' q done names _ _ hc hr _ ih =>
    have parts : ∀ w ∈ xs ++ y :: ys, w ∈ root.parts := fun w hw =>
      parts_trans (child_mem_parts (hc ▸ hw)) hx
    have before := runs (fun w hw => parts w (List.mem_append_left _ hw)) hp
    rw [hr] at before
    exact ih (parts y (List.mem_append_right _ List.mem_cons_self)) before.faithful

/-- What is selected for a step are the cells of the arguments in some row. -/
theorem exists_of_mem_select {xs : List Formula} {cells : List (Option Measurement)}
    (h : cells ∈ t.select (columnNames xs)) :
    ∃ row, cells = xs.map fun x => t.cell? row x.columnName := by
  rw [Table.select_eq, List.mem_map] at h
  obtain ⟨row, -, rfl⟩ := h
  refine ⟨row, ?_⟩
  rw [columnNames_eq_map, List.map_map, List.map_map]
  simp only [Function.comp_def, Column.at_column]

/-! ## Cells of a table that is shown -/

/-- The cell of `x` in the row is there. -/
def Shown (u : Table) (row : Nat) (x : Formula) : Prop := (u.cell? row x.columnName).isSome = true

/-- The cell of `x` in the row is there and agrees with the value. -/
def Matches (u : Table) (x : Formula) (value : Scalar) (row : Nat) : Prop :=
  ∃ m, u.cell? row x.columnName = some m ∧ m.quantity.agrees value = true

/-- What it takes for the cell of a formula in a row to be there, in the table `u` that an
evaluation makes of the table `t`. -/
def Filled (t u : Table) (row : Nat) : Formula → Prop
  | constant _ => True
  | var name _ => (t.cell? row name).isSome = true
  | prop _ column => (t.cell? row column).isSome = true
  | operation _ operands => ∀ y ∈ operands, Shown u row y
  | call function arguments =>
    match function, arguments with
    | .avg, _ | .min, _ | .max, _ => True
    | .find, [x, property, constant value] =>
      ∃ first, Matches u property value first ∧
        (∀ earlier < first, ¬Matches u property value earlier) ∧ Shown u first x
    | .find, _ => False
    | .or, arguments => ∃ y ∈ arguments, Shown u row y
    | _, arguments => ∀ y ∈ arguments, Shown u row y

theorem at_constantColumn {value : Scalar} {size : Nat} (h : row < size) :
    (constantColumn value size).at row = some (.bare value.kind.name .unknown value) := by
  unfold constantColumn Column.at
  rw [List.getElem?_replicate, if_pos h]
  rfl

theorem at_eachRow_of_lt {size : Nat} {cell : Nat → Option Measurement} (h : row < size) :
    (Strategy.eachRow size cell).at row = cell row := by
  unfold Strategy.eachRow Column.at
  simp [h]

theorem isSome_present? {cells : List (Option Measurement)} :
    (Strategy.present? cells).isSome = true ↔ ∀ cell ∈ cells, cell.isSome = true := by
  induction cells with
  | nil => simp [Strategy.present?]
  | cons cell cells ih => cases cell <;> simp [Strategy.present?, ih]

theorem isSome_flag (l r : Option Measurement) :
    (Strategy.flag [l, r]).isSome = true ↔ l.isSome = true ∧ r.isSome = true := by
  cases l <;> cases r <;> simp [Strategy.flag]

theorem isSome_either (l r : Option Measurement) :
    (Strategy.either [l, r]).isSome = true ↔ l.isSome = true ∨ r.isSome = true := by
  cases l <;> cases r <;> simp [Strategy.either]

section

variable (h : Shows root t u) (hx : x ∈ root.parts) (hrow : row < t.size)

include h hx hrow

theorem shown_perRow {kernel : Kernel} (hk : x.strategy? = some (.perRow kernel))
    (hr : x.Resolved s Quotable)
    (hs : ∀ y ∈ x.children, ∀ m, u.cell? row y.columnName = some m → y.Suits m) :
    Shown u row x ↔ ∀ y ∈ x.children, Shown u row y := by
  have cell : u.cell? row x.columnName =
      Strategy.applyKernel kernel (x.children.map fun y => u.cell? row y.columnName) := by
    have column := Except.ok.inj (h.combine hx hk)
    rw [← Column.at_column, ← column, at_eachRow_of_lt hrow, List.map_map]
    simp only [Function.comp_def, Column.at_column]
  have all : (Strategy.present? (x.children.map fun y => u.cell? row y.columnName)).isSome = true ↔
      ∀ y ∈ x.children, Shown u row y := by
    rw [isSome_present?, List.forall_mem_map]
    rfl
  rw [← all, Shown, cell, Strategy.applyKernel]
  cases hp : Strategy.present? (x.children.map fun y => u.cell? row y.columnName) with
  | none => exact Iff.rfl
  | some ms =>
    have made := isSome_kernel hk hr hs (Strategy.present?_eq_some_iff.1 hp)
    simp [made]

theorem shown_aggregate {reduction : Reduction} {y : Formula}
    (hk : x.strategy? = some (.aggregate reduction)) (hy : x.children = [y]) :
    Shown u row x := by
  have combined := h.combine hx hk
  rw [hy] at combined
  have column := Except.ok.inj combined
  have length : (u.column y.columnName).length = t.size := by
    have there := h y (parts_trans (child_mem_parts (hy ▸ List.mem_singleton_self y)) hx)
    exact length_denote there
  rw [Shown, ← Column.at_column, ← column, Reduction.spread, Column.at, List.getElem?_map,
    List.getElem?_eq_getElem (length ▸ hrow)]
  rfl

theorem shown_conditional {a b : Formula} (hk : x.strategy? = some .conditional)
    (hc : x.children = [a, b]) : Shown u row x ↔ ∀ y ∈ x.children, Shown u row y := by
  have combined := h.combine hx hk
  rw [hc] at combined ⊢
  have column := Except.ok.inj combined
  rw [Shown, ← Column.at_column, ← column, at_eachRow_of_lt hrow, isSome_flag, Column.at_column,
    Column.at_column]
  simp [Shown]

theorem shown_coalesce {a b : Formula} (hk : x.strategy? = some .coalesce)
    (hc : x.children = [a, b]) : Shown u row x ↔ ∃ y ∈ x.children, Shown u row y := by
  have combined := h.combine hx hk
  rw [hc] at combined ⊢
  have column := Except.ok.inj combined
  rw [Shown, ← Column.at_column, ← column, at_eachRow_of_lt hrow, isSome_either, Column.at_column,
    Column.at_column]
  simp [Shown]

end

/-- The row that a lookup finds is the first one in which the property has the value. -/
theorem firstMatch?_eq_some_iff {property : Formula} {value : Scalar} {size first : Nat} :
    Strategy.firstMatch? size (u.column property.columnName) (constantColumn value size) =
        some first ↔
      first < size ∧ Matches u property value first ∧
        ∀ earlier < first, ¬Matches u property value earlier := by
  have hit : ∀ row < size,
      (Strategy.Hit (u.column property.columnName) (constantColumn value size) row ↔
        Matches u property value row) := by
    intro row inside
    unfold Strategy.Hit Matches
    rw [at_constantColumn inside, Column.at_column]
    simp [Measurement.bare]
  rw [Strategy.firstMatch?_eq_some_iff]
  refine and_congr_right fun inside => and_congr (hit first inside) ?_
  exact forall₂_congr fun earlier he => not_congr (hit earlier (Nat.lt_trans he inside))

/-- A lookup fills all rows or none. -/
theorem shown_lookup {a property : Formula} {value : Scalar} (h : Shows root t u)
    (hx : call .find [a, property, constant value] ∈ root.parts) (hrow : row < t.size)
    (numbers : ∀ k m, u.cell? k a.columnName = some m → m.kind ≠ .text) :
    Shown u row (call .find [a, property, constant value]) ↔
      ∃ first, Matches u property value first ∧
        (∀ earlier < first, ¬Matches u property value earlier) ∧ Shown u first a := by
  have combined := h.combine hx rfl
  have value_shown : u.column (constant value).columnName = constantColumn value t.size :=
    h.constant (parts_trans (child_mem_parts (by simp [children])) hx)
  simp only [children, List.map_cons, List.map_nil, columnNames_eq_map, value_shown] at combined
  have rows : t.size ≠ 0 := by omega
  -- a cell that is found is a number, so none is lost when it is widened
  have found : ∀ k, ((u.cell? k a.columnName).bind Measurement.toReal?).isSome = true ↔
      Shown u k a := by
    intro k
    unfold Shown
    cases hk : u.cell? k a.columnName with
    | none => exact Iff.rfl
    | some m => simp [Measurement.isSome_toReal?.2 (numbers k m hk)]
  change Strategy.lookup.combine _ _ _ _ = _ at combined
  rw [Strategy.combine, if_neg rows] at combined
  split at combined
  · rename_i first hf
    obtain ⟨-, matched, unmatched⟩ := firstMatch?_eq_some_iff.1 hf
    rw [Shown, ← Column.at_column, ← Except.ok.inj combined, at_eachRow_of_lt hrow,
      Column.at_column, found]
    constructor
    · exact fun there => ⟨first, matched, unmatched, there⟩
    · rintro ⟨other, matched', unmatched', there⟩
      have same : other = first := by
        rcases Nat.lt_trichotomy other first with lt | eq | gt
        · exact absurd matched' (unmatched other lt)
        · exact eq
        · exact absurd matched (unmatched' first gt)
      exact same ▸ there
  · cases combined

/-- The cells that a table shows are there exactly where they can be. -/
theorem shown_iff_filled (hr : ∀ x ∈ root.parts, x.Resolved s Quotable)
    (hs : ∀ x ∈ root.parts, x.Supplied s t) (h : Shows root t u) (hx : x ∈ root.parts)
    (hrow : row < t.size) : Shown u row x ↔ x.Filled t u row := by
  have suits : ∀ y ∈ x.children, ∀ k m, u.cell? k y.columnName = some m → y.Suits m := by
    intro y hy k m hm
    have hp := parts_trans (child_mem_parts hy) hx
    exact suits_of_cell hr hs hp (h y hp) hm
  have perRow : ∀ {kernel}, x.strategy? = some (.perRow kernel) →
      (Shown u row x ↔ ∀ y ∈ x.children, Shown u row y) := fun hk =>
    shown_perRow h hx hrow hk (hr x hx) fun y hy m => suits y hy row m
  cases x with
  | constant value =>
    refine iff_of_true ?_ trivial
    rw [Shown, columnName, ← Column.at_column, h.constant hx, at_constantColumn hrow]
    rfl
  | var | prop =>
    rw [Shown, columnName, ← Column.at_column, h.reference hx rfl, Column.at_column]
    exact Iff.rfl
  | operation => exact perRow rfl
  | call function arguments =>
    have takes := takes_of_resolved (hr _ hx)
    cases function with
    | avg | min | max =>
      obtain ⟨y, rfl⟩ := List.length_eq_one_iff.1 (length_of_takes takes)
      exact iff_of_true (shown_aggregate h hx hrow rfl rfl) trivial
    | ifeq =>
      obtain ⟨a, b, rfl⟩ := List.length_eq_two.1 (length_of_takes takes)
      exact shown_conditional h hx hrow rfl rfl
    | or =>
      obtain ⟨a, b, rfl⟩ := List.length_eq_two.1 (length_of_takes takes)
      exact shown_coalesce h hx hrow rfl rfl
    | find =>
      obtain ⟨a, property, c, rfl⟩ := List.length_eq_three.1 (length_of_takes takes)
      have number : a.argument.Fits ⟨.numeric, .any⟩ := takes.fits 0 rfl rfl
      have fixed : c.argument.Fits ⟨.any, .constant⟩ := takes.fits 2 rfl rfl
      cases fixed.shape with
      | constant value =>
        refine shown_lookup h hx hrow fun k m hm => (suits a List.mem_cons_self k m hm).number ?_
        exact Argument.only_numeric_iff.1 number.kinds
    | _ => exact perRow rfl

end Formula

namespace Equation

open Formula

/-- In the evaluation of a compiled equation on a table with cells of the declared kinds every
kernel makes something of a row in which no argument is missing, and every comparison is one of
two numbers or of two texts. So after a success the cells that are there are those that can be. -/
theorem evaluate_loses_no_cell {s : Schema} {text : String} {e : Equation}
    (h : compile s text = .ok e) (hu : e.root.Unambiguous) {p : Pass}
    (hs : ∀ x ∈ e.root.parts, x.Supplied s p.table) :
    (∀ y names q, Finishes e.root ⟨p.table, []⟩ y names q →
      (∀ kernel, y.strategy? = some (.perRow kernel) → ∀ cells ∈ q.table.select names,
        ∀ ms, Strategy.present? cells = some ms → (kernel ms).isSome = true) ∧
      (y.strategy? = some .conditional → ∀ l r, [some l, some r] ∈ q.table.select names →
        (l.kind = .text ↔ r.kind = .text))) ∧
    ∀ name, (p.evaluate e.root).1 = .ok name → ∀ x ∈ e.root.parts, ∀ row < p.table.size,
      (((p.evaluate e.root).2.table.cell? row x.columnName).isSome = true ↔
        x.Filled p.table (p.evaluate e.root).2.table row) := by
  have resolved := compile_resolved h
  refine ⟨fun y names q hf => ?_, fun name hn x hx row hrow =>
    shown_iff_filled resolved hs (shows_of_evaluate hu hn) hx hrow⟩
  obtain ⟨hy, rfl, denotes⟩ :=
    hf.arguments hu (self_mem_parts e.root) (Faithful.start e.root p.table)
  have suits : ∀ row, ∀ z ∈ y.children, ∀ m, q.table.cell? row z.columnName = some m →
      z.Suits m := fun row z hz m hm =>
    suits_of_cell resolved hs (parts_trans (child_mem_parts hz) hy) (denotes z hz) hm
  constructor
  · intro kernel hk cells hc ms hm
    obtain ⟨row, rfl⟩ := exists_of_mem_select hc
    exact isSome_kernel hk (resolved y hy) (suits row) (Strategy.present?_eq_some_iff.1 hm)
  · intro hk l r hc
    obtain ⟨row, cells⟩ := exists_of_mem_select hc
    exact kind_iff_of_compared hk (resolved y hy) (suits row) cells.symm

/-- The least whole number, a gap and another whole number below zero. -/
def gapped : Table :=
  (((Table.ofColumns ["n"]).push
    (.ofList [("n", .bare "n" .all (.integer Int64.minValue))])).push .empty).push
      (.ofList [("n", .bare "n" .all (.integer (-3)))])

/-- Whether a count is three away from zero. -/
def threeAway : Formula := .call .ifeq [distanceOfCount, .constant (.integer 3)]

theorem compile_threeAway :
    compile counted "ifeq(abs('n'), 3)" = .ok ⟨"ifeq(abs('n'), 3)", threeAway⟩ := by cbv

theorem mem_parts_threeAway {x : Formula} (h : x ∈ threeAway.parts) :
    x = .var "n" ⟨.result, .integer⟩ ∨ x = distanceOfCount ∨ x = .constant (.integer 3) ∨
      x = threeAway := by
  simpa [threeAway, distanceOfCount, parts, partsOfAll] using h

theorem threeAway_unambiguous : threeAway.Unambiguous := by
  intro x hx y hy h
  rcases mem_parts_threeAway hx with rfl | rfl | rfl | rfl <;>
    rcases mem_parts_threeAway hy with rfl | rfl | rfl | rfl <;>
    first | rfl | exact absurd h (by decide)

theorem threeAway_supplied : ∀ x ∈ threeAway.parts, x.Supplied counted gapped := by
  intro x hx
  rcases mem_parts_threeAway hx with rfl | rfl | rfl | rfl
  · intro type ht row m hm
    cases ht
    match row, hm with
    | 0, hm | 2, hm => cases hm; rfl
  all_goals trivial

theorem evaluate_loses_no_cell_gapped : ∃ e, compile counted "ifeq(abs('n'), 3)" = .ok e ∧
    e.root.Unambiguous ∧ (∀ x ∈ e.root.parts, x.Supplied counted gapped) ∧
      (Pass.evaluate ⟨gapped, []⟩ e.root).1 = .ok "ifeq(abs(n), 3)" ∧
        (Finishes e.root ⟨gapped, []⟩ distanceOfCount ["n"] ⟨gapped, []⟩ ∧
          ∀ cells ∈ gapped.select ["n"], ∀ ms, Strategy.present? cells = some ms →
            (Kernel.abs ms).isSome = true) ∧
          ∀ x ∈ e.root.parts, ∀ row < gapped.size,
            (((Pass.evaluate ⟨gapped, []⟩ e.root).2.table.cell? row x.columnName).isSome = true ↔
              x.Filled gapped (Pass.evaluate ⟨gapped, []⟩ e.root).2.table row) := by
  have outcome : (Pass.evaluate ⟨gapped, []⟩ threeAway).1 = .ok "ifeq(abs(n), 3)" := rfl
  have split : threeAway.children = [] ++ distanceOfCount :: threeAway.children.tail := rfl
  have comes : Finishes threeAway ⟨gapped, []⟩ distanceOfCount ["n"] ⟨gapped, []⟩ :=
    .within rfl (by decide) split rfl (.here rfl (by decide) rfl)
  obtain ⟨steps, cells⟩ := evaluate_loses_no_cell (p := ⟨gapped, []⟩) compile_threeAway
    threeAway_unambiguous threeAway_supplied
  exact ⟨_, compile_threeAway, threeAway_unambiguous, threeAway_supplied, outcome,
    ⟨comes, (steps _ _ _ comes).1 Kernel.abs rfl⟩, cells _ outcome⟩

end Equation

end ColumnFormula
