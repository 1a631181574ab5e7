import Mathlib
import ColumnFormula.CommandLine
import ColumnFormula.Proofs.Compiled
import ColumnFormula.Proofs.Editing

/-!
# Where seeds land

Seeds fill the columns of a table and give a schema its names. A name that a schema resolves is
resolved alike after any more seeds (`Schema.Extends`), so the name of a property leads to the
column that its seed was put into, whatever seeds come later. Of several seeds for one column the
last one counts (`Seed.last?`), and the table is told by these alone (`seeded_lands`).
-/

namespace ColumnFormula

namespace Seed

variable {seeds : List Seed} {column : String} {s : Seed} {t : Table}

/-- The last of the seeds for a column. -/
def last? (column : String) (seeds : List Seed) : Option Seed :=
  seeds.reverse.find? (·.name == column)

/-- The cell that a seed has for a row: none past its values. -/
def cell (s : Seed) (row : Nat) : Option Measurement :=
  s.values[row]?.join.map (.bare s.name .all)

theorem last?_concat (column : String) (seeds : List Seed) (s : Seed) :
    last? column (seeds ++ [s]) = if s.name = column then some s else last? column seeds := by
  by_cases h : s.name = column <;> simp [last?, h]

theorem last?_append (column : String) (seeds more : List Seed) :
    last? column (seeds ++ more) = (last? column more).or (last? column seeds) := by
  simp [last?]

theorem last?_eq_some (h : last? column seeds = some s) : s ∈ seeds ∧ s.name = column := by
  have name := List.find?_some h
  exact ⟨List.mem_reverse.1 (List.mem_of_find?_eq_some h), eq_of_beq name⟩

theorem last?_eq_none : last? column seeds = none ↔ ∀ s ∈ seeds, s.name ≠ column := by
  simp [last?]

theorem exists_last? (h : s ∈ seeds) : ∃ l, last? s.name seeds = some l := by
  cases hl : last? s.name seeds with
  | none => exact absurd rfl (last?_eq_none.1 hl s h)
  | some l => exact ⟨l, rfl⟩

theorem join_cells (s : Seed) (row : Nat) : s.cells[row]?.join = s.cell row := by
  rw [cells, cell, List.getElem?_map]
  cases s.values[row]? <;> rfl

theorem cell_of_le {row : Nat} (h : s.values.length ≤ row) : s.cell row = none := by
  rw [cell, List.getElem?_eq_none h]
  rfl

/-! ### Filling -/

/-- The table with the columns of all seeds written, one after the other. -/
def fill (t : Table) (seeds : List Seed) : Table := seeds.foldl (fun t s => t.put s.name s.cells) t

theorem fill_concat (t : Table) (seeds : List Seed) (s : Seed) :
    fill t (seeds ++ [s]) = (fill t seeds).put s.name s.cells := by
  simp [fill]

theorem size_fill (t : Table) (seeds : List Seed) : (fill t seeds).size = t.size := by
  induction seeds generalizing t with
  | nil => rfl
  | cons s seeds ih => exact (ih _).trans (Table.size_put ..)

/-- Columns that are there already are not declared again. -/
theorem columns_fill (h : ∀ s ∈ seeds, s.name ∈ t.columns) :
    (fill t seeds).columns = t.columns := by
  induction seeds generalizing t with
  | nil => rfl
  | cons s seeds ih =>
    obtain ⟨first, rest⟩ := List.forall_mem_cons.1 h
    have same : (t.put s.name s.cells).columns = t.columns := by
      rw [Table.put, Table.extend_singleton, if_pos (List.contains_iff_mem.2 first)]
    exact (ih (by rwa [same])).trans same

/-- Each column holds what the last of the seeds for it wrote. -/
theorem cell?_fill (h : ∀ s ∈ seeds, s.values.length ≤ t.size) (row : Nat) (column : String) :
    (fill t seeds).cell? row column =
      (last? column seeds).elim (t.cell? row column) (·.cell row) := by
  induction seeds using List.reverseRecOn with
  | nil => rfl
  | append_singleton seeds s ih =>
    obtain ⟨before, last⟩ := List.forall_mem_append.1 h
    rw [fill_concat, Table.cell?_put, size_fill, join_cells, last?_concat, ih before]
    by_cases name : s.name = column
    · rw [if_pos name.symm, if_pos name]
      by_cases inside : row < t.size
      · rw [if_pos inside]
        rfl
      · have fits : s.values.length ≤ t.size := last s List.mem_cons_self
        rw [if_neg inside]
        exact (cell_of_le (by omega)).symm
    · rw [if_neg (Ne.symm name), if_neg name]

/-- The number of values of the longest seed. -/
def longest (seeds : List Seed) : Nat := (seeds.map (·.values.length)).max?.getD 0

theorem length_le_longest (h : s ∈ seeds) : s.values.length ≤ longest seeds :=
  List.le_max?_getD_of_mem (List.mem_map_of_mem h)

theorem foldl_eq_longest (seeds : List Seed) :
    seeds.foldl (fun n s => max n s.values.length) 0 = longest seeds := by
  cases seeds with
  | nil => rfl
  | cons s seeds =>
    rw [longest, List.map_cons, List.max?_cons', List.foldl_map, List.foldl_cons, Nat.zero_max]
    rfl

/-- The columns of all seeds, without rows. -/
theorem table_eq_fill (seeds : List Seed) :
    table seeds =
      fill ⟨(seeds.map Seed.name).eraseDups, List.replicate (longest seeds) .empty⟩ seeds := by
  rw [table, foldl_eq_longest, Table.columns_ofColumns]
  rfl

theorem size_table (seeds : List Seed) : (table seeds).size = longest seeds := by
  rw [table_eq_fill, size_fill, Table.size, List.length_replicate]

theorem columns_table (seeds : List Seed) :
    (table seeds).columns = (seeds.map Seed.name).eraseDups := by
  rw [table_eq_fill, columns_fill fun s hs => List.mem_eraseDups.2 (List.mem_map_of_mem hs)]

theorem cell?_table (seeds : List Seed) (row : Nat) (column : String) :
    (table seeds).cell? row column = (last? column seeds).bind (·.cell row) := by
  rw [table_eq_fill, cell?_fill fun s hs => ?fits]
  case fits =>
    rw [Table.size, List.length_replicate]
    exact length_le_longest hs
  cases last? column seeds with
  | none =>
    rw [Option.elim_none, Table.cell?, List.getElem?_replicate]
    split <;> rfl
  | some s => rfl

end Seed

/-! ## Names that stay resolved -/

namespace Schema

variable {s s' s'' : Schema} {name column : String}

/-- Names of properties that `s` resolves are resolved alike by `s'`. -/
def Extends (s s' : Schema) : Prop :=
  ∀ name column, s.propertyColumn? name = some column → s'.propertyColumn? name = some column

theorem Extends.refl (s : Schema) : s.Extends s := fun _ _ => id

theorem Extends.trans (h : s.Extends s') (h' : s'.Extends s'') : s.Extends s'' :=
  fun name column hn => h' name column (h name column hn)

theorem extends_of_props (h : s'.props = s.props) : s.Extends s' := by
  intro name column hn
  rw [propertyColumn?] at hn ⊢
  rwa [h]

/-- A name that is not resolved yet may become a property of its own. -/
theorem extends_addProperty (h : s.propertyColumn? name = none) :
    s.Extends (s.addProperty name name) := by
  intro key column hk
  have other : key ≠ name := by
    rintro rfl
    rw [h] at hk
    cases hk
  have kept : ∀ identifier value, s.props.get? identifier = some value →
      (s.addProperty name name).props.get? identifier = some value := by
    intro identifier value hi
    have ne : identifier ≠ name := by
      rintro rfl
      rw [propertyColumn?_eq_some_iff.2 (.inl hi)] at h
      cases h
    rw [addProperty, Named.get?_insert, if_neg ne, hi]
  rcases propertyColumn?_eq_some_iff.1 hk with hg | ⟨hg, rfl, identifier, hi⟩
  · exact propertyColumn?_eq_some_iff.2 (.inl (kept _ _ hg))
  · refine propertyColumn?_eq_some_iff.2 (.inr ⟨?_, rfl, identifier, kept _ _ hi⟩)
    rw [addProperty, Named.get?_insert, if_neg other, hg]

theorem propertyColumn?_addProperty (s : Schema) (name column : String) :
    (s.addProperty name column).propertyColumn? name = some column :=
  propertyColumn?_eq_some_iff.2 (.inl (by rw [addProperty, Named.get?_insert, if_pos rfl]))

/-- A property that is added brings its column along and no other. -/
theorem property_of_addProperty {identifier new : String}
    (h : (s.addProperty identifier new).propertyColumn? name = some column) :
    column = new ∨ ∃ other, s.propertyColumn? other = some column := by
  have origin : ∀ key, (s.addProperty identifier new).props.get? key = some column →
      column = new ∨ ∃ other, s.propertyColumn? other = some column := by
    intro key hk
    rw [addProperty, Named.get?_insert] at hk
    split at hk
    · cases hk
      exact .inl rfl
    · exact .inr ⟨key, propertyColumn?_eq_some_iff.2 (.inl hk)⟩
  rcases propertyColumn?_eq_some_iff.1 h with hg | ⟨-, rfl, key, hk⟩
  · exact origin _ hg
  · exact origin _ hk

end Schema

namespace Seed

variable {schema before : Schema} {texts : List String} {seeds placed : List Seed} {s : Seed}
  {add : Schema → Seed → Schema × Seed} {name column : String}

/-- The texts are read to these seeds, one by one. -/
def AllRead (texts : List String) (seeds : List Seed) : Prop :=
  List.Forall₂ (fun text seed => read text = .ok seed) texts seeds

/-- What comes of adding seeds that have been read. -/
def place (add : Schema → Seed → Schema × Seed) (schema : Schema) :
    List Seed → Schema × List Seed
  | [] => (schema, [])
  | s :: seeds =>
    let first := add schema s
    let rest := place add first.1 seeds
    (rest.1, first.2 :: rest.2)

theorem addAll_eq_place (h : AllRead texts seeds) :
    addAll add schema texts = .ok (place add schema seeds) := by
  induction h generalizing schema with
  | nil => rfl
  | cons hr _ ih => simp only [addAll, hr, ih, place]

/-! ### Variables -/

/-- The seeds of variables stay in the columns of their own names. -/
theorem seeds_place_addVariable (schema : Schema) (seeds : List Seed) :
    (place addVariable schema seeds).2 = seeds := by
  induction seeds generalizing schema with
  | nil => rfl
  | cons s seeds ih => exact congrArg (s :: ·) (ih _)

theorem props_place_addVariable (schema : Schema) (seeds : List Seed) :
    (place addVariable schema seeds).1.props = schema.props := by
  induction seeds generalizing schema with
  | nil => rfl
  | cons s seeds ih => exact ih (addVariable schema s).1

/-- The last seed of a name tells what is known of the variable. -/
theorem variableType?_place (schema : Schema) (seeds : List Seed) (name : String) :
    (place addVariable schema seeds).1.variableType? name =
      (last? name seeds).elim (schema.variableType? name) fun s => some ⟨.result, s.kind⟩ := by
  induction seeds generalizing schema with
  | nil => rfl
  | cons s seeds ih =>
    have first : last? name (s :: seeds) = (last? name seeds).or (last? name [s]) :=
      last?_append name [s] seeds
    rw [place, ih, first]
    cases last? name seeds with
    | some => rfl
    | none =>
      rw [Option.elim_none, Option.none_or, ← List.nil_append [s], last?_concat, addVariable,
        Schema.addVariable, Schema.variableType?, Named.get?_insert]
      by_cases h : s.name = name
      · rw [if_pos h.symm, if_pos h]
        rfl
      · rw [if_neg (Ne.symm h), if_neg h]
        rfl

/-! ### Properties -/

/-- The seed of a property lies in the column that its name stands for, as texts. -/
def Lands (schema : Schema) (s placed : Seed) : Prop :=
  ∃ column, schema.propertyColumn? s.name = some column ∧ placed = s.asTexts column

theorem Lands.mono {schema' : Schema} {p : Seed} (h : schema.Extends schema')
    (hl : Lands schema s p) : Lands schema' s p := by
  obtain ⟨column, known, rfl⟩ := hl
  exact ⟨column, h _ _ known, rfl⟩

/-- One seed more: its name is a property already, or becomes one. -/
theorem addProperty_cases (schema : Schema) (s : Seed) :
    (∃ column, schema.propertyColumn? s.name = some column ∧
      addProperty schema s = (schema, s.asTexts column)) ∨
    schema.propertyColumn? s.name = none ∧
      addProperty schema s = (schema.addProperty s.name s.name, s.asTexts s.name) := by
  unfold addProperty
  cases h : schema.propertyColumn? s.name with
  | some column => exact .inl ⟨column, rfl, rfl⟩
  | none => exact .inr ⟨rfl, rfl⟩

theorem extends_addProperty (schema : Schema) (s : Seed) :
    schema.Extends (addProperty schema s).1 := by
  rcases addProperty_cases schema s with ⟨column, -, step⟩ | ⟨new, step⟩ <;> rw [step]
  · exact .refl schema
  · exact Schema.extends_addProperty new

theorem lands_addProperty (schema : Schema) (s : Seed) :
    Lands (addProperty schema s).1 s (addProperty schema s).2 := by
  rcases addProperty_cases schema s with ⟨column, known, step⟩ | ⟨-, step⟩ <;> rw [step]
  · exact ⟨column, known, rfl⟩
  · exact ⟨s.name, Schema.propertyColumn?_addProperty .., rfl⟩

theorem vars_place_addProperty (schema : Schema) (seeds : List Seed) :
    (place addProperty schema seeds).1.vars = schema.vars := by
  induction seeds generalizing schema with
  | nil => rfl
  | cons s seeds ih =>
    refine (ih (addProperty schema s).1).trans ?_
    rcases addProperty_cases schema s with ⟨column, -, step⟩ | ⟨-, step⟩
    · rw [step]
    · rw [step]
      rfl

theorem extends_place_addProperty (schema : Schema) (seeds : List Seed) :
    schema.Extends (place addProperty schema seeds).1 := by
  induction seeds generalizing schema with
  | nil => exact .refl schema
  | cons s seeds ih => exact (extends_addProperty schema s).trans (ih _)

/-- Where a seed has landed its name still leads after all seeds. -/
theorem lands_place_addProperty (schema : Schema) (seeds : List Seed) :
    List.Forall₂ (Lands (place addProperty schema seeds).1) seeds
      (place addProperty schema seeds).2 := by
  induction seeds generalizing schema with
  | nil => exact .nil
  | cons s seeds ih =>
    exact .cons ((lands_addProperty schema s).mono (extends_place_addProperty _ seeds)) (ih _)

/-- A column of a property was one before, or a seed of a property lies in it. -/
theorem property_of_place {schema : Schema} {seeds : List Seed}
    (h : (place addProperty schema seeds).1.propertyColumn? name = some column) :
    (∃ other, schema.propertyColumn? other = some column) ∨
      ∃ p ∈ (place addProperty schema seeds).2, p.name = column := by
  induction seeds generalizing schema with
  | nil => exact .inl ⟨name, h⟩
  | cons s seeds ih =>
    rcases ih h with ⟨other, ho⟩ | ⟨p, hp, rfl⟩
    · rcases addProperty_cases schema s with ⟨_, -, step⟩ | ⟨-, step⟩
      · rw [step] at ho
        exact .inl ⟨other, ho⟩
      · rw [step] at ho
        rcases Schema.property_of_addProperty ho with rfl | old
        · exact .inr ⟨_, List.mem_cons_self, by rw [step]; rfl⟩
        · exact .inl old
    · exact .inr ⟨p, List.mem_cons_of_mem _ hp, rfl⟩

end Seed

namespace CommandLine

open Seed

variable {options : Options} {columns properties : List Seed}

/-- Seeds that can be read are placed, first all columns, then all properties. -/
theorem Options.seeded_eq (hc : AllRead options.columns columns)
    (hp : AllRead options.properties properties) :
    let before := (place addVariable .metadata columns).1
    let after := place addProperty before properties
    addAll addVariable .metadata options.columns = .ok (before, columns) ∧
      addAll addProperty before options.properties = .ok after ∧
      options.seeded = .ok (after.1, table (columns ++ after.2)) := by
  intro before after
  have first : addAll addVariable .metadata options.columns = .ok (before, columns) := by
    rw [addAll_eq_place hc]
    exact congrArg Except.ok (Prod.ext rfl (seeds_place_addVariable ..))
  have second : addAll addProperty before options.properties = .ok after := addAll_eq_place hp
  refine ⟨first, second, ?_⟩
  rw [seeded, first]
  simp only [second]

/-- After all seeds a variable is known by the last seed of its name. -/
theorem variableType?_seeded (columns properties : List Seed) (name : String) :
    (place addProperty (place addVariable .metadata columns).1 properties).1.variableType? name =
      (last? name columns).map fun s => ⟨.result, s.kind⟩ := by
  rw [Schema.variableType?, vars_place_addProperty, ← Schema.variableType?, variableType?_place]
  cases last? name columns <;> rfl

/-- Seeds land where equations look for them. After all seeds the name of each property leads to
the column that its seed was put into, and each column is known as a variable. The table has as many
rows as the longest seed has values, its columns are those of the seeds as they come first, and each
cell is the value of the last seed for its column, columns before properties: none where that value
is left out or the seed ends before. -/
theorem seeded_lands (hc : AllRead options.columns columns)
    (hp : AllRead options.properties properties) :
    ∃ before schema placed,
      addAll addVariable .metadata options.columns = .ok (before, columns) ∧
      addAll addProperty before options.properties = .ok (schema, placed) ∧
      options.seeded = .ok (schema, table (columns ++ placed)) ∧
      List.Forall₂ (fun s p => ∃ column, schema.propertyColumn? s.name = some column ∧
        p = s.asTexts column) properties placed ∧
      (∀ s ∈ columns, (schema.variableType? s.name).isSome = true) ∧
      (table (columns ++ placed)).size =
        ((columns ++ placed).map (·.values.length)).max?.getD 0 ∧
      (table (columns ++ placed)).columns = ((columns ++ placed).map Seed.name).eraseDups ∧
      ∀ row column, (table (columns ++ placed)).cell? row column =
        (last? column (columns ++ placed)).bind fun s =>
          s.values[row]?.join.map (.bare column .all) := by
  obtain ⟨first, second, all⟩ := Options.seeded_eq hc hp
  refine ⟨_, _, _, first, second, all, lands_place_addProperty .., fun s hs => ?known,
    size_table _, columns_table _, fun row column => ?cell⟩
  case known =>
    obtain ⟨l, hl⟩ := exists_last? hs
    rw [variableType?_seeded, hl]
    rfl
  case cell =>
    rw [cell?_table]
    cases h : last? column _ with
    | none => rfl
    | some s => rw [Option.bind_some, Option.bind_some, cell, (last?_eq_some h).2]

/-- A property under both of its names, and a variable in its column. -/
def machines : Options where
  columns := ["Time=1,,2", "machine=7"]
  properties := ["Machine=a,b", "machine=c"]
  equation := "Machine"

def machineColumns : List Seed :=
  [⟨"Time", [some (.integer 1), none, some (.integer 2)]⟩, ⟨"machine", [some (.integer 7)]⟩]

def machineNames : List Seed :=
  [⟨"Machine", [some (.text "a"), some (.text "b")]⟩, ⟨"machine", [some (.text "c")]⟩]

theorem machines_read :
    AllRead machines.columns machineColumns ∧ AllRead machines.properties machineNames :=
  ⟨.cons (by decide +kernel) (.cons (by decide +kernel) .nil),
    .cons (by decide +kernel) (.cons (by decide +kernel) .nil)⟩

def machineSchema : Schema :=
  (Schema.metadata.addVariable "Time" .result .integer).addVariable "machine" .result .integer

theorem seeded_lands_machines :
    AllRead machines.columns machineColumns ∧ AllRead machines.properties machineNames ∧
    ∃ t, machines.seeded = .ok (machineSchema, t) ∧
      machineSchema.propertyColumn? "Machine" = some "machine" ∧
      machineSchema.propertyColumn? "machine" = some "machine" ∧
      t.size = 3 ∧ t.columns = ["Time", "machine"] ∧
      t.cell? 0 "machine" = some (.bare "machine" .all (.text "c")) ∧
      t.cell? 1 "machine" = none := by
  obtain ⟨before, schema, placed, first, second, seeded, -, -, size, names, cells⟩ :=
    seeded_lands machines_read.1 machines_read.2
  have computed : addAll addVariable .metadata machines.columns =
      .ok (machineSchema, machineColumns) := by decide +kernel
  have computed' : addAll addProperty machineSchema machines.properties =
      .ok (machineSchema, [⟨"machine", [some (.text "a"), some (.text "b")]⟩,
        ⟨"machine", [some (.text "c")]⟩]) := by decide +kernel
  obtain ⟨rfl, -⟩ := Prod.mk.inj (Except.ok.inj (first.symm.trans computed))
  obtain ⟨rfl, rfl⟩ := Prod.mk.inj (Except.ok.inj (second.symm.trans computed'))
  exact ⟨machines_read.1, machines_read.2, _, seeded, by decide +kernel, by decide +kernel, size,
    names, cells .., cells ..⟩

end CommandLine

end ColumnFormula
