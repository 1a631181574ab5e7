import Mathlib
import ColumnFormula.Proofs.Seeding

/-!
# Tables that keep to their schema

Formulas are checked against a schema, which tells one kind for the cells of a variable and texts
for those of a property. A table keeps to it if its cells are of these kinds (`Conforms`). A seeded
one need not: a variable gets the kind that describes all values of its seed, while each cell keeps
the kind of its own value, and a property may lie in the column of a variable. `conforms_iff` tells
from the seeds when the table and the schema that are made of them go together.
-/

namespace ColumnFormula

/-- The cells of variables are of the kind that the schema tells, those of properties are texts. -/
structure Conforms (schema : Schema) (t : Table) : Prop where
  ofVariable : ∀ name type, schema.variableType? name = some type →
    ∀ row m, t.cell? row name = some m → m.kind = type.kind
  ofProperty : ∀ name column, schema.propertyColumn? name = some column →
    ∀ row m, t.cell? row column = some m → m.kind = .text

namespace Seed

variable {s p : Seed} {k : Kind} {column : String}

/-- The values that are there are of this kind. -/
def Only (s : Seed) (k : Kind) : Prop := ∀ x, some x ∈ s.values → x.kind = k

/-- The values that are there are of one kind. -/
def Uniform (s : Seed) : Prop := ∃ k, s.Only k

/-- If any kind describes every single value, it is the one that describes them all. -/
theorem uniform_iff : s.Uniform ↔ s.Only s.kind := by
  refine ⟨?_, fun h => ⟨_, h⟩⟩
  rintro ⟨k, only⟩ x hx
  have mem : ∀ {l}, l ∈ s.values.filterMap (fun v => v.map Scalar.kind) ↔
      ∃ y, some y ∈ s.values ∧ y.kind = l := by
    simp [List.mem_filterMap]
  have there := mem.2 ⟨x, hx, rfl⟩
  have one : ∀ l ∈ s.values.filterMap (fun v => v.map Scalar.kind), l = x.kind := by
    intro l hl
    obtain ⟨y, hy, rfl⟩ := mem.1 hl
    rw [only y hy, only x hx]
  unfold kind
  dsimp only
  split
  · rename_i text
    exact (one _ (List.contains_iff_mem.1 text)).symm
  · rename_i noText
    split
    · rename_i integers
      exact eq_of_beq (List.all_eq_true.1 integers _ there)
    · rename_i others
      cases hk : x.kind with
      | text => exact absurd (List.contains_iff_mem.2 (hk ▸ there)) noText
      | integer =>
        refine absurd (List.all_eq_true.2 fun l hl => ?_) others
        rw [one l hl, hk]
        rfl
      | real => rfl

theorem only_iff_cell : s.Only k ↔ ∀ row m, s.cell row = some m → m.kind = k := by
  unfold Only cell
  constructor
  · intro h row m hm
    obtain ⟨x, hx, rfl⟩ := Option.map_eq_some_iff.1 hm
    exact h x (List.mem_of_getElem? (Option.join_eq_some_iff.1 hx))
  · intro h x hx
    obtain ⟨row, hr⟩ := List.getElem?_of_mem hx
    refine h row (.bare s.name .all x) ?_
    rw [hr]
    rfl

theorem exists_asTexts {schema : Schema} {seeds placed : List Seed}
    (h : List.Forall₂ (Lands schema) seeds placed) (hp : p ∈ placed) :
    ∃ s column, p = asTexts s column := by
  induction h with
  | nil => cases hp
  | cons lands _ ih =>
    rcases List.mem_cons.1 hp with rfl | hp
    · obtain ⟨column, -, same⟩ := lands
      exact ⟨_, column, same⟩
    · exact ih hp

/-- What is put into the column of a property are texts, so it is of another kind only if there is
nothing in it. -/
theorem only_of_lands {schema : Schema} {seeds placed : List Seed}
    (h : List.Forall₂ (Lands schema) seeds placed) (hp : p ∈ placed) :
    p.Only k ↔ k = .text ∨ ∀ x, some x ∉ p.values := by
  obtain ⟨s, column, rfl⟩ := exists_asTexts h hp
  have text : (s.asTexts column).Only .text := by
    intro x hx
    obtain ⟨v, -, hv⟩ := List.mem_map.1 hx
    obtain ⟨y, -, rfl⟩ := Option.map_eq_some_iff.1 hv
    rfl
  constructor
  · intro h
    by_cases hx : ∃ x, some x ∈ (s.asTexts column).values
    · obtain ⟨x, hx⟩ := hx
      exact .inl ((h x hx).symm.trans (text x hx))
    · exact .inr (not_exists.1 hx)
  · rintro (rfl | none)
    · exact text
    · exact fun x hx => absurd hx (none x)

end Seed

open Seed

/-- Of all seeds only the last one for a column matters. -/
theorem conforms_table {schema : Schema} {seeds : List Seed} : Conforms schema (table seeds) ↔
    (∀ name type, schema.variableType? name = some type →
      ∀ s, last? name seeds = some s → s.Only type.kind) ∧
    ∀ name column, schema.propertyColumn? name = some column →
      ∀ s, last? column seeds = some s → s.Only .text := by
  have kinds : ∀ column k, (∀ row m, (table seeds).cell? row column = some m → m.kind = k) ↔
      ∀ s, last? column seeds = some s → s.Only k := by
    intro column k
    simp only [cell?_table, only_iff_cell]
    cases last? column seeds with
    | none => simp
    | some s => simp
  simp only [← kinds]
  exact ⟨fun h => ⟨h.ofVariable, h.ofProperty⟩, fun h => ⟨h.1, h.2⟩⟩

namespace CommandLine

variable {options : Options} {columns properties : List Seed}

theorem metadata_own : ∀ column ∈ Schema.metadata.columns,
    Schema.metadata.propertyColumn? column = some column := by
  decide +kernel

/-- A seeded table keeps to its schema exactly if every column seed that is the last of its name is
in order. If a property was put into its column later, the column tells texts or the property has
no values. If none was, the values of the seed are of one kind, and texts if the column is one of
those that describe where a measurement was taken. -/
theorem conforms_iff (hc : AllRead options.columns columns)
    (hp : AllRead options.properties properties) :
    ∃ schema placed,
      options.seeded = .ok (schema, table (columns ++ placed)) ∧
      List.Forall₂ (Lands schema) properties placed ∧
      (Conforms schema (table (columns ++ placed)) ↔
        ∀ s, last? s.name columns = some s →
          (∀ p, last? s.name placed = some p → s.kind = .text ∨ ∀ x, some x ∉ p.values) ∧
          (last? s.name placed = none → s.Uniform ∧
            (s.name ∈ Schema.metadata.columns → s.Only .text))) := by
  obtain ⟨-, -, seeded⟩ := Options.seeded_eq hc hp
  have lands := lands_place_addProperty (place addVariable .metadata columns).1 properties
  refine ⟨_, _, seeded, lands, ?_⟩
  have props := props_place_addVariable .metadata columns
  have known := (Schema.extends_of_props props).trans (extends_place_addProperty _ properties)
  have types := variableType?_seeded columns properties
  rw [conforms_table]
  constructor
  · rintro ⟨ofVariable, ofProperty⟩ s hs
    have type := (types s.name).trans (congrArg _ hs)
    refine ⟨fun p hp => ?_, fun unwritten => ?_⟩
    · have last := (last?_append s.name columns _).trans (congrArg (Option.or · _) hp)
      exact (only_of_lands lands (last?_eq_some hp).1).1 (ofVariable _ _ type p last)
    · have last := (last?_append s.name columns _).trans (congrArg (Option.or · _) unwritten)
      rw [hs, Option.none_or] at last
      exact ⟨⟨_, ofVariable _ _ type s last⟩,
        fun described => ofProperty _ _ (known _ _ (metadata_own _ described)) s last⟩
  · intro h
    constructor
    · intro name type ht last hl
      rw [types] at ht
      obtain ⟨s, hs, rfl⟩ := Option.map_eq_some_iff.1 ht
      obtain rfl := (last?_eq_some hs).2
      obtain ⟨overwritten, own⟩ := h s hs
      rw [last?_append] at hl
      cases hp : last? s.name (place addProperty _ properties).2 with
      | some p =>
        rw [hp] at hl
        cases hl
        exact (only_of_lands lands (last?_eq_some hp).1).2 (overwritten _ hp)
      | none =>
        rw [hp, hs] at hl
        cases hl
        exact uniform_iff.1 (own hp).1
    · intro name column hn last hl
      rw [last?_append] at hl
      cases hp : last? column (place addProperty _ properties).2 with
      | some p =>
        rw [hp] at hl
        cases hl
        exact (only_of_lands lands (last?_eq_some hp).1).2 (.inl rfl)
      | none =>
        rw [hp] at hl
        have hl : last? column columns = some last := hl
        obtain rfl := (last?_eq_some hl).2
        rcases property_of_place hn with ⟨other, ho⟩ | ⟨p, hm, name⟩
        · have described := Schema.extends_of_props props.symm _ _ ho
          exact ((h last hl).2 hp).2 (Schema.mem_columns_of_property described)
        · exact absurd name (last?_eq_none.1 hp p hm)

/-- Integers and texts apart, and a property that is known already. -/
def labelled : Options where
  columns := ["Time=1,,2", "Label=x,y"]
  properties := ["Machine=a,7"]
  equation := "find('Time', Machine, \"a\")"

def labelledSchema : Schema :=
  (Schema.metadata.addVariable "Time" .result .integer).addVariable "Label" .result .text

theorem conforms_iff_labelled : ∃ columns properties t,
    AllRead labelled.columns columns ∧ AllRead labelled.properties properties ∧
    labelled.seeded = .ok (labelledSchema, t) ∧ Conforms labelledSchema t := by
  let time : Seed := ⟨"Time", [some (.integer 1), none, some (.integer 2)]⟩
  let label : Seed := ⟨"Label", [some (.text "x"), some (.text "y")]⟩
  let machine : Seed := ⟨"Machine", [some (.text "a"), some (.integer 7)]⟩
  have hc : AllRead labelled.columns [time, label] :=
    .cons (by decide +kernel) (.cons (by decide +kernel) .nil)
  have hp : AllRead labelled.properties [machine] := .cons (by decide +kernel) .nil
  obtain ⟨schema, placed, seeded, lands, exactly⟩ := conforms_iff hc hp
  have known : labelled.seeded.map Prod.fst = .ok labelledSchema := by decide +kernel
  rw [seeded] at known
  obtain rfl : schema = labelledSchema := Except.ok.inj known
  have resolved : labelledSchema.propertyColumn? "Machine" = some "machine" := by decide +kernel
  obtain _ | ⟨⟨column, hn, rfl⟩, _ | _⟩ := lands
  obtain rfl : "machine" = column := Option.some.inj (resolved.symm.trans hn)
  have apart : ∀ s ∈ [time, label], last? s.name [machine.asTexts "machine"] = none ∧
      s.name ∉ Schema.metadata.columns := by decide +kernel
  have uniform : ∀ s ∈ [time, label], s.Uniform := by
    simp [uniform_iff, Only, time, label, kind, Scalar.kind]
  refine ⟨_, _, _, hc, hp, seeded, exactly.2 fun s hs => ?_⟩
  have among := (last?_eq_some hs).1
  obtain ⟨unwritten, other⟩ := apart s among
  refine ⟨fun p hp => ?_, fun _ => ⟨uniform s among, fun described => absurd described other⟩⟩
  cases unwritten.symm.trans hp

/-- A column of an integer and a text, which is known as texts. -/
def mixed : Options where
  columns := ["A=1,x"]
  equation := "ifeq('A', \"1\")"

theorem mixed_escapes_schema : ∃ schema t, mixed.seeded = .ok (schema, t) ∧
    schema.variableType? "A" = some ⟨.result, .text⟩ ∧
    t.cell? 0 "A" = some (.bare "A" .all (.integer 1)) ∧ ¬Conforms schema t := by
  have seeded : mixed.seeded = .ok (Schema.metadata.addVariable "A" .result .text,
      table [⟨"A", [some (.integer 1), some (.text "x")]⟩]) := by decide +kernel
  have known : (Schema.metadata.addVariable "A" .result .text).variableType? "A" =
      some ⟨.result, .text⟩ := by decide +kernel
  have cell : (table [⟨"A", [some (.integer 1), some (.text "x")]⟩]).cell? 0 "A" =
      some (.bare "A" .all (.integer 1)) := by decide +kernel
  refine ⟨_, _, seeded, known, cell, fun conforms => ?_⟩
  cases conforms.ofVariable "A" _ known 0 _ cell

end CommandLine

end ColumnFormula
