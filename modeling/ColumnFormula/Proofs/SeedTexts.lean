import Mathlib
import ColumnFormula.Proofs.Number.ReadBack
import ColumnFormula.Proofs.Seeding

/-!
# Texts of properties

A property is a column of texts, but its values are read as all values are: what can be read as a
number becomes one, and its text is that of the number. So a value is kept as it stands in the seed
if it is no number or is written as numbers are written here (`toText_ofText`), and only then does a
row agree with the value as a constant (`property_texts`).
-/

namespace ColumnFormula

namespace Scalar

variable {item : List Char}

/-- No number, or one in the form in which numbers are written. -/
def Kept (item : List Char) : Prop :=
  (Numeral.integer? item = none ∧ Numeral.real? item = none) ∨
  (∃ i : Int64, item = Numeral.ofInt i.toInt) ∨ ∃ x : Float, item = Numeral.ofReal x

theorem ofText_ofInt (i : Int64) : ofText (Numeral.ofInt i.toInt) = .integer i := by
  unfold ofText
  simp only [Numeral.integer?_ofInt]
  rw [if_pos ⟨i.le_toInt, i.toInt_le⟩, Int64.ofInt_toInt]

theorem ofText_ofReal (x : Float) : ofText (Numeral.ofReal x) = .real x := by
  unfold ofText
  simp only [Numeral.integer?_ofReal, Numeral.real?_ofReal]

/-- What is read of a text prints as that text exactly if the text is kept. -/
theorem toText_ofText : (ofText item).toText = String.ofList item ↔ Kept item := by
  constructor
  · intro same
    cases h : ofText item with
    | integer i =>
      rw [h] at same
      exact .inr (.inl ⟨i, (String.ofList_inj.1 same).symm⟩)
    | real x =>
      rw [h] at same
      exact .inr (.inr ⟨x, (String.ofList_inj.1 same).symm⟩)
    | text s =>
      unfold ofText at h
      split at h
      · split at h <;> cases h
      · rename_i noInteger
        split at h
        · cases h
        · rename_i noReal
          exact .inl ⟨noInteger, noReal⟩
  · rintro (⟨noInteger, noReal⟩ | ⟨i, rfl⟩ | ⟨x, rfl⟩)
    · unfold ofText
      rw [noInteger, noReal]
      rfl
    · rw [ofText_ofInt]
      rfl
    · rw [ofText_ofReal]
      rfl

instance : Decidable (Kept item) := decidable_of_iff _ toText_ofText

end Scalar

namespace Seed

open Scalar (Kept)

variable {text : String} {s : Seed}

/-- What stands between the commas of a seed, without the blanks around it. -/
def items (text : String) : List (List Char) :=
  (splitCommas ((text.toList.dropWhile (· ≠ '=')).drop 1)).map Text.trim

/-- The value of what stands between two commas, as text. -/
def itemText? (item : List Char) : Option Scalar :=
  if item = [] then none else some (.text (Scalar.ofText item).toText)

theorem values_asTexts (h : read text = .ok s) (column : String) :
    (s.asTexts column).values = (items text).map itemText? := by
  have each : ∀ cs, (value? cs).map (fun x => Scalar.text x.toText) = itemText? (Text.trim cs) := by
    intro cs
    rw [value?, itemText?]
    cases Text.trim cs <;> rfl
  unfold read at h
  rw [items]
  cases hd : text.toList.dropWhile (· ≠ '=') with
  | nil =>
    simp only [hd] at h
    cases h
  | cons c values =>
    simp only [hd] at h
    split at h
    · cases h
    · cases h
      simp [asTexts, each, Function.comp_def]

/-- What the cell in a property's column shows of an item. -/
structure Transcribed (column : String) (item : List Char) (cell : Option Measurement) : Prop where
  absent : item = [] → cell = none
  text : item ≠ [] → cell = some (.bare column .all (.text (Scalar.ofText item).toText))
  same : item ≠ [] → (cell = some (.bare column .all (.text (String.ofList item))) ↔ Kept item)
  /-- Whether `find` takes the row for a constant of the item. -/
  hits : item ≠ [] → ∀ x c, c.quantity = .text (String.ofList item) →
    Strategy.hits [x, cell, some c] = decide (Kept item)
  /-- What `ifeq` tells of the row for such a constant. -/
  flag : item ≠ [] → ∀ c, c.quantity = .text (String.ofList item) →
    ∃ m, cell = some m ∧
      Strategy.flag [cell, some c] = some (m.withReal (if Kept item then 1.0 else 0.0) (some 0.0))

theorem transcribed (column : String) (item : List Char) :
    Transcribed column item ((itemText? item).map (.bare column .all)) := by
  by_cases empty : item = []
  · subst empty
    exact ⟨fun _ => rfl, absurd rfl, absurd rfl, absurd rfl, absurd rfl⟩
  have cell : (itemText? item).map (Measurement.bare column .all) =
      some (.bare column .all (.text (Scalar.ofText item).toText)) := by
    rw [itemText?, if_neg empty]
    rfl
  have agrees : ∀ c : Measurement, c.quantity = .text (String.ofList item) →
      (Scalar.text (Scalar.ofText item).toText).agrees c.quantity = decide (Kept item) := by
    intro c hc
    rw [hc, decide_eq_decide.2 Scalar.toText_ofText.symm]
    rfl
  rw [cell]
  refine ⟨fun h => absurd h empty, fun _ => rfl, fun _ => ?same, fun _ x c hc => agrees c hc,
    fun _ c hc => ⟨_, rfl, ?flag⟩⟩
  case same =>
    rw [← Scalar.toText_ofText]
    simp [Measurement.bare]
  case flag =>
    have known := agrees c hc
    simp only [Strategy.flag, Measurement.bare, known, decide_eq_true_eq]

theorem transcribed_asTexts {row : Nat} {item : List Char} (h : read text = .ok s)
    (hi : (items text)[row]? = some item) (column : String) :
    Transcribed column item ((s.asTexts column).cell row) := by
  rw [Seed.cell, values_asTexts h, List.getElem?_map, hi]
  exact transcribed column item

/-- A seed counts if no later one has its name. -/
theorem last?_of_getElem? {seeds : List Seed} {i : Nat} (h : seeds[i]? = some s)
    (later : ∀ q ∈ seeds.drop (i + 1), q.name ≠ s.name) : last? s.name seeds = some s := by
  obtain ⟨inside, same⟩ := List.getElem?_eq_some_iff.1 h
  have split : seeds = seeds.take i ++ [s] ++ seeds.drop (i + 1) := by simp [← same]
  rw [split, last?_append, last?_eq_none.2 later, Option.none_or, last?_concat, if_pos rfl]

theorem exists_of_forall₂ {α β : Type} {R : α → β → Prop} {xs : List α} {ys : List β} {i : Nat}
    {x : α} (h : List.Forall₂ R xs ys) (hx : xs[i]? = some x) : ∃ y, ys[i]? = some y ∧ R x y := by
  obtain ⟨inside, rfl⟩ := List.getElem?_eq_some_iff.1 hx
  have inside' := h.length_eq ▸ inside
  exact ⟨_, List.getElem?_eq_getElem inside', h.get inside inside'⟩

end Seed

namespace CommandLine

open Seed

variable {options : Options} {columns properties : List Seed}

/-- The cells of a property show the items of its seed, row by row, unless a later seed lies in the
same column. An item stands there as it was given exactly if it is kept, and exactly then a constant
of the same text finds the row. -/
theorem property_texts (hc : AllRead options.columns columns)
    (hp : AllRead options.properties properties) :
    ∃ schema placed, options.seeded = .ok (schema, table (columns ++ placed)) ∧
      List.Forall₂ (Lands schema) properties placed ∧
      ∀ i text p, options.properties[i]? = some text → placed[i]? = some p →
        (∀ later ∈ placed.drop (i + 1), later.name ≠ p.name) →
        ∀ row item, (items text)[row]? = some item →
          Transcribed p.name item ((table (columns ++ placed)).cell? row p.name) := by
  obtain ⟨-, -, seeded⟩ := Options.seeded_eq hc hp
  have lands := lands_place_addProperty (place addVariable .metadata columns).1 properties
  refine ⟨_, _, seeded, lands, fun i text p ht placed later row item hi => ?_⟩
  obtain ⟨s, hs, read⟩ := exists_of_forall₂ hp ht
  obtain ⟨_, same, column, -, rfl⟩ := exists_of_forall₂ lands hs
  obtain rfl := Option.some.inj (placed.symm.trans same)
  rw [cell?_table, last?_append, last?_of_getElem? placed later]
  exact transcribed_asTexts read hi column

/-- A text, a number as it is written, an absent value and two numbers as they are not. -/
def versions : Options where
  columns := ["Time=3,4"]
  properties := ["Version=v1,1.5,,007,1e3"]
  equation := "find('Time', Version, \"v1\")"

def versionSchema : Schema :=
  (Schema.metadata.addVariable "Time" .result .integer).addProperty "Version" "Version"

theorem property_texts_versions : ∃ columns properties t,
    AllRead versions.columns columns ∧ AllRead versions.properties properties ∧
    versions.seeded = .ok (versionSchema, t) ∧
    t.cell? 0 "Version" = some (.bare "Version" .all (.text "v1")) ∧
    t.cell? 1 "Version" = some (.bare "Version" .all (.text "1.5")) ∧
    t.cell? 2 "Version" = none ∧
    t.cell? 3 "Version" = some (.bare "Version" .all (.text "7")) ∧
    t.cell? 4 "Version" = some (.bare "Version" .all (.text "1000.0")) := by
  let time : Seed := ⟨"Time", [some (.integer 3), some (.integer 4)]⟩
  let version : Seed := ⟨"Version", [some (.text "v1"), some (.real 1.5), none, some (.integer 7),
    some (.real 1000.0)]⟩
  have hc : AllRead versions.columns [time] := .cons (by decide +kernel) .nil
  have hp : AllRead versions.properties [version] := .cons (by decide +kernel) .nil
  obtain ⟨schema, placed, seeded, lands, shown⟩ := property_texts hc hp
  have known : versions.seeded.map Prod.fst = .ok versionSchema := by decide +kernel
  rw [seeded] at known
  obtain rfl : schema = versionSchema := Except.ok.inj known
  have resolved : versionSchema.propertyColumn? "Version" = some "Version" := by decide +kernel
  obtain _ | ⟨⟨column, hn, rfl⟩, _ | _⟩ := lands
  obtain rfl : "Version" = column := Option.some.inj (resolved.symm.trans hn)
  have cells := shown 0 _ _ rfl rfl (fun later h => by cases h)
  refine ⟨_, _, _, hc, hp, seeded, ?_, ?_, ?_, ?_, ?_⟩
  · exact ((cells 0 "v1".toList (by decide +kernel)).same (by decide)).2 (by decide +kernel)
  · exact ((cells 1 "1.5".toList (by decide +kernel)).same (by decide)).2 (by decide +kernel)
  · exact (cells 2 [] (by decide +kernel)).absent rfl
  · exact ((cells 3 "007".toList (by decide +kernel)).text (by decide)).trans (by decide +kernel)
  · exact ((cells 4 "1e3".toList (by decide +kernel)).text (by decide)).trans (by decide +kernel)

/-- A property that looks like numbers, and an equation that asks for it as it was given. -/
def renumbered : Options where
  columns := ["Time=3,4"]
  properties := ["Version=007,8"]
  equation := "ifeq(Version, \"007\")"

theorem renumbered_misses : items "Version=007,8" = ["007".toList, "8".toList] ∧
    ∃ t, renumbered.seeded = .ok (versionSchema, t) ∧
      t.cell? 0 "Version" = some (.bare "Version" .all (.text "7")) ∧
      renumbered.run none = ⟨0, "ifeq(Version, \"007\")\n0.0 ± 0.0\n0.0 ± 0.0\n", ""⟩ := by
  let time : Seed := ⟨"Time", [some (.integer 3), some (.integer 4)]⟩
  let version : Seed := ⟨"Version", [some (.text "7"), some (.text "8")]⟩
  have seeded : renumbered.seeded = .ok (versionSchema, table [time, version]) := by decide +kernel
  let root : Formula := .call .ifeq [.prop "Version" "Version", .constant (.text "007")]
  have compiled : Equation.compile versionSchema renumbered.equation =
      .ok ⟨renumbered.equation, root⟩ := by cbv
  have run : renumbered.run none = renumbered.runWith renumbered.equation := rfl
  refine ⟨by decide +kernel, _, seeded, by decide +kernel, ?_⟩
  rw [run, Options.runWith, seeded]
  simp only [compiled]
  decide +kernel

end CommandLine

end ColumnFormula
