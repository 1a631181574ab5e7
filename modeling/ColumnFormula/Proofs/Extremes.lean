import ColumnFormula.Reduction

/-!
# Extremes

The numbers of a column are those of its cells that are numbers and no NaNs (`number?`). Of these
the least and the greatest are found by going through the rows once, with a strict comparison, so
the first of several equal ones stays (`leads_foldl`): `min` and `max` give the number of the first
row that no other row is before, with that row's own error (`reduce_extreme`).
-/

namespace ColumnFormula

/-! ## Numbers on the line -/

namespace Binary64

/-- Where a number stands. -/
def point (x : Float) : Int := (place x).getD 0

theorem less_iff {x y : Float} (hx : isNaN x = false) (hy : isNaN y = false) :
    less x y = true ↔ point x < point y := by
  unfold less point place
  simp [hx, hy]

end Binary64

namespace Sample

variable {key : Sample → Int} {beats : Float → Float → Bool} {samples : List Sample} {s n : Sample}

/-- The first of the samples with the least key. -/
def Leads (key : Sample → Int) (samples : List Sample) (s : Sample) : Prop :=
  ∃ before after, samples = before ++ s :: after ∧ (∀ n ∈ before, key s < key n) ∧
    ∀ n ∈ after, key s ≤ key n

theorem Leads.mem (h : Leads key samples s) : s ∈ samples := by
  obtain ⟨before, after, rfl, -, -⟩ := h
  exact List.mem_append_right _ List.mem_cons_self

theorem Leads.le (h : Leads key samples s) (hn : n ∈ samples) : key s ≤ key n := by
  obtain ⟨before, after, rfl, behind, level⟩ := h
  rcases List.mem_append.1 hn with hn | hn
  · exact Int.le_of_lt (behind n hn)
  · rcases List.mem_cons.1 hn with rfl | hn
    · exact Int.le_refl _
    · exact level n hn

/-- A sample in front of the first is left behind if its key is greater. -/
theorem Leads.cons (h : Leads key samples s) (hn : key s < key n) : Leads key (n :: samples) s := by
  obtain ⟨before, after, rfl, behind, level⟩ := h
  exact ⟨n :: before, after, rfl, List.forall_mem_cons.2 ⟨hn, behind⟩, level⟩

/-- A sample that is no better than the one in front of it changes nothing. -/
theorem Leads.insert {first : Sample} (h : Leads key (first :: samples) s)
    (hn : key first ≤ key n) : Leads key (first :: n :: samples) s := by
  obtain ⟨before, after, split, behind, level⟩ := h
  cases before with
  | nil =>
    obtain ⟨rfl, rfl⟩ := List.cons.inj split
    exact ⟨[], n :: samples, rfl, nofun, List.forall_mem_cons.2 ⟨hn, level⟩⟩
  | cons other before =>
    obtain ⟨rfl, rfl⟩ := List.cons.inj split
    obtain ⟨first, rest⟩ := List.forall_mem_cons.1 behind
    exact ⟨_ :: n :: before, after, rfl,
      List.forall_mem_cons.2 ⟨first, List.forall_mem_cons.2 ⟨by omega, rest⟩⟩, level⟩

/-- Keeping the best sample so far ends with the first of the best. -/
theorem leads_foldl
    (hb : ∀ a ∈ s :: samples, ∀ b ∈ s :: samples, beats a.value b.value = true ↔ key a < key b) :
    Leads key (s :: samples)
      (samples.foldl (fun best n => if beats n.value best.value then n else best) s) := by
  induction samples generalizing s with
  | nil => exact ⟨[], [], rfl, nofun, nofun⟩
  | cons n samples ih =>
    have kept : ∀ best ∈ s :: n :: samples, ∀ a ∈ best :: samples, a ∈ s :: n :: samples := by
      grind
    have leads : ∀ best ∈ s :: n :: samples, Leads key (best :: samples)
        (samples.foldl (fun best n => if beats n.value best.value then n else best) best) :=
      fun best among => ih fun a ha b hb' => hb a (kept best among a ha) b (kept best among b hb')
    have first : s ∈ s :: n :: samples := List.mem_cons_self
    have second : n ∈ s :: n :: samples := List.mem_cons_of_mem s List.mem_cons_self
    have both := hb n second s first
    rw [List.foldl_cons]
    split
    · rename_i better
      have least := leads n second
      have less := both.1 better
      exact least.cons (Int.lt_of_le_of_lt (least.le List.mem_cons_self) less)
    · rename_i worse
      exact (leads s first).insert (Int.not_lt.1 (mt both.2 worse))

end Sample

/-! ## Numbers of a column -/

namespace Table

variable {t : Table} {column : String} {row : Nat} {s n : Sample} {beats : Float → Float → Bool}

/-- The number in a cell with its error. -/
def number? (t : Table) (column : String) (row : Nat) : Option Sample :=
  ((t.cell? row column).bind Sample.ofMeasurement?).filter fun s => !Binary64.isNaN s.value

theorem isNaN_of_number? (h : t.number? column row = some s) :
    Binary64.isNaN s.value = false := by
  simpa using (Option.filter_eq_some_iff.1 h).2

theorem lt_size_of_number? (h : t.number? column row = some s) : row < t.size := by
  rcases Nat.lt_or_ge row t.size with inside | outside
  · exact inside
  · have none : t.rows[row]? = none := List.getElem?_eq_none outside
    rw [number?, cell?, none] at h
    cases h

/-- The numbers of a column in the order of the rows. -/
def numbers (t : Table) (column : String) : List Sample :=
  (List.range t.size).filterMap (t.number? column)

theorem mem_numbers : s ∈ t.numbers column ↔ ∃ row, t.number? column row = some s := by
  rw [numbers, List.mem_filterMap]
  refine exists_congr fun row => and_iff_right_of_imp fun h => ?_
  exact List.mem_range.2 (lt_size_of_number? h)

theorem isNaN_of_mem_numbers (h : s ∈ t.numbers column) : Binary64.isNaN s.value = false := by
  obtain ⟨row, h⟩ := mem_numbers.1 h
  exact isNaN_of_number? h

theorem filter_ofColumn (t : Table) (column : String) :
    (Sample.ofColumn (t.column column)).filter (fun s => !Binary64.isNaN s.value) =
      t.numbers column := by
  have cells : t.column column = (List.range t.size).map fun row => t.cell? row column := by
    refine List.ext_getElem (by simp [Table.column, size]) fun row inside _ => ?_
    simp [Table.column, cell?] at inside ⊢
    simp [inside]
  rw [Sample.ofColumn, List.filter_filterMap, cells, List.filterMap_map]
  rfl

/-- The row holds a number that no other one of the column beats, and it is the first such row. -/
structure Foremost (beats : Float → Float → Bool) (t : Table) (column : String) (row : Nat)
    (s : Sample) : Prop where
  number : t.number? column row = some s
  unbeaten : ∀ other n, t.number? column other = some n → beats n.value s.value = false
  earliest : ∀ other n, other < row → t.number? column other = some n →
    ∃ further m, t.number? column further = some m ∧ beats m.value n.value = true

theorem foremost_of_leads {key : Sample → Int}
    (hb : ∀ a ∈ t.numbers column, ∀ b ∈ t.numbers column,
      beats a.value b.value = true ↔ key a < key b)
    (h : Sample.Leads key (t.numbers column) s) : ∃ row, t.Foremost beats column row s := by
  have mem := h.mem
  have least : ∀ n ∈ t.numbers column, key s ≤ key n := fun n hn => h.le hn
  obtain ⟨before, after, split, behind, -⟩ := h
  obtain ⟨rows, others, range, rfl, tail⟩ := List.filterMap_eq_append_iff.1 split
  obtain ⟨empty, row, later, rfl, none, number, -⟩ := List.filterMap_eq_cons_iff.1 tail
  refine ⟨row, number, fun other n hn => ?_, fun other n hlt hn => ?_⟩
  · have other := mem_numbers.2 ⟨other, hn⟩
    refine Bool.eq_false_iff.2 fun better => ?_
    have := (hb n other s mem).1 better
    have := least n other
    omega
  · -- the rows behind `row` come after it, so this one is among those with a greater key
    have sorted : (List.range t.size).Pairwise (· < ·) := List.pairwise_lt_range
    have inside := List.mem_range.2 (lt_size_of_number? hn)
    rw [range] at sorted inside
    have earlier : other ∈ rows := by
      rcases List.mem_append.1 inside with earlier | hm
      · exact earlier
      rcases List.mem_append.1 hm with hm | hm
      · rw [none other hm] at hn
        cases hn
      · have behind := (List.pairwise_append.1 (List.pairwise_append.1 sorted).2.1).2.1
        rcases List.mem_cons.1 hm with rfl | hm
        · omega
        · have := (List.pairwise_cons.1 behind).1 other hm
          omega
    have greater := behind n (List.mem_filterMap.2 ⟨other, earlier, hn⟩)
    exact ⟨row, s, number, (hb s mem n (mem_numbers.2 ⟨other, hn⟩)).2 greater⟩

theorem foremost_best (key : Sample → Int)
    (hb : ∀ a ∈ t.numbers column, ∀ b ∈ t.numbers column,
      beats a.value b.value = true ↔ key a < key b)
    (hn : t.number? column row = some n) :
    ∃ first s, t.Foremost beats column first s ∧
      Sample.best beats (Sample.ofColumn (t.column column)) = s := by
  have mem := mem_numbers.2 ⟨row, hn⟩
  rw [Sample.best, filter_ofColumn]
  match h : t.numbers column with
  | [] =>
    rw [h] at mem
    cases mem
  | s :: samples =>
    rw [h] at hb
    have leads := Sample.leads_foldl hb
    rw [← h] at hb leads
    obtain ⟨first, foremost⟩ := foremost_of_leads hb leads
    exact ⟨first, _, foremost, rfl⟩

theorem best_of_no_number (beats : Float → Float → Bool)
    (h : ∀ row, t.number? column row = none) :
    Sample.best beats (Sample.ofColumn (t.column column)) = ⟨Binary64.nan, none⟩ := by
  have empty : t.numbers column = [] := List.filterMap_eq_nil_iff.2 fun row _ => h row
  rw [Sample.best, filter_ofColumn, empty]
  rfl

end Table

namespace Reduction

/-- Without a number in a column its extremes are a NaN without an error. Otherwise they are the
numbers, each with its own error, of the first row that none is below and the first that none is
above. -/
theorem reduce_extreme (t : Table) (column : String) :
    ((∀ row, t.number? column row = none) →
      min.reduce (t.column column) = ⟨Binary64.nan, none⟩ ∧
        max.reduce (t.column column) = ⟨Binary64.nan, none⟩) ∧
      ∀ row n, t.number? column row = some n →
        (∃ first s, t.Foremost Binary64.less column first s ∧
          min.reduce (t.column column) = s) ∧
        ∃ first s, t.Foremost (fun x y => Binary64.less y x) column first s ∧
          max.reduce (t.column column) = s := by
  have less : ∀ a ∈ t.numbers column, ∀ b ∈ t.numbers column,
      Binary64.less a.value b.value = true ↔
        Binary64.point a.value < Binary64.point b.value := fun a ha b hb =>
    Binary64.less_iff (Table.isNaN_of_mem_numbers ha) (Table.isNaN_of_mem_numbers hb)
  refine ⟨fun absent => ⟨Table.best_of_no_number Binary64.less absent,
    Table.best_of_no_number (fun x y => Binary64.less y x) absent⟩, fun row n hn => ⟨?_, ?_⟩⟩
  · exact Table.foremost_best (fun s => Binary64.point s.value) less hn
  · refine Table.foremost_best (fun s => -Binary64.point s.value) (fun a ha b hb => ?_) hn
    rw [less b hb a ha]
    omega

def timed (quantity : Scalar) (error : Option Scalar) : Row :=
  .ofList [("time", { Measurement.bare "time" .all quantity with error })]

/-- No number at all: a NaN, a gap and a text. -/
def numberless : Table :=
  [timed (.real Binary64.nan) none, .empty, timed (.text "late") none].foldl Table.push
    (.ofColumns ["time"])

/-- Behind these both zeros, and two integers that are one double. -/
def tied : Table :=
  [timed (.real 0.0) (some (.real 0.5)), timed (.real (-0.0)) none,
    timed (.integer 9007199254740992) (some (.integer 1)),
    timed (.integer 9007199254740993) none].foldl Table.push numberless

theorem reduce_extreme_tied :
    min.reduce (numberless.column "time") = ⟨Binary64.nan, none⟩ ∧
      max.reduce (numberless.column "time") = ⟨Binary64.nan, none⟩ ∧
      tied.number? "time" 4 = some ⟨-0.0, none⟩ ∧
      min.reduce (tied.column "time") = ⟨0.0, some 0.5⟩ ∧
      max.reduce (tied.column "time") = ⟨9007199254740992.0, some 1.0⟩ ∧
      (∃ row, tied.Foremost Binary64.less "time" row ⟨0.0, some 0.5⟩) ∧
      ∃ row, tied.Foremost (fun x y => Binary64.less y x) "time" row
        ⟨9007199254740992.0, some 1.0⟩ := by
  have absent : ∀ row, numberless.number? "time" row = none := by
    rintro (_ | _ | _ | row) <;> rfl
  obtain ⟨least, greatest⟩ := (reduce_extreme numberless "time").1 absent
  have zero : tied.number? "time" 4 = some ⟨-0.0, none⟩ := rfl
  obtain ⟨⟨row, s, first, hmin⟩, row', s', first', hmax⟩ := (reduce_extreme tied "time").2 4 _ zero
  have min : min.reduce (tied.column "time") = ⟨0.0, some 0.5⟩ := by decide +kernel
  have max : max.reduce (tied.column "time") = ⟨9007199254740992.0, some 1.0⟩ := by
    decide +kernel
  exact ⟨least, greatest, zero, min, max, ⟨row, by rwa [← min, hmin]⟩, row', by rwa [← max, hmax]⟩

end Reduction

end ColumnFormula
