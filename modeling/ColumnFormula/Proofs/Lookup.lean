import Mathlib
import ColumnFormula.Proofs.Provenance
import ColumnFormula.Proofs.Signatures

/-!
# Lookups and flags

`find` and `ifeq` test rows alike: the row that a lookup takes is the first one whose flag is raised
by `ifeq` on the same two columns, and without a raised flag it fails. The cell of that row goes to
all rows as a real, or is absent in all of them, and no later row is tried (`find_iff_flagged`).
-/

namespace ColumnFormula

namespace Strategy

variable {p c : Column} {size row : Nat} {l r : Option Measurement}

/-- The row has a flag, and the flag is one. -/
def Raised (flags : Column) (row : Nat) : Prop :=
  ∃ m, flags.at row = some m ∧ m.quantity = .real 1.0

/-- A flag is raised where both cells are there and agree. -/
theorem flag_raised_iff :
    (∃ m, flag [l, r] = some m ∧ m.quantity = .real 1.0) ↔
      ∃ m n, l = some m ∧ r = some n ∧ m.quantity.agrees n.quantity = true := by
  have apart : (0.0 : Float) ≠ 1.0 := by decide +kernel
  cases l with
  | none => simp [flag]
  | some m =>
    cases r with
    | none => simp [flag]
    | some n =>
      cases h : m.quantity.agrees n.quantity <;> simp [flag, Measurement.withReal, h, apart]

theorem raised_iff :
    Raised (eachRow size fun row => flag [p.at row, c.at row]) row ↔ row < size ∧ Hit p c row := by
  simp only [Raised, at_eachRow, and_assoc, exists_and_left, flag_raised_iff, Hit]

end Strategy

open Strategy

/-- A lookup fails if there are rows and no flag is raised. Otherwise it takes the first row whose
flag is raised: all rows get that row's cell as a real, or nothing if it is absent or a text. -/
theorem find_iff_flagged (t : Table) (x p c whole flagged : String) :
    ∃ flags, Builtin.ifeq.strategy.column flagged [p, c] (t.select [p, c]) = .ok flags ∧
      (Builtin.find.strategy.column whole [x, p, c] (t.select [x, p, c]) =
          .error (.noMatchingRow p c whole) ↔
        0 < t.size ∧ ∀ row, ¬Raised flags row) ∧
      (t.size = 0 → Builtin.find.strategy.column whole [x, p, c] (t.select [x, p, c]) = .ok []) ∧
      ∀ first, Raised flags first → (∀ earlier < first, ¬Raised flags earlier) →
        ∃ cell,
          Builtin.find.strategy.column whole [x, p, c] (t.select [x, p, c]) =
            .ok (List.replicate t.size cell) ∧
          cell = (t.cell? first x).bind Measurement.toReal? ∧
          (cell = none ↔ ∀ m, t.cell? first x = some m → m.kind = .text) ∧
          ∀ m wide, t.cell? first x = some m → cell = some wide →
            wide.origin = m.origin ∧
              ∃ value, m.real? = some value ∧ wide.quantity = .real value := by
  have flags : Builtin.ifeq.strategy.column flagged [p, c] (t.select [p, c]) =
      .ok (eachRow t.size fun row => flag [(t.column p).at row, (t.column c).at row]) :=
    column_select .conditional flagged [p, c] t
  refine ⟨_, flags, ?_⟩
  simp only [raised_iff, not_and]
  have lookup : Builtin.find.strategy.column whole [x, p, c] (t.select [x, p, c]) =
      Strategy.lookup.combine whole [x, p, c] t.size [t.column x, t.column p, t.column c] :=
    column_select .lookup whole [x, p, c] t
  rw [lookup, combine]
  refine ⟨?_, fun none => if_pos none, ?_⟩
  · by_cases rows : t.size = 0
    · rw [if_pos rows]
      exact iff_of_false (fun h => by cases h) fun h => by omega
    · rw [if_neg rows, ← firstMatch?_eq_none_iff]
      cases firstMatch? t.size (t.column p) (t.column c) with
      | none => exact iff_of_true rfl ⟨by omega, rfl⟩
      | some first => exact iff_of_false (fun h => by cases h) fun h => by cases h.2
  · rintro first ⟨inside, hit⟩ missed
    have taken := firstMatch?_eq_some_iff.2 ⟨inside, hit, fun earlier he =>
      missed earlier he (Nat.lt_trans he inside)⟩
    rw [if_neg (by omega), taken]
    refine ⟨_, ?_, rfl, ?_, ?_⟩
    · simp [eachRow, Column.at_column]
    · cases t.cell? first x <;> simp [Measurement.toReal?_eq_none_iff]
    · intro m wide there found
      rw [there] at found
      refine ⟨Measurement.origin_toReal? found, ?_⟩
      obtain ⟨value, error, real, -, rfl⟩ := Measurement.exists_of_toReal? found
      exact ⟨value, real, rfl⟩

def sevenSeconds : Measurement :=
  { name := "time", quantity := .integer 7, error := some (.integer 1), rank := .process 3,
    count := some 4 }

/-- Two nodes are wanted. The first row does not tell its nodes; the other two match, by numbers of
two kinds. -/
def wantedTwo : Table :=
  [Named.ofList [("time", .bare "time" .all (.real 1.0)),
      ("wanted", .bare "wanted" .all (.real 2.0))],
    .ofList [("time", sevenSeconds), ("nodes", .bare "nodes" .all (.integer 2)),
      ("wanted", .bare "wanted" .all (.real 2.0))],
    .ofList [("time", .bare "time" .all (.real 9.0)), ("nodes", .bare "nodes" .all (.real 2.0)),
      ("wanted", .bare "wanted" .all (.integer 2))]].foldl Table.push .empty

def raisedTwice : Column :=
  let flag : Measurement :=
    { Measurement.bare "nodes" .all (.real 1.0) with error := some (.real 0.0) }
  [none, some flag, some flag]

theorem find_iff_flagged_wantedTwo :
    Builtin.ifeq.strategy.column "flags" ["nodes", "wanted"]
        (wantedTwo.select ["nodes", "wanted"]) = .ok raisedTwice ∧
      Raised raisedTwice 1 ∧ (∀ earlier < 1, ¬Raised raisedTwice earlier) ∧
      Builtin.find.strategy.column "found" ["time", "nodes", "wanted"]
          (wantedTwo.select ["time", "nodes", "wanted"]) =
        .ok (List.replicate wantedTwo.size
          (some { sevenSeconds with quantity := .real 7.0, error := some (.real 1.0) })) ∧
      Builtin.find.strategy.column "found" ["time", "machine", "wanted"]
          (wantedTwo.select ["time", "machine", "wanted"]) =
        .error (.noMatchingRow "machine" "wanted" "found") := by
  have raised : Builtin.ifeq.strategy.column "flags" ["nodes", "wanted"]
      (wantedTwo.select ["nodes", "wanted"]) = .ok raisedTwice := by decide +kernel
  have lowered : Builtin.ifeq.strategy.column "flags" ["machine", "wanted"]
      (wantedTwo.select ["machine", "wanted"]) = .ok [none, none, none] := by decide +kernel
  have hit : Raised raisedTwice 1 := ⟨_, rfl, rfl⟩
  have missed : ∀ earlier < 1, ¬Raised raisedTwice earlier := by
    intro earlier he
    obtain rfl : earlier = 0 := by omega
    rintro ⟨m, there, -⟩
    cases there
  have wide : (wantedTwo.cell? 1 "time").bind Measurement.toReal? =
      some { sevenSeconds with quantity := .real 7.0, error := some (.real 1.0) } := by
    decide +kernel
  obtain ⟨flags, made, -, -, taken⟩ :=
    find_iff_flagged wantedTwo "time" "nodes" "wanted" "found" "flags"
  obtain rfl := Except.ok.inj (made.symm.trans raised)
  obtain ⟨cell, found, rfl, -⟩ := taken 1 hit missed
  rw [wide] at found
  obtain ⟨flags, made, unmatched, -⟩ :=
    find_iff_flagged wantedTwo "time" "machine" "wanted" "found" "flags"
  obtain rfl := Except.ok.inj (made.symm.trans lowered)
  refine ⟨raised, hit, missed, found, unmatched.2 ⟨by decide, ?_⟩⟩
  rintro (_ | _ | _ | row) ⟨m, there, -⟩ <;> cases there

end ColumnFormula
