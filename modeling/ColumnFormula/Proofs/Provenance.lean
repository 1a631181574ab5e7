import Mathlib
import ColumnFormula.Proofs.Kinds

/-!
# Where measurements come from

Besides a quantity a measurement tells its origin: what was measured, for which process, how often
and with which error. Operations, and functions that work on single rows by a kernel, change the
quantity alone and keep the origin of their first argument (`Kernel.KeepsOrigin`). So a cell has the
origin of the cell that first arguments lead down to (`Formula.leftmost`), and all other arguments
have a say in its quantity and in whether it is there, but in nothing else (`evaluate_origin`).
-/

namespace ColumnFormula

/-- What a measurement tells besides its quantity. The error counts as a real. -/
structure Origin where
  name : String
  rank : Rank
  error : Option Float
  errorModel : Option ErrorModel
  count : Option Nat
  pauseCount : Option Nat
  deriving DecidableEq

namespace Measurement

variable {m n : Measurement}

def origin (m : Measurement) : Origin :=
  ⟨m.name, m.rank, m.realError?, m.errorModel, m.count, m.pauseCount⟩

@[simp] theorem origin_withQuantity (m : Measurement) (quantity : Scalar) :
    (m.withQuantity quantity).origin = m.origin := rfl

/-- Widening rewrites an error as the real that it counts as. -/
theorem origin_toReal? (h : m.toReal? = some n) : n.origin = m.origin := by
  obtain ⟨value, error, -, counts, rfl⟩ := exists_of_toReal? h
  rw [origin, origin, realError?, counts]

end Measurement

/-! ## Kernels -/

namespace Kernel

/-- What is made of a row has the origin of the first argument. -/
def KeepsOrigin (kernel : Kernel) : Prop :=
  ∀ first rest m, kernel (first :: rest) = some m → m.origin = first.origin

theorem keepsOrigin_unary (f : Float → Float) : (unary f).KeepsOrigin := by
  intro first rest m h
  unfold unary at h
  split at h
  · rename_i x hx
    obtain ⟨rfl, rfl⟩ := List.cons.inj hx
    obtain ⟨wide, hw, h⟩ := Option.bind_eq_some_iff.1 h
    obtain ⟨value, -, h⟩ := Option.bind_eq_some_iff.1 h
    cases h
    rw [Measurement.origin_withQuantity, Measurement.origin_toReal? hw]
  · cases h

theorem keepsOrigin_binary (f : Float → Float → Float) : (binary f).KeepsOrigin := by
  intro first rest m h
  unfold binary at h
  split at h
  · rename_i x y hx
    obtain ⟨rfl, rfl⟩ := List.cons.inj hx
    obtain ⟨wide, hw, h⟩ := Option.bind_eq_some_iff.1 h
    obtain ⟨value, -, h⟩ := Option.bind_eq_some_iff.1 h
    obtain ⟨other, -, h⟩ := Option.bind_eq_some_iff.1 h
    cases h
    rw [Measurement.origin_withQuantity, Measurement.origin_toReal? hw]
  · cases h

theorem keepsOrigin_abs : abs.KeepsOrigin := by
  intro first rest m h
  unfold abs at h
  split at h
  · rename_i x hx
    obtain ⟨rfl, rfl⟩ := List.cons.inj hx
    obtain ⟨quantity, -, rfl⟩ := Option.map_eq_some_iff.1 h
    exact Measurement.origin_withQuantity ..
  · cases h

end Kernel

theorem Operator.keepsOrigin (operator : Operator) : operator.kernel.KeepsOrigin := by
  cases operator with
  | negate => exact Kernel.keepsOrigin_unary _
  | _ => exact Kernel.keepsOrigin_binary _

theorem Builtin.keepsOrigin {function : Builtin} {kernel : Kernel}
    (h : function.strategy = .perRow kernel) : kernel.KeepsOrigin := by
  cases function with
  | abs => cases h; exact Kernel.keepsOrigin_abs
  | cos | log | sin | tan => cases h; exact Kernel.keepsOrigin_unary _
  | pow => cases h; exact Kernel.keepsOrigin_binary _
  | _ => cases h

/-! ## First arguments -/

namespace Formula

mutual

/-- The part that first arguments lead down to, through operations and functions with a kernel. -/
def leftmost : Formula → Formula
  | constant value => constant value
  | var name type => var name type
  | prop identifier column => prop identifier column
  | operation operator operands => leftmostOf (operation operator operands) operands
  | call function arguments =>
    match function.strategy with
    | .perRow _ => leftmostOf (call function arguments) arguments
    | _ => call function arguments

def leftmostOf (whole : Formula) : List Formula → Formula
  | [] => whole
  | x :: _ => x.leftmost

end

variable {root x : Formula} {t u : Table} {row : Nat} {m : Measurement}

theorem keepsOrigin_of_strategy {kernel : Kernel} (h : x.strategy? = some (.perRow kernel)) :
    kernel.KeepsOrigin := by
  cases x with
  | operation operator => cases h; exact operator.keepsOrigin
  | call => exact Builtin.keepsOrigin (Option.some.inj h)
  | _ => cases h

theorem leftmost_reference {column : String} (h : x.reads? = some column) : x.leftmost = x := by
  cases x with
  | var | prop => rfl
  | _ => cases h

theorem leftmost_perRow {kernel : Kernel} (h : x.strategy? = some (.perRow kernel)) :
    x.leftmost = leftmostOf x x.children := by
  cases x with
  | operation => rfl
  | call function arguments =>
    rw [leftmost, Option.some.inj h]
    rfl
  | _ => cases h

theorem leftmost_eq_self {s : Strategy} (h : x.strategy? = some s)
    (other : ∀ kernel, s ≠ .perRow kernel) : x.leftmost = x := by
  cases x with
  | operation => exact absurd (Option.some.inj h).symm (other _)
  | call function arguments =>
    rw [leftmost, Option.some.inj h]
    split
    · exact absurd rfl (other _)
    · rfl
  | _ => cases h

theorem leftmost_mem_parts (x : Formula) : x.leftmost ∈ x.parts := by
  induction x using byKind with
  | constant value => exact self_mem_parts _
  | reference x _ h => rw [leftmost_reference h]; exact self_mem_parts x
  | derivation x s h ih =>
    cases s with
    | perRow kernel =>
      rw [leftmost_perRow h]
      cases hc : x.children with
      | nil => exact self_mem_parts x
      | cons y ys =>
        have hy : y ∈ x.children := hc ▸ List.mem_cons_self
        exact parts_trans (ih y hy) (child_mem_parts hy)
    | _ => rw [leftmost_eq_self h nofun]; exact self_mem_parts x

/-! ## Origins of cells -/

/-- Where the cell of a part is there, so is the one that first arguments lead down to, and both
are of one origin. -/
theorem origin_of_shows (h : Shows root t u) (hx : x ∈ root.parts)
    (hm : u.cell? row x.columnName = some m) :
    ∃ k, u.cell? row x.leftmost.columnName = some k ∧ m.origin = k.origin := by
  induction x using byKind generalizing m with
  | constant value => exact ⟨m, hm, rfl⟩
  | reference x _ hc => rw [leftmost_reference hc]; exact ⟨m, hm, rfl⟩
  | derivation x s hs ih =>
    cases s with
    | perRow kernel =>
      rw [leftmost_perRow hs]
      cases hc : x.children with
      | nil => exact ⟨m, hm, rfl⟩
      | cons y ys =>
        have hy : y ∈ x.children := hc ▸ List.mem_cons_self
        rw [← Column.at_column] at hm
        -- the kernel was given the cells of all arguments, that of `y` first
        cases Strategy.source_of_combine (h.combine hx hs) hm with
        | @computed _ cells there made =>
          rw [hc] at there
          obtain ⟨first, rest, rfl, cell, -⟩ := List.map_eq_cons_iff.1 there.symm
          have cell := (Column.at_column u y.columnName row).symm.trans cell.symm
          obtain ⟨k, hk, same⟩ := ih y hy (parts_trans (child_mem_parts hy) hx) cell
          exact ⟨k, hk, (keepsOrigin_of_strategy hs first rest m made).trans same⟩
    | _ => rw [leftmost_eq_self hs nofun]; exact ⟨m, hm, rfl⟩

/-- A successful evaluation returns the column of its formula, which shows its parts. -/
theorem shows_result (hu : x.Unambiguous) {p : Pass} {name : String}
    (h : (p.evaluate x).1 = .ok name) :
    name = x.columnName ∧ Shows x p.table (p.evaluate x).2.table :=
  ⟨name_of_run (Prod.ext h rfl), shows_of_evaluate hu h⟩

/-- A cell of the result has the origin of the cell in the same row that first arguments lead down
to, which is there as well. Where first arguments lead down to the same column of measurements, the
results are of the same origin, whatever the other arguments are. -/
theorem evaluate_origin (hu : x.Unambiguous) {p : Pass} {name : String}
    (h : (p.evaluate x).1 = .ok name) (hm : (p.evaluate x).2.table.cell? row name = some m) :
    (∃ k, (p.evaluate x).2.table.cell? row x.leftmost.columnName = some k ∧
      m.origin = k.origin) ∧
    ∀ (y : Formula) (q : Pass) (other : String) (n : Measurement), y.Unambiguous →
      (q.evaluate y).1 = .ok other → (q.evaluate y).2.table.cell? row other = some n →
      y.leftmost.denote q.table = x.leftmost.denote p.table → n.origin = m.origin := by
  obtain ⟨rfl, shows⟩ := shows_result hu h
  obtain ⟨k, hk, origin⟩ := origin_of_shows shows (self_mem_parts x) hm
  refine ⟨⟨k, hk, origin⟩, fun y q other n hy hq hn same => ?_⟩
  obtain ⟨rfl, shows'⟩ := shows_result hy hq
  obtain ⟨l, hl, origin'⟩ := origin_of_shows shows' (self_mem_parts y) hn
  rw [shows' _ y.leftmost_mem_parts, shows _ x.leftmost_mem_parts, Except.ok.injEq] at same
  have cell : some l = some k := by
    rw [← hl, ← hk, ← Column.at_column, ← Column.at_column, same]
  rw [origin', origin, Option.some.inj cell]

/-! ## A rate -/

def countVar : Formula := .var "n" ⟨.parameter, .integer⟩

def timeSpent : Formula := .var "time" ⟨.result, .real⟩

/-- The magnitude of a count for each unit of time. -/
def rate : Formula := .operation .divide [.call .abs [countVar], timeSpent]

/-- Three counts of -4, known to the nearest unit, and the time it took. -/
def spent : Table :=
  (Table.ofColumns ["n", "time"]).push
    (.ofList [("n", { Measurement.bare "n" (.process 7) (.integer (-4)) with
        error := some (.integer 1), errorModel := some .pmtm, count := some 3 }),
      ("time", { Measurement.bare "time" .all (.real 2.0) with
        error := some (.real 0.5), count := some 9 })])

theorem rate_unambiguous : rate.Unambiguous := by
  intro y hy z hz h
  simp only [rate, countVar, timeSpent, parts, partsOfAll, List.append_nil, List.cons_append,
    List.nil_append, List.mem_cons, List.not_mem_nil, or_false] at hy hz
  rcases hy with rfl | rfl | rfl | rfl <;> rcases hz with rfl | rfl | rfl | rfl <;>
    first | rfl | exact absurd h (by decide)

theorem countVar_unambiguous : countVar.Unambiguous := by
  intro y hy z hz _
  rw [List.mem_singleton.1 hy, List.mem_singleton.1 hz]

/-- The rate, with the origin of the count. -/
def rateFound : Measurement :=
  { Measurement.bare "n" (.process 7) (.real 2.0) with
    error := some (.real 1.0), errorModel := some .pmtm, count := some 3 }

theorem evaluate_origin_rate : rate.Unambiguous ∧ countVar.Unambiguous ∧
    (Pass.evaluate ⟨spent, []⟩ rate).1 = .ok "abs(n)/time" ∧
    (Pass.evaluate ⟨spent, []⟩ rate).2.table.cell? 0 "abs(n)/time" = some rateFound ∧
    (∃ k, (Pass.evaluate ⟨spent, []⟩ rate).2.table.cell? 0 "n" = some k ∧
      rateFound.origin = k.origin) ∧
    (Pass.evaluate ⟨spent, []⟩ countVar).1 = .ok "n" ∧
    ∃ n, (Pass.evaluate ⟨spent, []⟩ countVar).2.table.cell? 0 "n" = some n ∧
      n.origin = rateFound.origin := by
  have outcome : (Pass.evaluate ⟨spent, []⟩ rate).1 = .ok "abs(n)/time" := rfl
  have found : (Pass.evaluate ⟨spent, []⟩ rate).2.table.cell? 0 "abs(n)/time" =
      some rateFound := by decide +kernel
  have outcome' : (Pass.evaluate ⟨spent, []⟩ countVar).1 = .ok "n" := rfl
  obtain ⟨there, others⟩ := evaluate_origin rate_unambiguous outcome found
  exact ⟨rate_unambiguous, countVar_unambiguous, outcome, found, there, outcome', _, rfl,
    others countVar ⟨spent, []⟩ "n" _ countVar_unambiguous outcome' rfl rfl⟩

end Formula

end ColumnFormula
