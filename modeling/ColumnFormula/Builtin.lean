import ColumnFormula.Signature
import ColumnFormula.Strategy

/-!
# Functions

The functions of the formula language: what each takes, what kinds it gives and how it
makes its column.
-/

namespace ColumnFormula

inductive Builtin where
  | abs
  | avg
  | cos
  | find
  | ifeq
  | log
  | max
  | min
  | or
  | pow
  | sin
  | tan
  deriving DecidableEq, Repr

namespace Builtin

/-- All functions, in the order of their names. -/
def all : List Builtin := [abs, avg, cos, find, ifeq, log, max, min, or, pow, sin, tan]

def name : Builtin → String
  | abs => "abs"
  | avg => "avg"
  | cos => "cos"
  | find => "find"
  | ifeq => "ifeq"
  | log => "log"
  | max => "max"
  | min => "min"
  | or => "or"
  | pow => "pow"
  | sin => "sin"
  | tan => "tan"

/-- The function of a name. Letters of the Latin alphabet stand for each other in both cases. -/
def ofName? (name : String) : Option Builtin :=
  all.find? fun f => f.name.toList == name.toList.map Char.toLower

def signature : Builtin → Signature
  | abs => { slots := [⟨.numeric, .any⟩], returns := .arguments }
  | avg | cos | log | max | min | sin | tan => { slots := [⟨.numeric, .any⟩] }
  | find => { slots := [⟨.numeric, .any⟩, ⟨.any, .column⟩, ⟨.any, .constant⟩] }
  | ifeq => { slots := [⟨.any, .any⟩, ⟨.any, .any⟩], comparable := true }
  | or => { slots := [⟨.any, .any⟩, ⟨.any, .any⟩], returns := .arguments }
  | pow => { slots := [⟨.numeric, .any⟩, ⟨.numeric, .any⟩] }

def strategy : Builtin → Strategy
  | abs => .perRow Kernel.abs
  | avg => .aggregate .mean
  | cos => .perRow (.unary Float.cos)
  | find => .lookup
  | ifeq => .conditional
  | log => .perRow (.unary Float.log)
  | max => .aggregate .max
  | min => .aggregate .min
  | or => .coalesce
  | pow => .perRow (.binary Float.pow)
  | sin => .perRow (.unary Float.sin)
  | tan => .perRow (.unary Float.tan)

theorem mem_all (f : Builtin) : f ∈ all := by cases f <;> decide

theorem name_injective {f g : Builtin} (h : f.name.toList = g.name.toList) : f = g := by
  revert h
  cases f <;> cases g <;> decide

/-- A function is found by its name, in whatever case that is written. -/
theorem ofName?_eq_some_iff {name : String} {f : Builtin} :
    ofName? name = some f ↔ f.name.toList = name.toList.map Char.toLower := by
  have named : ∀ {g}, ofName? name = some g → g.name.toList = name.toList.map Char.toLower := by
    intro g h
    rw [ofName?] at h
    have accepted := List.find?_some h
    exact eq_of_beq accepted
  refine ⟨named, fun h => ?_⟩
  cases hg : ofName? name with
  | none => exact absurd (beq_iff_eq.2 h) (List.find?_eq_none.1 hg f (mem_all f))
  | some g => rw [name_injective ((named hg).trans h.symm)]

end Builtin

end ColumnFormula
