import ColumnFormula.Kind
import ColumnFormula.Named

/-!
# Schemas

What the names in a formula may stand for: variables, each of a class and a kind, and
properties, which are known by an identifier and stand for a column of texts.
-/

namespace ColumnFormula

/-- Whether a variable was chosen for an experiment or measured in it. -/
inductive VariableClass where
  | parameter
  | result
  deriving DecidableEq, Repr

namespace VariableClass

def name : VariableClass → String
  | parameter => "Parameter"
  | result => "Result"

end VariableClass

structure VariableType where
  cls : VariableClass
  kind : Kind
  deriving DecidableEq, Repr

structure Schema where
  vars : Named VariableType
  props : Named String
  deriving DecidableEq

namespace Schema

def empty : Schema := ⟨.empty, .empty⟩

instance : Inhabited Schema := ⟨empty⟩

def addVariable (s : Schema) (name : String) (cls : VariableClass) (kind : Kind) : Schema :=
  { s with vars := s.vars.insert name ⟨cls, kind⟩ }

def addProperty (s : Schema) (identifier column : String) : Schema :=
  { s with props := s.props.insert identifier column }

def variableType? (s : Schema) (name : String) : Option VariableType := s.vars.get? name

/-- The column of a property, given by its identifier or else by the column itself. -/
def propertyColumn? (s : Schema) (name : String) : Option String :=
  match s.props.get? name with
  | some column => some column
  | none => if s.props.entries.any (·.2 == name) then some name else none

/-- A property is known by its identifier or, if no property has that identifier, by its column. -/
theorem propertyColumn?_eq_some_iff {s : Schema} {name column : String} :
    s.propertyColumn? name = some column ↔
      s.props.get? name = some column ∨
        s.props.get? name = none ∧ column = name ∧
          ∃ identifier, s.props.get? identifier = some name := by
  have known : s.props.entries.any (·.2 == name) = true ↔
      ∃ identifier, s.props.get? identifier = some name := by
    rw [List.any_eq_true]
    constructor
    · rintro ⟨entry, he, same⟩
      exact ⟨entry.1, Named.get?_of_mem (eq_of_beq same ▸ he)⟩
    · rintro ⟨identifier, h⟩
      exact ⟨_, Named.mem_of_get? h, beq_self_eq_true name⟩
  rw [propertyColumn?, ← known]
  cases s.props.get? name with
  | some other => simp
  | none =>
    by_cases any : s.props.entries.any (·.2 == name) = true
    · simp [any, eq_comm]
    · simp [any]

/-- The properties that describe where a measurement was taken. -/
def metadata : Schema :=
  [("Application", "application"), ("Compiler", "compiler"), ("MPI", "mpi"),
    ("Machine", "machine"), ("OperatingSystem", "operatingSystem"),
    ("Processor", "processor")].foldl (fun s (identifier, column) =>
      s.addProperty identifier column) empty

end Schema

end ColumnFormula
