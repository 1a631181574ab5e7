import ColumnFormula.Schema
import ColumnFormula.Table
import ColumnFormula.Text.Blank

/-!
# Seeds

Columns given in one line each, as `NAME=VALUES` with commas between the values. A value
is an integer, a real or a text, the first of these that it can be read as; nothing but
blanks is an absent value.
-/

namespace ColumnFormula

structure Seed where
  name : String
  values : List (Option Scalar)
  deriving DecidableEq

inductive SeedError where
  | noValues (seed : String)
  | noName (seed : String)
  deriving DecidableEq, Repr

def SeedError.message : SeedError → String
  | noValues seed => "Expected NAME=VALUES, found '" ++ seed ++ "'."
  | noName seed => "Missing column name in '" ++ seed ++ "'."

/-- The integer of 64 bits or else the real that a text spells, or the text itself. -/
def Scalar.ofText (cs : List Char) : Scalar :=
  match Numeral.integer? cs with
  | some i =>
    if Int64.minValue.toInt ≤ i ∧ i ≤ Int64.maxValue.toInt then integer (Int64.ofInt i)
    else real ((Numeral.real? cs).getD Binary64.nan)
  | none =>
    match Numeral.real? cs with
    | some x => real x
    | none => text (String.ofList cs)

namespace Seed

/-- The parts of a text between the commas. -/
def splitCommas : List Char → List (List Char)
  | [] => [[]]
  | c :: cs =>
    if c = ',' then [] :: splitCommas cs
    else
      match splitCommas cs with
      | part :: parts => (c :: part) :: parts
      | [] => [[c]]

def value? (cs : List Char) : Option Scalar :=
  match Text.trim cs with
  | [] => none
  | item => some (.ofText item)

def read (seed : String) : Except SeedError Seed :=
  let cs := seed.toList
  let name := Text.trim (cs.takeWhile (· ≠ '='))
  match cs.dropWhile (· ≠ '=') with
  | [] => .error (.noValues seed)
  | _ :: values =>
    if name = [] then .error (.noName seed)
    else .ok ⟨String.ofList name, (splitCommas values).map value?⟩

/-- The one kind that describes all values: text if there is a text, else real if there is
a real. -/
def kind (s : Seed) : Kind :=
  let kinds := s.values.filterMap fun v => v.map Scalar.kind
  if kinds.contains .text then .text
  else if kinds.all (· == .integer) then .integer
  else .real

/-- The values as texts. -/
def asTexts (s : Seed) (column : String) : Seed :=
  ⟨column, s.values.map fun v => v.map fun x => .text x.toText⟩

/-- The cells of the seed's column. -/
def cells (s : Seed) : Column := s.values.map fun v => v.map fun x => .bare s.name .all x

/-- The table of some seeds, with as many rows as the longest of them has values. Of two
seeds for one column the later one fills it. -/
def table (seeds : List Seed) : Table :=
  let rows := seeds.foldl (fun n s => max n s.values.length) 0
  seeds.foldl (fun t s => t.put s.name s.cells)
    ⟨(Table.ofColumns (seeds.map Seed.name)).columns, List.replicate rows .empty⟩

/-! ## Seeding a schema -/

/-- A variable of the seed's name, and the seed itself. -/
def addVariable (schema : Schema) (s : Seed) : Schema × Seed :=
  (schema.addVariable s.name .result s.kind, s)

/-- The seed for the column of a property, which is made if there is none of its name. -/
def addProperty (schema : Schema) (s : Seed) : Schema × Seed :=
  match schema.propertyColumn? s.name with
  | some column => (schema, s.asTexts column)
  | none => (schema.addProperty s.name s.name, s.asTexts s.name)

/-- Reads seeds one after the other, each into the schema that the ones before have left. -/
def addAll (add : Schema → Seed → Schema × Seed) (schema : Schema) :
    List String → Except SeedError (Schema × List Seed)
  | [] => .ok (schema, [])
  | text :: texts =>
    match read text with
    | .error e => .error e
    | .ok seed =>
      let (schema, seed) := add schema seed
      match addAll add schema texts with
      | .error e => .error e
      | .ok (schema, seeds) => .ok (schema, seed :: seeds)

end Seed

end ColumnFormula
