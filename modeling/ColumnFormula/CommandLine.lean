import ColumnFormula.Equation
import ColumnFormula.Formula.Outline
import ColumnFormula.Seed

/-!
# The command line

A run of the program: columns and properties from seeds, one equation, and its column
printed row by row. `Options.run` is the whole program but for reading its arguments and files.
-/

namespace ColumnFormula.CommandLine

structure Options where
  columns : List String := []
  properties : List String := []
  printTree : Bool := false
  /-- Whether the equation is the name of a file that holds it. -/
  file : Bool := false
  equation : String
  deriving DecidableEq, Repr

/-- What a run prints, and its exit code. -/
structure Report where
  code : UInt32 := 0
  output : String := ""
  errors : String := ""
  deriving DecidableEq, Repr

namespace Report

def failure (output message : String) : Report := ⟨1, output, message ++ "\n"⟩

end Report

/-- The schema and table of the seeds: first all columns, then all properties. -/
def Options.seeded (options : Options) : Except SeedError (Schema × Table) :=
  match Seed.addAll Seed.addVariable .metadata options.columns with
  | .error e => .error e
  | .ok (schema, columns) =>
    match Seed.addAll Seed.addProperty schema options.properties with
    | .error e => .error e
    | .ok (schema, properties) => .ok (schema, Seed.table (columns ++ properties))

def cellLine (cell : Option Measurement) : String :=
  match cell with
  | some m => m.quantityText ++ "\n"
  | none => "<absent>\n"

/-- The column's name and its cells, each on a line. -/
def columnLines (t : Table) (name : String) : String :=
  name ++ "\n" ++ String.join ((t.column name).map cellLine)

/-- A run with the text of the equation at hand. -/
def Options.runWith (options : Options) (text : String) : Report :=
  match options.seeded with
  | .error e => .failure "" e.message
  | .ok (schema, table) =>
    match Equation.compile schema text with
    | .error e => .failure "" e.message
    | .ok equation =>
      let tree := if options.printTree then equation.root.outline.render 0 ++ "\n" else ""
      match equation.evaluate table with
      | (.error e, _) => .failure tree e.message
      | (.ok name, table) => ⟨0, tree ++ columnLines table name, ""⟩

/-- A run, given what the file of the equation holds if it can be read. -/
def Options.run (options : Options) (contents : Option String) : Report :=
  if options.file then
    match contents with
    | some text => options.runWith text
    | none => .failure "" ("Failed to read the input file '" ++ options.equation
        ++ "'. Perhaps this file does not exist?")
  else options.runWith options.equation

/-! ## Arguments -/

/-- The value of an option written as one argument. -/
def valueOf? (option argument : String) : Option String :=
  if option.toList.isPrefixOf argument.toList then
    some (String.ofList (argument.toList.drop option.length))
  else none

/-- Reads arguments into options. The equation is the one argument that is no option;
after `--` all arguments are taken as they are. -/
def parse (options : Options) (equation : Option String) : List String → Option Options
  | [] => equation.map fun equation => { options with equation }
  | ["--", text] => if equation.isNone then some { options with equation := text } else none
  | "--column" :: seed :: rest | "-c" :: seed :: rest =>
    parse { options with columns := options.columns ++ [seed] } equation rest
  | "--property" :: seed :: rest | "-p" :: seed :: rest =>
    parse { options with properties := options.properties ++ [seed] } equation rest
  | "--print-tree" :: rest => parse { options with printTree := true } equation rest
  | "--file" :: rest | "-f" :: rest => parse { options with file := true } equation rest
  | argument :: rest =>
    match valueOf? "--column=" argument, valueOf? "--property=" argument with
    | some seed, _ => parse { options with columns := options.columns ++ [seed] } equation rest
    | _, some seed =>
      parse { options with properties := options.properties ++ [seed] } equation rest
    | none, none =>
      if argument.startsWith "-" || equation.isSome then none
      else parse options (some argument) rest

def usage : String :=
  "Usage: [--column NAME=VALUES] [--property FIELD=VALUES] [--print-tree] [--file] EQUATION\n"

end ColumnFormula.CommandLine
