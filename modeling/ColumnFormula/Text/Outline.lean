/-!
# Outlines

Nested text laid out over lines: the items of a group stand one level deeper than its
ends, each followed by a comma. An empty group stays on one line.
-/

namespace ColumnFormula.Text

inductive Outline where
  | atom (text : String)
  | group (opening : String) (items : List Outline) (closing : String)
  | labelled (label : String) (item : Outline)

namespace Outline

def margin (depth : Nat) : String := String.ofList (List.replicate (4 * depth) ' ')

mutual

/-- The text of an outline whose first line is already indented. -/
def render (depth : Nat) : Outline → String
  | atom text => text
  | group opening [] closing => opening ++ closing
  | group opening (item :: items) closing =>
    opening ++ "\n" ++ renderItem (depth + 1) item ++ renderItems (depth + 1) items
      ++ margin depth ++ closing
  | labelled label item => label ++ ": " ++ render depth item

def renderItem (depth : Nat) (item : Outline) : String :=
  margin depth ++ render depth item ++ ",\n"

def renderItems (depth : Nat) : List Outline → String
  | [] => ""
  | item :: items => renderItem depth item ++ renderItems depth items

end

/-- A group between round brackets that holds one item. -/
def wrapped (name : String) (item : Outline) : Outline := group (name ++ "(") [item] ")"

def record (name : String) (fields : List (String × Outline)) : Outline :=
  group (name ++ " \x7b") (fields.map fun (label, item) => labelled label item) "\x7d"

def list (items : List Outline) : Outline := group "[" items "]"

end Outline

end ColumnFormula.Text
