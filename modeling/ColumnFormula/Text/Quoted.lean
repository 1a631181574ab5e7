import ColumnFormula.Text.Hidden

/-!
# Quoted text

Text between double quotes with all that would not show spelled out: the common control
characters, quotes and backslashes by a backslash and a letter or sign, other hidden
characters by their number.
-/

namespace ColumnFormula.Text

def escapeChar (c : Char) : List Char :=
  if c = '\x00' then ['\\', '0']
  else if c = '\t' then ['\\', 't']
  else if c = '\r' then ['\\', 'r']
  else if c = '\n' then ['\\', 'n']
  else if c = '\\' ∨ c = '"' then ['\\', c]
  else if isHidden c then ['\\', 'u', '\x7b'] ++ Nat.toDigits 16 c.toNat ++ ['\x7d']
  else [c]

def quoted (s : String) : String :=
  String.ofList ('"' :: s.toList.flatMap escapeChar ++ ['"'])

end ColumnFormula.Text
