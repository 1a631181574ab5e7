/-!
# Kinds

The kind of a scalar, and sets of kinds: what an argument may be and what a formula may
give.
-/

namespace ColumnFormula

inductive Kind where
  | integer
  | real
  | text
  deriving DecidableEq, Repr

namespace Kind

def all : List Kind := [integer, real, text]

def name : Kind → String
  | integer => "Integer"
  | real => "Real"
  | text => "Text"

end Kind

/-- A set of kinds, by membership of each. -/
structure KindSet where
  integer : Bool
  real : Bool
  text : Bool
  deriving DecidableEq, Repr

namespace KindSet

def empty : KindSet := ⟨false, false, false⟩

def numeric : KindSet := ⟨true, true, false⟩

def any : KindSet := ⟨true, true, true⟩

def contains (s : KindSet) : Kind → Bool
  | .integer => s.integer
  | .real => s.real
  | .text => s.text

def single (k : Kind) : KindSet := ⟨k == .integer, k == .real, k == .text⟩

def union (s t : KindSet) : KindSet := ⟨s.integer || t.integer, s.real || t.real, s.text || t.text⟩

def inter (s t : KindSet) : KindSet := ⟨s.integer && t.integer, s.real && t.real, s.text && t.text⟩

def ofList (kinds : List Kind) : KindSet := kinds.foldl (fun s k => s.union (single k)) empty

def members (s : KindSet) : List Kind := Kind.all.filter s.contains

/-- Every member of `s` is one of `t`. -/
def within (s t : KindSet) : Bool := s.members.all t.contains

def isEmpty (s : KindSet) : Bool := s.members.isEmpty

/-- The members in the order integer, real, text, between square brackets. -/
def toText (s : KindSet) : String := "[" ++ ", ".intercalate (s.members.map Kind.name) ++ "]"

@[simp] theorem contains_single (k l : Kind) : (single k).contains l = (k == l) := by
  cases k <;> cases l <;> rfl

@[simp] theorem contains_union (s t : KindSet) (k : Kind) :
    (s.union t).contains k = (s.contains k || t.contains k) := by
  cases k <;> rfl

@[simp] theorem contains_empty (k : Kind) : empty.contains k = false := by cases k <;> rfl

theorem contains_numeric {k : Kind} : numeric.contains k = true ↔ k = .integer ∨ k = .real := by
  cases k <;> simp [numeric, contains]

theorem ext_contains {s t : KindSet} (h : ∀ k, s.contains k = true ↔ t.contains k = true) :
    s = t := by
  have integer := h .integer
  have real := h .real
  have text := h .text
  cases s
  cases t
  simp_all [contains]

theorem mem_members {s : KindSet} {k : Kind} : k ∈ s.members ↔ s.contains k = true := by
  cases k <;> simp [members, Kind.all]

theorem within_iff {s t : KindSet} :
    s.within t = true ↔ ∀ k, s.contains k = true → t.contains k = true := by
  simp [within, List.all_eq_true, mem_members]

end KindSet

end ColumnFormula
