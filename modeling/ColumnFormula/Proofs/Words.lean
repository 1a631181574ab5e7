import ColumnFormula.Proofs.Compiled
import ColumnFormula.Proofs.Number.ReadBack

/-!
# Words in names of columns

Names of columns are made of words: numbers, texts in quotes, names of columns that are read
and names of functions. `word` takes the first word of a name. It does not need to know where
the word ends, as long as an operator, a bracket or a comma comes next: all the words of a
formula over ordinary names are closed in this sense (`Closed`).
-/

namespace ColumnFormula

/-! ## Taking the first word -/

/-- The characters that end a word. -/
def delimiters : List Char := ['+', '-', '*', '/', '(', ')', ',']

def Delimited (r : List Char) : Prop := ∀ c ∈ r.head?, c ∈ delimiters

/-- Letters, the underscore, and whatever is no ASCII character. -/
def isNameStart (c : Char) : Bool := c.isAlpha || c == '_' || 128 ≤ c.val

def isNameChar (c : Char) : Bool := isNameStart c || c.isDigit || c == ' '

/-- Whether a character of a numeral may follow another. A minus follows an `e` only. -/
def follows (previous c : Char) : Bool := c.isAlphanum || c == '.' || (c == '-' && previous == 'e')

/-- The rest of a numeral after `previous`. -/
def numeralFrom (previous : Char) : List Char → List Char
  | [] => []
  | c :: cs => if follows previous c then c :: numeralFrom c cs else []

def word : List Char → List Char
  | [] => []
  | c :: cs =>
    if c = '"' then c :: (cs.takeWhile (· ≠ '"') ++ ['"'])
    else if c = '-' ∨ c.isDigit then c :: numeralFrom c cs
    else (c :: cs).takeWhile isNameChar

/-- A word that is found again whatever delimiter comes next. -/
def Closed (w : List Char) : Prop := ∀ r, Delimited r → word (w ++ r) = w

variable {v w r s : List Char}

theorem Closed.unique (hv : Closed v) (hw : Closed w) (hr : Delimited r) (hs : Delimited s)
    (h : v ++ r = w ++ s) : v = w ∧ r = s := by
  have same : v = w := by rw [← hv r hr, h, hw s hs]
  subst same
  exact ⟨rfl, List.append_cancel_left h⟩

/-! ## Names -/

theorem isNameChar_of_delimited (hr : Delimited r) : ∀ c ∈ r.head?, isNameChar c = false := by
  intro c hc
  have := hr c hc
  simp only [delimiters, List.mem_cons, List.not_mem_nil, or_false] at this
  rcases this with rfl | rfl | rfl | rfl | rfl | rfl | rfl <;> decide

theorem le_toNat_of_isAlpha {c : Char} (h : c.isAlpha = true) : 'A'.toNat ≤ c.toNat := by
  rcases Bool.or_eq_true_iff.1 h with upper | lower
  · exact UInt32.le_iff_toNat_le.1 (of_decide_eq_true upper).1
  · have low := of_decide_eq_true (Bool.and_eq_true_iff.1 lower).1
    exact Nat.le_trans (by decide) (UInt32.le_iff_toNat_le.1 low)

theorem isDigit_of_nameStart {c : Char} (h : isNameStart c = true) : c.isDigit = false := by
  rw [Bool.eq_false_iff]
  intro digit
  have high : c.toNat ≤ 57 := (Char.isDigit_iff_toNat.1 digit).2
  rcases Bool.or_eq_true_iff.1 h with h | h
  · rcases Bool.or_eq_true_iff.1 h with alpha | underscore
    · have : 65 ≤ c.toNat := le_toNat_of_isAlpha alpha
      omega
    · rw [eq_of_beq underscore] at digit
      exact absurd digit (by decide)
  · have : 128 ≤ c.toNat := UInt32.le_iff_toNat_le.1 (of_decide_eq_true h)
    omega

theorem closed_of_nameChars {c : Char} (hw : (c :: w).all isNameChar = true)
    (hc : isNameStart c = true) : Closed (c :: w) := by
  intro r hr
  have quote : c ≠ '"' := by rintro rfl; exact absurd hc (by decide)
  have number : ¬(c = '-' ∨ c.isDigit = true) := by
    rintro (rfl | digit)
    · exact absurd hc (by decide)
    · rw [isDigit_of_nameStart hc] at digit
      cases digit
  rw [List.cons_append, word, if_neg quote, if_neg number, ← List.cons_append]
  exact Numeral.takeWhile_stop (List.all_eq_true.1 hw) (isNameChar_of_delimited hr)

/-- A name that looks like no other word. -/
structure Ordinary (name : String) : Prop where
  start : ∃ c cs, name.toList = c :: cs ∧ isNameStart c = true
  inside : ∀ c ∈ name.toList, isNameChar c = true
  not_number : name ≠ "inf" ∧ name ≠ "NaN"

theorem Ordinary.closed {name : String} (h : Ordinary name) : Closed name.toList := by
  obtain ⟨c, cs, hn, hc⟩ := h.start
  have inside := h.inside
  rw [hn] at inside ⊢
  exact closed_of_nameChars (List.all_eq_true.2 inside) hc

theorem ordinary_function (f : Builtin) : Ordinary f.name := by
  cases f <;> exact ⟨⟨_, _, rfl, by decide⟩, List.all_eq_true.1 (by decide), by decide⟩

/-! ## Texts -/

theorem toList_text (text : String) :
    (Scalar.text text).columnName.toList = '"' :: (text.toList ++ ['"']) := by
  simp [Scalar.columnName]

theorem closed_text {text : String} (h : Quotable text) :
    Closed (Scalar.text text).columnName.toList := by
  intro r _
  rw [toList_text, List.cons_append, word, if_pos rfl, List.append_assoc,
    List.takeWhile_append_of_pos fun c hc => by
      simp only [decide_eq_true_eq]
      rintro rfl
      exact h hc]
  simp

/-! ## Numbers -/

/-- A numeral can go on like this after `previous`, and does not end in an `e`. -/
def Chained : Char → List Char → Prop
  | previous, [] => previous ≠ 'e'
  | previous, c :: cs => follows previous c = true ∧ Chained c cs

theorem numeralFrom_append {previous : Char} (hw : Chained previous w) (hr : Delimited r) :
    numeralFrom previous (w ++ r) = w := by
  induction w generalizing previous with
  | nil =>
    cases r with
    | nil => rfl
    | cons c r =>
      -- a minus would go on only after an `e`, and no numeral ends in one
      have stop : follows previous c = false := by
        have := hr c rfl
        simp only [delimiters, List.mem_cons, List.not_mem_nil, or_false] at this
        have plain : (previous == 'e') = false := beq_false_of_ne hw
        rcases this with rfl | rfl | rfl | rfl | rfl | rfl | rfl <;>
          simp [follows, plain]
      simp [numeralFrom, stop]
  | cons c w ih =>
    rw [List.cons_append, numeralFrom, if_pos hw.1, ih hw.2]

theorem closed_of_chained {c : Char} (hc : c = '-' ∨ c.isDigit = true) (hw : Chained c w) :
    Closed (c :: w) := by
  intro r hr
  have quote : c ≠ '"' := by rintro rfl; exact absurd hc (by decide)
  rw [List.cons_append, word, if_neg quote, if_pos hc, numeralFrom_append hw hr]

theorem follows_digit {previous c : Char} (h : c.isDigit = true) : follows previous c = true := by
  simp [follows, Char.isAlphanum, h]

theorem ne_e_of_digit {c : Char} (h : c.isDigit = true) : c ≠ 'e' := by
  rintro rfl
  exact absurd h (by decide)

open Numeral

variable {previous : Char}

theorem chained_append {ds : List Char} (hd : Digits ds) (hp : previous ≠ 'e')
    (hw : ∀ c, c ≠ 'e' → Chained c w) : Chained previous (ds ++ w) := by
  induction ds generalizing previous with
  | nil => exact hw previous hp
  | cons c ds ih =>
    have split := List.forall_mem_cons.1 hd
    exact ⟨follows_digit split.1, ih split.2 (ne_e_of_digit split.1)⟩

theorem chained_digits (previous : Char) {ds : List Char} (hd : Digits ds) (hne : ds ≠ []) :
    Chained previous ds := by
  cases ds with
  | nil => exact absurd rfl hne
  | cons c ds =>
    have split := List.forall_mem_cons.1 hd
    have rest := chained_append (w := []) split.2 (ne_e_of_digit split.1) fun _ h => h
    rw [List.append_nil] at rest
    exact ⟨follows_digit split.1, rest⟩

theorem chained_exponent (i : Int) : Chained 'e' (ofInt i) := by
  have digits := fun previous =>
    chained_digits previous (digits_ofNat i.natAbs) (ofNat_ne_nil _)
  unfold ofInt
  split
  · exact ⟨rfl, digits '-'⟩
  · exact digits 'e'

theorem chained_shape (h : Numeral.Shape w) (hp : previous ≠ 'e') : Chained previous w := by
  have point : ∀ c, follows c '.' = true := fun c => by simp [follows]
  have letter : ∀ c, follows c 'e' = true := fun c => by simp [follows, Char.isAlphanum]
  cases h with
  | infinite => exact ⟨by simp [follows, Char.isAlphanum], rfl, rfl, show 'f' ≠ 'e' by decide⟩
  | pointed hd _ he hne =>
    exact chained_append hd hp fun c _ => ⟨point c, chained_digits '.' he hne⟩
  | @power c i hc => exact ⟨follows_digit hc, letter c, chained_exponent i⟩
  | @pointedPower c _ i hc he _ =>
    refine ⟨follows_digit hc, point c, chained_append he (by decide) fun d _ => ?_⟩
    exact ⟨letter d, chained_exponent i⟩

theorem ofNat_cons (n : Nat) : ∃ c cs, ofNat n = c :: cs ∧ c.isDigit = true := by
  obtain ⟨c, cs, hc⟩ := List.exists_cons_of_ne_nil (ofNat_ne_nil n)
  exact ⟨c, cs, hc, digits_ofNat n c (hc ▸ List.mem_cons_self)⟩

theorem closed_integer (i : Int) : Closed (ofInt i) := by
  have digits := digits_ofNat i.natAbs
  unfold ofInt
  split
  · exact closed_of_chained (.inl rfl) (chained_digits '-' digits (ofNat_ne_nil _))
  · obtain ⟨c, cs, hn, hc⟩ := ofNat_cons i.natAbs
    rw [hn] at digits ⊢
    have chained := chained_digits ' ' digits (by simp)
    exact closed_of_chained (.inr hc) chained.2

theorem closed_real (x : Float) : Closed (ofReal x) := by
  rcases ofReal_cases x with ⟨-, h⟩ | ⟨-, -, h⟩ | ⟨-, -, h⟩ <;> rw [h]
  · exact closed_of_nameChars (by decide) (by decide)
  · exact closed_of_chained (.inl rfl) (chained_shape (shape_ofMagnitude _) (by decide))
  · have shape := shape_ofMagnitude (Binary64.magnitude x)
    rcases shape.cons with hi | ⟨c, cs, hd, hc⟩
    · rw [hi]
      exact closed_of_nameChars (by decide) (by decide)
    · have chained : Chained ' ' (ofMagnitude (Binary64.magnitude x)) :=
        chained_shape shape (by decide)
      rw [hd] at chained ⊢
      exact closed_of_chained (.inr hc) chained.2

/-! ## Constants -/

/-- A text that occurs in a formula can stand between quotes. -/
def Scalar.Writable : Scalar → Prop
  | text s => Quotable s
  | _ => True

theorem toList_integer (i : Int64) :
    (Scalar.integer i).columnName.toList = ofInt i.toInt := String.toList_ofList

theorem toList_real (x : Float) : (Scalar.real x).columnName.toList = ofReal x :=
  String.toList_ofList

theorem Scalar.closed_columnName {v : Scalar} (h : v.Writable) : Closed v.columnName.toList := by
  cases v with
  | text s => exact closed_text h
  | integer i => rw [toList_integer]; exact closed_integer _
  | real x => rw [toList_real]; exact closed_real _

/-- How a numeral begins, unless it is a name. -/
def Signed (w : List Char) : Prop := ∃ c cs, w = c :: cs ∧ (c = '-' ∨ c.isDigit = true)

theorem signed_ofInt (i : Int) : Signed (ofInt i) := by
  unfold ofInt
  split
  · exact ⟨'-', _, rfl, .inl rfl⟩
  · obtain ⟨c, cs, hn, hc⟩ := ofNat_cons i.natAbs
    exact ⟨c, cs, hn, .inr hc⟩

theorem ofReal_begin (x : Float) :
    ofReal x = ['N', 'a', 'N'] ∨ ofReal x = ['i', 'n', 'f'] ∨ Signed (ofReal x) := by
  rcases ofReal_cases x with ⟨-, h⟩ | ⟨-, -, h⟩ | ⟨-, -, h⟩ <;> rw [h]
  · exact .inl rfl
  · exact .inr (.inr ⟨'-', _, rfl, .inl rfl⟩)
  · rcases (shape_ofMagnitude (Binary64.magnitude x)).cons with hi | ⟨c, cs, hd, hc⟩
    · exact .inr (.inl hi)
    · exact .inr (.inr ⟨c, cs, hd, .inr hc⟩)

theorem Signed.ne_quote (h : Signed w) : w ≠ '"' :: v := by
  rintro rfl
  obtain ⟨c, cs, hc, h⟩ := h
  cases hc
  exact absurd h (by decide)

/-- A real has a character that no integer has. -/
theorem ofInt_ne_ofReal (i : Int) (x : Float) : ofInt i ≠ ofReal x := by
  have plain : ∀ c ∈ ofInt i, c = '-' ∨ c.isDigit = true := by
    intro c hc
    unfold ofInt at hc
    split at hc
    · rcases List.mem_cons.1 hc with rfl | hc
      · exact .inl rfl
      · exact .inr (digits_ofNat _ c hc)
    · exact .inr (digits_ofNat _ c hc)
  have marked : ∀ k, ∃ c ∈ ofMagnitude k, c = '.' ∨ c = 'e' ∨ c = 'i' := by
    intro k
    have shape := shape_ofMagnitude k
    generalize ofMagnitude k = w at shape
    cases shape with
    | infinite => exact ⟨'i', by simp⟩
    | pointed => exact ⟨'.', by simp⟩
    | power => exact ⟨'e', by simp⟩
    | pointedPower => exact ⟨'.', by simp⟩
  intro h
  obtain ⟨c, hc, mark⟩ : ∃ c ∈ ofReal x, c = '.' ∨ c = 'e' ∨ c = 'i' ∨ c = 'N' := by
    rcases ofReal_cases x with ⟨-, h⟩ | ⟨-, -, h⟩ | ⟨-, -, h⟩ <;> rw [h]
    · exact ⟨'N', by simp⟩
    · obtain ⟨c, hc, mark⟩ := marked (Binary64.magnitude x)
      exact ⟨c, List.mem_cons_of_mem _ hc, by grind⟩
    · obtain ⟨c, hc, mark⟩ := marked (Binary64.magnitude x)
      exact ⟨c, hc, by grind⟩
  have := plain c (h ▸ hc)
  rcases mark with rfl | rfl | rfl | rfl <;> exact absurd this (by decide)

theorem ofReal_ne_quote (x : Float) : ofReal x ≠ '"' :: v := by
  rcases ofReal_begin x with h | h | h
  · rw [h]; simp
  · rw [h]; simp
  · exact h.ne_quote

theorem Scalar.columnName_injective {v w : Scalar} (h : v.columnName = w.columnName) : v = w := by
  have h := congrArg String.toList h
  cases v <;> cases w <;> simp only [toList_integer, toList_real, toList_text] at h
  · rw [Int64.toInt_inj.1 (ofInt_injective h)]
  · exact absurd h (ofInt_ne_ofReal _ _)
  · exact absurd h (signed_ofInt _).ne_quote
  · exact absurd h.symm (ofInt_ne_ofReal _ _)
  · rw [ofReal_injective h]
  · exact absurd h (ofReal_ne_quote _)
  · exact absurd h.symm (signed_ofInt _).ne_quote
  · exact absurd h.symm (ofReal_ne_quote _)
  · rw [String.toList_inj.1 (List.append_cancel_right (List.cons.inj h).2)]

/-- A constant does not begin with a bracket. If it begins with a minus, it is infinite or goes
on with a digit. -/
theorem Scalar.columnName_cons (v : Scalar) : ∃ c cs, v.columnName.toList = c :: cs ∧ c ≠ '(' ∧
    (c = '-' → cs = ['i', 'n', 'f'] ∨ ∃ d ds, cs = d :: ds ∧ d.isDigit = true) := by
  have digit : ∀ {c : Char} {P : Prop}, c.isDigit = true → c ≠ '(' ∧ (c = '-' → P) := by
    intro c P hc
    refine ⟨?_, ?_⟩ <;> rintro rfl <;> exact absurd hc (by decide)
  cases v with
  | text s =>
    rw [toList_text]
    exact ⟨'"', _, rfl, by decide, by simp⟩
  | integer i =>
    obtain ⟨c, cs, hn, hc⟩ := ofNat_cons i.toInt.natAbs
    rw [toList_integer, ofInt, hn]
    split
    · exact ⟨'-', _, rfl, by decide, fun _ => .inr ⟨c, cs, rfl, hc⟩⟩
    · exact ⟨c, cs, rfl, digit hc⟩
  | real x =>
    have magnitude := (shape_ofMagnitude (Binary64.magnitude x)).cons
    rw [toList_real]
    rcases ofReal_cases x with ⟨-, h⟩ | ⟨-, -, h⟩ | ⟨-, -, h⟩ <;> rw [h]
    · exact ⟨'N', _, rfl, by decide, by simp⟩
    · exact ⟨'-', _, rfl, by decide, fun _ => magnitude⟩
    · rcases magnitude with hi | ⟨c, cs, hd, hc⟩
      · exact ⟨'i', _, hi, by decide, by simp⟩
      · exact ⟨c, cs, hd, digit hc⟩

theorem Ordinary.not_signed {name : String} (h : Ordinary name) : ¬Signed name.toList := by
  rintro ⟨d, ds, hd, hs⟩
  obtain ⟨c, cs, hn, hc⟩ := h.start
  rw [hn] at hd
  cases hd
  rcases hs with rfl | hs
  · exact absurd hc (by decide)
  · rw [isDigit_of_nameStart hc] at hs
    cases hs

theorem Ordinary.ne_columnName {name : String} (h : Ordinary name) (v : Scalar) :
    name ≠ v.columnName := by
  rintro rfl
  cases v with
  | text s =>
    obtain ⟨c, cs, hn, hc⟩ := h.start
    rw [toList_text] at hn
    cases hn
    exact absurd hc (by decide)
  | integer i => exact h.not_signed (toList_integer i ▸ signed_ofInt _)
  | real x =>
    rcases ofReal_begin x with hx | hx | hx
    · exact h.not_number.2 (String.toList_inj.1 ((toList_real x).trans hx))
    · exact h.not_number.1 (String.toList_inj.1 ((toList_real x).trans hx))
    · exact h.not_signed (toList_real x ▸ hx)

end ColumnFormula
