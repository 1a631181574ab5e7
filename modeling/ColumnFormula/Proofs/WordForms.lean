import ColumnFormula.Proofs.Words

/-!
# Forms of words

What a word of a class looks like, read off its pattern: the characters it may begin with
(`Pattern.first`), all it may hold (`Pattern.chars`) and those it may end in (`Pattern.last`),
and for numerals and quotes the whole form. So no word is of two classes (`class_unique`). What a
word stands for is said by its form (`Denotes`), and a word of a class that may stand in an equation
fails to stand for anything only if it is an integer beyond 64 bits (`token?_cases`).
-/

namespace ColumnFormula

namespace Pattern

variable {p q : Pattern} {accepts : Char → Bool} {c : Char} {w : List Char}

/-! ## Words of composed patterns -/

theorem matches_nothing : Matches nothing w ↔ w = [] :=
  ⟨fun h => by cases h; rfl, fun h => h ▸ .nothing⟩

theorem matches_one : Matches (one accepts) w ↔ ∃ c, w = [c] ∧ accepts c = true := by
  constructor
  · intro h
    cases h with
    | one h => exact ⟨_, rfl, h⟩
  · rintro ⟨c, rfl, h⟩
    exact .one h

theorem matches_char : Matches (char c) w ↔ w = [c] := by
  unfold char
  simp [matches_one]

theorem matches_seq :
    Matches (seq p q) w ↔ ∃ u v, w = u ++ v ∧ Matches p u ∧ Matches q v := by
  constructor
  · intro h
    cases h with
    | seq hu hv => exact ⟨_, _, rfl, hu, hv⟩
  · rintro ⟨u, v, rfl, hu, hv⟩
    exact .seq hu hv

theorem matches_alt : Matches (alt p q) w ↔ Matches p w ∨ Matches q w := by
  constructor
  · intro h
    cases h with
    | left h => exact .inl h
    | right h => exact .inr h
  · exact fun h => h.elim .left .right

theorem matches_optional : Matches (optional p) w ↔ Matches p w ∨ w = [] := by
  rw [optional, matches_alt, matches_nothing]

theorem matches_star_one : Matches (star (one accepts)) w ↔ ∀ c ∈ w, accepts c = true := by
  refine ⟨WordClass.forall_of_matches_star, fun h => ?_⟩
  induction w with
  | nil => exact .done
  | cons c w ih =>
    obtain ⟨first, rest⟩ := List.forall_mem_cons.1 h
    exact .more (.one first) (ih rest)

theorem matches_plus_one :
    Matches (plus (one accepts)) w ↔ w ≠ [] ∧ ∀ c ∈ w, accepts c = true := by
  rw [plus, matches_seq]
  constructor
  · rintro ⟨u, v, rfl, hu, hv⟩
    obtain ⟨c, rfl, hc⟩ := matches_one.1 hu
    exact ⟨by simp, List.forall_mem_cons.2 ⟨hc, matches_star_one.1 hv⟩⟩
  · rintro ⟨hw, h⟩
    obtain ⟨c, w, rfl⟩ := List.exists_cons_of_ne_nil hw
    obtain ⟨first, rest⟩ := List.forall_mem_cons.1 h
    exact ⟨[c], w, rfl, .one first, matches_star_one.2 rest⟩

/-! ## Characters of a pattern -/

/-- The characters that a word may begin with. -/
def first : Pattern → Char → Bool
  | never, _ | nothing, _ => false
  | one accepts, c => accepts c
  | seq p q, c => p.first c || (p.nullable && q.first c)
  | alt p q, c => p.first c || q.first c
  | star p, c => p.first c

/-- The characters that a word may hold. -/
def chars : Pattern → Char → Bool
  | never, _ | nothing, _ => false
  | one accepts, c => accepts c
  | seq p q, c | alt p q, c => p.chars c || q.chars c
  | star p, c => p.chars c

/-- The characters that a word may end in. -/
def last : Pattern → Char → Bool
  | never, _ | nothing, _ => false
  | one accepts, c => accepts c
  | seq p q, c => q.last c || (q.nullable && p.last c)
  | alt p q, c => p.last c || q.last c
  | star p, c => p.last c

theorem first_of_matches (h : Matches p w) (hc : w.head? = some c) : p.first c = true := by
  induction h with
  | nothing | done => cases hc
  | one h => cases hc; exact h
  | @seq p q u v hu hv ihu ihv =>
    rw [first, Bool.or_eq_true, Bool.and_eq_true]
    cases u with
    | nil => exact .inr ⟨nullable_iff.2 hu, ihv hc⟩
    | cons => exact .inl (ihu hc)
  | left _ ih => rw [first, ih hc, Bool.true_or]
  | right _ ih => rw [first, ih hc, Bool.or_true]
  | @more p u v _ _ ihu ihv =>
    cases u with
    | nil => exact ihv hc
    | cons => exact ihu hc

theorem chars_of_matches (h : Matches p w) : ∀ c ∈ w, p.chars c = true := by
  induction h with
  | nothing | done => exact nofun
  | one h => exact List.forall_mem_singleton.2 h
  | seq _ _ ihu ihv =>
    refine List.forall_mem_append.2 ⟨fun c hc => ?_, fun c hc => ?_⟩
    · rw [chars, ihu c hc, Bool.true_or]
    · rw [chars, ihv c hc, Bool.or_true]
  | left _ ih => exact fun c hc => by rw [chars, ih c hc, Bool.true_or]
  | right _ ih => exact fun c hc => by rw [chars, ih c hc, Bool.or_true]
  | more _ _ ihu ihv => exact List.forall_mem_append.2 ⟨ihu, ihv⟩

theorem getLast?_append_cases {u v : List Char} (h : (u ++ v).getLast? = some c) :
    v.getLast? = some c ∨ v = [] ∧ u.getLast? = some c := by
  rw [List.getLast?_append] at h
  cases hv : v.getLast? with
  | none =>
    rw [hv] at h
    exact .inr ⟨List.getLast?_eq_none_iff.1 hv, h⟩
  | some d =>
    rw [hv] at h
    exact .inl h

theorem last_of_matches (h : Matches p w) (hc : w.getLast? = some c) : p.last c = true := by
  induction h with
  | nothing | done => cases hc
  | one h => cases hc; exact h
  | seq _ hv ihu ihv =>
    rw [last, Bool.or_eq_true, Bool.and_eq_true]
    rcases getLast?_append_cases hc with end_v | ⟨rfl, end_u⟩
    · exact .inl (ihv end_v)
    · exact .inr ⟨nullable_iff.2 hv, ihu end_u⟩
  | left _ ih => rw [last, ih hc, Bool.true_or]
  | right _ ih => rw [last, ih hc, Bool.or_true]
  | more _ _ ihu ihv =>
    rcases getLast?_append_cases hc with end_v | ⟨-, end_u⟩
    · exact ihv end_v
    · exact ihu end_u

end Pattern

namespace WordClass

open Pattern Numeral

variable {cls : WordClass} {w : List Char} {mark : Char}

theorem ne_nil_of_matches (h : cls.pattern.Matches w) : w ≠ [] := by
  rintro rfl
  have empty := nullable_iff.2 h
  cases cls <;> cases empty

/-! ## Numerals -/

theorem matches_digits : digits.Matches w ↔ w ≠ [] ∧ Digits w := matches_plus_one

/-- The fraction of a numeral: the way it is written, and its digits. -/
inductive Fraction : List Char → List Char → Prop where
  | none : Fraction [] []
  | point {ds : List Char} : Digits ds → ds ≠ [] → Fraction ('.' :: ds) ds

/-- The power of ten at the end of a numeral: the way it is written, and its exponent. -/
inductive Power : List Char → Int → Prop where
  | none : Power [] 0
  | unsigned {mark : Char} {ds : List Char} : mark = 'e' ∨ mark = 'E' → Digits ds → ds ≠ [] →
      Power (mark :: ds) (Nat.ofDigitChars 10 ds 0)
  | plus {mark : Char} {ds : List Char} : mark = 'e' ∨ mark = 'E' → Digits ds → ds ≠ [] →
      Power (mark :: '+' :: ds) (Nat.ofDigitChars 10 ds 0)
  | minus {mark : Char} {ds : List Char} : mark = 'e' ∨ mark = 'E' → Digits ds → ds ≠ [] →
      Power (mark :: '-' :: ds) (-Nat.ofDigitChars 10 ds 0)

/-- A numeral that is no integer's, and the decimal that it stands for. -/
inductive RealNumeral : List Char → Decimal → Prop where
  | mk {whole written fraction power : List Char} {e : Int} : Digits whole →
      Fraction written fraction → Power power e → whole ≠ [] ∨ fraction ≠ [] →
      written ≠ [] ∨ power ≠ [] →
      RealNumeral (whole ++ written ++ power)
        ⟨Nat.ofDigitChars 10 (whole ++ fraction) 0, e - fraction.length⟩

theorem mark_of_matches (h : exponentMark.Matches w) :
    ∃ mark sign, w = mark :: sign ∧ (mark = 'e' ∨ mark = 'E') ∧
      (sign = [] ∨ sign = ['+'] ∨ sign = ['-']) := by
  obtain ⟨u, v, rfl, hu, hv⟩ := matches_seq.1 h
  obtain ⟨mark, rfl, hm⟩ := matches_one.1 hu
  refine ⟨mark, v, rfl, by simpa using hm, ?_⟩
  rcases matches_optional.1 hv with hv | rfl
  · obtain ⟨sign, rfl, hs⟩ := matches_one.1 hv
    simpa using hs
  · exact .inl rfl

theorem power_of_matches (h : exponent.Matches w) : w ≠ [] ∧ ∃ e, Power w e := by
  obtain ⟨u, ds, rfl, hu, hd⟩ := matches_seq.1 h
  obtain ⟨mark, sign, rfl, hm, hs⟩ := mark_of_matches hu
  obtain ⟨hne, digits⟩ := matches_digits.1 hd
  refine ⟨by simp, ?_⟩
  rcases hs with rfl | rfl | rfl
  · exact ⟨_, .unsigned hm digits hne⟩
  · exact ⟨_, .plus hm digits hne⟩
  · exact ⟨_, .minus hm digits hne⟩

theorem power_of_optional (h : (optional exponent).Matches w) : ∃ e, Power w e := by
  rcases matches_optional.1 h with h | rfl
  · exact (power_of_matches h).2
  · exact ⟨0, .none⟩

theorem numeral_of_matches (h : real.pattern.Matches w) : ∃ d, RealNumeral w d := by
  rcases matches_alt.1 h with h | h
  · obtain ⟨whole, u, rfl, hw, hu⟩ := matches_seq.1 h
    obtain ⟨point, u, rfl, hp, hu⟩ := matches_seq.1 hu
    obtain ⟨fraction, power, rfl, hf, he⟩ := matches_seq.1 hu
    obtain rfl := matches_char.1 hp
    obtain ⟨hne, whole_digits⟩ := matches_digits.1 hw
    obtain ⟨hne', digits⟩ := matches_digits.1 hf
    obtain ⟨e, he⟩ := power_of_optional he
    have form := RealNumeral.mk whole_digits (.point digits hne') he (.inl hne) (.inl (by simp))
    exact ⟨_, by simpa using form⟩
  rcases matches_alt.1 h with h | h
  · obtain ⟨point, u, rfl, hp, hu⟩ := matches_seq.1 h
    obtain ⟨fraction, power, rfl, hf, he⟩ := matches_seq.1 hu
    obtain rfl := matches_char.1 hp
    obtain ⟨hne, digits⟩ := matches_digits.1 hf
    obtain ⟨e, he⟩ := power_of_optional he
    have form := @RealNumeral.mk [] _ _ _ _ nofun (.point digits hne) he (.inr hne)
      (.inl (by simp))
    exact ⟨_, by simpa using form⟩
  · obtain ⟨whole, power, rfl, hw, he⟩ := matches_seq.1 h
    obtain ⟨hne, digits⟩ := matches_digits.1 hw
    obtain ⟨hne', e, he⟩ := power_of_matches he
    have form := RealNumeral.mk digits .none he (.inl hne) (.inr hne')
    exact ⟨_, by simpa using form⟩

theorem Fraction.count_le {written fraction : List Char} (h : Fraction written fraction) :
    written.count '.' ≤ 1 := by
  cases h with
  | none => simp
  | point digits =>
    have point : '.' ∉ fraction := fun h => absurd (digits _ h) (by decide)
    simp [List.count_eq_zero.2 point]

theorem Power.count_eq {power : List Char} {e : Int} (h : Power power e) :
    power.count '.' = 0 := by
  rw [List.count_eq_zero]
  intro point
  cases h with
  | none => cases point
  | unsigned hm digits | plus hm digits | minus hm digits =>
    have := digits '.'
    rcases hm with rfl | rfl <;> simp_all

/-- A real has one point at most. -/
theorem RealNumeral.count_le {d : Decimal} (h : RealNumeral w d) : w.count '.' ≤ 1 := by
  obtain ⟨digits, fraction, power⟩ := h
  have none : '.' ∉ _ := fun h => absurd (digits _ h) (by decide)
  have one := fraction.count_le
  rw [List.count_append, List.count_append, List.count_eq_zero.2 none, power.count_eq]
  omega

/-- A malformed number has a second point, or breaks off after the mark of its exponent. -/
theorem malformed_of_matches (h : malformedNumber.pattern.Matches w) :
    2 ≤ w.count '.' ∨ ∃ c, w.getLast? = some c ∧ c ∈ ['e', 'E', '+', '-'] := by
  rcases matches_alt.1 h with h | h
  · obtain ⟨whole, u, rfl, -, hu⟩ := matches_seq.1 h
    obtain ⟨point, u, rfl, hp, hu⟩ := matches_seq.1 hu
    obtain ⟨fraction, u, rfl, -, hu⟩ := matches_seq.1 hu
    obtain ⟨point', more, rfl, hp', -⟩ := matches_seq.1 hu
    obtain rfl := matches_char.1 hp
    obtain rfl := matches_char.1 hp'
    left
    simp only [List.count_append, List.count_singleton_self]
    omega
  · obtain ⟨whole, u, rfl, -, hu⟩ := matches_seq.1 h
    obtain ⟨fraction, power, rfl, -, hp⟩ := matches_seq.1 hu
    obtain ⟨mark, sign, rfl, hm, hs⟩ := mark_of_matches hp
    right
    rw [← List.append_assoc, List.getLast?_append]
    rcases hs with rfl | rfl | rfl
    · exact ⟨mark, rfl, by rcases hm with rfl | rfl <;> simp⟩
    · exact ⟨'+', by simp, by simp⟩
    · exact ⟨'-', by simp, by simp⟩

/-! ## Quotes -/

/-- What may stand on a line after an opening quote. -/
def Quoted (mark : Char) (inside : List Char) : Prop :=
  ∀ c ∈ inside, c ≠ mark ∧ c ≠ '\r' ∧ c ≠ '\n'

theorem matches_quote :
    (quote mark).Matches w ↔ ∃ inside, w = mark :: inside ∧ Quoted mark inside := by
  have body : ∀ inside : List Char, (star (noneOf [mark, '\r', '\n'])).Matches inside ↔
      Quoted mark inside := fun inside => by
    rw [noneOf, matches_star_one]
    simp [Quoted]
  rw [quote, matches_seq]
  constructor
  · rintro ⟨u, inside, rfl, hu, hi⟩
    obtain rfl := matches_char.1 hu
    exact ⟨inside, rfl, (body inside).1 hi⟩
  · rintro ⟨inside, rfl, hi⟩
    exact ⟨[mark], inside, rfl, matches_char.2 rfl, (body inside).2 hi⟩

theorem matches_closed_quote : (seq (quote mark) (Pattern.char mark)).Matches w ↔
    ∃ inside, w = mark :: (inside ++ [mark]) ∧ Quoted mark inside := by
  rw [matches_seq]
  constructor
  · rintro ⟨u, v, rfl, hu, hv⟩
    obtain ⟨inside, rfl, hi⟩ := matches_quote.1 hu
    obtain rfl := matches_char.1 hv
    exact ⟨inside, rfl, hi⟩
  · rintro ⟨inside, rfl, hi⟩
    exact ⟨mark :: inside, [mark], rfl, matches_quote.2 ⟨inside, rfl, hi⟩, matches_char.2 rfl⟩

/-- An open quote is no closed one. -/
theorem not_quote_of_closed (h : (seq (quote mark) (Pattern.char mark)).Matches w) :
    ¬(quote mark).Matches w := by
  intro h'
  obtain ⟨inside, rfl, -⟩ := matches_closed_quote.1 h
  obtain ⟨more, same, free⟩ := matches_quote.1 h'
  obtain rfl := (List.cons.inj same).2
  exact (free mark (by simp)).1 rfl

/-! ## One class for each word -/

/-- Classes whose words begin alike. -/
inductive Family where
  | numeral
  | text
  | name
  | identifier
  | sign
  | lineBreak
  | blank
  deriving DecidableEq

/-- The family of the words that begin with a character. -/
def Family.of (c : Char) : Family :=
  if c = '"' then text
  else if c = '\'' then name
  else if c ∈ ['+', '-', '*', '/', '(', ')', ','] then sign
  else if c ∈ ['\r', '\n'] then lineBreak
  else if c ∈ [' ', '\t', '\x0c'] then blank
  else if c.isDigit ∨ c = '.' then numeral
  else identifier

def family : WordClass → Family
  | real | integer | malformedNumber => .numeral
  | .text | unterminatedText => .text
  | quotedName | unterminatedName => .name
  | .identifier => .identifier
  | .sign => .sign
  | .lineBreak => .lineBreak
  | .blank => .blank

theorem not_isDigit_of_isAlpha {c : Char} (h : c.isAlpha = true) : c.isDigit = false := by
  rw [Bool.eq_false_iff]
  intro digit
  have low : 65 ≤ c.toNat := le_toNat_of_isAlpha h
  have high : c.toNat ≤ 57 := (Char.isDigit_iff_toNat.1 digit).2
  omega

theorem family_of_number {c : Char} (h : c.isDigit = true ∨ c = '.') :
    Family.of c = .numeral := by
  have other : ∀ d : Char, d.isDigit = false → d ≠ '.' → c ≠ d := by
    rintro d digit point rfl
    exact h.elim (fun h => by rw [digit] at h; cases h) point
  simp [Family.of, h, other]

theorem family_of_letter {c : Char} (h : c.isAlpha = true ∨ c = '_') :
    Family.of c = .identifier := by
  have other : ∀ d : Char, d.isAlpha = false → d ≠ '_' → c ≠ d := by
    rintro d alpha underscore rfl
    exact h.elim (fun h => by rw [alpha] at h; cases h) underscore
  have number : c.isDigit = false := by
    rcases h with alpha | rfl
    · exact not_isDigit_of_isAlpha alpha
    · rfl
  simp [Family.of, number, other]

theorem family_of_matches {c : Char} (h : cls.pattern.Matches (c :: w)) :
    Family.of c = cls.family := by
  have first := first_of_matches h rfl
  cases cls with
  | real | integer | malformedNumber =>
    refine family_of_number ?_
    simp [pattern, digits, digit, plus, exponentMark, Pattern.first, Pattern.char, nullable]
      at first
    grind
  | identifier => exact family_of_letter (by simpa [pattern, Pattern.first, nullable] using first)
  | text | quotedName | unterminatedText | unterminatedName =>
    obtain rfl : c = _ := by
      simpa [pattern, quote, Pattern.first, Pattern.char, nullable] using first
    rfl
  | sign =>
    simp only [pattern, oneOf, Pattern.first, List.contains_iff_mem] at first
    have apart : ∀ d ∈ ['+', '-', '*', '/', '(', ')', ','], d ≠ '"' ∧ d ≠ '\'' := by simp
    unfold Family.of
    rw [if_neg (apart c first).1, if_neg (apart c first).2, if_pos first]
    rfl
  | lineBreak =>
    obtain rfl | rfl : c = '\r' ∨ c = '\n' := by
      simpa [pattern, oneOf, Pattern.first, Pattern.char, nullable] using first
    · rfl
    · rfl
  | blank =>
    obtain rfl | rfl | rfl : c = ' ' ∨ c = '\t' ∨ c = '\x0c' := by
      simpa [pattern, plus, oneOf, Pattern.first, nullable] using first
    · rfl
    · rfl
    · rfl

theorem Fraction.point_mem {written fraction : List Char} (h : Fraction written fraction)
    (hw : written ≠ []) : '.' ∈ written := by
  cases h with
  | none => exact absurd rfl hw
  | point => exact List.mem_cons_self

theorem Power.mark_mem {power : List Char} {e : Int} (h : Power power e) (hp : power ≠ []) :
    'e' ∈ power ∨ 'E' ∈ power := by
  cases h with
  | none => exact absurd rfl hp
  | unsigned hm | plus hm | minus hm => rcases hm with rfl | rfl <;> simp

/-- An integer has neither a point nor a power. -/
theorem not_real_of_integer (h : integer.pattern.Matches w) : ¬real.pattern.Matches w := by
  intro h'
  have digits := (matches_digits.1 h).2
  obtain ⟨d, numeral⟩ := numeral_of_matches h'
  cases numeral with
  | mk _ fraction power _ hne =>
    rcases hne with hw | hp
    · have point := fraction.point_mem hw
      exact absurd (digits '.' (by simp [point])) (by decide)
    · rcases power.mark_mem hp with mark | mark
      · exact absurd (digits 'e' (by simp [mark])) (by decide)
      · exact absurd (digits 'E' (by simp [mark])) (by decide)

theorem not_isDigit_of_broken {c : Char} (h : c ∈ ['e', 'E', '+', '-']) : c.isDigit = false := by
  simp only [List.mem_cons, List.not_mem_nil, or_false] at h
  rcases h with rfl | rfl | rfl | rfl <;> rfl

theorem not_malformed_of_integer (h : integer.pattern.Matches w) :
    ¬malformedNumber.pattern.Matches w := by
  intro h'
  have digits := (matches_digits.1 h).2
  rcases malformed_of_matches h' with points | ⟨c, end_w, hc⟩
  · have point : '.' ∈ w := List.count_pos_iff.1 (by omega)
    exact absurd (digits '.' point) (by decide)
  · have digit := digits c (List.mem_of_getLast? end_w)
    rw [not_isDigit_of_broken hc] at digit
    cases digit

/-- A real has one point at most and ends in a digit. -/
theorem not_malformed_of_real (h : real.pattern.Matches w) :
    ¬malformedNumber.pattern.Matches w := by
  intro h'
  obtain ⟨d, numeral⟩ := numeral_of_matches h
  rcases malformed_of_matches h' with points | ⟨c, end_w, hc⟩
  · have := numeral.count_le
    omega
  · have digit : c.isDigit = true := by
      simpa [pattern, digits, digit, exponent, plus, Pattern.optional, Pattern.last, nullable]
        using last_of_matches h end_w
    rw [not_isDigit_of_broken hc] at digit
    cases digit

/-- A word is of one class only. -/
theorem class_unique {other : WordClass} (h : cls.pattern.Matches w)
    (h' : other.pattern.Matches w) : cls = other := by
  obtain ⟨c, w, rfl⟩ := List.exists_cons_of_ne_nil (ne_nil_of_matches h)
  have same := (family_of_matches h).symm.trans (family_of_matches h')
  cases cls with
  | real => cases other with
    | real => rfl
    | integer => exact absurd h (not_real_of_integer h')
    | malformedNumber => exact absurd h' (not_malformed_of_real h)
    | _ => cases same
  | integer => cases other with
    | integer => rfl
    | real => exact absurd h' (not_real_of_integer h)
    | malformedNumber => exact absurd h' (not_malformed_of_integer h)
    | _ => cases same
  | malformedNumber => cases other with
    | malformedNumber => rfl
    | real => exact absurd h (not_malformed_of_real h')
    | integer => exact absurd h (not_malformed_of_integer h')
    | _ => cases same
  | text => cases other with
    | text => rfl
    | unterminatedText => exact absurd h' (not_quote_of_closed h)
    | _ => cases same
  | unterminatedText => cases other with
    | unterminatedText => rfl
    | text => exact absurd h (not_quote_of_closed h')
    | _ => cases same
  | quotedName => cases other with
    | quotedName => rfl
    | unterminatedName => exact absurd h' (not_quote_of_closed h)
    | _ => cases same
  | unterminatedName => cases other with
    | unterminatedName => rfl
    | quotedName => exact absurd h (not_quote_of_closed h')
    | _ => cases same
  | _ => cases other <;> first | rfl | cases same

/-! ## Meaning -/

theorem digits?_digits (h : Digits w) (hne : w ≠ []) :
    digits? w = some (Nat.ofDigitChars 10 w 0) := if_pos ⟨hne, List.all_eq_true.2 h⟩

theorem Power.exponent?_eq {power : List Char} {e : Int} (h : Power power e) :
    exponent? power = some e := by
  cases h with
  | none => rfl
  | unsigned hm digits hne =>
    simp [exponent?, hm, integer?, sign_digits digits, digits?_digits digits hne]
  | plus hm digits hne | minus hm digits hne =>
    simp [exponent?, hm, integer?, Numeral.sign, digits?_digits digits hne]

theorem Power.head_cases {power : List Char} {e : Int} (h : Power power e) :
    ∀ c ∈ power.head?, c = 'e' ∨ c = 'E' := by
  cases h with
  | none => exact nofun
  | unsigned hm | plus hm | minus hm => exact fun c hc => by cases hc; exact hm

theorem Power.ends {power : List Char} {e : Int} (h : Power power e) : Ends power := by
  intro c hc
  rcases h.head_cases c hc with rfl | rfl <;> rfl

theorem RealNumeral.decimal?_eq {d : Decimal} (h : RealNumeral w d) : decimal? w = some d := by
  obtain ⟨whole, fraction, power, hne, -⟩ := h
  cases fraction with
  | none =>
    have nonempty := hne.resolve_right (absurd rfl)
    have point : ∀ c ∈ List.head? _, c ≠ '.' := fun c hc => by
      rcases power.head_cases c hc with rfl | rfl <;> decide
    rw [List.append_nil, decimal?_whole whole nonempty power.ends fun h => point _ h rfl,
      power.exponent?_eq]
    simp
  | point digits =>
    rw [List.append_assoc, List.cons_append, decimal?_pointed whole digits hne power.ends,
      power.exponent?_eq]
    rfl

/-- What a word of a class stands for: line breaks and blanks for nothing. -/
inductive Denotes : WordClass → List Char → Option Token → Prop where
  | real {w : List Char} {d : Decimal} : RealNumeral w d →
      Denotes real w (some (.real (Binary64.ofMagnitude false d.magnitude)))
  | integer {w : List Char} {i : Int64} : Digits w → w ≠ [] →
      i.toInt = Nat.ofDigitChars 10 w 0 → Denotes integer w (some (.integer i))
  | text {inside : List Char} : Quoted '"' inside →
      Denotes text ('"' :: (inside ++ ['"'])) (some (.text (String.ofList inside)))
  | quotedName {inside : List Char} : Quoted '\'' inside →
      Denotes quotedName ('\'' :: (inside ++ ['\''])) (some (.quotedName (String.ofList inside)))
  | identifier {w : List Char} : Denotes identifier w (some (.identifier (String.ofList w)))
  | plus : Denotes sign ['+'] (some .plus)
  | minus : Denotes sign ['-'] (some .minus)
  | star : Denotes sign ['*'] (some .star)
  | slash : Denotes sign ['/'] (some .slash)
  | leftParen : Denotes sign ['('] (some .leftParen)
  | rightParen : Denotes sign [')'] (some .rightParen)
  | comma : Denotes sign [','] (some .comma)
  | lineBreak {w : List Char} : Denotes lineBreak w none
  | blank {w : List Char} : Denotes blank w none

/-- Why a word of a class stands for nothing that may be in an equation. -/
inductive Refused : WordClass → List Char → Position → SyntaxError → Prop where
  | unterminatedText {w : List Char} {p : Position} :
      Refused unterminatedText w p (.unterminatedText (String.ofList w) p)
  | unterminatedName {w : List Char} {p : Position} :
      Refused unterminatedName w p (.unterminatedName (String.ofList w) p)
  | malformed {w : List Char} {p : Position} :
      Refused malformedNumber w p (.invalidNumber (String.ofList w) p)
  | great {w : List Char} {p : Position} :
      Int64.maxValue.toInt < (Nat.ofDigitChars 10 w 0 : Nat) →
      Refused integer w p (.invalidNumber (String.ofList w) p)

theorem ofNat_eq_of_toInt {n : Nat} {i : Int64} (h : i.toInt = n) : Int64.ofNat n = i := by
  rw [← Int64.ofInt_eq_ofNat, ← h, Int64.ofInt_toInt]

theorem toInt_ofNat {n : Nat} (h : (n : Int) ≤ Int64.maxValue.toInt) :
    (Int64.ofNat n).toInt = n := by
  have bound : Int64.maxValue.toInt = 9223372036854775807 := rfl
  exact Int64.toInt_ofNat_of_lt (by omega)

theorem unquote_eq (mark : Char) (inside : List Char) :
    unquote (mark :: (inside ++ [mark])) = String.ofList inside := by
  simp [unquote]

variable {p : Position} {t : Option Token} {e : SyntaxError}

theorem Denotes.token?_eq (h : Denotes cls w t) : cls.token? w p = .ok t := by
  cases h with
  | real numeral => rw [token?, numeral.decimal?_eq]
  | @integer _ i _ _ value =>
    have small : (Nat.ofDigitChars 10 w 0 : Nat) ≤ Int64.maxValue.toInt := value ▸ i.toInt_le
    rw [token?, if_pos small, ofNat_eq_of_toInt value]
  | text | quotedName => rw [token?, unquote_eq]
  | _ => rfl

theorem Refused.token?_eq (h : Refused cls w p e) : cls.token? w p = .error e := by
  cases h with
  | great large => exact if_neg (Int.not_le.2 large)
  | _ => rfl

/-- A word of a class stands for a token or for nothing, or it is refused. -/
theorem denotes_or_refused (h : cls.pattern.Matches w) (p : Position) :
    (∃ t, Denotes cls w t) ∨ ∃ e, Refused cls w p e := by
  cases cls with
  | real =>
    obtain ⟨d, numeral⟩ := numeral_of_matches h
    exact .inl ⟨_, .real numeral⟩
  | integer =>
    obtain ⟨hne, digits⟩ := matches_digits.1 h
    by_cases small : (Nat.ofDigitChars 10 w 0 : Nat) ≤ Int64.maxValue.toInt
    · exact .inl ⟨_, .integer digits hne (toInt_ofNat small)⟩
    · exact .inr ⟨_, .great (Int.not_le.1 small)⟩
  | text =>
    obtain ⟨inside, rfl, free⟩ := matches_closed_quote.1 h
    exact .inl ⟨_, .text free⟩
  | quotedName =>
    obtain ⟨inside, rfl, free⟩ := matches_closed_quote.1 h
    exact .inl ⟨_, .quotedName free⟩
  | identifier => exact .inl ⟨_, .identifier⟩
  | sign =>
    obtain ⟨c, rfl, hc⟩ := matches_one.1 h
    rw [List.contains_iff_mem] at hc
    simp only [List.mem_cons, List.not_mem_nil, or_false] at hc
    left
    rcases hc with rfl | rfl | rfl | rfl | rfl | rfl | rfl
    · exact ⟨_, .plus⟩
    · exact ⟨_, .minus⟩
    · exact ⟨_, .star⟩
    · exact ⟨_, .slash⟩
    · exact ⟨_, .leftParen⟩
    · exact ⟨_, .rightParen⟩
    · exact ⟨_, .comma⟩
  | unterminatedText => exact .inr ⟨_, .unterminatedText⟩
  | unterminatedName => exact .inr ⟨_, .unterminatedName⟩
  | malformedNumber => exact .inr ⟨_, .malformed⟩
  | lineBreak => exact .inl ⟨_, .lineBreak⟩
  | blank => exact .inl ⟨_, .blank⟩

theorem token?_eq_ok_iff (h : cls.pattern.Matches w) :
    cls.token? w p = .ok t ↔ Denotes cls w t := by
  refine ⟨fun ok => ?_, Denotes.token?_eq⟩
  rcases denotes_or_refused h p with ⟨t', denotes⟩ | ⟨e, refused⟩
  · cases ok.symm.trans denotes.token?_eq
    exact denotes
  · cases ok.symm.trans refused.token?_eq

theorem token?_eq_error_iff (h : cls.pattern.Matches w) :
    cls.token? w p = .error e ↔ Refused cls w p e := by
  refine ⟨fun error => ?_, Refused.token?_eq⟩
  rcases denotes_or_refused h p with ⟨t, denotes⟩ | ⟨e', refused⟩
  · cases error.symm.trans denotes.token?_eq
  · cases error.symm.trans refused.token?_eq
    exact refused

end WordClass

end ColumnFormula
