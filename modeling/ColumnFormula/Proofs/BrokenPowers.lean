import ColumnFormula.Proofs.Places

/-!
# Powers that break off

The mark of a power, an `e` with or without a sign, wants digits behind it. Where there are none
(`BreaksOff`), a numeral that begins with a digit makes up a malformed number together with the
mark, and is refused. But there is no malformed number that begins with a point and ends in a mark
(`tail_of_matches`): such a numeral is read as far as the mark, and the mark begins a name. So it
depends on how the numeral begins whether a power that breaks off is refused (`scan_breaksOff`).
-/

namespace ColumnFormula

variable {before cs m u v t es power rest : List Char}

namespace WordClass

open Numeral

variable {cls : WordClass}

/-! ## Forms -/

/-- A numeral as it stands before a power. -/
inductive Mantissa : List Char → Prop where
  | whole {ds : List Char} : Digits ds → ds ≠ [] → Mantissa ds
  | pointed {ds es : List Char} : Digits ds → ds ≠ [] → Digits es → es ≠ [] →
      Mantissa (ds ++ '.' :: es)
  | fraction {es : List Char} : Digits es → es ≠ [] → Mantissa ('.' :: es)

/-- The mark of a power, perhaps with a sign, and a text behind it that does not go on with a digit,
nor with a sign where there was none. -/
inductive BreaksOff : List Char → List Char → Prop where
  | bare {mark : Char} {rest : List Char} : mark = 'e' ∨ mark = 'E' → Ends rest →
      (∀ c ∈ rest.head?, c ≠ '+' ∧ c ≠ '-') → BreaksOff [mark] rest
  | signed {mark sign : Char} {rest : List Char} : mark = 'e' ∨ mark = 'E' →
      sign = '+' ∨ sign = '-' → Ends rest → BreaksOff [mark, sign] rest

def isFigure (c : Char) : Bool := c.isDigit || c == '.'

/-- Digits and points. -/
def Figures (w : List Char) : Prop := ∀ c ∈ w, isFigure c = true

/-- No more digits and points. -/
def Halts (t : List Char) : Prop := ∀ c ∈ t.head?, isFigure c = false

theorem figures_of_digits {ds : List Char} (h : Digits ds) : Figures ds := fun c hc => by
  rw [isFigure, h c hc, Bool.true_or]

theorem Mantissa.figures (h : Mantissa m) : Figures m := by
  have point : isFigure '.' = true := rfl
  cases h with
  | whole digits => exact figures_of_digits digits
  | pointed digits _ digits' =>
    exact List.forall_mem_append.2 ⟨figures_of_digits digits,
      List.forall_mem_cons.2 ⟨point, figures_of_digits digits'⟩⟩
  | fraction digits => exact List.forall_mem_cons.2 ⟨point, figures_of_digits digits⟩

theorem Mantissa.ne_nil (h : Mantissa m) : m ≠ [] := by
  cases h with
  | whole _ ne => exact ne
  | pointed | fraction => simp

theorem head_ne_point {ds : List Char} (h : Digits ds) (hne : ds ≠ []) :
    (ds ++ t).head? ≠ some '.' := by
  intro point
  rw [List.head?_append_of_ne_nil _ hne] at point
  exact absurd (h '.' (List.mem_of_head? point)) (by decide)

theorem Mantissa.fraction_of_point (h : Mantissa m) (point : m.head? = some '.') :
    ∃ es, Digits es ∧ es ≠ [] ∧ m = '.' :: es := by
  cases h with
  | whole digits ne => exact absurd point (List.append_nil m ▸ head_ne_point digits ne)
  | pointed digits ne => exact absurd point (head_ne_point digits ne)
  | fraction digits ne => exact ⟨_, digits, ne, rfl⟩

theorem halts_of_mark {mark : Char} (h : mark = 'e' ∨ mark = 'E') : Halts (mark :: t) := by
  intro c hc
  cases hc
  rcases h with rfl | rfl <;> rfl

theorem BreaksOff.halts (h : BreaksOff power rest) : Halts (power ++ rest) := by
  cases h with
  | bare mark | signed mark => exact halts_of_mark mark

/-! ## Where the digits and points end -/

theorem Figures.unique (hu : Figures u) (hv : Halts v) (hm : Figures m) (ht : Halts t)
    (same : u ++ v = m ++ t) : u = m ∧ v = t := by
  obtain rfl : u = m := by rw [← takeWhile_stop hu hv, same, takeWhile_stop hm ht]
  exact ⟨rfl, List.append_cancel_left same⟩

theorem Figures.length_le (hu : Figures u) (ht : Halts t) (same : u ++ v = m ++ t) :
    u.length ≤ m.length := by
  by_contra longer
  obtain ⟨more, rfl, rfl⟩ := exists_more same (Nat.lt_of_not_le longer)
  cases more with
  | nil => simp at longer
  | cons c more =>
    have figure := hu c (by simp)
    rw [ht c rfl] at figure
    cases figure

/-! ## Words of numerals -/

/-- What a word of a numeral ends in, behind its digits and points. -/
inductive Tail (cls : WordClass) (body : List Char) : List Char → Prop where
  | power {tail : List Char} {e : Int} : Power tail e → Tail cls body tail
  | mark {tail : List Char} : exponentMark.Matches tail → cls = malformedNumber →
      body.head? ≠ some '.' → Tail cls body tail

theorem Fraction.figures {written fraction : List Char} (h : Fraction written fraction) :
    Figures written := by
  cases h with
  | none => exact nofun
  | point digits => exact List.forall_mem_cons.2 ⟨rfl, figures_of_digits digits⟩

theorem figures_of_chars {p : Pattern} (h : p.Matches u)
    (hp : ∀ c, p.chars c = true → isFigure c = true) : Figures u :=
  fun c hc => hp c (Pattern.chars_of_matches h c hc)

/-- A malformed number with a mark at its end begins with a digit. No other word of a numeral has
a mark without digits behind it. -/
theorem tail_of_matches (h : cls.pattern.Matches u) (numeral : cls.family = .numeral) :
    ∃ body tail, u = body ++ tail ∧ Figures body ∧ Tail cls body tail := by
  cases cls with
  | integer =>
    exact ⟨u, [], by simp, figures_of_digits (matches_digits.1 h).2, .power .none⟩
  | real =>
    obtain ⟨d, form⟩ := numeral_of_matches h
    obtain ⟨digits, fraction, power, -, -⟩ := form
    have figures := List.forall_mem_append.2 ⟨figures_of_digits digits, fraction.figures⟩
    exact ⟨_, _, rfl, figures, .power power⟩
  | malformedNumber =>
    rcases Pattern.matches_alt.1 h with points | broken
    · refine ⟨u, [], by simp, figures_of_chars points fun c hc => ?_, .power .none⟩
      simp only [Pattern.chars, digits, digit, Pattern.plus, Pattern.char] at hc
      grind [isFigure]
    · obtain ⟨whole, w, rfl, hw, h⟩ := Pattern.matches_seq.1 broken
      obtain ⟨written, tail, rfl, hf, mark⟩ := Pattern.matches_seq.1 h
      obtain ⟨ne, whole_digits⟩ := matches_digits.1 hw
      have figures : Figures written := figures_of_chars hf fun c hc => by
        simp only [Pattern.chars, digits, digit, Pattern.plus, Pattern.optional, Pattern.char] at hc
        grind [isFigure]
      exact ⟨whole ++ written, tail, (List.append_assoc ..).symm,
        List.forall_mem_append.2 ⟨figures_of_digits whole_digits, figures⟩,
        .mark mark rfl (head_ne_point whole_digits ne)⟩
  | _ => cases numeral

/-! ## Nothing longer -/

theorem head_isDigit {ds : List Char} (h : Digits ds) (hne : ds ≠ []) :
    ∃ c, (ds ++ v).head? = some c ∧ c.isDigit = true := by
  obtain ⟨c, ds, rfl⟩ := List.exists_cons_of_ne_nil hne
  exact ⟨c, rfl, h c List.mem_cons_self⟩

/-- There are no digits where a power breaks off. -/
theorem BreaksOff.ne_power {tail : List Char} {e : Int} (broken : BreaksOff power rest)
    (h : Power tail e) (hne : tail ≠ []) : tail ++ v ≠ power ++ rest := by
  intro same
  cases broken with
  | bare _ ends unsigned =>
    cases h with
    | none => exact hne rfl
    | unsigned _ digits ne =>
      obtain ⟨c, head, digit⟩ := head_isDigit digits ne
      cases same
      rw [ends c head] at digit
      cases digit
    | plus =>
      cases same
      exact (unsigned '+' rfl).1 rfl
    | minus =>
      cases same
      exact (unsigned '-' rfl).2 rfl
  | @signed _ sign _ _ hs ends =>
    cases h with
    | none => exact hne rfl
    | unsigned _ digits ne =>
      obtain ⟨c, head, digit⟩ := head_isDigit digits ne
      obtain rfl : sign = c := Option.some.inj
        ((congrArg List.head? (List.cons.inj same).2).symm.trans head)
      rcases hs with rfl | rfl <;> cases digit
    | plus _ digits ne | minus _ digits ne =>
      obtain ⟨c, head, digit⟩ := head_isDigit digits ne
      cases same
      rw [ends c head] at digit
      cases digit

theorem BreaksOff.mark_length_le {tail : List Char} (broken : BreaksOff power rest)
    (h : exponentMark.Matches tail) (same : tail ++ v = power ++ rest) :
    tail.length ≤ power.length := by
  obtain ⟨mark, sign, rfl, -, hs⟩ := mark_of_matches h
  cases broken with
  | bare _ _ unsigned =>
    rcases hs with rfl | rfl | rfl
    · exact Nat.le_refl 1
    · cases same
      exact absurd rfl (unsigned '+' rfl).1
    · cases same
      exact absurd rfl (unsigned '-' rfl).2
  | signed => rcases hs with rfl | rfl | rfl <;> simp

/-- A word goes no further than the digits and points, unless it is a malformed number that begins
with a digit. That goes as far as the mark. -/
theorem BreaksOff.length_le (broken : BreaksOff power rest) (hm : Figures m)
    (accepted : cls.pattern.Matches u) (numeral : cls.family = .numeral)
    (same : u ++ v = m ++ (power ++ rest)) :
    u.length ≤ m.length ∨
      cls = malformedNumber ∧ m.head? ≠ some '.' ∧ u.length ≤ (m ++ power).length := by
  obtain ⟨body, tail, rfl, figures, form⟩ := tail_of_matches accepted numeral
  rw [List.append_assoc] at same
  cases form with
  | power hp =>
    by_cases none : tail = []
    · rw [none, List.append_nil]
      exact .inl (figures.length_le broken.halts same)
    · have halts : Halts (tail ++ v) := by
        obtain ⟨c, tail, rfl⟩ := List.exists_cons_of_ne_nil none
        exact halts_of_mark (hp.head_cases c rfl)
      exact absurd (figures.unique halts hm broken.halts same).2 (broken.ne_power hp none)
  | mark mark malformed first =>
    have halts : Halts (tail ++ v) := by
      obtain ⟨c, sign, rfl, hc, -⟩ := mark_of_matches mark
      exact halts_of_mark hc
    obtain ⟨rfl, behind⟩ := figures.unique halts hm broken.halts same
    have := broken.mark_length_le mark behind
    exact .inr ⟨malformed, first, by simp only [List.length_append]; omega⟩

theorem Mantissa.family_eq (h : Mantissa m) (accepted : cls.pattern.Matches u)
    (same : u ++ v = m ++ t) : cls.family = .numeral := by
  obtain ⟨c, m, rfl⟩ := List.exists_cons_of_ne_nil h.ne_nil
  obtain ⟨d, u, rfl⟩ := List.exists_cons_of_ne_nil (ne_nil_of_matches accepted)
  obtain rfl : d = c := (List.cons.inj same).1
  have figure : d.isDigit = true ∨ d = '.' := by
    simpa [isFigure] using h.figures d List.mem_cons_self
  exact (family_of_matches accepted).symm.trans (family_of_number figure)

theorem BreaksOff.matches_mark (h : BreaksOff power rest) : exponentMark.Matches power := by
  have letter : ∀ {mark : Char}, mark = 'e' ∨ mark = 'E' →
      (Pattern.oneOf ['e', 'E']).Matches [mark] := fun h => .one (by simpa using h)
  cases h with
  | bare mark => exact .seq (letter mark) (.right .nothing)
  | signed mark sign => exact .seq (letter mark) (.left (.one (by simpa using sign)))

theorem Mantissa.matches_malformed (h : Mantissa m) (hm : m.head? ≠ some '.')
    (mark : exponentMark.Matches power) : malformedNumber.pattern.Matches (m ++ power) := by
  cases h with
  | whole digits ne =>
    exact .right (.seq (matches_digits.2 ⟨ne, digits⟩) (.seq (u := []) (.right .nothing) mark))
  | @pointed ds es digits ne digits' ne' =>
    have fraction : (Pattern.seq (.char '.') WordClass.digits).Matches ('.' :: es) :=
      .seq (Pattern.matches_char.2 rfl) (matches_digits.2 ⟨ne', digits'⟩)
    rw [List.append_assoc]
    exact .right (.seq (matches_digits.2 ⟨ne, digits⟩) (.seq (.left fraction) mark))
  | fraction => exact absurd rfl hm

theorem longest_malformed (numeral : Mantissa m) (broken : BreaksOff power rest)
    (hm : m.head? ≠ some '.') : Longest malformedNumber (m ++ power) rest := by
  refine ⟨numeral.matches_malformed hm broken.matches_mark, fun {other u v} accepted same => ?_⟩
  rw [List.append_assoc] at same
  rcases broken.length_le numeral.figures accepted (numeral.family_eq accepted same) same with
    short | ⟨-, -, short⟩
  · rw [List.length_append]
    omega
  · exact short

theorem longest_fraction (digits : Digits es) (hne : es ≠ []) (broken : BreaksOff power rest) :
    Longest real ('.' :: es) (power ++ rest) := by
  have numeral := Mantissa.fraction digits hne
  have accepted : real.pattern.Matches ('.' :: es) := by
    have decimals := matches_digits.2 ⟨hne, digits⟩
    have word := Pattern.Matches.seq (Pattern.matches_char.2 (rfl : ['.'] = ['.']))
      (.seq decimals (.right .nothing : (Pattern.optional exponent).Matches []))
    rw [List.append_nil] at word
    exact .right (.left word)
  refine ⟨accepted, fun {other u v} accepted same => ?_⟩
  rcases broken.length_le numeral.figures accepted (numeral.family_eq accepted same) same with
    short | ⟨-, first, -⟩
  · exact short
  · exact absurd rfl first

/-- A word that begins with a letter is an identifier. -/
theorem exists_longest_identifier {c : Char} (letter : c.isAlpha = true) (cs : List Char) :
    ∃ name after, c :: cs = name ++ after ∧ Longest identifier name after := by
  have accepted : identifier.pattern.Matches (c :: cs.take 0) :=
    .seq (u := [c]) (.one (by simp [letter])) .done
  obtain ⟨cls, n, found, -⟩ := reaches_longest? accepted (Nat.zero_le _)
  have longest := longest_of_longest? found
  have family : Family.identifier = cls.family :=
    (family_of_letter (.inl letter)).symm.trans (family_of_matches longest.accepted)
  obtain rfl : cls = identifier := by cases cls <;> first | rfl | cases family
  exact ⟨_, _, by simp, longest⟩

/-- Read on its own, the mark begins an identifier. -/
theorem BreaksOff.exists_name (broken : BreaksOff power rest) :
    ∃ name after, power ++ rest = name ++ after ∧ Longest identifier name after := by
  cases broken with
  | bare mark | signed mark =>
    rcases mark with rfl | rfl
    · exact exists_longest_identifier rfl _
    · exact exists_longest_identifier rfl _

end WordClass

/-! ## Places behind the start -/

theorem lineBreaks_le_append (v w : List Char) : lineBreaks w ≤ lineBreaks (v ++ w) := by
  induction v with
  | nil => exact Nat.le_refl _
  | cons c v ih => exact Nat.le_trans ih (Nat.le_add_right ..)

theorem Position.behind_eq_start_iff : behind before = start ↔ before = [] := by
  constructor
  · intro h
    obtain ⟨noBreak, noColumn⟩ := Position.mk.inj h
    induction before using List.reverseRecOn with
    | nil => rfl
    | append_singleton before c _ =>
      rw [lastLine_concat] at noColumn
      by_cases hc : isBreak c = true
      · have one : lineBreaks [c] = 1 := by
          rcases (by simpa [isBreak] using hc : c = '\r' ∨ c = '\n') with rfl | rfl <;> rfl
        have := lineBreaks_le_append before [c]
        omega
      · simp [hc] at noColumn
  · rintro rfl
    rfl

namespace Lexeme

open WordClass Numeral

variable {cls : WordClass} {w : List Char} {token : Option Token} {e : SyntaxError}

/-- An error behind a word is not at the start. -/
theorem ne_start_of_word (longest : Longest cls w cs) (denotes : Denotes cls w token)
    (h : scanFrom .start (w ++ cs) = .error e) : e.position? ≠ some .start := by
  have fits : Unsplit [] w := fun h => nomatch h.1
  rw [scanFrom_word longest denotes, show Position.start = .behind [] from rfl,
    after_behind longest fits] at h
  have error : scanFrom (.behind ([] ++ w)) cs = .error e := by
    cases hs : scanFrom (.behind ([] ++ w)) cs with
    | ok => rw [hs] at h; cases h
    | error => rw [hs] at h; exact h
  obtain ⟨ts, q, rest, reads, offends⟩ := offends_of_scanFrom error
  obtain ⟨words, -, -, rfl⟩ := reads.cut (longest.unsplit []) rfl
  rw [offends.position?_eq]
  intro same
  have empty := Position.behind_eq_start_iff.1 (Option.some.inj same)
  exact ne_nil_of_matches longest.accepted (List.append_eq_nil_iff.1 empty).1

/-! ## Scanning -/

/-- From the point on, the numeral is read without the power, and then a name. -/
theorem reads_fraction (digits : Digits es) (hne : es ≠ []) (broken : BreaksOff power rest) :
    ∃ d name after, RealNumeral ('.' :: es) d ∧ power ++ rest = name ++ after ∧ name ≠ [] ∧
      Reads .start ('.' :: es ++ (power ++ rest))
        [⟨.real (Binary64.ofMagnitude false d.magnitude), .start⟩,
          ⟨.identifier (String.ofList name), ⟨1, 1 + ('.' :: es).length⟩⟩]
        ⟨1, 1 + ('.' :: es).length + name.length⟩ after := by
  have number := longest_fraction digits hne broken
  obtain ⟨d, form⟩ := numeral_of_matches number.accepted
  obtain ⟨name, after, split, longest⟩ := broken.exists_name
  refine ⟨d, name, after, form, split, ne_nil_of_matches longest.accepted, ?_⟩
  rw [split] at number ⊢
  exact .word number (.real form) (.word longest .identifier .done)

/-- A text that begins with a numeral and a power that breaks off is refused at its start exactly if
the numeral begins with a digit. What is refused is then the numeral with its power. If the numeral
begins with its point, it is read without the power, and behind it an identifier that begins with
the mark. -/
theorem scan_breaksOff (text : String) (numeral : Mantissa m) (broken : BreaksOff power rest)
    (ht : text.toList = m ++ (power ++ rest)) :
    ((∃ literal, scan text = .error (.invalidNumber literal .start)) ↔ m.head? ≠ some '.') ∧
    (m.head? ≠ some '.' →
      scan text = .error (.invalidNumber (String.ofList (m ++ power)) .start)) ∧
    (m.head? = some '.' → ∃ d name after, RealNumeral m d ∧ power ++ rest = name ++ after ∧
      name ≠ [] ∧
      Reads .start text.toList
        [⟨.real (Binary64.ofMagnitude false d.magnitude), .start⟩,
          ⟨.identifier (String.ofList name), ⟨1, 1 + m.length⟩⟩]
        ⟨1, 1 + m.length + name.length⟩ after) := by
  have refused : m.head? ≠ some '.' →
      scan text = .error (.invalidNumber (String.ofList (m ++ power)) .start) := fun first => by
    rw [scan, ht, ← List.append_assoc]
    exact scanFrom_refused (longest_malformed numeral broken first) .malformed
  refine ⟨⟨?_, fun first => ⟨_, refused first⟩⟩, refused, fun point => ?_⟩
  · rintro ⟨literal, error⟩ point
    obtain ⟨es, digits, ne, rfl⟩ := numeral.fraction_of_point point
    have number := longest_fraction digits ne broken
    obtain ⟨d, form⟩ := numeral_of_matches number.accepted
    rw [scan, ht] at error
    exact ne_start_of_word number (.real form) error rfl
  · obtain ⟨es, digits, ne, rfl⟩ := numeral.fraction_of_point point
    rw [ht]
    exact reads_fraction digits ne broken

theorem scan_breaksOff_bothForms :
    scan "12.5E+ 3" = .error (.invalidNumber "12.5E+" ⟨1, 1⟩) ∧
      ¬∃ literal, scan ".5e*2" = .error (.invalidNumber literal ⟨1, 1⟩) := by
  have twelve : Digits ['1', '2'] := List.all_eq_true.1 rfl
  have five : Digits ['5'] := List.all_eq_true.1 rfl
  have signed : BreaksOff ['E', '+'] [' ', '3'] :=
    .signed (.inr rfl) (.inl rfl) fun c hc => by cases hc; rfl
  have bare : BreaksOff ['e'] ['*', '2'] :=
    .bare (.inl rfl) (fun c hc => by cases hc; rfl) fun c hc => by cases hc; decide
  obtain ⟨-, refused, -⟩ :=
    scan_breaksOff "12.5E+ 3" (.pointed twelve nofun five nofun) signed rfl
  obtain ⟨exactly, -, -⟩ := scan_breaksOff ".5e*2" (.fraction five nofun) bare rfl
  exact ⟨refused (by decide), fun error => exactly.1 error rfl⟩

/-- The number is read up to the mark, and nothing is refused. -/
theorem brokenPower_escapes_refusal : Mantissa ['.', '5'] ∧ BreaksOff ['e'] [] ∧
    scan ".5e" =
      .ok [⟨.real 0.5, ⟨1, 1⟩⟩, ⟨.identifier "e", ⟨1, 3⟩⟩, ⟨.endOfText, ⟨1, 4⟩⟩] := by
  have five : Digits ['5'] := List.all_eq_true.1 rfl
  exact ⟨.fraction five nofun, .bare (.inl rfl) nofun nofun, by decide +kernel⟩

end Lexeme

end ColumnFormula
