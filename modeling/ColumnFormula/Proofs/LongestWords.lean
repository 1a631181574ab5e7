import ColumnFormula.Proofs.WordForms

/-!
# Longest words

A text is read word by word, each word the longest of any class that the rest begins with
(`Longest`). `Reads` is such a reading up to some place and `Offends` says what stops one there.
Scanning finds the reading of the whole text, or the place where every reading stops
(`scan_iff_reads`).
-/

namespace ColumnFormula

namespace WordClass

variable {cls other : WordClass} {c : Char} {cs word rest : List Char} {n m : Nat}

/-! ## The longest word -/

/-- A word of a class, and no other that the text begins with is longer. -/
structure Longest (cls : WordClass) (word rest : List Char) : Prop where
  accepted : cls.pattern.Matches word
  greatest : ∀ {other : WordClass} {u v : List Char}, other.pattern.Matches u →
    u ++ v = word ++ rest → u.length ≤ word.length

theorem Longest.unique {word' rest' : List Char} (h : Longest cls word rest)
    (h' : Longest other word' rest') (same : word ++ rest = word' ++ rest') :
    cls = other ∧ word = word' ∧ rest = rest' := by
  have length := Nat.le_antisymm (h'.greatest h.accepted same)
    (h.greatest h'.accepted same.symm)
  obtain ⟨rfl, rfl⟩ := List.append_inj same length
  exact ⟨class_unique h.accepted h'.accepted, rfl, rfl⟩

/-- Cutting off the end of a text leaves the words before it. -/
theorem Longest.truncate {after : List Char} (h : Longest cls word (rest ++ after)) :
    Longest cls word rest :=
  ⟨h.accepted, fun accepted same =>
    h.greatest accepted (by rw [← List.append_assoc, same, List.append_assoc])⟩

/-- A longer beginning of a text goes on into the rest. -/
theorem exists_more {u v : List Char} (h : u ++ v = word ++ rest)
    (longer : word.length < u.length) : ∃ more, u = word ++ more ∧ rest = more ++ v := by
  rcases List.append_eq_append_iff.1 h with ⟨less, hu, -⟩ | more
  · have := congrArg List.length hu
    rw [List.length_append] at this
    omega
  · exact more

/-! ## Finding it -/

/-- The better of the best word so far and the longest word of a class. -/
def better (c : Char) (cs : List Char) (best : Option (WordClass × Nat)) (cls : WordClass) :
    Option (WordClass × Nat) :=
  match (cls.pattern.step c).longest? cs, best with
  | some n, some (other, m) => if m < n then some (cls, n) else some (other, m)
  | some n, none => some (cls, n)
  | none, best => best

theorem longest?_eq_foldl (c : Char) (cs : List Char) :
    longest? c cs = all.foldl (better c cs) none := rfl

theorem mem_all (cls : WordClass) : cls ∈ all := by cases cls <;> decide

/-- The best word so far has `n` characters after its first, or more. -/
def Reaches (n : Nat) (best : Option (WordClass × Nat)) : Prop :=
  ∃ cls m, best = some (cls, m) ∧ n ≤ m

theorem reaches_better {best : Option (WordClass × Nat)} (h : Reaches n best) (cls : WordClass) :
    Reaches n (better c cs best cls) := by
  obtain ⟨other, m, rfl, hm⟩ := h
  unfold better
  split
  · rename_i k _ _ _ same
    cases same
    split
    · exact ⟨cls, k, rfl, by omega⟩
    · exact ⟨other, m, rfl, hm⟩
  · rename_i none
    cases none
  · exact ⟨other, m, rfl, hm⟩

theorem reaches_of_longest {best : Option (WordClass × Nat)}
    (h : (cls.pattern.step c).longest? cs = some n) : Reaches n (better c cs best cls) := by
  unfold better
  rw [h]
  cases best with
  | none => exact ⟨cls, n, rfl, Nat.le_refl n⟩
  | some pair =>
    obtain ⟨other, m⟩ := pair
    by_cases longer : m < n
    · exact ⟨cls, n, if_pos longer, Nat.le_refl n⟩
    · exact ⟨other, m, if_neg longer, by omega⟩

theorem reaches_foldl {classes : List WordClass} {best : Option (WordClass × Nat)}
    (h : Reaches n best) : Reaches n (classes.foldl (better c cs) best) := by
  induction classes generalizing best with
  | nil => exact h
  | cons cls classes ih => exact ih (reaches_better h cls)

theorem reaches_of_mem {classes : List WordClass} {best : Option (WordClass × Nat)}
    (h : (cls.pattern.step c).longest? cs = some n) (hc : cls ∈ classes) :
    Reaches n (classes.foldl (better c cs) best) := by
  induction classes generalizing best with
  | nil => cases hc
  | cons other classes ih =>
    rw [List.foldl_cons]
    rcases List.mem_cons.1 hc with rfl | hc
    · exact reaches_foldl (reaches_of_longest h)
    · exact ih hc

/-- No word that a text begins with is longer than the one that is found. -/
theorem reaches_longest? (h : cls.pattern.Matches (c :: cs.take n)) (hn : n ≤ cs.length) :
    Reaches n (longest? c cs) := by
  rw [longest?_eq_foldl]
  have accepted := Pattern.matches_step.2 h
  cases hl : (cls.pattern.step c).longest? cs with
  | none => exact absurd accepted (Pattern.longest?_eq_none_iff.1 hl n hn)
  | some m =>
    have greatest := (Pattern.longest?_eq_some_iff.1 hl).2.2
    obtain ⟨other, k, hk, hm⟩ := reaches_of_mem hl (mem_all cls)
    have : n ≤ m := Nat.le_of_not_lt fun less => greatest n less hn accepted
    exact ⟨other, k, hk, by omega⟩

theorem le_length_of_longest? (h : longest? c cs = some (cls, n)) : n ≤ cs.length :=
  (Pattern.longest?_eq_some_iff.1 (isBest_longest? c cs cls n h)).1

/-- A word that a text begins with, cut out of the text. -/
theorem eq_take {u v : List Char} (h : u ++ v = c :: cs) (hu : u ≠ []) :
    ∃ n, n ≤ cs.length ∧ u = c :: cs.take n ∧ v = cs.drop n := by
  cases u with
  | nil => exact absurd rfl hu
  | cons d u =>
    obtain ⟨rfl, rfl⟩ := List.cons.inj h
    exact ⟨u.length, by simp, by simp, by simp⟩

theorem longest_of_longest? (h : longest? c cs = some (cls, n)) :
    Longest cls (c :: cs.take n) (cs.drop n) := by
  refine ⟨longest?_matches h, fun {other u v} accepted same => ?_⟩
  rw [List.cons_append, List.take_append_drop] at same
  obtain ⟨m, hm, rfl, -⟩ := eq_take same (ne_nil_of_matches accepted)
  obtain ⟨_, k, found, le⟩ := reaches_longest? accepted hm
  cases h.symm.trans found
  have := le_length_of_longest? h
  simp only [List.length_cons, List.length_take]
  omega

theorem longest_of_found {u : List Char} (h : longest? c (u ++ rest) = some (cls, u.length)) :
    Longest cls (c :: u) rest := by
  simpa using longest_of_longest? h

theorem Longest.longest?_eq (h : Longest cls word rest) (hw : word ++ rest = c :: cs) :
    ∃ n, longest? c cs = some (cls, n) ∧ word = c :: cs.take n ∧ rest = cs.drop n := by
  obtain ⟨n, hn, rfl, rfl⟩ := eq_take hw (ne_nil_of_matches h.accepted)
  obtain ⟨other, m, found, -⟩ := reaches_longest? h.accepted hn
  have longest := longest_of_longest? found
  obtain ⟨rfl, same, same'⟩ := h.unique longest (by simp)
  exact ⟨m, found, same, same'⟩

theorem longest?_eq_none_iff :
    longest? c cs = none ↔
      ∀ (cls : WordClass) (u v : List Char), u ++ v = c :: cs → ¬cls.pattern.Matches u := by
  constructor
  · intro h cls u v same accepted
    obtain ⟨n, hn, rfl, rfl⟩ := eq_take same (ne_nil_of_matches accepted)
    obtain ⟨_, _, found, -⟩ := reaches_longest? accepted hn
    cases h.symm.trans found
  · intro h
    cases hl : longest? c cs with
    | none => rfl
    | some found =>
      have longest := longest_of_longest? hl
      exact absurd longest.accepted (h _ _ (cs.drop found.2) (by simp))

/-! ## Open quotes -/

/-- The end of the text, or of the line. -/
def LineEnds (rest : List Char) : Prop := ∀ c ∈ rest.head?, c = '\r' ∨ c = '\n'

/-- An open quote goes on to the end of the line. -/
theorem lineEnds_of_open {mark : Char} {opened : WordClass} (closed : WordClass)
    (ho : opened.pattern = quote mark) (hc : closed.pattern = .seq (quote mark) (.char mark))
    (h : Longest opened word rest) :
    ∃ inside, word = mark :: inside ∧ Quoted mark inside ∧ LineEnds rest := by
  obtain ⟨inside, rfl, free⟩ := matches_quote.1 (ho ▸ h.accepted)
  refine ⟨inside, rfl, free, fun c first => ?_⟩
  obtain ⟨rest, rfl⟩ := List.head?_eq_some_iff.1 first
  by_contra inLine
  obtain ⟨cr, lf⟩ := not_or.1 inLine
  -- either the quote is closed by the next character, or that is one more of its line
  suffices ∃ other : WordClass, other.pattern.Matches (mark :: (inside ++ [c])) by
    obtain ⟨other, accepted⟩ := this
    have := h.greatest accepted (v := rest) (by simp)
    simp at this
  by_cases hm : c = mark
  · exact ⟨closed, hc ▸ matches_closed_quote.2 ⟨inside, by rw [hm], free⟩⟩
  · have more := List.forall_mem_append.2 ⟨free, List.forall_mem_singleton.2 ⟨hm, cr, lf⟩⟩
    exact ⟨opened, ho ▸ matches_quote.2 ⟨_, rfl, more⟩⟩

/-- Line breaks are in no other words. -/
theorem eq_lineBreak_of_mem (h : cls.pattern.Matches word) (hc : c ∈ word)
    (line : c = '\r' ∨ c = '\n') : cls = lineBreak := by
  have accepted := Pattern.chars_of_matches h c hc
  cases cls with
  | lineBreak => rfl
  | _ => rcases line with rfl | rfl <;> cases accepted

theorem longest_open {mark : Char} {inside : List Char} {opened : WordClass}
    (ho : opened.pattern = quote mark) (hm : Family.of mark ≠ .lineBreak)
    (free : Quoted mark inside) (ends : LineEnds rest) : Longest opened (mark :: inside) rest := by
  refine ⟨ho ▸ matches_quote.2 ⟨inside, rfl, free⟩, fun {other u v} accepted same => ?_⟩
  by_contra longer
  obtain ⟨more, rfl, same'⟩ := exists_more same (Nat.lt_of_not_le longer)
  cases more with
  | nil => simp at longer
  | cons c more =>
    obtain rfl := eq_lineBreak_of_mem accepted (by simp) (ends c (by rw [same']; rfl))
    exact hm (family_of_matches accepted)

end WordClass

/-! ## Readings -/

namespace Lexeme

open WordClass

/-- The words of a text from one place to another, and their lexemes. -/
inductive Reads : Position → List Char → List Lexeme → Position → List Char → Prop where
  | done {p : Position} {cs : List Char} : Reads p cs [] p cs
  | word {p q : Position} {cls : WordClass} {w cs rest : List Char} {token : Option Token}
      {lexemes : List Lexeme} : Longest cls w cs → Denotes cls w token →
      Reads (cls.after w p) cs lexemes q rest →
      Reads p (w ++ cs) ((token.map (⟨·, p⟩)).toList ++ lexemes) q rest

/-- What stands at a place where no word can be read, and the error that it is. -/
inductive Offends (p : Position) : List Char → SyntaxError → Prop where
  | character {c : Char} {cs : List Char} :
      (∀ (cls : WordClass) (u v : List Char), u ++ v = c :: cs → ¬cls.pattern.Matches u) →
      Offends p (c :: cs) (.unexpectedCharacter c p)
  | text {inside rest : List Char} : Quoted '"' inside → LineEnds rest →
      Offends p ('"' :: inside ++ rest) (.unterminatedText (String.ofList ('"' :: inside)) p)
  | name {inside rest : List Char} : Quoted '\'' inside → LineEnds rest →
      Offends p ('\'' :: inside ++ rest) (.unterminatedName (String.ofList ('\'' :: inside)) p)
  | malformed {w rest : List Char} : Longest malformedNumber w rest →
      Offends p (w ++ rest) (.invalidNumber (String.ofList w) p)
  | great {w rest : List Char} : Longest integer w rest →
      Int64.maxValue.toInt < (Nat.ofDigitChars 10 w 0 : Nat) →
      Offends p (w ++ rest) (.invalidNumber (String.ofList w) p)

variable {p q : Position} {cs rest w : List Char} {cls : WordClass} {token : Option Token}
  {ts ls : List Lexeme} {e : SyntaxError}

/-- Scanning takes the longest word and goes on behind it, unless the word is refused. -/
theorem scanFrom_longest (h : Longest cls w rest) : scanFrom p (w ++ rest) =
    (cls.token? w p).bind fun token =>
      (scanFrom (cls.after w p) rest).map ((token.map (⟨·, p⟩)).toList ++ ·) := by
  obtain ⟨c, cs, hw⟩ := List.exists_cons_of_ne_nil
    (List.append_ne_nil_of_left_ne_nil (ne_nil_of_matches h.accepted) rest)
  obtain ⟨n, found, rfl, rfl⟩ := h.longest?_eq hw
  rw [hw, scanFrom, found]
  dsimp only
  cases cls.token? (c :: cs.take n) p with
  | error e => rfl
  | ok token =>
    simp only [Except.bind]
    cases scanFrom (cls.after (c :: cs.take n) p) (cs.drop n) <;> rfl

theorem scanFrom_word (h : Longest cls w rest) (denotes : Denotes cls w token) :
    scanFrom p (w ++ rest) =
      (scanFrom (cls.after w p) rest).map ((token.map (⟨·, p⟩)).toList ++ ·) := by
  rw [scanFrom_longest h, denotes.token?_eq]
  rfl

theorem scanFrom_refused (h : Longest cls w rest) (refused : Refused cls w p e) :
    scanFrom p (w ++ rest) = .error e := by
  rw [scanFrom_longest h, refused.token?_eq]
  rfl

theorem Reads.scanFrom_eq (h : Reads p cs ts q rest) :
    scanFrom p cs = (scanFrom q rest).map (ts ++ ·) := by
  induction h with
  | @done p cs => cases scanFrom p cs <;> rfl
  | @word p q cls w cs rest token lexemes longest denotes _ ih =>
    rw [scanFrom_word longest denotes, ih]
    cases scanFrom q rest with
    | error => rfl
    | ok ls => simp [Except.map]

theorem Offends.scanFrom_eq (h : Offends p cs e) : scanFrom p cs = .error e := by
  cases h with
  | character none => rw [scanFrom, longest?_eq_none_iff.2 none]
  | text free ends =>
    exact scanFrom_refused (longest_open rfl (by decide) free ends) .unterminatedText
  | name free ends =>
    exact scanFrom_refused (longest_open rfl (by decide) free ends) .unterminatedName
  | malformed longest => exact scanFrom_refused longest .malformed
  | great longest large => exact scanFrom_refused longest (.great large)

theorem Reads.scanFrom_end (h : Reads p cs ts q []) :
    scanFrom p cs = .ok (ts ++ [⟨.endOfText, q⟩]) := by
  rw [h.scanFrom_eq, scanFrom]
  rfl

theorem Reads.scanFrom_offence (h : Reads p cs ts q rest) (offends : Offends q rest e) :
    scanFrom p cs = .error e := by
  rw [h.scanFrom_eq, offends.scanFrom_eq]
  rfl

theorem offends_of_refused (h : Longest cls w rest) (refused : Refused cls w p e) :
    Offends p (w ++ rest) e := by
  cases refused with
  | unterminatedText =>
    obtain ⟨inside, rfl, free, ends⟩ := lineEnds_of_open .text rfl rfl h
    exact .text free ends
  | unterminatedName =>
    obtain ⟨inside, rfl, free, ends⟩ := lineEnds_of_open .quotedName rfl rfl h
    exact .name free ends
  | malformed => exact .malformed h
  | great large => exact .great h large

/-- What a reading of the whole text has read by a place is a text of its own. -/
theorem Reads.truncate (h : Reads p cs ts q rest) :
    ∃ before, cs = before ++ rest ∧ Reads p before ts q [] := by
  induction h with
  | done => exact ⟨[], rfl, .done⟩
  | word longest denotes _ ih =>
    obtain ⟨before, rfl, reads⟩ := ih
    exact ⟨_ ++ before, (List.append_assoc ..).symm, .word longest.truncate denotes reads⟩

/-- Every text can be read to its end or to an offence. -/
theorem exists_reads (p : Position) (cs : List Char) :
    ∃ ts q rest, Reads p cs ts q rest ∧ (rest = [] ∨ ∃ e, Offends q rest e) := by
  fun_induction scanFrom p cs with
  | case1 p => exact ⟨[], p, [], .done, .inl rfl⟩
  | case2 p c cs none =>
    exact ⟨[], p, c :: cs, .done, .inr ⟨_, .character (longest?_eq_none_iff.1 none)⟩⟩
  | case3 p c cs cls n found w e error =>
    have longest := longest_of_longest? found
    have offends := offends_of_refused longest ((token?_eq_error_iff longest.accepted).1 error)
    rw [List.cons_append, List.take_append_drop] at offends
    exact ⟨[], p, c :: cs, .done, .inr ⟨e, offends⟩⟩
  | case4 p c cs cls n found w token ok _ _ ih | case5 p c cs cls n found w token ok _ _ ih =>
    have longest := longest_of_longest? found
    have denotes := (token?_eq_ok_iff longest.accepted).1 ok
    obtain ⟨ts, q, rest, reads, stops⟩ := ih
    have reads := Reads.word longest denotes reads
    rw [List.cons_append, List.take_append_drop] at reads
    exact ⟨_, q, rest, reads, stops⟩

theorem reads_of_scanFrom (h : scanFrom p cs = .ok ls) :
    ∃ ts q, Reads p cs ts q [] ∧ ls = ts ++ [⟨.endOfText, q⟩] := by
  obtain ⟨ts, q, rest, reads, rfl | ⟨e, offends⟩⟩ := exists_reads p cs
  · exact ⟨ts, q, reads, Except.ok.inj (h.symm.trans reads.scanFrom_end)⟩
  · cases h.symm.trans (reads.scanFrom_offence offends)

theorem offends_of_scanFrom (h : scanFrom p cs = .error e) :
    ∃ ts q rest, Reads p cs ts q rest ∧ Offends q rest e := by
  obtain ⟨ts, q, rest, reads, rfl | ⟨e', offends⟩⟩ := exists_reads p cs
  · cases h.symm.trans reads.scanFrom_end
  · cases h.symm.trans (reads.scanFrom_offence offends)
    exact ⟨ts, q, rest, reads, offends⟩

/-- A text is scanned by its longest words, each of one class only, to its end or to the first
place where no word can be read. What was read by any place is scanned alike on its own. -/
theorem scan_iff_reads (text : String) :
    (∀ (cls other : WordClass) (w : List Char), cls.pattern.Matches w → other.pattern.Matches w →
      cls = other) ∧
    (∀ ls, scan text = .ok ls ↔
      ∃ ts p, Reads .start text.toList ts p [] ∧ ls = ts ++ [⟨.endOfText, p⟩]) ∧
    (∀ e, scan text = .error e ↔
      ∃ ts p rest, Reads .start text.toList ts p rest ∧ Offends p rest e) ∧
    (∀ before rest ts p, text.toList = before ++ rest → Reads .start text.toList ts p rest →
      scan (String.ofList before) = .ok (ts ++ [⟨.endOfText, p⟩])) := by
  refine ⟨fun cls other w => class_unique, fun ls => ⟨reads_of_scanFrom, ?_⟩,
    fun e => ⟨offends_of_scanFrom, ?_⟩, ?_⟩
  · rintro ⟨ts, p, reads, rfl⟩
    exact reads.scanFrom_end
  · rintro ⟨ts, p, rest, reads, offends⟩
    exact reads.scanFrom_offence offends
  · intro before rest ts p split reads
    obtain ⟨before', split', reads⟩ := reads.truncate
    obtain rfl := List.append_cancel_right (split.symm.trans split')
    rw [scan, String.toList_ofList]
    exact reads.scanFrom_end

/-- The power breaks off, so the whole numeral is refused and not read as a number and a name. -/
theorem scan_iff_reads_brokenPower :
    scan "1+2e" = .error (.invalidNumber "2e" ⟨1, 3⟩) ∧
      scan "1+" = .ok [⟨.integer 1, ⟨1, 1⟩⟩, ⟨.plus, ⟨1, 2⟩⟩, ⟨.endOfText, ⟨1, 3⟩⟩] := by
  have one : Longest integer ['1'] ['+', '2', 'e'] := longest_of_found rfl
  have plus : Longest sign ['+'] ['2', 'e'] := longest_of_found rfl
  have broken : Longest malformedNumber ['2', 'e'] [] := longest_of_found rfl
  have digits : Numeral.Digits ['1'] := List.forall_mem_singleton.2 rfl
  have reads : Reads .start "1+2e".toList [⟨.integer 1, ⟨1, 1⟩⟩, ⟨.plus, ⟨1, 2⟩⟩] ⟨1, 3⟩
      ['2', 'e'] := .word one (.integer digits nofun rfl) (.word plus .plus .done)
  obtain ⟨-, -, fails, before⟩ := scan_iff_reads "1+2e"
  exact ⟨(fails _).2 ⟨_, _, _, reads, .malformed broken⟩, before ['1', '+'] _ _ _ rfl reads⟩

end Lexeme

end ColumnFormula
