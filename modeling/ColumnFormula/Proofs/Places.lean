import ColumnFormula.Proofs.Layout

/-!
# Places

A place is told by the text in front of it (`Position.behind`): by the line breaks in it, where a
carriage return and a line feed are one, and by the characters behind the last of them. Scanning
never cuts such a pair in two (`Unsplit`), so every token, the end and every error are placed by
what stands in front of them (`scan_places`). The same places come out of a scan that keeps no more
than the number of its line and the byte at which that starts (`scanBytes`).
-/

namespace ColumnFormula

variable {before cs v w rest : List Char} {c : Char}

/-! ## Lines -/

def isBreak (c : Char) : Bool := c = '\r' || c = '\n'

/-- The line breaks of a text. A carriage return counts with the line feed behind it, if there is
one. -/
def lineBreaks : List Char → Nat
  | [] => 0
  | c :: cs => lineBreaks cs + if c = '\n' ∨ c = '\r' ∧ cs.head? ≠ some '\n' then 1 else 0

/-- What stands behind the last line break. -/
def lastLine (cs : List Char) : List Char := cs.rtakeWhile (!isBreak ·)

/-- The place behind a text. -/
def Position.behind (before : List Char) : Position :=
  ⟨1 + lineBreaks before, 1 + (lastLine before).length⟩

-- three line breaks, the second of two characters, and a letter of two bytes behind them
example : Position.behind "+\r\r\n\n é".toList = ⟨4, 3⟩ := by decide

/-- There is no pair of a carriage return and a line feed of which each text has one. -/
def Unsplit (before rest : List Char) : Prop :=
  ¬(before.getLast? = some '\r' ∧ rest.head? = some '\n')

theorem lineBreaks_cons (c : Char) (cs : List Char) :
    lineBreaks (c :: cs) =
      lineBreaks cs + if c = '\n' ∨ c = '\r' ∧ cs.head? ≠ some '\n' then 1 else 0 := rfl

/-- Texts that split no pair have their line breaks one by one. -/
theorem lineBreaks_append (h : Unsplit v w) :
    lineBreaks (v ++ w) = lineBreaks v + lineBreaks w := by
  induction v with
  | nil => simp [lineBreaks]
  | cons c v ih =>
    cases v with
    | nil =>
      have single : c = '\r' → w.head? ≠ some '\n' := fun hc hw => h ⟨by rw [hc]; rfl, hw⟩
      by_cases hc : c = '\r'
      · simp [lineBreaks, hc, single hc]
        omega
      · simp [lineBreaks, hc]
        omega
    | cons d v =>
      have rest := ih fun ⟨hv, hw⟩ => h ⟨by rwa [List.getLast?_cons_cons], hw⟩
      rw [List.cons_append, lineBreaks_cons c, lineBreaks_cons c, rest]
      exact Nat.add_right_comm ..

theorem lineBreaks_eq_zero (h : ∀ c ∈ w, isBreak c = false) : lineBreaks w = 0 := by
  induction w with
  | nil => rfl
  | cons c w ih =>
    obtain ⟨first, rest⟩ := List.forall_mem_cons.1 h
    simp [isBreak] at first
    simp [lineBreaks, ih rest, first]

theorem lastLine_concat (cs : List Char) (c : Char) :
    lastLine (cs ++ [c]) = if isBreak c then [] else lastLine cs ++ [c] := by
  rw [lastLine, List.rtakeWhile_concat]
  cases isBreak c <;> rfl

theorem lastLine_append (cs : List Char) (h : ∀ c ∈ w, isBreak c = false) :
    lastLine (cs ++ w) = lastLine cs ++ w := by
  induction w using List.reverseRecOn with
  | nil => simp
  | append_singleton w c ih =>
    obtain ⟨inside, last⟩ := List.forall_mem_append.1 h
    rw [← List.append_assoc, lastLine_concat, last c (List.mem_singleton_self c), ih inside,
      if_neg Bool.false_ne_true, List.append_assoc]

/-! ## Words -/

namespace WordClass

variable {cls : WordClass}

theorem no_break_of_ne (h : cls.pattern.Matches w) (hc : cls ≠ lineBreak) :
    ∀ c ∈ w, isBreak c = false := by
  intro c hm
  refine Bool.eq_false_iff.2 fun line => hc (eq_lineBreak_of_mem h hm ?_)
  simpa [isBreak] using line

/-- A line break ends the line, and is one. -/
theorem lineBreak_spec (h : lineBreak.pattern.Matches w) (before : List Char) :
    lineBreaks w = 1 ∧ lastLine (before ++ w) = [] := by
  have ends : ∀ c, isBreak c = true → ∀ cs, lastLine (cs ++ [c]) = [] := fun c hc cs => by
    rw [lastLine_concat, if_pos hc]
  rcases matches_lineBreak.1 h with rfl | rfl | rfl
  · exact ⟨rfl, by rw [List.append_cons]; exact ends '\n' rfl _⟩
  · exact ⟨rfl, ends '\r' rfl before⟩
  · exact ⟨rfl, ends '\n' rfl before⟩

/-- The place after a word is told by the text before it and the word. -/
theorem after_behind (h : Longest cls w rest) (hb : Unsplit before w) :
    cls.after w (.behind before) = .behind (before ++ w) := by
  by_cases hc : cls = lineBreak
  · subst hc
    obtain ⟨one, none⟩ := lineBreak_spec h.accepted before
    simp [after, Position.down, Position.behind, lineBreaks_append hb, one, none]
    omega
  · have inLine := no_break_of_ne h.accepted hc
    have right : cls.after w (.behind before) = (Position.behind before).right w.length := by
      cases cls <;> first | rfl | exact absurd rfl hc
    rw [right]
    simp [Position.right, Position.behind, lineBreaks_append hb, lineBreaks_eq_zero inLine,
      lastLine_append before inLine]
    omega

/-- A carriage return with a line feed behind it is not the end of a longest word. -/
theorem Longest.unsplit (h : Longest cls w rest) (before : List Char) :
    Unsplit (before ++ w) rest := by
  rintro ⟨hr, hn⟩
  have ne : w ≠ [] := ne_nil_of_matches h.accepted
  have last : w.getLast? = some '\r' := by
    rwa [List.getLast?_append_of_ne_nil _ ne] at hr
  obtain rfl := eq_lineBreak_of_mem h.accepted (List.mem_of_getLast? last) (.inl rfl)
  obtain ⟨rest, rfl⟩ := List.head?_eq_some_iff.1 hn
  have accepted : lineBreak.pattern.Matches ['\r', '\n'] := matches_lineBreak.2 (.inl rfl)
  rcases matches_lineBreak.1 h.accepted with rfl | rfl | rfl
  · cases last
  · have := h.greatest accepted (v := rest) rfl
    simp at this
  · cases last

theorem unsplit_left (h : Unsplit before (w ++ rest)) (hw : w ≠ []) : Unsplit before w := by
  intro ⟨hb, hn⟩
  exact h ⟨hb, by rw [List.head?_append_of_ne_nil _ hw]; exact hn⟩

end WordClass

/-! ## Lexemes -/

namespace Lexeme

open WordClass

variable {p q : Position} {ts : List Lexeme} {words : List (List Char × Option Token)}
  {e : SyntaxError}

/-- The words at the front of a text, each the longest one, with the tokens that they stand for. -/
inductive Cut : List Char → List (List Char × Option Token) → List Char → Prop where
  | done {cs : List Char} : Cut cs [] cs
  | word {cls : WordClass} {w cs rest : List Char} {token : Option Token}
      {words : List (List Char × Option Token)} : Longest cls w cs → Denotes cls w token →
      Cut cs words rest → Cut (w ++ cs) ((w, token) :: words) rest

/-- What the words spell. -/
def spelled (words : List (List Char × Option Token)) : List Char := words.flatMap Prod.fst

/-- The lexemes of words that stand behind some text, each where its word begins. -/
def placed (before : List Char) : List (List Char × Option Token) → List Lexeme
  | [] => []
  | (w, token) :: words =>
    (token.map (⟨·, .behind before⟩)).toList ++ placed (before ++ w) words

theorem Cut.eq_append (h : Cut cs words rest) : cs = spelled words ++ rest := by
  induction h with
  | done => rfl
  | word _ _ _ ih => rw [spelled, List.flatMap_cons, List.append_assoc, ← spelled, ← ih]

/-- Words are read where the text in front of them ends. -/
theorem Cut.reads (h : Cut cs words rest) (hb : Unsplit before cs) :
    Reads (.behind before) cs (placed before words) (.behind (before ++ spelled words)) rest := by
  induction h generalizing before with
  | @done cs =>
    have nothing : before ++ spelled [] = before := List.append_nil _
    rw [nothing]
    exact .done
  | @word cls w cs rest token words longest denotes _ ih =>
    have fits := unsplit_left hb (ne_nil_of_matches longest.accepted)
    have tail := ih (longest.unsplit before)
    rw [← after_behind longest fits, List.append_assoc] at tail
    exact .word longest denotes tail

theorem Reads.cut (h : Reads p cs ts q rest) (hb : Unsplit before cs) (hp : p = .behind before) :
    ∃ words, Cut cs words rest ∧ ts = placed before words ∧
      q = .behind (before ++ spelled words) := by
  induction h generalizing before with
  | done => exact ⟨[], .done, rfl, by rw [hp]; exact congrArg _ (List.append_nil _).symm⟩
  | @word p q cls w cs rest token ts longest denotes _ ih =>
    have fits := unsplit_left hb (ne_nil_of_matches longest.accepted)
    obtain ⟨words, cut, rfl, rfl⟩ :=
      ih (longest.unsplit before) (by rw [hp, after_behind longest fits])
    refine ⟨(w, token) :: words, .word longest denotes cut, by rw [hp]; rfl, ?_⟩
    rw [List.append_assoc]
    rfl

theorem Offends.position?_eq (h : Offends p cs e) : e.position? = some p := by cases h <;> rfl

end Lexeme

/-! ## Bytes -/

/-- The text from one of its bytes on, if a character starts there or the text ends. -/
def fromByte? (n : Nat) : List Char → Option (List Char)
  | [] => if n = 0 then some [] else none
  | c :: cs =>
    if n = 0 then some (c :: cs)
    else if c.utf8Size ≤ n then fromByte? (n - c.utf8Size) cs else none

/-- The text up to one of its bytes, likewise. -/
def toByte? (n : Nat) : List Char → Option (List Char)
  | [] => if n = 0 then some [] else none
  | c :: cs =>
    if n = 0 then some []
    else if c.utf8Size ≤ n then (toByte? (n - c.utf8Size) cs).map (c :: ·) else none

def betweenBytes? (start stop : Nat) (text : List Char) : Option (List Char) :=
  if start ≤ stop then (fromByte? start text).bind (toByte? (stop - start)) else none

theorem fromByte?_append (v w : List Char) : fromByte? (String.utf8Len v) (v ++ w) = some w := by
  induction v with
  | nil => cases w <;> rfl
  | cons c v ih =>
    have := c.utf8Size_pos
    rw [List.cons_append, fromByte?, String.utf8Len_cons, if_neg (by omega), if_pos (by omega),
      Nat.add_sub_cancel, ih]

theorem toByte?_append (v w : List Char) : toByte? (String.utf8Len v) (v ++ w) = some v := by
  induction v with
  | nil => cases w <;> rfl
  | cons c v ih =>
    have := c.utf8Size_pos
    rw [List.cons_append, toByte?, String.utf8Len_cons, if_neg (by omega), if_pos (by omega),
      Nat.add_sub_cancel, ih]
    rfl

theorem betweenBytes?_append (u v w : List Char) :
    betweenBytes? (String.utf8Len u) (String.utf8Len (u ++ v)) (u ++ (v ++ w)) = some v := by
  rw [betweenBytes?, String.utf8Len_append, if_pos (Nat.le_add_right ..), fromByte?_append,
    Option.bind_some, Nat.add_sub_cancel_left, toByte?_append]

/-- The line that is being read: its number, and the byte at which it starts. -/
structure Line where
  number : Nat
  start : Nat

namespace Line

def first : Line := ⟨1, 0⟩

/-- The line that is being read after a word that stops at a byte. -/
def after (cls : WordClass) (stop : Nat) (l : Line) : Line :=
  match cls with
  | .lineBreak => ⟨l.number + 1, stop⟩
  | _ => l

/-- The place of a byte on the line. -/
def position (l : Line) (text : List Char) (offset : Nat) : Position :=
  ⟨l.number, ((betweenBytes? l.start offset text).map (·.length + 1)).getD 1⟩

/-- The line is the one at the end of a text. -/
structure Marks (l : Line) (before : List Char) : Prop where
  number : l.number = 1 + lineBreaks before
  start : ∃ earlier, before = earlier ++ lastLine before ∧ l.start = String.utf8Len earlier

variable {l : Line} {cls : WordClass}

theorem marks_first : first.Marks [] := ⟨rfl, [], rfl, rfl⟩

theorem Marks.position_eq (h : l.Marks before) (cs : List Char) :
    l.position (before ++ cs) (String.utf8Len before) = .behind before := by
  obtain ⟨earlier, split, start⟩ := h.start
  have between := betweenBytes?_append earlier (lastLine before) cs
  rw [← List.append_assoc, ← split, ← start] at between
  rw [position, between, h.number, Position.behind, Option.map_some, Option.getD_some,
    Nat.add_comm 1 (lastLine before).length]

theorem Marks.after (h : l.Marks before) (hw : cls.Longest w rest) (hb : Unsplit before w) :
    (l.after cls (String.utf8Len (before ++ w))).Marks (before ++ w) := by
  by_cases hc : cls = .lineBreak
  · subst hc
    obtain ⟨one, none⟩ := WordClass.lineBreak_spec hw.accepted before
    refine ⟨?_, before ++ w, by rw [none, List.append_nil], rfl⟩
    rw [lineBreaks_append hb, one, Line.after, h.number, Nat.add_assoc]
  · have inLine := WordClass.no_break_of_ne hw.accepted hc
    have same : l.after cls (String.utf8Len (before ++ w)) = l := by
      cases cls <;> first | rfl | exact absurd rfl hc
    obtain ⟨earlier, split, start⟩ := h.start
    rw [same]
    refine ⟨?_, earlier, ?_, start⟩
    · rw [lineBreaks_append hb, lineBreaks_eq_zero inLine, h.number]
      omega
    · rw [lastLine_append before inLine, ← List.append_assoc, ← split]

end Line

namespace Lexeme

open WordClass

/-- `scanFrom` with places told by the line and by bytes of the whole text. -/
def scanBytes (text : List Char) (l : Line) (offset : Nat) :
    List Char → Except SyntaxError (List Lexeme)
  | [] => .ok [⟨.endOfText, l.position text (String.utf8Len text)⟩]
  | c :: cs =>
    let p := l.position text offset
    match WordClass.longest? c cs with
    | none => .error (.unexpectedCharacter c p)
    | some (cls, n) =>
      let word := c :: cs.take n
      let stop := offset + String.utf8Len word
      match cls.token? word p with
      | .error e => .error e
      | .ok token =>
        match scanBytes text (l.after cls stop) stop (cs.drop n) with
        | .error e => .error e
        | .ok lexemes => .ok ((token.map fun t => ⟨t, p⟩).toList ++ lexemes)
termination_by cs => cs.length
decreasing_by simp only [List.length_cons, List.length_drop]; omega

variable {cls : WordClass} {l : Line}

theorem scanBytes_longest (h : Longest cls w rest) (hl : l.Marks before) :
    scanBytes (before ++ (w ++ rest)) l (String.utf8Len before) (w ++ rest) =
      (cls.token? w (.behind before)).bind fun token =>
        (scanBytes (before ++ (w ++ rest)) (l.after cls (String.utf8Len (before ++ w)))
          (String.utf8Len (before ++ w)) rest).map
            ((token.map (⟨·, .behind before⟩)).toList ++ ·) := by
  obtain ⟨c, cs, hw⟩ := List.exists_cons_of_ne_nil
    (List.append_ne_nil_of_left_ne_nil (ne_nil_of_matches h.accepted) rest)
  obtain ⟨n, found, rfl, rfl⟩ := h.longest?_eq hw
  rw [hw, scanBytes, found, hl.position_eq, String.utf8Len_append]
  dsimp only
  cases cls.token? (c :: cs.take n) (.behind before) with
  | error e => rfl
  | ok token =>
    simp only [Except.bind]
    cases scanBytes (before ++ c :: cs) _ _ (cs.drop n) <;> rfl

/-- Counting bytes comes to the same places as counting characters on the way. -/
theorem scanBytes_eq (hl : l.Marks before) (hb : Unsplit before cs) :
    scanBytes (before ++ cs) l (String.utf8Len before) cs = scanFrom (.behind before) cs := by
  induction hn : cs.length using Nat.strongRecOn generalizing before cs l with
  | ind n ih =>
    cases cs with
    | nil =>
      have place := hl.position_eq []
      rw [List.append_nil] at place ⊢
      rw [scanBytes, scanFrom, place]
    | cons c cs =>
      cases found : WordClass.longest? c cs with
      | none => rw [scanBytes, scanFrom, found, hl.position_eq]
      | some best =>
        have longest : Longest best.1 (c :: cs.take best.2) (cs.drop best.2) :=
          longest_of_longest? found
        have whole : c :: cs = c :: cs.take best.2 ++ cs.drop best.2 := by simp
        rw [whole] at hb ⊢
        have fits := unsplit_left hb (by simp)
        have shorter : (cs.drop best.2).length < n := by
          rw [← hn, List.length_cons, List.length_drop]
          omega
        have rest := ih _ shorter (hl.after longest fits) (longest.unsplit before) rfl
        rw [List.append_assoc] at rest
        rw [scanBytes_longest longest hl, scanFrom_longest longest, rest,
          after_behind longest fits]

/-- Every token of a text is at the place of its first character, the end of the text behind its
last one, and an error where reading stops. A scan that counts bytes finds the same. -/
theorem scan_places (text : String) :
    (∀ ls, scan text = .ok ls ↔ ∃ words, Cut text.toList words [] ∧
      ls = placed [] words ++ [⟨.endOfText, .behind text.toList⟩]) ∧
    (∀ e, scan text = .error e ↔ ∃ words rest, Cut text.toList words rest ∧
      Offends (.behind (spelled words)) rest e ∧
      e.position? = some (.behind (spelled words))) ∧
    scanBytes text.toList .first 0 text.toList = scan text := by
  have fits : Unsplit [] text.toList := fun h => nomatch h.1
  refine ⟨fun ls => ⟨fun h => ?_, ?_⟩, fun e => ⟨fun h => ?_, ?_⟩,
    scanBytes_eq Line.marks_first fits⟩
  · obtain ⟨ts, q, reads, rfl⟩ := reads_of_scanFrom h
    obtain ⟨words, cut, rfl, rfl⟩ := reads.cut fits rfl
    refine ⟨words, cut, ?_⟩
    rw [cut.eq_append, List.append_nil]
    rfl
  · rintro ⟨words, cut, rfl⟩
    have reads := cut.reads fits
    rw [scan, show Position.start = .behind [] from rfl, reads.scanFrom_end]
    rw [cut.eq_append, List.append_nil]
    rfl
  · obtain ⟨ts, q, rest, reads, offends⟩ := offends_of_scanFrom h
    obtain ⟨words, cut, rfl, rfl⟩ := reads.cut fits rfl
    exact ⟨words, rest, cut, offends, offends.position?_eq⟩
  · rintro ⟨words, rest, cut, offends, -⟩
    exact (cut.reads fits).scanFrom_offence offends

end Lexeme

end ColumnFormula
