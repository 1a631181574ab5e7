import Mathlib
import ColumnFormula.Proofs.LongestWords

/-!
# Layout

A text may be laid out anew (`Relaid`): blanks and line breaks are put between its words, and
names of functions are written in other letter case. It holds the same tokens, but for the case of
those names (`Relaid.tokensOf`).

A blank or line break in front of a text becomes a word of its own or part of the first word
(`longest_white`). For all other words the longest stays the longest: quotes close where they
did, and what a numeral, an identifier or a sign could go on with holds no blank, so it would
have continued the word in the old text as well (`Longest.relaid`).
-/

namespace ColumnFormula

variable {c : Char} {u v w w' cs cs' rest rest' : List Char}

/-! ## Letter case -/

/-- The texts are the same but for the case of their letters. -/
def SameLetters (v w : List Char) : Prop := v.map Char.toLower = w.map Char.toLower

def lowerCase (name : String) : String := String.ofList (name.toList.map Char.toLower)

namespace Pattern

variable {p : Pattern}

def capitals : List Char := "ABCDEFGHIJKLMNOPQRSTUVWXYZ".toList

theorem mem_capitals (h : c.isUpper = true) : c ∈ capitals := by
  have all : ∀ n < 91, 65 ≤ n → Char.ofNat n ∈ capitals := by decide
  obtain ⟨low, high⟩ := of_decide_eq_true h
  rw [← Char.ofNat_toNat c]
  exact all _ (Nat.lt_succ_of_le (UInt32.le_iff_toNat_le.1 high)) (UInt32.le_iff_toNat_le.1 low)

/-- A capital letter is accepted where the small one is. -/
def caseless : Pattern → Bool
  | never | nothing => true
  | one accepts => capitals.all fun c => accepts c.toLower == accepts c
  | seq p q | alt p q => p.caseless && q.caseless
  | star p => p.caseless

theorem accepts_toLower {accepts : Char → Bool} (h : (one accepts).caseless = true) (c : Char) :
    accepts c.toLower = accepts c := by
  by_cases upper : c.isUpper = true
  · exact eq_of_beq (List.all_eq_true.1 h c (mem_capitals upper))
  · rw [Char.toLower_eq_of_not_isUpper upper]

theorem matches_of_sameLetters (hp : p.caseless = true) (h : Matches p w)
    (same : SameLetters v w) : Matches p v := by
  unfold SameLetters at same
  induction h generalizing v with
  | nothing =>
    obtain rfl := List.map_eq_nil_iff.1 same
    exact .nothing
  | @one accepts c hc =>
    obtain ⟨d, rfl, hd⟩ := List.map_eq_singleton_iff.1 same
    refine .one ?_
    rw [← accepts_toLower hp, hd, accepts_toLower hp, hc]
  | seq _ _ ihu ihv =>
    rw [caseless, Bool.and_eq_true] at hp
    rw [List.map_append] at same
    obtain ⟨a, b, rfl, ha, hb⟩ := List.map_eq_append_iff.1 same
    exact .seq (ihu hp.1 ha) (ihv hp.2 hb)
  | left _ ih =>
    rw [caseless, Bool.and_eq_true] at hp
    exact .left (ih hp.1 same)
  | right _ ih =>
    rw [caseless, Bool.and_eq_true] at hp
    exact .right (ih hp.2 same)
  | done =>
    obtain rfl := List.map_eq_nil_iff.1 same
    exact .done
  | more _ _ ihu ihv =>
    rw [List.map_append] at same
    obtain ⟨a, b, rfl, ha, hb⟩ := List.map_eq_append_iff.1 same
    exact .more (ihu hp ha) (ihv hp hb)

end Pattern

/-! ## Laying out -/

/-- Spaces, tabs, form feeds and line breaks. -/
def whites : List Char := [' ', '\t', '\x0c', '\r', '\n']

def White (g : List Char) : Prop := ∀ c ∈ g, c ∈ whites

/-- The next word, apart from blanks and line breaks, is an opening parenthesis. -/
def OpensParen (cs : List Char) : Prop := ∃ g more, White g ∧ cs = g ++ '(' :: more

/-- The word is written as before, or in other letter case if it is the name of a function. -/
def Respelled (cls : WordClass) (rest w w' : List Char) : Prop :=
  w' = w ∨ cls = .identifier ∧ OpensParen rest ∧ SameLetters w' w

/-- The same words with more blanks and line breaks between them, and names of functions in any
letter case. -/
inductive Relaid : List Char → List Char → Prop where
  | done {g : List Char} : White g → Relaid [] g
  | word {cls : WordClass} {g w w' rest rest' : List Char} : White g →
      cls.Longest w rest → Respelled cls rest w w' → Relaid rest rest' →
      Relaid (w ++ rest) (g ++ (w' ++ rest'))

theorem Respelled.sameLetters {cls : WordClass} (h : Respelled cls rest w w') :
    SameLetters w' w := by
  rcases h with rfl | ⟨-, -, same⟩
  · rfl
  · exact same

theorem SameLetters.append {v' : List Char} (h : SameLetters v v') (h' : SameLetters w w') :
    SameLetters (v ++ w) (v' ++ w') := by
  unfold SameLetters at *
  rw [List.map_append, List.map_append, h, h']

theorem SameLetters.length_eq (h : SameLetters v w) : v.length = w.length := by
  simpa using congrArg List.length h

/-- Where no blank or line break was put in, the letters are those of the old text. -/
theorem Relaid.sameLetters_of_unspaced (h : Relaid cs cs') (hu : cs' = u ++ v)
    (unspaced : ∀ c ∈ u, c ∉ whites) : ∃ u₀ v₀, cs = u₀ ++ v₀ ∧ SameLetters u₀ u := by
  induction h generalizing u with
  | done hg =>
    cases u with
    | nil => exact ⟨[], [], rfl, rfl⟩
    | cons c u => exact absurd (hg c (by simp [hu])) (unspaced c List.mem_cons_self)
  | @word cls g w w' rest rest' hg _ respelled _ ih =>
    cases u with
    | nil => exact ⟨[], _, rfl, rfl⟩
    | cons c u =>
      cases g with
      | cons d g =>
        obtain rfl := (List.cons.inj hu).1
        exact absurd (hg d List.mem_cons_self) (unspaced d List.mem_cons_self)
      | nil =>
        rw [List.nil_append] at hu
        rcases List.append_eq_append_iff.1 hu with ⟨more, hc, hr⟩ | ⟨left, hw, -⟩
        · -- the whole word and some of what follows it
          obtain ⟨u₀, v₀, rfl, same⟩ := ih hr fun d hd => unspaced d (by rw [hc]; simp [hd])
          refine ⟨w ++ u₀, v₀, (List.append_assoc ..).symm, ?_⟩
          rw [hc]
          exact SameLetters.append respelled.sameLetters.symm same
        · -- the beginning of the word
          have same := respelled.sameLetters.symm
          rw [hw, List.map_append] at same
          obtain ⟨u₀, v₀, rfl, same, -⟩ := List.map_eq_append_iff.1 same
          exact ⟨u₀, v₀ ++ rest, List.append_assoc .., same⟩

namespace WordClass

variable {cls other : WordClass}

/-! ## Words that stay the longest -/

theorem caseless_pattern (cls : WordClass) : cls.pattern.caseless = true := by
  cases cls <;> decide

/-- The classes of words that hold neither quotes nor blanks nor line breaks. -/
def Family.isPlain : Family → Bool
  | numeral | identifier | sign => true
  | text | name | lineBreak | blank => false

theorem not_white_of_plain (h : cls.pattern.Matches w) (plain : cls.family.isPlain = true) :
    ∀ c ∈ w, c ∉ whites := by
  have excluded : whites.all (!cls.pattern.chars ·) = true := by
    cases cls <;> first | decide | cases plain
  intro c hc white
  have accepted := Pattern.chars_of_matches h c hc
  have rejected := List.all_eq_true.1 excluded c white
  rw [accepted] at rejected
  cases rejected

theorem Longest.relaid_plain (h : Longest cls w rest) (plain : cls.family.isPlain = true)
    (same : SameLetters w' w) (relaid : Relaid rest rest') : Longest cls w' rest' := by
  have accepted := Pattern.matches_of_sameLetters (caseless_pattern cls) h.accepted same
  refine ⟨accepted, fun {other u v} accepted' split => Nat.le_of_not_lt fun longer => ?_⟩
  obtain ⟨more, rfl, hr⟩ := exists_more split longer
  obtain ⟨c, w', rfl⟩ := List.exists_cons_of_ne_nil (ne_nil_of_matches accepted)
  have family : other.family = cls.family :=
    (family_of_matches accepted').symm.trans (family_of_matches accepted)
  have unspaced := not_white_of_plain accepted' (family ▸ plain)
  obtain ⟨more₀, v₀, rfl, same'⟩ := relaid.sameLetters_of_unspaced hr fun d hd =>
    unspaced d (List.mem_append_right _ hd)
  -- the longer word was there in the old text as well, in some letter case
  have old := Pattern.matches_of_sameLetters (caseless_pattern other) accepted'
    (SameLetters.append same.symm same')
  have shorter := h.greatest old (List.append_assoc ..)
  have := same'.length_eq
  simp only [List.length_append] at shorter longer
  omega

/-- A closed quote is the longest word whatever follows it. -/
theorem longest_closed {mark : Char} {closed opened : WordClass}
    (hc : closed.pattern = .seq (quote mark) (.char mark)) (ho : opened.pattern = quote mark)
    (only : ∀ other : WordClass, other.family = Family.of mark → other = closed ∨ other = opened)
    (h : closed.pattern.Matches w) (rest : List Char) : Longest closed w rest := by
  refine ⟨h, fun {other u v} accepted split => Nat.le_of_not_lt fun longer => ?_⟩
  obtain ⟨more, rfl, -⟩ := exists_more split longer
  obtain ⟨inside, rfl, -⟩ := matches_closed_quote.1 (hc ▸ h)
  have nonempty : more ≠ [] := by
    rintro rfl
    simp at longer
  have second : ∃ inside', Quoted mark inside' ∧ mark ∈ inside' := by
    rcases only other (family_of_matches accepted).symm with rfl | rfl
    · rw [hc] at accepted
      obtain ⟨inside', same, free⟩ := matches_closed_quote.1 accepted
      have same : inside ++ [mark] ++ more = inside' ++ [mark] := (List.cons.inj same).2
      have same := congrArg List.dropLast same
      rw [List.dropLast_append_of_ne_nil nonempty, List.dropLast_concat] at same
      exact ⟨inside', free, by simp [← same]⟩
    · rw [ho] at accepted
      obtain ⟨inside', same, free⟩ := matches_quote.1 accepted
      exact ⟨inside', free, by simp [← (List.cons.inj same).2]⟩
  obtain ⟨inside', free, mem⟩ := second
  exact (free mark mem).1 rfl

theorem longest_text (h : text.pattern.Matches w) (rest : List Char) : Longest text w rest := by
  have only : ∀ other : WordClass, other.family = Family.of '"' →
      other = text ∨ other = unterminatedText := fun other h => by
    cases other <;> first | exact .inl rfl | exact .inr rfl | cases h
  exact longest_closed rfl rfl only h rest

theorem longest_quotedName (h : quotedName.pattern.Matches w) (rest : List Char) :
    Longest quotedName w rest := by
  have only : ∀ other : WordClass, other.family = Family.of '\'' →
      other = quotedName ∨ other = unterminatedName := fun other h => by
    cases other <;> first | exact .inl rfl | exact .inr rfl | cases h
  exact longest_closed rfl rfl only h rest

/-! ## Blanks and line breaks in front -/

theorem matches_lineBreak :
    lineBreak.pattern.Matches w ↔ w = ['\r', '\n'] ∨ w = ['\r'] ∨ w = ['\n'] := by
  have pair : (Pattern.seq (.char '\r') (.char '\n')).Matches w ↔ w = ['\r', '\n'] := by
    simp [Pattern.matches_seq, Pattern.matches_char]
  have single : (Pattern.oneOf ['\r', '\n']).Matches w ↔ w = ['\r'] ∨ w = ['\n'] := by
    rw [Pattern.oneOf, Pattern.matches_one]
    constructor
    · rintro ⟨c, rfl, hc⟩
      simpa using hc
    · rintro (rfl | rfl)
      · exact ⟨'\r', rfl, rfl⟩
      · exact ⟨'\n', rfl, rfl⟩
  rw [pattern, Pattern.matches_alt, pair, single]

theorem matches_blank :
    blank.pattern.Matches w ↔ w ≠ [] ∧ ∀ c ∈ w, c ∈ [' ', '\t', '\x0c'] := by
  rw [pattern, Pattern.oneOf, Pattern.matches_plus_one]
  simp

/-- The classes of words that are skipped. Each is a family of its own. -/
def IsWhite (cls : WordClass) : Prop := cls = blank ∨ cls = lineBreak

theorem IsWhite.eq_of_family (hc : cls.IsWhite) (h : other.family = cls.family) :
    other = cls := by
  rcases hc with rfl | rfl <;> cases other <;> first | rfl | cases h

/-- Without its first character a run of blanks or a line break is one still. -/
theorem Longest.tail (h : Longest cls (c :: u) rest) (hc : cls.IsWhite) (hu : u ≠ []) :
    Longest cls u rest := by
  have accepted : cls.pattern.Matches u := by
    rcases hc with rfl | rfl
    · have blanks := (matches_blank.1 h.accepted).2
      exact matches_blank.2 ⟨hu, (List.forall_mem_cons.1 blanks).2⟩
    · rcases matches_lineBreak.1 h.accepted with pair | single | single
      · obtain ⟨rfl, rfl⟩ := List.cons.inj pair
        exact matches_lineBreak.2 (.inr (.inr rfl))
      · exact absurd (List.cons.inj single).2 hu
      · exact absurd (List.cons.inj single).2 hu
  refine ⟨accepted, fun {other u' v} accepted' same => ?_⟩
  obtain ⟨d, u', rfl⟩ := List.exists_cons_of_ne_nil (ne_nil_of_matches accepted')
  obtain ⟨d', u, rfl⟩ := List.exists_cons_of_ne_nil hu
  obtain rfl : d = d' := (List.cons.inj same).1
  obtain rfl := hc.eq_of_family
    ((family_of_matches accepted').symm.trans (family_of_matches accepted))
  rcases hc with rfl | rfl
  · have first := (List.forall_mem_cons.1 (matches_blank.1 h.accepted).2).1
    have others := (matches_blank.1 accepted').2
    have longer := matches_blank.2 ⟨by simp, List.forall_mem_cons.2 ⟨first, others⟩⟩
    have := h.greatest longer (congrArg (c :: ·) same)
    simpa using this
  · -- a line feed begins no longer line break
    have feed : d = '\n' := by
      have := matches_lineBreak.1 h.accepted
      simp_all
    rcases matches_lineBreak.1 accepted' with pair | single | single
    · cases feed.symm.trans (List.cons.inj pair).1
    · simp [single]
    · simp [single]

/-- A blank or line break in front of a text is a word, or makes the first word longer. -/
theorem longest_white (hc : c ∈ whites) (cs : List Char) :
    ∃ cls u rest, cs = u ++ rest ∧ Longest cls (c :: u) rest ∧ cls.IsWhite ∧
      (u = [] ∨ Longest cls u rest) := by
  have alone : blank.pattern.Matches [c] ∨ lineBreak.pattern.Matches [c] := by
    simp only [matches_blank, matches_lineBreak]
    simp only [whites, List.mem_cons, List.not_mem_nil, or_false] at hc
    rcases hc with rfl | rfl | rfl | rfl | rfl <;> simp
  obtain ⟨white, matches_white, hw⟩ :
      ∃ white : WordClass, white.pattern.Matches [c] ∧ white.IsWhite :=
    alone.elim (⟨blank, ·, .inl rfl⟩) (⟨lineBreak, ·, .inr rfl⟩)
  cases found : longest? c cs with
  | none => exact absurd matches_white (longest?_eq_none_iff.1 found white [c] cs rfl)
  | some best =>
    have longest := longest_of_longest? found
    obtain rfl : best.1 = white := hw.eq_of_family
      ((family_of_matches longest.accepted).symm.trans (family_of_matches matches_white))
    refine ⟨best.1, _, _, (List.take_append_drop best.2 cs).symm, longest, hw, ?_⟩
    by_cases hu : cs.take best.2 = []
    · exact .inl hu
    · exact .inr (longest.tail hw hu)

end WordClass

/-! ## Tokens of a text -/

namespace Token

/-- An identifier in lower case. -/
def lowered : Token → Token
  | identifier name => identifier (lowerCase name)
  | t => t

/-- The tokens with the names of functions in lower case. -/
def lowerNames : List Token → List Token
  | [] => []
  | t :: ts => (if ts.head? = some leftParen then t.lowered else t) :: lowerNames ts

theorem head?_lowerNames {ts : List Token} :
    (lowerNames ts).head? = some leftParen ↔ ts.head? = some leftParen := by
  cases ts with
  | nil => rfl
  | cons t ts =>
    rw [lowerNames, List.head?_cons, List.head?_cons, Option.some_inj, Option.some_inj]
    split
    · cases t <;> simp [lowered]
    · rfl

theorem lowerNames_concat_end (ts : List Token) :
    lowerNames (ts ++ [endOfText]) = lowerNames ts ++ [endOfText] := by
  induction ts with
  | nil => rfl
  | cons t ts ih =>
    rw [List.cons_append, lowerNames, lowerNames, ih, List.cons_append]
    cases ts <;> simp

/-- Tokens that are the same but for the case of a function's name. -/
theorem lowerNames_cons {t t' : Token} {ts ts' : List Token}
    (h : t' = t ∨ ts.head? = some leftParen ∧ t'.lowered = t.lowered)
    (hts : lowerNames ts' = lowerNames ts) : lowerNames (t' :: ts') = lowerNames (t :: ts) := by
  have opens : ts'.head? = some leftParen ↔ ts.head? = some leftParen := by
    rw [← head?_lowerNames, hts, head?_lowerNames]
  rw [lowerNames, lowerNames, hts]
  rcases h with rfl | ⟨paren, same⟩
  · simp only [opens]
  · rw [if_pos (opens.2 paren), if_pos paren, same]

end Token

open WordClass

/-- The tokens of a text, wherever it stands. -/
inductive TokensOf : List Char → List Token → Prop where
  | done : TokensOf [] []
  | word {cls : WordClass} {w cs : List Char} {token : Option Token} {ts : List Token} :
      Longest cls w cs → Denotes cls w token → TokensOf cs ts →
      TokensOf (w ++ cs) (token.toList ++ ts)

theorem Lexeme.Reads.tokensOf {p q : Position} {ls : List Lexeme} (h : Reads p cs ls q []) :
    TokensOf cs (ls.map Lexeme.token) := by
  generalize hr : ([] : List Char) = rest at h
  induction h with
  | done => exact hr ▸ .done
  | @word p q cls w cs rest token ls longest denotes _ ih =>
    have tokens := TokensOf.word longest denotes (ih hr)
    cases token <;> exact tokens

namespace TokensOf

variable {ts : List Token} {cls : WordClass}

theorem exists_reads (h : TokensOf cs ts) (p : Position) :
    ∃ ls q, Lexeme.Reads p cs ls q [] ∧ ls.map Lexeme.token = ts := by
  induction h generalizing p with
  | done => exact ⟨[], p, .done, rfl⟩
  | @word cls w cs token ts longest denotes _ ih =>
    obtain ⟨ls, q, reads, rfl⟩ := ih (cls.after w p)
    refine ⟨_, q, .word longest denotes reads, ?_⟩
    cases token <;> rfl

theorem tail (h : TokensOf (w ++ rest) ts) (hw : Longest cls w rest) :
    ∃ token ts', Denotes cls w token ∧ TokensOf rest ts' ∧ ts = token.toList ++ ts' := by
  generalize same : w ++ rest = cs at h
  cases h with
  | done => exact absurd (List.append_eq_nil_iff.1 same).1 (ne_nil_of_matches hw.accepted)
  | word longest denotes tokens =>
    obtain ⟨rfl, rfl, rfl⟩ := hw.unique longest same
    exact ⟨_, _, denotes, tokens, rfl⟩

theorem eq_none_of_white {token : Option Token} (h : Denotes cls w token) (hc : cls.IsWhite) :
    token = none := by
  rcases hc with rfl | rfl <;> cases h <;> rfl

/-- A blank or line break in front of a text is skipped. -/
theorem white_cons (hc : c ∈ whites) : TokensOf (c :: cs) ts ↔ TokensOf cs ts := by
  obtain ⟨cls, u, rest, rfl, longest, white, inside⟩ := longest_white hc cs
  have skipped : ∀ {w}, TokensOf (w ++ rest) ts → Longest cls w rest → TokensOf rest ts := by
    intro w h hw
    obtain ⟨token, ts, denotes, tokens, rfl⟩ := h.tail hw
    obtain rfl := eq_none_of_white denotes white
    exact tokens
  have put : ∀ {w}, TokensOf rest ts → Longest cls w rest → TokensOf (w ++ rest) ts := by
    intro w h hw
    rcases white with rfl | rfl
    · exact .word hw .blank h
    · exact .word hw .lineBreak h
  rcases inside with rfl | inside
  · exact ⟨fun h => skipped h longest, fun h => put h longest⟩
  · exact ⟨fun h => put (skipped h longest) inside, fun h => put (skipped h inside) longest⟩

theorem white_append {g : List Char} (hg : White g) : TokensOf (g ++ cs) ts ↔ TokensOf cs ts := by
  induction g with
  | nil => rfl
  | cons c g ih =>
    obtain ⟨hc, hg⟩ := List.forall_mem_cons.1 hg
    exact (white_cons hc).trans (ih hg)

theorem head?_of_opensParen (h : TokensOf cs ts) (ho : OpensParen cs) :
    ts.head? = some .leftParen := by
  obtain ⟨g, more, hg, rfl⟩ := ho
  have h := (white_append hg).1 h
  generalize same : '(' :: more = cs at h
  cases h with
  | done => cases same
  | @word cls w cs token ts longest denotes tokens =>
    obtain ⟨c, w, rfl⟩ := List.exists_cons_of_ne_nil (ne_nil_of_matches longest.accepted)
    obtain rfl : '(' = c := (List.cons.inj same).1
    have family := family_of_matches longest.accepted
    cases denotes <;> first | rfl | cases family

end TokensOf

namespace WordClass

variable {cls : WordClass} {token : Option Token}

theorem white_of_matches (h : cls.pattern.Matches w) (hc : cls.IsWhite) : White w := by
  rcases hc with rfl | rfl
  · intro c hc
    have blank := (matches_blank.1 h).2 c hc
    simp only [List.mem_cons, List.not_mem_nil, or_false] at blank
    rcases blank with rfl | rfl | rfl <;> simp [whites]
  · rcases matches_lineBreak.1 h with rfl | rfl | rfl <;> simp [White, whites]

/-- A word that stands for a token is still the longest when what follows it is laid out anew. -/
theorem Longest.relaid (h : Longest cls w rest) (denotes : Denotes cls w token)
    (white : ¬cls.IsWhite) (respelled : Respelled cls rest w w') (hr : Relaid rest rest') :
    Longest cls w' rest' := by
  cases denotes with
  | text =>
    obtain rfl := respelled.resolve_right fun h => by cases h.1
    exact longest_text h.accepted rest'
  | quotedName =>
    obtain rfl := respelled.resolve_right fun h => by cases h.1
    exact longest_quotedName h.accepted rest'
  | lineBreak => exact absurd (.inr rfl) white
  | blank => exact absurd (.inl rfl) white
  | _ => exact h.relaid_plain rfl respelled.sameLetters hr

end WordClass

/-- A text laid out anew holds the same tokens, but for the case of names of functions. -/
theorem Relaid.tokensOf {ts : List Token} (h : Relaid cs cs') (tokens : TokensOf cs ts) :
    ∃ ts', TokensOf cs' ts' ∧ Token.lowerNames ts' = Token.lowerNames ts := by
  induction h generalizing ts with
  | @done g hg =>
    refine ⟨ts, ?_, rfl⟩
    rw [← List.append_nil g]
    exact (TokensOf.white_append hg).2 tokens
  | @word cls g w w' rest rest' hg longest respelled relaid ih =>
    obtain ⟨token, ts, denotes, rest, rfl⟩ := tokens.tail longest
    obtain ⟨ts', rest', same⟩ := ih rest
    by_cases white : cls.IsWhite
    · obtain rfl := TokensOf.eq_none_of_white denotes white
      have letters : w' = w := respelled.resolve_right fun h => by
        rcases white with rfl | rfl <;> cases h.1
      have hw := letters ▸ white_of_matches longest.accepted white
      exact ⟨ts', (TokensOf.white_append hg).2 ((TokensOf.white_append hw).2 rest'), same⟩
    · have longest' := longest.relaid denotes white respelled relaid
      rcases respelled with rfl | ⟨rfl, paren, letters⟩
      · have tokens' := TokensOf.word longest' denotes rest'
        refine ⟨token.toList ++ ts', (TokensOf.white_append hg).2 tokens', ?_⟩
        cases token with
        | none => exact same
        | some t => exact Token.lowerNames_cons (.inl rfl) same
      · cases denotes
        refine ⟨_, (TokensOf.white_append hg).2 (.word longest' .identifier rest'), ?_⟩
        refine Token.lowerNames_cons (.inr ⟨rest.head?_of_opensParen paren, ?_⟩) same
        simp only [Token.lowered, lowerCase, String.toList_ofList]
        rw [letters]

end ColumnFormula
