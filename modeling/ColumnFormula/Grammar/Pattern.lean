/-!
# Patterns

Regular patterns over characters. `Matches` says which words a pattern describes;
`longest?` finds the longest such word at the front of a text by taking the pattern apart
one character at a time (`step`), and stops as soon as nothing can match any more. It is
exact: `longest?_eq_some_iff`, `longest?_eq_none_iff`.
-/

namespace ColumnFormula

inductive Pattern where
  | never
  | nothing
  | one (accepts : Char → Bool)
  | seq (first second : Pattern)
  | alt (left right : Pattern)
  | star (body : Pattern)

namespace Pattern

inductive Matches : Pattern → List Char → Prop where
  | nothing : Matches nothing []
  | one {accepts : Char → Bool} {c : Char} : accepts c = true → Matches (one accepts) [c]
  | seq {p q : Pattern} {u v : List Char} : Matches p u → Matches q v → Matches (seq p q) (u ++ v)
  | left {p q : Pattern} {u : List Char} : Matches p u → Matches (alt p q) u
  | right {p q : Pattern} {u : List Char} : Matches q u → Matches (alt p q) u
  | done {p : Pattern} : Matches (star p) []
  | more {p : Pattern} {u v : List Char} : Matches p u → Matches (star p) v →
      Matches (star p) (u ++ v)

/-! ## Building -/

def char (c : Char) : Pattern := one (· == c)

/-- One of the characters given. -/
def oneOf (cs : List Char) : Pattern := one cs.contains

/-- Any character but those given. -/
def noneOf (cs : List Char) : Pattern := one (!cs.contains ·)

def optional (p : Pattern) : Pattern := alt p nothing

def plus (p : Pattern) : Pattern := seq p (star p)

/-! ## Taking apart -/

/-- Whether the empty word matches. -/
def nullable : Pattern → Bool
  | never => false
  | nothing => true
  | one _ => false
  | seq p q => p.nullable && q.nullable
  | alt p q => p.nullable || q.nullable
  | star _ => true

/-- `seq`, simplified. -/
def andThen : Pattern → Pattern → Pattern
  | never, _ => never
  | nothing, q => q
  | p, q => seq p q

/-- `alt`, simplified. -/
def orElse : Pattern → Pattern → Pattern
  | never, q => q
  | p, never => p
  | p, q => alt p q

/-- The pattern of what may follow a first character. -/
def step (c : Char) : Pattern → Pattern
  | never => never
  | nothing => never
  | one accepts => if accepts c then nothing else never
  | seq p q =>
    if p.nullable then orElse (andThen (p.step c) q) (q.step c) else andThen (p.step c) q
  | alt p q => orElse (p.step c) (q.step c)
  | star p => andThen (p.step c) (star p)

/-- The length of the longest matching word at the front of a text. -/
def longest? : Pattern → List Char → Option Nat
  | never, _ => none
  | p, [] => if p.nullable then some 0 else none
  | p, c :: cs =>
    match longest? (p.step c) cs with
    | some n => some (n + 1)
    | none => if p.nullable then some 0 else none

/-! ## The words of the parts -/

theorem nullable_iff {p : Pattern} : p.nullable = true ↔ Matches p [] := by
  induction p with
  | never => exact ⟨nofun, nofun⟩
  | nothing => exact ⟨fun _ => .nothing, fun _ => rfl⟩
  | one => exact ⟨nofun, nofun⟩
  | seq p q hp hq =>
    simp only [nullable, Bool.and_eq_true, hp, hq]
    refine ⟨fun h => .seq h.1 h.2, fun h => ?_⟩
    generalize hw : [] = w at h
    cases h with
    | seq hu hv =>
      obtain ⟨rfl, rfl⟩ := List.append_eq_nil_iff.1 hw.symm
      exact ⟨hu, hv⟩
  | alt p q hp hq =>
    simp only [nullable, Bool.or_eq_true, hp, hq]
    refine ⟨fun h => h.elim .left .right, fun h => ?_⟩
    cases h with
    | left h => exact .inl h
    | right h => exact .inr h
  | star => exact ⟨fun _ => .done, fun _ => rfl⟩

theorem matches_andThen {p q : Pattern} {w : List Char} :
    Matches (andThen p q) w ↔ Matches (seq p q) w := by
  unfold andThen
  split
  · refine ⟨nofun, fun h => ?_⟩
    cases h with
    | seq hu _ => nomatch hu
  · refine ⟨fun h => .seq .nothing h, fun h => ?_⟩
    cases h with
    | seq hu hv => cases hu; exact hv
  · rfl

theorem matches_orElse {p q : Pattern} {w : List Char} :
    Matches (orElse p q) w ↔ Matches (alt p q) w := by
  unfold orElse
  split
  · refine ⟨.right, fun h => ?_⟩
    cases h with
    | left h => nomatch h
    | right h => exact h
  · refine ⟨.left, fun h => ?_⟩
    cases h with
    | left h => exact h
    | right h => nomatch h
  · rfl

theorem matches_seq_cons {p q : Pattern} {c : Char} {w : List Char} :
    Matches (seq p q) (c :: w) ↔
      (∃ u v, w = u ++ v ∧ Matches p (c :: u) ∧ Matches q v) ∨
        (Matches p [] ∧ Matches q (c :: w)) := by
  constructor
  · intro h
    generalize hw : c :: w = x at h
    cases h with
    | @seq _ _ u v hu hv =>
      cases u with
      | nil => exact .inr ⟨hu, hv⟩
      | cons d u =>
        obtain ⟨rfl, rfl⟩ := List.cons.inj hw
        exact .inl ⟨u, v, rfl, hu, hv⟩
  · rintro (⟨u, v, rfl, hu, hv⟩ | ⟨hp, hq⟩)
    · exact .seq hu hv
    · exact .seq hp hq

theorem matches_star_cons {p : Pattern} {c : Char} {w : List Char} :
    Matches (star p) (c :: w) ↔ ∃ u v, w = u ++ v ∧ Matches p (c :: u) ∧ Matches (star p) v := by
  constructor
  · intro h
    generalize hw : c :: w = x at h
    generalize hp : star p = q at h
    induction h with
    | done => nomatch hw
    | @more p' u v hu hv _ ih =>
      cases hp
      cases u with
      | nil => exact ih hw rfl
      | cons d u =>
        obtain ⟨rfl, rfl⟩ := List.cons.inj hw
        exact ⟨u, v, rfl, hu, hv⟩
    | _ => nomatch hp
  · rintro ⟨u, v, rfl, hu, hv⟩
    exact .more hu hv

/-- What may follow `c` in a word of `p` is a word of `p.step c`. -/
theorem matches_step {p : Pattern} {c : Char} {w : List Char} :
    Matches (p.step c) w ↔ Matches p (c :: w) := by
  induction p generalizing w with
  | never => exact ⟨nofun, nofun⟩
  | nothing => exact ⟨nofun, nofun⟩
  | one accepts =>
    unfold step
    split
    · next h =>
      refine ⟨fun hw => ?_, fun hw => ?_⟩
      · cases hw; exact .one h
      · cases hw; exact .nothing
    · next h => exact ⟨nofun, fun hw => by cases hw; contradiction⟩
  | seq p q hp hq =>
    have tail : Matches (andThen (p.step c) q) w ↔
        ∃ u v, w = u ++ v ∧ Matches p (c :: u) ∧ Matches q v := by
      rw [matches_andThen]
      refine ⟨fun h => ?_, fun ⟨u, v, hw, hu, hv⟩ => hw ▸ .seq (hp.2 hu) hv⟩
      cases h with
      | seq hu hv => exact ⟨_, _, rfl, hp.1 hu, hv⟩
    rw [matches_seq_cons, step]
    split
    · next h =>
      rw [matches_orElse]
      refine ⟨fun hw => ?_, fun hw => ?_⟩
      · cases hw with
        | left hw => exact .inl (tail.1 hw)
        | right hw => exact .inr ⟨nullable_iff.1 h, hq.1 hw⟩
      · rcases hw with hw | ⟨_, hw⟩
        · exact .left (tail.2 hw)
        · exact .right (hq.2 hw)
    · next h =>
      rw [tail]
      refine ⟨.inl, fun hw => hw.resolve_right fun ⟨hn, _⟩ => h (nullable_iff.2 hn)⟩
  | alt p q hp hq =>
    rw [step, matches_orElse]
    refine ⟨fun h => ?_, fun h => ?_⟩
    · cases h with
      | left h => exact .left (hp.1 h)
      | right h => exact .right (hq.1 h)
    · cases h with
      | left h => exact .left (hp.2 h)
      | right h => exact .right (hq.2 h)
  | star p hp =>
    rw [step, matches_andThen, matches_star_cons]
    refine ⟨fun h => ?_, fun ⟨u, v, hw, hu, hv⟩ => hw ▸ .seq (hp.2 hu) hv⟩
    cases h with
    | seq hu hv => exact ⟨_, _, rfl, hp.1 hu, hv⟩

/-! ## The longest word -/

/-- The first `n` characters of `cs` match, and no more of them do. -/
def IsLongest (p : Pattern) (cs : List Char) (n : Nat) : Prop :=
  n ≤ cs.length ∧ Matches p (cs.take n) ∧ ∀ m, n < m → m ≤ cs.length → ¬Matches p (cs.take m)

theorem longest?_spec (p : Pattern) (cs : List Char) :
    match longest? p cs with
    | some n => IsLongest p cs n
    | none => ∀ m, m ≤ cs.length → ¬Matches p (cs.take m) := by
  fun_induction longest? p cs with
  | case1 cs => exact fun _ _ => nofun
  | case2 p _ hn =>
    exact ⟨Nat.le_refl _, nullable_iff.1 hn, fun m h h' => absurd h (Nat.not_lt.2 h')⟩
  | case3 p _ hn => exact fun m _ h => hn (nullable_iff.2 (by simpa using h))
  | case4 p c cs _ n hl ih =>
    rw [hl] at ih
    obtain ⟨hle, hm, hmax⟩ := ih
    refine ⟨by simpa using hle, matches_step.1 hm, fun m h h' hm' => ?_⟩
    cases m with
    | zero => omega
    | succ m => exact hmax m (by omega) (by simpa using h') (matches_step.2 hm')
  | case5 p c cs _ hl hn ih =>
    rw [hl] at ih
    refine ⟨Nat.zero_le _, nullable_iff.1 hn, fun m h h' hm' => ?_⟩
    cases m with
    | zero => omega
    | succ m => exact ih m (by simpa using h') (matches_step.2 hm')
  | case6 p c cs _ hl hn ih =>
    rw [hl] at ih
    intro m h' hm'
    cases m with
    | zero => exact hn (nullable_iff.2 hm')
    | succ m => exact ih m (by simpa using h') (matches_step.2 hm')

theorem longest?_eq_some_iff {p : Pattern} {cs : List Char} {n : Nat} :
    longest? p cs = some n ↔ IsLongest p cs n := by
  have h := longest?_spec p cs
  cases hl : longest? p cs with
  | none =>
    rw [hl] at h
    exact ⟨nofun, fun hn => absurd hn.2.1 (h n hn.1)⟩
  | some m =>
    rw [hl] at h
    constructor
    · intro hmn
      cases hmn
      exact h
    · intro hn
      congr 1
      rcases Nat.lt_trichotomy m n with hlt | heq | hgt
      · exact absurd hn.2.1 (h.2.2 n hlt hn.1)
      · exact heq
      · exact absurd h.2.1 (hn.2.2 m hgt h.1)

theorem longest?_eq_none_iff {p : Pattern} {cs : List Char} :
    longest? p cs = none ↔ ∀ m, m ≤ cs.length → ¬Matches p (cs.take m) := by
  have h := longest?_spec p cs
  cases hl : longest? p cs with
  | none => rw [hl] at h; exact ⟨fun _ => h, fun _ => rfl⟩
  | some m => rw [hl] at h; exact ⟨nofun, fun hn => absurd h.2.1 (hn m h.1)⟩

end Pattern

end ColumnFormula
