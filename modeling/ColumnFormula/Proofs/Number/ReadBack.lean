import ColumnFormula.Number.Numeral
import ColumnFormula.Proofs.Number.Bits
import ColumnFormula.Proofs.Number.Rounding

/-!
# Reading back what is written

The written form of a magnitude reads as that magnitude (`decimal?_ofMagnitude`): it is the
shortest decimal or a multiple of it with a zero after the point, and both lie in the cell of
the magnitude. So numbers are read back from their written forms (`integer?_ofInt`, `real?_ofReal`),
and different ones are written differently (`ofInt_injective`, `ofReal_injective`).
-/

namespace ColumnFormula

namespace Numeral

/-! ## Digits -/

def Digits (cs : List Char) : Prop := ∀ c ∈ cs, c.isDigit = true

variable {ds es r : List Char}

theorem Digits.append (hd : Digits ds) (he : Digits es) : Digits (ds ++ es) :=
  List.forall_mem_append.2 ⟨hd, he⟩

theorem digits_replicate (n : Nat) : Digits (List.replicate n '0') := fun _ h =>
  (List.eq_of_mem_replicate h) ▸ rfl

theorem digits_ofNat (n : Nat) : Digits (ofNat n) := fun _ =>
  Nat.isDigit_of_mem_toDigits (by decide) (by decide)

theorem ofNat_ne_nil (n : Nat) : ofNat n ≠ [] := Nat.toDigits_ne_nil

theorem value_ofNat (n : Nat) : Nat.ofDigitChars 10 (ofNat n) 0 = n := Nat.ofDigitChars_ten_toDigits

/-- What follows the digits is no digit. -/
def Ends (r : List Char) : Prop := ∀ c ∈ r.head?, c.isDigit = false

/-- Taking stops at the first character that is not accepted. -/
theorem takeWhile_stop {accepts : Char → Bool} {w : List Char} (hw : ∀ c ∈ w, accepts c = true)
    (hr : ∀ c ∈ r.head?, accepts c = false) : (w ++ r).takeWhile accepts = w := by
  rw [List.takeWhile_append_of_pos hw]
  cases r with
  | nil => simp
  | cons c r => simp [hr c rfl]

theorem takeWhile_digits (hd : Digits ds) (hr : Ends r) :
    (ds ++ r).takeWhile Char.isDigit = ds := takeWhile_stop hd hr

theorem dropWhile_digits (hd : Digits ds) (hr : Ends r) :
    (ds ++ r).dropWhile Char.isDigit = r := by
  rw [List.dropWhile_append_of_pos hd]
  cases r with
  | nil => rfl
  | cons c r => simp [hr c rfl]

/-! ## Integers -/

theorem sign_digits (hd : Digits ds) : sign ds = (false, ds) := by
  unfold sign
  split
  · exact absurd (hd _ List.mem_cons_self) (by decide)
  · exact absurd (hd _ List.mem_cons_self) (by decide)
  · rfl

theorem integer?_ofInt (i : Int) : integer? (ofInt i) = some i := by
  unfold ofInt
  split
  · have read : integer? ('-' :: ofNat i.natAbs) = some (-(i.natAbs : Int)) := by
      simp [integer?, sign, digits?_ofNat]
    rw [read]
    congr 1
    omega
  · have read : integer? (ofNat i.natAbs) = some (i.natAbs : Int) := by
      simp [integer?, sign_digits (digits_ofNat _), digits?_ofNat]
    rw [read]
    congr 1
    omega

theorem ofInt_injective {i j : Int} (h : ofInt i = ofInt j) : i = j := by
  have := integer?_ofInt i
  rw [h, integer?_ofInt] at this
  exact (Option.some.inj this).symm

/-! ## Decimals -/

theorem decimal?_whole (hd : Digits ds) (hne : ds ≠ []) (hr : Ends r)
    (point : r.head? ≠ some '.') :
    decimal? (ds ++ r) = (exponent? r).map fun e => ⟨Nat.ofDigitChars 10 ds 0, e⟩ := by
  unfold decimal?
  simp only [takeWhile_digits hd hr, dropWhile_digits hd hr]
  split
  · exact absurd rfl point
  · rw [if_neg fun h => hne h.1]
    simp

theorem decimal?_pointed (hd : Digits ds) (he : Digits es) (hne : ds ≠ [] ∨ es ≠ [])
    (hr : Ends r) :
    decimal? (ds ++ '.' :: (es ++ r)) =
      (exponent? r).map fun e => ⟨Nat.ofDigitChars 10 (ds ++ es) 0, e - es.length⟩ := by
  have point : Ends ('.' :: (es ++ r)) := fun c h => by cases h; rfl
  unfold decimal?
  simp only [takeWhile_digits hd point, dropWhile_digits hd point, takeWhile_digits he hr,
    dropWhile_digits he hr]
  rw [if_neg fun h => hne.elim (· h.1) (· h.2)]

theorem exponent?_power (i : Int) : exponent? ('e' :: ofInt i) = some i := by
  rw [exponent?, if_pos (.inl rfl), integer?_ofInt]

/-! ## Shortest decimals -/

/-- A decimal with the same value as `d`, as far as rounding can tell. -/
def ReadsAs (cs : List Char) (d : Decimal) : Prop :=
  ∃ read, decimal? cs = some read ∧ ∀ k, d.Rounds k → read.Rounds k

theorem readsAs_pointed {d : Decimal} (hd : Digits ds) (he : Digits es) (hne : ds ≠ [])
    (value : Nat.ofDigitChars 10 (ds ++ es) 0 = d.digits) (exponent : -es.length = d.exponent) :
    ReadsAs (ds ++ '.' :: es) d := by
  have nothing : Ends [] := fun c h => by cases h
  have read := decimal?_pointed hd he (.inl hne) nothing
  rw [List.append_nil, value, exponent?, Option.map_some, Int.zero_sub, exponent] at read
  exact ⟨d, read, fun _ h => h⟩

theorem take_ofNat_ne_nil (n : Nat) {point : Int} (h : 0 < point) :
    (ofNat n).take point.toNat ≠ [] := by
  have := List.length_pos_iff.2 (ofNat_ne_nil n)
  rw [← List.length_pos_iff, List.length_take]
  omega

theorem readsAs_positional {n : Nat} {e point : Int} (hp : point = (ofNat n).length + e) :
    ReadsAs (positional (ofNat n) point) ⟨n, e⟩ := by
  have digits := digits_ofNat n
  have zero : Digits ['0'] := digits_replicate 1
  unfold positional
  split
  · -- zeros between the point and the digits
    refine readsAs_pointed zero ((digits_replicate _).append digits) (by simp) ?_ ?_
    · simp [Nat.ofDigitChars_append, Nat.ofDigitChars_cons, value_ofNat]
    · simp only [List.length_append, List.length_replicate]
      omega
  · split
    · -- zeros between the digits and the point, and one after it
      have power : (point.toNat - (ofNat n).length) = e.toNat := by omega
      have value : Nat.ofDigitChars 10 (ofNat n ++ List.replicate e.toNat '0' ++ ['0']) 0
          = n * 10 ^ (e.toNat + 1) := by
        simp [Nat.ofDigitChars_append, Nat.ofDigitChars_cons, value_ofNat, Nat.pow_succ]
        ring
      obtain ⟨d, read, rounds⟩ : ReadsAs (ofNat n ++ List.replicate e.toNat '0' ++ '.' :: ['0'])
          ⟨n * 10 ^ (e.toNat + 1), -1⟩ :=
        readsAs_pointed (digits.append (digits_replicate _)) zero (by simp [ofNat_ne_nil]) value rfl
      rw [power]
      exact ⟨d, read, fun k h => rounds k (h.shift (by omega))⟩
    · -- the point among the digits
      refine readsAs_pointed (fun c h => digits c (List.mem_of_mem_take h))
        (fun c h => digits c (List.mem_of_mem_drop h)) (take_ofNat_ne_nil n (by omega)) ?_ ?_
      · rw [List.take_append_drop, value_ofNat]
      · show _ = e
        rw [List.length_drop]
        omega

theorem readsAs_scientific {n : Nat} {e point : Int} (hp : point = (ofNat n).length + e) :
    ReadsAs (scientific (ofNat n) point) ⟨n, e⟩ := by
  have digits := digits_ofNat n
  have value := value_ofNat n
  have power : Ends ('e' :: ofInt (point - 1)) := fun c h => by cases h; rfl
  refine ⟨⟨n, e⟩, ?_, fun _ h => h⟩
  unfold scientific
  match hn : ofNat n with
  | [] => exact absurd hn (ofNat_ne_nil n)
  | [c] =>
    rw [hn] at digits value hp
    refine (decimal?_whole digits (by simp) power (by simp)).trans ?_
    rw [exponent?_power, Option.map_some, value, hp]
    simp
  | c :: c' :: cs =>
    rw [hn] at digits value hp
    have split := List.forall_mem_cons.1 digits
    have first : Digits [c] := fun x h => List.mem_singleton.1 h ▸ split.1
    refine (decimal?_pointed first split.2 (.inl (by simp)) power).trans ?_
    rw [exponent?_power, Option.map_some, List.singleton_append, value, hp]
    simp only [List.length_cons, Option.some.injEq, Decimal.mk.injEq, true_and]
    omega

theorem readsAs_ofDecimal (d : Decimal) : ReadsAs (ofDecimal d) d := by
  unfold ofDecimal
  simp only
  split
  · exact readsAs_positional rfl
  · exact readsAs_scientific rfl

theorem decimal?_ofMagnitude {k : Nat} (hk : k < Binary64.infinity) :
    ∃ d, decimal? (ofMagnitude k) = some d ∧ d.magnitude = k := by
  unfold ofMagnitude
  split
  · rename_i h
    exact ⟨⟨0, -1⟩, by decide, h ▸ Decimal.magnitude_zero _⟩
  · rename_i h
    rw [if_neg (Nat.ne_of_lt hk)]
    obtain ⟨d, read, rounds⟩ := readsAs_ofDecimal (Decimal.shortest k)
    have positive := Nat.pos_of_ne_zero h
    exact ⟨d, read, (rounds k (Decimal.rounds_shortest positive)).magnitude_eq positive hk⟩

/-! ## Shapes -/

/-- The forms in which magnitudes are written. -/
inductive Shape : List Char → Prop where
  | infinite : Shape ['i', 'n', 'f']
  | pointed {ds es : List Char} : Digits ds → ds ≠ [] → Digits es → es ≠ [] →
      Shape (ds ++ '.' :: es)
  | power {c : Char} (i : Int) : c.isDigit = true → Shape (c :: 'e' :: ofInt i)
  | pointedPower {c : Char} {es : List Char} (i : Int) : c.isDigit = true → Digits es →
      es ≠ [] → Shape (c :: '.' :: (es ++ 'e' :: ofInt i))

theorem shape_positional (n : Nat) (point : Int) : Shape (positional (ofNat n) point) := by
  have digits := digits_ofNat n
  have nonempty := List.length_pos_iff.2 (ofNat_ne_nil n)
  have zero : Digits ['0'] := digits_replicate 1
  unfold positional
  split
  · exact .pointed zero (by simp) ((digits_replicate _).append digits) (by simp [ofNat_ne_nil])
  · split
    · exact .pointed (digits.append (digits_replicate _)) (by simp [ofNat_ne_nil]) zero (by simp)
    · refine .pointed (fun c h => digits c (List.mem_of_mem_take h))
        (take_ofNat_ne_nil n (by omega)) (fun c h => digits c (List.mem_of_mem_drop h)) ?_
      rw [← List.length_pos_iff, List.length_drop]
      omega

theorem shape_scientific (n : Nat) (point : Int) : Shape (scientific (ofNat n) point) := by
  have digits := digits_ofNat n
  unfold scientific
  match hn : ofNat n with
  | [] => exact absurd hn (ofNat_ne_nil n)
  | [c] =>
    rw [hn] at digits
    exact .power _ (digits c List.mem_cons_self)
  | c :: c' :: cs =>
    rw [hn] at digits
    have split := List.forall_mem_cons.1 digits
    exact .pointedPower _ split.1 split.2 (by simp)

theorem shape_ofMagnitude (k : Nat) : Shape (ofMagnitude k) := by
  have zero : Digits ['0'] := digits_replicate 1
  unfold ofMagnitude
  split
  · exact .pointed zero (by simp) zero (by simp)
  · split
    · exact .infinite
    · unfold ofDecimal
      simp only
      split
      · exact shape_positional ..
      · exact shape_scientific ..

theorem Shape.cons {cs : List Char} (h : Shape cs) : cs = ['i', 'n', 'f'] ∨
    ∃ c rest, cs = c :: rest ∧ c.isDigit = true := by
  cases h with
  | infinite => exact .inl rfl
  | @pointed ds es hd hne =>
    cases ds with
    | nil => exact absurd rfl hne
    | cons c ds => exact .inr ⟨c, _, rfl, hd c List.mem_cons_self⟩
  | power i hc => exact .inr ⟨_, _, rfl, hc⟩
  | pointedPower i hc => exact .inr ⟨_, _, rfl, hc⟩

theorem Shape.digits?_eq_none {cs : List Char} (h : Shape cs) : digits? cs = none := by
  have foreign : ∃ c ∈ cs, c.isDigit = false := by
    cases h with
    | infinite => exact ⟨'i', List.mem_cons_self, rfl⟩
    | pointed => exact ⟨'.', List.mem_append_right _ List.mem_cons_self, rfl⟩
    | power => exact ⟨'e', List.mem_cons_of_mem _ List.mem_cons_self, rfl⟩
    | pointedPower => exact ⟨'.', List.mem_cons_of_mem _ List.mem_cons_self, rfl⟩
  obtain ⟨c, hc, other⟩ := foreign
  refine if_neg fun all => ?_
  rw [List.all_eq_true.1 all.2 c hc] at other
  cases other

theorem Shape.sign_eq {cs : List Char} (h : Shape cs) : sign cs = (false, cs) := by
  rcases h.cons with rfl | ⟨c, rest, rfl, hc⟩
  · rfl
  · have minus : c ≠ '-' := by rintro rfl; exact absurd hc (by decide)
    have plus : c ≠ '+' := by rintro rfl; exact absurd hc (by decide)
    simp [sign, minus, plus]

/-! ## Reals -/

theorem ofReal_cases (x : Float) :
    (Binary64.isNaN x = true ∧ ofReal x = ['N', 'a', 'N']) ∨
    (Binary64.isNaN x = false ∧ Binary64.isNegative x = true ∧
      ofReal x = '-' :: ofMagnitude (Binary64.magnitude x)) ∨
    (Binary64.isNaN x = false ∧ Binary64.isNegative x = false ∧
      ofReal x = ofMagnitude (Binary64.magnitude x)) := by
  unfold ofReal
  split
  · rename_i hn
    exact .inl ⟨hn, rfl⟩
  · rename_i hn
    rw [Bool.not_eq_true] at hn
    split
    · rename_i hs
      exact .inr (.inl ⟨hn, hs, rfl⟩)
    · rename_i hs
      rw [Bool.not_eq_true] at hs
      exact .inr (.inr ⟨hn, hs, rfl⟩)

/-- No real is written like an integer. -/
theorem integer?_ofReal (x : Float) : integer? (ofReal x) = none := by
  have shape := shape_ofMagnitude (Binary64.magnitude x)
  rcases ofReal_cases x with ⟨-, written⟩ | ⟨-, -, written⟩ | ⟨-, -, written⟩ <;> rw [written]
  · decide
  · simp only [integer?, sign, shape.digits?_eq_none]
    rfl
  · simp only [integer?, shape.sign_eq, shape.digits?_eq_none]
    rfl

theorem toLower_of_isDigit {c : Char} (h : c.isDigit = true) : c.toLower = c := by
  simp only [Char.isDigit, Bool.and_eq_true, decide_eq_true_eq] at h
  rw [Char.toLower, dif_neg]
  intro upper
  exact absurd (UInt32.le_trans upper.1 h.2) (by decide)

theorem real?_ofMagnitude {cs : List Char} {negative : Bool} {k : Nat}
    (hk : k ≤ Binary64.infinity) (hs : sign cs = (negative, ofMagnitude k)) :
    real? cs = some (Binary64.ofMagnitude negative k) := by
  rw [real?, hs]
  rcases Nat.lt_or_eq_of_le hk with finite | rfl
  · obtain ⟨d, read, value⟩ := decimal?_ofMagnitude finite
    rcases (shape_ofMagnitude k).cons with infinite | ⟨c, rest, same, digit⟩
    · rw [infinite] at read
      cases read
    · -- the names of the infinities and NaNs start with letters
      have named : ∀ l ls, l.isDigit = false →
          String.ofList ((ofMagnitude k).map Char.toLower) ≠ String.ofList (l :: ls) := by
        intro l ls letter h
        rw [same, String.ofList_inj, List.map_cons, List.cons.injEq, toLower_of_isDigit digit] at h
        rw [h.1, letter] at digit
        cases digit
      dsimp only
      rw [if_neg (not_or.2 ⟨named 'i' ['n', 'f'] rfl, named 'i' _ rfl⟩), if_neg (named 'n' _ rfl),
        read, Option.map_some, value]
  · rfl

/-- The written form of a real reads as that real. -/
theorem real?_ofReal (x : Float) : real? (ofReal x) = some x := by
  rcases ofReal_cases x with ⟨nan, written⟩ | ⟨number, negative, written⟩ |
    ⟨number, positive, written⟩ <;> rw [written]
  · have read : real? ['N', 'a', 'N'] = some Binary64.nan := by decide +kernel
    rw [read, Binary64.eq_of_isNaN nan (y := Binary64.nan) (by decide +kernel)]
  · rw [real?_ofMagnitude (Binary64.magnitude_le number) rfl, ← negative,
      Binary64.ofMagnitude_magnitude number]
  · rw [real?_ofMagnitude (Binary64.magnitude_le number) (shape_ofMagnitude _).sign_eq, ← positive,
      Binary64.ofMagnitude_magnitude number]

theorem ofMagnitude_injective {j k : Nat} (hj : j ≤ Binary64.infinity)
    (hk : k ≤ Binary64.infinity) (h : ofMagnitude j = ofMagnitude k) : j = k := by
  have read := real?_ofMagnitude hj (shape_ofMagnitude j).sign_eq
  rw [h, real?_ofMagnitude hk (shape_ofMagnitude k).sign_eq, Option.some.injEq] at read
  rw [← (Binary64.magnitude_ofMagnitude false hj).1, ← read,
    (Binary64.magnitude_ofMagnitude false hk).1]

theorem ofReal_injective {x y : Float} (h : ofReal x = ofReal y) : x = y := by
  have read := real?_ofReal x
  rw [h, real?_ofReal] at read
  exact (Option.some.inj read).symm

end Numeral

end ColumnFormula
