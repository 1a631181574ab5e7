import Mathlib
import ColumnFormula.Equation
import ColumnFormula.Proofs.Acceptance
import ColumnFormula.Proofs.Layout

/-!
# Literals

A constant is written in a column's name as it could stand in an equation, and most constants are
read back as they were (`Scalar.HasLiteral`). The text is one word (`compile_single`) or a minus and
a word (`compile_minus`). The numeral of a magnitude has the form of its class and stands for the
magnitude again, and the parser takes the minus into the number. The infinite reals have no literal:
they are written as names (`compile_inf`).
-/

namespace ColumnFormula

open Numeral

variable {w rest : List Char}

/-! ## Words that make up a text -/

namespace WordClass

variable {cls : WordClass}

/-- A whole text that is a word is its own longest word. -/
theorem longest_whole (h : cls.pattern.Matches w) : Longest cls w [] :=
  ⟨h, fun {_ u v} _ same => by
    have := congrArg List.length same
    simp only [List.length_append, List.length_nil] at this
    omega⟩

/-- A minus is a word whatever follows it. -/
theorem longest_minus (rest : List Char) : Longest sign ['-'] rest := by
  refine ⟨.one rfl, fun {other u v} accepted same => ?_⟩
  obtain ⟨c, u, rfl⟩ := List.exists_cons_of_ne_nil (ne_nil_of_matches accepted)
  obtain rfl : c = '-' := (List.cons.inj same).1
  have family : other.family = .sign := (family_of_matches accepted).symm
  obtain rfl : other = sign := by cases other <;> first | rfl | cases family
  obtain ⟨_, single, -⟩ := Pattern.matches_one.1 accepted
  rw [single]
  rfl

theorem matches_power (i : Int) : exponent.Matches ('e' :: ofInt i) := by
  have digits := matches_digits.2 ⟨ofNat_ne_nil i.natAbs, digits_ofNat i.natAbs⟩
  have mark : (Pattern.oneOf ['e', 'E']).Matches ['e'] := .one rfl
  have minus : (Pattern.oneOf ['+', '-']).Matches ['-'] := .one rfl
  unfold ofInt
  split
  · exact .seq (.seq mark (.left minus)) digits
  · exact .seq (.seq mark (.right .nothing)) digits

theorem matches_pointed {ds es power : List Char} (hd : Digits ds) (hne : ds ≠ []) (he : Digits es)
    (hne' : es ≠ []) (hp : (Pattern.optional exponent).Matches power) :
    real.pattern.Matches (ds ++ '.' :: (es ++ power)) := by
  have point : (Pattern.char '.').Matches ['.'] := Pattern.matches_char.2 rfl
  exact .left (.seq (matches_digits.2 ⟨hne, hd⟩)
    (.seq point (.seq (matches_digits.2 ⟨hne', he⟩) hp)))

/-- Finite magnitudes are written as reals. -/
theorem matches_shape (h : Numeral.Shape w) (finite : w ≠ ['i', 'n', 'f']) :
    real.pattern.Matches w := by
  have single : ∀ {c : Char}, c.isDigit = true → Digits [c] := fun hc =>
    List.forall_mem_singleton.2 hc
  cases h with
  | infinite => exact absurd rfl finite
  | @pointed ds es hd hne he hne' =>
    have numeral := matches_pointed hd hne he hne' (.right .nothing)
    rwa [List.append_nil] at numeral
  | @power c i hc =>
    exact .right (.right (.seq (matches_digits.2 ⟨by simp, single hc⟩) (matches_power i)))
  | @pointedPower c es i hc he hne =>
    exact matches_pointed (single hc) (by simp) he hne (.left (matches_power i))

theorem matches_ofMagnitude {k : Nat} (hk : k < Binary64.infinity) :
    real.pattern.Matches (ofMagnitude k) := by
  refine matches_shape (shape_ofMagnitude k) fun infinite => ?_
  have inf := ofMagnitude_injective (Nat.le_of_lt hk) (Nat.le_refl _)
    (infinite.trans (by decide : _ = ofMagnitude Binary64.infinity))
  omega

/-! ## What they stand for -/

theorem denotes_ofNat {n : Nat} (hn : (n : Int) ≤ Int64.maxValue.toInt) :
    Denotes integer (Numeral.ofNat n) (some (.integer (Int64.ofNat n))) :=
  .integer (digits_ofNat n) (ofNat_ne_nil n) (by rw [value_ofNat, toInt_ofNat hn])

/-- The numeral of a magnitude stands for the double of that magnitude. -/
theorem denotes_ofMagnitude {k : Nat} (hk : k < Binary64.infinity) :
    Denotes real (ofMagnitude k) (some (.real (Binary64.ofMagnitude false k))) := by
  obtain ⟨d, numeral⟩ := numeral_of_matches (matches_ofMagnitude hk)
  obtain ⟨d', read, magnitude⟩ := decimal?_ofMagnitude hk
  obtain rfl : d = d' := Option.some.inj (numeral.decimal?_eq.symm.trans read)
  have denotes := Denotes.real numeral
  rwa [magnitude] at denotes

end WordClass

/-- The constants that can be written in an equation. The least integer is none of them, since its
magnitude alone is beyond the integers. Nor is an infinite real or a NaN. -/
def Scalar.HasLiteral : Scalar → Prop
  | integer i => i ≠ Int64.minValue
  | real x => Binary64.magnitude x < Binary64.infinity
  | text t => WordClass.Quoted '"' t.toList

namespace Equation

open WordClass Lexeme

variable {cls : WordClass} {token : Token} {e : Expr} {s : Schema} {text : String}

/-- A text that is read to its end is compiled to what its lexemes spell. -/
theorem compile_of_spells {ts : List Lexeme} {q : Position}
    (hr : Reads .start text.toList ts q [])
    (he : Spells (.expression e) (ts ++ [⟨.endOfText, q⟩]) [⟨.endOfText, q⟩]) :
    compile s text =
      ((e.resolve s).mapError .meaning).map fun root => ⟨text, root⟩ := by
  have ended : Expr.Ended [⟨.endOfText, q⟩] := fun l hl => by
    cases hl
    rfl
  rw [compile, scan, hr.scanFrom_end]
  dsimp only
  rw [Expr.parse_of_spells he ended]
  dsimp only
  cases e.resolve s <;> rfl

/-- A text of one word. -/
theorem reads_single (hw : text.toList = w) (accepted : cls.pattern.Matches w)
    (denotes : Denotes cls w (some token)) :
    Reads .start text.toList [⟨token, .start⟩] (cls.after w .start) [] := by
  have reads : Reads .start (w ++ []) [⟨token, .start⟩] (cls.after w .start) [] :=
    .word (longest_whole accepted) denotes .done
  rw [List.append_nil] at reads
  rwa [hw]

/-- A text of one word after a minus. -/
theorem reads_minus (hw : text.toList = '-' :: w) (accepted : cls.pattern.Matches w)
    (denotes : Denotes cls w (some token)) :
    ∃ q, Reads .start text.toList [⟨.minus, ⟨1, 1⟩⟩, ⟨token, ⟨1, 2⟩⟩] q [] := by
  have word : Reads ⟨1, 2⟩ (w ++ []) [⟨token, ⟨1, 2⟩⟩] (cls.after w ⟨1, 2⟩) [] :=
    .word (longest_whole accepted) denotes .done
  rw [List.append_nil] at word
  rw [hw]
  exact ⟨_, .word (longest_minus w) .minus word⟩

theorem compile_single {v : Scalar} (hw : text.toList = w) (accepted : cls.pattern.Matches w)
    (denotes : Denotes cls w (some token))
    (literal : ∀ p rest, Spells (.primary (.literal v p)) (⟨token, p⟩ :: rest) rest) :
    compile s text = .ok ⟨text, .constant v⟩ :=
  compile_of_spells (reads_single hw accepted denotes)
    (.ofTerm (.ofFactor (.ofPrimary (literal ..))))

theorem compile_minus {v : Scalar} (hw : text.toList = '-' :: w)
    (accepted : cls.pattern.Matches w) (denotes : Denotes cls w (some token))
    (literal : ∀ p q rest,
      Spells (.factor (.literal v p)) (⟨.minus, p⟩ :: ⟨token, q⟩ :: rest) rest) :
    compile s text = .ok ⟨text, .constant v⟩ := by
  obtain ⟨q, reads⟩ := reads_minus hw accepted denotes
  exact compile_of_spells reads (.ofTerm (.ofFactor (literal ..)))

/-! ## Literals -/

theorem compile_integer {i : Int64} (hi : i ≠ Int64.minValue) :
    compile s (Scalar.integer i).columnName =
      .ok ⟨(Scalar.integer i).columnName, .constant (.integer i)⟩ := by
  have written := toList_integer i
  have small : (i.toInt.natAbs : Int) ≤ Int64.maxValue.toInt := by
    have least : i.toInt ≠ -2 ^ 63 := fun h => hi (Int64.toInt_inj.1 h)
    have low := i.le_toInt
    have high := i.toInt_le
    have greatest : Int64.maxValue.toInt = 2 ^ 63 - 1 := rfl
    omega
  have denotes := denotes_ofNat small
  have accepted : WordClass.integer.pattern.Matches (Numeral.ofNat i.toInt.natAbs) :=
    matches_digits.2 ⟨ofNat_ne_nil _, digits_ofNat _⟩
  by_cases negative : i.toInt < 0
  · have value : -Int64.ofNat i.toInt.natAbs = i := by
      have sign : -(i.toInt.natAbs : Int) = i.toInt := by omega
      rw [← Int64.ofInt_eq_ofNat, ← Int64.ofInt_neg, sign, Int64.ofInt_toInt]
    rw [ofInt, if_pos negative] at written
    refine compile_minus written accepted denotes fun p q rest => ?_
    have spells := @Spells.negativeInteger (Int64.ofNat i.toInt.natAbs) p q rest
    rwa [value] at spells
  · have value : i = Int64.ofNat i.toInt.natAbs := (ofNat_eq_of_toInt (by omega)).symm
    rw [ofInt, if_neg negative] at written
    rw [← value] at denotes
    exact compile_single written accepted denotes fun _ _ => .integer

theorem compile_real {x : Float} (hx : Binary64.magnitude x < Binary64.infinity) :
    compile s (Scalar.real x).columnName =
      .ok ⟨(Scalar.real x).columnName, .constant (.real x)⟩ := by
  have written := toList_real x
  have denotes := denotes_ofMagnitude hx
  have accepted := matches_ofMagnitude hx
  have number : Binary64.isNaN x = false := decide_eq_false (by omega)
  have value := Binary64.ofMagnitude_magnitude number
  rcases ofReal_cases x with ⟨nan, -⟩ | ⟨-, negative, form⟩ | ⟨-, positive, form⟩
  · rw [number] at nan
    cases nan
  · have opposite := Binary64.neg_ofMagnitude false (Nat.le_of_lt hx)
    rw [negative] at value
    rw [form] at written
    refine compile_minus written accepted denotes fun p q rest => ?_
    have spells := @Spells.negativeReal (Binary64.ofMagnitude false (Binary64.magnitude x)) p q rest
    rwa [opposite, Bool.not_false, value] at spells
  · rw [positive] at value
    rw [form] at written
    rw [value] at denotes
    exact compile_single written accepted denotes fun _ _ => .real

theorem compile_text {t : String} (ht : Quoted '"' t.toList) :
    compile s (Scalar.text t).columnName =
      .ok ⟨(Scalar.text t).columnName, .constant (.text t)⟩ := by
  have accepted : WordClass.text.pattern.Matches ('"' :: (t.toList ++ ['"'])) :=
    matches_closed_quote.2 ⟨_, rfl, ht⟩
  have denotes := Denotes.text ht
  rw [String.ofList_toList] at denotes
  exact compile_single (toList_text t) accepted denotes fun _ _ => .text

/-! ## Infinite reals -/

theorem columnName_infinite {x : Float} (h : Binary64.magnitude x = Binary64.infinity) :
    (Scalar.real x).columnName = if Binary64.isNegative x then "-inf" else "inf" := by
  have number : Binary64.isNaN x = false := by
    rw [Binary64.isNaN, h]
    exact decide_eq_false (Nat.lt_irrefl _)
  have infinite : ofMagnitude Binary64.infinity = ['i', 'n', 'f'] := by decide
  apply String.toList_inj.1
  rw [toList_real, ofReal, number, h, infinite]
  cases Binary64.isNegative x <;> rfl

theorem matches_inf : WordClass.identifier.pattern.Matches ['i', 'n', 'f'] := by
  have letters : (Pattern.star (.one fun c => c.isAlphanum || c == '_')).Matches ['n', 'f'] :=
    Pattern.matches_star_one.2 (by simp [Char.isAlphanum])
  exact .seq (.one rfl) letters

theorem denotes_inf : Denotes identifier ['i', 'n', 'f'] (some (.identifier "inf")) := .identifier

/-- The name of an infinite real is the name of a property. -/
theorem compile_inf (s : Schema) : compile s "inf" =
    (s.propertyColumn? "inf").elim (.error (.meaning (.unknownProperty "inf" ⟨1, 1⟩)))
      fun column => .ok ⟨"inf", .prop "inf" column⟩ := by
  have written : "inf".toList = ['i', 'n', 'f'] := rfl
  have reads := reads_single written matches_inf denotes_inf
  rw [compile_of_spells reads (.ofTerm (.ofFactor (.ofPrimary (.identifier id)))), Expr.resolve]
  cases s.propertyColumn? "inf" <;> rfl

/-- There is no opposite of a text. -/
theorem compile_minus_inf (s : Schema) : compile s "-inf" =
    .error (.meaning ((s.propertyColumn? "inf").elim (.unknownProperty "inf" ⟨1, 2⟩)
      fun _ => .argumentKinds "-" 1 .numeric (.single .text) ⟨1, 1⟩)) := by
  have written : "-inf".toList = ['-', 'i', 'n', 'f'] := rfl
  obtain ⟨q, reads⟩ := reads_minus written matches_inf denotes_inf
  rw [compile_of_spells reads
    (.ofTerm (.ofFactor (.negate id (.ofPrimary (.identifier id))))), Expr.resolve, Expr.resolve]
  cases s.propertyColumn? "inf" <;> rfl

/-- What is written for an integer other than the least, for a finite real or for a text that can be
quoted is read as that constant, and nothing else. What is written for an infinite real is read as
the name of a property: without a sign as that property, if there is one, and with a minus not at
all. -/
theorem compile_columnName (s : Schema) (v : Scalar) :
    (v.HasLiteral → compile s v.columnName = .ok ⟨v.columnName, .constant v⟩) ∧
    ∀ x, v = .real x → Binary64.magnitude x = Binary64.infinity →
      compile s v.columnName =
        if Binary64.isNegative x then
          .error (.meaning ((s.propertyColumn? "inf").elim (.unknownProperty "inf" ⟨1, 2⟩)
            fun _ => .argumentKinds "-" 1 .numeric (.single .text) ⟨1, 1⟩))
        else
          (s.propertyColumn? "inf").elim (.error (.meaning (.unknownProperty "inf" ⟨1, 1⟩)))
            fun column => .ok ⟨"inf", .prop "inf" column⟩ := by
  refine ⟨fun h => ?_, ?_⟩
  · cases v with
    | integer i => exact compile_integer h
    | real x => exact compile_real h
    | text t => exact compile_text h
  · rintro x rfl infinite
    rw [columnName_infinite infinite]
    split
    · exact compile_minus_inf s
    · exact compile_inf s

/-- Both zeros are constants of their own. -/
theorem compile_columnName_negativeZero :
    (Scalar.real (-0.0)).columnName = "-0.0" ∧
      compile Schema.empty "-0.0" = .ok ⟨"-0.0", .constant (.real (-0.0))⟩ := by
  have name : (Scalar.real (-0.0)).columnName = "-0.0" := by decide +kernel
  have finite : (Scalar.real (-0.0)).HasLiteral := by
    show Binary64.magnitude (-0.0) < Binary64.infinity
    decide +kernel
  have read := (compile_columnName Schema.empty (.real (-0.0))).1 finite
  rw [name] at read
  exact ⟨name, read⟩

/-- Two constants that are not read back: an infinite real, which an equation can come to by a
numeral beyond all doubles, and the least integer. -/
theorem infinity_has_no_literal :
    compile Schema.empty "1e999" =
        .ok ⟨"1e999", .constant (.real (Binary64.ofMagnitude false Binary64.infinity))⟩ ∧
      compile Schema.empty
          (Scalar.real (Binary64.ofMagnitude false Binary64.infinity)).columnName =
        .error (.meaning (.unknownProperty "inf" ⟨1, 1⟩)) ∧
      (Scalar.integer Int64.minValue).columnName = "-9223372036854775808" ∧
      compile Schema.empty "-9223372036854775808" =
        .error (.form (.invalidNumber "9223372036854775808" ⟨1, 2⟩)) := by
  refine ⟨?_, ?_, by decide, by cbv⟩
  · have written : "1e999".toList = ['1', 'e', '9', '9', '9'] := rfl
    have accepted : WordClass.real.pattern.Matches ['1', 'e', '9', '9', '9'] :=
      matches_shape (.power 999 rfl) (by decide)
    obtain ⟨d, numeral⟩ := numeral_of_matches accepted
    obtain rfl : d = ⟨1, 999⟩ :=
      Option.some.inj (numeral.decimal?_eq.symm.trans (by decide +kernel))
    have large : Decimal.magnitude ⟨1, 999⟩ = Binary64.infinity := by decide +kernel
    have denotes := Denotes.real numeral
    rw [large] at denotes
    exact compile_single written accepted denotes fun _ _ => .real
  · have infinite := Binary64.magnitude_ofMagnitude false (Nat.le_refl Binary64.infinity)
    rw [columnName_infinite infinite.1, infinite.2]
    exact compile_inf Schema.empty

end Equation

end ColumnFormula
