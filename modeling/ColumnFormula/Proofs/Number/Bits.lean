import Mathlib
import ColumnFormula.Number.Binary64

/-!
# Doubles by their bits

A double is told by its magnitude and its sign (`eq_of_magnitude`), and there is one NaN only
(`eq_of_isNaN`). Up to the infinite one, every magnitude is that of a double of either sign
(`magnitude_ofMagnitude`), and negation changes the sign alone (`neg_ofMagnitude`): the parts that
a double is unpacked to are packed again to the same exponent and mantissa under any sign
(`exists_signed`).
-/

namespace ColumnFormula.Binary64

open Float.Model Float.Model.UnpackedFloat

variable {x y : Float} {b : BitVec Format.binary64.numBits}

/-! ## Parts of a bit pattern -/

theorem toNat_unpackExponent (b : BitVec Format.binary64.numBits) :
    (unpackExponent b).toNat = b.toNat / 2 ^ 52 % 2 ^ 11 := by
  simp [unpackExponent, Nat.shiftRight_eq_div_pow]

theorem toNat_unpackMantissa (b : BitVec Format.binary64.numBits) :
    (unpackMantissa b).toNat = b.toNat % 2 ^ 52 := by
  simp [unpackMantissa]

theorem toNat_unpackSign (b : BitVec Format.binary64.numBits) :
    (unpackSign b).toNat = b.toNat / 2 ^ 63 := by
  have bound : b.toNat < 2 ^ 64 := b.isLt
  have bit : (unpackSign b).toNat = b.toNat / 2 ^ 63 % 2 := by
    simp [unpackSign, Nat.shiftRight_eq_div_pow]
  omega

theorem toNat_packComponents (s : Sign) (e : BitVec 11) (m : BitVec 52) :
    (packComponents Format.binary64 s e m).toNat =
      s.toBitVec.toNat * 2 ^ 63 + e.toNat * 2 ^ 52 + m.toNat := by
  have he := e.isLt
  have hm := m.isLt
  simp only [packComponents, BitVec.toNat_append]
  rw [← Nat.shiftLeft_add_eq_or_of_lt hm, ← Nat.shiftLeft_add_eq_or_of_lt he]
  simp only [Nat.shiftLeft_eq]
  ring

/-! ## Packing again -/

theorem toNat_implicitBit (m : BitVec 52) : (1#1 ++ m).toNat = 2 ^ 52 + m.toNat := by
  rw [BitVec.toNat_append, ← Nat.shiftLeft_add_eq_or_of_lt m.isLt]
  rfl

theorem log2_of_subnormal {n : Nat} (hn : 0 < n) (h : n < 2 ^ 52) :
    n.log2 + 1 ≠ Format.binary64.mantissaBits := by
  have := (Nat.log2_lt (Nat.ne_of_gt hn)).2 h
  show _ ≠ 53
  omega

theorem log2_of_normal {n : Nat} (h : 2 ^ 52 ≤ n) (h' : n < 2 ^ 53) :
    n.log2 + 1 = Format.binary64.mantissaBits := by
  rw [(Nat.log2_eq_iff (by omega)).2 ⟨h, h'⟩]
  rfl

/-- A subnormal number is packed with no exponent. -/
theorem pack_subnormal (s : Sign) {m : BitVec 52} {e : Int} (hm : 0 < m.toNat) (he : e = -1074) :
    UnpackedFloat.pack Format.binary64 (.finite s m.toNat e hm) =
      packComponents Format.binary64 s 0#11 m := by
  have biased : (e + Format.binary64.exponentBias +
      Format.binary64.mantissaBitsWithoutImplicit).toNat = 1 := by subst he; rfl
  simp only [UnpackedFloat.pack, biased]
  rw [if_neg (by decide), if_neg (log2_of_subnormal hm m.isLt)]
  simp

/-- A normal number is packed without the first bit of its mantissa. -/
theorem pack_normal (s : Sign) {m : BitVec 52} {c : BitVec 11} {e : Int}
    (hm : 0 < (1#1 ++ m).toNat) (he : e = c.toNat - 1075) (hc : c.toNat < 2047) :
    UnpackedFloat.pack Format.binary64 (.finite s (1#1 ++ m).toNat e hm) =
      packComponents Format.binary64 s c m := by
  have biased : (e + Format.binary64.exponentBias +
      Format.binary64.mantissaBitsWithoutImplicit).toNat = c.toNat := by
    show (e + 1023 + 52).toNat = _
    omega
  have significand := toNat_implicitBit m
  have bound := m.isLt
  have large : 2 ^ 52 ≤ (1#1 ++ m).toNat := by omega
  have small : (1#1 ++ m).toNat < 2 ^ 53 := by omega
  have tail : BitVec.ofNat 52 (1#1 ++ m).toNat = m := by
    apply BitVec.eq_of_toNat_eq
    rw [BitVec.toNat_ofNat]
    omega
  simp only [UnpackedFloat.pack, biased]
  rw [if_neg (by show ¬2048 ≤ c.toNat + 1; omega), if_pos (log2_of_normal large small)]
  exact congrArg₂ _ (BitVec.ofNat_toNat ..) tail

/-- The number that a bit pattern unpacks to, apart from its sign: packed under any sign it has
the exponent and the mantissa of the pattern. -/
theorem exists_signed (h : unpackExponent b = -1#11 → unpackMantissa b = 0#52) :
    ∃ body : Sign → UnpackedFloat,
      unpack Format.binary64 b = body (Sign.ofBitVec (unpackSign b)) ∧
      ∀ s, (body s).neg = body (-s) ∧ UnpackedFloat.pack Format.binary64 (body s) =
        packComponents Format.binary64 s (unpackExponent b) (unpackMantissa b) := by
  have bound : (unpackExponent b).toNat < 2048 := (unpackExponent b).isLt
  by_cases ones : unpackExponent b = -1#11
  · -- infinite, since a mantissa would make it a NaN
    refine ⟨.infinity, (if_pos ones).trans (if_pos (h ones)), fun s => ⟨rfl, ?_⟩⟩
    rw [ones, h ones]
    rfl
  have below : (unpackExponent b).toNat ≠ 2047 := fun e =>
    ones (BitVec.eq_of_toNat_eq e)
  by_cases zeros : unpackExponent b = 0#11
  · by_cases nothing : unpackMantissa b = 0#52
    · refine ⟨.zero, (if_neg ones).trans ((if_pos zeros).trans (dif_pos nothing)),
        fun s => ⟨rfl, ?_⟩⟩
      rw [zeros, nothing]
      rfl
    · refine ⟨fun s => .finite s _ _ _,
        (if_neg ones).trans ((if_pos zeros).trans (dif_neg nothing)), fun s => ⟨rfl, ?_⟩⟩
      rw [zeros]
      exact pack_subnormal s _ rfl
  · refine ⟨fun s => .finite s _ _ _, (if_neg ones).trans (if_neg zeros), fun s => ⟨rfl, ?_⟩⟩
    exact pack_normal s _ rfl (by omega)

/-! ## Magnitude and sign -/

theorem eq_of_bits (h : x.toBits.toBitVec = y.toBits.toBitVec) : x = y := by
  obtain ⟨⟨bits, hx⟩⟩ := x
  obtain ⟨⟨bits', hy⟩⟩ := y
  obtain rfl : bits = bits' := UInt64.toBitVec_inj.1 h
  rfl

theorem eq_of_magnitude (hm : magnitude x = magnitude y) (hs : isNegative x = isNegative y) :
    x = y := by
  refine eq_of_bits (BitVec.eq_of_toNat_eq ?_)
  have hx := x.toBits.toNat_lt
  have hy := y.toBits.toNat_lt
  simp only [magnitude] at hm
  simp only [isNegative, decide_eq_decide] at hs
  simp only [UInt64.toNat_toBitVec]
  omega

theorem bits_of_isNaN (h : isNaN x = true) :
    x.toBits.toBitVec = packedNaN Format.binary64 := by
  have large : 2047 * 2 ^ 52 < x.toBits.toNat % 2 ^ 63 := of_decide_eq_true h
  have exponent : (@unpackExponent Format.binary64 x.toBits.toBitVec).toNat =
      x.toBits.toNat / 2 ^ 52 % 2 ^ 11 := toNat_unpackExponent _
  have mantissa : (@unpackMantissa Format.binary64 x.toBits.toBitVec).toNat =
      x.toBits.toNat % 2 ^ 52 := toNat_unpackMantissa _
  refine x.toModel.valid.eq_packedNaN (BitVec.eq_of_toNat_eq ?_) fun zero => ?_
  · have ones : (-1#11).toNat = 2047 := rfl
    refine exponent.trans ?_
    rw [ones]
    omega
  · have := mantissa.symm.trans (congrArg BitVec.toNat zero)
    simp only [BitVec.toNat_ofNat, Nat.zero_mod] at this
    omega

/-- There is one NaN only. -/
theorem eq_of_isNaN (hx : isNaN x = true) (hy : isNaN y = true) : x = y :=
  eq_of_bits ((bits_of_isNaN hx).trans (bits_of_isNaN hy).symm)

theorem magnitude_le (h : isNaN x = false) : magnitude x ≤ infinity :=
  Nat.le_of_not_lt (of_decide_eq_false h)

/-- The number of the bits that a sign and a magnitude make. -/
def bitsOf (negative : Bool) (k : Nat) : Nat := if negative then 2 ^ 63 + k else k

theorem bits_eq (x : Float) : x.toBits.toBitVec.toNat = bitsOf (isNegative x) (magnitude x) := by
  have bound := x.toBits.toNat_lt
  simp only [UInt64.toNat_toBitVec, bitsOf, isNegative, magnitude, decide_eq_true_eq]
  split <;> omega

theorem bitsOf_lt {negative : Bool} {k : Nat} (h : k ≤ infinity) :
    bitsOf negative k < 2 ^ 64 := by
  have : infinity < 2 ^ 63 := by decide
  unfold bitsOf
  split <;> omega

/-- The sign that a set sign bit stands for. -/
def signOf (negative : Bool) : Sign := if negative then .negative else .positive

theorem sign_of_bits {negative : Bool} {k : Nat} (hk : k ≤ infinity)
    (hb : b.toNat = bitsOf negative k) : Sign.ofBitVec (unpackSign b) = signOf negative := by
  have greatest : infinity < 2 ^ 63 := by decide
  have bit : unpackSign b = BitVec.ofBool negative := by
    apply BitVec.eq_of_toNat_eq
    rw [toNat_unpackSign, hb, bitsOf]
    cases negative
    · exact Nat.div_eq_of_lt (by simp; omega)
    · show (2 ^ 63 + k) / 2 ^ 63 = 1
      omega
  rw [bit]
  cases negative <;> rfl

/-- Bits that are not those of a NaN can be unpacked and packed again, under either sign. -/
theorem exists_signed_of_bits {negative : Bool} {k : Nat} (hk : k ≤ infinity)
    (hb : b.toNat = bitsOf negative k) : ∃ body : Sign → UnpackedFloat,
      unpack Format.binary64 b = body (signOf negative) ∧ (∀ s, (body s).neg = body (-s)) ∧
      ∀ n, (UnpackedFloat.pack Format.binary64 (body (signOf n))).toNat = bitsOf n k := by
  have exponent := toNat_unpackExponent b
  have mantissa := toNat_unpackMantissa b
  have greatest : infinity = 2047 * 2 ^ 52 := rfl
  have split : k = (unpackExponent b).toNat * 2 ^ 52 + (unpackMantissa b).toNat := by
    rw [exponent, mantissa, hb, bitsOf]
    split <;> omega
  obtain ⟨body, same, packed⟩ := exists_signed (b := b) fun ones => by
    have all : (unpackExponent b).toNat = 2047 := congrArg BitVec.toNat ones
    refine BitVec.eq_of_toNat_eq ?_
    show _ = 0
    omega
  refine ⟨body, sign_of_bits hk hb ▸ same, fun s => (packed s).1, fun n => ?_⟩
  rw [(packed _).2, toNat_packComponents, Nat.add_assoc, ← split, bitsOf]
  cases n
  · show 0 * 2 ^ 63 + k = k
    omega
  · show 1 * 2 ^ 63 + k = 2 ^ 63 + k
    omega

theorem magnitude_of_bits {negative : Bool} {k : Nat} (hk : k ≤ infinity)
    (h : x.toBits.toBitVec.toNat = bitsOf negative k) :
    magnitude x = k ∧ isNegative x = negative := by
  have greatest : infinity < 2 ^ 63 := by decide
  have bits : x.toBits.toNat = bitsOf negative k := h
  rw [magnitude, isNegative, bits, bitsOf]
  cases negative <;> simp <;> omega

/-- Up to the infinite one every magnitude is that of a double, of either sign. -/
theorem magnitude_ofMagnitude (negative : Bool) {k : Nat} (hk : k ≤ infinity) :
    magnitude (ofMagnitude negative k) = k ∧ isNegative (ofMagnitude negative k) = negative := by
  have number : (UInt64.ofNat (bitsOf negative k)).toBitVec.toNat = bitsOf negative k :=
    Nat.mod_eq_of_lt (bitsOf_lt hk)
  obtain ⟨body, same, -, packed⟩ := exists_signed_of_bits hk number
  refine magnitude_of_bits hk ?_
  rw [← packed negative, ← same]
  rfl

theorem ofMagnitude_magnitude (h : isNaN x = false) :
    ofMagnitude (isNegative x) (magnitude x) = x := by
  have read := magnitude_ofMagnitude (isNegative x) (magnitude_le h)
  exact eq_of_magnitude read.1 read.2

/-- Negation changes the sign and nothing else. -/
theorem magnitude_neg (h : isNaN x = false) :
    magnitude (-x) = magnitude x ∧ isNegative (-x) = !isNegative x := by
  have hk := magnitude_le h
  obtain ⟨body, same, opposite, packed⟩ := exists_signed_of_bits hk (bits_eq x)
  refine magnitude_of_bits hk ?_
  have sign : -signOf (isNegative x) = signOf (!isNegative x) := by cases isNegative x <;> rfl
  rw [← packed, ← sign, ← opposite, ← same]
  rfl

theorem neg_ofMagnitude (negative : Bool) {k : Nat} (hk : k ≤ infinity) :
    -ofMagnitude negative k = ofMagnitude (!negative) k := by
  obtain ⟨magnitude_eq, sign⟩ := magnitude_ofMagnitude negative hk
  have number : isNaN (ofMagnitude negative k) = false := by
    rw [isNaN, magnitude_eq]
    exact decide_eq_false (Nat.not_lt.2 hk)
  have read := magnitude_ofMagnitude (!negative) hk
  obtain ⟨same, opposite⟩ := magnitude_neg number
  exact eq_of_magnitude (same.trans (magnitude_eq.trans read.1.symm))
    (opposite.trans ((congrArg _ sign).trans read.2.symm))

end ColumnFormula.Binary64
