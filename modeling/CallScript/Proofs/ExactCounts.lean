import Mathlib
import CallScript.Number.Binary

/-!
# Counts as numbers

The functions of a script count in numbers, which have 53 significant bits. So a count below
`2 ^ 53` is a number exactly (`whole?_ofNat`): to be rounded it would have to be longer than that.
And no count is `-1`, however long it is, since no count has a sign (`ofNat_ne_neg_one`).

Conversely a number that stands for a count is not below zero, also not if it is `-0`
(`not_lt_zero_of_whole?`), and it is the count that it is taken for where an integer is wanted
(`toIntWithin_of_whole?`).

For this the bits of a number are related to the IEEE model that its arithmetic is defined by:
`read_eq` says that both read the same from them.
-/

namespace CallScript.Number

open Float.Model Float.Model.UnpackedFloat

/-! ## What the bits of a number stand for -/

section

variable (bits : BitVec 64)

theorem toNat_unpackExponent :
    (@unpackExponent Format.binary64 bits).toNat = bits.toNat / 2 ^ 52 % 2 ^ 11 := by
  simp [unpackExponent, BitVec.extractLsb_toNat, Nat.shiftRight_eq_div_pow]

theorem toNat_unpackMantissa :
    (@unpackMantissa Format.binary64 bits).toNat = bits.toNat % 2 ^ 52 := by
  simp [unpackMantissa, BitVec.extractLsb_toNat]

theorem toNat_unpackSign :
    (@unpackSign Format.binary64 bits).toNat = bits.toNat / 2 ^ 63 := by
  have hlt := bits.isLt
  simp only [unpackSign, BitVec.toNat_cast, BitVec.extractLsb_toNat, Nat.shiftRight_eq_div_pow]
  omega

/-- Whether a sign is a minus. -/
def isMinus : Sign → Bool
  | .negative => true
  | .positive => false

theorem isMinus_unpackSign :
    isMinus (.ofBitVec (@unpackSign Format.binary64 bits)) = decide (2 ^ 63 ≤ bits.toNat) := by
  have hsign := toNat_unpackSign bits
  have hlt := bits.isLt
  have hzero : @unpackSign Format.binary64 bits = 0#1 ↔ bits.toNat / 2 ^ 63 = 0 := by
    rw [← hsign]
    exact BitVec.toNat_eq
  rw [Sign.ofBitVec]
  split
  · next h =>
    have hquotient := hzero.mp h
    rw [isMinus]
    exact (decide_eq_false (by omega)).symm
  · next h =>
    have hquotient : bits.toNat / 2 ^ 63 ≠ 0 := fun hnone => h (hzero.mpr hnone)
    rw [isMinus]
    exact (decide_eq_true (by omega)).symm

end

/-- The leading one of a mantissa. -/
theorem toNat_one_append (mantissa : BitVec 52) :
    (1#1 ++ mantissa).toNat = 2 ^ 52 + mantissa.toNat := by
  rw [BitVec.toNat_append, ← Nat.shiftLeft_add_eq_or_of_lt mantissa.isLt]
  rfl

/-- What a number stands for that was taken apart. -/
def Reading.ofUnpacked : UnpackedFloat → Reading
  | .notANumber => .notANumber
  | .infinity sign => .infinite (isMinus sign)
  | .zero sign => .finite (isMinus sign) 0 (-1074)
  | .finite sign mantissa exponent _ => .finite (isMinus sign) mantissa exponent

/-- The bits of a number are read as those that arithmetic works with. -/
theorem read_eq (x : Float) : read x = .ofUnpacked x.toModel.unpack := by
  obtain ⟨bits, hbits⟩ : ∃ bits : BitVec 64, bits = x.toBits.toBitVec := ⟨_, rfl⟩
  have hnat : x.toBits.toNat = bits.toNat := by rw [hbits]; rfl
  have hunpack : x.toModel.unpack = UnpackedFloat.unpack Format.binary64 bits := by rw [hbits]; rfl
  have hpow (n : Nat) : twoPow n = 2 ^ n := rfl
  have hgreatest : @unpackExponent Format.binary64 bits = -1#_ ↔
      (@unpackExponent Format.binary64 bits).toNat = 2047 := BitVec.toNat_eq
  have hleast : @unpackExponent Format.binary64 bits = 0#_ ↔
      (@unpackExponent Format.binary64 bits).toNat = 0 := BitVec.toNat_eq
  have hzero : @unpackMantissa Format.binary64 bits = 0#_ ↔
      (@unpackMantissa Format.binary64 bits).toNat = 0 := BitVec.toNat_eq
  rw [hunpack, UnpackedFloat.unpack, read, hnat]
  simp only [hpow, ← toNat_unpackExponent bits, ← toNat_unpackMantissa bits,
    ← isMinus_unpackSign bits, hgreatest, hleast, hzero]
  split
  · split <;> rfl
  · split
    · next hexponent =>
      split
      · next hmantissa => rw [Reading.ofUnpacked, hmantissa]
      · rw [Reading.ofUnpacked, hexponent]
        rfl
    · rw [Reading.ofUnpacked, toNat_one_append]
      rfl

/-! ## Numbers that need no rounding -/

/-- Zeros behind a mantissa go without a trace when it moves to the right. -/
theorem shiftRight_shiftLeft (m k : Nat) :
    ExtendedMantissa.ofMantissaAndAccuracy (m <<< k) .exact >>> k =
      ExtendedMantissa.ofMantissaAndAccuracy m .exact := by
  induction k generalizing m with
  | zero => rfl
  | succ k ih =>
    show ExtendedMantissa.shiftRightOne
      (ExtendedMantissa.ofMantissaAndAccuracy (m <<< (k + 1)) .exact >>> k) = _
    rw [Nat.shiftLeft_succ_inside, ih]
    simp [ExtendedMantissa.ofMantissaAndAccuracy, ExtendedMantissa.shiftRightOne]

section

variable {m : Nat} (hm : m.log2 = 52) {e : Int} (he : -1074 ≤ e)

include hm

theorem log2_shiftLeft (k : Nat) : (m <<< k).log2 = 52 + k := by
  have hne : m ≠ 0 := by rintro rfl; cases hm
  obtain ⟨hle, hlt⟩ := (Nat.log2_eq_iff hne).mp hm
  rw [Nat.shiftLeft_eq]
  refine (Nat.log2_eq_iff (Nat.mul_ne_zero hne (Nat.ne_of_gt (Nat.two_pow_pos k)))).mpr ⟨?_, ?_⟩
  · rw [Nat.pow_add]
    exact Nat.mul_le_mul_right _ hle
  · rw [show 52 + k + 1 = 52 + 1 + k by omega, Nat.pow_add 2 (52 + 1) k]
    exact Nat.mul_lt_mul_of_pos_right hlt (Nat.two_pow_pos k)

include he

/-- A mantissa of 53 bits is found again behind which zeros were put. -/
theorem shiftToTargetExponent_shiftLeft (k : Nat) :
    shiftToTargetExponent Format.binary64 (m <<< k) (e - k) .exact =
      (ExtendedMantissa.ofMantissaAndAccuracy m .exact, e) := by
  have htarget : Format.binary64.targetExponent (totalExponent (m <<< k) (e - k)) = e := by
    rw [totalExponent, log2_shiftLeft hm]
    show max (((52 + k : Nat) : Int) + 1 + (e - k) - 53) (-1074) = e
    omega
  have hshift : (e - (e - k)).toNat = k := by omega
  have hback : e - k + k = e := by omega
  rw [shiftToTargetExponent, htarget, shiftToExponent, hshift, shiftRight_shiftLeft,
    hback]

theorem roundWithAccuracy_shiftLeft (hpos : 0 < m) (k : Nat) (sign : Sign) :
    roundWithAccuracy Format.binary64 sign (m <<< k) (e - k) .exact = .finite sign m e hpos := by
  have hagain := shiftToTargetExponent_shiftLeft hm he 0
  rw [Nat.shiftLeft_zero, Int.natCast_zero, Int.sub_zero] at hagain
  have hrounded : (ExtendedMantissa.ofMantissaAndAccuracy m .exact).roundedMantissa = m := rfl
  have hne : (ExtendedMantissa.ofMantissaAndAccuracy m .exact).mantissa ≠ 0 := Nat.ne_of_gt hpos
  rw [roundWithAccuracy, shiftToTargetExponent_shiftLeft hm he k]
  simp only [hrounded, hagain]
  rw [dif_neg hne]
  rfl

end

/-- Putting the components of a number together keeps its sign. -/
theorem ofBitVec_unpackSign (sign : Sign) (exponent : BitVec 11) (mantissa : BitVec 52) :
    Sign.ofBitVec (unpackSign (packComponents Format.binary64 sign exponent mantissa)) = sign := by
  rw [unpackSign_packComponents, Sign.ofBitVec_toBitVec]

section

variable {m : Nat} (hm : m.log2 = 52) (hpos : 0 < m) {e : Int} (he : -1074 ≤ e) (he' : e ≤ 971)
  (sign : Sign)

include hm he he'

/-- A mantissa of 53 bits is packed without its leading one. -/
theorem pack_finite : UnpackedFloat.pack Format.binary64 (.finite sign m e hpos) =
    packComponents Format.binary64 sign (BitVec.ofNat 11 (e + 1075).toNat) (BitVec.ofNat 52 m) := by
  have hsmall : ¬2 ^ 11 ≤ (e + 1075).toNat + 1 := by omega
  have hexponent : (e + (Format.binary64.exponentBias : Int) +
      (Format.binary64.mantissaBitsWithoutImplicit : Int)).toNat = (e + 1075).toNat := by
    show (e + 1023 + 52).toNat = _
    omega
  unfold UnpackedFloat.pack
  dsimp only
  rw [hexponent, if_neg hsmall, hm]
  rfl

/-- A mantissa of 53 bits is kept as it is. -/
theorem unpack_pack :
    (Float.Model.pack (.finite sign m e hpos)).unpack = .finite sign m e hpos := by
  obtain ⟨hle, hlt⟩ := (Nat.log2_eq_iff (Nat.ne_of_gt hpos)).mp hm
  obtain ⟨biased, hbiased⟩ : ∃ biased, biased = (e + 1075).toNat := ⟨_, rfl⟩
  have hnat : (BitVec.ofNat 11 biased).toNat = biased := by
    rw [BitVec.toNat_ofNat]
    exact Nat.mod_eq_of_lt (by omega)
  have hgreatest : BitVec.ofNat 11 biased ≠ -1#11 := by
    intro h
    have : biased = 2047 := by rw [← hnat, h]; rfl
    omega
  have hleast : BitVec.ofNat 11 biased ≠ 0#11 := by
    intro h
    have : biased = 0 := by rw [← hnat, h]; rfl
    omega
  have hmantissa : 2 ^ 52 + (BitVec.ofNat 52 m).toNat = m := by
    rw [BitVec.toNat_ofNat]
    omega
  have hexponent : (biased : Int) - ((Format.binary64.exponentBias : Int) + (52 : Nat)) = e := by
    show (biased : Int) - (1023 + 52) = e
    omega
  show UnpackedFloat.unpack Format.binary64 (UnpackedFloat.pack Format.binary64 _) = _
  rw [pack_finite hm hpos he he', ← hbiased, UnpackedFloat.unpack]
  simp only [unpackExponent_packComponents, unpackMantissa_packComponents, ofBitVec_unpackSign,
    if_neg hgreatest, if_neg hleast, toNat_one_append, hnat, hmantissa, hexponent]

end

/-! ## Counts below `2 ^ 53` -/

/-- The mantissa of a count: its digits with zeros behind them, 53 bits in all. -/
def mantissaOf (n : Nat) : Nat := n <<< (52 - n.log2)

section

variable {n : Nat} (hn : n ≠ 0) (hlt : n < 2 ^ 53)

include hn hlt

theorem log2_le : n.log2 ≤ 52 := Nat.le_of_lt_succ ((Nat.log2_lt hn).mpr hlt)

theorem log2_mantissaOf : (mantissaOf n).log2 = 52 := by
  have hlog := log2_le hn hlt
  obtain ⟨k, hk⟩ : ∃ k, 52 = n.log2 + k := ⟨52 - n.log2, by omega⟩
  have hkeep : 52 - n.log2 = k := by omega
  have hle : 2 ^ n.log2 ≤ n := Nat.log2_self_le hn
  have hself : n < 2 ^ (n.log2 + 1) := Nat.lt_log2_self
  have hne : n * 2 ^ k ≠ 0 := Nat.mul_ne_zero hn (Nat.ne_of_gt (Nat.two_pow_pos k))
  rw [mantissaOf, hkeep, Nat.shiftLeft_eq]
  refine (Nat.log2_eq_iff hne).mpr ⟨?_, ?_⟩
  · rw [hk, Nat.pow_add]
    exact Nat.mul_le_mul_right _ hle
  · rw [hk, Nat.add_right_comm, Nat.pow_add]
    exact Nat.mul_lt_mul_of_pos_right hself (Nat.two_pow_pos k)

theorem mantissaOf_pos : 0 < mantissaOf n := by
  have hlog := log2_mantissaOf hn hlt
  refine Nat.pos_of_ne_zero fun hzero => ?_
  rw [hzero] at hlog
  cases hlog

/-- A count is rounded to its mantissa, from which nothing goes. -/
theorem ofUInt64_toUInt64 : UnpackedFloat.ofUInt64 Format.binary64 n.toUInt64 =
    .finite .positive (mantissaOf n) ((n.log2 : Int) - 52) (mantissaOf_pos hn hlt) := by
  have hlog := log2_le hn hlt
  have hword : n.toUInt64.toNat = n := by
    rw [Nat.toUInt64, UInt64.toNat_ofNat']
    exact Nat.mod_eq_of_lt (by omega)
  have hcompare : compare (n : Int) 0 = .gt := by
    rw [Int.compare_eq_gt]
    omega
  have htarget : Format.binary64.targetExponent (totalExponent n 0) = (n.log2 : Int) - 52 := by
    show max ((n.log2 : Int) + 1 + 0 - 53) (-1074) = _
    omega
  have hshift : (0 - ((n.log2 : Int) - 52)).toNat = 52 - n.log2 := by omega
  have hexponent : 0 - ((52 - n.log2 : Nat) : Int) = (n.log2 : Int) - 52 := by omega
  have hround := @roundWithAccuracy_shiftLeft _ (log2_mantissaOf hn hlt) ((n.log2 : Int) - 52)
    (by omega) (mantissaOf_pos hn hlt) 0 .positive
  rw [Nat.shiftLeft_zero, Int.natCast_zero, Int.sub_zero] at hround
  rw [UnpackedFloat.ofUInt64, hword, UnpackedFloat.ofNat, UnpackedFloat.ofInt,
    UnpackedFloat.normalize, hcompare]
  dsimp only
  rw [Int.toNat_natCast, UnpackedFloat.round, htarget, decreaseExponent, hshift, hexponent,
    ← mantissaOf]
  exact hround

/-- So a count that fits into a machine word is what the number made of it stands for. -/
theorem unpack_toFloat : n.toUInt64.toFloat.toModel.unpack =
    .finite .positive (mantissaOf n) ((n.log2 : Int) - 52) (mantissaOf_pos hn hlt) := by
  have hlog := log2_le hn hlt
  show (Float.Model.pack (UnpackedFloat.ofUInt64 Format.binary64 n.toUInt64)).unpack = _
  rw [ofUInt64_toUInt64 hn hlt]
  exact unpack_pack (log2_mantissaOf hn hlt) (mantissaOf_pos hn hlt) (by omega) (by omega) .positive

/-- A count is multiplied with one to become a number, which leaves it as it is. -/
theorem unpack_ofNat : (Float.ofNat n).toModel.unpack =
    .finite .positive (mantissaOf n) ((n.log2 : Int) - 52) (mantissaOf_pos hn hlt) := by
  have hlog := log2_le hn hlt
  have hm := log2_mantissaOf hn hlt
  have hpos := mantissaOf_pos hn hlt
  have he : -1074 ≤ (n.log2 : Int) - 52 := by omega
  have hone : (Float.ofBits 0x3FF0000000000000).toModel.unpack =
      .finite .positive (2 ^ 52) (-52) (by decide) := rfl
  have hproduct : Float.ofNat n = n.toUInt64.toFloat * Float.ofBits 0x3FF0000000000000 := by
    show Float.ofScientific n false 0 = _
    rw [Float.ofScientific, dif_pos ⟨hlt, by decide⟩]
    rfl
  have hround : UnpackedFloat.mul Format.binary64
      (.finite .positive (mantissaOf n) ((n.log2 : Int) - 52) hpos)
      (.finite .positive (2 ^ 52) (-52) (by decide)) =
        .finite .positive (mantissaOf n) ((n.log2 : Int) - 52) hpos := by
    have hshifted := roundWithAccuracy_shiftLeft hm he hpos 52 .positive
    rw [Nat.shiftLeft_eq] at hshifted
    exact hshifted
  rw [hproduct]
  show (Float.Model.pack (UnpackedFloat.mul Format.binary64 n.toUInt64.toFloat.toModel.unpack
    (Float.ofBits 0x3FF0000000000000).toModel.unpack)).unpack = _
  rw [unpack_toFloat hn hlt, hone, hround]
  exact unpack_pack hm hpos he (by omega) .positive

end

theorem isWholeDyadic_zero (q : Int) : isWholeDyadic 0 q = true := by
  simp [isWholeDyadic]

theorem wholePart_zero (q : Int) : wholePart 0 q = 0 := by
  simp [wholePart]

/-- A count below `2 ^ 53` is a number exactly. -/
theorem whole?_ofNat {n : Nat} (hlt : n < 2 ^ 53) : whole? (Float.ofNat n) = some (n : Int) := by
  by_cases hn : n = 0
  · subst hn
    have hread : read (Float.ofNat 0) = .finite false 0 (-1074) := rfl
    rw [whole?, hread]
    dsimp only
    rw [isWholeDyadic_zero, wholePart_zero]
    rfl
  · have hlog := log2_le hn hlt
    have hzeros : (-((n.log2 : Int) - 52)).toNat = 52 - n.log2 := by omega
    have hdigits : mantissaOf n = n * twoPow (52 - n.log2) := Nat.shiftLeft_eq ..
    have hwhole : isWholeDyadic (mantissaOf n) ((n.log2 : Int) - 52) = true := by
      rw [isWholeDyadic, hzeros, hdigits, Nat.mul_mod_left]
      simp
    have hpart : wholePart (mantissaOf n) ((n.log2 : Int) - 52) = n := by
      rw [wholePart, hzeros, hdigits]
      split
      · have hfull : n.log2 = 52 := by omega
        rw [hfull]
        simp [twoPow]
      · exact Nat.mul_div_cancel _ (Nat.two_pow_pos _)
    rw [whole?, read_eq, unpack_ofNat hn hlt, Reading.ofUnpacked]
    dsimp only
    rw [if_pos hwhole, hpart]
    rfl

/-! ## No count is below zero -/

/-- The sign of a number that was taken apart. -/
def signOf : UnpackedFloat → Sign
  | .notANumber => .positive
  | .infinity sign => sign
  | .zero sign => sign
  | .finite sign _ _ _ => sign

/-- Putting a number together keeps its sign. -/
theorem isMinus_signOf (u : UnpackedFloat) :
    isMinus (signOf u) = decide (2 ^ 63 ≤ (Float.ofModel (.pack u)).toBits.toNat) := by
  have hsign : Sign.ofBitVec (unpackSign (UnpackedFloat.pack Format.binary64 u)) = signOf u := by
    cases u with
    | notANumber => exact ofBitVec_unpackSign ..
    | infinity sign => exact ofBitVec_unpackSign ..
    | zero sign => exact ofBitVec_unpackSign ..
    | finite sign m e hpos =>
      unfold UnpackedFloat.pack
      dsimp only
      split
      · exact ofBitVec_unpackSign ..
      · split
        · exact ofBitVec_unpackSign ..
        · exact ofBitVec_unpackSign ..
  rw [← hsign]
  exact isMinus_unpackSign _

theorem signOf_roundWithAccuracy (sign : Sign) (m : Nat) (e : Int) (accuracy : Accuracy) :
    signOf (roundWithAccuracy Format.binary64 sign m e accuracy) = sign := by
  unfold roundWithAccuracy
  dsimp only
  split <;> rfl

theorem signOf_ofScientific (n : Nat) :
    signOf (UnpackedFloat.ofScientific Format.binary64 n 0) = .positive := by
  unfold UnpackedFloat.ofScientific
  split
  · rfl
  · split
    · rfl
    · split
      · rfl
      · rw [if_pos (Int.le_refl 0), UnpackedFloat.mul]
        exact signOf_roundWithAccuracy ..

/-- No count is `-1`, however it was rounded. -/
theorem ofNat_ne_neg_one (n : Nat) : Float.ofNat n ≠ -1 := by
  intro h
  by_cases hlt : n < 2 ^ 53
  · have hwhole := whole?_ofNat hlt
    have hminus : whole? (-1) = some (-1) := rfl
    rw [h, hminus] at hwhole
    cases hwhole
  · have hmodel : Float.ofNat n =
        Float.ofModel (.pack (UnpackedFloat.ofScientific Format.binary64 n 0)) := by
      show Float.ofScientific n false 0 = _
      rw [Float.ofScientific, dif_neg fun hsmall => hlt hsmall.1]
      rfl
    have hsign := isMinus_signOf (UnpackedFloat.ofScientific Format.binary64 n 0)
    rw [signOf_ofScientific, ← hmodel, h] at hsign
    exact absurd hsign (by decide)

/-! ## Numbers that stand for a count -/

/-- Where an integer is wanted, a number counts as none beyond the bounds. -/
theorem toIntWithin_le {greatest : Int} (h : 0 ≤ greatest) (x : Float) :
    toIntWithin 0 greatest x ≤ greatest := by
  unfold toIntWithin
  split
  · exact h
  · split
    · exact h
    · exact Int.le_refl greatest
  · omega

/-- A whole number without an integral part is zero. -/
theorem wholePart_ne_zero {m : Nat} {q : Int} (hm : 0 < m) (h : isWholeDyadic m q = true) :
    wholePart m q ≠ 0 := by
  have hpow : 0 < twoPow q.toNat := Nat.two_pow_pos _
  rw [wholePart]
  split
  · exact Nat.ne_of_gt (Nat.mul_pos hm hpow)
  · next hq =>
    have hmod : m % twoPow (-q).toNat = 0 := by simpa [isWholeDyadic, hq] using h
    intro hdiv
    have hsum := Nat.div_add_mod m (twoPow (-q).toNat)
    rw [hdiv, hmod] at hsum
    omega

section

variable {x : Float} {n : Nat} (h : whole? x = some (n : Int))

include h

/-- A number that stands for a count is not below zero. If it has a minus it is the zero that has
one. -/
theorem not_lt_zero_of_whole? : ¬x < 0 := by
  intro hlt
  have hless : (x.toModel.unpack.lt (0 : Float).toModel.unpack) = true :=
    of_decide_eq_true hlt
  have hzero : (0 : Float).toModel.unpack = .zero .positive := rfl
  rw [hzero] at hless
  rw [whole?, read_eq] at h
  cases hu : x.toModel.unpack with
  | notANumber => rw [hu] at h; cases h
  | infinity sign => rw [hu] at h; cases h
  | zero sign => rw [hu] at hless; cases hless
  | finite sign m e hpos =>
    cases sign with
    | positive => rw [hu] at hless; cases hless
    | negative =>
      rw [hu, Reading.ofUnpacked] at h
      dsimp only at h
      split at h
      · next hwhole =>
        have hpart := wholePart_ne_zero hpos hwhole
        rw [isMinus, signed, if_pos rfl, Option.some.injEq] at h
        omega
      · cases h

theorem isWhole_of_whole? : isWhole x = true := by
  rw [whole?] at h
  rw [isWhole]
  split at h
  · split at h
    · next hwhole => exact hwhole
    · cases h
  · cases h

/-- A number that stands for a count is taken for it, as far as that is within bounds. -/
theorem toIntWithin_of_whole? (greatest : Nat) :
    toIntWithin 0 greatest x = (min n greatest : Nat) := by
  rw [whole?] at h
  rw [toIntWithin]
  cases hread : read x with
  | notANumber => rw [hread] at h; cases h
  | infinite negative => rw [hread] at h; cases h
  | finite negative m q =>
    rw [hread] at h
    dsimp only at h ⊢
    split at h
    · have hsigned : signed negative (wholePart m q) = (n : Int) := Option.some.inj h
      rw [hsigned]
      omega
    · cases h

end

end CallScript.Number
