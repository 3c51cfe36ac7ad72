import LSystem.Scalar
import Mathlib.Algebra.Order.Group.Nat

/-!
# Finite doubles

Negating a finite double gives a finite one, and an integer of 53 bits is a
finite double. Both rest on bounds for the binary exponent: a double is infinite
only where its exponent passes that of the largest ones, and rounding raises
an exponent by little more than the number of digits there are to drop. A finite
double equals itself, and not its negative unless it is zero.
-/

namespace LSystem.Double

open Float.Model
open Float.Model.UnpackedFloat (Sign Accuracy ExtendedMantissa packComponents unpackExponent
  unpackMantissa unpackSign shiftToTargetExponent roundWithAccuracy)

/-- The exponent of the smallest doubles above zero. -/
def smallestExponent : Int := -1074

/-- The exponent of the largest doubles, with 53 binary digits in front of it. -/
def largestExponent : Int := 971

/-- Zero, or a finite number of so many binary digits with an exponent up to a limit. -/
def Within (digits : Nat) (limit : Int) : UnpackedFloat → Prop
  | .zero _ => True
  | .finite _ mantissa exponent _ => mantissa < 2 ^ digits ∧ exponent ≤ limit
  | .infinity _ => False
  | .notANumber => False

variable {digits : Nat} {limit : Int} {x : UnpackedFloat}

theorem Within.isFinite (h : Within digits limit x) : x.isFinite = true := by
  cases x with
  | zero sign => rfl
  | finite sign mantissa exponent hpos => rfl
  | infinity sign => cases h
  | notANumber => cases h

theorem Within.neg (h : Within digits limit x) : Within digits limit x.neg := by
  cases x with
  | zero sign => trivial
  | finite sign mantissa exponent hpos => exact h
  | infinity sign => cases h
  | notANumber => cases h

theorem Within.mono {higher : Int} (h : Within digits limit x) (hle : limit ≤ higher) :
    Within digits higher x := by
  cases x with
  | zero sign => trivial
  | finite sign mantissa exponent hpos => exact ⟨h.1, h.2.trans hle⟩
  | infinity sign => cases h
  | notANumber => cases h

/-! ### Packed doubles -/

/-- The field that a packed double holds its exponent in has room for 2047 finite ones. -/
theorem within_unpack {bits : BitVec Format.binary64.numBits}
    (hfinite : unpackExponent bits ≠ -1#11)
    (hfield : ((unpackExponent bits).toNat : Int) + (smallestExponent - 1) ≤ limit)
    (hlimit : smallestExponent ≤ limit) :
    Within 53 limit (UnpackedFloat.unpack .binary64 bits) := by
  have hbias : (Format.binary64.exponentBias : Int) = 1023 := rfl
  unfold UnpackedFloat.unpack
  dsimp only
  rw [if_neg hfinite]
  unfold smallestExponent at hfield hlimit
  by_cases hzero : unpackExponent bits = 0#11
  · rw [if_pos hzero]
    by_cases hmantissa : unpackMantissa bits = 0#52
    · rw [dif_pos hmantissa]
      trivial
    · rw [dif_neg hmantissa]
      refine ⟨(unpackMantissa bits).isLt.trans (by decide), ?_⟩
      rw [hzero, BitVec.toNat_zero]
      omega
  · rw [if_neg hzero]
    exact ⟨(1#1 ++ unpackMantissa bits).isLt, by omega⟩

theorem within_unpack_of_isFinite {bits : BitVec Format.binary64.numBits}
    (h : (UnpackedFloat.unpack .binary64 bits).isFinite = true) :
    Within 53 largestExponent (UnpackedFloat.unpack .binary64 bits) := by
  have hfinite : unpackExponent bits ≠ -1#11 := by
    intro hexponent
    unfold UnpackedFloat.unpack at h
    dsimp only at h
    rw [if_pos hexponent] at h
    split at h <;> cases h
  have hfield : (unpackExponent bits).toNat ≠ 2047 := fun hall =>
    hfinite (BitVec.eq_of_toNat_eq hall)
  have hlt : (unpackExponent bits).toNat < 2048 := (unpackExponent bits).isLt
  refine within_unpack hfinite ?_ (by decide)
  unfold smallestExponent largestExponent
  omega

/-- A packed number is unpacked with an exponent within the same limit. -/
theorem within_unpack_pack (h : Within digits limit x) (hlow : smallestExponent ≤ limit)
    (hhigh : limit ≤ largestExponent) :
    Within 53 limit (UnpackedFloat.unpack .binary64 (UnpackedFloat.pack .binary64 x)) := by
  have hpacked : ∀ sign (field : BitVec 11) (mantissa : BitVec 52), field.toNat < 2047 →
      (field.toNat : Int) + (smallestExponent - 1) ≤ limit →
      Within 53 limit
        (UnpackedFloat.unpack .binary64 (packComponents .binary64 sign field mantissa)) := by
    intro sign field mantissa hlt hfield
    refine within_unpack ?_ ?_ hlow
    · rw [UnpackedFloat.unpackExponent_packComponents]
      rintro rfl
      exact absurd hlt (by decide)
    · rwa [UnpackedFloat.unpackExponent_packComponents]
  have hzero : ((0#11).toNat : Int) + (smallestExponent - 1) ≤ limit :=
    le_trans (by decide) hlow
  unfold smallestExponent at hlow hpacked
  unfold largestExponent at hhigh
  cases x with
  | zero sign => exact hpacked sign 0#11 0#52 (by decide) hzero
  | finite sign mantissa exponent hpos =>
    have hexponent : exponent ≤ limit := h.2
    have hbias : (Format.binary64.exponentBias : Int) = 1023 := rfl
    unfold UnpackedFloat.pack
    dsimp only
    rw [hbias]
    generalize hfield : (exponent + 1023 + (52 : Nat)).toNat = field
    have hlt : field < 2047 := by omega
    rw [if_neg (by omega)]
    split
    · refine hpacked sign _ _ ?_ ?_
      · rwa [BitVec.toNat_ofNat, Nat.mod_eq_of_lt (by omega)]
      · rw [BitVec.toNat_ofNat, Nat.mod_eq_of_lt (by omega)]
        omega
    · exact hpacked sign 0#11 _ (by decide) hzero
  | infinity sign => cases h
  | notANumber => cases h

/-! ### Rounding -/

theorem log2_le_of_lt {n k : Nat} (h : n < 2 ^ k) : n.log2 ≤ k := by
  rcases Nat.eq_zero_or_pos n with rfl | hpos
  · exact Nat.zero_le _
  · exact ((Nat.log2_lt hpos.ne').2 h).le

theorem mantissa_shiftRight_le (shifted : ExtendedMantissa) (n : Nat) :
    (shifted >>> n).mantissa ≤ shifted.mantissa := by
  induction n with
  | zero => exact le_rfl
  | succ n ih => exact (Nat.div_le_self _ 2).trans ih

theorem roundedMantissa_le (shifted : ExtendedMantissa) :
    shifted.roundedMantissa ≤ shifted.mantissa + 1 := by
  obtain ⟨mantissa, round, sticky⟩ := shifted
  have hparity : mantissa % 2 ≤ 1 := Nat.le_of_lt_succ (Nat.mod_lt _ (by decide))
  cases round <;> cases sticky
  · exact Nat.le_succ _
  · exact Nat.le_succ _
  · exact Nat.add_le_add_left hparity _
  · exact le_rfl

theorem mantissa_shiftToTargetExponent_le (mantissa : Nat) (exponent : Int)
    (accuracy : Accuracy) :
    (shiftToTargetExponent .binary64 mantissa exponent accuracy).1.mantissa ≤ mantissa := by
  refine (mantissa_shiftRight_le _ _).trans ?_
  unfold ExtendedMantissa.ofMantissaAndAccuracy
  split <;> exact le_rfl

theorem exponent_shiftToTargetExponent_le {mantissa : Nat} (h : mantissa < 2 ^ digits)
    (exponent : Int) (accuracy : Accuracy) :
    (shiftToTargetExponent .binary64 mantissa exponent accuracy).2 ≤
      max exponent smallestExponent + digits := by
  have hlog := log2_le_of_lt h
  unfold shiftToTargetExponent UnpackedFloat.shiftToExponent
  dsimp only [Format.targetExponent, Format.mantissaBits, Format.minExponent, totalExponent]
  unfold smallestExponent
  omega

theorem within_roundWithAccuracy {mantissa : Nat} (h : mantissa < 2 ^ digits) (sign : Sign)
    (exponent : Int) (accuracy : Accuracy) :
    Within (digits + 1) (max exponent smallestExponent + (2 * digits + 1))
      (roundWithAccuracy .binary64 sign mantissa exponent accuracy) := by
  have hfirst := mantissa_shiftToTargetExponent_le mantissa exponent accuracy
  have hraised := exponent_shiftToTargetExponent_le h exponent accuracy
  unfold roundWithAccuracy
  generalize shiftToTargetExponent .binary64 mantissa exponent accuracy = first at *
  dsimp only
  have hrounded : first.1.roundedMantissa < 2 ^ (digits + 1) := by
    have hle := roundedMantissa_le first.1
    have hpos := Nat.two_pow_pos digits
    rw [Nat.pow_succ]
    omega
  have hsecond := mantissa_shiftToTargetExponent_le first.1.roundedMantissa first.2 .exact
  have hagain := exponent_shiftToTargetExponent_le hrounded first.2 .exact
  generalize shiftToTargetExponent .binary64 first.1.roundedMantissa first.2 .exact = second at *
  by_cases hzero : second.1.mantissa = 0
  · rw [dif_pos hzero]
    trivial
  · rw [dif_neg hzero]
    refine ⟨hsecond.trans_lt hrounded, hagain.trans ?_⟩
    push_cast
    omega

theorem within_mul {a b : Nat} {high higher : Int} {y : UnpackedFloat} (hx : Within a high x)
    (hy : Within b higher y) :
    Within (a + b + 1) (max (high + higher) smallestExponent + (2 * (a + b) + 1 : Nat))
      (UnpackedFloat.mul .binary64 x y) := by
  cases x with
  | zero sign =>
    cases y with
    | zero other => trivial
    | finite other mantissa exponent hpos => trivial
    | infinity other => cases hy
    | notANumber => cases hy
  | finite sign mantissa exponent hpos =>
    cases y with
    | zero other => trivial
    | finite other mantissa' exponent' hpos' =>
      have hproduct : mantissa * mantissa' < 2 ^ (a + b) := by
        rw [Nat.pow_add]
        exact Nat.mul_lt_mul'' hx.1 hy.1
      refine (within_roundWithAccuracy hproduct _ _ _).mono ?_
      have hsum : exponent + exponent' ≤ high + higher := Int.add_le_add hx.2 hy.2
      push_cast
      omega
    | infinity other => cases hy
    | notANumber => cases hy
  | infinity sign => cases hx
  | notANumber => cases hx

/-- A natural number is widened to at most 53 binary digits before it is rounded. -/
theorem within_ofNat {n : Nat} (h : n < 2 ^ 53) :
    Within 107 213 (UnpackedFloat.ofNat .binary64 n) := by
  unfold UnpackedFloat.ofNat UnpackedFloat.ofInt UnpackedFloat.normalize
  split
  · next hneg => exact absurd (compare_lt_iff_lt.1 hneg) (by omega)
  · trivial
  · unfold UnpackedFloat.round UnpackedFloat.decreaseExponent
    dsimp only [Format.targetExponent, Format.mantissaBits, Format.minExponent, totalExponent]
    generalize hshift : (0 - max _ _ : Int).toNat = shift
    have hshifted : shift ≤ 53 := by omega
    have hmantissa : (n : Int).toNat <<< shift < 2 ^ (53 + 53) := by
      rw [Nat.shiftLeft_eq, Nat.pow_add]
      exact Nat.mul_lt_mul_of_lt_of_le h (Nat.pow_le_pow_right (by decide) hshifted)
        (by decide)
    refine (within_roundWithAccuracy hmantissa _ _ _).mono ?_
    unfold smallestExponent
    omega

/-! ### Doubles -/

theorem isFinite_neg {x : Float} (h : x.isFinite = true) : (-x).isFinite = true := by
  have hx : Within 53 largestExponent x.toModel.unpack := within_unpack_of_isFinite h
  exact (within_unpack_pack hx.neg (by decide) le_rfl).isFinite

theorem isFinite_ofNat {n : Nat} (h : n < 2 ^ 53) : (Float.ofNat n).isFinite = true := by
  have hsize : n % 2 ^ 64 = n := Nat.mod_eq_of_lt (h.trans (by decide))
  have hvalue : Within 107 213 (UnpackedFloat.ofUInt64 .binary64 n.toUInt64) := by
    show Within 107 213 (UnpackedFloat.ofNat .binary64 (n % 2 ^ 64))
    rw [hsize]
    exact within_ofNat h
  have hnumber : Within 53 213 n.toUInt64.toFloat.toModel.unpack :=
    within_unpack_pack hvalue (by decide) (by decide)
  have hone : Within 53 0 (Float.ofBits 0x3FF0000000000000).toModel.unpack :=
    within_unpack_pack (within_unpack (by decide) (by decide) (by decide)) (by decide) (by decide)
  have hproduct := within_mul hnumber hone
  have hfast : Float.ofNat n = n.toUInt64.toFloat * Float.ofBits 0x3FF0000000000000 := by
    show Float.ofScientific n false 0 = _
    rw [Float.ofScientific, dif_pos ⟨h, by decide⟩]
    rfl
  rw [hfast]
  exact (within_unpack_pack hproduct (by decide) (by decide)).isFinite

theorem isFinite_ofInt {n : Int} (h : n.natAbs < 2 ^ 53) : (Float.ofInt n).isFinite = true := by
  cases n with
  | ofNat n => exact isFinite_ofNat h
  | negSucc n => exact isFinite_neg (isFinite_ofNat h)

/-! ### Signs and equality -/

theorem unpackSign_packComponents (sign : Sign) (exponent : BitVec 11) (mantissa : BitVec 52) :
    unpackSign (packComponents .binary64 sign exponent mantissa) = sign.toBitVec := by
  refine BitVec.eq_of_getLsbD_eq fun i hi => ?_
  obtain rfl : i = 0 := by omega
  unfold unpackSign packComponents
  rw [BitVec.getLsbD_cast, BitVec.getLsbD_extractLsb, BitVec.getLsbD_append,
    BitVec.getLsbD_append]
  rfl

theorem ofBitVec_toBitVec (sign : Sign) : Sign.ofBitVec sign.toBitVec = sign := by
  cases sign <;> rfl

/-- The sign of a number; what is no number may have any. -/
def HasSign (sign : Sign) : UnpackedFloat → Prop
  | .zero s => s = sign
  | .finite s _ _ _ => s = sign
  | .infinity s => s = sign
  | .notANumber => True

theorem hasSign_unpack (bits : BitVec Format.binary64.numBits) :
    HasSign (Sign.ofBitVec (unpackSign bits)) (UnpackedFloat.unpack .binary64 bits) := by
  unfold UnpackedFloat.unpack
  dsimp only
  by_cases hexponent : unpackExponent bits = -1#11
  · rw [if_pos hexponent]
    by_cases hmantissa : unpackMantissa bits = 0#52
    · rw [if_pos hmantissa]
      rfl
    · rw [if_neg hmantissa]
      trivial
  · rw [if_neg hexponent]
    by_cases hzero : unpackExponent bits = 0#11
    · rw [if_pos hzero]
      by_cases hmantissa : unpackMantissa bits = 0#52
      · rw [dif_pos hmantissa]
        rfl
      · rw [dif_neg hmantissa]
        rfl
    · rw [if_neg hzero]
      rfl

theorem unpackSign_pack_finite (sign : Sign) {mantissa : Nat} (exponent : Int)
    (hpos : 0 < mantissa) :
    unpackSign (UnpackedFloat.pack .binary64 (.finite sign mantissa exponent hpos)) =
      sign.toBitVec := by
  unfold UnpackedFloat.pack
  dsimp only
  split
  · exact unpackSign_packComponents ..
  · split
    · exact unpackSign_packComponents ..
    · exact unpackSign_packComponents ..

/-- Numbers of different signs are not equal unless they are zero. -/
theorem beq_eq_false_of_hasSign {sign : Sign} {mantissa : Nat} {exponent : Int}
    {hpos : 0 < mantissa} {y : UnpackedFloat} (h : HasSign (-sign) y) :
    y.beq (.finite sign mantissa exponent hpos) = false := by
  cases y with
  | zero s =>
    cases h
    cases sign <;> rfl
  | finite s m e hm =>
    cases h
    cases sign <;> rfl
  | infinity s =>
    cases h
    cases sign <;> rfl
  | notANumber => rfl

theorem neg_beq_self {x : Float} (h : x.isFinite = true) (hzero : (x == 0) = false) :
    (-x == x) = false := by
  have hneg : (-x).toModel.unpack =
      UnpackedFloat.unpack .binary64 (UnpackedFloat.pack .binary64 x.toModel.unpack.neg) := rfl
  have hfinite : x.toModel.unpack.isFinite = true := h
  have hzero' : x.toModel.unpack.beq (0 : Float).toModel.unpack = false := hzero
  show (-x).toModel.unpack.beq x.toModel.unpack = false
  cases hx : x.toModel.unpack with
  | zero sign =>
    rw [hx] at hzero'
    cases hzero'
  | finite sign mantissa exponent hpos =>
    have hsign := hasSign_unpack
      (UnpackedFloat.pack .binary64 (.finite (-sign) mantissa exponent hpos))
    rw [unpackSign_pack_finite, ofBitVec_toBitVec] at hsign
    rw [hneg, hx]
    exact beq_eq_false_of_hasSign hsign
  | infinity sign =>
    rw [hx] at hfinite
    cases hfinite
  | notANumber =>
    rw [hx] at hfinite
    cases hfinite

theorem compare_finite_self (sign : Sign) (mantissa : Nat) (exponent : Int)
    (hpos : 0 < mantissa) :
    (UnpackedFloat.finite sign mantissa exponent hpos).compare (.finite sign mantissa exponent hpos)
      = some .eq := by
  have hexponent : compare exponent exponent = .eq := compare_eq_iff_eq.2 rfl
  have hmantissa : compare mantissa mantissa = .eq := compare_eq_iff_eq.2 rfl
  have hthen : (compare exponent exponent).then (compare mantissa mantissa) = .eq := by
    rw [hexponent, hmantissa]
    rfl
  cases sign with
  | negative => exact congrArg (fun order => some order.swap) hthen
  | positive => exact congrArg some hthen

theorem beq_self {x : Float} (h : x.isFinite = true) : (x == x) = true := by
  have hfinite : x.toModel.unpack.isFinite = true := h
  show x.toModel.unpack.beq x.toModel.unpack = true
  cases hx : x.toModel.unpack with
  | zero sign => rfl
  | finite sign mantissa exponent hpos =>
    exact congrArg (· == some Ordering.eq) (compare_finite_self sign mantissa exponent hpos)
  | infinity sign =>
    rw [hx] at hfinite
    cases hfinite
  | notANumber =>
    rw [hx] at hfinite
    cases hfinite

end LSystem.Double
