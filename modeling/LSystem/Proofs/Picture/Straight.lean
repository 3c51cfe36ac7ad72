import LSystem.Picture.Bitmap

/-!
# Straight alpha

Dividing the alpha out of a pixel and multiplying it in again gives the pixel
back, if no color is larger than the alpha: both roundings together are off by
less than a whole color. On the way every number fits the word it is kept in. A
buffer is taken pixel by pixel, and what is behind the last whole one is kept.
-/

namespace LSystem

/-! ### Bytes -/

theorem quotient_le {c a : Nat} (hpos : 0 < a) (hle : c ≤ a) : (c * 255 + a / 2) / a ≤ 255 := by
  rw [← Nat.lt_succ_iff, Nat.div_lt_iff_lt_mul hpos]
  omega

theorem scale255_quotient {c a : Nat} (hpos : 0 < a) (hlt : a < 255) :
    scale255 ((c * 255 + a / 2) / a) a = c := by
  have hle := Nat.div_mul_le_self (c * 255 + a / 2) a
  have hgt := Nat.lt_div_mul_add (a := c * 255 + a / 2) hpos
  unfold scale255
  -- The product misses 255 times the color by half of `a` at most, so by no more than 127.
  generalize (c * 255 + a / 2) / a * a = product at hle hgt ⊢
  omega

theorem toNat_scaleByte (x y : UInt8) : (scaleByte x y).toNat = scale255 x.toNat y.toNat :=
  UInt8.toNat_ofNat_of_lt (Nat.lt_succ_of_le
    (scale255_le (Nat.le_of_lt_succ x.toNat_lt) (Nat.le_of_lt_succ y.toNat_lt)))

namespace Pixel

theorem toNat_unscaleByte (c alpha : UInt8) :
    (unscaleByte c alpha).toNat = min ((c.toNat * 255 + alpha.toNat / 2) / alpha.toNat) 255 :=
  UInt8.toNat_ofNat_of_lt (Nat.lt_succ_of_le (Nat.min_le_right ..))

/-- What becomes of one color of a pixel with this alpha. -/
def straightByte (c alpha : UInt8) : UInt8 :=
  if alpha = 0 ∨ alpha = 255 then c else unscaleByte c alpha

theorem straight_eq (p : Pixel) :
    p.straight = ⟨straightByte p.red p.alpha, straightByte p.green p.alpha,
      straightByte p.blue p.alpha, p.alpha⟩ := by
  unfold straight straightByte
  split <;> rfl

theorem alpha_straight (p : Pixel) : p.straight.alpha = p.alpha := by
  rw [straight_eq]

theorem straight_eq_self {p : Pixel} (h : p.alpha = 0 ∨ p.alpha = 255) : p.straight = p := if_pos h

theorem scaleByte_straightByte {c alpha : UInt8} (hle : c ≤ alpha) :
    scaleByte (straightByte c alpha) alpha = c := by
  have hle' := UInt8.le_iff_toNat_le.1 hle
  unfold straightByte
  refine UInt8.toNat_inj.1 ?_
  rw [toNat_scaleByte]
  split
  · next hedge =>
    rw [scale255]
    rcases hedge with rfl | rfl
    · have hzero : (0 : UInt8).toNat = 0 := rfl
      rw [hzero] at hle' ⊢
      omega
    · have hfull : (255 : UInt8).toNat = 255 := rfl
      rw [hfull]
      omega
  · next hinner =>
    obtain ⟨hzero, hfull⟩ := not_or.1 hinner
    have hpos : 0 < alpha.toNat := Nat.pos_of_ne_zero fun h => hzero (UInt8.toNat_inj.1 h)
    have hlt : alpha.toNat < 255 :=
      Nat.lt_of_le_of_ne (Nat.le_of_lt_succ alpha.toNat_lt) fun h => hfull (UInt8.toNat_inj.1 h)
    rw [toNat_unscaleByte, Nat.min_eq_left (quotient_le hpos hle'), scale255_quotient hpos hlt]

/-- No color is larger than the alpha, as none is that had the alpha multiplied in. -/
def IsMultiplied (p : Pixel) : Prop := p.red ≤ p.alpha ∧ p.green ≤ p.alpha ∧ p.blue ≤ p.alpha

/-- The color with the bytes of the pixel, read as straight ones. -/
def asColor (p : Pixel) : Color := ⟨p.red, p.green, p.blue, p.alpha⟩

theorem toPixel_straight {p : Pixel} (h : p.IsMultiplied) : p.straight.asColor.toPixel = p := by
  obtain ⟨hred, hgreen, hblue⟩ := h
  rw [straight_eq, asColor, Color.toPixel]
  simp only [scaleByte_straightByte hred, scaleByte_straightByte hgreen,
    scaleByte_straightByte hblue]

end Pixel

/-! ### Words -/

theorem toNat_min32 (a b : UInt32) : (min a b).toNat = min a.toNat b.toNat := by
  have hmin : min a b = if a ≤ b then a else b := rfl
  rw [hmin, Nat.min_def, apply_ite UInt32.toNat]
  simp only [UInt32.le_iff_toNat_le]

theorem toNat_min16 (a b : UInt16) : (min a b).toNat = min a.toNat b.toNat := by
  have hmin : min a b = if a ≤ b then a else b := rfl
  rw [hmin, Nat.min_def, apply_ite UInt16.toNat]
  simp only [UInt16.le_iff_toNat_le]

/-- The words of 32 bits in which a color is divided by its alpha hold the exact numbers, and what
is left after the last one is narrowed is the byte. -/
structure UnscaleFits (c alpha : UInt8) : Prop where
  product : (c.toUInt32 * 255).toNat = c.toNat * 255
  sum : (c.toUInt32 * 255 + alpha.toUInt32 / 2).toNat = c.toNat * 255 + alpha.toNat / 2
  byte : (min ((c.toUInt32 * 255 + alpha.toUInt32 / 2) / alpha.toUInt32) 255).toUInt8 =
    Pixel.unscaleByte c alpha

/-- The words of 32 and of 16 bits in which two bytes are multiplied hold the exact numbers, and
what is left after the last one is narrowed is the byte. -/
structure ScaleFits (x y : UInt8) : Prop where
  product : (x.toUInt16.toUInt32 * y.toUInt16.toUInt32).toNat = x.toNat * y.toNat
  sum : (x.toUInt16.toUInt32 * y.toUInt16.toUInt32 + 127).toNat = x.toNat * y.toNat + 127
  quotient : ((x.toUInt16.toUInt32 * y.toUInt16.toUInt32 + 127) / 255).toUInt16.toNat =
    scale255 x.toNat y.toNat
  byte : (min ((x.toUInt16.toUInt32 * y.toUInt16.toUInt32 + 127) / 255).toUInt16 255).toUInt8 =
    scaleByte x y

theorem unscaleFits (c alpha : UInt8) : UnscaleFits c alpha := by
  have hc := c.toNat_lt
  have halpha := alpha.toNat_lt
  have htwo : (2 : UInt32).toNat = 2 := rfl
  have hfull : (255 : UInt32).toNat = 255 := rfl
  have hproduct : (c.toUInt32 * 255).toNat = c.toNat * 255 := by
    rw [UInt32.toNat_mul, UInt8.toNat_toUInt32, hfull]
    omega
  have hsum : (c.toUInt32 * 255 + alpha.toUInt32 / 2).toNat = c.toNat * 255 + alpha.toNat / 2 := by
    rw [UInt32.toNat_add, hproduct, UInt32.toNat_div, UInt8.toNat_toUInt32, htwo]
    omega
  refine ⟨hproduct, hsum, UInt8.toNat_inj.1 ?_⟩
  rw [UInt32.toNat_toUInt8, toNat_min32, UInt32.toNat_div, hsum, UInt8.toNat_toUInt32, hfull,
    Pixel.toNat_unscaleByte]
  exact Nat.mod_eq_of_lt (Nat.lt_succ_of_le (Nat.min_le_right ..))

theorem scaleFits (x y : UInt8) : ScaleFits x y := by
  have hx := Nat.le_of_lt_succ x.toNat_lt
  have hy := Nat.le_of_lt_succ y.toNat_lt
  have hbound : x.toNat * y.toNat ≤ 255 * 255 := Nat.mul_le_mul hx hy
  have hscaled := scale255_le hx hy
  have hfull : (255 : UInt32).toNat = 255 := rfl
  have hrounding : (127 : UInt32).toNat = 127 := rfl
  have hproduct : (x.toUInt16.toUInt32 * y.toUInt16.toUInt32).toNat = x.toNat * y.toNat := by
    rw [UInt32.toNat_mul, UInt16.toNat_toUInt32, UInt16.toNat_toUInt32, UInt8.toNat_toUInt16,
      UInt8.toNat_toUInt16]
    omega
  have hsum : (x.toUInt16.toUInt32 * y.toUInt16.toUInt32 + 127).toNat =
      x.toNat * y.toNat + 127 := by
    rw [UInt32.toNat_add, hproduct, hrounding]
    omega
  have hquotient : ((x.toUInt16.toUInt32 * y.toUInt16.toUInt32 + 127) / 255).toUInt16.toNat =
      scale255 x.toNat y.toNat := by
    rw [UInt32.toNat_toUInt16, UInt32.toNat_div, hsum, hfull]
    exact Nat.mod_eq_of_lt (Nat.lt_of_le_of_lt hscaled (by decide))
  refine ⟨hproduct, hsum, hquotient, UInt8.toNat_inj.1 ?_⟩
  have hfull16 : (255 : UInt16).toNat = 255 := rfl
  rw [UInt16.toNat_toUInt8, toNat_min16, hquotient, hfull16, Nat.min_eq_left hscaled,
    toNat_scaleByte]
  exact Nat.mod_eq_of_lt (Nat.lt_succ_of_le hscaled)

/-! ### Buffers -/

/-- The whole pixels of a buffer. -/
def wholePixels : List UInt8 → List Pixel
  | r :: g :: b :: a :: rest => ⟨r, g, b, a⟩ :: wholePixels rest
  | _ => []

/-- The bytes behind the last whole pixel. -/
def looseBytes : List UInt8 → List UInt8
  | _ :: _ :: _ :: _ :: rest => looseBytes rest
  | rest => rest

theorem length_lt_of_not_whole {bytes : List UInt8}
    (h : ∀ r g b a rest, bytes = r :: g :: b :: a :: rest → False) : bytes.length < 4 := by
  match bytes with
  | [] | [_] | [_, _] | [_, _, _] => simp
  | r :: g :: b :: a :: rest => exact (h r g b a rest rfl).elim

theorem wholePixels_of_length_lt {bytes : List UInt8} (h : bytes.length < 4) :
    wholePixels bytes = [] := by
  match bytes with
  | [] | [_] | [_, _] | [_, _, _] => rfl
  | r :: g :: b :: a :: rest => exact absurd h (by simp)

theorem length_looseBytes_lt (bytes : List UInt8) : (looseBytes bytes).length < 4 := by
  fun_induction looseBytes bytes with
  | case1 r g b a rest ih => exact ih
  | case2 rest hshort => exact length_lt_of_not_whole hshort

theorem flatMap_wholePixels (bytes : List UInt8) :
    (wholePixels bytes).flatMap Pixel.toBytes ++ looseBytes bytes = bytes := by
  fun_induction looseBytes bytes with
  | case1 r g b a rest ih => exact congrArg (fun bytes => r :: g :: b :: a :: bytes) ih
  | case2 rest hshort =>
    rw [wholePixels_of_length_lt (length_lt_of_not_whole hshort)]
    rfl

theorem wholePixels_straightBytes (bytes : List UInt8) :
    wholePixels (straightBytes bytes) = (wholePixels bytes).map Pixel.straight := by
  fun_induction straightBytes bytes with
  | case1 r g b a rest ih => exact congrArg (Pixel.straight ⟨r, g, b, a⟩ :: ·) ih
  | case2 rest hshort =>
    rw [wholePixels_of_length_lt (length_lt_of_not_whole hshort)]
    rfl

theorem looseBytes_straightBytes (bytes : List UInt8) :
    looseBytes (straightBytes bytes) = looseBytes bytes := by
  fun_induction straightBytes bytes with
  | case1 r g b a rest ih => exact ih
  | case2 => rfl

namespace Bitmap

theorem straight_of_multiplied {bitmap : Bitmap} (h : bitmap.multiplied = true) :
    bitmap.straight = straightBytes bitmap.data := if_pos h

theorem straight_of_not_multiplied {bitmap : Bitmap} (h : bitmap.multiplied = false) :
    bitmap.straight = bitmap.data := if_neg (Bool.eq_false_iff.1 h)

theorem length_straight (bitmap : Bitmap) : bitmap.straight.length = bitmap.data.length := by
  unfold straight
  split
  · exact length_straightBytes bitmap.data
  · rfl

theorem looseBytes_straight (bitmap : Bitmap) :
    looseBytes bitmap.straight = looseBytes bitmap.data := by
  unfold straight
  split
  · exact looseBytes_straightBytes bitmap.data
  · rfl

theorem exists_wholePixels_straight (bitmap : Bitmap) :
    ∃ convert : Pixel → Pixel, wholePixels bitmap.straight = (wholePixels bitmap.data).map convert ∧
      ∀ p, (convert p).alpha = p.alpha ∧ (p.alpha = 0 ∨ p.alpha = 255 → convert p = p) ∧
        (bitmap.multiplied = true → convert p = p.straight) := by
  cases h : bitmap.multiplied with
  | false =>
    refine ⟨id, ?_, fun p => ⟨rfl, fun _ => rfl, fun htrue => ?_⟩⟩
    · rw [straight_of_not_multiplied h, List.map_id]
    · cases htrue
  | true =>
    refine ⟨Pixel.straight, ?_, fun p => ⟨p.alpha_straight, Pixel.straight_eq_self, fun _ => rfl⟩⟩
    rw [straight_of_multiplied h, wholePixels_straightBytes]

/-- Pixel by pixel, the export divides the alpha out and keeps it, and where no color is larger than
the alpha, multiplying it in again gives the pixels back. A pixel with no alpha or with all of it
stays as it is, and so do the bytes behind the last pixel and every bitmap that is straight already.
All numbers fit the words they are calculated in. -/
theorem straight_loses_no_color (bitmap : Bitmap) :
    let before := wholePixels bitmap.data
    let after := wholePixels bitmap.straight
    let loose := looseBytes bitmap.data
    (bitmap.data = before.flatMap Pixel.toBytes ++ loose ∧
      bitmap.straight = after.flatMap Pixel.toBytes ++ loose ∧ loose.length < 4 ∧
      bitmap.straight.length = bitmap.data.length) ∧
    (bitmap.multiplied = false → bitmap.straight = bitmap.data) ∧
    after.map Pixel.alpha = before.map Pixel.alpha ∧
    (∀ (k : Nat) (p : Pixel), before[k]? = some p → p.alpha = 0 ∨ p.alpha = 255 →
      after[k]? = some p) ∧
    (bitmap.multiplied = true → (∀ p ∈ before, p.IsMultiplied) →
      after.map (fun p => p.asColor.toPixel) = before) ∧
    ∀ x y : UInt8, UnscaleFits x y ∧ ScaleFits x y := by
  intro before after loose
  obtain ⟨convert, hafter, hconvert⟩ := bitmap.exists_wholePixels_straight
  have hpixels : after = before.map convert := hafter
  have hstraight := flatMap_wholePixels bitmap.straight
  rw [looseBytes_straight] at hstraight
  refine ⟨⟨(flatMap_wholePixels bitmap.data).symm, hstraight.symm, length_looseBytes_lt bitmap.data,
    bitmap.length_straight⟩, straight_of_not_multiplied, ?_, fun k p hp hedge => ?_,
    fun hmultiplied hfit => ?_, fun x y => ⟨unscaleFits x y, scaleFits x y⟩⟩
  · rw [hpixels, List.map_map]
    exact List.map_congr_left fun p _ => (hconvert p).1
  · rw [hpixels, List.getElem?_map, hp, Option.map_some, (hconvert p).2.1 hedge]
  · rw [hpixels, List.map_map]
    refine (List.map_congr_left fun p hp => ?_).trans (List.map_id before)
    show (convert p).asColor.toPixel = p
    rw [(hconvert p).2.2 hmultiplied, Pixel.toPixel_straight (hfit p hp)]

/-- Two pixels, the first of them half there, and two bytes too many. -/
def halfThere : Bitmap := ⟨1, 2, [128, 3, 64, 128, 0, 0, 0, 0, 9, 9], true⟩

theorem straight_loses_no_color_halfThere :
    (∀ p ∈ wholePixels halfThere.data, p.IsMultiplied) ∧
      halfThere.straight = [255, 6, 128, 128, 0, 0, 0, 0, 9, 9] ∧
      (wholePixels halfThere.straight).map (fun p => p.asColor.toPixel) =
        wholePixels halfThere.data ∧
      (wholePixels halfThere.straight)[1]? = some .clear ∧
      { halfThere with multiplied := false }.straight = halfThere.data := by
  have hfit : ∀ p ∈ wholePixels halfThere.data, p.IsMultiplied := by
    unfold Pixel.IsMultiplied
    decide
  obtain ⟨_, _, _, hedge, hback, _⟩ := straight_loses_no_color halfThere
  obtain ⟨_, hkept, _⟩ := straight_loses_no_color { halfThere with multiplied := false }
  exact ⟨hfit, by decide, hback rfl hfit, hedge 1 .clear rfl (.inl rfl), hkept rfl⟩

end Bitmap

end LSystem
