import LSystem.Picture.Bitmap
import Mathlib.Algebra.Ring.Nat

/-!
# Looking a pixel up

Pixels are counted row by row, and each one begins at four times its number in
the buffer. The index is a word of 64 bits, so all of this is right as long as
there are no more than `2 ^ 62` pixels. Beyond that the index wraps, and a pixel
far down in the picture is read from the bytes of one at the top.
-/

namespace LSystem

/-- The bytes of the pixel stand in the buffer, from the index on. -/
def Pixel.StoredAt (p : Pixel) (data : List UInt8) (index : Nat) : Prop :=
  data[index]? = some p.red ∧ data[index + 1]? = some p.green ∧
    data[index + 2]? = some p.blue ∧ data[index + 3]? = some p.alpha

theorem Pixel.storedAt_iff {p : Pixel} {data : List UInt8} {index : Nat} :
    p.StoredAt data index ↔ (data.drop index).take 4 = p.toBytes := by
  have hget : ∀ k, data[index + k]? = (data.drop index)[k]? := fun k => by
    rw [List.getElem?_drop]
  have hfirst : data[index]? = (data.drop index)[0]? := hget 0
  rw [StoredAt, hfirst, hget 1, hget 2, hget 3, toBytes]
  -- Fewer than four bytes on either side, or four to compare.
  rcases data.drop index with _ | ⟨r, _ | ⟨g, _ | ⟨b, _ | ⟨a, rest⟩⟩⟩⟩ <;> simp

theorem exists_storedAt_iff {data : List UInt8} {index : Nat} :
    (∃ p : Pixel, p.StoredAt data index) ↔ index + 4 ≤ data.length := by
  constructor
  · rintro ⟨p, _, _, _, hlast⟩
    have hlt := (List.getElem?_eq_some_iff.1 hlast).1
    omega
  · intro h
    exact ⟨⟨data[index], data[index + 1], data[index + 2], data[index + 3]⟩,
      List.getElem?_eq_getElem _, List.getElem?_eq_getElem _, List.getElem?_eq_getElem _,
      List.getElem?_eq_getElem _⟩

namespace Bitmap

def Inside (bitmap : Bitmap) (x y : UInt32) : Prop := x < bitmap.width ∧ y < bitmap.height

/-- How many pixels stand in front of this one, row by row from the top. -/
def place (bitmap : Bitmap) (x y : UInt32) : Nat := y.toNat * bitmap.width.toNat + x.toNat

def pixelCount (bitmap : Bitmap) : Nat := bitmap.width.toNat * bitmap.height.toNat

variable {bitmap : Bitmap} {x y x' y' : UInt32}

/-! ### Places -/

theorem place_lt (h : bitmap.Inside x y) : bitmap.place x y < bitmap.pixelCount := by
  obtain ⟨hx, hy⟩ := h
  rw [UInt32.lt_iff_toNat_lt] at hx hy
  calc bitmap.place x y
      < y.toNat * bitmap.width.toNat + bitmap.width.toNat := Nat.add_lt_add_left hx _
    _ = bitmap.width.toNat * (y.toNat + 1) := by rw [Nat.mul_succ, Nat.mul_comm]
    _ ≤ bitmap.pixelCount := Nat.mul_le_mul_left _ hy

theorem place_inj (h : bitmap.Inside x y) (h' : bitmap.Inside x' y')
    (heq : bitmap.place x y = bitmap.place x' y') : x = x' ∧ y = y' := by
  have hx := UInt32.lt_iff_toNat_lt.1 h.1
  have hx' := UInt32.lt_iff_toNat_lt.1 h'.1
  have hpos : 0 < bitmap.width.toNat := Nat.zero_lt_of_lt hx
  rw [place, place, Nat.mul_comm, Nat.mul_comm y'.toNat] at heq
  -- Row and column are the quotient and the remainder of the place.
  have hrow := congrArg (· / bitmap.width.toNat) heq
  have hcolumn := congrArg (· % bitmap.width.toNat) heq
  simp only [Nat.mul_add_div hpos, Nat.div_eq_of_lt hx, Nat.div_eq_of_lt hx', Nat.add_zero] at hrow
  simp only [Nat.mul_add_mod, Nat.mod_eq_of_lt hx, Nat.mod_eq_of_lt hx'] at hcolumn
  exact ⟨UInt32.toNat_inj.1 hcolumn, UInt32.toNat_inj.1 hrow⟩

theorem exists_place_eq {n : Nat} (h : n < bitmap.pixelCount) :
    ∃ x y, bitmap.Inside x y ∧ bitmap.place x y = n := by
  have hpos : 0 < bitmap.width.toNat := Nat.pos_of_mul_pos_right (Nat.zero_lt_of_lt h)
  have hx : n % bitmap.width.toNat < bitmap.width.toNat := Nat.mod_lt n hpos
  have hy : n / bitmap.width.toNat < bitmap.height.toNat := Nat.div_lt_of_lt_mul h
  have hcolumn : (UInt32.ofNat (n % bitmap.width.toNat)).toNat = n % bitmap.width.toNat :=
    UInt32.toNat_ofNat_of_lt (Nat.lt_trans hx bitmap.width.toNat_lt)
  have hrow : (UInt32.ofNat (n / bitmap.width.toNat)).toNat = n / bitmap.width.toNat :=
    UInt32.toNat_ofNat_of_lt (Nat.lt_trans hy bitmap.height.toNat_lt)
  refine ⟨UInt32.ofNat (n % bitmap.width.toNat), UInt32.ofNat (n / bitmap.width.toNat),
    ⟨?_, ?_⟩, ?_⟩
  · rwa [UInt32.lt_iff_toNat_lt, hcolumn]
  · rwa [UInt32.lt_iff_toNat_lt, hrow]
  · rw [place, hcolumn, hrow, Nat.mul_comm]
    exact Nat.div_add_mod n bitmap.width.toNat

/-! ### Indices -/

theorem toNat_byteIndex (bitmap : Bitmap) (x y : UInt32) :
    (bitmap.byteIndex x y).toNat = 4 * bitmap.place x y % 2 ^ 64 := by
  have hfour : (4 : UInt64).toNat = 4 := rfl
  rw [byteIndex, place, UInt64.toNat_mul, UInt64.toNat_add, UInt64.toNat_mul, hfour,
    UInt32.toNat_toUInt64, UInt32.toNat_toUInt64, UInt32.toNat_toUInt64]
  omega

theorem toNat_byteIndex_eq_iff :
    (bitmap.byteIndex x y).toNat = 4 * bitmap.place x y ↔ bitmap.place x y < 2 ^ 62 := by
  rw [toNat_byteIndex]
  omega

theorem pixel?_eq_some_iff {p : Pixel} : bitmap.pixel? x y = some p ↔
    bitmap.Inside x y ∧ p.StoredAt bitmap.data (bitmap.byteIndex x y).toNat := by
  rw [Pixel.storedAt_iff, pixel?]
  split
  · next hinside =>
    split
    · next r g b a hbytes =>
      rw [hbytes]
      obtain ⟨red, green, blue, alpha⟩ := p
      simp [Inside, hinside, Pixel.toBytes]
    · next hshort =>
      have hnot : ¬(bitmap.data.drop (bitmap.byteIndex x y).toNat).take 4 = p.toBytes :=
        fun hbytes => hshort _ _ _ _ hbytes
      simp [hnot]
  · next houtside => simp [Inside, houtside]

/-! ### Exactness -/

/-- There is a pixel just where the bitmap has one and the buffer has its four bytes, and these are
the bytes of the pixel. -/
structure LooksUp (bitmap : Bitmap) (x y : UInt32) : Prop where
  isSome_iff : (bitmap.pixel? x y).isSome = true ↔
    bitmap.Inside x y ∧ 4 * bitmap.place x y + 4 ≤ bitmap.data.length
  storedAt : ∀ p, bitmap.pixel? x y = some p → p.StoredAt bitmap.data (4 * bitmap.place x y)

/-- Two pixels share no byte of the buffer. -/
def Apart (bitmap : Bitmap) (x y x' y' : UInt32) : Prop :=
  (bitmap.byteIndex x y).toNat + 4 ≤ (bitmap.byteIndex x' y').toNat ∨
    (bitmap.byteIndex x' y').toNat + 4 ≤ (bitmap.byteIndex x y).toNat

theorem looksUp_of_byteIndex
    (h : bitmap.Inside x y → (bitmap.byteIndex x y).toNat = 4 * bitmap.place x y) :
    bitmap.LooksUp x y := by
  constructor
  · rw [Option.isSome_iff_exists, ← exists_storedAt_iff]
    constructor
    · rintro ⟨p, hp⟩
      obtain ⟨hinside, hstored⟩ := pixel?_eq_some_iff.1 hp
      exact ⟨hinside, p, h hinside ▸ hstored⟩
    · rintro ⟨hinside, p, hstored⟩
      exact ⟨p, pixel?_eq_some_iff.2 ⟨hinside, (h hinside).symm ▸ hstored⟩⟩
  · intro p hp
    obtain ⟨hinside, hstored⟩ := pixel?_eq_some_iff.1 hp
    exact h hinside ▸ hstored

theorem apart_of_byteIndex (h : bitmap.Inside x y) (h' : bitmap.Inside x' y')
    (hne : (x, y) ≠ (x', y')) (hindex : (bitmap.byteIndex x y).toNat = 4 * bitmap.place x y)
    (hindex' : (bitmap.byteIndex x' y').toNat = 4 * bitmap.place x' y') :
    bitmap.Apart x y x' y' := by
  have hplace : bitmap.place x y ≠ bitmap.place x' y' := by
    intro heq
    obtain ⟨rfl, rfl⟩ := place_inj h h' heq
    exact hne rfl
  rw [Apart, hindex, hindex']
  omega

/-- In a picture with more than `2 ^ 62` pixels, one is read from the first four bytes although it
is not the first one. -/
theorem exists_wrapped (h : 2 ^ 62 < bitmap.pixelCount) :
    ∃ x y, bitmap.Inside x y ∧ bitmap.place x y = 2 ^ 62 ∧ (bitmap.byteIndex x y).toNat = 0 := by
  obtain ⟨x, y, hinside, hplace⟩ := exists_place_eq h
  refine ⟨x, y, hinside, hplace, ?_⟩
  rw [toNat_byteIndex]
  omega

theorem inside_zero (h : 0 < bitmap.pixelCount) : bitmap.Inside 0 0 := by
  constructor
  · exact UInt32.lt_iff_toNat_lt.2 (Nat.pos_of_mul_pos_right h)
  · exact UInt32.lt_iff_toNat_lt.2 (Nat.pos_of_mul_pos_left h)

theorem pixelCount_le_of_byteIndex
    (h : ∀ x y, bitmap.Inside x y → (bitmap.byteIndex x y).toNat = 4 * bitmap.place x y) :
    bitmap.pixelCount ≤ 2 ^ 62 := by
  apply Nat.le_of_not_lt
  intro hlarge
  obtain ⟨x, y, hinside, hplace, hzero⟩ := exists_wrapped hlarge
  have heq := h x y hinside
  omega

theorem pixelCount_le_of_looksUp (h : ∀ data x y, { bitmap with data }.LooksUp x y) :
    bitmap.pixelCount ≤ 2 ^ 62 := by
  apply Nat.le_of_not_lt
  intro hlarge
  obtain ⟨x, y, hinside, hplace, hzero⟩ := exists_wrapped hlarge
  -- Four bytes are enough for the lookup to find something.
  have hstored : Pixel.clear.StoredAt [0, 0, 0, 0] (bitmap.byteIndex x y).toNat := by
    rw [hzero]
    exact ⟨rfl, rfl, rfl, rfl⟩
  have hfound : { bitmap with data := [0, 0, 0, 0] }.pixel? x y = some .clear :=
    pixel?_eq_some_iff.2 ⟨hinside, hstored⟩
  have hfits : 4 * bitmap.place x y + 4 ≤ 4 :=
    ((h [0, 0, 0, 0] x y).isSome_iff.1 (Option.isSome_of_eq_some hfound)).2
  omega

theorem pixelCount_le_of_apart
    (h : ∀ x y x' y', bitmap.Inside x y → bitmap.Inside x' y' → (x, y) ≠ (x', y') →
      bitmap.Apart x y x' y') :
    bitmap.pixelCount ≤ 2 ^ 62 := by
  apply Nat.le_of_not_lt
  intro hlarge
  obtain ⟨x, y, hinside, hplace, hzero⟩ := exists_wrapped hlarge
  have hfirst : bitmap.place 0 0 = 0 := by simp [place]
  have hne : (x, y) ≠ (0, 0) := by
    intro heq
    cases heq
    omega
  have hapart := h x y 0 0 hinside (inside_zero (Nat.zero_lt_of_lt hlarge)) hne
  rw [Apart, hzero, toNat_byteIndex, hfirst] at hapart
  omega

/-- A pixel is read from the bytes at four times its place, as a word of 64 bits. For the pixels of
a picture this is the number itself, the lookup is exact for every buffer, and no two pixels share
a byte, each of these exactly if there are no more than `2 ^ 62` pixels. -/
theorem lookup_exact_iff_addressable (bitmap : Bitmap) :
    (∀ x y p, bitmap.pixel? x y = some p ↔
      bitmap.Inside x y ∧ p.StoredAt bitmap.data (4 * bitmap.place x y % 2 ^ 64)) ∧
    ((∀ x y, bitmap.Inside x y → (bitmap.byteIndex x y).toNat = 4 * bitmap.place x y) ↔
      bitmap.pixelCount ≤ 2 ^ 62) ∧
    ((∀ data x y, { bitmap with data }.LooksUp x y) ↔ bitmap.pixelCount ≤ 2 ^ 62) ∧
    ((∀ x y x' y', bitmap.Inside x y → bitmap.Inside x' y' → (x, y) ≠ (x', y') →
      bitmap.Apart x y x' y') ↔ bitmap.pixelCount ≤ 2 ^ 62) := by
  have hindex (hsmall : bitmap.pixelCount ≤ 2 ^ 62) (x y : UInt32) (h : bitmap.Inside x y) :
      (bitmap.byteIndex x y).toNat = 4 * bitmap.place x y :=
    toNat_byteIndex_eq_iff.2 (Nat.lt_of_lt_of_le (place_lt h) hsmall)
  refine ⟨fun x y p => ?_, ⟨pixelCount_le_of_byteIndex, hindex⟩,
    ⟨pixelCount_le_of_looksUp, fun hsmall data x y => ?_⟩,
    ⟨pixelCount_le_of_apart, fun hsmall x y x' y' hinside hinside' hne => ?_⟩⟩
  · rw [pixel?_eq_some_iff, toNat_byteIndex]
  · exact looksUp_of_byteIndex (hindex hsmall x y)
  · exact apart_of_byteIndex hinside hinside' hne (hindex hsmall x y hinside)
      (hindex hsmall x' y' hinside')

/-- A picture of more than `2 ^ 62` pixels, of which only the first is there. -/
def vast : Bitmap := ⟨0x80000000, 0xffffffff, [1, 2, 3, 4], false⟩

/-- The pixel at the place `2 ^ 62` has no bytes of its own, and is found in those of the first. -/
theorem lookup_wraps_on_vast :
    vast.Inside 0 0x80000000 ∧ vast.place 0 0x80000000 = 2 ^ 62 ∧
      ¬4 * vast.place 0 0x80000000 + 4 ≤ vast.data.length ∧
      vast.pixel? 0 0x80000000 = some ⟨1, 2, 3, 4⟩ ∧ vast.pixel? 0 0 = some ⟨1, 2, 3, 4⟩ ∧
      ¬vast.Apart 0 0x80000000 0 0 := by
  refine ⟨⟨by decide, by decide⟩, by decide, by decide, by decide, by decide, ?_⟩
  unfold Apart
  decide

end Bitmap

end LSystem
