import LSystem.CommandLine.Size
import LSystem.Picture.Canvas
import LSystem.Proofs.Text.Integer
import Mathlib.Algebra.Ring.Nat

/-!
# Sizes by their form

A size is two numbers with an `x` of either case between them, blanks around
each number at will. Main facts: exactly the texts of this form are read, and a
size that is read reaches the canvas as it is or not at all.
-/

namespace LSystem

namespace Text

/-! ### Blanks around a text -/

theorem dropWhile_blanks {blanks : List Char} (hblanks : ∀ c ∈ blanks, isBlank c = true)
    {core : List Char} (hcore : ∀ c ∈ core, isBlank c = false) (hsome : core ≠ [])
    (rest : List Char) : (blanks ++ (core ++ rest)).dropWhile isBlank = core ++ rest := by
  cases core with
  | nil => exact absurd rfl hsome
  | cons c core =>
    have hc : ¬isBlank c = true := by simp [hcore c]
    rw [List.dropWhile_append_of_pos hblanks, List.cons_append, List.dropWhile_cons_of_neg hc]

/-- A text without blanks in it is all that trimming leaves of itself with blanks around it. -/
theorem trim_blanks {front core back : List Char} (hfront : ∀ c ∈ front, isBlank c = true)
    (hback : ∀ c ∈ back, isBlank c = true) (hcore : ∀ c ∈ core, isBlank c = false)
    (hsome : core ≠ []) : trim (front ++ (core ++ back)) = core := by
  have hback' : ∀ c ∈ back.reverse, isBlank c = true := fun c hc => hback c (List.mem_reverse.1 hc)
  have hcore' : ∀ c ∈ core.reverse, isBlank c = false :=
    fun c hc => hcore c (List.mem_reverse.1 hc)
  have hsome' : core.reverse ≠ [] := by simpa using hsome
  have hlast := dropWhile_blanks hback' hcore' hsome' []
  rw [List.append_nil] at hlast
  rw [trim, dropWhile_blanks hfront hcore hsome, List.reverse_append, hlast, List.reverse_reverse]

theorem exists_blanks_trim (text : List Char) :
    ∃ front back, text = front ++ (trim text ++ back) ∧ (∀ c ∈ front, isBlank c = true) ∧
      ∀ c ∈ back, isBlank c = true := by
  refine ⟨text.takeWhile isBlank,
    ((text.dropWhile isBlank).reverse.takeWhile isBlank).reverse, ?_,
    List.all_eq_true.1 List.all_takeWhile,
    fun c hc => List.all_eq_true.1 List.all_takeWhile c (List.mem_reverse.1 hc)⟩
  rw [trim, ← List.reverse_append, List.takeWhile_append_dropWhile, List.reverse_reverse,
    List.takeWhile_append_dropWhile]

theorem cutAt_append {cut : Char → Bool} {before : List Char}
    (hbefore : ∀ d ∈ before, cut d = false) {c : Char} (hc : cut c = true) (after : List Char) :
    cutAt cut (before ++ c :: after) = some (before, after) := by
  induction before with
  | nil => simp [cutAt, hc]
  | cons d before ih =>
    obtain ⟨hd, hbefore⟩ := List.forall_mem_cons.1 hbefore
    simp [cutAt, hd, ih hbefore]

theorem cutAt_eq_some_iff {cut : Char → Bool} {text before after : List Char} :
    cutAt cut text = some (before, after) ↔
      ∃ c, cut c = true ∧ text = before ++ c :: after ∧ ∀ d ∈ before, cut d = false := by
  constructor
  · exact eq_append_of_cutAt
  · rintro ⟨c, hc, rfl, hbefore⟩
    exact cutAt_append hbefore hc after

end Text

/-! ### Canvases of a size -/

theorem Canvas.new_eq_ok_iff {width height : Nat} {canvas : Canvas} :
    Canvas.new width height = .ok canvas ↔
      (1 ≤ width ∧ width ≤ 65535) ∧ (1 ≤ height ∧ height ≤ 65535) ∧
        canvas = { width := UInt16.ofNat width, height := UInt16.ofNat height } := by
  have hsize : UInt16.size = 65536 := rfl
  rw [Canvas.new, hsize]
  split
  · next hwide =>
    simp only [reduceCtorEq, false_iff]
    omega
  · split
    · next hhigh =>
      simp only [reduceCtorEq, false_iff]
      omega
    · split
      · next hempty =>
        simp only [reduceCtorEq, false_iff]
        omega
      · next hwide hhigh hempty =>
        have hfits : (1 ≤ width ∧ width ≤ 65535) ∧ 1 ≤ height ∧ height ≤ 65535 := by omega
        simp only [Except.ok.injEq, hfits, true_and, and_self, eq_comm]

/-- Neither side of a canvas is cut off to fit its 16 bits. -/
theorem Canvas.toNat_of_new {width height : Nat} {canvas : Canvas}
    (h : Canvas.new width height = .ok canvas) :
    canvas.width.toNat = width ∧ canvas.height.toNat = height := by
  obtain ⟨⟨_, hwidth⟩, ⟨_, hheight⟩, rfl⟩ := Canvas.new_eq_ok_iff.1 h
  exact ⟨UInt16.toNat_ofNat_of_lt (Nat.lt_succ_of_le hwidth),
    UInt16.toNat_ofNat_of_lt (Nat.lt_succ_of_le hheight)⟩

namespace CommandLine

open Text (isBlank)

/-! ### One side -/

/-- A number that may have a plus sign, with blanks around it at will, and that fits 32 bits. -/
def ReadsAsSide (text : List Char) (n : Nat) : Prop :=
  ∃ front plus digits back, text = front ++ (plus ++ Digit.text digits ++ back) ∧
    (∀ c ∈ front, isBlank c = true) ∧ (∀ c ∈ back, isBlank c = true) ∧
    (plus = [] ∨ plus = ['+']) ∧ digits ≠ [] ∧ Digit.toNat digits = n ∧ n ≤ 2 ^ 32 - 1

theorem unsigned32_spells_iff {text : List Char} {n : Int} :
    Text.IntegerWidth.unsigned32.Spells text n ↔
      ∃ plus digits, (plus = [] ∨ plus = ['+']) ∧ digits ≠ [] ∧
        text = plus ++ Digit.text digits ∧ n = Digit.toNat digits ∧
        Digit.toNat digits ≤ 2 ^ 32 - 1 := by
  constructor
  · rintro ⟨sign, digits, hdigits, htext, hn, limit, hlimit, hfits⟩
    cases sign with
    | absent =>
      cases hlimit
      exact ⟨[], digits, .inl rfl, hdigits, htext, hn, hfits⟩
    | plus =>
      cases hlimit
      exact ⟨['+'], digits, .inr rfl, hdigits, htext, hn, hfits⟩
    | minus => cases hlimit
  · rintro ⟨plus, digits, rfl | rfl, hdigits, htext, hn, hfits⟩
    · exact ⟨.absent, digits, hdigits, htext, hn, _, rfl, hfits⟩
    · exact ⟨.plus, digits, hdigits, htext, hn, _, rfl, hfits⟩

theorem isBlank_number {plus : List Char} (hplus : plus = [] ∨ plus = ['+'])
    (digits : List Digit) : ∀ c ∈ plus ++ Digit.text digits, isBlank c = false := by
  have hdigit : ∀ d : Digit, isBlank d.toChar = false := by decide
  intro c hc
  rcases List.mem_append.1 hc with hc | hc
  · rcases hplus with rfl | rfl
    · cases hc
    · cases List.mem_singleton.1 hc
      decide
  · obtain ⟨d, _, rfl⟩ := List.mem_map.1 hc
    exact hdigit d

theorem readSide_eq_ok_iff {text : List Char} {n : Nat} :
    readSide text = .ok n ↔ ReadsAsSide text n := by
  constructor
  · intro h
    obtain ⟨front, back, htext, hfront, hback⟩ := Text.exists_blanks_trim text
    unfold readSide at h
    cases hread : Text.readInteger .unsigned32 (Text.trim text) with
    | error e =>
      rw [hread] at h
      cases h
    | ok i =>
      rw [hread] at h
      cases h
      obtain ⟨plus, digits, hplus, hdigits, htrim, rfl, hfits⟩ :=
        unsigned32_spells_iff.1 (Text.readInteger_eq_ok_iff.1 hread)
      rw [htrim] at htext
      exact ⟨front, plus, digits, back, htext, hfront, hback, hplus, hdigits, rfl, hfits⟩
  · rintro ⟨front, plus, digits, back, rfl, hfront, hback, hplus, hdigits, rfl, hfits⟩
    have hsome : plus ++ Digit.text digits ≠ [] := by
      simp [Digit.text, hdigits]
    have hread := Text.readInteger_eq_ok_iff.2
      (unsigned32_spells_iff.2 ⟨plus, digits, hplus, hdigits, rfl, rfl, hfits⟩)
    rw [readSide, Text.trim_blanks hfront hback (isBlank_number hplus digits) hsome, hread]
    rfl

/-! ### Both sides -/

def IsCross (c : Char) : Prop := c = 'x' ∨ c = 'X'

/-- The text in front of the first `x` of either case, and the text behind it. -/
def CutAtCross (text before after : List Char) : Prop :=
  ∃ cross, IsCross cross ∧ text = before ++ cross :: after ∧ ∀ c ∈ before, ¬IsCross c

theorem cutAt_cross_iff {text before after : List Char} :
    Text.cutAt (fun c => c = 'x' || c = 'X') text = some (before, after) ↔
      CutAtCross text before after := by
  simp [Text.cutAt_eq_some_iff, CutAtCross, IsCross]

theorem readSize_of_cut {text : String} {before after : List Char}
    (h : CutAtCross text.toList before after) {size : Nat × Nat} :
    readSize text = .ok size ↔ readSide before = .ok size.1 ∧ readSide after = .ok size.2 ∧
      1 ≤ size.1 ∧ 1 ≤ size.2 := by
  have hread : readSize text = ((readSide before).mapError .width).bind fun width =>
      ((readSide after).mapError .height).bind fun height =>
        if width = 0 ∨ height = 0 then .error .empty else .ok (width, height) := by
    rw [readSize, cutAt_cross_iff.2 h]
    rfl
  rw [hread]
  cases readSide before with
  | error e => simp [Except.mapError, Except.bind]
  | ok width =>
    cases readSide after with
    | error e => simp [Except.mapError, Except.bind]
    | ok height =>
      obtain ⟨w, h⟩ := size
      simp only [Except.mapError, Except.bind, Except.ok.injEq]
      split
      · next hzero =>
        simp only [reduceCtorEq, false_iff]
        omega
      · next hpositive =>
        simp only [Except.ok.injEq, Prod.mk.injEq]
        omega

theorem readSize_eq_ok_iff {text : String} {size : Nat × Nat} :
    readSize text = .ok size ↔ ∃ before after, CutAtCross text.toList before after ∧
      (ReadsAsSide before size.1 ∧ 1 ≤ size.1) ∧ ReadsAsSide after size.2 ∧ 1 ≤ size.2 := by
  constructor
  · intro h
    cases hcut : Text.cutAt (fun c => c = 'x' || c = 'X') text.toList with
    | none =>
      rw [readSize, hcut] at h
      cases h
    | some sides =>
      have hcross := cutAt_cross_iff.1 hcut
      obtain ⟨hbefore, hafter, hwidth, hheight⟩ := (readSize_of_cut hcross).1 h
      exact ⟨_, _, hcross, ⟨readSide_eq_ok_iff.1 hbefore, hwidth⟩, readSide_eq_ok_iff.1 hafter,
        hheight⟩
  · rintro ⟨before, after, hcross, ⟨hbefore, hwidth⟩, hafter, hheight⟩
    exact (readSize_of_cut hcross).2 ⟨readSide_eq_ok_iff.2 hbefore, readSide_eq_ok_iff.2 hafter,
      hwidth, hheight⟩

/-- A text is read as a size exactly if it is two numbers from 1 to `2 ^ 32 - 1` with a cross
between them. There is a canvas for a size that was read exactly if both numbers fit 16 bits, and it
has just this width and this height. -/
theorem size_read_reaches_canvas (text : String) (width height : Nat) :
    (readSize text = .ok (width, height) ↔
      ∃ before after, CutAtCross text.toList before after ∧
        (ReadsAsSide before width ∧ 1 ≤ width) ∧ ReadsAsSide after height ∧ 1 ≤ height) ∧
    (readSize text = .ok (width, height) →
      ((∃ canvas, Canvas.new width height = .ok canvas) ↔ width ≤ 65535 ∧ height ≤ 65535) ∧
      ∀ canvas, Canvas.new width height = .ok canvas →
        canvas.width.toNat = width ∧ canvas.height.toNat = height) := by
  refine ⟨readSize_eq_ok_iff, fun hread => ⟨⟨?_, ?_⟩, fun canvas => Canvas.toNat_of_new⟩⟩
  · rintro ⟨canvas, hcanvas⟩
    obtain ⟨⟨_, hwidth⟩, ⟨_, hheight⟩, _⟩ := Canvas.new_eq_ok_iff.1 hcanvas
    exact ⟨hwidth, hheight⟩
  · rintro ⟨hwidth, hheight⟩
    obtain ⟨_, _, _, ⟨_, hsome⟩, _, hsome'⟩ := readSize_eq_ok_iff.1 hread
    exact ⟨_, Canvas.new_eq_ok_iff.2 ⟨⟨hsome, hwidth⟩, ⟨hsome', hheight⟩, rfl⟩⟩

/-- A plus sign, zeros in front and blanks of several kinds are of no account; the largest side there
is makes a size, but no canvas. -/
theorem size_read_reaches_canvas_odd :
    readSize "\t+0640 X\u3000480\u2028" = .ok (640, 480) ∧
      (∃ canvas, Canvas.new 640 480 = .ok canvas ∧ canvas.width.toNat = 640 ∧
        canvas.height.toNat = 480) ∧
      readSize "4294967295x65535" = .ok (4294967295, 65535) ∧
      ¬∃ canvas, Canvas.new 4294967295 65535 = .ok canvas := by
  have hread : readSize "\t+0640 X\u3000480\u2028" = .ok (640, 480) := by rfl
  have hlarge : readSize "4294967295x65535" = .ok (4294967295, 65535) := by rfl
  obtain ⟨hcanvas, hkept⟩ := (size_read_reaches_canvas _ 640 480).2 hread
  obtain ⟨hnone, _⟩ := (size_read_reaches_canvas _ 4294967295 65535).2 hlarge
  obtain ⟨canvas, hnew⟩ := hcanvas.2 (by decide)
  refine ⟨hread, ⟨canvas, hnew, hkept canvas hnew⟩, hlarge, fun h => ?_⟩
  exact absurd (hnone.1 h) (by decide)

end CommandLine

end LSystem
