import LSystem.Proofs.Grammar.Pairing
import Mathlib.Data.List.Basic

/-!
# Completed branches

A word read so far has completed some of its branches, and a letter between the
two ends of one of these is enclosed. Branch starts without a partner are open.
Read from its end, a word is one letter more than a shorter word, which closes
nothing, or one whole branch more: whatever is kept outside the completed
branches, and whatever is open, can be followed along these two steps.
-/

namespace LSystem

variable {β : Type}

section Definitions

variable (bracket? : β → Option Bracket) (word : List β)

/-- A position belongs to a branch of the word that is left again, from its start to its end. -/
def Enclosed (position : Nat) : Prop :=
  ∃ first ≤ position, ∃ last < word.length, position ≤ last ∧ Pairs bracket? word first last

instance (position : Nat) : Decidable (Enclosed bracket? word position) :=
  inferInstanceAs (Decidable (∃ _ ≤ _, _))

/-- The letters outside the completed branches, in order. -/
def kept : List β :=
  (List.range word.length).filterMap fun i => if Enclosed bracket? word i then none else word[i]?

/-- A branch is entered that is not left again. -/
def Open (first : Nat) : Prop :=
  bracketAt? bracket? word first = some .opening ∧
    ∀ last < word.length, ¬ Pairs bracket? word first last

instance (first : Nat) : Decidable (Open bracket? word first) :=
  inferInstanceAs (Decidable (_ ∧ _))

/-- The starts of the open branches, outermost first. -/
def openings : List Nat := (List.range word.length).filter fun i => Open bracket? word i

end Definitions

variable {bracket? : β → Option Bracket}

/-! ### Depth along a word -/

theorem openAfter?_append (u v : List β) (depth : Nat) :
    openAfter? bracket? depth (u ++ v) =
      (openAfter? bracket? depth u).bind fun behind => openAfter? bracket? behind v := by
  induction u generalizing depth with
  | nil => rfl
  | cons b rest ih =>
    simp only [List.cons_append, openAfter?]
    cases bracket? b with
    | none => exact ih depth
    | some bracket =>
      cases bracket with
      | opening => exact ih (depth + 1)
      | closing =>
        cases depth with
        | zero => rfl
        | succ depth => exact ih depth

/-- Branches that are open already stay so, where a word leaves none but its own. -/
theorem openAfter?_add {word : List β} {depth behind : Nat}
    (h : openAfter? bracket? depth word = some behind) (more : Nat) :
    openAfter? bracket? (depth + more) word = some (behind + more) := by
  induction word generalizing depth with
  | nil =>
    cases h
    rfl
  | cons b rest ih =>
    simp only [openAfter?] at h ⊢
    cases hb : bracket? b with
    | none =>
      rw [hb] at h
      exact ih h
    | some bracket =>
      rw [hb] at h
      cases bracket with
      | opening =>
        have hrest := ih h
        rwa [Nat.add_right_comm] at hrest
      | closing =>
        cases depth with
        | zero => cases h
        | succ depth =>
          rw [Nat.add_right_comm]
          exact ih h

/-! ### Pairs in parts of a word -/

theorem bracketAt?_append_left {u : List β} {i : Nat} (h : i < u.length) (v : List β) :
    bracketAt? bracket? (u ++ v) i = bracketAt? bracket? u i := by
  rw [bracketAt?, bracketAt?, List.getElem?_append_left h]

theorem bracketAt?_append_right (u v : List β) (i : Nat) :
    bracketAt? bracket? (u ++ v) (u.length + i) = bracketAt? bracket? v i := by
  rw [bracketAt?, bracketAt?, List.getElem?_append_right (Nat.le_add_right ..),
    Nat.add_sub_cancel_left]

theorem Pairs.last_lt {word : List β} {first last : Nat} (h : Pairs bracket? word first last) :
    last < word.length := by
  obtain ⟨_, _, hclosing, _⟩ := h
  refine Nat.lt_of_not_le fun hle => ?_
  rw [bracketAt?, List.getElem?_eq_none hle] at hclosing
  cases hclosing

theorem pairs_append_left {u : List β} {first last : Nat} (h : last < u.length) (v : List β) :
    Pairs bracket? (u ++ v) first last ↔ Pairs bracket? u first last := by
  refine and_congr_right fun hlt => ?_
  rw [bracketAt?_append_left (Nat.lt_trans hlt h), bracketAt?_append_left h,
    List.take_append_of_le_length (Nat.le_of_lt h)]

theorem pairs_append_right (u v : List β) (first last : Nat) :
    Pairs bracket? (u ++ v) (u.length + first) (u.length + last) ↔
      Pairs bracket? v first last := by
  rw [Pairs, Pairs, bracketAt?_append_right, bracketAt?_append_right, Nat.add_lt_add_iff_left,
    List.take_length_add_append, Nat.add_assoc, List.drop_length_add_append]

/-- No pair has its ends on either side of where a well-nested word begins. -/
theorem not_pairs_across {u v : List β} (h : WellNested bracket? v) {first last : Nat}
    (hfirst : first < u.length) (hlast : u.length ≤ last) :
    ¬ Pairs bracket? (u ++ v) first last := by
  rintro ⟨_, _, hclosing, hinner⟩
  obtain ⟨k, rfl⟩ := Nat.exists_eq_add_of_le hlast
  rw [bracketAt?_append_right, bracketAt?] at hclosing
  obtain ⟨b, hb, hbracket⟩ := Option.bind_eq_some_iff.1 hclosing
  obtain ⟨hk, hget⟩ := List.getElem?_eq_some_iff.1 hb
  -- Before the closing end, `v` alone has left a branch open.
  have hopen : ∃ depth, openAfter? bracket? 0 (v.take k) = some (depth + 1) := by
    have hv := wellNested_iff_openAfter?.1 h
    rw [← List.take_append_drop k v, openAfter?_append, List.drop_eq_getElem_cons hk, hget] at hv
    obtain ⟨behind, hbehind, hrest⟩ := Option.bind_eq_some_iff.1 hv
    simp only [openAfter?, hbracket] at hrest
    cases behind with
    | zero => cases hrest
    | succ depth => exact ⟨depth, hbehind⟩
  obtain ⟨depth, hdepth⟩ := hopen
  rw [wellNested_iff_openAfter?, List.take_length_add_append,
    List.drop_append_of_le_length hfirst, openAfter?_append] at hinner
  obtain ⟨before, hbefore, hall⟩ := Option.bind_eq_some_iff.1 hinner
  have hmore := openAfter?_add hdepth before
  rw [Nat.zero_add, hall] at hmore
  exact absurd (Option.some.inj hmore) (by omega)

/-- A pair with all that stands before it and between its ends. -/
theorem Pairs.exists_split {word : List β} {first last : Nat}
    (h : Pairs bracket? word first last) :
    ∃ before opening inner closing, word.take (last + 1) =
        before ++ opening :: (inner ++ [closing]) ∧ before = word.take first ∧
      bracket? opening = some .opening ∧ WellNested bracket? inner ∧
      bracket? closing = some .closing := by
  have hlast := h.last_lt
  obtain ⟨hlt, hopening, hclosing, hinner⟩ := h
  have hfirst : first < word.length := Nat.lt_trans hlt hlast
  have hfirst' : first < (word.take last).length := by
    rwa [List.length_take_of_le (Nat.le_of_lt hlast)]
  rw [bracketAt?, List.getElem?_eq_getElem hfirst] at hopening
  rw [bracketAt?, List.getElem?_eq_getElem hlast] at hclosing
  refine ⟨_, word[first], _, word[last], ?_, rfl, hopening, hinner, hclosing⟩
  rw [← List.take_append_getElem hlast, ← List.cons_append, ← List.append_assoc]
  congr 1
  have hdrop : (word.take last).drop first = word[first] :: (word.take last).drop (first + 1) := by
    rw [List.drop_eq_getElem_cons hfirst', List.getElem_take]
  rw [← hdrop]
  have hprefix : (word.take last).take first = word.take first := by
    rw [List.take_take, Nat.min_eq_left (Nat.le_of_lt hlt)]
  rw [← hprefix, List.take_append_drop]

/-! ### A letter that closes nothing -/

section Unpaired

variable {init : List β} {b : β}

/-- Nothing changes for the letters before one that closes nothing. -/
theorem pairs_concat_iff (hfree : ∀ first, ¬ Pairs bracket? (init ++ [b]) first init.length)
    {first last : Nat} :
    Pairs bracket? (init ++ [b]) first last ↔ Pairs bracket? init first last := by
  constructor
  · intro h
    have hlast := h.last_lt
    rw [List.length_append, List.length_singleton] at hlast
    rcases Nat.eq_or_lt_of_le (Nat.le_of_lt_succ hlast) with rfl | hlt
    · exact absurd h (hfree first)
    · exact (pairs_append_left hlt [b]).1 h
  · intro h
    exact (pairs_append_left h.last_lt [b]).2 h

theorem enclosed_concat_iff (hfree : ∀ first, ¬ Pairs bracket? (init ++ [b]) first init.length)
    {position : Nat} :
    Enclosed bracket? (init ++ [b]) position ↔ Enclosed bracket? init position := by
  unfold Enclosed
  simp only [pairs_concat_iff hfree]
  constructor
  · rintro ⟨first, hfirst, last, _, hlast, h⟩
    exact ⟨first, hfirst, last, h.last_lt, hlast, h⟩
  · rintro ⟨first, hfirst, last, hlt, hlast, h⟩
    refine ⟨first, hfirst, last, ?_, hlast, h⟩
    rw [List.length_append]
    omega

theorem kept_concat (hfree : ∀ first, ¬ Pairs bracket? (init ++ [b]) first init.length) :
    kept bracket? (init ++ [b]) = kept bracket? init ++ [b] := by
  have hlast : ¬ Enclosed bracket? init init.length := by
    rintro ⟨first, _, last, hlt, hle, _⟩
    omega
  rw [kept, List.length_append, List.length_singleton, List.range_succ, List.filterMap_append]
  congr 1
  · refine List.filterMap_congr fun i hi => ?_
    simp only [enclosed_concat_iff hfree]
    rw [List.getElem?_append_left (List.mem_range.1 hi)]
  · rw [← enclosed_concat_iff hfree] at hlast
    rw [List.filterMap_cons, if_neg hlast, List.getElem?_concat_length]
    rfl

theorem openings_concat (hfree : ∀ first, ¬ Pairs bracket? (init ++ [b]) first init.length) :
    openings bracket? (init ++ [b]) =
      openings bracket? init ++ if bracket? b = some .opening then [init.length] else [] := by
  have hopen : ∀ i < init.length, Open bracket? (init ++ [b]) i ↔ Open bracket? init i := by
    intro i hi
    unfold Open
    rw [bracketAt?_append_left hi]
    simp only [pairs_concat_iff hfree]
    refine and_congr_right fun _ => ⟨fun h last hlast => h last ?_, fun h last _ hpairs => ?_⟩
    · rw [List.length_append]
      exact Nat.lt_add_right _ hlast
    · exact h last hpairs.last_lt hpairs
  have hlast : Open bracket? (init ++ [b]) init.length ↔ bracket? b = some .opening := by
    unfold Open
    rw [bracketAt?, List.getElem?_concat_length, Option.bind_some]
    refine and_iff_left fun last _ hpairs => ?_
    have hlt := ((pairs_concat_iff hfree).1 hpairs).last_lt
    exact absurd hpairs.1 (Nat.not_lt.2 (Nat.le_of_lt hlt))
  rw [openings, List.length_append, List.length_singleton, List.range_succ, List.filter_append]
  congr 1
  · exact List.filter_congr fun i hi => decide_eq_decide.2 (hopen i (List.mem_range.1 hi))
  · rw [List.filter_cons, List.filter_nil]
    simp only [hlast, decide_eq_true_eq]

end Unpaired

/-! ### A whole branch -/

section Branch

variable {before inner : List β} {first last : β}

theorem pairs_branch (before : List β) (hfirst : bracket? first = some .opening)
    (hinner : WellNested bracket? inner) (hlast : bracket? last = some .closing) :
    Pairs bracket? (before ++ first :: (inner ++ [last])) before.length
      (before.length + (inner.length + 1)) := by
  have hpairs : Pairs bracket? (first :: (inner ++ [last])) 0 (inner.length + 1) := by
    refine ⟨Nat.succ_pos _, hfirst, ?_, ?_⟩
    · rw [bracketAt?, List.getElem?_cons_succ, List.getElem?_concat_length]
      exact hlast
    · rw [List.take_succ_cons, List.take_left', List.drop_succ_cons, List.drop_zero]
      · exact hinner
      · rfl
  exact (pairs_append_right before _ 0 _).2 hpairs

theorem exists_pairs_of_wellNested {word : List β} (h : WellNested bracket? word) {i : Nat}
    (hopening : bracketAt? bracket? word i = some .opening) :
    ∃ last, Pairs bracket? word i last := by
  induction h generalizing i with
  | nil => cases hopening
  | @plain b rest hb _ ih =>
    cases i with
    | zero =>
      have hnone : bracketAt? bracket? (b :: rest) 0 = none := hb
      rw [hnone] at hopening
      cases hopening
    | succ i =>
      obtain ⟨last, hpairs⟩ := ih hopening
      have hshift := (pairs_append_right [b] rest i last).2 hpairs
      rw [List.length_singleton, Nat.add_comm] at hshift
      exact ⟨_, hshift⟩
  | @branch first last inner rest hfirst hinner hlast _ ihinner ihrest =>
    have hsplit : first :: (inner ++ last :: rest) = (first :: (inner ++ [last])) ++ rest := by
      rw [List.cons_append, List.append_assoc, List.singleton_append]
    have hlength : (first :: (inner ++ [last])).length = inner.length + 2 := by
      rw [List.length_cons, List.length_append, List.length_singleton]
    rw [hsplit] at hopening ⊢
    rcases Nat.lt_or_ge i (inner.length + 2) with hi | hi
    · rw [bracketAt?_append_left (hlength ▸ hi)] at hopening
      have hbranch : ∃ last', Pairs bracket? (first :: (inner ++ [last])) i last' := by
        cases i with
        | zero => exact ⟨_, pairs_branch [] hfirst hinner hlast⟩
        | succ j =>
          have hshift : bracketAt? bracket? (inner ++ [last]) j = some .opening := hopening
          rcases Nat.eq_or_lt_of_le (Nat.le_of_lt_succ (Nat.lt_of_succ_lt_succ hi)) with rfl | hj
          · rw [bracketAt?, List.getElem?_concat_length, Option.bind_some, hlast] at hshift
            cases hshift
          · rw [bracketAt?_append_left hj] at hshift
            obtain ⟨last', hpairs⟩ := ihinner hshift
            have hpairs' := (pairs_append_left hpairs.last_lt [last]).2 hpairs
            have hbehind := (pairs_append_right [first] (inner ++ [last]) j last').2 hpairs'
            rw [List.length_singleton, Nat.add_comm] at hbehind
            exact ⟨_, hbehind⟩
      obtain ⟨last', hpairs⟩ := hbranch
      exact ⟨last', (pairs_append_left hpairs.last_lt rest).2 hpairs⟩
    · obtain ⟨j, rfl⟩ := Nat.exists_eq_add_of_le hi
      rw [← hlength, bracketAt?_append_right] at hopening
      obtain ⟨last', hpairs⟩ := ihrest hopening
      rw [← hlength]
      exact ⟨_, (pairs_append_right _ rest j last').2 hpairs⟩

section Behind

variable {u v : List β}

/-- A well-nested word does not change which positions before it are enclosed. -/
theorem enclosed_append_iff (hv : WellNested bracket? v) {i : Nat} (hi : i < u.length) :
    Enclosed bracket? (u ++ v) i ↔ Enclosed bracket? u i := by
  constructor
  · rintro ⟨first, hfirst, last, _, hlast, h⟩
    rcases Nat.lt_or_ge last u.length with hlt | hge
    · exact ⟨first, hfirst, last, hlt, hlast, (pairs_append_left hlt v).1 h⟩
    · exact absurd h (not_pairs_across hv (Nat.lt_of_le_of_lt hfirst hi) hge)
  · rintro ⟨first, hfirst, last, hlt, hlast, h⟩
    have h' := (pairs_append_left hlt v).2 h
    exact ⟨first, hfirst, last, h'.last_lt, hlast, h'⟩

theorem open_append_iff (hv : WellNested bracket? v) {i : Nat} (hi : i < u.length) :
    Open bracket? (u ++ v) i ↔ Open bracket? u i := by
  unfold Open
  rw [bracketAt?_append_left hi]
  refine and_congr_right fun _ => ⟨fun h last hlast hpairs => ?_, fun h last _ hpairs => ?_⟩
  · have hpairs' := (pairs_append_left hlast v).2 hpairs
    exact h last hpairs'.last_lt hpairs'
  · rcases Nat.lt_or_ge last u.length with hlt | hge
    · exact h last hlt ((pairs_append_left hlt v).1 hpairs)
    · exact not_pairs_across hv hi hge hpairs

/-- A well-nested word leaves no branch of its own open. -/
theorem openings_append (hv : WellNested bracket? v) :
    openings bracket? (u ++ v) = openings bracket? u := by
  have hbehind : ((List.range v.length).map (u.length + ·)).filter
      (fun i => Open bracket? (u ++ v) i) = [] := by
    refine List.filter_eq_nil_iff.2 fun i hi => ?_
    obtain ⟨k, _, rfl⟩ := List.mem_map.1 hi
    rw [decide_eq_true_eq]
    rintro ⟨hopening, hfree⟩
    rw [bracketAt?_append_right] at hopening
    obtain ⟨last, hpairs⟩ := exists_pairs_of_wellNested hv hopening
    have hpairs' := (pairs_append_right u v k last).2 hpairs
    exact hfree _ hpairs'.last_lt hpairs'
  rw [openings, List.length_append, List.range_add, List.filter_append, hbehind, List.append_nil]
  exact List.filter_congr fun i hi => decide_eq_decide.2 (open_append_iff hv (List.mem_range.1 hi))

end Behind

theorem kept_branch (hfirst : bracket? first = some .opening) (hinner : WellNested bracket? inner)
    (hlast : bracket? last = some .closing) :
    kept bracket? (before ++ first :: (inner ++ [last])) = kept bracket? before := by
  have hpairs := pairs_branch before hfirst hinner hlast
  have hbranch : WellNested bracket? (first :: (inner ++ [last])) := .branch hfirst hinner hlast .nil
  have hlength : (first :: (inner ++ [last])).length = inner.length + 2 := by
    rw [List.length_cons, List.length_append, List.length_singleton]
  generalize first :: (inner ++ [last]) = branch at *
  have hbehind : ((List.range branch.length).map (before.length + ·)).filterMap
      (fun i => if Enclosed bracket? (before ++ branch) i then none else (before ++ branch)[i]?) =
        [] := by
    refine List.filterMap_eq_nil_iff.2 fun i hi => ?_
    obtain ⟨k, hk, rfl⟩ := List.mem_map.1 hi
    have hk' : k < branch.length := List.mem_range.1 hk
    refine if_pos ⟨before.length, Nat.le_add_right .., _, hpairs.last_lt, ?_, hpairs⟩
    omega
  rw [kept, List.length_append, List.range_add, List.filterMap_append, hbehind, List.append_nil]
  refine List.filterMap_congr fun i hi => ?_
  have hi' : i < before.length := List.mem_range.1 hi
  rw [List.getElem?_append_left hi']
  simp only [enclosed_append_iff hbranch hi']

end Branch

example : kept Bracket.ofChar? "]F[F[+]]-[G".toList = "]F-[G".toList := by decide

/-- Induction along the two steps that a word is read by from its end. -/
theorem reading_induction (bracket? : β → Option Bracket) {motive : List β → Prop} (nil : motive [])
    (letter : ∀ init b, (∀ first, ¬ Pairs bracket? (init ++ [b]) first init.length) →
      motive init → motive (init ++ [b]))
    (branch : ∀ before first inner last, bracket? first = some .opening →
      WellNested bracket? inner → bracket? last = some .closing → motive before →
      motive (before ++ first :: (inner ++ [last]))) (word : List β) : motive word := by
  induction hlength : word.length using Nat.strongRecOn generalizing word with
  | ind length ih =>
    rcases List.eq_nil_or_concat word with rfl | ⟨init, b, rfl⟩
    · exact nil
    · rw [List.concat_eq_append] at hlength ⊢
      rw [List.length_append, List.length_singleton] at hlength
      by_cases hpaired : ∃ first, Pairs bracket? (init ++ [b]) first init.length
      · obtain ⟨first, hpairs⟩ := hpaired
        obtain ⟨before, opening, inner, closing, hsplit, hbefore, hopening, hinner, hclosing⟩ :=
          hpairs.exists_split
        rw [List.take_of_length_le (by simp)] at hsplit
        rw [hsplit]
        refine branch before opening inner closing hopening hinner hclosing ?_
        refine ih before.length ?_ before rfl
        have hshorter := congrArg List.length hsplit
        simp only [List.length_append, List.length_cons, List.length_nil] at hshorter
        omega
      · refine letter init b (fun first h => hpaired ⟨first, h⟩) ?_
        exact ih init.length (by omega) init rfl

end LSystem
