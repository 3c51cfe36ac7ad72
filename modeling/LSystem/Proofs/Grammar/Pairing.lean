import LSystem.Proofs.Grammar.Nesting

/-!
# Branch ends that pair up

In any word, well nested or not, an opening end and a closing one behind it
belong to each other if what stands between them is well nested. A closing end
without such a partner is a stray one. Reading from the left and counting the
open branches finds the strays: they are the closing ends at which none is open.
-/

namespace LSystem

variable {β : Type}

/-- How many branches are open behind a letter when `depth` are open before it; a stray end is
passed over. -/
def depthBehind (depth : Nat) : Option Bracket → Nat
  | none => depth
  | some .opening => depth + 1
  | some .closing => depth - 1

section Definitions

variable (bracket? : β → Option Bracket) (word : List β)

/-- The branch end at a position of a word. -/
def bracketAt? (position : Nat) : Option Bracket := word[position]?.bind bracket?

/-- A branch is entered at the first of the positions and left at the last one. -/
def Pairs (first last : Nat) : Prop :=
  first < last ∧ bracketAt? bracket? word first = some .opening ∧
    bracketAt? bracket? word last = some .closing ∧
    WellNested bracket? ((word.take last).drop (first + 1))

instance (first last : Nat) : Decidable (Pairs bracket? word first last) :=
  inferInstanceAs (Decidable (_ ∧ _ ∧ _ ∧ _))

/-- A branch end leaves a branch that is nowhere entered. -/
def Stray (position : Nat) : Prop :=
  bracketAt? bracket? word position = some .closing ∧
    ∀ first < position, ¬ Pairs bracket? word first position

instance (position : Nat) : Decidable (Stray bracket? word position) :=
  inferInstanceAs (Decidable (_ ∧ _))

/-- The stray ends in front of a position, in order. -/
def strays (position : Nat) : List Nat :=
  (List.range position).filter fun i => Stray bracket? word i

def openBehind (depth : Nat) : Nat :=
  word.foldl (fun depth b => depthBehind depth (bracket? b)) depth

end Definitions

variable {bracket? : β → Option Bracket}

theorem strays_succ (word : List β) (position : Nat) :
    strays bracket? word (position + 1) =
      strays bracket? word position ++
        if Stray bracket? word position then [position] else [] := by
  simp only [strays, List.range_succ, List.filter_append]
  congr 1
  by_cases h : Stray bracket? word position
  · simp only [List.filter_cons, h, decide_true, if_true, List.filter_nil]
  · simp only [List.filter_cons, h, decide_false, Bool.false_eq_true, if_false, List.filter_nil]

theorem openBehind_append (u v : List β) (depth : Nat) :
    openBehind bracket? (u ++ v) depth = openBehind bracket? v (openBehind bracket? u depth) :=
  List.foldl_append ..

theorem openBehind_singleton (b : β) (depth : Nat) :
    openBehind bracket? [b] depth = depthBehind depth (bracket? b) := rfl

theorem WellNested.openBehind_eq {word : List β} (h : WellNested bracket? word) (depth : Nat) :
    openBehind bracket? word depth = depth := by
  induction h generalizing depth with
  | nil => rfl
  | @plain b rest hb _ ih =>
    rw [← List.singleton_append, openBehind_append, ih, openBehind_singleton, hb,
      depthBehind]
  | @branch first last inner rest hfirst _ hlast _ ihinner ihrest =>
    rw [← List.singleton_append, ← List.singleton_append (l := rest), openBehind_append,
      openBehind_append, openBehind_append, ihrest, ihinner, openBehind_singleton,
      openBehind_singleton, hfirst, hlast]
    exact Nat.add_sub_cancel depth 1

/-- The innermost branch that is open behind a word: what follows its beginning is well nested. -/
theorem exists_innermost {word : List β} {depth : Nat}
    (h : openBehind bracket? word 0 = depth + 1) :
    ∃ before first inner, word = before ++ first :: inner ∧ bracket? first = some .opening ∧
      WellNested bracket? inner ∧ openBehind bracket? before 0 = depth := by
  induction hlength : word.length using Nat.strongRecOn generalizing word depth with
  | ind length ih =>
    rcases List.eq_nil_or_concat word with rfl | ⟨init, b, rfl⟩
    · cases h
    · rw [List.concat_eq_append] at h hlength ⊢
      have hinit : init.length < length := by
        rw [← hlength, List.length_append]
        exact Nat.lt_succ_self _
      rw [openBehind_append, openBehind_singleton] at h
      cases hb : bracket? b with
      | none =>
        rw [hb] at h
        obtain ⟨before, first, inner, rfl, hfirst, hinner, hbefore⟩ := ih _ hinit h rfl
        refine ⟨before, first, inner ++ [b], ?_, hfirst, hinner.append (.plain hb .nil), hbefore⟩
        rw [List.append_assoc, List.cons_append]
      | some bracket =>
        rw [hb] at h
        cases bracket with
        | opening => exact ⟨init, b, [], rfl, hb, .nil, Nat.succ.inj h⟩
        | closing =>
          -- The end closes the innermost branch, so that the next one outwards is left open.
          have hmore : openBehind bracket? init 0 = depth + 1 + 1 := by
            have hless : openBehind bracket? init 0 - 1 = depth + 1 := h
            omega
          obtain ⟨outer, opened, inner, rfl, hopened, hinner, houter⟩ := ih _ hinit hmore rfl
          have hshorter : outer.length < length := by
            refine Nat.lt_of_le_of_lt ?_ hinit
            rw [List.length_append]
            exact Nat.le_add_right ..
          obtain ⟨before, first, middle, rfl, hfirst, hmiddle, hbefore⟩ :=
            ih _ hshorter houter rfl
          refine ⟨before, first, middle ++ opened :: (inner ++ [b]), ?_, hfirst,
            hmiddle.append (.branch hopened hinner hb .nil), hbefore⟩
          simp only [List.append_assoc, List.cons_append]

/-- A closing end is stray exactly when no branch is open in front of it. -/
theorem stray_iff {word : List β} {position : Nat} :
    Stray bracket? word position ↔ bracketAt? bracket? word position = some .closing ∧
      openBehind bracket? (word.take position) 0 = 0 := by
  refine and_congr_right fun hclosing => ?_
  have hlt : position < word.length := by
    refine Nat.lt_of_not_le fun hle => ?_
    rw [bracketAt?, List.getElem?_eq_none hle] at hclosing
    cases hclosing
  constructor
  · intro hunpaired
    cases hdepth : openBehind bracket? (word.take position) 0 with
    | zero => rfl
    | succ depth =>
      -- The innermost open branch would be what the end leaves.
      obtain ⟨before, first, inner, hsplit, hfirst, hinner, _⟩ := exists_innermost hdepth
      have hbefore : before.length < position := by
        have hlength := congrArg List.length hsplit
        rw [List.length_take_of_le (Nat.le_of_lt hlt), List.length_append,
          List.length_cons] at hlength
        omega
      refine absurd ⟨hbefore, ?_, hclosing, ?_⟩ (hunpaired before.length hbefore)
      · rw [bracketAt?, ← List.getElem?_take_of_lt hbefore, hsplit,
          List.getElem?_append_right (Nat.le_refl _), Nat.sub_self]
        exact hfirst
      · rw [hsplit, List.drop_append, List.drop_eq_nil_of_le (Nat.le_succ _)]
        simpa using hinner
  · rintro hnone first hfirst ⟨_, hopening, _, hinner⟩
    obtain ⟨b, hb, hbracket⟩ := Option.bind_eq_some_iff.1 hopening
    obtain ⟨hlength, hget⟩ := List.getElem?_eq_some_iff.1 hb
    have htake : word.take (first + 1) = word.take first ++ [b] := by
      rw [← hget, List.take_append_getElem]
    have hsplit : word.take position =
        word.take first ++ [b] ++ (word.take position).drop (first + 1) := by
      have hprefix : (word.take position).take (first + 1) = word.take (first + 1) := by
        rw [List.take_take, Nat.min_eq_left hfirst]
      rw [← htake, ← hprefix, List.take_append_drop]
    rw [hsplit, openBehind_append, hinner.openBehind_eq, openBehind_append, openBehind_singleton,
      hbracket] at hnone
    cases hnone

example : strays Bracket.ofChar? "]F[F]]F[".toList 8 = [0, 5] := by decide

end LSystem
