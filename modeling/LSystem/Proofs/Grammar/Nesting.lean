import LSystem.Proofs.Grammar.Derivation

/-!
# Nested words

A word is well nested when its branches are: each one that is entered is left,
and none is left that is not open. Counting the open branches decides it. A name
may stand inside any number of open branches, and a well-nested replacement can
stand there in its place: grammars with well-nested bodies expand well-nested
seeds to well-nested scripts, however many passes are made.
-/

namespace LSystem

/-- An end of a branch. -/
inductive Bracket
  | opening
  | closing
  deriving Repr, DecidableEq

section Words

variable {β γ : Type}

/-- The words whose branch ends pair up, where `bracket?` tells which letters are branch ends. -/
inductive WellNested (bracket? : β → Option Bracket) : List β → Prop
  | nil : WellNested bracket? []
  | plain {b : β} {rest : List β} (hb : bracket? b = none) (hrest : WellNested bracket? rest) :
      WellNested bracket? (b :: rest)
  | branch {first last : β} {inner rest : List β} (hfirst : bracket? first = some .opening)
      (hinner : WellNested bracket? inner) (hlast : bracket? last = some .closing)
      (hrest : WellNested bracket? rest) :
      WellNested bracket? (first :: (inner ++ last :: rest))

variable {bracket? : β → Option Bracket}

theorem WellNested.append {u v : List β} (hu : WellNested bracket? u)
    (hv : WellNested bracket? v) : WellNested bracket? (u ++ v) := by
  induction hu with
  | nil => exact hv
  | plain hb hrest ih => exact .plain hb ih
  | branch hfirst hinner hlast hrest _ ih =>
    rw [List.cons_append, List.append_assoc, List.cons_append]
    exact .branch hfirst hinner hlast ih

/-! ### Open branches -/

/-- How many branches are open behind a word when `depth` are open before it; none when a branch
is left that is not open. -/
def openAfter? (bracket? : β → Option Bracket) : Nat → List β → Option Nat
  | depth, [] => some depth
  | depth, b :: rest =>
    match bracket? b with
    | none => openAfter? bracket? depth rest
    | some .opening => openAfter? bracket? (depth + 1) rest
    | some .closing =>
      match depth with
      | 0 => none
      | depth + 1 => openAfter? bracket? depth rest

theorem openAfter?_map (f : γ → β) (depth : Nat) (word : List γ) :
    openAfter? bracket? depth (word.map f) = openAfter? (bracket? ∘ f) depth word := by
  induction word generalizing depth with
  | nil => rfl
  | cons c rest ih =>
    simp only [List.map_cons, openAfter?, Function.comp_apply, ih]

theorem WellNested.openAfter?_append {word : List β} (h : WellNested bracket? word) (depth : Nat)
    (rest : List β) :
    openAfter? bracket? depth (word ++ rest) = openAfter? bracket? depth rest := by
  induction h generalizing depth rest with
  | nil => rfl
  | plain hb _ ih =>
    simp only [List.cons_append, openAfter?, hb]
    exact ih depth rest
  | branch hfirst _ hlast _ ihinner ihrest =>
    simp only [List.cons_append, List.append_assoc, openAfter?, hfirst]
    rw [ihinner]
    simp only [openAfter?, hlast]
    exact ihrest depth rest

/-- The words that leave so many open branches one after the other, and are well nested before,
between and after these ends. -/
inductive LeavesOpen (bracket? : β → Option Bracket) : Nat → List β → Prop
  | zero {word : List β} (h : WellNested bracket? word) : LeavesOpen bracket? 0 word
  | succ {depth : Nat} {last : β} {inner rest : List β} (hinner : WellNested bracket? inner)
      (hlast : bracket? last = some .closing) (hrest : LeavesOpen bracket? depth rest) :
      LeavesOpen bracket? (depth + 1) (inner ++ last :: rest)

theorem LeavesOpen.append_left {depth : Nat} {u word : List β} (hu : WellNested bracket? u)
    (h : LeavesOpen bracket? depth word) : LeavesOpen bracket? depth (u ++ word) := by
  cases h with
  | zero h => exact .zero (hu.append h)
  | succ hinner hlast hrest =>
    rw [← List.append_assoc]
    exact .succ (hu.append hinner) hlast hrest

theorem leavesOpen_of_openAfter? {depth : Nat} {word : List β}
    (h : openAfter? bracket? depth word = some 0) : LeavesOpen bracket? depth word := by
  induction word generalizing depth with
  | nil =>
    cases h
    exact .zero .nil
  | cons b rest ih =>
    simp only [openAfter?] at h
    cases hb : bracket? b with
    | none =>
      rw [hb] at h
      exact (ih h).append_left (.plain hb .nil)
    | some end' =>
      rw [hb] at h
      cases end' with
      | opening =>
        -- The first end in the rest closes the branch that `b` opens.
        cases ih h with
        | @succ _ last inner rest hinner hlast hrest =>
          have hbranch : WellNested bracket? (b :: (inner ++ [last])) :=
            .branch hb hinner hlast .nil
          have happend := hrest.append_left hbranch
          rwa [List.cons_append, List.append_assoc, List.singleton_append] at happend
      | closing =>
        cases depth with
        | zero => cases h
        | succ depth => exact .succ .nil hb (ih h)

theorem wellNested_iff_openAfter? {word : List β} :
    WellNested bracket? word ↔ openAfter? bracket? 0 word = some 0 := by
  constructor
  · intro h
    have happend := h.openAfter?_append 0 []
    rwa [List.append_nil] at happend
  · intro h
    cases leavesOpen_of_openAfter? h with
    | zero hword => exact hword

instance (word : List β) : Decidable (WellNested bracket? word) :=
  decidable_of_iff _ wellNested_iff_openAfter?.symm

theorem wellNested_map {f : γ → β} {word : List γ} :
    WellNested bracket? (word.map f) ↔ WellNested (bracket? ∘ f) word := by
  rw [wellNested_iff_openAfter?, wellNested_iff_openAfter?, openAfter?_map]

end Words

/-! ### Branch ends of characters, letters and commands -/

def Bracket.ofChar? (c : Char) : Option Bracket :=
  if c = '[' then some .opening else if c = ']' then some .closing else none

section Letters

variable {α : Type}

def Letter.bracket? : Letter α → Option Bracket
  | .enter => some .opening
  | .leave => some .closing
  | _ => none

def Command.bracket? : Command α → Option Bracket
  | .enter => some .opening
  | .leave => some .closing
  | _ => none

theorem Command.eq_enter_of_bracket? {command : Command α} (h : command.bracket? = some .opening) :
    command = .enter := by
  cases command with
  | enter => rfl
  | move d => cases h
  | turn a => cases h
  | leave => cases h

theorem Command.eq_leave_of_bracket? {command : Command α} (h : command.bracket? = some .closing) :
    command = .leave := by
  cases command with
  | leave => rfl
  | move d => cases h
  | turn a => cases h
  | enter => cases h

/-- The letter that a command is in a word. -/
def Command.letter : Command α → Letter α
  | .move d => .move d
  | .turn a => .turn a
  | .enter => .enter
  | .leave => .leave

theorem Letter.bracket?_comp_letter :
    Letter.bracket? ∘ Command.letter = (Command.bracket? : Command α → Option Bracket) := by
  funext command
  cases command <;> rfl

theorem Letter.toCommand?_letter (command : Command α) :
    command.letter.toCommand? = some command := by
  cases command <;> rfl

theorem Letter.eq_letter_of_toCommand? {letter : Letter α} {command : Command α}
    (h : letter.toCommand? = some command) : letter = command.letter := by
  cases letter <;> cases h <;> rfl

theorem Letter.eq_map_letter_of_mapM {word : List (Letter α)} {commands : List (Command α)}
    (h : word.mapM Letter.toCommand? = some commands) : word = commands.map Command.letter :=
  eq_map_of_mapM_eq_some (fun _ _ => eq_letter_of_toCommand?) h

variable [Scalar α]

theorem Letter.bracket?_comp_ofChar (angle : α) :
    Letter.bracket? ∘ Letter.ofChar angle = Bracket.ofChar? := by
  funext c
  rw [Function.comp_apply]
  cases hreserved : isReserved c with
  | true => rcases isReserved_cases hreserved with rfl | rfl | rfl | rfl <;> rfl
  | false =>
    rw [Letter.ofChar_of_not_isReserved angle hreserved]
    simp only [isReserved, Bool.or_eq_false_iff, decide_eq_false_iff_not] at hreserved
    rw [Bracket.ofChar?, if_neg hreserved.1.2, if_neg hreserved.2]
    rfl

theorem Letter.wellNested_ofText {angle : α} {text : List Char} :
    WellNested Letter.bracket? (Letter.ofText angle text) ↔ WellNested Bracket.ofChar? text := by
  rw [Letter.ofText, wellNested_map, Letter.bracket?_comp_ofChar]

end Letters

/-! ### Passes -/

namespace Expansion

variable {α : Type} [Scalar α] {table : RuleTable α} {depth : Nat}

/-- Branch ends are never replaced. -/
theorem substitute_of_bracket? {letter : Letter α} {bracket : Bracket}
    (h : letter.bracket? = some bracket) : substitute table depth letter = .ok [letter] := by
  cases letter with
  | rule name => cases h
  | move d => rfl
  | turn a => rfl
  | enter => rfl
  | leave => rfl

theorem wellNested_substitute
    (nested : ∀ rule ∈ table.rules, WellNested Letter.bracket? rule.body) {letter : Letter α}
    {body : List (Letter α)} (hletter : letter.bracket? = none)
    (h : substitute table depth letter = .ok body) : WellNested Letter.bracket? body := by
  cases letter with
  | rule name =>
    simp only [substitute] at h
    cases hget : table.get? name with
    | none =>
      rw [hget] at h
      cases h
    | some rule =>
      rw [hget] at h
      cases h
      unfold Rule.replacement
      split
      · exact .plain rfl .nil
      · exact nested rule (List.mem_of_find?_eq_some hget)
  | move d =>
    cases h
    exact .plain rfl .nil
  | turn a =>
    cases h
    exact .plain rfl .nil
  | enter => cases hletter
  | leave => cases hletter

/-- One pass keeps a word well nested: whatever replaces a name pairs up within itself. -/
theorem wellNested_rewrite
    (nested : ∀ rule ∈ table.rules, WellNested Letter.bracket? rule.body)
    {word next : List (Letter α)} (hword : WellNested Letter.bracket? word)
    (h : rewrite table depth word = .ok next) : WellNested Letter.bracket? next := by
  induction hword generalizing next with
  | nil =>
    cases h
    exact .nil
  | plain hletter _ ih =>
    obtain ⟨body, tail, hbody, htail, rfl⟩ := rewrite_cons_eq_ok h
    exact (wellNested_substitute nested hletter hbody).append (ih htail)
  | branch hfirst _ hlast _ ihinner ihrest =>
    obtain ⟨opened, tail, hopened, htail, rfl⟩ := rewrite_cons_eq_ok h
    obtain ⟨inner, after, hinner, hafter, rfl⟩ := rewrite_append_eq_ok htail
    obtain ⟨closed, rest, hclosed, hrest, rfl⟩ := rewrite_cons_eq_ok hafter
    rw [substitute_of_bracket? hfirst] at hopened
    rw [substitute_of_bracket? hlast] at hclosed
    cases hopened
    cases hclosed
    exact .branch hfirst (ihinner hinner) hlast (ihrest hrest)

theorem wellNested_passes
    (nested : ∀ rule ∈ table.rules, WellNested Letter.bracket? rule.body)
    {word final : List (Letter α)} (hword : WellNested Letter.bracket? word)
    (h : (passes table depth word).result = .ok final) : WellNested Letter.bracket? final := by
  induction depth generalizing word with
  | zero =>
    rw [result_passes_zero] at h
    exact wellNested_rewrite nested hword h
  | succ depth ih =>
    rw [result_passes_succ] at h
    obtain ⟨next, hnext, hfinal⟩ := exists_of_bind_eq_ok h
    exact ih (wellNested_rewrite nested hword hnext) hfinal

theorem wellNested_expand
    (nested : ∀ rule ∈ table.rules, WellNested Letter.bracket? rule.body) {angle : α}
    {seed : String} {iterations : Nat} {script : Script α}
    (hseed : WellNested Bracket.ofChar? seed.toList)
    (h : expand table angle seed iterations = .ok script) :
    WellNested Command.bracket? script.toList := by
  rw [expand_eq] at h
  obtain ⟨final, hpasses, hfinish⟩ := exists_of_bind_eq_ok h
  have hfinal := wellNested_passes nested (Letter.wellNested_ofText.2 hseed) hpasses
  simp only [finish] at hfinish
  cases hm : final.mapM Letter.toCommand? with
  | none =>
    rw [hm] at hfinish
    cases hfinish
  | some commands =>
    rw [hm] at hfinish
    cases hfinish
    rw [Letter.eq_map_letter_of_mapM hm, wellNested_map, Letter.bracket?_comp_letter] at hfinal
    exact hfinal

end Expansion

end LSystem
