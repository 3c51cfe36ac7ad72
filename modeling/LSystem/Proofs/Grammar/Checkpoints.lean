import LSystem.Proofs.Cancellable
import LSystem.Proofs.Grammar.Derivation
import Mathlib.Data.List.Chain

/-!
# Checkpoints of a pass

A pass asks its owner at its beginning and then as soon as enough letters were
written since it last did. Each letter read is replaced by one letter or more, so
between two checkpoints no more letters are read than written, and only the last
replacement can write more than enough. So it never takes long to the next
checkpoint or to the end of the pass, whatever the rules are.
-/

namespace LSystem

variable {α : Type}

/-- The length of the longest body, or one if no body has a letter. -/
def RuleTable.longest (table : RuleTable α) : Nat :=
  (table.rules.map fun rule => rule.body.length).foldr max 1

theorem RuleTable.one_le_longest (table : RuleTable α) : 1 ≤ table.longest := by
  unfold longest
  induction table.rules with
  | nil => exact Nat.le_refl 1
  | cons rule rules ih => exact Nat.le_trans ih (Nat.le_max_right ..)

theorem RuleTable.length_body_le_longest {table : RuleTable α} {rule : Rule α}
    (h : rule ∈ table.rules) : rule.body.length ≤ table.longest := by
  unfold longest
  generalize table.rules = rules at h ⊢
  induction rules with
  | nil => cases h
  | cons first rules ih =>
    rw [List.map_cons, List.foldr_cons]
    rcases List.mem_cons.1 h with rfl | h
    · exact Nat.le_max_left ..
    · exact Nat.le_trans (ih h) (Nat.le_max_right ..)

namespace Checkpoint

def depth? : Checkpoint → Option Nat
  | .pass depth => some depth
  | .within depth _ _ => some depth
  | .expanded => none

/-- The letters of the old word that its pass has read so far. -/
def consumed : Checkpoint → Nat
  | .within _ consumed _ => consumed
  | _ => 0

/-- The letters of the new word that its pass has written so far. -/
def written : Checkpoint → Nat
  | .within _ _ written => written
  | _ => 0

/-- What is done between a checkpoint of a pass and the next one of the same pass, where no
replacement is longer than `longest`. -/
structure LeadsTo (longest : Nat) (checkpoint next : Checkpoint) : Prop where
  reads : checkpoint.consumed < next.consumed
  reads_le : next.consumed ≤ checkpoint.consumed + 4096
  writes_ge : checkpoint.written + 4096 ≤ next.written
  writes_le : next.written ≤ checkpoint.written + 4095 + longest

end Checkpoint

namespace Expansion

structure Round (α : Type) where
  depth : Nat
  word : List (Letter α)

variable [Scalar α]

/-- The passes that an expansion makes from a depth on. An error leaves out those behind it. -/
def rounds (table : RuleTable α) : Nat → List (Letter α) → List (Round α)
  | 0, word => [⟨0, word⟩]
  | depth + 1, word =>
    ⟨depth + 1, word⟩ ::
      match rewrite table (depth + 1) word with
      | .error _ => []
      | .ok next => rounds table depth next

namespace Round

variable (table : RuleTable α) (round : Round α)

def checkpoints : List Checkpoint :=
  .pass round.depth :: (pass table round.depth round.word 0 interval #[]).marks

/-- The checkpoint is one of the pass, and counts the letters as the pass has replaced them. -/
structure StandsAt (checkpoint : Checkpoint) : Prop where
  depth : checkpoint.depth? = some round.depth
  counts : ∃ body, rewrite table round.depth (round.word.take checkpoint.consumed) = .ok body ∧
    body.length = checkpoint.written

/-- What is still done behind a checkpoint if no other follows in the pass, also if the pass ends
with an error. -/
def EndsBehind (checkpoint : Checkpoint) : Prop :=
  ∀ count ≤ round.word.length, ∀ body,
    rewrite table round.depth (round.word.take count) = .ok body →
      count < checkpoint.consumed + 4096 ∧ body.length < checkpoint.written + 4096

/-- Checkpoints of a pass, in order and up to its end, each soon behind the one before. -/
structure Paced (checkpoints : List Checkpoint) : Prop where
  stands : ∀ checkpoint ∈ checkpoints, round.StandsAt table checkpoint
  spaced : checkpoints.IsChain (Checkpoint.LeadsTo table.longest)
  ends : ∀ last ∈ checkpoints.getLast?, round.EndsBehind table last

end Round

/-! ### One replacement -/

variable {table : RuleTable α} {depth : Nat}

theorem length_of_substitute {letter : Letter α} {body : List (Letter α)}
    (h : substitute table depth letter = .ok body) :
    0 < body.length ∧ body.length ≤ table.longest := by
  have hsingle : ∀ letter : Letter α, 0 < [letter].length ∧ [letter].length ≤ table.longest :=
    fun _ => ⟨Nat.one_pos, table.one_le_longest⟩
  cases letter with
  | rule name =>
    simp only [substitute] at h
    cases hget : table.get? name with
    | none =>
      rw [hget] at h
      cases h
    | some rule =>
      rw [hget] at h
      cases h
      refine ⟨List.length_pos_iff.2 (rule.replacement_ne_nil depth), ?_⟩
      unfold Rule.replacement
      split
      · exact table.one_le_longest
      · exact RuleTable.length_body_le_longest (List.mem_of_find?_eq_some hget)
  | move d =>
    cases h
    exact hsingle _
  | turn a =>
    cases h
    exact hsingle _
  | enter =>
    cases h
    exact hsingle _
  | leave =>
    cases h
    exact hsingle _

/-! ### A pass under way -/

/-- A pass has read so many letters and written those given, and may write `budget` more up to
the checkpoint behind `last`. -/
structure UnderWay (table : RuleTable α) (round : Round α) (last : Checkpoint)
    (consumed budget : Nat) (written : Array (Letter α)) : Prop where
  done : rewrite table round.depth (round.word.take consumed) = .ok written.toList
  budget_pos : 0 < budget
  budget_le : budget ≤ interval
  spent : last.written + interval = written.size + budget
  ahead : last.consumed ≤ consumed
  /-- Each letter read since the last checkpoint has brought at least one. -/
  each : consumed + last.written ≤ last.consumed + written.size

variable {round : Round α} {last : Checkpoint} {consumed budget : Nat}
  {written : Array (Letter α)} {letter : Letter α} {body : List (Letter α)}

theorem underWay_start (table : RuleTable α) (round : Round α) :
    UnderWay table round (.pass round.depth) 0 interval #[] :=
  ⟨rfl, by decide, Nat.le_refl _, rfl, Nat.le_refl _, Nat.le_refl _⟩

omit [Scalar α] in
theorem size_append (written : Array (Letter α)) (body : List (Letter α)) :
    (written ++ body).size = written.size + body.length := by
  rw [← Array.length_toList, Array.toList_appendList, List.length_append, Array.length_toList]

theorem UnderWay.done_succ (h : UnderWay table round last consumed budget written)
    (hletter : round.word[consumed]? = some letter)
    (hbody : substitute table round.depth letter = .ok body) :
    rewrite table round.depth (round.word.take (consumed + 1)) = .ok (written ++ body).toList := by
  rw [List.take_add_one, hletter, Option.toList_some, rewrite_append, h.done,
    rewrite_cons_ok hbody, rewrite_nil, Array.toList_appendList]
  simp only [Except.bind, Except.map, List.append_nil]

theorem UnderWay.next (h : UnderWay table round last consumed budget written)
    (hletter : round.word[consumed]? = some letter)
    (hbody : substitute table round.depth letter = .ok body) (hleft : body.length < budget) :
    UnderWay table round last (consumed + 1) (budget - body.length) (written ++ body) := by
  have hdone := h.done_succ hletter hbody
  have hbody_pos := (length_of_substitute hbody).1
  have hsize := size_append written body
  obtain ⟨_, hpos, hle, hspent, hahead, heach⟩ := h
  refine ⟨hdone, ?_, ?_, ?_, ?_, ?_⟩ <;> omega

theorem UnderWay.check (h : UnderWay table round last consumed budget written)
    (hletter : round.word[consumed]? = some letter)
    (hbody : substitute table round.depth letter = .ok body) (hfull : budget ≤ body.length) :
    let next := Checkpoint.within round.depth (consumed + 1) (written ++ body).size
    last.LeadsTo table.longest next ∧ round.StandsAt table next ∧
      UnderWay table round next (consumed + 1) interval (written ++ body) := by
  intro next
  have hdone := h.done_succ hletter hbody
  obtain ⟨hbody_pos, hlongest⟩ := length_of_substitute hbody
  have hsize := size_append written body
  have hconsumed : next.consumed = consumed + 1 := rfl
  have hwritten : next.written = (written ++ body).size := rfl
  have hinterval : interval = 4096 := rfl
  obtain ⟨_, hpos, hle, hspent, hahead, heach⟩ := h
  refine ⟨⟨?_, ?_, ?_, ?_⟩, ⟨rfl, _, hdone, rfl⟩, ⟨hdone, ?_, ?_, ?_, ?_, ?_⟩⟩ <;> omega

theorem exists_rewrite_take {word next : List (Letter α)} {count more : Nat} (hle : count ≤ more)
    (h : rewrite table depth (word.take more) = .ok next) :
    ∃ first others, rewrite table depth (word.take count) = .ok first ∧ first ++ others = next := by
  have hsplit := List.take_append_drop count (word.take more)
  rw [List.take_take, Nat.min_eq_left hle] at hsplit
  rw [← hsplit] at h
  obtain ⟨first, others, hfirst, _, hnext⟩ := rewrite_append_eq_ok h
  exact ⟨first, others, hfirst, hnext⟩

theorem le_of_rewrite_take {word next : List (Letter α)} {count : Nat} {e : Error}
    (hletter : word[consumed]? = some letter)
    (herror : substitute table depth letter = .error e)
    (h : rewrite table depth (word.take count) = .ok next) : count ≤ consumed := by
  by_contra hlt
  obtain ⟨first, _, hfirst, _⟩ := exists_rewrite_take (Nat.lt_of_not_le hlt) h
  rw [Nat.succ_eq_add_one, List.take_add_one, hletter] at hfirst
  obtain ⟨_, _, _, hsingle, _⟩ := rewrite_append_eq_ok hfirst
  cases (rewrite_cons_error herror).symm.trans hsingle

theorem UnderWay.ends (h : UnderWay table round last consumed budget written)
    (hstuck : ∀ count ≤ round.word.length, ∀ body,
      rewrite table round.depth (round.word.take count) = .ok body → count ≤ consumed) :
    round.EndsBehind table last := by
  intro count hcount body hbody
  have hle := hstuck count hcount body hbody
  obtain ⟨hdone, hpos, _, hspent, hahead, heach⟩ := h
  obtain ⟨first, more, hfirst, hwritten⟩ := exists_rewrite_take hle hdone
  have hsize : first.length + more.length = written.size := by
    rw [← List.length_append, hwritten, Array.length_toList]
  cases hbody.symm.trans hfirst
  have hinterval : interval = 4096 := rfl
  constructor <;> omega

theorem paced_singleton (hstands : round.StandsAt table last)
    (hends : round.EndsBehind table last) : round.Paced table [last] := by
  refine ⟨List.forall_mem_singleton.2 hstands, .singleton _, ?_⟩
  intro checkpoint hcheckpoint
  cases hcheckpoint
  exact hends

theorem UnderWay.paced (h : UnderWay table round last consumed budget written)
    {rest : List (Letter α)} (hrest : round.word.drop consumed = rest)
    (hlast : round.StandsAt table last) :
    round.Paced table (last :: (pass table round.depth rest consumed budget written).marks) := by
  -- `UnderWay` goes along with the letters that are left to read; a checkpoint starts it anew.
  induction rest generalizing last consumed budget written with
  | nil =>
    have hlength := List.drop_eq_nil_iff.1 hrest
    exact paced_singleton hlast (h.ends fun count hcount _ _ => Nat.le_trans hcount hlength)
  | cons letter rest ih =>
    have hletter : round.word[consumed]? = some letter := by
      rw [← List.head?_drop, hrest, List.head?_cons]
    have hrest' : round.word.drop (consumed + 1) = rest := by
      rw [← List.drop_drop, hrest, List.drop_succ_cons, List.drop_zero]
    rw [pass]
    cases hbody : substitute table round.depth letter with
    | error e =>
      -- Behind a name without a rule nothing is replaced.
      exact paced_singleton hlast
        (h.ends fun count _ _ hrewrite => le_of_rewrite_take hletter hbody hrewrite)
    | ok body =>
      dsimp only
      split
      · next hfull =>
        obtain ⟨hleads, hstands, hnext⟩ := h.check hletter hbody hfull
        obtain ⟨hall, hchain, hends⟩ := ih hnext hrest' hstands
        exact ⟨List.forall_mem_cons.2 ⟨hlast, hall⟩, List.isChain_cons_cons.2 ⟨hleads, hchain⟩,
          hends⟩
      · next hleft => exact ih (h.next hletter hbody (Nat.lt_of_not_le hleft)) hrest' hlast

/-! ### All passes -/

theorem Round.paced_checkpoints (table : RuleTable α) (round : Round α) :
    round.Paced table (round.checkpoints table) :=
  (underWay_start table round).paced rfl ⟨rfl, [], rfl, rfl⟩

theorem marks_passes (table : RuleTable α) (depth : Nat) (word : List (Letter α)) :
    (passes table depth word).marks =
      (rounds table depth word).flatMap (Round.checkpoints table) := by
  induction depth generalizing word with
  | zero => exact (List.append_nil _).symm
  | succ depth ih =>
    rw [passes, Cancellable.marks, Cancellable.marks_bind, result_pass, rounds, List.flatMap_cons,
      Round.checkpoints, List.cons_append]
    cases rewrite table (depth + 1) word with
    | error e => rfl
    | ok next =>
      simp only [Except.map, List.nil_append, ih]

theorem marks_start (table : RuleTable α) (angle : α) (seed : String) (iterations : Nat) :
    (start table angle seed iterations).marks =
      (rounds table (max iterations 1) (Letter.ofText angle seed.toList)).flatMap
        (Round.checkpoints table) := by
  rw [start, Cancellable.map, Cancellable.marks_bind, marks_passes]
  exact List.append_nil _

/-- An owner is asked at the checkpoints of one pass after the other, up to the first at which it
gives up. Each pass begins with one. Between two of a pass at most 4096 letters are read and at
least 4096 written, and fewer than the longest replacement beyond that; behind the last one of a
pass fewer than 4096 letters are read and written. -/
theorem expansion_keeps_pace (table : RuleTable α) (angle : α) (seed : String)
    (iterations : Nat) :
    let work := start table angle seed iterations
    let made := rounds table (max iterations 1) (Letter.ofText angle seed.toList)
    work.marks = made.flatMap (Round.checkpoints table) ∧
    (∀ givesUp : Nat → Bool, work.asked givesUp 0 <+: work.marks ∧
      (work.asked givesUp 0).length = (work.run givesUp).2) ∧
    ∀ round ∈ made,
      (round.checkpoints table).head? = some (.pass round.depth) ∧
      round.Paced table (round.checkpoints table) := by
  intro work made
  refine ⟨marks_start table angle seed iterations, ?_, ?_⟩
  · intro givesUp
    exact ⟨work.asked_prefix_marks givesUp 0, work.length_asked givesUp⟩
  · intro round _
    exact ⟨rfl, round.paced_checkpoints table⟩

end Expansion

end LSystem
