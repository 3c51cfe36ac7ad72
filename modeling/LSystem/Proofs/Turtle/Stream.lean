import LSystem.Proofs.Turtle.Erasure
import Mathlib.Data.List.Induction

/-!
# The stream of steps

A turtle that sets out anew finds one step for each drawing move of the script,
and then none, without any further change. A step resumes a branch exactly where
a branch end that pairs up stands between its move and the drawing move before:
then it starts where the last of these branches was entered, and otherwise where
the step before has ended. Every branch end passed was counted or warned of.
-/

namespace LSystem

variable {α : Type}

def Command.leaves (command : Command α) : Bool := command.bracket? == some .closing

variable [Scalar α]

theorem Command.exists_move_of_draws {command : Command α} (h : command.draws = true) :
    ∃ distance, command = .move distance ∧ Scalar.isZero distance = false := by
  cases command with
  | move d => exact ⟨d, rfl, by simpa [draws] using h⟩
  | turn a => cases h
  | enter => cases h
  | leave => cases h

/-- Along some commands a branch is left, and nothing is drawn since. -/
def Resumes (commands : List (Command α)) (first last : Nat) : Prop :=
  Pairs Command.bracket? commands first last ∧
    ∀ command ∈ commands.drop last, command.draws = false

/-- Of the branches that are left since something was drawn, this is the last one. -/
def ResumesLast (commands : List (Command α)) (first last : Nat) : Prop :=
  Resumes commands first last ∧ ∀ first' last', Resumes commands first' last' → last' ≤ last

theorem Resumes.first_lt {commands : List (Command α)} {first last : Nat}
    (h : Resumes commands first last) : first < commands.length :=
  Nat.lt_trans h.1.1 h.1.last_lt

/-- A branch that does not end with the last command is resumed with it or without it, unless it
draws. -/
theorem resumes_concat_iff {init : List (Command α)} {command : Command α}
    (hdraws : command.draws = false)
    (hfree : ∀ first, ¬ Pairs Command.bracket? (init ++ [command]) first init.length)
    (first last : Nat) : Resumes (init ++ [command]) first last ↔ Resumes init first last := by
  unfold Resumes
  rw [pairs_concat_iff hfree]
  refine and_congr_right fun hpairs => ?_
  rw [List.drop_append_of_le_length (Nat.le_of_lt hpairs.last_lt), List.forall_mem_append,
    List.forall_mem_singleton]
  exact and_iff_left hdraws

theorem resumesLast_concat {init : List (Command α)} {command : Command α}
    (hdraws : command.draws = false) {first : Nat}
    (hpairs : Pairs Command.bracket? (init ++ [command]) first init.length) :
    ResumesLast (init ++ [command]) first init.length := by
  refine ⟨⟨hpairs, ?_⟩, fun first' last' h => ?_⟩
  · rw [List.drop_left]
    exact List.forall_mem_singleton.2 hdraws
  · have hlast := h.1.last_lt
    rw [List.length_append, List.length_singleton] at hlast
    exact Nat.le_of_lt_succ hlast

namespace Turtle

/-- At the end of a branch a turtle is where it was at its start. -/
theorem pose_follow_of_pairs (scale : α) {commands : List (Command α)} {first last : Nat}
    (h : Pairs Command.bracket? commands first last) (turtle : Turtle α) :
    (turtle.follow scale (commands.take (last + 1))).pose =
      (turtle.follow scale (commands.take first)).pose := by
  obtain ⟨before, opening, inner, closing, hsplit, hbefore, hopening, hinner, hclosing⟩ :=
    h.exists_split
  obtain rfl := Command.eq_enter_of_bracket? hopening
  obtain rfl := Command.eq_leave_of_bracket? hclosing
  rw [hsplit, follow_append, pose_follow_branch scale hinner, hbefore]

/-! ### The flag of the next step -/

/-- Whether the next step resumes a branch, behind an event. -/
def Event.flag (resumed : Bool) : Event α → Bool
  | .drawn _ _ => false
  | .resumed => true
  | .skipped _ => resumed
  | .quiet => resumed

/-- Whether the next step resumes a branch, behind some commands. -/
def flagBehind (scale : α) : List (Command α) → Turtle α → Bool → Bool
  | [], _, resumed => resumed
  | command :: rest, turtle, resumed =>
    flagBehind scale rest (turtle.obey scale command).1
      ((turtle.obey scale command).2.flag resumed)

theorem flagBehind_append (scale : α) (u v : List (Command α)) (turtle : Turtle α)
    (resumed : Bool) :
    flagBehind scale (u ++ v) turtle resumed =
      flagBehind scale v (turtle.follow scale u) (flagBehind scale u turtle resumed) := by
  induction u generalizing turtle resumed with
  | nil => rfl
  | cons command rest ih => exact ih ..

theorem flagBehind_concat (scale : α) (init : List (Command α)) (command : Command α)
    (turtle : Turtle α) (resumed : Bool) :
    flagBehind scale (init ++ [command]) turtle resumed =
      ((turtle.follow scale init).obey scale command).2.flag
        (flagBehind scale init turtle resumed) := by
  rw [flagBehind_append]
  rfl

theorem trace_append (scale : α) (u v : List (Command α)) (turtle : Turtle α) (resumed : Bool) :
    trace scale (u ++ v) turtle resumed = trace scale u turtle resumed ++
      trace scale v (turtle.follow scale u) (flagBehind scale u turtle resumed) := by
  induction u generalizing turtle resumed with
  | nil => rfl
  | cons command rest ih =>
    simp only [List.cons_append, trace, flagBehind, follow_cons]
    cases (turtle.obey scale command).2 with
    | drawn start stop => exact congrArg _ (ih ..)
    | resumed => exact ih ..
    | skipped warning => exact ih ..
    | quiet => exact ih ..

/-- The step of a drawing move stands behind those of the drawing moves before it. -/
theorem getElem?_trace_of_move (scale : α) {distance : α} (h : Scalar.isZero distance = false)
    (before rest : List (Command α)) (turtle : Turtle α) :
    (trace scale (before ++ .move distance :: rest) turtle false)[before.countP Command.draws]? =
      some ⟨(turtle.follow scale before).pose.point,
        ((turtle.follow scale before).pose.moved distance scale).point,
        turtle.flagBehind scale before false⟩ := by
  have hlength := length_trace scale before turtle false
  rw [trace_append, List.getElem?_append_right (Nat.le_of_eq hlength), hlength, Nat.sub_self]
  simp only [trace, obey_move_nonzero _ h]
  rfl

theorem flag_obey_of_draws (scale : α) {command : Command α} (h : command.draws = true)
    (turtle : Turtle α) (resumed : Bool) : (turtle.obey scale command).2.flag resumed = false := by
  cases command with
  | move d =>
    have hzero : Scalar.isZero d = false := by simpa [Command.draws] using h
    simp only [obey_move_nonzero _ hzero]
    rfl
  | turn a => cases h
  | enter => cases h
  | leave => cases h

theorem flag_obey_leave (scale : α) {turtle : Turtle α} (h : turtle.stack ≠ []) (resumed : Bool) :
    (turtle.obey scale .leave).2.flag resumed = true := by
  cases hstack : turtle.stack with
  | nil => exact absurd hstack h
  | cons saved rest =>
    simp only [obey_leave_resumed _ hstack]
    rfl

/-- A command that neither draws nor comes back from a branch changes neither the flag nor the
place. -/
theorem flag_obey_of_idle (scale : α) {command : Command α} {turtle : Turtle α}
    (hdraws : command.draws = false)
    (hstack : command.bracket? = some .closing → turtle.stack = []) (resumed : Bool) :
    (turtle.obey scale command).2.flag resumed = resumed ∧
      (turtle.obey scale command).1.pose.point = turtle.pose.point := by
  cases command with
  | move d =>
    have hzero : Scalar.isZero d = true := by simpa [Command.draws] using hdraws
    simp only [obey_move_zero _ hzero]
    exact ⟨rfl, trivial⟩
  | turn a => exact ⟨rfl, rfl⟩
  | enter => exact ⟨rfl, rfl⟩
  | leave =>
    simp only [obey_leave_stray _ (hstack rfl)]
    exact ⟨rfl, trivial⟩

/-- The next step resumes a branch where one is left and nothing is drawn since, and the turtle is
then where it has entered the last of these branches. -/
theorem flagBehind_spec (scale : α) (start : Pose α) (reports : Bool)
    (commands : List (Command α)) :
    let turtle : Turtle α := { start, reports }
    (turtle.flagBehind scale commands false = true → ∃ first last,
      ResumesLast commands first last ∧ (turtle.follow scale commands).pose.point =
        (turtle.follow scale (commands.take first)).pose.point) ∧
    (turtle.flagBehind scale commands false = false →
      ∀ first last, ¬ Resumes commands first last) := by
  intro turtle
  induction commands using List.reverseRecOn with
  | nil =>
    refine ⟨fun h => (by cases h), fun _ first last h => ?_⟩
    exact absurd h.1.last_lt (Nat.not_lt_zero last)
  | append_singleton init command ih =>
    obtain ⟨hset, hunset⟩ := ih
    rw [flagBehind_concat]
    cases hdraws : command.draws with
    | true =>
      rw [flag_obey_of_draws scale hdraws]
      refine ⟨fun h => (by cases h), fun _ first last h => ?_⟩
      have hlast := h.1.last_lt
      rw [List.length_append, List.length_singleton] at hlast
      have hmem : command ∈ (init ++ [command]).drop last := by
        rw [List.drop_append_of_le_length (Nat.le_of_lt_succ hlast)]
        exact List.mem_append_right _ (List.mem_singleton_self command)
      rw [h.2 command hmem] at hdraws
      cases hdraws
    | false =>
      by_cases hpaired : ∃ first, Pairs Command.bracket? (init ++ [command]) first init.length
      · -- The command leaves a branch, which is the last one so far.
        obtain ⟨first, hpairs⟩ := hpaired
        have hbracket : command.bracket? = some .closing := by
          have hend := hpairs.2.2.1
          rwa [bracketAt?, List.getElem?_concat_length] at hend
        have hsome : (turtle.follow scale init).stack ≠ [] := fun hempty =>
          (stack_follow_eq_nil_iff scale start reports init hbracket).1 hempty first hpairs
        obtain rfl := Command.eq_leave_of_bracket? hbracket
        rw [flag_obey_leave scale hsome]
        have hplace := pose_follow_of_pairs scale hpairs turtle
        rw [List.take_of_length_le (by simp)] at hplace
        rw [hplace]
        exact ⟨fun _ => ⟨first, init.length, resumesLast_concat hdraws hpairs, rfl⟩,
          fun h => (by cases h)⟩
      · have hfree : ∀ first, ¬ Pairs Command.bracket? (init ++ [command]) first init.length :=
          fun first h => hpaired ⟨first, h⟩
        obtain ⟨hflag, hpoint⟩ := flag_obey_of_idle scale hdraws
          (fun hbracket => (stack_follow_eq_nil_iff scale start reports init hbracket).2 hfree)
          (flagBehind scale init turtle false)
        rw [hflag]
        have hresumes := resumes_concat_iff hdraws hfree
        unfold ResumesLast at hset ⊢
        simp only [hresumes]
        refine ⟨fun h => ?_, hunset⟩
        obtain ⟨first, last, hlast, hplace⟩ := hset h
        refine ⟨first, last, hlast, ?_⟩
        rw [follow_concat, hpoint, hplace, List.take_append_of_le_length hlast.1.first_lt.le]

/-! ### Branch ends counted -/

/-- Every branch that was entered is open or was left, and so many branch ends were either counted
or warned of. -/
structure Accounts (turtle : Turtle α) (ends : Nat) : Prop where
  entries : turtle.entries = turtle.exits + turtle.depth
  ends : turtle.exits + turtle.warnings.size = ends

theorem Accounts.obey {turtle : Turtle α} {ends : Nat} (h : turtle.Accounts ends) (scale : α)
    (command : Command α) :
    (turtle.obey scale command).1.Accounts (ends + if command.leaves then 1 else 0) := by
  obtain ⟨hentries, hends⟩ := h
  cases command with
  | move d =>
    cases hzero : Scalar.isZero d with
    | true =>
      simp only [obey_move_zero _ hzero]
      exact ⟨hentries, hends⟩
    | false =>
      simp only [obey_move_nonzero _ hzero]
      exact ⟨hentries, hends⟩
  | turn a => exact ⟨hentries, hends⟩
  | enter => exact ⟨congrArg (· + 1) hentries, hends⟩
  | leave =>
    cases hstack : turtle.stack with
    | nil =>
      simp only [obey_leave_stray _ hstack]
      refine ⟨hentries.trans ?_, ?_⟩
      · rw [depth, hstack]
        rfl
      · rw [Array.size_push, ← Nat.add_assoc, hends]
        rfl
    | cons saved rest =>
      have hdepth : turtle.depth = rest.length + 1 := by rw [depth, hstack, List.length_cons]
      simp only [obey_leave_resumed _ hstack]
      refine ⟨?_, ?_⟩
      · show turtle.entries = turtle.exits + 1 + rest.length
        omega
      · rw [Nat.add_right_comm, hends]
        rfl

theorem Accounts.follow {turtle : Turtle α} {ends : Nat} (h : turtle.Accounts ends) (scale : α)
    (commands : List (Command α)) :
    (turtle.follow scale commands).Accounts (ends + commands.countP Command.leaves) := by
  induction commands generalizing turtle ends with
  | nil => exact h
  | cons command rest ih =>
    rw [List.countP_cons, Nat.add_comm (rest.countP _), ← Nat.add_assoc]
    exact ih (h.obey scale command)

/-! ### Calls in a row -/

/-- A call behind the end of a script finds nothing and changes nothing. -/
theorem advance_of_size_le {script : Script α} {turtle : Turtle α}
    (h : script.size ≤ turtle.cursor) (scale : α) :
    turtle.advance script scale = ⟨none, turtle, #[]⟩ := by
  rw [advance, seek, dif_neg (Nat.not_lt.2 h)]

theorem advanced_of_size_le {script : Script α} {turtle : Turtle α}
    (h : script.size ≤ turtle.cursor) (scale : α) (count : Nat) :
    turtle.advanced script scale count = turtle := by
  induction count with
  | zero => rfl
  | succ count ih => rw [advanced_succ, ih, advance_of_size_le h]

/-- The call that finds a step, the drawing move it belongs to, and what came before that move. -/
theorem exists_step_of_lt (script : Script α) (scale : α) (start : Pose α) (reports : Bool)
    {count : Nat} (h : count < script.drawCount) :
    let turtle : Turtle α := { start, reports }
    ∃ (i : Nat) (hi : i < script.size) (distance : α), script[i] = .move distance ∧
      Scalar.isZero distance = false ∧ (script.toList.take i).countP Command.draws = count ∧
      (turtle.advanced script scale (count + 1)).cursor = i + 1 ∧
      ((turtle.advanced script scale count).advance script scale).step? =
        some ⟨(turtle.follow scale (script.toList.take i)).pose.point,
          ((turtle.follow scale (script.toList.take i)).pose.moved distance scale).point,
          turtle.flagBehind scale (script.toList.take i) false⟩ := by
  intro turtle
  have hall : turtle.remaining script = script.toList := List.drop_zero
  have hstep := step?_advance_advanced script scale count turtle
  rw [hall] at hstep
  have htotal : (trace scale script.toList turtle false).length = script.drawCount := by
    rw [length_trace, Script.drawCount, Array.countP_toList]
  obtain ⟨i, hi, hdraws, hcursor⟩ := exists_draws_of_seek_eq_some
    (hstep.trans (List.getElem?_eq_getElem (by rw [htotal]; exact h)))
  have hcursor' : (turtle.advanced script scale (count + 1)).cursor = i + 1 := by
    rw [advanced_succ]
    exact hcursor
  have hsplit : script.toList = script.toList.take i ++ script[i] :: script.toList.drop (i + 1) := by
    rw [← Array.getElem_toList hi, ← List.drop_eq_getElem_cons, List.take_append_drop]
  have hbefore : (script.toList.take i).countP Command.draws = count := by
    have hleft := congrArg List.length (trace_advanced script scale (count + 1) turtle)
    rw [length_trace, List.length_drop, hall, htotal, remaining, hcursor'] at hleft
    have hsum := congrArg (List.countP Command.draws) hsplit
    rw [List.countP_append, List.countP_cons_of_pos hdraws, Array.countP_toList] at hsum
    have hsame : script.drawCount = script.countP Command.draws := rfl
    omega
  obtain ⟨distance, hmove, hzero⟩ := Command.exists_move_of_draws hdraws
  refine ⟨i, hi, distance, hmove, hzero, hbefore, hcursor', ?_⟩
  have hfound := getElem?_trace_of_move scale hzero (script.toList.take i)
    (script.toList.drop (i + 1)) turtle
  rw [← hmove, ← hsplit, hbefore] at hfound
  exact hstep.trans hfound

/-- A step that resumes no branch starts where the one before it has ended, and the first one where
the turtle set out. -/
theorem start_of_not_resumed {script : Script α} {scale : α} {start : Pose α} {reports : Bool}
    {count : Nat} {step : Step α} (hresumed : step.resumed = false)
    (hstep : (trace scale script.toList { start, reports } false)[count]? = some step) :
    (count = 0 → step.start = start.point) ∧
      ∀ earlier previous, count = earlier + 1 →
        (trace scale script.toList { start, reports } false)[earlier]? = some previous →
          step.start = previous.stop := by
  obtain ⟨hhead, hchain⟩ := trace_follows scale script.toList { start, reports } false
  refine ⟨?_, ?_⟩
  · rintro rfl
    rw [← List.head?_eq_getElem?] at hstep
    exact (hhead step hstep hresumed).2
  · rintro earlier previous rfl hprevious
    obtain ⟨hlt, hget⟩ := List.getElem?_eq_some_iff.1 hstep
    obtain ⟨_, hget'⟩ := List.getElem?_eq_some_iff.1 hprevious
    have hfollows := List.isChain_iff_getElem.1 hchain earlier hlt
    rw [hget, hget'] at hfollows
    exact hfollows hresumed

theorem step?_advance_drawCount (script : Script α) (scale : α) (start : Pose α)
    (reports : Bool) :
    ((({ start, reports } : Turtle α).advanced script scale script.drawCount).advance script
      scale).step? = none := by
  rw [step?_advance_advanced, List.getElem?_eq_none]
  rw [length_trace, Script.drawCount, ← Array.countP_toList]
  exact Nat.le_refl _

/-- Once a call has found nothing, the turtle stays at the end of the script. -/
theorem advance_of_drawCount_lt (script : Script α) (scale : α) (start : Pose α) (reports : Bool)
    {count : Nat} (h : script.drawCount < count) :
    let after := ({ start, reports } : Turtle α).advanced script scale count
    after.advance script scale = ⟨none, after, #[]⟩ := by
  have hend : script.size ≤
      (({ start, reports } : Turtle α).advanced script scale (script.drawCount + 1)).cursor := by
    rw [advanced_succ]
    exact size_le_cursor_of_seek_eq_none (step?_advance_drawCount script scale start reports)
  obtain ⟨more, rfl⟩ := Nat.exists_eq_add_of_le' (Nat.succ_le_of_lt h)
  have hsame : ({ start, reports } : Turtle α).advanced script scale (more + (script.drawCount + 1)) =
      ({ start, reports } : Turtle α).advanced script scale (script.drawCount + 1) :=
    (Function.iterate_add_apply _ more (script.drawCount + 1) _).trans
      (advanced_of_size_le hend scale more)
  rw [hsame]
  exact advance_of_size_le hend scale

theorem accounts_advanced (script : Script α) (scale : α) (start : Pose α) (reports : Bool)
    (count : Nat) :
    let after := ({ start, reports } : Turtle α).advanced script scale count
    after.Accounts ((script.toList.take after.cursor).countP Command.leaves) := by
  intro after
  have hnew : ({ start, reports } : Turtle α).Accounts 0 := ⟨rfl, rfl⟩
  have haccounts := hnew.follow scale (script.toList.take after.cursor)
  rwa [Nat.zero_add, ← (advanced_eq_follow script scale start reports count).2] at haccounts

/-- A turtle that sets out anew finds one step for each drawing move of the script, in order, and
then none, and once it has found none nothing changes any more. The step of a drawing move resumes
a branch exactly where a branch is left in front of it, behind the drawing move before: then it
starts where the turtle was when it entered the last such branch, and otherwise where the step
before has ended. After any number of calls, the branches entered are those left and those still
open, and every branch end passed was either counted or warned of. -/
theorem steps_match_drawing_moves :
    (∀ start : Pose α, (Turtle.new start).reset = .new start ∧
      (Turtle.silent start).reset = .silent start) ∧
    ∀ (script : Script α) (scale : α) (used : Turtle α),
      let turtle := used.reset
      let after (count : Nat) := turtle.advanced script scale count
      let step? (count : Nat) := ((after count).advance script scale).step?
      (∀ count < script.drawCount, ∃ step, step? count = some step ∧
        ∃ (i : Nat) (hi : i < script.size) (distance : α), script[i] = .move distance ∧
          Scalar.isZero distance = false ∧
          (script.toList.take i).countP Command.draws = count ∧
          (after (count + 1)).cursor = i + 1 ∧ step.Goes scale distance ∧
          (step.resumed = true ↔ ∃ first last, Resumes (script.toList.take i) first last) ∧
          (step.resumed = false → (count = 0 → step.start = used.start.point) ∧
            ∀ earlier previous, count = earlier + 1 → step? earlier = some previous →
              step.start = previous.stop) ∧
          (step.resumed = true → ∃ first last, ResumesLast (script.toList.take i) first last ∧
            step.start = (turtle.follow scale (script.toList.take first)).pose.point)) ∧
      step? script.drawCount = none ∧
      (∀ count > script.drawCount,
        (after count).advance script scale = ⟨none, after count, #[]⟩) ∧
      ∀ count, (after count).entries = (after count).exits + (after count).depth ∧
        (after count).exits + (after count).warnings.size =
          (script.toList.take (after count).cursor).countP Command.leaves := by
  refine ⟨fun start => ⟨rfl, rfl⟩, ?_⟩
  intro script scale used turtle after step?
  have hsteps (count : Nat) : step? count = (trace scale script.toList turtle false)[count]? :=
    step?_advance_advanced script scale count turtle
  refine ⟨?_, step?_advance_drawCount script scale used.start used.reports,
    fun count hcount => advance_of_drawCount_lt script scale used.start used.reports hcount,
    fun count => ?_⟩
  · intro count hcount
    obtain ⟨i, hi, distance, hmove, hzero, hbefore, hcursor, hstep⟩ :=
      exists_step_of_lt script scale used.start used.reports hcount
    obtain ⟨hset, hunset⟩ := flagBehind_spec scale used.start used.reports (script.toList.take i)
    have htrace := (hsteps count).symm.trans hstep
    refine ⟨_, hstep, i, hi, distance, hmove, hzero, hbefore, hcursor, ⟨_, rfl, rfl⟩, ?_, ?_, ?_⟩
    · constructor
      · intro hresumed
        obtain ⟨first, last, hlast, _⟩ := hset hresumed
        exact ⟨first, last, hlast.1⟩
      · rintro ⟨first, last, hresumes⟩
        refine Bool.of_not_eq_false fun hresumed => ?_
        exact hunset hresumed first last hresumes
    · intro hresumed
      simp only [hsteps]
      exact start_of_not_resumed hresumed htrace
    · intro hresumed
      obtain ⟨first, last, hlast, hplace⟩ := hset hresumed
      have hfirst : first < i := hlast.1.first_lt.trans_le (List.length_take_le ..)
      rw [List.take_take, Nat.min_eq_left hfirst.le] at hplace
      exact ⟨first, last, hlast, hplace⟩
  · obtain ⟨hentries, hends⟩ := accounts_advanced script scale used.start used.reports count
    exact ⟨hentries, hends⟩

/-- A stray end, and a branch with a move by no number at all. -/
def hooked : Script Float :=
  #[.leave, .move 1, .enter, .turn 90, .move (0 / 0), .leave, .turn 30, .move 2, .enter]

theorem steps_match_drawing_moves_hooked :
    let turtle := Turtle.silent (⟨1, 2, 45⟩ : Pose Float)
    let step? (count : Nat) := ((turtle.advanced hooked 0.5 count).advance hooked 0.5).step?
    2 < hooked.drawCount ∧ step? 3 = none ∧
      ∃ step, step? 2 = some step ∧ step.resumed = true ∧
        step.start = (turtle.follow 0.5 (hooked.toList.take 2)).pose.point := by
  intro turtle step?
  have hcount : hooked.drawCount = 3 := by decide +kernel
  have hlast : 2 < hooked.drawCount := by rw [hcount]; decide
  obtain ⟨hsteps, hnone, _⟩ := steps_match_drawing_moves.2 hooked 0.5 turtle
  obtain ⟨step, hstep, i, hi, distance, hmove, hzero, hbefore, _, _, hiff, _, hresumed⟩ :=
    hsteps 2 hlast
  rw [hcount] at hnone
  have hdraws : hooked[i].draws = true := by
    rw [hmove, Command.draws, hzero]
    rfl
  have hplace : ∀ i (hi : i < hooked.size), hooked[i].draws = true →
      (hooked.toList.take i).countP Command.draws = 2 → i = 7 := by decide +kernel
  obtain rfl := hplace i hi hdraws hbefore
  have hset : step.resumed = true :=
    hiff.2 ⟨2, 5, by decide +kernel, by decide +kernel⟩
  have hfirst : ∀ first < 7, ∀ last < 7,
      Pairs Command.bracket? (hooked.toList.take 7) first last → first = 2 := by decide +kernel
  obtain ⟨first, last, ⟨⟨hpairs, _⟩, _⟩, hstart⟩ := hresumed hset
  have hlt : last < 7 := hpairs.last_lt
  rw [hfirst first (Nat.lt_trans hpairs.1 hlt) last hlt hpairs] at hstart
  exact ⟨hlast, hnone, step, hstep, hset, hstart⟩

end Turtle

end LSystem
