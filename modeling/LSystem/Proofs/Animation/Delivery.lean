import LSystem.Proofs.Animation.Worker
import LSystem.Proofs.Cancellable

/-!
# Deliveries

A run in the background sends the figure that its request yields at once, or the
error in its place, and it sends it once; or it sends nothing, because it has
read a version other than its own at one of its checkpoints. It does not matter
what the newest version is in between, or that it comes back.
-/

namespace LSystem

variable {α : Type}

/-- The figure of a request, made at once and without checkpoints. -/
def Request.generate [Scalar α] (request : Request α) (viewport : Viewport α) :
    Except Error (Figure α) := do
  let table ← request.grammar.table request.angle
  let script ← Expansion.expand table request.angle request.seed request.iterations
  return place viewport script

theorem Request.figure_eq_generate [Scalar α] (request : Request α) (viewport : Viewport α) :
    request.figure viewport = request.generate viewport := by
  unfold Request.figure Request.generate Request.expansion
  cases request.grammar.table request.angle with
  | error e => rfl
  | ok table =>
    show (Expansion.expand table request.angle request.seed request.iterations).map _ =
      (Expansion.expand table request.angle request.seed request.iterations).bind _
    cases Expansion.expand table request.angle request.seed request.iterations with
    | error e => rfl
    | ok script => rfl

namespace Worker

/-! ### Messages -/

/-- The message that is sent between two states of a run. -/
def sent? : WorkerState α → WorkerState α → Option (Except Error (Figure α))
  | .running _, .sent message => some message
  | _, _ => none

/-- The messages that a run sends while it takes steps, where `observed` holds the newest version at
the moment of each step. -/
def messages : List Nat → Worker α → List (Except Error (Figure α))
  | [], _ => []
  | latest :: rest, worker =>
    (sent? worker.state (worker.step latest).state).toList ++ messages rest (worker.step latest)

theorem messages_sent (version : Nat) (message : Except Error (Figure α)) (observed : List Nat) :
    messages observed ⟨version, .sent message⟩ = [] := by
  induction observed with
  | nil => rfl
  | cons latest rest ih => exact ih

theorem messages_ended (version : Nat) (observed : List Nat) :
    messages observed (⟨version, .ended⟩ : Worker α) = [] := by
  induction observed with
  | nil => rfl
  | cons latest rest ih => exact ih

theorem messages_running (version : Nat)
    (work : Cancellable Checkpoint (Except Error (Figure α))) (observed : List Nat) :
    messages observed ⟨version, .running work⟩ =
      if work.marks.length < observed.length ∧
          ∀ latest ∈ observed.take work.marks.length, latest = version
      then [work.result] else [] := by
  induction work generalizing observed with
  | done result =>
    cases observed with
    | nil => rfl
    | cons latest rest =>
      have hsent : messages (latest :: rest) ⟨version, .running (.done result)⟩ =
          result :: messages rest ⟨version, .sent result⟩ := rfl
      rw [hsent, messages_sent, if_pos]
      · rfl
      · exact ⟨Nat.succ_pos _, fun _ hmem => absurd hmem List.not_mem_nil⟩
  | check mark rest ih =>
    cases observed with
    | nil => rfl
    | cons latest observed =>
      by_cases hlatest : latest = version
      · have hstep : messages (latest :: observed) ⟨version, .running (.check mark rest)⟩ =
            messages observed ⟨version, .running (rest ())⟩ := by
          simp only [messages, step, hlatest, if_true, sent?, Option.toList_none, List.nil_append]
        rw [hstep, ih]
        simp only [Cancellable.marks, Cancellable.result, List.length_cons, List.take_succ_cons,
          List.forall_mem_cons, hlatest, true_and, Nat.add_lt_add_iff_right]
      · have hstep : messages (latest :: observed) ⟨version, .running (.check mark rest)⟩ =
            messages observed ⟨version, .ended⟩ := by
          simp only [messages, step, hlatest, if_false, sent?, Option.toList_none, List.nil_append]
        rw [hstep, messages_ended, if_neg]
        rintro ⟨_, hall⟩
        exact hlatest (hall latest (List.mem_cons_self ..))

/-! ### Waits -/

/-- What a wait for a run yields after so many other waits, with `latest` the newest version all the
time. -/
def waited (latest : Nat) (count : Nat) (worker : Worker α) : Except Error (Figure α) :=
  (((fun worker => (worker.wait latest).2)^[count] worker).wait latest).1

theorem waited_succ (latest count : Nat) (worker : Worker α) :
    worker.waited latest (count + 1) = (worker.wait latest).2.waited latest count := rfl

theorem waited_ended (latest version count : Nat) :
    (⟨version, .ended⟩ : Worker α).waited latest count = .error .noResult := by
  induction count with
  | zero => rfl
  | succ count ih => exact ih

/-- The result of a run is received once. -/
theorem Promises.waited {worker : Worker α} {result : Except Error (Figure α)}
    (h : worker.Promises result) (count : Nat) :
    worker.waited worker.version count =
      if count = 0 then result else .error .noResult := by
  cases count with
  | zero => exact h.wait
  | succ count =>
    have hwait : (worker.wait worker.version).2 = ⟨worker.version, .ended⟩ := by
      simp only [Worker.wait, receive?, h.finish, version_finish]
    rw [waited_succ, hwait, waited_ended, if_neg (Nat.succ_ne_zero count)]

/-- A run that can send nothing any more unless it reads its own version once. -/
def Withheld (worker : Worker α) : Prop :=
  match worker.state with
  | .running work => work.marks ≠ []
  | .sent _ => False
  | .ended => True

theorem withheld_start [Scalar α] (request : Request α) (viewport : Viewport α) (version : Nat) :
    (start request viewport version).Withheld := by
  show (request.work viewport).marks ≠ []
  rw [Request.work, Cancellable.marks_bind]
  exact List.append_ne_nil_of_right_ne_nil _ (List.cons_ne_nil _ _)

theorem Withheld.step {worker : Worker α} (h : worker.Withheld) {latest : Nat}
    (hlatest : latest ≠ worker.version) : (worker.step latest).Withheld := by
  obtain ⟨version, state⟩ := worker
  cases state with
  | running work =>
    cases work with
    | done result => exact absurd rfl h
    | check mark rest =>
      simp only [Worker.step, if_neg hlatest]
      trivial
  | sent sent => exact absurd h id
  | ended => trivial

theorem Withheld.iterate_step {worker : Worker α} (h : worker.Withheld) {latest : Nat}
    (hlatest : latest ≠ worker.version) (count : Nat) :
    ((Worker.step latest)^[count] worker).Withheld ∧
      ((Worker.step latest)^[count] worker).version = worker.version := by
  induction count with
  | zero => exact ⟨h, rfl⟩
  | succ count ih =>
    obtain ⟨hwithheld, hversion⟩ := ih
    rw [Function.iterate_succ_apply']
    refine ⟨hwithheld.step ?_, (version_step _ _).trans hversion⟩
    rw [hversion]
    exact hlatest

theorem Withheld.finish {worker : Worker α} (h : worker.Withheld) {latest : Nat}
    (hlatest : latest ≠ worker.version) : worker.finish latest = ⟨worker.version, .ended⟩ := by
  obtain ⟨version, state⟩ := worker
  cases state with
  | running work =>
    cases work with
    | done result => exact absurd rfl h
    | check mark rest =>
      have hne : (latest != version) = true := bne_iff_ne.2 hlatest
      simp only [Worker.finish, Cancellable.run, Cancellable.runFrom, hne, if_true]
  | sent sent => exact absurd h id
  | ended => rfl

theorem Withheld.waited {worker : Worker α} (h : worker.Withheld) {latest : Nat}
    (hlatest : latest ≠ worker.version) (count : Nat) :
    worker.waited latest count = .error .noResult := by
  have hwait : worker.wait latest = (.error .noResult, ⟨worker.version, .ended⟩) := by
    simp only [Worker.wait, h.finish hlatest, receive?, Option.getD_some]
  cases count with
  | zero => exact congrArg Prod.fst hwait
  | succ count => rw [waited_succ, hwait, waited_ended]

/-! ### Runs for requests -/

variable [Scalar α]

theorem promises_start_generate (request : Request α) (viewport : Viewport α) (version : Nat) :
    (start request viewport version).Promises (request.generate viewport) := by
  rw [← Request.figure_eq_generate]
  exact promises_start request viewport version

theorem messages_start (request : Request α) (viewport : Viewport α) (version : Nat)
    (observed : List Nat) : (start request viewport version).messages observed =
      if (request.work viewport).marks.length < observed.length ∧
          ∀ latest ∈ observed.take (request.work viewport).marks.length, latest = version
      then [request.generate viewport] else [] := by
  have hresult : (request.work viewport).result = request.generate viewport :=
    promises_start_generate request viewport version
  rw [← hresult]
  exact messages_running version (request.work viewport) observed

theorem messages_start_eq_nil_iff {request : Request α} {viewport : Viewport α} {version : Nat}
    {observed : List Nat} (henough : (request.work viewport).marks.length < observed.length) :
    (start request viewport version).messages observed = [] ↔
      ∃ latest ∈ observed.take (request.work viewport).marks.length, latest ≠ version := by
  rw [messages_start]
  by_cases hall : ∀ latest ∈ observed.take (request.work viewport).marks.length, latest = version
  · rw [if_pos ⟨henough, hall⟩]
    refine iff_of_false (List.cons_ne_nil _ _) ?_
    rintro ⟨latest, hmem, hne⟩
    exact hne (hall latest hmem)
  · rw [if_neg fun h => hall h.2]
    refine iff_of_true rfl ?_
    simpa only [not_forall, exists_prop] using hall

/-- Whatever versions a run reads, it sends at most one message, and this is what its request yields
at once. A run that has had enough steps has sent nothing exactly when it has read another version
than its own at one of its checkpoints, the last of which comes after the expansion, also after one
that failed. While its version is the newest, the first wait yields the message and all later ones
an error; while it is not, all waits do. -/
theorem delivers_figure_or_nothing (request : Request α) (viewport : Viewport α) (version : Nat) :
    let worker := start request viewport version
    let work := request.work viewport
    work.marks = request.expansion.marks ++ [.expanded] ∧
    (∀ observed, (worker.messages observed).length ≤ 1 ∧
      (∀ message ∈ worker.messages observed, message = request.generate viewport) ∧
      (work.marks.length < observed.length →
        (worker.messages observed = [] ↔
          ∃ latest ∈ observed.take work.marks.length, latest ≠ version))) ∧
    (∀ steps count, ((step version)^[steps] worker).waited version count =
      if count = 0 then request.generate viewport else .error .noResult) ∧
    (∀ latest, latest ≠ version → ∀ steps count,
      ((step latest)^[steps] worker).waited latest count = .error .noResult) := by
  intro worker work
  refine ⟨?_, ?_, ?_, ?_⟩
  · exact Cancellable.marks_bind ..
  · intro observed
    refine ⟨?_, ?_, messages_start_eq_nil_iff⟩
    · rw [messages_start]
      split
      · exact Nat.le_refl 1
      · exact Nat.zero_le 1
    · intro message hmem
      rw [messages_start] at hmem
      split at hmem
      · exact List.mem_singleton.1 hmem
      · exact absurd hmem List.not_mem_nil
  · intro steps count
    have hpromises := promises_start_generate request viewport version
    obtain ⟨hkept, hversion⟩ := hpromises.iterate_step steps
    have hwaited := hkept.waited count
    rw [hversion] at hwaited
    exact hwaited
  · intro latest hlatest steps count
    obtain ⟨hkept, hversion⟩ := (withheld_start request viewport version).iterate_step hlatest steps
    refine hkept.waited ?_ count
    rw [hversion]
    exact hlatest

end Worker

end LSystem
