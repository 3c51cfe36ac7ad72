import LSystem.Animation.Worker
import Mathlib.Logic.Function.Iterate

/-!
# Ends of runs

A run that is left to itself comes to its end in so many steps, and as long as
its version is the newest it keeps the promise it was started with: the figure
of its request, or the error in its place, is what will be received.
-/

namespace LSystem

variable {α : Type}

namespace Worker

/-- A step brings a run nearer to the same end. -/
theorem finish_step (latest : Nat) (worker : Worker α) :
    (worker.step latest).finish latest = worker.finish latest := by
  obtain ⟨version, state⟩ := worker
  cases state with
  | running work =>
    cases work with
    | done result => rfl
    | check mark rest =>
      by_cases hlatest : latest = version
      · have hconst := Cancellable.runFrom_const (latest != version) (rest ()) 0 1
        simp only [step, finish, hlatest, if_true, Cancellable.run, Cancellable.runFrom,
          bne_self_eq_false, Bool.false_eq_true, if_false] at hconst ⊢
        rw [hconst]
      · have hne : (latest != version) = true := bne_iff_ne.2 hlatest
        simp only [step, finish, hlatest, if_false, Cancellable.run, Cancellable.runFrom, hne,
          if_true]
  | sent result => rfl
  | ended => rfl

theorem exists_iterate_step_eq_finish (latest : Nat) (worker : Worker α) :
    ∃ count, (step latest)^[count] worker = worker.finish latest := by
  obtain ⟨version, state⟩ := worker
  cases state with
  | sent result => exact ⟨0, rfl⟩
  | ended => exact ⟨0, rfl⟩
  | running work =>
    induction work with
    | done result => exact ⟨1, rfl⟩
    | check mark rest ih =>
      have hfinish := finish_step latest ⟨version, .running (.check mark rest)⟩
      by_cases hlatest : latest = version
      · have hstep : (⟨version, .running (.check mark rest)⟩ : Worker α).step latest =
            ⟨version, .running (rest ())⟩ := by
          simp only [step, hlatest, if_true]
        obtain ⟨count, hcount⟩ := ih ()
        refine ⟨count + 1, ?_⟩
        rw [Function.iterate_succ_apply, hstep, hcount, ← hfinish, hstep]
      · have hstep : (⟨version, .running (.check mark rest)⟩ : Worker α).step latest =
            ⟨version, .ended⟩ := by
          simp only [step, hlatest, if_false]
        refine ⟨1, ?_⟩
        rw [Function.iterate_one, ← hfinish, hstep]
        rfl

/-! ### Promises -/

/-- What will be received from a run as long as its version is the newest. -/
def Promises (worker : Worker α) (result : Except Error (Figure α)) : Prop :=
  match worker.state with
  | .running work => work.result = result
  | .sent sent => sent = result
  | .ended => False

theorem promises_start [Scalar α] (request : Request α) (viewport : Viewport α) (version : Nat) :
    (start request viewport version).Promises (request.figure viewport) := by
  show (request.work viewport).result = request.figure viewport
  simp only [Request.work, Cancellable.result_bind, Cancellable.result, Request.figure]

theorem Promises.step {worker : Worker α} {result : Except Error (Figure α)}
    (h : worker.Promises result) : (worker.step worker.version).Promises result := by
  obtain ⟨version, state⟩ := worker
  cases state with
  | running work =>
    cases work with
    | done sent => exact h
    | check mark rest =>
      simp only [Worker.step, if_true]
      exact h
  | sent sent => exact h
  | ended => exact h

theorem Promises.iterate_step {worker : Worker α} {result : Except Error (Figure α)}
    (h : worker.Promises result) (count : Nat) :
    ((Worker.step worker.version)^[count] worker).Promises result ∧
      ((Worker.step worker.version)^[count] worker).version = worker.version := by
  induction count with
  | zero => exact ⟨h, rfl⟩
  | succ count ih =>
    obtain ⟨hpromises, hversion⟩ := ih
    rw [Function.iterate_succ_apply']
    have hstep := hpromises.step
    rw [hversion] at hstep
    exact ⟨hstep, (version_step _ _).trans hversion⟩

theorem Promises.finish {worker : Worker α} {result : Except Error (Figure α)}
    (h : worker.Promises result) : (worker.finish worker.version).state = .sent result := by
  obtain ⟨version, state⟩ := worker
  cases state with
  | running work =>
    have hrun : (work.run fun _ => version != version).1 = some work.result :=
      Cancellable.runFrom_never (fun _ => bne_self_eq_false version) work 0
    have hresult : work.result = result := h
    simp only [Worker.finish, hrun, hresult]
  | sent sent =>
    have hsent : sent = result := h
    simp only [Worker.finish, hsent]
  | ended => exact absurd h id

theorem Promises.receive {worker : Worker α} {result received : Except Error (Figure α)}
    (h : worker.Promises result) (hr : worker.receive?.1 = some received) : received = result := by
  obtain ⟨version, state⟩ := worker
  cases state with
  | running work => cases hr
  | sent sent =>
    cases hr
    exact h
  | ended => exact absurd h id

theorem Promises.wait {worker : Worker α} {result : Except Error (Figure α)}
    (h : worker.Promises result) : (worker.wait worker.version).1 = result := by
  simp only [Worker.wait, receive?, h.finish, Option.getD_some]

end Worker

end LSystem
