import LSystem.Proofs.Animation.Player
import LSystem.Proofs.Animation.Worker

/-!
# Sessions

A player together with every run that was ever started for it. Runs take their
steps in any order, between any two calls of the player and between the ticks
of one call; those that were superseded read the newest version like the others,
but what they send is received by nobody. A session also keeps the history that
statements about players refer to: the configuration and the size asked for
last, and how many changes and frames there were.
-/

namespace LSystem

variable {α σ : Type}

/-- A step of a run: of the one the player waits for, or of a superseded one. -/
inductive Background
  | current
  | superseded (index : Nat)

structure Session (α : Type) where
  player : Player α
  superseded : List (Worker α)
  config : Config α
  width : Nat
  height : Nat
  changes : Nat
  frames : Nat

namespace Session

variable [Scalar α]

def new (config : Config α) (width height : Nat) : Session α where
  player := .new config width height
  superseded := []
  config := config
  width := width
  height := height
  changes := 0
  frames := 0

def configure (session : Session α) (config : Config α) : Session α :=
  { session with
    player := session.player.configure config
    superseded := session.superseded ++ session.player.pending.toList
    config := config
    changes := session.changes + 1 }

def resize (session : Session α) (width height : Nat) : Session α :=
  { session with
    player := session.player.resize width height
    superseded := session.superseded ++ session.player.pending.toList
    width := width
    height := height
    changes := session.changes + 1 }

def setShown (session : Session α) (shown : Bool) : Session α :=
  { session with player := session.player.setShown shown }

def collect (session : Session α) : Session α := { session with player := session.player.collect }

def await (session : Session α) : Session α := { session with player := session.player.await }

def work (session : Session α) : Background → Session α
  | .current => { session with player := session.player.stepWorker }
  | .superseded index =>
    { session with
      superseded := session.superseded.modify index (·.step session.player.latest) }

def works (session : Session α) (steps : List Background) : Session α := steps.foldl work session

variable [Surface σ α]

def tick (session : Session α) (surface : σ) : Outcome σ (Session α) Phase :=
  let ticked := session.player.tick surface
  { surface := ticked.surface
    actor :=
      { session with
        player := ticked.actor
        frames :=
          if session.player.shown && ticked.result.isOk then session.frames + 1
          else session.frames }
    result := ticked.result }

/-- Ticks with steps of runs before each, until `stop` holds after a tick or none is left. -/
def playUntilFrom (stop : Player α → Bool) (ran : Nat) :
    List (List Background) → Session α → σ → Outcome σ (Session α) Nat
  | [], session, surface => ⟨surface, session, .ok ran⟩
  | steps :: rest, session, surface =>
    let ticked := (session.works steps).tick surface
    match ticked.result with
    | .error e => ⟨ticked.surface, ticked.actor, .error e⟩
    | .ok _ =>
      if stop ticked.actor.player then ⟨ticked.surface, ticked.actor, .ok (ran + 1)⟩
      else playUntilFrom stop (ran + 1) rest ticked.actor ticked.surface

/-- What can happen in a session. Each call that draws is given a surface of its own. -/
inductive Action (σ α : Type)
  | configure (config : Config α)
  | resize (width height : Nat)
  | setShown (shown : Bool)
  | collect
  | await
  | tick (surface : σ)
  | play (pauses : List (List Background)) (surface : σ)
  | playUntil (stop : Player α → Bool) (pauses : List (List Background)) (surface : σ)
  | work (step : Background)

def act (session : Session α) : Action σ α → Session α
  | .configure config => session.configure config
  | .resize width height => session.resize width height
  | .setShown shown => session.setShown shown
  | .collect => session.collect
  | .await => session.await
  | .tick surface => (session.tick surface).actor
  | .play pauses surface => (session.playUntilFrom (fun _ => false) 0 pauses surface).actor
  | .playUntil stop pauses surface => (session.playUntilFrom stop 0 pauses surface).actor
  | .work step => session.work step

def run (session : Session α) (actions : List (Action σ α)) : Session α :=
  actions.foldl act session

/-! ### Calls of many ticks -/

/-- With no step of a worker between its ticks, the loop of a session is that of its player. -/
theorem playUntilFrom_quiet (stop : Player α → Bool) (ran count : Nat) (session : Session α)
    (surface : σ) :
    let played := session.playUntilFrom stop ran (List.replicate count []) surface
    let alone := Player.playUntilFrom stop ran count session.player surface
    played.surface = alone.surface ∧ played.actor.player = alone.actor ∧
      played.result = alone.result := by
  induction count generalizing ran session surface with
  | zero => exact ⟨rfl, rfl, rfl⟩
  | succ count ih =>
    have hworks : session.works [] = session := rfl
    simp only [List.replicate_succ, playUntilFrom, Player.playUntilFrom, hworks, tick]
    cases (session.player.tick surface).result with
    | error e => exact ⟨rfl, rfl, rfl⟩
    | ok phase =>
      dsimp only
      split
      · exact ⟨rfl, rfl, rfl⟩
      · exact ih _ _ _

/-- A loop that never stops early makes the ticks of a plain call. -/
theorem playUntilFrom_never (ran count : Nat) (player : Player α) (surface : σ) :
    let stopped := Player.playUntilFrom (fun _ => false) ran count player surface
    let played := Player.play count player surface
    stopped.surface = played.surface ∧ stopped.actor = played.actor := by
  induction count generalizing ran player surface with
  | zero => exact ⟨rfl, rfl⟩
  | succ count ih =>
    simp only [Player.playUntilFrom, Player.play]
    cases (player.tick surface).result with
    | error e => exact ⟨rfl, rfl⟩
    | ok phase => exact ih _ _ _

/-! ### Waiting -/

omit [Surface σ α] [Scalar α] in
theorem works_current (session : Session α) (count : Nat) :
    session.works (List.replicate count .current) =
      { session with
        player := { session.player with
          pending := session.player.pending.map (Worker.step session.player.latest)^[count] } } := by
  induction count generalizing session with
  | zero =>
    rw [Function.iterate_zero, Option.map_id]
    rfl
  | succ count ih =>
    rw [List.replicate_succ]
    refine (ih (session.work .current)).trans ?_
    simp only [work, Player.stepWorker, Option.map_map, Function.iterate_succ]

omit [Surface σ α] in
/-- Waiting for a run is to let it take steps until it is over and then to collect. -/
theorem exists_works_collect_eq_await (session : Session α) :
    ∃ count, (session.works (List.replicate count .current)).collect = session.await := by
  cases hw : session.player.pending with
  | none =>
    refine ⟨0, ?_⟩
    simp only [List.replicate_zero, works, List.foldl_nil, collect, await, Player.collect,
      Player.await, hw]
  | some worker =>
    obtain ⟨count, hcount⟩ := worker.exists_iterate_step_eq_finish session.player.latest
    obtain ⟨result, hresult⟩ := Option.isSome_iff_exists.1
      (worker.isSome_receive?_finish session.player.latest)
    refine ⟨count, ?_⟩
    rw [works_current, hw, Option.map_some, hcount]
    simp only [collect, await, Player.collect, Player.await, hw, hresult, Worker.wait,
      Option.getD_some, Worker.version_finish]

/-! ### Invariants -/

/-- A property that every single step of a session keeps. -/
structure Stable (σ : Type) [Surface σ α] (P : Session α → Prop) : Prop where
  configure : ∀ session config, P session → P (session.configure config)
  resize : ∀ session width height, P session → P (session.resize width height)
  setShown : ∀ session shown, P session → P (session.setShown shown)
  collect : ∀ session, P session → P session.collect
  await : ∀ session, P session → P session.await
  tick : ∀ session (surface : σ), P session → P (session.tick surface).actor
  work : ∀ session step, P session → P (session.work step)

variable {P : Session α → Prop}

theorem Stable.works (h : Stable σ P) {session : Session α} (hs : P session)
    (steps : List Background) : P (session.works steps) := by
  induction steps generalizing session with
  | nil => exact hs
  | cons step steps ih => exact ih (h.work session step hs)

theorem Stable.playUntilFrom (h : Stable σ P) (stop : Player α → Bool) (ran : Nat)
    (pauses : List (List Background)) {session : Session α} (hs : P session) (surface : σ) :
    P (session.playUntilFrom stop ran pauses surface).actor := by
  induction pauses generalizing ran session surface with
  | nil => exact hs
  | cons steps pauses ih =>
    have hticked := h.tick (session.works steps) surface (h.works hs steps)
    simp only [Session.playUntilFrom]
    split
    · exact hticked
    · split
      · exact hticked
      · exact ih _ hticked _

theorem Stable.run (h : Stable σ P) {session : Session α} (hs : P session)
    (actions : List (Action σ α)) : P (session.run actions) := by
  induction actions generalizing session with
  | nil => exact hs
  | cons action actions ih =>
    refine ih ?_
    cases action with
    | configure config => exact h.configure session config hs
    | resize width height => exact h.resize session width height hs
    | setShown shown => exact h.setShown session shown hs
    | collect => exact h.collect session hs
    | await => exact h.await session hs
    | tick surface => exact h.tick session surface hs
    | play pauses surface => exact h.playUntilFrom (fun _ => false) 0 pauses hs surface
    | playUntil stop pauses surface => exact h.playUntilFrom stop 0 pauses hs surface
    | work step => exact h.work session step hs

end Session

end LSystem
