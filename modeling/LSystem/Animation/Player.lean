import LSystem.Animation.Basic
import LSystem.Animation.Worker
import LSystem.Config.Basic

/-!
# Players

Takes a configuration to a moving picture: it has the figure made in the
background and plays its animation once it is there. Every configuration gets a
version of its own, and only the result for the newest one is ever used. A
figure that cannot be made leaves an error until the next configuration.
-/

namespace LSystem

inductive Phase
  | preparing
  | drawing
  | fading
  | failed
  deriving Repr, DecidableEq

def Stage.phase : Stage → Phase
  | .drawing => .drawing
  | .fading => .fading

structure Player (α : Type) where
  config : Config α
  width : α
  height : α
  phase : Phase
  /-- Counts the configurations up to the present one. It is a plain number: a word of 64 bits
  wraps at the configuration `2 ^ 64`, and no player is given that many. -/
  version : Nat
  /-- The newest version, as workers read it; a plain number like every version. -/
  latest : Nat
  pending : Option (Worker α)
  animation : Option (Animation α)
  error : Option Error
  /-- Whether ticks are drawn; while they are not, everything stays as it is. -/
  shown : Bool
  /-- Counts the ticks that were drawn, in a plain number as well: `2 ^ 64` ticks are out of
  reach. -/
  ticks : Nat

namespace Player

variable {α : Type} [Scalar α]

def viewport (player : Player α) : Viewport α := player.config.viewport player.width player.height

def fail (player : Player α) (e : Error) : Player α :=
  { player with error := some e, animation := none, phase := .failed }

def configure (player : Player α) (config : Config α) : Player α :=
  let player :=
    { player with
      config
      version := player.version + 1
      latest := player.version + 1
      pending := none
      animation := none
      error := none
      phase := .preparing }
  match config.request with
  | .ok request =>
    { player with pending := some (.start request player.viewport player.version) }
  | .error e => player.fail e

def new (config : Config α) (width height : Nat) : Player α :=
  configure
    { config
      width := Scalar.ofInt width
      height := Scalar.ofInt height
      phase := .preparing
      version := 0
      latest := 0
      pending := none
      animation := none
      error := none
      shown := true
      ticks := 0 }
    config

def resize (player : Player α) (width height : Nat) : Player α :=
  { player with width := Scalar.ofInt width, height := Scalar.ofInt height }.configure
    player.config

def setShown (player : Player α) (shown : Bool) : Player α := { player with shown }

/-- Uses the result of a run, if it is for the present version. -/
def accept (player : Player α) (version : Nat) (result : Except Error (Figure α)) : Player α :=
  if version = player.version then
    match result with
    | .ok figure =>
      { player with
        animation := some (.new figure.script figure.layout player.config.style)
        phase := .drawing }
    | .error e => player.fail e
  else player

def collect (player : Player α) : Player α :=
  match player.pending with
  | none => player
  | some worker =>
    match worker.receive?.1 with
    | none => player
    | some result => { player with pending := none }.accept worker.version result

def await (player : Player α) : Player α :=
  match player.pending with
  | none => player
  | some worker =>
    { player with pending := none }.accept worker.version (worker.wait player.latest).1

def stepWorker (player : Player α) : Player α :=
  { player with pending := player.pending.map (·.step player.latest) }

/-! ### Ticks -/

variable {σ : Type} [Surface σ α]

def blank (player : Player α) (surface : σ) : Outcome σ (Player α) Phase :=
  Surface.perform surface { player with ticks := player.ticks + 1 } player.phase
    [(.clear player.config.style.background, player)]

/-- Draws a frame of the animation. The phase follows the animation's stage only when the frame is
complete. -/
def animate (player : Player α) (animation : Animation α) (surface : σ) :
    Outcome σ (Player α) Phase :=
  let ticked := animation.tick surface
  let player := { player with animation := some ticked.actor }
  match ticked.result with
  | .ok stage =>
    let player := { player with phase := stage.phase, ticks := player.ticks + 1 }
    ⟨ticked.surface, player, .ok player.phase⟩
  | .error e => ⟨ticked.surface, player, .error e⟩

def tick (player : Player α) (surface : σ) : Outcome σ (Player α) Phase :=
  if player.shown then
    let player := player.collect
    match player.animation, player.phase with
    | some animation, .drawing => player.animate animation surface
    | some animation, .fading => player.animate animation surface
    | _, _ => player.blank surface
  else ⟨surface, player, .ok player.phase⟩

/-- Ticks until `stop` holds after a tick, `count` more times at most, behind the `ran` ticks made
so far; the result is the number of ticks made. -/
def playUntilFrom (stop : Player α → Bool) (ran : Nat) :
    Nat → Player α → σ → Outcome σ (Player α) Nat
  | 0, player, surface => ⟨surface, player, .ok ran⟩
  | count + 1, player, surface =>
    let ticked := player.tick surface
    match ticked.result with
    | .error e => ⟨ticked.surface, ticked.actor, .error e⟩
    | .ok _ =>
      if stop ticked.actor then ⟨ticked.surface, ticked.actor, .ok (ran + 1)⟩
      else playUntilFrom stop (ran + 1) count ticked.actor ticked.surface

def playUntil (stop : Player α → Bool) (count : Nat) (player : Player α) (surface : σ) :
    Outcome σ (Player α) Nat :=
  playUntilFrom stop 0 count player surface

def play : Nat → Player α → σ → Outcome σ (Player α) Phase
  | 0, player, surface => ⟨surface, player, .ok player.phase⟩
  | count + 1, player, surface =>
    let ticked := player.tick surface
    match ticked.result with
    | .error e => ⟨ticked.surface, ticked.actor, .error e⟩
    | .ok _ => play count ticked.actor ticked.surface

end Player

end LSystem
