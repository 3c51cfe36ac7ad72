import Mathlib.Data.Rat.Floor
import Mathlib.Tactic.LinearCombination
import LSystem.Proofs.Grammar.Hilbert
import LSystem.Proofs.Turtle.Erasure
import LSystem.Proofs.Turtle.Fit

/-!
# The Hilbert curve

A turtle that makes exact quarter turns and walks the script of the Hilbert
grammar visits each point of a square lattice once, from one corner to the next.
The curve fills the four quarters of its square one after another, and each
quarter is filled by the curve before, seen along other axes.
-/

namespace LSystem

namespace Hilbert

/-! ### Cells of the square -/

/-- The cells of the square in the order of the curve, by their distances along the heading and to
the side of the curve. The two middle quarters are smaller copies of the whole; the first one has
its axes exchanged, and the last one has them exchanged and turned round. -/
def cells : Nat → List (ℤ × ℤ)
  | 0 => [(0, 0)]
  | n + 1 =>
    (cells n).map (fun c => (c.2, c.1)) ++ (cells n).map (fun c => (c.1, 2 ^ n + c.2)) ++
      (cells n).map (fun c => (2 ^ n + c.1, 2 ^ n + c.2)) ++
        (cells n).map (fun c => (2 * 2 ^ n - 1 - c.2, 2 ^ n - 1 - c.1))

theorem mem_cells {n : Nat} {c : ℤ × ℤ} :
    c ∈ cells n ↔ (0 ≤ c.1 ∧ c.1 < 2 ^ n) ∧ 0 ≤ c.2 ∧ c.2 < 2 ^ n := by
  induction n generalizing c with
  | zero =>
    simp only [cells, List.mem_singleton, Prod.ext_iff, pow_zero]
    omega
  | succ n ih =>
    obtain ⟨a, b⟩ := c
    simp only [cells, List.mem_append, List.mem_map, ih, Prod.exists, Prod.mk.injEq, pow_succ]
    generalize (2 : ℤ) ^ n = side
    constructor
    · rintro (((⟨a', b', h, rfl, rfl⟩ | ⟨a', b', h, rfl, rfl⟩) | ⟨a', b', h, rfl, rfl⟩) |
        ⟨a', b', h, rfl, rfl⟩) <;> omega
    · intro h
      by_cases ha : a < side
      · by_cases hb : b < side
        · exact .inl (.inl (.inl ⟨b, a, by omega, rfl, rfl⟩))
        · exact .inl (.inl (.inr ⟨a, b - side, by omega, rfl, by omega⟩))
      · by_cases hb : b < side
        · exact .inr ⟨side - 1 - b, 2 * side - 1 - a, by omega, by omega, by omega⟩
        · exact .inl (.inr ⟨a - side, b - side, by omega, by omega, by omega⟩)

theorem nodup_cells (n : Nat) : (cells n).Nodup := by
  induction n with
  | zero => exact List.nodup_singleton _
  | succ n ih =>
    have hquarter : ∀ f : ℤ × ℤ → ℤ × ℤ, (∀ c d, f c = f d → c = d) → ((cells n).map f).Nodup :=
      fun f hf => ih.map fun c d => hf c d
    -- Each quarter visits its cells once, and no two quarters have one in common.
    simp only [cells, List.nodup_append]
    refine ⟨⟨⟨hquarter _ ?_, hquarter _ ?_, ?_⟩, hquarter _ ?_, ?_⟩, hquarter _ ?_, ?_⟩
    all_goals
      simp only [List.mem_append, List.mem_map, mem_cells, Prod.exists, Prod.forall, Prod.mk.injEq,
        ne_eq]
      generalize (2 : ℤ) ^ n = side
    · omega
    · omega
    · rintro _ _ ⟨a, b, _, rfl, rfl⟩ _ _ ⟨a', b', _, rfl, rfl⟩
      omega
    · omega
    · rintro _ _ (⟨a, b, _, rfl, rfl⟩ | ⟨a, b, _, rfl, rfl⟩) _ _ ⟨a', b', _, rfl, rfl⟩ <;> omega
    · omega
    · rintro _ _ ((⟨a, b, _, rfl, rfl⟩ | ⟨a, b, _, rfl, rfl⟩) | ⟨a, b, _, rfl, rfl⟩) _ _
        ⟨a', b', _, rfl, rfl⟩ <;> omega

end Hilbert

/-! ### Tours -/

section Tours

variable {α : Type} [Scalar α] {scale : α} {start mid stop : Pose α}
  {points points' : List (Point α)} {u v : List (Command α)}

/-- Any turtle at `start` that follows the commands goes through `points`, which begin with its
own, and ends at `stop`. -/
def Tours (scale : α) (commands : List (Command α)) (start : Pose α) (points : List (Point α))
    (stop : Pose α) : Prop :=
  ∀ turtle : Turtle α, turtle.pose = start →
    start.point :: (turtle.drawn scale commands).map Prod.snd = points ∧
      (turtle.follow scale commands).pose = stop

theorem Tours.idle {d : α} (hd : Scalar.isZero d = true) :
    Tours scale [.move d] start [start.point] start := by
  intro turtle h
  have hdraws : (Command.move d).draws = false := by simp [Command.draws, hd]
  rw [Turtle.drawn_cons, hdraws, Turtle.follow_cons, Turtle.obey_move_zero _ hd]
  exact ⟨rfl, h⟩

theorem Tours.turn_cons {a : α} (h : Tours scale u (start.turned a) points stop) :
    Tours scale (.turn a :: u) start points stop := by
  intro turtle hpose
  have hturned : (turtle.obey scale (.turn a)).1.pose = start.turned a := by
    rw [← hpose]
    rfl
  obtain ⟨hpoints, hstop⟩ := h _ hturned
  rw [Turtle.drawn_cons, Turtle.follow_cons]
  exact ⟨hpoints, hstop⟩

theorem Tours.concat_turn (a : α) (h : Tours scale u start points stop) :
    Tours scale (u ++ [.turn a]) start points (stop.turned a) := by
  intro turtle hpose
  obtain ⟨hpoints, hstop⟩ := h turtle hpose
  have hnone : (turtle.follow scale u).drawn scale [.turn a] = [] := rfl
  rw [Turtle.drawn_append, hnone, List.append_nil, Turtle.follow_append, ← hstop]
  exact ⟨hpoints, rfl⟩

/-- Two tours with one move in between. -/
theorem Tours.join {d : α} {next : Pose α} (hd : Scalar.isZero d = false)
    (hu : Tours scale u start points mid) (hmoved : mid.moved d scale = next)
    (hv : Tours scale v next points' stop) :
    Tours scale (u ++ .move d :: v) start (points ++ points') stop := by
  intro turtle hpose
  obtain ⟨hpoints, hmid⟩ := hu turtle hpose
  have hnext : ((turtle.follow scale u).obey scale (.move d)).1.pose = next := by
    rw [Turtle.obey_move_nonzero _ hd, hmid, hmoved]
  obtain ⟨hpoints', hstop⟩ := hv _ hnext
  have hdraws : (Command.move d).draws = true := by simp [Command.draws, hd]
  rw [Turtle.drawn_append, Turtle.follow_append, Turtle.drawn_cons, hdraws, Turtle.follow_cons,
    hnext, ← hpoints, ← hpoints', List.map_append]
  exact ⟨rfl, hstop⟩

/-- A tour of a whole script is its walk. -/
theorem Tours.walk {script : Script α} (h : Tours scale script.toList start points stop) :
    let walk := (Turtle.new start).walk script scale
    start.point :: walk.steps.toList.map Step.stop = points ∧ walk.turtle.pose = stop := by
  obtain ⟨hpoints, hstop⟩ := h (Turtle.new start) rfl
  have hstops : ((Turtle.new start).walk script scale).steps.toList.map Step.stop =
      ((Turtle.new start).drawn scale script.toList).map Prod.snd := by
    rw [← Turtle.map_ends_walk script scale rfl, List.map_map]
    rfl
  intro walk
  rw [hstops, show walk.turtle = _ from Turtle.turtle_walk script scale _]
  exact ⟨hpoints, hstop⟩

end Tours

/-! ### Quarter turns -/

/-- Cosine and sine turn by exact quarters. -/
structure QuarterTurns (K : Type) [ExactScalar K] : Prop where
  cosine_zero : Scalar.cosine (0 : K) = 1
  sine_zero : Scalar.sine (0 : K) = 0
  cosine_turned (angle : K) : Scalar.cosine (angle + 90) = -Scalar.sine angle
  sine_turned (angle : K) : Scalar.sine (angle + 90) = Scalar.cosine angle

section Quarter

variable {K : Type} [ExactScalar K]

variable (K) in
/-- A turn to one side. -/
def Side.quarter : Side → K
  | .left => Scalar.ofInt 90
  | .right => -Scalar.ofInt 90

variable (K) in
def Side.sign : Side → K
  | .left => 1
  | .right => -1

theorem Motion.command_turn (side : Side) :
    Motion.command (Scalar.ofInt 90 : K) (.turn side) = .turn (side.quarter K) := by
  cases side <;> rfl

theorem ofInt_ninety : (Scalar.ofInt 90 : K) = 90 := Int.cast_ofNat 90

theorem QuarterTurns.cosine_quarter (turns : QuarterTurns K) (side : Side) (angle : K) :
    Scalar.cosine (angle + side.quarter K) = -side.sign K * Scalar.sine angle := by
  cases side with
  | left =>
    simp only [Side.quarter, Side.sign, ofInt_ninety, turns.cosine_turned]
    ring
  | right =>
    have h := turns.sine_turned (angle + -90)
    have hangle : angle + -90 + 90 = angle := by ring
    rw [hangle] at h
    simp only [Side.quarter, Side.sign, ofInt_ninety, h]
    ring

theorem QuarterTurns.sine_quarter (turns : QuarterTurns K) (side : Side) (angle : K) :
    Scalar.sine (angle + side.quarter K) = side.sign K * Scalar.cosine angle := by
  cases side with
  | left =>
    simp only [Side.quarter, Side.sign, ofInt_ninety, turns.sine_turned]
    ring
  | right =>
    have h := turns.cosine_turned (angle + -90)
    have hangle : angle + -90 + 90 = angle := by ring
    rw [hangle] at h
    simp only [Side.quarter, Side.sign, ofInt_ninety, h]
    ring

theorem Side.add_quarter_other (side : Side) (angle : K) :
    angle + side.quarter K + side.other.quarter K = angle := by
  cases side with
  | left =>
    simp only [other, quarter]
    ring
  | right =>
    simp only [other, quarter]
    ring

theorem Side.add_other_quarter (side : Side) (angle : K) :
    angle + side.other.quarter K + side.quarter K = angle := by
  have hback := side.add_quarter_other angle
  rwa [add_right_comm] at hback

theorem Side.sign_other (side : Side) : side.other.sign K = -side.sign K := by
  cases side with
  | left => rfl
  | right => exact (neg_neg (1 : K)).symm

theorem Side.sign_mul_sign (side : Side) : side.sign K * side.sign K = 1 := by
  cases side with
  | left => exact one_mul 1
  | right => exact (neg_mul_neg (1 : K) 1).trans (one_mul 1)

/-! ### The curve as a tour -/

namespace Hilbert

/-- The point so many lines along the heading of a pose and so many to one side of it. -/
def spot (side : Side) (pose : Pose K) (a b : K) : Point K where
  x := pose.x + 20 * (a * Scalar.cosine pose.angle - b * side.sign K * Scalar.sine pose.angle)
  y := pose.y + 20 * (a * Scalar.sine pose.angle + b * side.sign K * Scalar.cosine pose.angle)

def spotOf (side : Side) (pose : Pose K) (c : ℤ × ℤ) : Point K := spot side pose c.1 c.2

def standing (p : Point K) (angle : K) : Pose K := ⟨p.x, p.y, angle⟩

theorem standing_spot_zero (side : Side) (pose : Pose K) :
    standing (spot side pose 0 0) pose.angle = pose := by
  simp only [standing, spot]
  obtain ⟨x, y, angle⟩ := pose
  congr 1 <;> ring

theorem moved_line (side : Side) (pose : Pose K) :
    pose.moved (Scalar.ofInt 20) 1 = standing (spot side pose 1 0) pose.angle := by
  have hline : (Scalar.ofInt 20 : K) = 20 := Int.cast_ofNat 20
  simp only [Pose.moved, standing, spot, hline]
  congr 1 <;> ring

theorem spot_standing (side : Side) (pose : Pose K) (a b a' b' : K) :
    spot side (standing (spot side pose a b) pose.angle) a' b' =
      spot side pose (a + a') (b + b') := by
  simp only [standing, spot]
  congr 1 <;> ring

/-- Behind a turn to its side, the mirrored curve has its axes exchanged. -/
theorem spot_turned (turns : QuarterTurns K) (side : Side) (pose : Pose K) (a b a' b' : K) :
    spot side.other (standing (spot side pose a b) (pose.angle + side.quarter K)) a' b' =
      spot side pose (a + b') (b + a') := by
  have hsign : side.sign K * side.sign K = 1 := side.sign_mul_sign
  simp only [standing, spot, turns.cosine_quarter, turns.sine_quarter, Side.sign_other]
  congr 1
  · linear_combination 20 * b' * Scalar.cosine pose.angle * hsign
  · linear_combination 20 * b' * Scalar.sine pose.angle * hsign

/-- Behind a turn to the other side, they are exchanged and turned round. -/
theorem spot_turned_other (turns : QuarterTurns K) (side : Side) (pose : Pose K) (a b a' b' : K) :
    spot side.other (standing (spot side pose a b) (pose.angle + side.other.quarter K)) a' b' =
      spot side pose (a - b') (b - a') := by
  have hsign : side.sign K * side.sign K = 1 := side.sign_mul_sign
  simp only [standing, spot, turns.cosine_quarter, turns.sine_quarter, Side.sign_other]
  congr 1
  · linear_combination -20 * b' * Scalar.cosine pose.angle * hsign
  · linear_combination -20 * b' * Scalar.sine pose.angle * hsign

variable (K) in
def commands (side : Side) (n : Nat) : List (Command K) :=
  (curve side n).map (Motion.command (Scalar.ofInt 90))

theorem commands_succ (side : Side) (n : Nat) :
    commands K side (n + 1) =
      (.turn (side.quarter K) :: commands K side.other n) ++ .move (Scalar.ofInt 20) ::
        (.turn (side.other.quarter K) :: commands K side n) ++ .move (Scalar.ofInt 20) ::
          (commands K side n ++ [.turn (side.other.quarter K)]) ++ .move (Scalar.ofInt 20) ::
            (commands K side.other n ++ [.turn (side.quarter K)]) := by
  simp only [commands, curve, List.map_append, List.map_cons, List.map_nil, Motion.command_turn]
  rfl

theorem map_spotOf_cells_succ (side : Side) (pose : Pose K) (n : Nat) :
    (cells (n + 1)).map (spotOf side pose) =
      ((cells n).map fun c => spot side pose c.2 c.1) ++
        ((cells n).map fun c => spot side pose c.1 (2 ^ n + c.2)) ++
          ((cells n).map fun c => spot side pose (2 ^ n + c.1) (2 ^ n + c.2)) ++
            (cells n).map fun c => spot side pose (2 * 2 ^ n - 1 - c.2) (2 ^ n - 1 - c.1) := by
  simp only [cells, List.map_append, List.map_map, Function.comp_def, spotOf]
  push_cast
  rfl

/-- From any pose the curve goes through all cells of its square, in their order, and along one
edge to the next corner. -/
def Fills (K : Type) [ExactScalar K] (side : Side) (n : Nat) : Prop :=
  ∀ pose : Pose K, Tours 1 (commands K side n) pose ((cells n).map (spotOf side pose))
    (standing (spot side pose (2 ^ n - 1) 0) pose.angle)

theorem isZero_line : Scalar.isZero (Scalar.ofInt 20 : K) = false := by
  have hline : (Scalar.ofInt 20 : K) ≠ 0 := Int.cast_ne_zero.2 (by decide)
  exact decide_eq_false hline

theorem fills_zero (side : Side) : Fills K side 0 := by
  intro pose
  have hzero : Scalar.isZero (Scalar.ofInt 0 : K) = true := decide_eq_true Int.cast_zero
  have hstart : standing (spot side pose 0 0) pose.angle = pose := standing_spot_zero side pose
  have hstop : (2 : K) ^ 0 - 1 = 0 := by ring
  have hpoint : spotOf side pose (0, 0) = pose.point := by
    rw [spotOf, Int.cast_zero]
    exact congrArg Pose.point hstart
  rw [hstop, hstart, cells, List.map_singleton, hpoint]
  exact Tours.idle hzero

/-- A line from a pose whose own axes are seen from elsewhere. -/
theorem moved_seen {side : Side} {start : Pose K} {place : K → K → Point K}
    (hplace : ∀ a b, spot side start a b = place a b) :
    start.moved (Scalar.ofInt 20) 1 = standing (place 1 0) start.angle := by
  rw [moved_line side, hplace]

/-- The curve from a pose whose own axes are seen from elsewhere. -/
theorem Fills.seen {side : Side} {n : Nat} (h : Fills K side n) {start : Pose K}
    {place : K → K → Point K} (hplace : ∀ a b, spot side start a b = place a b) :
    Tours 1 (commands K side n) start ((cells n).map fun c => place c.1 c.2)
      (standing (place (2 ^ n - 1) 0) start.angle) := by
  obtain rfl : spot side start = place := funext₂ hplace
  exact h start

section Quarters

variable (turns : QuarterTurns K) {side : Side} {n : Nat} (pose : Pose K)

include turns in
theorem tours_first (h : Fills K side.other n) :
    Tours 1 (.turn (side.quarter K) :: commands K side.other n) pose
      ((cells n).map fun c => spot side pose c.2 c.1)
      (standing (spot side pose 0 (2 ^ n - 1)) (pose.angle + side.quarter K)) := by
  have hstart : pose.turned (side.quarter K) =
      standing (spot side pose 0 0) (pose.angle + side.quarter K) :=
    congrArg (Pose.turned · (side.quarter K)) (standing_spot_zero side pose).symm
  have htour := h.seen (spot_turned turns side pose 0 0)
  simp only [zero_add] at htour
  exact Tours.turn_cons (hstart ▸ htour)

theorem tours_second (h : Fills K side n) :
    Tours 1 (.turn (side.other.quarter K) :: commands K side n)
      (standing (spot side pose 0 (2 ^ n)) (pose.angle + side.quarter K))
      ((cells n).map fun c => spot side pose c.1 (2 ^ n + c.2))
      (standing (spot side pose (2 ^ n - 1) (2 ^ n)) pose.angle) := by
  have hstart : (standing (spot side pose 0 (2 ^ n)) (pose.angle + side.quarter K)).turned
      (side.other.quarter K) = standing (spot side pose 0 (2 ^ n)) pose.angle :=
    congrArg (standing _) (side.add_quarter_other pose.angle)
  have htour := h.seen (spot_standing side pose 0 (2 ^ n))
  simp only [zero_add, add_zero] at htour
  exact Tours.turn_cons (hstart ▸ htour)

theorem tours_third (h : Fills K side n) :
    Tours 1 (commands K side n ++ [.turn (side.other.quarter K)])
      (standing (spot side pose (2 ^ n) (2 ^ n)) pose.angle)
      ((cells n).map fun c => spot side pose (2 ^ n + c.1) (2 ^ n + c.2))
      (standing (spot side pose (2 * 2 ^ n - 1) (2 ^ n))
        (pose.angle + side.other.quarter K)) := by
  have htour := h.seen (spot_standing side pose (2 ^ n) (2 ^ n))
  have hstop : (2 : K) ^ n + (2 ^ n - 1) = 2 * 2 ^ n - 1 := by ring
  rw [hstop, add_zero] at htour
  exact htour.concat_turn (side.other.quarter K)

include turns in
theorem tours_last (h : Fills K side.other n) :
    Tours 1 (commands K side.other n ++ [.turn (side.quarter K)])
      (standing (spot side pose (2 * 2 ^ n - 1) (2 ^ n - 1)) (pose.angle + side.other.quarter K))
      ((cells n).map fun c => spot side pose (2 * 2 ^ n - 1 - c.2) (2 ^ n - 1 - c.1))
      (standing (spot side pose (2 * 2 ^ n - 1) 0) pose.angle) := by
  have htour := h.seen (spot_turned_other turns side pose (2 * 2 ^ n - 1) (2 ^ n - 1))
  rw [sub_self, sub_zero] at htour
  have hstop : (standing (spot side pose (2 * 2 ^ n - 1) 0)
      (pose.angle + side.other.quarter K)).turned (side.quarter K) =
        standing (spot side pose (2 * 2 ^ n - 1) 0) pose.angle :=
    congrArg (standing _) (side.add_other_quarter pose.angle)
  exact hstop ▸ htour.concat_turn (side.quarter K)

end Quarters

theorem fills_succ (turns : QuarterTurns K) {side : Side} {n : Nat} (hside : Fills K side n)
    (hother : Fills K side.other n) : Fills K side (n + 1) := by
  intro pose
  have hfirst := tours_first turns pose hother
  have hsecond := tours_second pose hside
  have hthird := tours_third pose hside
  have hlast := tours_last turns pose hother
  -- The lines between them lead up, along and down.
  have hup := moved_seen (spot_turned turns side pose 0 (2 ^ n - 1))
  have halong := moved_seen (spot_standing side pose (2 ^ n - 1) (2 ^ n))
  have hdown := moved_seen (spot_turned_other turns side pose (2 * 2 ^ n - 1) (2 ^ n))
  rw [add_zero, sub_add_cancel] at hup halong
  rw [sub_zero] at hdown
  have hstop : (2 : K) ^ (n + 1) - 1 = 2 * 2 ^ n - 1 := by rw [pow_succ']
  rw [commands_succ, map_spotOf_cells_succ, hstop]
  exact ((hfirst.join isZero_line hup hsecond).join isZero_line halong hthird).join isZero_line
    hdown hlast

theorem fills (turns : QuarterTurns K) (side : Side) (n : Nat) : Fills K side n := by
  induction n generalizing side with
  | zero => exact fills_zero side
  | succ n ih => exact fills_succ turns (ih side) (ih side.other)

/-! ### From the origin -/

theorem spot_origin (turns : QuarterTurns K) (a b : K) :
    spot .left (Pose.origin : Pose K) a b = ⟨20 * a, 20 * b⟩ := by
  have hzero : (Scalar.ofInt 0 : K) = 0 := Int.cast_zero
  simp only [spot, Pose.origin, hzero, turns.cosine_zero, turns.sine_zero, Side.sign]
  congr 1 <;> ring

theorem mem_map_cells {n : Nat} {p : Point K} :
    p ∈ (cells n).map (fun c => (⟨20 * c.1, 20 * c.2⟩ : Point K)) ↔
      ∃ i < 2 ^ n, ∃ j < 2 ^ n, p = ⟨20 * (i : ℕ), 20 * (j : ℕ)⟩ := by
  simp only [List.mem_map, mem_cells, Prod.exists]
  constructor
  · rintro ⟨a, b, ⟨⟨ha, ha'⟩, hb, hb'⟩, rfl⟩
    lift a to ℕ using ha
    lift b to ℕ using hb
    exact ⟨a, by exact_mod_cast ha', b, by exact_mod_cast hb', by push_cast; rfl⟩
  · rintro ⟨i, hi, j, hj, rfl⟩
    refine ⟨i, j, ⟨⟨Int.natCast_nonneg i, by exact_mod_cast hi⟩, Int.natCast_nonneg j,
      by exact_mod_cast hj⟩, ?_⟩
    push_cast
    rfl

theorem nodup_map_cells (n : Nat) :
    ((cells n).map fun c => (⟨20 * c.1, 20 * c.2⟩ : Point K)).Nodup := by
  refine (nodup_cells n).map fun c d h => ?_
  obtain ⟨hx, hy⟩ := Point.mk.inj h
  have htwenty : (20 : K) ≠ 0 := by norm_num
  exact Prod.ext (Int.cast_injective (mul_left_cancel₀ htwenty hx))
    (Int.cast_injective (mul_left_cancel₀ htwenty hy))

/-- In numbers of any kind, the built-in grammar expands to the same motions. In doubles all moves
among them that draw have the length of a line. Where quarter turns are exact, the turtle visits
each point of the square once, from one corner to the next, and ends with the heading it began
with. -/
theorem walk_visits_square (turns : QuarterTurns K) {n : Nat} (hn : 1 ≤ n) :
    ∃ motions : List Motion,
      (∀ (α : Type) [Scalar α], ∃ grammar : Grammar α, Catalogue.get? "hilbert" = some grammar ∧
        (Request.mk grammar grammar.seed n (Scalar.ofInt 90)).expansion.result =
          .ok (Motion.script (Scalar.ofInt 90) motions)) ∧
      (let script : Script Float := Motion.script (Scalar.ofInt 90) motions
       script.size = (10 * 4 ^ n - 7) / 3 ∧ script.drawCount = 4 ^ n - 1 ∧
        ∀ d ∈ script.drawnDistances, d = Scalar.ofInt 20) ∧
      let walk := (Turtle.new Pose.origin).walk (Motion.script (Scalar.ofInt 90) motions) (1 : K)
      let points := Pose.origin.point :: walk.steps.toList.map Step.stop
      points.Nodup ∧
        (∀ p : Point K, p ∈ points ↔
          ∃ i < 2 ^ n, ∃ j < 2 ^ n, p = ⟨20 * (i : ℕ), 20 * (j : ℕ)⟩) ∧
        walk.turtle.pose = ⟨20 * (2 ^ n - 1), 0, 0⟩ := by
  refine ⟨curve .left n, fun α _ => expansion_eq_curve α hn, ?_, ?_⟩
  · exact script_curve n
  · have htour : Tours 1 (Motion.script (Scalar.ofInt 90) (curve .left n)).toList
        (Pose.origin : Pose K) _ _ := fills turns .left n Pose.origin
    obtain ⟨hpoints, hstop⟩ := htour.walk
    intro walk points
    have hcells : points = (cells n).map fun c => (⟨20 * c.1, 20 * c.2⟩ : Point K) := by
      rw [show points = _ from hpoints]
      exact List.map_congr_left fun c _ => spot_origin turns c.1 c.2
    refine ⟨hcells ▸ nodup_map_cells n, fun p => hcells ▸ mem_map_cells, ?_⟩
    have hheading : (Pose.origin : Pose K).angle = 0 := Int.cast_zero
    rw [show walk.turtle.pose = _ from hstop, spot_origin turns, mul_zero, hheading]
    rfl

end Hilbert

end Quarter

/-! Quarter turns over the rational numbers, where a heading counts as the last quarter passed. -/

namespace Hilbert

section Rational

def quartersPassed (angle : ℚ) : ℤ := ⌊angle / 90⌋ % 4

def quarterCosine (angle : ℚ) : ℚ :=
  if quartersPassed angle = 0 then 1 else if quartersPassed angle = 2 then -1 else 0

def quarterSine (angle : ℚ) : ℚ :=
  if quartersPassed angle = 1 then 1 else if quartersPassed angle = 3 then -1 else 0

theorem quartersPassed_add (angle : ℚ) :
    quartersPassed (angle + 90) = (quartersPassed angle + 1) % 4 := by
  have hfloor : ⌊(angle + 90) / 90⌋ = ⌊angle / 90⌋ + 1 := by
    rw [add_div, div_self (by decide), Int.floor_add_one]
  rw [quartersPassed, quartersPassed, hfloor]
  omega

theorem quartersPassed_cases (angle : ℚ) : quartersPassed angle = 0 ∨ quartersPassed angle = 1 ∨
    quartersPassed angle = 2 ∨ quartersPassed angle = 3 := by
  unfold quartersPassed
  omega

local instance quartered : ExactScalar ℚ :=
  { Layout.rightAngled with
    cosine := quarterCosine
    sine := quarterSine }

theorem quarterTurns_quartered : QuarterTurns ℚ where
  cosine_zero := by decide +kernel
  sine_zero := by decide +kernel
  cosine_turned angle := by
    show quarterCosine (angle + 90) = -quarterSine angle
    simp only [quarterCosine, quarterSine, quartersPassed_add]
    rcases quartersPassed_cases angle with h | h | h | h <;> rw [h] <;> decide
  sine_turned angle := by
    show quarterSine (angle + 90) = quarterCosine angle
    simp only [quarterCosine, quarterSine, quartersPassed_add]
    rcases quartersPassed_cases angle with h | h | h | h <;> rw [h] <;> decide

theorem walk_visits_square_twice : QuarterTurns ℚ ∧ 1 ≤ 2 ∧
    ∃ (grammar : Grammar ℚ) (script : Script ℚ), Catalogue.get? "hilbert" = some grammar ∧
      (Request.mk grammar grammar.seed 2 (Scalar.ofInt 90)).expansion.result = .ok script ∧
      let walk := (Turtle.new Pose.origin).walk script 1
      let points := Pose.origin.point :: walk.steps.toList.map Step.stop
      points.Nodup ∧ ⟨40, 60⟩ ∈ points ∧ walk.turtle.pose = ⟨60, 0, 0⟩ := by
  have hturns := quarterTurns_quartered
  refine ⟨hturns, by decide, ?_⟩
  obtain ⟨motions, hexpansion, _, hnodup, hmem, hstop⟩ :=
    walk_visits_square hturns (by decide : 1 ≤ 2)
  obtain ⟨grammar, hgrammar, hscript⟩ := hexpansion ℚ
  refine ⟨grammar, _, hgrammar, hscript, hnodup, (hmem _).2 ⟨2, by decide, 3, by decide, ?_⟩, ?_⟩
  · decide +kernel
  · rw [hstop]
    decide +kernel

end Rational

end Hilbert

end LSystem
