import LSystem.Proofs.Animation.Session
import Mathlib.Order.Bounds.Basic

/-!
# Batches of ticks

A call of many ticks does what that many single ticks do, up to the first one
after which it cannot go on: the predicate holds, no tick is left, or the tick
was refused. This is so for every player and every surface, and also when runs
take steps between the ticks.
-/

namespace LSystem

variable {α σ : Type}

/-! ### Ends of batches -/

section Ends

variable {S : Type}

/-- How a batch of at most so many ticks ends, where `single` tells what the last of a number of
single ticks comes to. -/
inductive BatchEnds (stop : S → Bool) (single : Nat → Outcome σ S Phase) (most : Nat) :
    Outcome σ S Nat → Prop
  | stopped {r : Nat} (ticks : ∀ k ≤ r, (single k).result.isOk = true)
    (first : IsLeast {k | 1 ≤ k ∧ k ≤ most ∧ stop (single k).actor = true} r) :
    BatchEnds stop single most ⟨(single r).surface, (single r).actor, .ok r⟩
  | exhausted (ticks : ∀ k ≤ most, (single k).result.isOk = true)
    (never : ∀ k, 1 ≤ k → k ≤ most → stop (single k).actor = false) :
    BatchEnds stop single most ⟨(single most).surface, (single most).actor, .ok most⟩
  | refused {r : Nat} {e : Error} (inside : 1 ≤ r ∧ r ≤ most)
    (ticks : ∀ k < r, (single k).result.isOk = true)
    (never : ∀ k, 1 ≤ k → k < r → stop (single k).actor = false)
    (refuses : (single r).result = .error e) :
    BatchEnds stop single most ⟨(single r).surface, (single r).actor, .error e⟩

/-- The outcome behind so many ticks made before. -/
def Outcome.behind (outcome : Outcome σ S Nat) (ran : Nat) : Outcome σ S Nat :=
  { outcome with result := outcome.result.map (ran + ·) }

theorem Outcome.behind_zero (outcome : Outcome σ S Nat) : outcome.behind 0 = outcome := by
  obtain ⟨surface, actor, result⟩ := outcome
  cases result with
  | error e => rfl
  | ok r => simp only [behind, Except.map, Nat.zero_add]

variable {stop other : S → Bool} {single : Nat → Outcome σ S Phase} {most : Nat}
  {outcome : Outcome σ S Nat}

/-- After the tick of this number a batch cannot go on. -/
def LastTick (stop : S → Bool) (single : Nat → Outcome σ S Phase) (most k : Nat) : Prop :=
  k = most ∨ 1 ≤ k ∧ ((single k).result.isOk = false ∨ stop (single k).actor = true)

theorem isLeast_lastTick {r : Nat} (hlast : LastTick stop single most r) (hmost : r ≤ most)
    (ticks : ∀ k < r, (single k).result.isOk = true)
    (never : ∀ k, 1 ≤ k → k < r → stop (single k).actor = false) :
    IsLeast {k | LastTick stop single most k} r := by
  refine ⟨hlast, ?_⟩
  rintro k (rfl | ⟨hk, hfails | hstops⟩)
  · exact hmost
  · by_contra hlt
    rw [ticks k (not_le.1 hlt)] at hfails
    cases hfails
  · by_contra hlt
    rw [never k hk (not_le.1 hlt)] at hstops
    cases hstops

theorem map_const_of_isOk {result : Except Error Phase} (h : result.isOk = true) (r : Nat) :
    result.map (fun _ => r) = .ok r := by
  cases result with
  | error e => cases h
  | ok phase => rfl

/-- All three ends are told by the number of the last tick and what that tick comes to. -/
theorem BatchEnds.exists_last (h : BatchEnds stop single most outcome) :
    ∃ r, IsLeast {k | LastTick stop single most k} r ∧
      outcome = ⟨(single r).surface, (single r).actor, (single r).result.map fun _ => r⟩ := by
  cases h with
  | @stopped r ticks first =>
    obtain ⟨⟨hpos, hmost, hstop⟩, hleast⟩ := first
    have never : ∀ k, 1 ≤ k → k < r → stop (single k).actor = false := by
      intro k hk hkr
      by_contra hstops
      exact not_le.2 hkr (hleast ⟨hk, hkr.le.trans hmost, Bool.not_eq_false _ ▸ hstops⟩)
    refine ⟨r, isLeast_lastTick (.inr ⟨hpos, .inr hstop⟩) hmost (fun k hk => ticks k hk.le) never,
      ?_⟩
    rw [map_const_of_isOk (ticks r le_rfl)]
  | exhausted ticks never =>
    refine ⟨most, isLeast_lastTick (.inl rfl) le_rfl (fun k hk => ticks k hk.le)
      (fun k hk hkr => never k hk hkr.le), ?_⟩
    rw [map_const_of_isOk (ticks most le_rfl)]
  | @refused r e inside ticks never refuses =>
    have hfails : (single r).result.isOk = false := by
      rw [refuses]
      rfl
    refine ⟨r, isLeast_lastTick (.inr ⟨inside.1, .inl hfails⟩) inside.2 ticks never, ?_⟩
    rw [refuses]
    rfl

theorem BatchEnds.unique {other : Outcome σ S Nat} (h : BatchEnds stop single most outcome)
    (hother : BatchEnds stop single most other) : outcome = other := by
  obtain ⟨r, hr, rfl⟩ := h.exists_last
  obtain ⟨k, hk, rfl⟩ := hother.exists_last
  rw [hr.unique hk]

/-- A batch that goes on after its first tick ends as the rest of it does, one tick later. -/
theorem BatchEnds.later (hstart : (single 0).result.isOk = true)
    (hstop : stop (single 1).actor = false)
    (h : BatchEnds stop (fun k => single (k + 1)) most outcome) :
    BatchEnds stop single (most + 1) (outcome.behind 1) := by
  have hticks {r : Nat} (ticks : ∀ k < r, (single (k + 1)).result.isOk = true) :
      ∀ k < r + 1, (single k).result.isOk = true := by
    rintro (_ | k) hk
    · exact hstart
    · exact ticks k (Nat.lt_of_succ_lt_succ hk)
  have hnever {r : Nat} (never : ∀ k, 1 ≤ k → k < r → stop (single (k + 1)).actor = false) :
      ∀ k, 1 ≤ k → k < r + 1 → stop (single k).actor = false := by
    rintro (_ | _ | k) hk hkr
    · exact absurd hk (by omega)
    · exact hstop
    · exact never (k + 1) (by omega) (by omega)
  cases h with
  | @stopped r ticks first =>
    obtain ⟨⟨hpos, hmost, hr⟩, hleast⟩ := first
    rw [Outcome.behind, Except.map, Nat.add_comm 1 r]
    refine .stopped (fun k hk => ?_) ⟨⟨by omega, by omega, hr⟩, ?_⟩
    · exact hticks (r := r + 1) (fun j hj => ticks j (by omega)) k (by omega)
    · rintro (_ | _ | k) ⟨hk, hkmost, hkstop⟩
      · exact absurd hk (by omega)
      · rw [hstop] at hkstop
        cases hkstop
      · exact Nat.succ_le_succ (hleast ⟨by omega, by omega, hkstop⟩)
  | exhausted ticks never =>
    rw [Outcome.behind, Except.map, Nat.add_comm 1 most]
    refine .exhausted (fun k hk => ?_) (fun k hk hkr => ?_)
    · exact hticks (r := most + 1) (fun j hj => ticks j (by omega)) k (by omega)
    · exact hnever (r := most + 1) (fun j hj hjr => never j hj (by omega)) k hk (by omega)
  | @refused r e inside ticks never refuses =>
    exact .refused ⟨by omega, by omega⟩ (hticks ticks) (hnever never) refuses

theorem BatchEnds.ofNone (hstart : (single 0).result.isOk = true) :
    BatchEnds stop single 0 ⟨(single 0).surface, (single 0).actor, .ok 0⟩ := by
  refine .exhausted (fun k hk => ?_) fun k hk hk' => ?_
  · rw [Nat.le_zero.1 hk]
    exact hstart
  · exact absurd hk (Nat.not_le.2 (Nat.lt_succ_of_le hk'))

/-- A batch looks at its first tick, and goes on with the rest unless that was refused or the
predicate holds after it. -/
theorem exists_batchEnds_succ (hstart : (single 0).result.isOk = true) (ran : Nat)
    {rest : Outcome σ S Nat}
    (hrest : (single 1).result.isOk = true →
      ∃ outcome, BatchEnds stop (fun k => single (k + 1)) most outcome ∧
        rest = outcome.behind (ran + 1)) :
    ∃ outcome, BatchEnds stop single (most + 1) outcome ∧
      (match (single 1).result with
        | .error e => (⟨(single 1).surface, (single 1).actor, .error e⟩ : Outcome σ S Nat)
        | .ok _ =>
          if stop (single 1).actor then ⟨(single 1).surface, (single 1).actor, .ok (ran + 1)⟩
          else rest) = outcome.behind ran := by
  have hticks : ∀ k < 1, (single k).result.isOk = true := by
    intro k hk
    rw [Nat.lt_one_iff.1 hk]
    exact hstart
  cases hfirst : (single 1).result with
  | error e =>
    exact ⟨_, .refused ⟨le_rfl, by omega⟩ hticks (fun k hk hk' => absurd hk (by omega)) hfirst, rfl⟩
  | ok phase =>
    have hok : (single 1).result.isOk = true := by
      rw [hfirst]
      rfl
    cases hstop : stop (single 1).actor with
    | true =>
      refine ⟨_, .stopped (r := 1) (fun k hk => ?_) ⟨⟨le_rfl, by omega, hstop⟩, fun k hk => hk.1⟩,
        rfl⟩
      rcases Nat.le_one_iff_eq_zero_or_eq_one.1 hk with rfl | rfl
      · exact hstart
      · exact hok
    | false =>
      obtain ⟨outcome, hends, rfl⟩ := hrest hok
      refine ⟨outcome.behind 1, hends.later hstart hstop, ?_⟩
      cases outcome with
      | mk surface actor result =>
        cases result with
        | error e => rfl
        | ok r =>
          simp only [Outcome.behind, Except.map, Bool.false_eq_true, if_false]
          rw [Nat.add_assoc]

/-- The predicate is asked only after ticks that were not refused. -/
theorem BatchEnds.congr
    (hsame : ∀ k, 1 ≤ k → k ≤ most → (∀ j ≤ k, (single j).result.isOk = true) →
      other (single k).actor = stop (single k).actor)
    (h : BatchEnds stop single most outcome) : BatchEnds other single most outcome := by
  cases h with
  | @stopped r ticks first =>
    obtain ⟨⟨hpos, hmost, hstop⟩, hleast⟩ := first
    refine .stopped ticks ⟨⟨hpos, hmost, (hsame r hpos hmost ticks).trans hstop⟩, ?_⟩
    rintro k ⟨hk, hkmost, hother⟩
    by_contra hlt
    have hks := hsame k hk hkmost fun j hj => ticks j (hj.trans (not_le.1 hlt).le)
    exact hlt (hleast ⟨hk, hkmost, hks.symm.trans hother⟩)
  | exhausted ticks never =>
    refine .exhausted ticks fun k hk hkmost => ?_
    exact (hsame k hk hkmost fun j hj => ticks j (hj.trans hkmost)).trans (never k hk hkmost)
  | @refused r e inside ticks never refuses =>
    refine .refused inside ticks (fun k hk hkr => ?_) refuses
    exact (hsame k hk (hkr.le.trans inside.2) fun j hj => ticks j (hj.trans_lt hkr)).trans
      (never k hk hkr)

end Ends

/-! ### Batches of a player -/

variable [Scalar α] [Surface σ α]

namespace Player

/-- What the last of so many single ticks comes to, each made whatever became of those before. -/
def singleTicks (count : Nat) (player : Player α) (surface : σ) : Outcome σ (Player α) Phase :=
  (fun before => before.actor.tick before.surface)^[count] ⟨surface, player, .ok player.phase⟩

theorem tick_of_isOk {player : Player α} {surface : σ}
    (h : (player.tick surface).result.isOk = true) :
    player.tick surface = ⟨(player.tick surface).surface, (player.tick surface).actor,
      .ok (player.tick surface).actor.phase⟩ := by
  have hresult : (player.tick surface).result = .ok (player.tick surface).actor.phase := by
    cases hshown : player.shown with
    | false => rw [tick_of_hidden hshown]
    | true =>
      by_cases idle : ∀ animation, ¬ player.collect.Animates animation
      · rw [tick_of_idle hshown idle] at h ⊢
        rcases Surface.perform_cases surface
          { player.collect with ticks := player.collect.ticks + 1 } player.collect.phase
          [(.clear player.collect.config.style.background, player.collect)] with
          ⟨ha, hr⟩ | ⟨call, hmem, e, ha, hr⟩
        · rw [blank, hr, ha]
        · rw [blank, hr] at h
          cases h
      · obtain ⟨animation, hnot⟩ := Classical.not_forall.1 idle
        rw [tick_of_animates hshown (Classical.not_not.1 hnot)] at h ⊢
        cases hr : (animation.tick surface).result with
        | error e =>
          simp only [animate, hr] at h
          cases h
        | ok stage => simp only [animate, hr]
  rw [← hresult]

theorem singleTicks_succ {player : Player α} {surface : σ}
    (h : (player.tick surface).result.isOk = true) (count : Nat) :
    player.singleTicks (count + 1) surface =
      (player.tick surface).actor.singleTicks count (player.tick surface).surface := by
  rw [singleTicks, Function.iterate_succ_apply]
  exact congrArg _ (tick_of_isOk h)

theorem exists_batchEnds (stop : Player α → Bool) (ran most : Nat) (player : Player α)
    (surface : σ) :
    ∃ outcome, BatchEnds stop (fun k => player.singleTicks k surface) most outcome ∧
      playUntilFrom stop ran most player surface = outcome.behind ran := by
  induction most generalizing ran player surface with
  | zero => exact ⟨_, .ofNone rfl, rfl⟩
  | succ most ih =>
    refine exists_batchEnds_succ rfl ran fun h => ?_
    obtain ⟨outcome, hends, hrest⟩ := ih (ran + 1) (player.tick surface).actor
      (player.tick surface).surface
    refine ⟨outcome, ?_, hrest⟩
    simp only [singleTicks_succ h]
    exact hends

theorem playUntil_eq_iff {stop : Player α → Bool} {most : Nat} {player : Player α} {surface : σ}
    {outcome : Outcome σ (Player α) Nat} :
    player.playUntil stop most surface = outcome ↔
      BatchEnds stop (fun k => player.singleTicks k surface) most outcome := by
  obtain ⟨actual, hends, heq⟩ := exists_batchEnds stop 0 most player surface
  rw [playUntil, heq, actual.behind_zero]
  exact ⟨fun h => h ▸ hends, hends.unique⟩

/-- A call of many ticks comes to what the last of them comes to, or the first that is refused. -/
theorem exists_play_eq (count : Nat) (player : Player α) (surface : σ) :
    ∃ r ≤ count, (∀ k < r, (player.singleTicks k surface).result.isOk = true) ∧
      (r = count ∨ (player.singleTicks r surface).result.isOk = false) ∧
      player.play count surface = player.singleTicks r surface := by
  induction count generalizing player surface with
  | zero => exact ⟨0, le_rfl, fun k hk => absurd hk (Nat.not_lt_zero k), .inl rfl, rfl⟩
  | succ count ih =>
    rw [play]
    cases hfirst : (player.tick surface).result with
    | error e =>
      have hone : player.singleTicks 1 surface = player.tick surface := rfl
      refine ⟨1, Nat.succ_le_succ (Nat.zero_le count), fun k hk => ?_, .inr ?_, ?_⟩
      · rw [Nat.lt_one_iff.1 hk]
        rfl
      · rw [hone, hfirst]
        rfl
      · exact congrArg (Outcome.mk _ _) hfirst.symm
    | ok phase =>
      have hok : (player.tick surface).result.isOk = true := by
        rw [hfirst]
        rfl
      obtain ⟨r, hr, hticks, hlast, heq⟩ := ih (player.tick surface).actor
        (player.tick surface).surface
      simp only [← singleTicks_succ hok] at hticks hlast heq
      refine ⟨r + 1, Nat.succ_le_succ hr, ?_, hlast.imp_left (congrArg (· + 1)), heq⟩
      rintro (_ | k) hk
      · rfl
      · exact hticks k (Nat.lt_of_succ_lt_succ hk)

theorem play_add {first : Nat} {player : Player α} {surface : σ}
    (h : (player.play first surface).result.isOk = true) (rest : Nat) :
    (player.play first surface).actor.play rest (player.play first surface).surface =
      player.play (first + rest) surface := by
  induction first generalizing player surface with
  | zero => rw [Nat.zero_add, play]
  | succ first ih =>
    rw [Nat.add_right_comm, play, play]
    rw [play] at h
    cases hfirst : (player.tick surface).result with
    | error e =>
      simp only [hfirst] at h
      cases h
    | ok phase =>
      simp only [hfirst] at h ⊢
      exact ih h

end Player

/-! ### Batches of a session -/

namespace Session

/-- Single ticks with steps of runs before each, whatever becomes of them; the outcome is that of
the last. -/
def singleTicks (session : Session α) (pauses : List (List Background)) (surface : σ) :
    Outcome σ (Session α) Phase :=
  pauses.foldl (fun before steps => (before.actor.works steps).tick before.surface)
    ⟨surface, session, .ok session.player.phase⟩

theorem singleTicks_cons {session : Session α} {steps : List Background} {surface : σ}
    (h : ((session.works steps).tick surface).result.isOk = true)
    (pauses : List (List Background)) :
    session.singleTicks (steps :: pauses) surface =
      ((session.works steps).tick surface).actor.singleTicks pauses
        ((session.works steps).tick surface).surface := by
  have hphase : ((session.works steps).tick surface).result =
      .ok ((session.works steps).tick surface).actor.player.phase :=
    congrArg Outcome.result (Player.tick_of_isOk h)
  rw [singleTicks, List.foldl_cons, singleTicks, ← hphase]

theorem exists_batchEnds (stop : Player α → Bool) (ran : Nat) (pauses : List (List Background))
    (session : Session α) (surface : σ) :
    ∃ outcome, BatchEnds (fun after => stop after.player)
        (fun k => session.singleTicks (pauses.take k) surface) pauses.length outcome ∧
      session.playUntilFrom stop ran pauses surface = outcome.behind ran := by
  induction pauses generalizing ran session surface with
  | nil => exact ⟨_, .ofNone rfl, rfl⟩
  | cons steps pauses ih =>
    refine exists_batchEnds_succ rfl ran fun h => ?_
    obtain ⟨outcome, hends, hrest⟩ := ih (ran + 1) ((session.works steps).tick surface).actor
      ((session.works steps).tick surface).surface
    refine ⟨outcome, ?_, hrest⟩
    simp only [List.take_succ_cons, singleTicks_cons h]
    exact hends

theorem playUntilFrom_eq_iff {stop : Player α → Bool} {pauses : List (List Background)}
    {session : Session α} {surface : σ} {outcome : Outcome σ (Session α) Nat} :
    session.playUntilFrom stop 0 pauses surface = outcome ↔
      BatchEnds (fun after => stop after.player)
        (fun k => session.singleTicks (pauses.take k) surface) pauses.length outcome := by
  obtain ⟨actual, hends, heq⟩ := exists_batchEnds stop 0 pauses session surface
  rw [heq, actual.behind_zero]
  exact ⟨fun h => h ▸ hends, hends.unique⟩

end Session

/-! ### Batches and single ticks -/

namespace Player

/-- A call of many ticks leaves player and surface as single ticks do that are as many as it says it
made, or that end with the one it was refused, and it asks its predicate only after ticks that were
not refused. Two calls in a row do what one call of all the ticks does. Steps of runs between the
ticks change nothing of this, if they come between the single ticks, too. -/
theorem batches_agree_with_ticks (player : Player α) (surface : σ) :
    let single := fun count => player.singleTicks count surface
    (∀ stop most outcome, player.playUntil stop most surface = outcome ↔
      BatchEnds stop single most outcome) ∧
    (∀ stop other most,
      (∀ k, 1 ≤ k → k ≤ most → (∀ j ≤ k, (single j).result.isOk = true) →
        other (single k).actor = stop (single k).actor) →
      player.playUntil other most surface = player.playUntil stop most surface) ∧
    (∀ count, ∃ r ≤ count, (∀ k < r, (single k).result.isOk = true) ∧
      (r = count ∨ (single r).result.isOk = false) ∧ player.play count surface = single r) ∧
    (∀ first rest, (player.play first surface).result.isOk = true →
      (player.play first surface).actor.play rest (player.play first surface).surface =
        player.play (first + rest) surface) ∧
    ∀ (session : Session α) stop pauses outcome,
      session.playUntilFrom stop 0 pauses surface = outcome ↔
        BatchEnds (fun after => stop after.player)
          (fun count => session.singleTicks (pauses.take count) surface) pauses.length outcome := by
  intro single
  refine ⟨fun stop most outcome => playUntil_eq_iff, fun stop other most hsame => ?_,
    fun count => exists_play_eq count player surface, fun first rest h => play_add h rest,
    fun session stop pauses outcome => Session.playUntilFrom_eq_iff⟩
  exact playUntil_eq_iff.2 ((playUntil_eq_iff.1 rfl).congr hsame)

/-- A player that has no figure to show, on a surface that carries out two calls. -/
def stalled : Player Float where
  config := .default
  width := 10
  height := 10
  phase := .failed
  version := 1
  latest := 1
  pending := none
  animation := none
  error := some .ruleNameLeft
  shown := true
  ticks := 0

def twoCalls : Recorder Float := { refuseAfter := some 2 }

theorem batches_agree_with_ticks_stalled :
    let single := fun count => stalled.singleTicks count twoCalls
    stalled.playUntil (fun player => player.ticks == 2) 5 twoCalls =
        ⟨(single 2).surface, (single 2).actor, .ok 2⟩ ∧
      stalled.playUntil (fun _ => false) 5 twoCalls =
        ⟨(single 3).surface, (single 3).actor, .error (.refused "clear")⟩ ∧
      stalled.playUntil (fun player => player.ticks == 9) 5 twoCalls =
        stalled.playUntil (fun _ => false) 5 twoCalls ∧
      (stalled.play 1 twoCalls).result.isOk = true ∧
      (stalled.play 1 twoCalls).actor.play 1 (stalled.play 1 twoCalls).surface =
        stalled.play 2 twoCalls := by
  intro single
  have hok : ∀ k < 3, (single k).result.isOk = true := by decide
  have hrefused : (single 3).result = .error (.refused "clear") := by rfl
  have hticks : ∀ k < 3, (single k).actor.ticks = k := by decide
  obtain ⟨huntil, hsame, _, hadd, _⟩ := batches_agree_with_ticks stalled twoCalls
  refine ⟨?_, ?_, hsame _ _ 5 ?_, by rfl, hadd 1 1 (by rfl)⟩
  · refine (huntil _ 5 _).2
      (.stopped (fun k hk => hok k (by omega)) ⟨⟨by omega, by omega, rfl⟩, ?_⟩)
    rintro k ⟨hk, _, hstop⟩
    by_contra hlt
    have hk2 := beq_iff_eq.1 hstop
    rw [hticks k (by omega)] at hk2
    omega
  · exact (huntil _ 5 _).2 (.refused ⟨by omega, by omega⟩ hok (fun k _ _ => rfl) hrefused)
  · intro k _ _ hj
    have hk : k < 3 := by
      by_contra hge
      exact absurd ((hj 3 (not_lt.1 hge)).symm.trans (congrArg Except.isOk hrefused)) (by decide)
    have hne : (single k).actor.ticks ≠ 9 := by
      rw [hticks k hk]
      omega
    exact beq_eq_false_iff_ne.2 hne

end Player

end LSystem
