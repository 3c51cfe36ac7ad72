import LSystem.Animation.Basic
import LSystem.Proofs.Turtle.Trace
import Mathlib.Data.List.Induction
import Mathlib.Data.List.SplitBy

/-!
# Trails

An animation draws its trails step by step, at the end of the last path or with
a new one. Seen from the steps they are the longest runs in which no branch is
resumed, one path for each. Since a step that resumes no branch begins where the
one before it ended, the pieces between the points of the paths are the steps.
-/

namespace LSystem

variable {α : Type}

/-- The point that an element of a path leads to. -/
def PathElement.point? : PathElement α → Option (Point α)
  | moveTo p => some p
  | lineTo p => some p
  | quadTo _ stop => some stop
  | curveTo _ _ stop => some stop
  | close => none

namespace Path

/-- The path along the steps of a run. -/
def ofRun : List (Step α) → Path α
  | [] => #[]
  | step :: rest => (.moveTo step.start :: (step :: rest).map fun step => .lineTo step.stop).toArray

theorem ofRun_concat {run : List (Step α)} (h : run ≠ []) (step : Step α) :
    ofRun (run ++ [step]) = (ofRun run).push (.lineTo step.stop) := by
  cases run with
  | nil => exact absurd rfl h
  | cons first rest => simp [ofRun]

def points (path : Path α) : List (Point α) := path.toList.filterMap PathElement.point?

/-- From each point of a path to the next. -/
def pieces (path : Path α) : List (Point α × Point α) := path.points.zip path.points.tail

theorem points_ofRun (step : Step α) (rest : List (Step α)) :
    (ofRun (step :: rest)).points = step.start :: (step :: rest).map Step.stop := by
  have hstops : ∀ run : List (Step α),
      (run.map fun step => PathElement.lineTo step.stop).filterMap PathElement.point? =
        run.map Step.stop := by
    intro run
    induction run with
    | nil => rfl
    | cons step run ih => exact congrArg (step.stop :: ·) ih
  exact congrArg (step.start :: ·) (hstops (step :: rest))

theorem zip_stops {first : Step α} {rest : List (Step α)}
    (h : (first :: rest).IsChain fun step next => next.start = step.stop) :
    ((first :: rest).map Step.stop).zip (rest.map Step.stop) = rest.map Step.ends := by
  induction rest generalizing first with
  | nil => rfl
  | cons second rest ih =>
    obtain ⟨hstart, hrest⟩ := List.isChain_cons_cons.1 h
    have htail := ih hrest
    rw [List.map_cons, List.map_cons, List.zip_cons_cons, ← List.map_cons, htail, ← hstart]
    rfl

theorem pieces_ofRun {run : List (Step α)}
    (h : run.IsChain fun step next => next.start = step.stop) :
    (ofRun run).pieces = run.map Step.ends := by
  cases run with
  | nil => rfl
  | cons first rest =>
    have hrest := zip_stops h
    rw [pieces, points_ofRun, List.tail_cons, List.map_cons, List.zip_cons_cons, ← List.map_cons,
      hrest]
    rfl

end Path

namespace Step

/-- The steps cut before each that resumes a branch. -/
def runs (steps : List (Step α)) : List (List (Step α)) :=
  steps.splitBy fun _ next => !next.resumed

theorem runs_concat_of_resumed (steps : List (Step α)) {step : Step α} (h : step.resumed = true) :
    runs (steps ++ [step]) = runs steps ++ [[step]] := by
  refine List.splitBy_append_cons [] fun last _ => ?_
  rw [h, Bool.not_true]

theorem exists_runs_concat {steps : List (Step α)} (hne : steps ≠ []) {step : Step α}
    (h : step.resumed = false) :
    ∃ closed last, last ≠ [] ∧ runs steps = closed ++ [last] ∧
      runs (steps ++ [step]) = closed ++ [last ++ [step]] := by
  rcases List.eq_nil_or_concat (runs steps) with hnil | ⟨closed, last, hruns⟩
  · exact absurd (List.splitBy_eq_nil.1 hnil) hne
  · rw [List.concat_eq_append] at hruns
    obtain ⟨hflatten, hnonempty, hchains, hcuts⟩ := List.splitBy_eq_iff.1 hruns
    have hlast : last ≠ [] := by
      rintro rfl
      exact hnonempty (by simp)
    refine ⟨closed, last, hlast, hruns, List.splitBy_eq_iff.2 ⟨?_, ?_, ?_, ?_⟩⟩
    · rw [hflatten]
      simp
    · intro hmem
      rcases List.mem_append.1 hmem with hmem | hmem
      · exact hnonempty (List.mem_append_left _ hmem)
      · simp at hmem
    · intro run hrun
      rcases List.mem_append.1 hrun with hrun | hrun
      · exact hchains run (List.mem_append_left _ hrun)
      · rw [List.mem_singleton.1 hrun]
        have hchain := hchains last (List.mem_append_right _ (List.mem_singleton_self last))
        refine hchain.append (.singleton step) fun x _ y hy => ?_
        cases hy
        rw [h, Bool.not_false]
    · obtain ⟨hclosed, _, hcut⟩ := List.isChain_append.1 hcuts
      refine hclosed.append (.singleton _) fun x hx y hy => ?_
      cases hy
      obtain ⟨hxne, _, hresumed⟩ := hcut x hx last rfl
      refine ⟨hxne, by simp, ?_⟩
      rw [List.head_append_of_ne_nil hlast]
      exact hresumed

theorem length_runs (steps : List (Step α)) :
    (runs steps).length =
      if steps = [] then 0 else 1 + steps.tail.countP fun step => step.resumed := by
  induction steps using List.reverseRecOn with
  | nil => rfl
  | append_singleton steps step ih =>
    rw [if_neg (by simp)]
    by_cases hne : steps = []
    · rw [hne]
      rfl
    · rw [if_neg hne] at ih
      rw [List.tail_append_of_ne_nil hne, List.countP_append, List.countP_singleton]
      cases h : step.resumed with
      | true =>
        rw [runs_concat_of_resumed steps h, List.length_append, ih, List.length_singleton]
        simp only [if_true]
        omega
      | false =>
        obtain ⟨closed, last, _, hruns, hruns'⟩ := exists_runs_concat hne h
        rw [hruns, List.length_append] at ih
        rw [hruns', List.length_append]
        simp only [List.length_singleton, Bool.false_eq_true, if_false] at ih ⊢
        omega

/-- Within a run each step goes on from the end of the one before. -/
theorem isChain_of_mem_runs {steps run : List (Step α)}
    (h : steps.IsChain fun step next => next.Follows step) (hrun : run ∈ runs steps) :
    run.IsChain fun step next => next.start = step.stop := by
  have hjoined := List.isChain_of_mem_splitBy hrun
  have hinfix : run <:+: steps := by
    have hflatten := List.infix_of_mem_flatten hrun
    rwa [runs, List.flatten_splitBy] at hflatten
  have hfollows := h.infix hinfix
  rw [List.isChain_iff_getElem] at hjoined hfollows ⊢
  intro i hi
  exact hfollows i hi (by simpa using hjoined i hi)

end Step

/-- The paths along the steps, a new one wherever a branch is resumed. -/
def Path.trails (steps : List (Step α)) : List (Path α) := (Step.runs steps).map ofRun

theorem Path.length_trails (steps : List (Step α)) :
    (trails steps).length =
      if steps = [] then 0 else 1 + steps.tail.countP fun step => step.resumed := by
  rw [trails, List.length_map, Step.length_runs]

/-- The pieces of the trails are the steps, none lost and none made up. -/
theorem Path.flatMap_pieces_trails {steps : List (Step α)}
    (h : steps.IsChain fun step next => next.Follows step) :
    (trails steps).flatMap pieces = steps.map Step.ends := by
  have hpieces : ∀ run ∈ Step.runs steps, (ofRun run).pieces = run.map Step.ends :=
    fun run hrun => pieces_ofRun (Step.isChain_of_mem_runs h hrun)
  have hflatten : (Step.runs steps).flatten = steps := List.flatten_splitBy ..
  calc (trails steps).flatMap pieces
      = (Step.runs steps).flatMap fun run => (ofRun run).pieces := List.flatMap_map ..
    _ = (Step.runs steps).flatMap (List.map Step.ends) := List.flatMap_congr hpieces
    _ = (Step.runs steps).flatten.map Step.ends := List.map_flatten.symm
    _ = steps.map Step.ends := by rw [hflatten]

theorem Path.modify_last (closed : List (Path α)) (last : Path α) (f : Path α → Path α) :
    (closed ++ [last]).modify closed.length f = closed ++ [f last] := by
  induction closed with
  | nil => rfl
  | cons path closed ih => exact congrArg (path :: ·) ih

/-- To draw a step is to have one more step in the trails. -/
theorem Animation.extend_trails (steps : List (Step α)) (step : Step α) :
    extend (Path.trails steps).toArray step = (Path.trails (steps ++ [step])).toArray := by
  have hempty : (Path.trails steps).toArray.isEmpty = decide (steps = []) := by
    rw [Bool.eq_iff_iff]
    simp [Path.trails, Step.runs]
  unfold extend
  rw [hempty]
  by_cases hnew : step.resumed = true ∨ steps = []
  · have hruns : Step.runs (steps ++ [step]) = Step.runs steps ++ [[step]] := by
      rcases hnew with h | h
      · exact Step.runs_concat_of_resumed steps h
      · rw [h]
        rfl
    rw [if_pos (by simpa using hnew), Path.trails, Path.trails, hruns]
    simp [Path.ofRun]
  · obtain ⟨hresumed, hne⟩ := not_or.1 hnew
    obtain ⟨closed, last, hlast, hruns, hruns'⟩ :=
      Step.exists_runs_concat hne (Bool.eq_false_iff.2 hresumed)
    have hmodify := Path.modify_last (closed.map Path.ofRun) (Path.ofRun last)
      fun path => path.push (.lineTo step.stop)
    rw [if_neg (by simpa using hnew), Path.trails, Path.trails, hruns, hruns', List.map_append,
      List.map_append, List.map_singleton, List.map_singleton, Path.ofRun_concat hlast,
      ← hmodify]
    simp

end LSystem
