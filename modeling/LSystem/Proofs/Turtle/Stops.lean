import LSystem.Proofs.Turtle.Trace

/-!
# Stops

At which commands of a script a turtle stops, how it heads there and what it
remembers do not depend on where in the plane it is, nor on the scale of its
moves. Two turtles that set out with the same heading are at the same stop after
any number of searches for a step, whatever the scale of each search.
-/

namespace LSystem

namespace Turtle

variable {α : Type}

/-- Two turtles have come equally far in a script, head the same way, now and at every pose they
remember, and have counted and recorded the same. -/
structure SameStop (a b : Turtle α) : Prop where
  cursor : a.cursor = b.cursor
  heading : a.pose.angle = b.pose.angle
  headings : a.stack.map Pose.angle = b.stack.map Pose.angle
  entries : a.entries = b.entries
  exits : a.exits = b.exits
  warnings : a.warnings = b.warnings

theorem SameStop.depth {a b : Turtle α} (h : a.SameStop b) : a.depth = b.depth := by
  have hlength := congrArg List.length h.headings
  rwa [List.length_map, List.length_map] at hlength

/-- Events of one kind; only where a step is drawn may differ. -/
inductive Event.Alike : Event α → Event α → Prop
  | quiet : Alike .quiet .quiet
  | resumed : Alike .resumed .resumed
  | skipped (warning : Warning) : Alike (.skipped warning) (.skipped warning)
  | drawn (start stop start' stop' : Point α) : Alike (.drawn start stop) (.drawn start' stop')

variable [Scalar α] {a b : Turtle α}

theorem SameStop.obey (h : a.SameStop b) (scale scale' : α) (command : Command α) :
    (a.obey scale command).1.SameStop (b.obey scale' command).1 ∧
      (a.obey scale command).2.Alike (b.obey scale' command).2 := by
  obtain ⟨hcursor, hheading, hheadings, hentries, hexits, hwarnings⟩ := h
  have hnext : a.cursor + 1 = b.cursor + 1 := congrArg (· + 1) hcursor
  cases command with
  | move d =>
    cases hzero : Scalar.isZero d with
    | true =>
      simp only [obey_move_zero _ hzero]
      exact ⟨⟨hnext, hheading, hheadings, hentries, hexits, hwarnings⟩, .quiet⟩
    | false =>
      -- A move changes the place and leaves the heading alone.
      simp only [obey_move_nonzero _ hzero]
      exact ⟨⟨hnext, hheading, hheadings, hentries, hexits, hwarnings⟩, .drawn ..⟩
  | turn delta =>
    have hturned : a.pose.angle + delta = b.pose.angle + delta := congrArg (· + delta) hheading
    exact ⟨⟨hnext, hturned, hheadings, hentries, hexits, hwarnings⟩, .quiet⟩
  | enter =>
    have hpushed : (a.pose :: a.stack).map Pose.angle = (b.pose :: b.stack).map Pose.angle := by
      rw [List.map_cons, List.map_cons, hheading, hheadings]
    have hopened : a.entries + 1 = b.entries + 1 := congrArg (· + 1) hentries
    exact ⟨⟨hnext, hheading, hpushed, hopened, hexits, hwarnings⟩, .quiet⟩
  | leave =>
    cases ha : a.stack with
    | nil =>
      have hb : b.stack = [] := by
        rw [ha, List.map_nil] at hheadings
        exact List.map_eq_nil_iff.1 hheadings.symm
      simp only [obey_leave_stray _ ha, obey_leave_stray _ hb, hcursor]
      refine ⟨⟨rfl, hheading, hheadings, hentries, hexits, ?_⟩, .skipped _⟩
      exact congrArg (·.push (.strayLeave b.cursor)) hwarnings
    | cons saved rest =>
      rw [ha, List.map_cons] at hheadings
      obtain ⟨saved', rest', hb, hsaved, hrest⟩ := List.map_eq_cons_iff.1 hheadings.symm
      have hleft : a.exits + 1 = b.exits + 1 := congrArg (· + 1) hexits
      simp only [obey_leave_resumed _ ha, obey_leave_resumed _ hb]
      exact ⟨⟨hnext, hsaved.symm, hrest.symm, hentries, hleft, hwarnings⟩, .resumed⟩

/-- The turtle after a search for a step at each of the scales. -/
def advancedBy (script : Script α) (scales : List α) (turtle : Turtle α) : Turtle α :=
  scales.foldl (fun turtle scale => (turtle.advance script scale).turtle) turtle

theorem advanced_eq_advancedBy (script : Script α) (scale : α) (count : Nat) (turtle : Turtle α) :
    turtle.advanced script scale count = turtle.advancedBy script (List.replicate count scale) := by
  induction count generalizing turtle with
  | zero => rfl
  | succ count ih =>
    rw [advanced, Function.iterate_succ_apply, List.replicate_succ]
    exact ih _

/-- How the other turtle goes on when one of two at the same stop obeys the next command. -/
theorem SameStop.exists_seek {script : Script α} (h : a.SameStop b)
    (hlt : a.cursor < script.size) (scale scale' : α) (resumed : Bool)
    (logged : Array Warning) :
    ∃ next event, (a.obey scale script[a.cursor]).1.SameStop next ∧
      (a.obey scale script[a.cursor]).2.Alike event ∧
      b.seek script scale' resumed logged =
        match event with
        | .drawn start stop => ⟨some ⟨start, stop, resumed⟩, next, logged⟩
        | .resumed => next.seek script scale' true logged
        | .skipped warning => next.seek script scale' resumed (b.log logged warning)
        | .quiet => next.seek script scale' resumed logged := by
  have hlt' : b.cursor < script.size := by rwa [← h.cursor]
  have hcommand : script[b.cursor] = script[a.cursor] := by simp only [h.cursor]
  obtain ⟨hstop, halike⟩ := h.obey scale scale' script[a.cursor]
  rcases hobey : b.obey scale' script[a.cursor] with ⟨next, event⟩
  rw [hobey] at hstop halike
  refine ⟨next, event, hstop, halike, ?_⟩
  cases event <;> rw [seek, dif_pos hlt', hcommand, hobey]

/-- Searches of two turtles at the same stop meet the same events, and so they end alike. -/
theorem sameStop_seek (script : Script α) (scale scale' : α) (a : Turtle α) (resumed : Bool)
    (logged : Array Warning) : ∀ (b : Turtle α) (logged' : Array Warning), a.SameStop b →
      let found := a.seek script scale resumed logged
      let found' := b.seek script scale' resumed logged'
      found.turtle.SameStop found'.turtle ∧
        found.step?.map Step.resumed = found'.step?.map Step.resumed := by
  fun_induction seek script scale a resumed logged with
  | case1 a resumed logged hlt obeyed start stop heq =>
    intro b logged' h
    obtain ⟨next, event, hstop, halike, hseek⟩ := h.exists_seek hlt scale scale' resumed logged'
    have hevent : obeyed.2.Alike event := halike
    rw [heq] at hevent
    cases hevent
    rw [hseek]
    exact ⟨hstop, rfl⟩
  | case2 a resumed logged hlt obeyed heq ih =>
    intro b logged' h
    obtain ⟨next, event, hstop, halike, hseek⟩ := h.exists_seek hlt scale scale' resumed logged'
    have hevent : obeyed.2.Alike event := halike
    rw [heq] at hevent
    cases hevent
    rw [hseek]
    exact ih next _ hstop
  | case3 a resumed logged hlt obeyed warning heq ih =>
    intro b logged' h
    obtain ⟨next, event, hstop, halike, hseek⟩ := h.exists_seek hlt scale scale' resumed logged'
    have hevent : obeyed.2.Alike event := halike
    rw [heq] at hevent
    cases hevent
    rw [hseek]
    exact ih next _ hstop
  | case4 a resumed logged hlt obeyed heq ih =>
    intro b logged' h
    obtain ⟨next, event, hstop, halike, hseek⟩ := h.exists_seek hlt scale scale' resumed logged'
    have hevent : obeyed.2.Alike event := halike
    rw [heq] at hevent
    cases hevent
    rw [hseek]
    exact ih next _ hstop
  | case5 a resumed logged hge =>
    intro b logged' h
    have hge' : ¬ b.cursor < script.size := by rwa [← h.cursor]
    rw [seek, dif_neg hge']
    exact ⟨h, rfl⟩

theorem SameStop.advance (h : a.SameStop b) (script : Script α) (scale scale' : α) :
    (a.advance script scale).turtle.SameStop (b.advance script scale').turtle ∧
      (a.advance script scale).step?.map Step.resumed =
        (b.advance script scale').step?.map Step.resumed :=
  sameStop_seek script scale scale' a false #[] b #[] h

theorem SameStop.advancedBy (h : a.SameStop b) (script : Script α) (scales : List (α × α)) :
    (a.advancedBy script (scales.map Prod.fst)).SameStop
      (b.advancedBy script (scales.map Prod.snd)) := by
  induction scales generalizing a b with
  | nil => exact h
  | cons scale rest ih => exact ih (h.advance script scale.1 scale.2).1

theorem SameStop.advanced (h : a.SameStop b) (script : Script α) (scale scale' : α)
    (count : Nat) :
    (a.advanced script scale count).SameStop (b.advanced script scale' count) := by
  have hby := h.advancedBy script (List.replicate count (scale, scale'))
  rwa [List.map_replicate, List.map_replicate, ← advanced_eq_advancedBy,
    ← advanced_eq_advancedBy] at hby

omit [Scalar α] in
/-- New turtles that set out with one heading are at the same stop, wherever they are. -/
theorem sameStop_new (heading x y x' y' : α) (reports reports' : Bool) :
    ({ start := ⟨x, y, heading⟩, reports } : Turtle α).SameStop
      { start := ⟨x', y', heading⟩, reports := reports' } :=
  ⟨rfl, rfl, rfl, rfl, rfl, rfl⟩

end Turtle

end LSystem
