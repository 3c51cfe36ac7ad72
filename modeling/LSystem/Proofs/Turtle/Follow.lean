import LSystem.Proofs.Turtle.Trace

/-!
# Commands followed

Where a turtle has come to depends only on the commands it has passed. A search
for a step follows the commands up to its new cursor, a walk follows all that
are left, and what is logged on the way are the warnings recorded on the way,
unless the turtle does not report.
-/

namespace LSystem

namespace Turtle

variable {α : Type} [Scalar α]

def follow (scale : α) (commands : List (Command α)) (turtle : Turtle α) : Turtle α :=
  commands.foldl (fun turtle command => (turtle.obey scale command).1) turtle

theorem follow_cons (scale : α) (command : Command α) (rest : List (Command α))
    (turtle : Turtle α) :
    turtle.follow scale (command :: rest) = (turtle.obey scale command).1.follow scale rest := rfl

theorem follow_append (scale : α) (u v : List (Command α)) (turtle : Turtle α) :
    turtle.follow scale (u ++ v) = (turtle.follow scale u).follow scale v :=
  List.foldl_append ..

theorem follow_concat (scale : α) (init : List (Command α)) (command : Command α)
    (turtle : Turtle α) :
    turtle.follow scale (init ++ [command]) = ((turtle.follow scale init).obey scale command).1 := by
  rw [follow_append]
  rfl

/-- A turtle has recorded these warnings since it was another one, and they were logged if it
reports. -/
structure Warned (turtle after : Turtle α) (before logged : Array Warning) : Prop where
  reports : after.reports = turtle.reports
  recorded : ∃ new, after.warnings = turtle.warnings ++ new ∧
    logged = before ++ if turtle.reports then new else #[]

omit [Scalar α] in
theorem Warned.of_eq {turtle after : Turtle α} (logged : Array Warning)
    (hreports : after.reports = turtle.reports) (hwarnings : after.warnings = turtle.warnings) :
    turtle.Warned after logged logged := by
  refine ⟨hreports, #[], ?_, ?_⟩
  · rw [hwarnings, Array.append_empty]
  · rw [ite_self, Array.append_empty]

omit [Scalar α] in
theorem Warned.trans {first second third : Turtle α} {a b c : Array Warning}
    (h : first.Warned second a b) (h' : second.Warned third b c) : first.Warned third a c := by
  obtain ⟨hreports, new, hwarnings, hlogged⟩ := h
  obtain ⟨hreports', new', hwarnings', hlogged'⟩ := h'
  refine ⟨hreports'.trans hreports, new ++ new', ?_, ?_⟩
  · rw [hwarnings', hwarnings, Array.append_assoc]
  · rw [hlogged', hlogged, hreports]
    cases first.reports with
    | false => simp only [Bool.false_eq_true, if_false, Array.append_empty]
    | true => simp only [if_true, Array.append_assoc]

/-- A command that is obeyed records the warning that its event carries, and no other. -/
theorem warned_obey (scale : α) (command : Command α) (turtle : Turtle α)
    (logged : Array Warning) :
    turtle.Warned (turtle.obey scale command).1 logged
      (match (turtle.obey scale command).2 with
      | .skipped warning => turtle.log logged warning
      | _ => logged) := by
  cases command with
  | move d =>
    cases hzero : Scalar.isZero d with
    | true =>
      simp only [obey_move_zero _ hzero]
      exact .of_eq logged rfl rfl
    | false =>
      simp only [obey_move_nonzero _ hzero]
      exact .of_eq logged rfl rfl
  | turn a => exact .of_eq logged rfl rfl
  | enter => exact .of_eq logged rfl rfl
  | leave =>
    cases hstack : turtle.stack with
    | cons saved stack =>
      simp only [obey_leave_resumed _ hstack]
      exact .of_eq logged rfl rfl
    | nil =>
      simp only [obey_leave_stray _ hstack]
      refine ⟨rfl, #[.strayLeave turtle.cursor], ?_, ?_⟩
      · rw [Array.append_singleton]
      · cases hreports : turtle.reports with
        | false => simp only [log, hreports, Bool.false_eq_true, if_false, Array.append_empty]
        | true => simp only [log, hreports, if_true, Array.append_singleton]

/-! ### Searches and walks -/

/-- A turtle has come from another one by following commands of a script, and its warnings were
logged on the way. -/
structure Reaches (script : Script α) (scale : α) (turtle after : Turtle α)
    (before logged : Array Warning) : Prop where
  followed : ∃ passed, turtle.remaining script = passed ++ after.remaining script ∧
    after = turtle.follow scale passed
  warned : turtle.Warned after before logged

variable {script : Script α} {scale : α}

theorem Reaches.refl (turtle : Turtle α) (logged : Array Warning) :
    turtle.Reaches script scale turtle logged logged :=
  ⟨⟨[], rfl, rfl⟩, .of_eq logged rfl rfl⟩

theorem Reaches.trans {first second third : Turtle α} {a b c : Array Warning}
    (h : first.Reaches script scale second a b) (h' : second.Reaches script scale third b c) :
    first.Reaches script scale third a c := by
  obtain ⟨⟨passed, hremaining, hsecond⟩, hwarned⟩ := h
  obtain ⟨⟨passed', hremaining', hthird⟩, hwarned'⟩ := h'
  refine ⟨⟨passed ++ passed', ?_, ?_⟩, hwarned.trans hwarned'⟩
  · rw [hremaining, hremaining', List.append_assoc]
  · rw [follow_append, ← hsecond, hthird]

theorem reaches_obey {turtle : Turtle α} (h : turtle.cursor < script.size) (scale : α)
    (logged : Array Warning) :
    turtle.Reaches script scale (turtle.obey scale script[turtle.cursor]).1 logged
      (match (turtle.obey scale script[turtle.cursor]).2 with
      | .skipped warning => turtle.log logged warning
      | _ => logged) :=
  ⟨⟨[script[turtle.cursor]], remaining_of_lt scale h, rfl⟩, warned_obey ..⟩

theorem reaches_seek (script : Script α) (scale : α) (turtle : Turtle α) (resumed : Bool)
    (logged : Array Warning) :
    let found := turtle.seek script scale resumed logged
    turtle.Reaches script scale found.turtle logged found.logged := by
  fun_induction seek script scale turtle resumed logged with
  | case1 turtle resumed logged h obeyed start stop heq =>
    have hobey := reaches_obey h scale logged
    rwa [heq] at hobey
  | case2 turtle resumed logged h obeyed heq ih =>
    have hobey := reaches_obey h scale logged
    rw [heq] at hobey
    exact hobey.trans ih
  | case3 turtle resumed logged h obeyed warning heq ih =>
    have hobey := reaches_obey h scale logged
    rw [heq] at hobey
    exact hobey.trans ih
  | case4 turtle resumed logged h obeyed heq ih =>
    have hobey := reaches_obey h scale logged
    rw [heq] at hobey
    exact hobey.trans ih
  | case5 turtle resumed logged h => exact .refl turtle logged

theorem reaches_advance (script : Script α) (scale : α) (turtle : Turtle α)
    (logged : Array Warning) :
    let next := turtle.advance script scale
    turtle.Reaches script scale next.turtle logged (logged ++ next.logged) := by
  obtain ⟨hfollowed, hreports, new, hwarnings, hlogged⟩ :=
    reaches_seek script scale turtle false #[]
  rw [Array.empty_append] at hlogged
  refine ⟨hfollowed, hreports, new, hwarnings, ?_⟩
  rw [advance, hlogged]

theorem reaches_advanced (script : Script α) (scale : α) (count : Nat) (turtle : Turtle α) :
    ∃ logged, turtle.Reaches script scale (turtle.advanced script scale count) #[] logged := by
  induction count with
  | zero => exact ⟨#[], .refl turtle #[]⟩
  | succ count ih =>
    obtain ⟨logged, h⟩ := ih
    rw [advanced_succ]
    exact ⟨_, h.trans (reaches_advance script scale _ logged)⟩

theorem reaches_walkOn (script : Script α) (scale : α) (turtle : Turtle α)
    (steps : Array (Step α)) (logged : Array Warning) :
    let walk := turtle.walkOn script scale steps logged
    turtle.Reaches script scale walk.turtle logged walk.logged ∧
      script.size ≤ walk.turtle.cursor := by
  fun_induction walkOn script scale turtle steps logged with
  | case1 turtle steps logged next hnone =>
    exact ⟨reaches_advance script scale turtle logged, size_le_cursor_of_seek_eq_none hnone⟩
  | case2 turtle steps logged next step hsome ih =>
    obtain ⟨hwalk, hend⟩ := ih
    exact ⟨(reaches_advance script scale turtle logged).trans hwalk, hend⟩

/-- A walk follows all the commands that are left. -/
theorem turtle_walk (script : Script α) (scale : α) (turtle : Turtle α) :
    (turtle.walk script scale).turtle = turtle.follow scale (turtle.remaining script) := by
  obtain ⟨⟨passed, hremaining, hturtle⟩, _⟩ := (reaches_walkOn script scale turtle #[] #[]).1
  have hnil := remaining_of_le (reaches_walkOn script scale turtle #[] #[]).2
  rw [hnil, List.append_nil] at hremaining
  rw [hremaining]
  exact hturtle

theorem size_le_cursor_walk (script : Script α) (scale : α) (turtle : Turtle α) :
    script.size ≤ (turtle.walk script scale).turtle.cursor :=
  (reaches_walkOn script scale turtle #[] #[]).2

/-- What a walk logs are the warnings recorded since it began, if the turtle reports. -/
theorem warned_walk (script : Script α) (scale : α) (turtle : Turtle α) :
    turtle.Warned (turtle.walk script scale).turtle #[] (turtle.walk script scale).logged :=
  (reaches_walkOn script scale turtle #[] #[]).1.warned

end Turtle

end LSystem
