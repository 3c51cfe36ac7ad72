import LSystem.Proofs.Config.Failure
import LSystem.Proofs.Grammar.Catalogue
import Mathlib.Order.WellFounded

/-!
# Requirements on a configuration

A configuration has a figure exactly when it meets six requirements. They are
looked at in a fixed order, on the way from the check to the expansion, and the
first one that is not met decides which error is reported.
-/

namespace LSystem

variable {α : Type} [Scalar α]

theorem Paint.isFit_iff {paint : Paint α} : paint.isFit = true ↔
    Scalar.isFinite paint.width = true ∧ Scalar.isPositive paint.width = true :=
  Bool.and_eq_true_iff

theorem Paint.isFit_eq_false_iff {paint : Paint α} : paint.isFit = false ↔
    ¬ (Scalar.isFinite paint.width = true ∧ Scalar.isPositive paint.width = true) := by
  rw [← Bool.not_eq_true, isFit_iff]

inductive Requirement
  | interval
  | headWidth
  | tailWidth
  | angle
  | grammar
  | seed

/-- Place in the order in which requirements are looked at. -/
def Requirement.rank : Requirement → Nat
  | interval => 0
  | headWidth => 1
  | tailWidth => 2
  | angle => 3
  | grammar => 4
  | seed => 5

namespace Config

/-- The number of iterations has no part in any requirement. -/
def Meets (config : Config α) : Requirement → Prop
  | .interval => config.interval ≠ 0
  | .headWidth => Scalar.isFinite config.style.head.width = true ∧
      Scalar.isPositive config.style.head.width = true
  | .tailWidth => Scalar.isFinite config.style.tail.width = true ∧
      Scalar.isPositive config.style.tail.width = true
  | .angle => ∀ angle, config.angle = some angle → Scalar.isFinite angle = true
  | .grammar => ∃ grammar ∈ Catalogue.registered α, grammar.name = config.grammar
  | .seed => ∀ grammar ∈ Catalogue.registered α, grammar.name = config.grammar →
      ∀ seed, config.seed = some seed → ∀ c ∈ seed.toList, grammar.Allows c

/-- The error for a requirement. For the seed it names the leftmost character that it may not
hold. -/
def Reports (config : Config α) : Requirement → Error → Prop
  | .interval, e => e = .intervalZero
  | .headWidth, e => e = .headWidthUnfit
  | .tailWidth, e => e = .tailWidthUnfit
  | .angle, e => e = .angleNotFinite
  | .grammar, e => e = .unknownGrammar config.grammar (Catalogue.names α)
  | .seed, e => ∃ grammar ∈ Catalogue.registered α, grammar.name = config.grammar ∧
      ∃ seed before name after, config.seed = some seed ∧
        seed.toList = before ++ name :: after ∧ (∀ c ∈ before, grammar.Allows c) ∧
        ¬ grammar.Allows name ∧ e = .undefinedRule name

/-- The error for the first requirement that is not met. -/
def FirstFault (config : Config α) (e : Error) : Prop :=
  ∃ unmet : Requirement, ¬ config.Meets unmet ∧
    (∀ earlier : Requirement, earlier.rank < unmet.rank → config.Meets earlier) ∧
    config.Reports unmet e

variable {config : Config α}

theorem exists_reports {unmet : Requirement} (h : ¬ config.Meets unmet) :
    ∃ e, config.Reports unmet e := by
  cases unmet with
  | interval => exact ⟨_, rfl⟩
  | headWidth => exact ⟨_, rfl⟩
  | tailWidth => exact ⟨_, rfl⟩
  | angle => exact ⟨_, rfl⟩
  | grammar => exact ⟨_, rfl⟩
  | seed =>
    simp only [Meets, not_forall] at h
    obtain ⟨grammar, hmem, hname, seed, hseed, c, hc, hstray⟩ := h
    obtain ⟨before, name, after, hsplit, hbefore, hfirst⟩ := grammar.exists_leftmost_stray hc hstray
    exact ⟨_, grammar, hmem, hname, seed, before, name, after, hseed, hsplit, hbefore, hfirst, rfl⟩

theorem meets_or_firstFault (config : Config α) :
    (∀ requirement, config.Meets requirement) ∨ ∃ e, config.FirstFault e := by
  by_cases hall : ∀ requirement, config.Meets requirement
  · exact .inl hall
  · obtain ⟨requirement, hrequirement⟩ := not_forall.1 hall
    obtain ⟨unmet, hunmet, hleast⟩ := (measure Requirement.rank).wf.has_min
      {requirement | ¬ config.Meets requirement} ⟨requirement, hrequirement⟩
    obtain ⟨e, hreports⟩ := exists_reports hunmet
    refine .inr ⟨e, unmet, hunmet, fun earlier hearlier => ?_, hreports⟩
    by_contra hne
    exact hleast earlier hne hearlier

/-! ### The check -/

theorem any_unfit_eq_false_iff : (config.angle.any fun angle => !Scalar.isFinite angle) = false ↔
    config.Meets .angle := by
  simp only [Meets]
  cases config.angle with
  | none => simp
  | some angle => simp

theorem check_eq_ok (h : ∀ requirement : Requirement,
    requirement.rank < Requirement.grammar.rank → config.Meets requirement) :
    config.check = .ok () := by
  have hinterval : config.interval ≠ 0 := h .interval (by decide)
  have hhead := Paint.isFit_iff.2 (h .headWidth (by decide))
  have htail := Paint.isFit_iff.2 (h .tailWidth (by decide))
  have hangle := any_unfit_eq_false_iff.2 (h .angle (by decide))
  simp only [check, hinterval, hhead, htail, hangle, if_false, Bool.not_true, Bool.false_eq_true]

theorem check_eq_error {unmet : Requirement} {e : Error}
    (hrank : unmet.rank < Requirement.grammar.rank) (hunmet : ¬ config.Meets unmet)
    (h : ∀ earlier : Requirement, earlier.rank < unmet.rank → config.Meets earlier)
    (hreports : config.Reports unmet e) : config.check = .error e := by
  have hinterval (hlt : Requirement.interval.rank < unmet.rank) : config.interval ≠ 0 :=
    h .interval hlt
  have hhead (hlt : Requirement.headWidth.rank < unmet.rank) : config.style.head.isFit = true :=
    Paint.isFit_iff.2 (h .headWidth hlt)
  have htail (hlt : Requirement.tailWidth.rank < unmet.rank) : config.style.tail.isFit = true :=
    Paint.isFit_iff.2 (h .tailWidth hlt)
  cases unmet with
  | interval =>
    cases hreports
    rw [check, if_pos (not_not.1 hunmet)]
  | headWidth =>
    cases hreports
    rw [check, if_neg (hinterval (by decide)), Paint.isFit_eq_false_iff.2 hunmet]
    rfl
  | tailWidth =>
    cases hreports
    rw [check, if_neg (hinterval (by decide)), hhead (by decide),
      Paint.isFit_eq_false_iff.2 hunmet]
    rfl
  | angle =>
    have hangle : (config.angle.any fun angle => !Scalar.isFinite angle) = true := by
      rw [← Bool.not_eq_false, any_unfit_eq_false_iff]
      exact hunmet
    cases hreports
    rw [check, if_neg (hinterval (by decide)), hhead (by decide), htail (by decide), hangle]
    rfl
  | grammar => exact absurd hrank (by decide)
  | seed => exact absurd hrank (by decide)

/-! ### The figure -/

theorem figure_of_check_error {e : Error} (h : config.check = .error e) (width height : α) :
    config.figure width height = .error e := by
  refine figure_of_error ?_ width height
  rw [request, h]
  rfl

theorem figure_of_unknown (hcheck : config.check = .ok ())
    (hunknown : (Catalogue.get? config.grammar : Option (Grammar α)) = none) (width height : α) :
    config.figure width height =
      .error (.unknownGrammar config.grammar (Catalogue.names α)) := by
  refine figure_of_error ?_ width height
  rw [request, hcheck]
  show (Catalogue.get config.grammar).bind _ = _
  rw [Catalogue.get, hunknown]
  rfl

theorem figure_of_known (hcheck : config.check = .ok ()) {grammar : Grammar α}
    (hknown : Catalogue.get? config.grammar = some grammar) (width height : α) :
    config.figure width height =
      (Request.mk grammar (config.seed.getD grammar.seed)
        ((config.iterations.map usableIterations).getD grammar.iterations)
        (config.angle.getD grammar.angle)).figure (config.viewport width height) := by
  refine figure_of_ok ?_ width height
  rw [request, hcheck]
  show (Catalogue.get config.grammar).bind _ = _
  rw [Catalogue.get, hknown]
  rfl

theorem get?_eq_none_iff : (Catalogue.get? config.grammar : Option (Grammar α)) = none ↔
    ¬ config.Meets .grammar := by
  rw [Option.eq_none_iff_forall_ne_some]
  simp only [Meets, ne_eq, Catalogue.get?_eq_some_iff, not_exists]

theorem exists_figure_of_meets (h : ∀ requirement, config.Meets requirement) (width height : α) :
    ∃ figure, config.figure width height = .ok figure := by
  have hcheck : config.check = .ok () := check_eq_ok fun requirement _ => h requirement
  obtain ⟨grammar, hmem, hname⟩ := h .grammar
  have hknown := Catalogue.get?_eq_some_iff.2 ⟨hmem, hname⟩
  have hseed : ∀ c ∈ (config.seed.getD grammar.seed).toList, grammar.Allows c := by
    cases hoverride : config.seed with
    | none => exact Grammar.allows_of_mem_seed (Catalogue.check_of_mem_registered hmem)
    | some seed => exact h .seed grammar hmem hname seed hoverride
  obtain ⟨script, hscript⟩ := Grammar.exists_expansion_eq_ok
    (Catalogue.check_of_mem_registered hmem) hseed
    ((config.iterations.map usableIterations).getD grammar.iterations)
    (config.angle.getD grammar.angle)
  rw [figure_of_known hcheck hknown, Request.figure, hscript]
  exact ⟨_, rfl⟩

theorem figure_of_firstFault {e : Error} (h : config.FirstFault e) (width height : α) :
    config.figure width height = .error e := by
  obtain ⟨unmet, hunmet, hearlier, hreports⟩ := h
  by_cases hrank : unmet.rank < Requirement.grammar.rank
  · exact figure_of_check_error (check_eq_error hrank hunmet hearlier hreports) width height
  · have hcheck : config.check = .ok () := check_eq_ok fun requirement hrequirement =>
      hearlier requirement (hrequirement.trans_le (not_lt.1 hrank))
    cases unmet with
    | grammar =>
      cases hreports
      exact figure_of_unknown hcheck (get?_eq_none_iff.2 hunmet) width height
    | seed =>
      obtain ⟨grammar, hmem, hname, seed, before, name, after, hseed, hsplit, hbefore, hstray,
        rfl⟩ := hreports
      have hknown := Catalogue.get?_eq_some_iff.2 ⟨hmem, hname⟩
      rw [figure_of_known hcheck hknown, hseed, Option.getD_some, Request.figure,
        Grammar.expansion_of_stray (Catalogue.check_of_mem_registered hmem) hsplit hbefore hstray]
      rfl
    | interval => exact absurd (by decide) hrank
    | headWidth => exact absurd (by decide) hrank
    | tailWidth => exact absurd (by decide) hrank
    | angle => exact absurd (by decide) hrank

theorem figure_eq_error_iff {e : Error} {width height : α} :
    config.figure width height = .error e ↔ config.FirstFault e := by
  constructor
  · intro h
    rcases config.meets_or_firstFault with hall | ⟨e', hfault⟩
    · obtain ⟨figure, hfigure⟩ := exists_figure_of_meets hall width height
      rw [hfigure] at h
      cases h
    · rw [figure_of_firstFault hfault] at h
      cases h
      exact hfault
  · intro h
    exact figure_of_firstFault h width height

theorem meets_iff_exists_figure {width height : α} : (∀ requirement, config.Meets requirement) ↔
    ∃ figure, config.figure width height = .ok figure := by
  constructor
  · intro h
    exact exists_figure_of_meets h width height
  · rintro ⟨figure, hfigure⟩
    rcases config.meets_or_firstFault with hall | ⟨e, hfault⟩
    · exact hall
    · rw [figure_of_firstFault hfault] at hfigure
      cases hfigure

end Config

end LSystem
