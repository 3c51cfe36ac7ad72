import LSystem.Proofs.Grammar.Checked

/-!
# Grammars of the catalogue

A grammar is registered when it passes its check, and all built-in ones do. So
a lookup by name finds exactly the built-in grammar of that name, and whatever
holds of checked grammars holds of it.
-/

namespace LSystem

variable {α : Type}

namespace Catalogue

variable [Scalar α]

theorem isConsistent_of_mem_builtins {grammar : Grammar α} (h : grammar ∈ builtins α) :
    Grammar.isConsistent grammar.rules grammar.seed = true := by
  simp only [builtins, List.mem_cons, List.not_mem_nil, or_false] at h
  rcases h with rfl | rfl | rfl | rfl | rfl | rfl
  all_goals
    dsimp only
    decide +kernel

theorem check_of_mem_builtins {grammar : Grammar α} (h : grammar ∈ builtins α) :
    grammar.check = .ok () :=
  Grammar.check_eq_ok_iff_isConsistent.2 (isConsistent_of_mem_builtins h)

variable (α) in
/-- The built-in grammars that pass their check. -/
def registered : List (Grammar α) := (builtins α).filter fun grammar => grammar.check.isOk

/-- No built-in grammar is left out. -/
theorem registered_eq_builtins : registered α = builtins α := by
  refine List.filter_eq_self.2 fun grammar h => ?_
  rw [check_of_mem_builtins h]
  rfl

theorem check_of_mem_registered {grammar : Grammar α} (h : grammar ∈ registered α) :
    grammar.check = .ok () :=
  check_of_mem_builtins (List.mem_of_mem_filter h)

theorem nodup_names : (names α).Nodup := by
  show ["dragon", "hilbert", "koch", "plant", "sierpinski", "tree"].Nodup
  decide

theorem mem_and_name_of_get? {name : String} {grammar : Grammar α} (h : get? name = some grammar) :
    grammar ∈ builtins α ∧ grammar.name = name := by
  have hname : (grammar.name == name) = true :=
    List.find?_some (p := fun g : Grammar α => g.name == name) h
  exact ⟨List.mem_of_find?_eq_some h, beq_iff_eq.1 hname⟩

theorem get?_eq_some_iff {name : String} {grammar : Grammar α} :
    get? name = some grammar ↔ grammar ∈ registered α ∧ grammar.name = name := by
  rw [registered_eq_builtins]
  constructor
  · exact mem_and_name_of_get?
  · rintro ⟨hmem, rfl⟩
    have hsome : (get? grammar.name : Option (Grammar α)).isSome = true := by
      rw [get?, List.find?_isSome]
      exact ⟨grammar, hmem, beq_self_eq_true grammar.name⟩
    obtain ⟨found, hfound⟩ := Option.isSome_iff_exists.1 hsome
    obtain ⟨hfoundMem, hname⟩ := mem_and_name_of_get? hfound
    rw [hfound, List.inj_on_of_nodup_map nodup_names hfoundMem hmem hname]

end Catalogue

end LSystem
