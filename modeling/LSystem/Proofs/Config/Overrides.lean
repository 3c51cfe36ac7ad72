import LSystem.Proofs.Config.Field

/-!
# Partial configurations

A text that names some of the fields, in any order and among anything else, is
the usual configuration with just these fields replaced, as far as the check
lets it pass. Unknown members and the order make no difference; a field that is
named twice makes the text malformed.
-/

namespace LSystem.Config

theorem Field.ofKey?_eq_some_iff {key : String} {field : Field} :
    ofKey? key = some field ↔ key = field.key := by
  constructor
  · intro h
    rw [ofKey?] at h
    have hkey := List.find?_some h
    exact (eq_of_beq hkey).symm
  · rintro rfl
    exact ofKey?_key field

theorem Field.key_injective : Function.Injective key := by
  intro field other h
  have hother := ofKey?_key other
  rw [← h, ofKey?_key] at hother
  exact Option.some.inj hother

/-! ### Members that belong to fields -/

def known (members : List (String × Json)) : List (String × Json) :=
  members.filter fun member => (Field.ofKey? member.1).isSome

theorem mem_known {members : List (String × Json)} {field : Field} {value : Json} :
    (field.key, value) ∈ known members ↔ (field.key, value) ∈ members := by
  rw [known, List.mem_filter, Field.ofKey?_key, Option.isSome_some, and_iff_left rfl]

theorem known_cons_of_none {key : String} (h : Field.ofKey? key = none) (value : Json)
    (rest : List (String × Json)) : known ((key, value) :: rest) = known rest := by
  rw [known, List.filter_cons, h]
  rfl

theorem known_cons_key (field : Field) (value : Json) (rest : List (String × Json)) :
    known ((field.key, value) :: rest) = (field.key, value) :: known rest := by
  rw [known, List.filter_cons, Field.ofKey?_key]
  rfl

theorem count_keys_known (members : List (String × Json)) (field : Field) :
    ((known members).map Prod.fst).count field.key =
      (members.filter fun member => member.1 == field.key).length := by
  rw [List.count, List.countP_map, known, List.countP_filter, ← List.countP_eq_length_filter]
  refine List.countP_congr fun member _ => ?_
  simp only [Function.comp_apply, Bool.and_eq_true, and_iff_left_iff_imp, beq_iff_eq]
  intro hkey
  rw [hkey, Field.ofKey?_key]
  rfl

theorem fieldsOnce_iff {members : List (String × Json)} :
    fieldsOnce members = true ↔ ((known members).map Prod.fst).Nodup := by
  simp only [fieldsOnce, List.all_eq_true, decide_eq_true_eq, ← count_keys_known]
  constructor
  · intro honce
    refine List.nodup_iff_count_le_one.2 fun key => ?_
    by_cases hkey : key ∈ (known members).map Prod.fst
    · obtain ⟨member, hmember, rfl⟩ := List.mem_map.1 hkey
      obtain ⟨field, hfield⟩ := Option.isSome_iff_exists.1 (List.mem_filter.1 hmember).2
      rw [Field.ofKey?_eq_some_iff.1 hfield]
      exact honce field (List.mem_of_find?_eq_some hfield)
    · rw [List.count_eq_zero_of_not_mem hkey]
      exact Nat.zero_le 1
  · intro hnodup field _
    exact List.nodup_iff_count_le_one.1 hnodup field.key

/-! ### Replaced fields -/

variable {α : Type} [NumberText α]

/-- Every field that the members name is written there as they say; the others are those of the
configuration at hand. -/
structure IsOverridden (config : Config α) (members : List (String × Json))
    (other : Config α) : Prop where
  given : ∀ (field : Field) (value : Json), (field.key, value) ∈ members →
    field.WrittenAs (other.get field) value
  kept : ∀ field : Field, (∀ value : Json, (field.key, value) ∉ members) →
    other.get field = config.get field

/-- Every value that a field is given is one that a choice may be written as. -/
def Admissible (α : Type) [NumberText α] (members : List (String × Json)) : Prop :=
  ∀ (field : Field) (value : Json), (field.key, value) ∈ members →
    ∃ config : Config α, field.WrittenAs (config.get field) value

theorem IsOverridden.of_mem_iff {config other : Config α} {members members' : List (String × Json)}
    (hover : IsOverridden config members other)
    (h : ∀ (field : Field) (value : Json),
      (field.key, value) ∈ members ↔ (field.key, value) ∈ members') :
    IsOverridden config members' other := by
  constructor
  · intro field value hmem
    exact hover.given field value ((h field value).2 hmem)
  · intro field habsent
    exact hover.kept field fun value hmem => habsent value ((h field value).1 hmem)

theorem isOverridden_congr {config other : Config α} {members members' : List (String × Json)}
    (h : ∀ (field : Field) (value : Json),
      (field.key, value) ∈ members ↔ (field.key, value) ∈ members') :
    IsOverridden config members other ↔ IsOverridden config members' other :=
  ⟨fun hover => hover.of_mem_iff h,
    fun hover => hover.of_mem_iff fun field value => (h field value).symm⟩

theorem isOverridden_nil {config other : Config α} :
    IsOverridden config [] other ↔ config = other := by
  constructor
  · rintro ⟨_, hkept⟩
    exact ext_get fun field => (hkept field fun _ => List.not_mem_nil).symm
  · rintro rfl
    exact ⟨fun _ _ h => absurd h List.not_mem_nil, fun _ _ => rfl⟩

/-- The first of several members is applied before the others. -/
theorem isOverridden_cons {config other : Config α} {field : Field} {value : Json}
    {rest : List (String × Json)} (hfresh : ∀ value', (field.key, value') ∉ rest) :
    IsOverridden config ((field.key, value) :: rest) other ↔
      ∃ between, config.set? field value = some between ∧ IsOverridden between rest other := by
  simp only [set?_eq_some_iff]
  constructor
  · rintro ⟨hgiven, hkept⟩
    have hwritten := hgiven field value (List.mem_cons_self ..)
    -- In between, this field is the only one that has been taken over from the result.
    refine ⟨other.adopt config field, ⟨?_, ?_⟩, ?_, ?_⟩
    · rw [get_adopt_self]
      exact hwritten
    · intro field' hne
      exact get_adopt_of_ne config other hne
    · intro field' value' hmem
      exact hgiven field' value' (List.mem_cons_of_mem _ hmem)
    · intro field' habsent
      by_cases hfield : field' = field
      · subst hfield
        rw [get_adopt_self]
      · rw [get_adopt_of_ne config other hfield]
        refine hkept field' fun value' hmem => ?_
        rcases List.mem_cons.1 hmem with heq | hmem
        · exact hfield (Field.key_injective (Prod.mk.inj heq).1)
        · exact habsent value' hmem
  · rintro ⟨between, ⟨hwritten, hothers⟩, hgiven, hkept⟩
    refine ⟨?_, ?_⟩
    · intro field' value' hmem
      rcases List.mem_cons.1 hmem with heq | hmem
      · obtain ⟨hkey, rfl⟩ := Prod.mk.inj heq
        cases Field.key_injective hkey
        rw [hkept field hfresh]
        exact hwritten
      · exact hgiven field' value' hmem
    · intro field' habsent
      have hne : field' ≠ field := by
        rintro rfl
        exact habsent value (List.mem_cons_self ..)
      rw [hkept field' fun value' hmem => habsent value' (List.mem_cons_of_mem _ hmem),
        hothers field' hne]

/-- Members of distinct fields are applied exactly if each of them is. -/
theorem setAll?_eq_some_iff {config other : Config α} {members : List (String × Json)}
    (hnodup : ((known members).map Prod.fst).Nodup) :
    config.setAll? members = some other ↔ IsOverridden config members other := by
  induction members generalizing config with
  | nil => rw [setAll?, Option.some.injEq, isOverridden_nil]
  | cons member rest ih =>
    obtain ⟨key, value⟩ := member
    cases hfield : Field.ofKey? key with
    | none =>
      rw [known_cons_of_none hfield] at hnodup
      rw [setAll?_cons_of_none config hfield, ih hnodup]
      refine isOverridden_congr fun field value' => ?_
      rw [← mem_known, ← known_cons_of_none hfield value rest, mem_known]
    | some field =>
      obtain rfl := Field.ofKey?_eq_some_iff.1 hfield
      rw [known_cons_key, List.map_cons, List.nodup_cons] at hnodup
      obtain ⟨hfresh, hnodup⟩ := hnodup
      have habsent : ∀ value', (field.key, value') ∉ rest := by
        intro value' hmem
        have hknown : (field.key, value') ∈ known rest := mem_known.2 hmem
        exact hfresh (List.mem_map.2 ⟨_, hknown, rfl⟩)
      rw [setAll?_cons_key, isOverridden_cons habsent]
      simp only [Option.bind_eq_some_iff, ih hnodup]

/-- Admissible values are accepted, whatever the configuration is that they are put into. -/
theorem exists_setAll? (config : Config α) {members : List (String × Json)}
    (h : Admissible α members) : ∃ other, config.setAll? members = some other := by
  induction members generalizing config with
  | nil => exact ⟨config, rfl⟩
  | cons member rest ih =>
    obtain ⟨key, value⟩ := member
    have hrest : Admissible α rest := fun field value' hmem =>
      h field value' (List.mem_cons_of_mem _ hmem)
    cases hfield : Field.ofKey? key with
    | none =>
      rw [setAll?_cons_of_none config hfield]
      exact ih config hrest
    | some field =>
      obtain rfl := Field.ofKey?_eq_some_iff.1 hfield
      obtain ⟨source, hwritten⟩ := h field value (List.mem_cons_self ..)
      have hset : config.set? field value = some (source.adopt config field) := by
        refine set?_eq_some_iff.2 ⟨?_, fun field' hne => get_adopt_of_ne config source hne⟩
        rw [get_adopt_self]
        exact hwritten
      rw [setAll?_cons_key, hset]
      exact ih (source.adopt config field) hrest

/-! ### Whole texts -/

variable [Scalar α]

/-- Of the members of an object, only those that belong to fields count, in whichever order. -/
theorem ofJson?_eq_of_perm {members members' : List (String × Json)}
    (h : (known members').Perm (known members)) :
    ofJson? (α := α) (.ofMembers members') = ofJson? (.ofMembers members) := by
  rw [ofJson?_ofMembers, ofJson?_ofMembers]
  have honce : fieldsOnce members' = true ↔ fieldsOnce members = true := by
    rw [fieldsOnce_iff, fieldsOnce_iff, (h.map Prod.fst).nodup_iff]
  by_cases hnodup : fieldsOnce members = true
  · rw [if_pos hnodup, if_pos (honce.2 hnodup)]
    refine Option.ext fun config => ?_
    rw [setAll?_eq_some_iff (fieldsOnce_iff.1 hnodup),
      setAll?_eq_some_iff (fieldsOnce_iff.1 (honce.2 hnodup))]
    refine isOverridden_congr fun field value => ?_
    rw [← mem_known, h.mem_iff, mem_known]
  · rw [if_neg hnodup, if_neg (mt honce.1 hnodup)]

/-- An object is read as the usual configuration with the fields that it names replaced, as far as
the check lets this one pass. It may name no field twice; apart from that, neither the order nor
members of other names matter. -/
theorem parse_object {members : List (String × Json)} {text : String}
    (htext : (Json.ofMembers members).IsText text) :
    (((known members).map Prod.fst).Nodup → Admissible α members →
      ∃ config : Config α, (∀ other, IsOverridden default members other ↔ other = config) ∧
        parse text = config.check.map fun _ => config) ∧
    (¬ ((known members).map Prod.fst).Nodup → parse (α := α) text = .error .malformedJson) ∧
    ∀ (members' : List (String × Json)) (text' : String), (Json.ofMembers members').IsText text' →
      (known members').Perm (known members) → parse (α := α) text' = parse text := by
  have hread := parse_of_parse? (α := α) (Json.parse?_of_isText htext)
  refine ⟨?_, ?_, ?_⟩
  · intro hnodup hadmissible
    obtain ⟨config, hconfig⟩ := exists_setAll? default hadmissible
    refine ⟨config, fun other => ?_, ?_⟩
    · rw [← setAll?_eq_some_iff hnodup, hconfig, Option.some.injEq, eq_comm]
    · rw [hread, ofJson?_ofMembers, if_pos (fieldsOnce_iff.2 hnodup), hconfig,
        Option.elim_some]
  · intro hrepeated
    rw [hread, ofJson?_ofMembers, if_neg (mt fieldsOnce_iff.1 hrepeated),
      Option.elim_none]
  · intro members' text' htext' hperm
    rw [hread, parse_of_parse? (Json.parse?_of_isText htext'), ofJson?_eq_of_perm hperm]

/-- Four fields among members of other names, one of which holds fields of its own. -/
def scattered : List (String × Json) :=
  [("Iterations", .bool true), ("placement", .ofMembers [("centered", .null)]),
    ("note", .array [.ofMembers [("grammar", .null), ("grammar", .array [])], .ofString "\x7d\",\n"]),
    ("iterations", .ofInt (-3)),
    ("head_color", .ofMembers [("a", .ofInt 255), ("x", .array []), ("b", .ofInt 1),
      ("g", .ofInt 2), ("r", .ofInt 3)]),
    ("", .number { negative := true, whole := 0, exponent := some 400 }),
    ("grammar", .ofString "tree")]

def gathered : Config Float :=
  let style : Style Float := .default
  { default with
    grammar := "tree"
    iterations := some (-3)
    style := { style with head := { style.head with color := ⟨3, 2, 1, 255⟩ } }
    placement := .centered }

theorem parse_object_scattered :
    (Json.ofMembers scattered).IsText (Json.ofMembers scattered).pretty ∧
      ((known scattered).map Prod.fst).Nodup ∧ Admissible Float scattered ∧
      parse (Json.ofMembers scattered).pretty = .ok gathered ∧
      (known (known scattered).reverse).Perm (known scattered) ∧
      parse (Json.ofMembers (known scattered).reverse).compact = .ok gathered ∧
      ¬ ((known (scattered ++ known scattered)).map Prod.fst).Nodup ∧
      parse (α := Float) (Json.ofMembers (scattered ++ known scattered)).compact =
        .error .malformedJson := by
  have htext : (Json.ofMembers scattered).IsText (Json.ofMembers scattered).pretty :=
    Json.spells_pretty (by unfold Json.Writable; decide)
  have hnodup : ((known scattered).map Prod.fst).Nodup := by decide
  have hgathered : IsOverridden default scattered gathered := (setAll?_eq_some_iff hnodup).1 rfl
  have hadmissible : Admissible Float scattered := fun field value hmem =>
    ⟨gathered, hgathered.given field value hmem⟩
  have hcheck : gathered.check = .ok () := by decide +kernel
  have hparse : parse (Json.ofMembers scattered).pretty = .ok gathered := by
    obtain ⟨config, hconfig, hparse⟩ := (parse_object htext).1 hnodup hadmissible
    obtain rfl := (hconfig gathered).1 hgathered
    rw [hparse, hcheck]
    rfl
  have hreversed : (known (known scattered).reverse).Perm (known scattered) :=
    List.reverse_perm (known scattered)
  have hrepeated : ¬ ((known (scattered ++ known scattered)).map Prod.fst).Nodup := by decide
  refine ⟨htext, hnodup, hadmissible, hparse, hreversed, ?_, hrepeated, ?_⟩
  · rw [← hparse]
    exact (parse_object htext).2.2 _ _
      (Json.spells_compact (by unfold Json.Writable; decide)) hreversed
  · exact (parse_object (Json.spells_compact (by unfold Json.Writable; decide))).2.1 hrepeated

end LSystem.Config
