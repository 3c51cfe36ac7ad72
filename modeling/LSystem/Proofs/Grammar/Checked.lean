import LSystem.Grammar.Request
import LSystem.Proofs.Grammar.References
import LSystem.Proofs.Grammar.RuleText
import LSystem.Proofs.Grammar.Uniqueness
import Mathlib.Data.List.Nodup

/-!
# Checked grammars

The check of a grammar looks at each body and at the seed once. It accepts
exactly the grammars whose expansions never fail: at any angle and any depth,
from the name of any rule and from the seed. A request for an accepted grammar
can then fail in one way only: its seed holds a character that is neither
reserved nor the name of a rule, and the leftmost such character is reported.
-/

namespace LSystem

variable {α : Type}

/-- Characters are closed under rules if each of them is reserved or names a rule. -/
def RuleText.Closed (texts : List RuleText) (chars : List Char) : Prop :=
  ∀ c ∈ chars, isReserved c = true ∨ c ∈ texts.map RuleText.name

-- Search alone could find an instance that goes through all characters there are.
instance (texts : List RuleText) (chars : List Char) : Decidable (RuleText.Closed texts chars) :=
  List.decidableBAll (fun c => isReserved c = true ∨ c ∈ texts.map RuleText.name) chars

/-- Whether rules have different names and refer, with the seed, only to each other. -/
def RuleText.Consistent (texts : List RuleText) (seed : List Char) : Prop :=
  (texts.map RuleText.name).Nodup ∧ (∀ text ∈ texts, RuleText.Closed texts text.body) ∧
    RuleText.Closed texts seed

instance (texts : List RuleText) (seed : List Char) :
    Decidable (RuleText.Consistent texts seed) :=
  inferInstanceAs (Decidable (_ ∧ _ ∧ _))

namespace Grammar

/-- The characters that encodings begin with. -/
def firstChars (encodings : List String) : List Char :=
  encodings.filterMap fun encoding => encoding.toList.head?

def ruleNames (grammar : Grammar α) : List Char := firstChars grammar.rules

/-- The characters that a seed may hold: those reserved and the names of rules. -/
def Allows (grammar : Grammar α) (c : Char) : Prop :=
  isReserved c = true ∨ c ∈ grammar.ruleNames

theorem firstChars_eq {encodings : List String} {texts : List RuleText}
    (hread : encodings.mapM RuleText.parse = .ok texts) :
    firstChars encodings = texts.map RuleText.name := by
  induction encodings generalizing texts with
  | nil =>
    cases hread
    rfl
  | cons encoding rest ih =>
    rw [List.mapM_cons] at hread
    obtain ⟨text, htext, hread⟩ := exists_of_bind_eq_ok hread
    obtain ⟨others, hothers, hread⟩ := exists_of_bind_eq_ok hread
    cases hread
    have hfirst : firstChars (encoding :: rest) = text.name :: firstChars rest :=
      List.filterMap_cons_some ((RuleText.name_of_parse htext).1)
    rw [hfirst, ih hothers, List.map_cons]

/-- Rules and a seed that can be read and are consistent. -/
def isConsistent (encodings : List String) (seed : String) : Bool :=
  match encodings.mapM RuleText.parse with
  | .error _ => false
  | .ok texts => decide (RuleText.Consistent texts seed.toList)

theorem exists_texts {encodings : List String} {seed : String}
    (h : isConsistent encodings seed = true) :
    ∃ texts, encodings.mapM RuleText.parse = .ok texts ∧
      RuleText.Consistent texts seed.toList := by
  unfold isConsistent at h
  split at h
  · cases h
  · next texts hread => exact ⟨texts, hread, of_decide_eq_true h⟩

theorem exists_leftmost_stray {grammar : Grammar α} {text : List Char} {c : Char} (hc : c ∈ text)
    (hstray : ¬ grammar.Allows c) : ∃ before name after, text = before ++ name :: after ∧
      (∀ c ∈ before, grammar.Allows c) ∧ ¬ grammar.Allows name := by
  classical
  have hsome : (text.find? fun c => decide (¬ grammar.Allows c)).isSome = true :=
    List.find?_isSome.2 ⟨c, hc, decide_eq_true hstray⟩
  obtain ⟨name, hfind⟩ := Option.isSome_iff_exists.1 hsome
  obtain ⟨hname, before, after, hsplit, hbefore⟩ := List.find?_eq_some_iff_append.1 hfind
  refine ⟨before, name, after, hsplit, fun c hc => ?_, of_decide_eq_true hname⟩
  simpa using hbefore c hc

variable [Scalar α]

omit [Scalar α] in
/-- A character is stray if it is neither reserved nor the name of a rule in the table. -/
theorem stray_eq_false_iff {grammar : Grammar α} {table : RuleTable α}
    (hnames : ∀ c, table.contains c = true ↔ c ∈ grammar.ruleNames) (c : Char) :
    (!isReserved c && !table.contains c) = false ↔ grammar.Allows c := by
  rw [Allows, ← hnames, Bool.and_eq_false_iff, Bool.not_eq_false', Bool.not_eq_false']

omit [Scalar α] in
theorem find?_stray_eq_none_iff {grammar : Grammar α} {table : RuleTable α}
    (hnames : ∀ c, table.contains c = true ↔ c ∈ grammar.ruleNames) {text : List Char} :
    (text.find? fun c => !isReserved c && !table.contains c) = none ↔
      ∀ c ∈ text, grammar.Allows c := by
  rw [List.find?_eq_none]
  constructor
  · intro h c hc
    exact (stray_eq_false_iff hnames c).1 (Bool.not_eq_true _ ▸ h c hc)
  · intro h c hc
    rw [(stray_eq_false_iff hnames c).2 (h c hc)]
    exact Bool.false_ne_true

omit [Scalar α] in
theorem find?_stray_of_split {grammar : Grammar α} {table : RuleTable α}
    (hnames : ∀ c, table.contains c = true ↔ c ∈ grammar.ruleNames)
    {before after : List Char} {name : Char} (hbefore : ∀ c ∈ before, grammar.Allows c)
    (hname : ¬ grammar.Allows name) :
    ((before ++ name :: after).find? fun c => !isReserved c && !table.contains c) = some name := by
  have hstray : (!isReserved name && !table.contains name) = true := by
    rw [← Bool.not_eq_false, stray_eq_false_iff hnames]
    exact hname
  rw [List.find?_append, (find?_stray_eq_none_iff hnames).2 hbefore, Option.none_or]
  exact List.find?_cons_of_pos (p := fun c => !isReserved c && !table.contains c) hstray

theorem contains_iff_mem_ruleNames {grammar : Grammar α} {angle : α} {table : RuleTable α}
    (h : grammar.table angle = .ok table) (c : Char) :
    table.contains c = true ↔ c ∈ grammar.ruleNames := by
  obtain ⟨texts, hread, _, hrules⟩ := RuleTable.exists_texts_of_parse h
  rw [RuleTable.contains_iff, ruleNames, firstChars_eq hread, List.mem_map]
  constructor
  · rintro ⟨rule, hrule, hname⟩
    obtain ⟨text, htext, rfl⟩ := (hrules rule).1 hrule
    exact ⟨text, htext, hname⟩
  · rintro ⟨text, htext, hname⟩
    exact ⟨text.rule angle, (hrules _).2 ⟨text, htext, rfl⟩, hname⟩

theorem exists_table {grammar : Grammar α}
    (h : isConsistent grammar.rules grammar.seed = true) (angle : α) :
    ∃ table, grammar.table angle = .ok table ∧ table.checkReferences = .ok () ∧
      ∀ c, table.contains c = true ↔ c ∈ grammar.ruleNames := by
  obtain ⟨texts, hread, hnames, hbodies, _⟩ := exists_texts h
  obtain ⟨table, htable, hrules⟩ := RuleTable.exists_parse_eq_ok angle hread hnames
  have hcontains : ∀ c, table.contains c = true ↔ c ∈ grammar.ruleNames :=
    contains_iff_mem_ruleNames htable
  refine ⟨table, htable, RuleTable.checkReferences_eq_ok_iff.2 ?_, hcontains⟩
  intro rule hrule
  obtain ⟨text, htext, rfl⟩ := (hrules rule).1 hrule
  rw [RuleText.rule, RuleTable.undefinedIn?_ofText]
  refine (find?_stray_eq_none_iff hcontains).2 fun c hc => ?_
  rw [Allows, ruleNames, firstChars_eq hread]
  exact hbodies text htext c hc

/-! ### The check -/

theorem check_eq_ok_iff {grammar : Grammar α} :
    grammar.check = .ok () ↔ ∃ table, grammar.table grammar.angle = .ok table ∧
      table.checkReferences = .ok () ∧ undefinedInSeed? table grammar.seed = none := by
  constructor
  · intro h
    obtain ⟨table, htable, h⟩ := exists_of_bind_eq_ok h
    obtain ⟨⟨⟩, hchecked, h⟩ := exists_of_bind_eq_ok h
    refine ⟨table, htable, hchecked, ?_⟩
    cases hseed : undefinedInSeed? table grammar.seed with
    | none => rfl
    | some name =>
      rw [hseed] at h
      cases h
  · rintro ⟨table, htable, hchecked, hseed⟩
    rw [check, htable]
    show table.checkReferences.bind _ = _
    rw [hchecked]
    simp only [Except.bind, hseed]
    rfl

/-- What the check finds at the grammar's own angle is said by the texts of the rules alone. -/
theorem check_eq_ok_iff_isConsistent {grammar : Grammar α} :
    grammar.check = .ok () ↔ isConsistent grammar.rules grammar.seed = true := by
  constructor
  · intro h
    obtain ⟨table, htable, hchecked, hseed⟩ := check_eq_ok_iff.1 h
    obtain ⟨texts, hread, hnames, hrules⟩ := RuleTable.exists_texts_of_parse htable
    have hclosed : ∀ chars : List Char,
        (chars.find? fun c => !isReserved c && !table.contains c) = none →
          RuleText.Closed texts chars := by
      intro chars hdefined
      have hallows := (find?_stray_eq_none_iff (contains_iff_mem_ruleNames htable)).1 hdefined
      rw [RuleText.Closed, ← firstChars_eq hread]
      exact hallows
    have hbodies : ∀ text ∈ texts, RuleText.Closed texts text.body := by
      intro text htext
      have hbody := RuleTable.checkReferences_eq_ok_iff.1 hchecked _
        ((hrules (text.rule grammar.angle)).2 ⟨text, htext, rfl⟩)
      rw [RuleText.rule, RuleTable.undefinedIn?_ofText] at hbody
      exact hclosed text.body hbody
    simp only [isConsistent, hread]
    exact decide_eq_true ⟨hnames, hbodies, hclosed grammar.seed.toList hseed⟩
  · intro h
    obtain ⟨table, htable, hchecked, hnames⟩ := exists_table h grammar.angle
    obtain ⟨texts, hread, _, _, hseed⟩ := exists_texts h
    refine check_eq_ok_iff.2 ⟨table, htable, hchecked, ?_⟩
    refine (find?_stray_eq_none_iff hnames).2 fun c hc => ?_
    rw [Allows, ruleNames, firstChars_eq hread]
    exact hseed c hc

theorem allows_of_mem_seed {grammar : Grammar α} (h : grammar.check = .ok ()) :
    ∀ c ∈ grammar.seed.toList, grammar.Allows c := by
  obtain ⟨table, htable, _, hseed⟩ := check_eq_ok_iff.1 h
  exact (find?_stray_eq_none_iff (contains_iff_mem_ruleNames htable)).1 hseed

/-! ### Requests for checked grammars -/

theorem exists_expansion_eq_ok {grammar : Grammar α} (h : grammar.check = .ok ()) {seed : String}
    (hseed : ∀ c ∈ seed.toList, grammar.Allows c) (iterations : Nat) (angle : α) :
    ∃ script, (Request.mk grammar seed iterations angle).expansion.result = .ok script := by
  obtain ⟨table, htable, hchecked, hnames⟩ :=
    exists_table (check_eq_ok_iff_isConsistent.1 h) angle
  simp only [Request.expansion, htable]
  exact Expansion.exists_expand_eq_ok hchecked ((find?_stray_eq_none_iff hnames).2 hseed) angle
    iterations

theorem expansion_of_stray {grammar : Grammar α} (h : grammar.check = .ok ()) {seed : String}
    {before after : List Char} {name : Char} (hsplit : seed.toList = before ++ name :: after)
    (hbefore : ∀ c ∈ before, grammar.Allows c) (hname : ¬ grammar.Allows name)
    (iterations : Nat) (angle : α) :
    (Request.mk grammar seed iterations angle).expansion.result =
      .error (.undefinedRule name) := by
  obtain ⟨table, htable, _, hnames⟩ :=
    exists_table (check_eq_ok_iff_isConsistent.1 h) angle
  have hundefined : undefinedInSeed? table seed = some name := by
    rw [undefinedInSeed?, hsplit]
    exact find?_stray_of_split hnames hbefore hname
  simp only [Request.expansion, htable]
  exact Expansion.expand_of_undefined hundefined angle iterations

/-- A request for a checked grammar is answered unless its seed holds a stray character. -/
theorem figure_of_check {grammar : Grammar α} (h : grammar.check = .ok ()) (seed : String)
    (iterations : Nat) (angle : α) (viewport : Viewport α) :
    let answer := (Request.mk grammar seed iterations angle).figure viewport
    ((∀ c ∈ seed.toList, grammar.Allows c) ∧ ∃ figure, answer = .ok figure) ∨
      ∃ before name after, seed.toList = before ++ name :: after ∧
        (∀ c ∈ before, grammar.Allows c) ∧ ¬ grammar.Allows name ∧
        answer = .error (.undefinedRule name) := by
  intro answer
  by_cases hall : ∀ c ∈ seed.toList, grammar.Allows c
  · obtain ⟨script, hscript⟩ := exists_expansion_eq_ok h hall iterations angle
    refine .inl ⟨hall, Request.place viewport script, ?_⟩
    simp only [answer, Request.figure, hscript, Except.map]
  · simp only [not_forall] at hall
    obtain ⟨c, hc, hstray⟩ := hall
    obtain ⟨before, name, after, hsplit, hbefore, hname⟩ := exists_leftmost_stray hc hstray
    refine .inr ⟨before, name, after, hsplit, hbefore, hname, ?_⟩
    simp only [answer, Request.figure, Except.map,
      expansion_of_stray h hsplit hbefore hname iterations angle]

end Grammar

namespace RuleTable

/-! ### Expansions of single names -/

variable [Scalar α]

theorem exists_expand_singleton_eq_ok {table : RuleTable α}
    (checked : table.checkReferences = .ok ()) {name : Char} (hname : table.contains name = true)
    (angle : α) (iterations : Nat) :
    ∃ script, Expansion.expand table angle (String.singleton name) iterations = .ok script := by
  refine Expansion.exists_expand_eq_ok checked ?_ angle iterations
  rw [Grammar.undefinedInSeed?, String.toList_singleton, List.find?_singleton, hname, Bool.not_true,
    Bool.and_false, if_neg Bool.false_ne_true]

/-- One depth and one angle for each name are enough to find out what a body refers to. -/
theorem checkReferences_of_expand {angle : α} {encodings : List String} {table : RuleTable α}
    (parsed : parse angle encodings = .ok table)
    (h : ∀ name, table.contains name = true → ∃ (turn : α) (iterations : Nat) (script : Script α),
      Expansion.expand table turn (String.singleton name) iterations = .ok script) :
    table.checkReferences = .ok () := by
  refine checkReferences_eq_ok_iff.2 fun rule hrule => ?_
  have hcontains : table.contains rule.name = true := contains_iff.2 ⟨rule, hrule, rfl⟩
  obtain ⟨turn, iterations, script, hscript⟩ := h rule.name hcontains
  cases hbody : table.undefinedIn? rule.body with
  | none => rfl
  | some other =>
    have herror := Expansion.expand_singleton_of_undefined
      (isReserved_of_contains parsed hcontains) (get?_of_mem hrule) hbody turn iterations
    rw [hscript] at herror
    cases herror

/-- The characters that do not keep an expansion with this table from going on: those reserved and
the names of its rules. -/
def Allows (table : RuleTable α) (c : Char) : Prop := isReserved c = true ∨ table.contains c = true

theorem allows_iff {grammar : Grammar α} {angle : α} {table : RuleTable α}
    (h : grammar.table angle = .ok table) {c : Char} : table.Allows c ↔ grammar.Allows c := by
  rw [Allows, Grammar.Allows, Grammar.contains_iff_mem_ruleNames h]

end RuleTable

namespace Grammar

variable [Scalar α]

/-- The one look at every body tells about all expansions: a table passes it exactly when its names
can be expanded at every angle and depth, and it does already if each name can be at one. A grammar
passes its check exactly when its rules make such a table and its seed can be expanded. Then, at
any angle, a request with any seed is answered exactly when all characters of the seed are reserved
or names of rules, and if not the leftmost that is neither is reported. -/
theorem check_decides_expansion :
    (∀ (angle : α) (encodings : List String) (table : RuleTable α),
      RuleTable.parse angle encodings = .ok table →
        (table.checkReferences = .ok () ↔ ∀ name, table.contains name = true →
          ∀ (turn : α) (iterations : Nat), ∃ script,
            Expansion.expand table turn (String.singleton name) iterations = .ok script) ∧
        (table.checkReferences = .ok () ↔ ∀ name, table.contains name = true →
          ∃ (turn : α) (iterations : Nat) (script : Script α),
            Expansion.expand table turn (String.singleton name) iterations = .ok script)) ∧
    ∀ grammar : Grammar α,
      (grammar.check = .ok () ↔ ∃ table, grammar.table grammar.angle = .ok table ∧
        table.checkReferences = .ok () ∧ ∀ iterations, ∃ script,
          Expansion.expand table grammar.angle grammar.seed iterations = .ok script) ∧
      (grammar.check = .ok () ↔ ∃ table, grammar.table grammar.angle = .ok table ∧
        table.checkReferences = .ok () ∧ ∃ iterations script,
          Expansion.expand table grammar.angle grammar.seed iterations = .ok script) ∧
      (grammar.check = .ok () → ∀ table, grammar.table grammar.angle = .ok table →
        ∀ (seed : String) (iterations : Nat) (angle : α) (viewport : Viewport α),
          let answer := (Request.mk grammar seed iterations angle).figure viewport
          ((∃ figure, answer = .ok figure) ↔ ∀ c ∈ seed.toList, table.Allows c) ∧
          ((∃ c ∈ seed.toList, ¬ table.Allows c) → ∃ before name after,
            seed.toList = before ++ name :: after ∧ (∀ c ∈ before, table.Allows c) ∧
            ¬ table.Allows name ∧ answer = .error (.undefinedRule name) ∧
            (Error.undefinedRule name).kind = .configuration)) := by
  refine ⟨fun angle encodings table parsed => ⟨⟨?_, ?_⟩, ⟨?_, ?_⟩⟩, fun grammar =>
    ⟨?_, ?_, ?_⟩⟩
  · intro checked name hname turn iterations
    exact RuleTable.exists_expand_singleton_eq_ok checked hname turn iterations
  · intro h
    exact RuleTable.checkReferences_of_expand parsed fun name hname =>
      ⟨angle, 1, h name hname angle 1⟩
  · intro checked name hname
    exact ⟨angle, 1, RuleTable.exists_expand_singleton_eq_ok checked hname angle 1⟩
  · intro h
    exact RuleTable.checkReferences_of_expand parsed h
  · rw [check_eq_ok_iff]
    refine exists_congr fun table => and_congr_right fun _ => and_congr_right fun checked => ?_
    simp only [Expansion.exists_expand_eq_ok_iff checked, forall_const]
  · rw [check_eq_ok_iff]
    refine exists_congr fun table => and_congr_right fun _ => and_congr_right fun checked => ?_
    simp only [Expansion.exists_expand_eq_ok_iff checked, exists_const]
  · intro h table htable seed iterations angle viewport answer
    simp only [RuleTable.allows_iff htable]
    rcases figure_of_check h seed iterations angle viewport with
      ⟨hall, figure, hfigure⟩ | ⟨before, name, after, hsplit, hbefore, hname, herror⟩
    · refine ⟨⟨fun _ => hall, fun _ => ⟨figure, hfigure⟩⟩, ?_⟩
      rintro ⟨c, hc, hstray⟩
      exact absurd (hall c hc) hstray
    · refine ⟨⟨?_, ?_⟩, fun _ => ⟨before, name, after, hsplit, hbefore, hname, herror, rfl⟩⟩
      · rintro ⟨figure, hfigure⟩
        cases hfigure.symm.trans herror
      · intro hall
        refine absurd (hall name ?_) hname
        rw [hsplit]
        exact List.mem_append_right _ (List.mem_cons_self ..)

/-- Two rules that refer to themselves and to each other, one of them inside a branch. -/
def hedge : Grammar Float where
  name := "hedge"
  rules := ["a:b[+a]:1", "b::2"]
  seed := "ab"
  iterations := 3
  angle := 30

theorem check_decides_expansion_hedge :
    hedge.check = .ok () ∧ ∃ table, RuleTable.parse hedge.angle hedge.rules = .ok table ∧
      table.contains 'a' = true ∧ table.checkReferences = .ok () ∧
      (∀ turn iterations, ∃ script,
        Expansion.expand table turn (String.singleton 'a') iterations = .ok script) ∧
      ∀ iterations angle viewport, ∃ before name after,
        "[a]cbd".toList = before ++ name :: after ∧ (∀ c ∈ before, table.Allows c) ∧
        ¬ table.Allows name ∧
        (Request.mk hedge "[a]cbd" iterations angle).figure viewport =
          .error (.undefinedRule name) := by
  have hcheck : hedge.check = .ok () := by decide +kernel
  cases htable : RuleTable.parse hedge.angle hedge.rules with
  | error e =>
    have hok : (RuleTable.parse hedge.angle hedge.rules).isOk = true := by decide +kernel
    rw [htable] at hok
    cases hok
  | ok table =>
    have hnames : (RuleTable.parse hedge.angle hedge.rules).toOption.map
        (fun table => (table.contains 'a', table.contains 'c')) = some (true, false) := by
      decide +kernel
    rw [htable] at hnames
    obtain ⟨ha, hc⟩ := Prod.mk.inj (Option.some.inj hnames)
    have hstray : ¬ table.Allows 'c' := by
      rw [RuleTable.Allows, hc]
      decide
    obtain ⟨hparsed, hgrammar⟩ := check_decides_expansion (α := Float)
    obtain ⟨made, hmade, hchecked, _⟩ := (hgrammar hedge).1.1 hcheck
    cases htable.symm.trans hmade
    have hexpands := (hparsed _ _ table htable).1.1 hchecked 'a' ha
    refine ⟨hcheck, table, rfl, ha, hchecked, hexpands, ?_⟩
    intro iterations angle viewport
    obtain ⟨before, name, after, hsplit, hbefore, hname, herror, _⟩ :=
      ((hgrammar hedge).2.2 hcheck table htable "[a]cbd" iterations angle viewport).2
        ⟨'c', by decide, hstray⟩
    exact ⟨before, name, after, hsplit, hbefore, hname, herror⟩

end Grammar

end LSystem
