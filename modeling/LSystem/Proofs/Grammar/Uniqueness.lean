import LSystem.Proofs.Grammar.References
import LSystem.Proofs.Grammar.RuleText
import Mathlib.Data.Finset.Card
import Mathlib.Data.List.Forall2
import Mathlib.Data.List.Nodup

/-!
# Unique names

A table keeps the first rule of each name, whatever is inserted later. Encodings
are inserted one by one as they are read, so they make a table exactly when all
of them can be read and no name is repeated, and then their order plays no part.
The first of them that is malformed or repeats a name decides the error.
-/

namespace LSystem

variable {α : Type}

/-! ### Rules by their names -/

namespace Rule

variable {rules : List (Rule α)} {name : Char} {rule : Rule α}

theorem name_of_find? (h : rules.find? (·.name == name) = some rule) : rule.name = name := by
  have hname := List.find?_some h
  exact beq_iff_eq.1 hname

/-- Where names are different, the first rule of a name is the only one. -/
theorem find?_name_eq_some_iff (h : (rules.map Rule.name).Nodup) :
    rules.find? (·.name == name) = some rule ↔ rule ∈ rules ∧ rule.name = name := by
  constructor
  · intro hfind
    exact ⟨List.mem_of_find?_eq_some hfind, name_of_find? hfind⟩
  · rintro ⟨hmem, rfl⟩
    obtain ⟨first, hfirst⟩ : ∃ first, rules.find? (·.name == rule.name) = some first :=
      Option.isSome_iff_exists.1 (List.find?_isSome.2 ⟨rule, hmem, beq_self_eq_true rule.name⟩)
    rw [hfirst, List.inj_on_of_nodup_map h (List.mem_of_find?_eq_some hfirst) hmem
      (name_of_find? hfirst)]

end Rule

namespace RuleTable

theorem nodup_names (table : RuleTable α) : (table.rules.map Rule.name).Nodup :=
  List.pairwise_map.2 (table.sorted.imp fun hlt => Char.ne_of_lt hlt)

theorem get?_eq_some_iff {table : RuleTable α} {name : Char} {rule : Rule α} :
    table.get? name = some rule ↔ rule ∈ table.rules ∧ rule.name = name :=
  Rule.find?_name_eq_some_iff table.nodup_names

theorem get?_of_mem {table : RuleTable α} {rule : Rule α} (h : rule ∈ table.rules) :
    table.get? rule.name = some rule :=
  get?_eq_some_iff.2 ⟨h, rfl⟩

/-! ### Histories of insertions -/

/-- The table after an attempt to insert a rule. -/
def offer (table : RuleTable α) (rule : Rule α) : RuleTable α :=
  match table.insert rule with
  | .ok next => next
  | .error _ => table

/-- The table that a history of attempts, refused ones included, makes of the empty one. -/
def ofHistory (history : List (Rule α)) : RuleTable α := history.foldl offer empty

/-- The rule was inserted, and not refused, at some time in the history. -/
def Inserted (history : List (Rule α)) (rule : Rule α) : Prop :=
  ∃ earlier later next, history = earlier ++ rule :: later ∧
    (ofHistory earlier).insert rule = .ok next

theorem ofHistory_concat (history : List (Rule α)) (rule : Rule α) :
    ofHistory (history ++ [rule]) = (ofHistory history).offer rule :=
  List.foldl_concat ..

theorem insert_eq_error_iff {table : RuleTable α} {rule : Rule α} {e : Error} :
    table.insert rule = .error e ↔
      table.contains rule.name = true ∧ e = .ruleRepeated rule.name := by
  unfold insert
  split
  · next taken => simp [taken, eq_comm]
  · next fresh => simp [fresh]

theorem exists_insert_eq_ok_iff {table : RuleTable α} {rule : Rule α} :
    (∃ next, table.insert rule = .ok next) ↔ table.get? rule.name = none := by
  rw [← Option.not_isSome_iff_eq_none, isSome_get?]
  constructor
  · rintro ⟨next, hnext⟩ htaken
    cases hnext.symm.trans (insert_eq_error_iff.2 ⟨htaken, rfl⟩)
  · intro hfresh
    exact ⟨_, dif_neg hfresh⟩

theorem offer_of_error {table : RuleTable α} {rule : Rule α} {e : Error}
    (h : table.insert rule = .error e) : table.offer rule = table := by
  rw [offer, h]

theorem offer_of_ok {table next : RuleTable α} {rule : Rule α} (h : table.insert rule = .ok next) :
    table.offer rule = next := by
  rw [offer, h]

theorem offer_eq_self_iff {table : RuleTable α} {rule : Rule α} :
    table.offer rule = table ↔ ∃ e, table.insert rule = .error e := by
  constructor
  · intro h
    cases hinsert : table.insert rule with
    | error e => exact ⟨e, rfl⟩
    | ok next =>
      obtain ⟨hfresh, hmem⟩ := insert_eq_ok hinsert
      rw [offer_of_ok hinsert] at h
      exact absurd rfl (hfresh rule (h ▸ (hmem rule).2 (.inl rfl)))
  · rintro ⟨e, he⟩
    exact offer_of_error he

/-- The rule inserted is found from then on, if no other one was found under its name before. -/
theorem get?_offer (table : RuleTable α) (rule : Rule α) (name : Char) :
    (table.offer rule).get? name = (table.get? name).or ([rule].find? (·.name == name)) := by
  rw [List.find?_singleton]
  cases hinsert : table.insert rule with
  | error e =>
    rw [offer_of_error hinsert]
    split
    · next hname =>
      obtain ⟨found, _, hfound⟩ := exists_get?_of_contains (insert_eq_error_iff.1 hinsert).1
      rw [← beq_iff_eq.1 hname, hfound, Option.some_or]
    · rw [Option.or_none]
  | ok next =>
    obtain ⟨hfresh, hmem⟩ := insert_eq_ok hinsert
    rw [offer_of_ok hinsert]
    split
    · next hname =>
      have hnone := exists_insert_eq_ok_iff.1 ⟨next, hinsert⟩
      rw [← beq_iff_eq.1 hname, hnone, Option.none_or]
      exact get?_of_mem ((hmem rule).2 (.inl rfl))
    · next hname =>
      have hother : rule.name ≠ name := fun h => hname (beq_iff_eq.2 h)
      rw [Option.or_none]
      refine Option.ext fun r => ?_
      rw [get?_eq_some_iff, get?_eq_some_iff, hmem]
      constructor
      · rintro ⟨rfl | hr, hrname⟩
        · exact absurd hrname hother
        · exact ⟨hr, hrname⟩
      · rintro ⟨hr, hrname⟩
        exact ⟨.inr hr, hrname⟩

theorem get?_ofHistory (history : List (Rule α)) (name : Char) :
    (ofHistory history).get? name = history.find? (·.name == name) := by
  induction history using List.reverseRecOn with
  | nil => rfl
  | append_singleton history rule ih =>
    rw [ofHistory_concat, get?_offer, ih, List.find?_append]

theorem contains_ofHistory {history : List (Rule α)} {name : Char} :
    (ofHistory history).contains name = true ↔ name ∈ history.map Rule.name := by
  rw [← isSome_get?, get?_ofHistory, List.find?_isSome, List.mem_map]
  simp only [beq_iff_eq]

theorem size_ofHistory (history : List (Rule α)) :
    (ofHistory history).size = (history.map Rule.name).toFinset.card := by
  have hnames : ((ofHistory history).rules.map Rule.name).toFinset =
      (history.map Rule.name).toFinset := by
    ext name
    rw [List.mem_toFinset, List.mem_toFinset, List.mem_map, ← contains_iff, contains_ofHistory]
  rw [← hnames, List.toFinset_card_of_nodup (nodup_names _), List.length_map]
  rfl

theorem inserted_iff {history : List (Rule α)} {rule : Rule α} :
    Inserted history rule ↔ history.find? (·.name == rule.name) = some rule := by
  have hinsert (earlier : List (Rule α)) :
      (∃ next, (ofHistory earlier).insert rule = .ok next) ↔
        ∀ other ∈ earlier, (!(other.name == rule.name)) = true := by
    rw [exists_insert_eq_ok_iff, get?_ofHistory, List.find?_eq_none]
    simp only [Bool.not_eq_true, Bool.not_eq_true']
  rw [List.find?_eq_some_iff_append, and_iff_right (beq_self_eq_true rule.name), Inserted]
  constructor
  · rintro ⟨earlier, later, next, hsplit, hnext⟩
    exact ⟨earlier, later, hsplit, (hinsert earlier).1 ⟨next, hnext⟩⟩
  · rintro ⟨earlier, later, hsplit, hothers⟩
    obtain ⟨next, hnext⟩ := (hinsert earlier).2 hothers
    exact ⟨earlier, later, next, hsplit, hnext⟩

theorem contains_iff_inserted {history : List (Rule α)} {name : Char} :
    (ofHistory history).contains name = true ↔
      ∃ earlier, Inserted history earlier ∧ earlier.name = name := by
  rw [← isSome_get?, get?_ofHistory, Option.isSome_iff_exists]
  constructor
  · rintro ⟨first, hfirst⟩
    have hname := Rule.name_of_find? hfirst
    exact ⟨first, inserted_iff.2 (hname ▸ hfirst), hname⟩
  · rintro ⟨first, hinserted, rfl⟩
    exact ⟨first, inserted_iff.1 hinserted⟩

theorem mem_ofHistory {history : List (Rule α)} (h : (history.map Rule.name).Nodup)
    {rule : Rule α} : rule ∈ (ofHistory history).rules ↔ rule ∈ history := by
  calc
    _ ↔ (ofHistory history).get? rule.name = some rule := by
      rw [get?_eq_some_iff, and_iff_left rfl]
    _ ↔ history.find? (·.name == rule.name) = some rule := by rw [get?_ofHistory]
    _ ↔ rule ∈ history := by rw [Rule.find?_name_eq_some_iff h, and_iff_left rfl]

/-! ### Encodings -/

variable [Scalar α]

/-- The encodings are read as these rules, one by one. -/
def Read (angle : α) (encodings : List String) (rules : List (Rule α)) : Prop :=
  List.Forall₂ (fun encoding rule => Rule.parse angle encoding = .ok rule) encodings rules

/-- The first encoding that is malformed or repeats the name of one before it, by its error. -/
inductive FirstFault (angle : α) (encodings : List String) : Error → Prop
  | malformed {before after : List String} {encoding : String} {rules : List (Rule α)} {e : Error}
    (split : encodings = before ++ encoding :: after) (read : Read angle before rules)
    (distinct : (rules.map Rule.name).Nodup) (unread : Rule.parse angle encoding = .error e) :
    FirstFault angle encodings e
  | repeated {before after : List String} {encoding : String} {rules : List (Rule α)}
    {rule : Rule α} (split : encodings = before ++ encoding :: after)
    (read : Read angle before rules) (distinct : (rules.map Rule.name).Nodup)
    (last : Rule.parse angle encoding = .ok rule) (again : rule.name ∈ rules.map Rule.name) :
    FirstFault angle encodings (.ruleRepeated rule.name)

variable {angle : α} {encodings : List String} {rules : List (Rule α)} {table : RuleTable α}

theorem read_iff : Read angle encodings rules ↔
    ∃ texts, encodings.mapM RuleText.parse = .ok texts ∧
      rules = texts.map (RuleText.rule angle) := by
  induction encodings generalizing rules with
  | nil =>
    rw [Read, List.forall₂_nil_left_iff]
    constructor
    · rintro rfl
      exact ⟨[], rfl, rfl⟩
    · rintro ⟨texts, hread, rfl⟩
      cases hread
      rfl
  | cons encoding rest ih =>
    rw [Read, List.forall₂_cons_left_iff, List.mapM_cons]
    constructor
    · rintro ⟨rule, others, hrule, hothers, rfl⟩
      rw [Rule.parse_eq] at hrule
      obtain ⟨text, htext, rfl⟩ := exists_of_map_eq_ok hrule
      obtain ⟨texts, hread, rfl⟩ := ih.1 hothers
      refine ⟨text :: texts, ?_, rfl⟩
      rw [htext, hread]
      rfl
    · rintro ⟨texts, hread, rfl⟩
      obtain ⟨text, htext, hread⟩ := exists_of_bind_eq_ok hread
      obtain ⟨others, hothers, hread⟩ := exists_of_bind_eq_ok hread
      cases hread
      refine ⟨text.rule angle, others.map (RuleText.rule angle), ?_, ih.2 ⟨others, hothers, rfl⟩,
        rfl⟩
      rw [Rule.parse_eq, htext]
      rfl

theorem parse_eq_ok_iff : parse angle encodings = .ok table ↔
    ∃ rules, Read angle encodings rules ∧ (rules.map Rule.name).Nodup ∧
      table = ofHistory rules := by
  have hnames (texts : List RuleText) :
      (texts.map (RuleText.rule angle)).map Rule.name = texts.map RuleText.name := by
    rw [List.map_map]
    rfl
  -- Tables with the same rules are equal, and both tables have just the rules that were read.
  have heq {texts : List RuleText} {table : RuleTable α}
      (hdistinct : (texts.map RuleText.name).Nodup)
      (hrules : ∀ r, r ∈ table.rules ↔ ∃ text ∈ texts, text.rule angle = r) :
      table = ofHistory (texts.map (RuleText.rule angle)) := by
    refine ext_mem fun r => ?_
    rw [hrules, mem_ofHistory (by rwa [hnames]), List.mem_map]
  constructor
  · intro h
    obtain ⟨texts, hread, hdistinct, hrules⟩ := exists_texts_of_parse h
    exact ⟨texts.map (RuleText.rule angle), read_iff.2 ⟨texts, hread, rfl⟩, by rwa [hnames],
      heq hdistinct hrules⟩
  · rintro ⟨rules, hread, hdistinct, rfl⟩
    obtain ⟨texts, htexts, rfl⟩ := read_iff.1 hread
    rw [hnames] at hdistinct
    obtain ⟨table, htable, hrules⟩ := exists_parse_eq_ok angle htexts hdistinct
    rw [htable, heq hdistinct hrules]

theorem parse_of_perm (h : parse angle encodings = .ok table) {shuffled : List String}
    (hperm : shuffled.Perm encodings) : parse angle shuffled = .ok table := by
  obtain ⟨rules, hread, hdistinct, rfl⟩ := parse_eq_ok_iff.1 h
  obtain ⟨others, hothers, hrules⟩ := List.perm_comp_forall₂ hperm hread
  have hnames := (hrules.map Rule.name).nodup_iff.2 hdistinct
  refine parse_eq_ok_iff.2 ⟨others, hothers, hnames, ext_mem fun r => ?_⟩
  rw [mem_ofHistory hdistinct, mem_ofHistory hnames, hrules.mem_iff]

theorem addAll_append (angle : α) (table : RuleTable α) (first rest : List String) :
    table.addAll angle (first ++ rest) =
      (table.addAll angle first).bind fun next => next.addAll angle rest := by
  induction first generalizing table with
  | nil => rfl
  | cons encoding first ih =>
    rw [List.cons_append, addAll, addAll]
    cases Rule.parse angle encoding with
    | error e => rfl
    | ok rule =>
      show (table.insert rule).bind _ = ((table.insert rule).bind _).bind _
      cases table.insert rule with
      | error e => rfl
      | ok next => exact ih next

theorem parse_append (h : Read angle encodings rules) (hdistinct : (rules.map Rule.name).Nodup)
    (encoding : String) (after : List String) :
    parse angle (encodings ++ encoding :: after) =
      (Rule.parse angle encoding).bind fun rule => ((ofHistory rules).insert rule).bind fun next =>
        next.addAll angle after := by
  have hparse : empty.addAll angle encodings = .ok (ofHistory rules) :=
    parse_eq_ok_iff.2 ⟨rules, h, hdistinct, rfl⟩
  rw [parse, addAll_append, hparse]
  rfl

theorem FirstFault.parse_eq {e : Error} (h : FirstFault angle encodings e) :
    parse angle encodings = .error e := by
  cases h with
  | malformed split read distinct unread =>
    rw [split, parse_append read distinct, unread]
    rfl
  | repeated split read distinct last again =>
    rw [split, parse_append read distinct, last]
    show ((ofHistory _).insert _).bind _ = _
    rw [insert_eq_error_iff.2 ⟨contains_ofHistory.2 again, rfl⟩]
    rfl

theorem FirstFault.append {e : Error} (h : FirstFault angle encodings e) (more : List String) :
    FirstFault angle (encodings ++ more) e := by
  cases h with
  | malformed split read distinct unread =>
    rw [split, List.append_assoc, List.cons_append]
    exact .malformed rfl read distinct unread
  | repeated split read distinct last again =>
    rw [split, List.append_assoc, List.cons_append]
    exact .repeated rfl read distinct last again

theorem read_or_firstFault (angle : α) (encodings : List String) :
    (∃ rules, Read angle encodings rules ∧ (rules.map Rule.name).Nodup) ∨
      ∃ e, FirstFault angle encodings e := by
  induction encodings using List.reverseRecOn with
  | nil => exact .inl ⟨[], .nil, List.nodup_nil⟩
  | append_singleton before encoding ih =>
    rcases ih with ⟨rules, hread, hdistinct⟩ | ⟨e, hfault⟩
    · cases hrule : Rule.parse angle encoding with
      | error e => exact .inr ⟨e, .malformed rfl hread hdistinct hrule⟩
      | ok rule =>
        by_cases hagain : rule.name ∈ rules.map Rule.name
        · exact .inr ⟨_, .repeated rfl hread hdistinct hrule hagain⟩
        · refine .inl ⟨rules ++ [rule], List.rel_append hread (.cons hrule .nil), ?_⟩
          rw [List.map_append, List.map_singleton, ← List.concat_eq_append]
          exact hdistinct.concat hagain
    · exact .inr ⟨e, hfault.append [encoding]⟩

theorem parse_eq_error_iff {e : Error} :
    parse angle encodings = .error e ↔ FirstFault angle encodings e := by
  refine ⟨fun h => ?_, FirstFault.parse_eq⟩
  rcases read_or_firstFault angle encodings with ⟨rules, hread, hdistinct⟩ | ⟨other, hfault⟩
  · cases h.symm.trans (parse_eq_ok_iff.2 ⟨rules, hread, hdistinct, rfl⟩)
  · cases h.symm.trans hfault.parse_eq
    exact hfault

/-- Just the insertion of a name that was inserted before is refused, and it alone leaves a table as
it was; so a table holds the first rule of each name of its history. Encodings make a table, in any
order, if all of them are read and their names are different, and otherwise the first one that
breaks this is reported. -/
theorem names_stay_unique (angle : α) :
    (∀ (history : List (Rule α)) (rule : Rule α),
      let table := ofHistory history
      (∀ e, table.insert rule = .error e ↔
        (∃ earlier, Inserted history earlier ∧ earlier.name = rule.name) ∧
          e = .ruleRepeated rule.name) ∧
      (ofHistory (history ++ [rule]) = table ↔ ∃ e, table.insert rule = .error e) ∧
      (∀ name, table.get? name = history.find? (·.name == name)) ∧
      table.size = (history.map Rule.name).toFinset.card) ∧
    ∀ encodings : List String,
      (∀ table, parse angle encodings = .ok table ↔ ∃ rules, Read angle encodings rules ∧
        (rules.map Rule.name).Nodup ∧ table = ofHistory rules) ∧
      (∀ shuffled table, shuffled.Perm encodings → parse angle encodings = .ok table →
        parse angle shuffled = .ok table) ∧
      ∀ e, parse angle encodings = .error e ↔ FirstFault angle encodings e := by
  refine ⟨fun history rule => ?_, fun encodings => ?_⟩
  · intro table
    refine ⟨fun e => ?_, ?_, get?_ofHistory history, size_ofHistory history⟩
    · rw [insert_eq_error_iff, contains_iff_inserted]
    · rw [ofHistory_concat]
      exact offer_eq_self_iff
  · exact ⟨fun table => parse_eq_ok_iff, fun shuffled table hperm h => parse_of_perm h hperm,
      fun e => parse_eq_error_iff⟩

/-- A stem that ends in a bud, a bud, and a stem that comes too late. -/
def stem : Rule Float := { name := 's', body := [.rule 'b'], distance := 1 }

def bud : Rule Float := { name := 'b', body := [], distance := 2 }

def lateStem : Rule Float := { name := 's', body := [], distance := 3 }

theorem names_stay_unique_lateStem :
    let table := ofHistory [stem, bud]
    ["b::2", "s:b:1"].Perm ["s:b:1", "b::2"] ∧
      parse (90 : Float) ["s:b:1", "b::2"] = .ok table ∧
      parse (90 : Float) ["b::2", "s:b:1"] = .ok table ∧
      table.insert lateStem = .error (.ruleRepeated 's') ∧
      (ofHistory [stem, bud, lateStem]).get? 's' = some stem ∧
      (ofHistory [stem, bud, lateStem]).size = 2 ∧
      parse (90 : Float) ["s:b:1", "b::2", "s::3", ":"] = .error (.ruleRepeated 's') := by
  intro table
  obtain ⟨hhistory, hencodings⟩ := names_stay_unique (90 : Float)
  have hperm : ["b::2", "s:b:1"].Perm ["s:b:1", "b::2"] := .swap ..
  have hread : Read (90 : Float) ["s:b:1", "b::2"] [stem, bud] :=
    .cons (by rfl) (.cons (by rfl) .nil)
  have hparse := ((hencodings _).1 table).2 ⟨_, hread, by decide, rfl⟩
  have hsplit : ["s:b:1", "b::2", "s::3", ":"] = ["s:b:1", "b::2"] ++ "s::3" :: [":"] := rfl
  have hlate : Rule.parse (90 : Float) "s::3" = .ok lateStem := by rfl
  have hfault : FirstFault (90 : Float) _ (.ruleRepeated 's') :=
    .repeated hsplit hread (by decide) hlate (by decide)
  have hinserted : Inserted [stem, bud] stem := inserted_iff.2 rfl
  obtain ⟨hrefused, _⟩ := hhistory [stem, bud] lateStem
  obtain ⟨_, _, hget, hsize⟩ := hhistory [stem, bud, lateStem] lateStem
  exact ⟨hperm, hparse, (hencodings _).2.1 _ _ hperm hparse,
    (hrefused _).2 ⟨⟨stem, hinserted, rfl⟩, rfl⟩, hget 's', hsize, ((hencodings _).2.2 _).2 hfault⟩

end RuleTable

end LSystem
