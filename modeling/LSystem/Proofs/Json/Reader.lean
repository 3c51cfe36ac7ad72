import LSystem.Json.Reader
import LSystem.Proofs.Json.Token

/-!
# Values read back

The tokens of a value, read by the automaton, make up the value again, at any
depth inside other values. So every text of a value is parsed as this value,
among them what is written of it, with or without line breaks.
-/

namespace LSystem.Json

open Reader (run? step?)

/-! ### The automaton -/

theorem run?_cons {reader next : Reader} {token : Token} (h : reader.step? token = some next)
    (rest : List Token) : reader.run? (token :: rest) = next.run? rest := by
  rw [run?, h]

theorem step?_key (fresh : Bool) (before : List (Option String × Json)) (frames : List Frame)
    (text : Option String) :
    step? (.key fresh before frames) (.string text) = some (.colon text before frames) := by
  cases fresh <;> cases before <;> rfl

mutual

/-- Wherever a value is due, its tokens complete it. -/
theorem run?_tokens : ∀ (v : Json) (fresh : Bool) (frames : List Frame) (rest : List Token),
    run? (.value fresh frames) (v.tokens ++ rest) = run? (.complete v frames) rest
  | .null, _, _, rest => run?_cons rfl rest
  | .bool _, _, _, rest => run?_cons rfl rest
  | .number _, _, _, rest => run?_cons rfl rest
  | .string _, _, _, rest => run?_cons rfl rest
  | .array [], _, _, _ => rfl
  | .array (item :: items), _, frames, rest => by
    have hitems := run?_itemTokens (item :: items) (List.cons_ne_nil _ _) true [] frames rest
    rw [tokens, List.append_assoc]
    exact (run?_cons rfl _).trans hitems
  | .object [], _, _, _ => rfl
  | .object (member :: members), _, frames, rest => by
    have hmembers :=
      run?_memberTokens (member :: members) (List.cons_ne_nil _ _) true [] frames rest
    rw [tokens, List.append_assoc]
    exact (run?_cons rfl _).trans hmembers

theorem run?_itemTokens : ∀ (items : List Json), items ≠ [] → ∀ (fresh : Bool)
    (before : List Json) (frames : List Frame) (rest : List Token),
    run? (.value fresh (.items before :: frames)) (itemTokens items ++ .endArray :: rest) =
      run? (.complete (.array (before.reverse ++ items)) frames) rest
  | [], h, _, _, _, _ => absurd rfl h
  | [item], _, fresh, before, frames, rest => by
    rw [itemTokens, run?_tokens item, run?_cons rfl, List.reverse_cons]
  | item :: second :: items, _, fresh, before, frames, rest => by
    have hitems := run?_itemTokens (second :: items) (List.cons_ne_nil _ _) false (item :: before)
      frames rest
    rw [List.reverse_cons, List.append_assoc, List.singleton_append] at hitems
    rw [itemTokens, List.append_assoc, run?_tokens item, List.cons_append, run?_cons rfl, hitems]
    exact List.cons_ne_nil _ _

theorem run?_memberTokens : ∀ (members : List (Option String × Json)), members ≠ [] →
    ∀ (fresh : Bool) (before : List (Option String × Json)) (frames : List Frame)
    (rest : List Token),
    run? (.key fresh before frames) (memberTokens members ++ .endObject :: rest) =
      run? (.complete (.object (before.reverse ++ members)) frames) rest
  | [], h, _, _, _, _ => absurd rfl h
  | [(k, v)], _, fresh, before, frames, rest => by
    rw [memberTokens, List.cons_append, run?_cons (step?_key ..), List.cons_append,
      run?_cons rfl, run?_tokens v, run?_cons rfl, List.reverse_cons]
  | (k, v) :: second :: members, _, fresh, before, frames, rest => by
    have hmembers := run?_memberTokens (second :: members) (List.cons_ne_nil _ _) false
      ((k, v) :: before) frames rest
    rw [List.reverse_cons, List.append_assoc, List.singleton_append] at hmembers
    rw [memberTokens, List.append_assoc, List.cons_append, List.cons_append,
      run?_cons (step?_key ..), run?_cons rfl, run?_tokens v, List.cons_append, run?_cons rfl,
      hmembers]
    exact List.cons_ne_nil _ _

end

/-! ### Numerals apart -/

/-- No two numerals stand side by side. -/
def Apart (tokens : List Token) : Prop :=
  tokens.IsChain fun before after => ¬ before.Clash after

theorem apart_singleton (token : Token) : Apart [token] := List.isChain_singleton token

theorem Apart.append {u v : List Token} (hu : Apart u) {mark : Token}
    (hmark : mark.isNumber = false) (hv : Apart v) : Apart (u ++ mark :: v) := by
  refine List.isChain_append.2 ⟨hu, List.isChain_cons.2 ⟨fun after _ h => ?_, hv⟩, ?_⟩
  · rw [h.1] at hmark
    cases hmark
  · intro before _ after hafter h
    cases hafter
    rw [h.2] at hmark
    cases hmark

theorem Apart.cons {v : List Token} {mark : Token} (hmark : mark.isNumber = false)
    (hv : Apart v) : Apart (mark :: v) :=
  Apart.append (u := []) .nil hmark hv

mutual

theorem apart_tokens : ∀ v : Json, Apart v.tokens
  | .null => apart_singleton _
  | .bool _ => apart_singleton _
  | .number _ => apart_singleton _
  | .string _ => apart_singleton _
  | .array items => (apart_itemTokens items).cons rfl |>.append rfl .nil
  | .object members => (apart_memberTokens members).cons rfl |>.append rfl .nil

theorem apart_itemTokens : ∀ items : List Json, Apart (itemTokens items)
  | [] => .nil
  | [item] => apart_tokens item
  | item :: second :: items =>
    (apart_tokens item).append rfl (apart_itemTokens (second :: items))

theorem apart_memberTokens : ∀ members : List (Option String × Json),
    Apart (memberTokens members)
  | [] => .nil
  | [(_, v)] => ((apart_tokens v).cons rfl).cons rfl
  | (_, v) :: second :: members =>
    (((apart_tokens v).cons rfl).cons rfl).append rfl (apart_memberTokens (second :: members))

end

/-! ### Values that can be written -/

theorem writable_null : Writable .null := List.forall_mem_singleton.2 rfl

theorem writable_number (numeral : Numeral) : Writable (.number numeral) :=
  List.forall_mem_singleton.2 rfl

theorem writable_ofString (text : String) : Writable (.ofString text) :=
  List.forall_mem_singleton.2 rfl

theorem writable_ofScalar {α : Type} [NumberText α] (x : α) : Writable (.ofScalar x) := by
  unfold ofScalar
  split
  · exact writable_number _
  · exact writable_null

theorem writable_ofOption {β : Type} {f : β → Json} (h : ∀ b, (f b).Writable) (b? : Option β) :
    (ofOption f b?).Writable := by
  cases b? with
  | none => exact writable_null
  | some b => exact h b

theorem writable_array {items : List Json} (h : ∀ item ∈ items, item.Writable) :
    Writable (.array items) := by
  have hitems : ∀ token ∈ itemTokens items, token.hasText = true := by
    induction items with
    | nil => exact fun token htoken => absurd htoken List.not_mem_nil
    | cons item items ih =>
      obtain ⟨hitem, hitems⟩ := List.forall_mem_cons.1 h
      cases items with
      | nil => exact hitem
      | cons second items =>
        exact List.forall_mem_append.2 ⟨hitem, List.forall_mem_cons.2 ⟨rfl, ih hitems⟩⟩
  exact List.forall_mem_append.2
    ⟨List.forall_mem_cons.2 ⟨rfl, hitems⟩, List.forall_mem_singleton.2 rfl⟩

theorem writable_ofMembers {members : List (String × Json)}
    (h : ∀ member ∈ members, member.2.Writable) : Writable (.ofMembers members) := by
  have hmembers : ∀ token ∈ memberTokens (members.map fun member => (some member.1, member.2)),
      token.hasText = true := by
    induction members with
    | nil => exact fun token htoken => absurd htoken List.not_mem_nil
    | cons member members ih =>
      obtain ⟨hvalue, hmembers⟩ := List.forall_mem_cons.1 h
      have hmember : ∀ token ∈ Token.string (some member.1) :: .colon :: member.2.tokens,
          token.hasText = true :=
        List.forall_mem_cons.2 ⟨rfl, List.forall_mem_cons.2 ⟨rfl, hvalue⟩⟩
      cases members with
      | nil => exact hmember
      | cons second members =>
        exact List.forall_mem_append.2 ⟨hmember, List.forall_mem_cons.2 ⟨rfl, ih hmembers⟩⟩
  exact List.forall_mem_append.2
    ⟨List.forall_mem_cons.2 ⟨rfl, hmembers⟩, List.forall_mem_singleton.2 rfl⟩

/-! ### Texts of values -/

/-- The text is the value in JSON, in any spelling of its numerals and strings and with any blanks
between and around its tokens. -/
def IsText (value : Json) (text : String) : Prop := Spells value.tokens text.toList

/-- Every text of a value is parsed as this value. -/
theorem parse?_of_isText {value : Json} {text : String} (h : value.IsText text) :
    parse? text = some value := by
  have hread : tokens? text = some value.tokens :=
    tokensOnto?_of_spells h (apart_tokens value) #[]
  have hrun := run?_tokens value false [] []
  rw [List.append_nil] at hrun
  simp only [parse?, hread, Reader.start, hrun, Option.bind_eq_bind, Option.bind_some]
  rfl

theorem parse?_compact {value : Json} (h : value.Writable) : parse? value.compact = some value :=
  parse?_of_isText (spells_compact h)

theorem parse?_pretty {value : Json} (h : value.Writable) : parse? value.pretty = some value :=
  parse?_of_isText (spells_pretty h)

end LSystem.Json
