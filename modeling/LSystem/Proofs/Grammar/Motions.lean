import LSystem.Grammar.Request
import LSystem.Proofs.Grammar.Nesting
import LSystem.Proofs.Grammar.RuleText
import Mathlib.Tactic.Choose
import Mathlib.Tactic.SplitIfs

/-!
# Motions

A script without its turn angle: moves by the distances of rules, turns to one
side or the other, and the ends of branches. The angle is a label on the turns
and nothing else. Whether rules can be read and a request is answered, and with
which error if not, is settled without it. So is the script, as motions; at each
angle they are only written out.
-/

namespace LSystem

inductive Side
  | left
  | right
  deriving Repr, DecidableEq

inductive Motion
  | move (distance : Int)
  | turn (side : Side)
  | enter
  | leave
  deriving Repr, DecidableEq

variable {α γ γ' δ δ' : Type}

/-! ### Outcomes that are the same at every angle -/

/-- An outcome at each angle is uniform if it is one valid pattern, written out with the angle, or
one error. -/
def Uniform (render : α → γ → δ) (valid : γ → Prop) (outcome : α → Except Error δ) : Prop :=
  ∃ pattern : Except Error γ, (∀ x, pattern = .ok x → valid x) ∧
    ∀ angle, outcome angle = pattern.map (render angle)

namespace Uniform

variable {render : α → γ → δ} {valid : γ → Prop} {render' : α → γ' → δ'} {valid' : γ' → Prop}

theorem ok {x : γ} (hx : valid x) : Uniform render valid fun angle => .ok (render angle x) :=
  ⟨.ok x, fun _ h => by cases h; exact hx, fun _ => rfl⟩

theorem error (e : Error) : Uniform render valid fun _ => .error e :=
  ⟨.error e, fun _ h => (nomatch h), fun _ => rfl⟩

theorem congr {outcome outcome' : α → Except Error δ} (h : Uniform render valid outcome)
    (heq : ∀ angle, outcome' angle = outcome angle) : Uniform render valid outcome' := by
  obtain ⟨pattern, hvalid, hpattern⟩ := h
  exact ⟨pattern, hvalid, fun angle => (heq angle).trans (hpattern angle)⟩

theorem bind {outcome : α → Except Error δ} (next : α → δ → Except Error δ')
    (h : Uniform render valid outcome)
    (hnext : ∀ x, valid x → Uniform render' valid' fun angle => next angle (render angle x)) :
    Uniform render' valid' fun angle => (outcome angle).bind (next angle) := by
  obtain ⟨pattern, hvalid, hpattern⟩ := h
  cases pattern with
  | error e => exact (error e).congr fun angle => by rw [hpattern]; rfl
  | ok x => exact (hnext x (hvalid x rfl)).congr fun angle => by rw [hpattern]; rfl

theorem map {outcome : α → Except Error δ} {f : α → δ → δ'} (g : γ → γ')
    (h : Uniform render valid outcome) (hvalid : ∀ x, valid x → valid' (g x))
    (hf : ∀ angle x, f angle (render angle x) = render' angle (g x)) :
    Uniform render' valid' fun angle => (outcome angle).map (f angle) := by
  obtain ⟨pattern, hpatternvalid, hpattern⟩ := h
  cases pattern with
  | error e => exact (error e).congr fun angle => by rw [hpattern]; rfl
  | ok x =>
    refine (ok (hvalid x (hpatternvalid x rfl))).congr fun angle => ?_
    rw [hpattern, ← hf]
    rfl

end Uniform

variable [Scalar α]

namespace Motion

/-- A motion as a command, with `angle` for a turn to the left. -/
def command (angle : α) : Motion → Command α
  | move distance => .move (Scalar.ofInt distance)
  | turn .left => .turn angle
  | turn .right => .turn (-angle)
  | enter => .enter
  | leave => .leave

def script (angle : α) (motions : List Motion) : Script α := (motions.map (command angle)).toArray

/-- Whether a motion, if it is a move, goes the distance of one of the rules. -/
def DrawnBy (texts : List RuleText) (motion : Motion) : Prop :=
  ∀ distance, motion = move distance → ∃ text ∈ texts, text.distance = distance

end Motion

/-! ### Letters without an angle -/

/-- A letter of a word under expansion before it is given an angle. -/
inductive Glyph
  | motion (motion : Motion)
  | rule (name : Char)

namespace Glyph

def letter (angle : α) : Glyph → Letter α
  | motion m => (m.command angle).letter
  | rule name => .rule name

def ofChar (c : Char) : Glyph :=
  if c = '+' then motion (.turn .left)
  else if c = '-' then motion (.turn .right)
  else if c = '[' then motion .enter
  else if c = ']' then motion .leave
  else rule c

def motion? : Glyph → Option Motion
  | motion m => some m
  | rule _ => none

/-- Words whose moves go the distances of rules. -/
def DrawnBy (texts : List RuleText) (word : List Glyph) : Prop :=
  ∀ m, motion m ∈ word → m.DrawnBy texts

theorem drawnBy_append_iff {texts : List RuleText} {u v : List Glyph} :
    DrawnBy texts (u ++ v) ↔ DrawnBy texts u ∧ DrawnBy texts v := by
  simp only [DrawnBy, List.mem_append, or_imp, forall_and]

theorem drawnBy_cons_iff {texts : List RuleText} {glyph : Glyph} {rest : List Glyph} :
    DrawnBy texts (glyph :: rest) ↔ DrawnBy texts [glyph] ∧ DrawnBy texts rest := by
  rw [← List.singleton_append, drawnBy_append_iff]

theorem letter_ofChar (angle : α) (c : Char) : (ofChar c).letter angle = Letter.ofChar angle c := by
  unfold ofChar Letter.ofChar
  split_ifs <;> rfl

theorem map_letter_map_ofChar (angle : α) (text : List Char) :
    (text.map ofChar).map (letter angle) = Letter.ofText angle text := by
  rw [List.map_map, Letter.ofText]
  exact List.map_congr_left fun c _ => letter_ofChar angle c

theorem drawnBy_map_ofChar (texts : List RuleText) (text : List Char) :
    DrawnBy texts (text.map ofChar) := by
  intro m hm distance hdistance
  subst hdistance
  obtain ⟨c, _, hc⟩ := List.mem_map.1 hm
  unfold ofChar at hc
  split_ifs at hc <;> cases hc

theorem toCommand?_letter (angle : α) (glyph : Glyph) :
    (glyph.letter angle).toCommand? = glyph.motion?.map (Motion.command angle) := by
  cases glyph with
  | motion m => exact Letter.toCommand?_letter (m.command angle)
  | rule name => rfl

theorem mapM_toCommand?_map_letter (angle : α) (word : List Glyph) :
    (word.map (letter angle)).mapM Letter.toCommand? =
      (word.mapM motion?).map (List.map (Motion.command angle)) := by
  induction word with
  | nil => rfl
  | cons glyph rest ih =>
    simp only [List.map_cons, List.mapM_cons, toCommand?_letter, ih]
    cases glyph.motion? with
    | none => rfl
    | some m => cases rest.mapM motion? <;> rfl

theorem eq_motion_of_motion? {glyph : Glyph} {m : Motion} (h : glyph.motion? = some m) :
    glyph = motion m := by
  cases glyph <;> cases h
  rfl

end Glyph

/-- What replaces the name of a rule in a word of glyphs. -/
def RuleText.replacement (text : RuleText) (depth : Nat) : List Glyph :=
  if depth = 0 || text.body.isEmpty then [.motion (.move text.distance)]
  else text.body.map Glyph.ofChar

theorem RuleText.map_letter_replacement (text : RuleText) (depth : Nat) (angle : α) :
    (text.replacement depth).map (Glyph.letter angle) = (text.rule angle).replacement depth := by
  have hterminal : (text.rule angle).isTerminal = text.body.isEmpty := List.isEmpty_map
  unfold replacement Rule.replacement
  rw [hterminal]
  split_ifs
  · rfl
  · exact Glyph.map_letter_map_ofChar angle text.body

theorem RuleText.drawnBy_replacement {texts : List RuleText} {text : RuleText} (h : text ∈ texts)
    (depth : Nat) : Glyph.DrawnBy texts (text.replacement depth) := by
  unfold replacement
  split_ifs
  · intro m hm distance hdistance
    subst hdistance
    cases List.mem_singleton.1 hm
    exact ⟨text, h, rfl⟩
  · exact Glyph.drawnBy_map_ofChar texts text.body

/-! ### Rules that are read -/

variable (α) in
theorem RuleText.exists_place_map (text : RuleText) (texts : List RuleText) :
    ∃ placed : List RuleText, ∀ angle : α,
      RuleTable.place (text.rule angle) (texts.map (RuleText.rule angle)) =
        placed.map (RuleText.rule angle) := by
  induction texts with
  | nil => exact ⟨[text], fun _ => rfl⟩
  | cons first rest ih =>
    obtain ⟨placed, hplaced⟩ := ih
    by_cases hlt : text.name < first.name
    · exact ⟨text :: first :: rest, fun _ => if_pos hlt⟩
    · refine ⟨first :: placed, fun angle => ?_⟩
      rw [List.map_cons, List.map_cons, ← hplaced]
      exact if_neg hlt

theorem RuleTable.contains_of_texts {table : RuleTable α} {angle : α} {texts : List RuleText}
    (h : table.rules = texts.map (RuleText.rule angle)) (name : Char) :
    table.contains name = texts.any fun text => text.name == name := by
  rw [contains, h, List.any_map]
  rfl

theorem RuleTable.get?_of_texts {table : RuleTable α} {angle : α} {texts : List RuleText}
    (h : table.rules = texts.map (RuleText.rule angle)) (name : Char) :
    table.get? name = (texts.find? fun text => text.name == name).map (RuleText.rule angle) := by
  rw [get?, h, List.find?_map]
  rfl

variable (α) in
/-- Whether a rule can be added is a matter of names, and so is its place among the others. -/
theorem RuleTable.exists_read (encodings : List String) (texts : List RuleText) :
    ∃ read : Except Error (List RuleText), ∀ (angle : α) (table : RuleTable α),
      table.rules = texts.map (RuleText.rule angle) →
        (table.addAll angle encodings).map rules = read.map (List.map (RuleText.rule angle)) := by
  induction encodings generalizing texts with
  | nil => exact ⟨.ok texts, fun angle table h => congrArg Except.ok h⟩
  | cons encoding rest ih =>
    cases htext : RuleText.parse encoding with
    | error e =>
      refine ⟨.error e, fun angle table _ => ?_⟩
      rw [addAll, Rule.parse_eq, htext]
      rfl
    | ok text =>
      obtain ⟨placed, hplaced⟩ := RuleText.exists_place_map α text texts
      obtain ⟨read, hread⟩ := ih placed
      by_cases htaken : (texts.any fun other => other.name == text.name) = true
      · refine ⟨.error (.ruleRepeated text.name), fun angle table h => ?_⟩
        have hinsert : table.insert (text.rule angle) = .error (.ruleRepeated text.name) :=
          dif_pos ((contains_of_texts h text.name).trans htaken)
        rw [addAll, Rule.parse_eq, htext]
        show ((table.insert (text.rule angle)).bind _).map rules = _
        rw [hinsert]
        rfl
      · refine ⟨read, fun angle table h => ?_⟩
        have hfresh : ¬ table.contains (text.rule angle).name = true := by
          rwa [contains_of_texts h]
        rw [addAll, Rule.parse_eq, htext]
        show ((table.insert (text.rule angle)).bind _).map rules = _
        rw [insert, dif_neg hfresh]
        exact hread angle _ ((congrArg (place _) h).trans (hplaced angle))

/-! ### Passes -/

namespace Expansion

section Family

variable {texts : List RuleText} {tables : α → RuleTable α}

/-- Words are uniform if they are letters for the same glyphs at every angle. -/
abbrev UniformWord (texts : List RuleText) (outcome : α → Except Error (List (Letter α))) : Prop :=
  Uniform (fun angle => List.map (Glyph.letter angle)) (Glyph.DrawnBy texts) outcome

/-- Scripts are uniform if they are written out from the same motions at every angle. -/
abbrev UniformScript (texts : List RuleText) (outcome : α → Except Error (Script α)) : Prop :=
  Uniform Motion.script (fun motions => ∀ m ∈ motions, m.DrawnBy texts) outcome

theorem substitute_letter (table : RuleTable α) (depth : Nat) (command : Command α) :
    substitute table depth command.letter = .ok [command.letter] := by
  cases command <;> rfl

theorem uniform_substitute
    (htables : ∀ angle, (tables angle).rules = texts.map (RuleText.rule angle)) (depth : Nat)
    {glyph : Glyph} (hglyph : Glyph.DrawnBy texts [glyph]) :
    UniformWord texts fun angle => substitute (tables angle) depth (glyph.letter angle) := by
  cases glyph with
  | motion m => exact (Uniform.ok hglyph).congr fun angle => substitute_letter _ _ _
  | rule name =>
    have hget := fun angle => RuleTable.get?_of_texts (htables angle) name
    cases hfind : texts.find? fun text => text.name == name with
    | none =>
      refine (Uniform.error (.undefinedRule name)).congr fun angle => ?_
      simp only [Glyph.letter, substitute, hget, hfind, Option.map_none]
    | some text =>
      have htext : text ∈ texts := List.mem_of_find?_eq_some hfind
      refine (Uniform.ok (RuleText.drawnBy_replacement htext depth)).congr fun angle => ?_
      rw [RuleText.map_letter_replacement]
      simp only [Glyph.letter, substitute, hget, hfind, Option.map_some]

theorem uniform_rewrite
    (htables : ∀ angle, (tables angle).rules = texts.map (RuleText.rule angle)) (depth : Nat)
    {word : List Glyph} (hword : Glyph.DrawnBy texts word) :
    UniformWord texts fun angle =>
      rewrite (tables angle) depth (word.map (Glyph.letter angle)) := by
  induction word with
  | nil => exact Uniform.ok hword
  | cons glyph rest ih =>
    obtain ⟨hglyph, hrest⟩ := Glyph.drawnBy_cons_iff.1 hword
    -- The replacement of the first letter goes before that of the others.
    refine ((uniform_substitute htables depth hglyph).bind
      (fun angle body => (rewrite (tables angle) depth (rest.map (Glyph.letter angle))).map
        (body ++ ·)) fun body hbody => ?_).congr fun angle => ?_
    · exact (ih hrest).map (body ++ ·) (fun next hnext => Glyph.drawnBy_append_iff.2 ⟨hbody, hnext⟩)
        fun angle next => List.map_append.symm
    · rw [List.map_cons, rewrite_cons]

theorem uniform_passes
    (htables : ∀ angle, (tables angle).rules = texts.map (RuleText.rule angle)) (depth : Nat)
    {word : List Glyph} (hword : Glyph.DrawnBy texts word) :
    UniformWord texts fun angle =>
      (passes (tables angle) depth (word.map (Glyph.letter angle))).result := by
  induction depth generalizing word with
  | zero =>
    exact (uniform_rewrite htables 0 hword).congr fun angle => result_passes_zero _ _
  | succ depth ih =>
    refine ((uniform_rewrite htables (depth + 1) hword).bind
      (fun angle next => (passes (tables angle) depth next).result) fun next hnext => ?_).congr
        fun angle => result_passes_succ _ _ _
    exact ih hnext

theorem uniform_finish {word : List Glyph} (hword : Glyph.DrawnBy texts word) :
    UniformScript texts fun angle : α => finish (word.map (Glyph.letter angle)) := by
  cases hmotions : word.mapM Glyph.motion? with
  | none =>
    refine (Uniform.error .ruleNameLeft).congr fun angle => ?_
    simp only [finish, Glyph.mapM_toCommand?_map_letter, hmotions, Option.map_none]
  | some motions =>
    have hdrawn : ∀ m ∈ motions, m.DrawnBy texts := by
      rw [eq_map_of_mapM_eq_some (fun _ _ => Glyph.eq_motion_of_motion?) hmotions] at hword
      exact fun m hm => hword m (List.mem_map_of_mem hm)
    refine (Uniform.ok hdrawn).congr fun angle => ?_
    simp only [finish, Glyph.mapM_toCommand?_map_letter, hmotions, Option.map_some, Motion.script]

theorem uniform_expand
    (htables : ∀ angle, (tables angle).rules = texts.map (RuleText.rule angle)) (seed : String)
    (iterations : Nat) :
    UniformScript texts fun angle => expand (tables angle) angle seed iterations := by
  have hseed := Glyph.drawnBy_map_ofChar texts seed.toList
  refine ((uniform_passes htables (max iterations 1) hseed).bind (fun _ => finish)
    fun _ hfinal => uniform_finish hfinal).congr fun angle => ?_
  rw [expand_eq, Glyph.map_letter_map_ofChar]

end Family

end Expansion

/-! ### Requests -/

/-- The rules of a grammar are read, or refused, in one way at all angles. So is a request
answered: its script is one list of motions written out with the angle, or there is one error.
Every move in it goes the distance of a rule. -/
theorem Request.exists_motions (request : Request α) :
    ∃ (read : Except Error (List RuleText)) (outcome : Except Error (List Motion)),
      (∀ angle, (request.grammar.table angle).map RuleTable.rules =
        read.map (List.map (RuleText.rule angle))) ∧
      (∀ angle viewport, ({ request with angle }.figure viewport).map Figure.script =
        outcome.map (Motion.script angle)) ∧
      ∀ motions, outcome = .ok motions →
        ∃ texts, read = .ok texts ∧ ∀ m ∈ motions, m.DrawnBy texts := by
  obtain ⟨read, hread⟩ := RuleTable.exists_read α request.grammar.rules []
  have hrules : ∀ angle, (request.grammar.table angle).map RuleTable.rules =
      read.map (List.map (RuleText.rule angle)) := fun angle => hread angle .empty rfl
  have hfigure : ∀ angle viewport, ({ request with angle }.figure viewport).map Figure.script =
      { request with angle }.expansion.result := by
    intro angle viewport
    unfold figure
    cases { request with angle }.expansion.result <;> rfl
  cases read with
  | error e =>
    refine ⟨.error e, .error e, hrules, fun angle viewport => ?_, fun _ h => (nomatch h)⟩
    rw [hfigure, expansion]
    simp only [eq_error_of_map_eq_error (hrules angle)]
    rfl
  | ok texts =>
    choose tables htables hsame using fun angle => exists_of_map_eq_ok (hrules angle)
    obtain ⟨outcome, hdrawn, houtcome⟩ :=
      Expansion.uniform_expand hsame request.seed request.iterations
    refine ⟨.ok texts, outcome, hrules, fun angle viewport => ?_,
      fun motions hmotions => ⟨texts, rfl, hdrawn motions hmotions⟩⟩
    rw [hfigure, expansion]
    simp only [htables]
    exact houtcome angle

/-- One rule that branches to the right, over and over. -/
def sprig : Request Float where
  grammar := { name := "sprig", rules := ["f:f[-f]:7"], seed := "f", iterations := 3, angle := 25 }
  seed := "+f"
  iterations := 1
  angle := 25

theorem Request.exists_motions_sprig :
    ∃ motions, (∀ angle viewport, ({ sprig with angle }.figure viewport).map Figure.script =
        .ok (Motion.script angle motions)) ∧
      ∀ distance, .move distance ∈ motions → distance = 7 := by
  obtain ⟨read, outcome, hread, houtcome, hdrawn⟩ := exists_motions sprig
  have htable : (sprig.grammar.table 0).map RuleTable.rules =
      .ok [RuleText.rule 0 ⟨'f', ['f', '[', '-', 'f', ']'], 7⟩] := by rfl
  have hfigure : ({ sprig with angle := 0 }.figure (Viewport.reference 640)).map Figure.script =
      .ok #[.turn 0, .move (Scalar.ofInt 7), .enter, .turn (-0), .move (Scalar.ofInt 7),
        .leave] := by rfl
  rw [houtcome] at hfigure
  obtain ⟨motions, rfl, -⟩ := exists_of_map_eq_ok hfigure
  refine ⟨motions, houtcome, fun distance hdistance => ?_⟩
  obtain ⟨texts, rfl, hmotions⟩ := hdrawn motions rfl
  obtain ⟨text, htext, rfl⟩ := hmotions _ hdistance distance rfl
  rw [hread] at htable
  have hrule := List.mem_map_of_mem (f := RuleText.rule (0 : Float)) htext
  rw [Except.ok.inj htable] at hrule
  exact congrArg Rule.distance (List.mem_singleton.1 hrule)

end LSystem
