import LSystem.Config.Json
import LSystem.Proofs.Json.Reader
import LSystem.Proofs.Json.Value

/-!
# Configurations read back

A configuration that passes the check is what its written form is parsed as,
field by field: absent overrides are written as null and read as absent, and
integers, colors and texts are read back whatever they are. Numbers are read
back where their numerals are.
-/

namespace LSystem

namespace Color

theorem byteOfJson?_byteJson (b : UInt8) : byteOfJson? (byteJson b) = some b := by
  have hlow : (0 : Int) ≤ b.toNat := Int.natCast_nonneg _
  have hhigh : (b.toNat : Int) ≤ 255 := by
    have := b.toNat_lt
    omega
  rw [byteOfJson?, byteJson, Json.toIntIn?_ofInt hlow hhigh, Option.map_some, Int.toNat_natCast,
    UInt8.ofNat_toNat]

theorem ofValues?_byteJson (color : Color) :
    ofValues? (byteJson color.red) (byteJson color.green) (byteJson color.blue)
      (byteJson color.alpha) = some color := by
  simp only [ofValues?, byteOfJson?_byteJson]
  rfl

theorem ofJson?_toJson (color : Color) : ofJson? color.toJson = some color := by
  simp only [toJson, Json.ofMembers, ofJson?, Json.keyed?_of_keys, Option.bind_eq_bind,
    Option.bind_some]
  exact ofValues?_byteJson color

theorem writable_toJson (color : Color) : color.toJson.Writable := by
  refine Json.writable_ofMembers ?_
  simp only [List.forall_mem_cons]
  exact ⟨Json.writable_number _, Json.writable_number _, Json.writable_number _,
    Json.writable_number _, fun _ h => absurd h List.not_mem_nil⟩

end Color

theorem Placement.ofName?_name (placement : Placement) :
    ofName? placement.name = some placement := by
  cases placement <;> decide

namespace Config

variable {α : Type}

/-- The numbers among the choices: the turn angle, if it is overridden, and both widths. -/
def numbers (config : Config α) : List α :=
  config.angle.toList ++ [config.style.head.width, config.style.tail.width]

/-- A configuration with one field taken over from another one. -/
def adopt (other config : Config α) : Field → Config α
  | .grammar => { config with grammar := other.grammar }
  | .iterations => { config with iterations := other.iterations }
  | .angle => { config with angle := other.angle }
  | .seed => { config with seed := other.seed }
  | .headColor =>
    config.restyle fun style =>
      { style with head := { style.head with color := other.style.head.color } }
  | .tailColor =>
    config.restyle fun style =>
      { style with tail := { style.tail with color := other.style.tail.color } }
  | .background => config.restyle fun style => { style with background := other.style.background }
  | .headWidth =>
    config.restyle fun style =>
      { style with head := { style.head with width := other.style.head.width } }
  | .tailWidth =>
    config.restyle fun style =>
      { style with tail := { style.tail with width := other.style.tail.width } }
  | .interval => { config with interval := other.interval }
  | .placement => { config with placement := other.placement }

/-- Nothing of a configuration is left when all fields are taken over from another one. -/
theorem foldl_adopt_all (other config : Config α) :
    Field.all.foldl other.adopt config = other := by
  simp only [Field.all, List.foldl_cons, List.foldl_nil, adopt, restyle]

theorem iterationsOfJson?_ofInt (n : Int64) : iterationsOfJson? (.ofInt n.toInt) = some n := by
  rw [iterationsOfJson?, Json.toIntIn?_ofInt n.minValue_le_toInt n.toInt_le, Option.map_some,
    Int64.ofInt_toInt]

theorem intervalOfJson?_ofInt (n : UInt64) : intervalOfJson? (.ofInt n.toNat) = some n := by
  have hlow : (0 : Int) ≤ n.toNat := Int.natCast_nonneg _
  have hhigh : (n.toNat : Int) ≤ Int.ofNat UInt64.size - 1 :=
    Int.le_sub_one_of_lt (Int.ofNat_lt.2 n.toNat_lt_size)
  rw [intervalOfJson?, Json.toIntIn?_ofInt hlow hhigh, Option.map_some, Int.toNat_natCast,
    UInt64.ofNat_toNat]

variable [NumberText α]

/-- Each field of a configuration is read from the value that it is written as. -/
theorem set?_value (config : Config α) {other : Config α}
    (hnumbers : ∀ x ∈ other.numbers, (Json.ofScalar x).toScalar? = some x) (field : Field) :
    config.set? field (other.value field) = some (other.adopt config field) := by
  cases field with
  | grammar => rfl
  | iterations =>
    rw [set?, value, Json.toOption?_ofOption rfl fun n _ => iterationsOfJson?_ofInt n]
    rfl
  | angle =>
    have hangle : ∀ x ∈ other.angle, (Json.ofScalar x).toScalar? = some x := fun x hx =>
      hnumbers x (List.mem_append_left _ (Option.mem_toList.2 hx))
    rw [set?, value, Json.toOption?_ofOption rfl hangle]
    rfl
  | seed =>
    have hseed : ∀ text ∈ other.seed, (Json.ofString text).toString? = some text :=
      fun _ _ => rfl
    rw [set?, value, Json.toOption?_ofOption rfl hseed]
    rfl
  | headColor =>
    rw [set?, value, Color.ofJson?_toJson]
    rfl
  | tailColor =>
    rw [set?, value, Color.ofJson?_toJson]
    rfl
  | background =>
    rw [set?, value, Color.ofJson?_toJson]
    rfl
  | headWidth =>
    rw [set?, value, hnumbers _ (by simp [numbers])]
    rfl
  | tailWidth =>
    rw [set?, value, hnumbers _ (by simp [numbers])]
    rfl
  | interval =>
    rw [set?, value, intervalOfJson?_ofInt]
    rfl
  | placement =>
    rw [set?, value, Json.ofString, Placement.ofJson?, Placement.ofName?_name]
    rfl

theorem setAll?_cons_of_none (config : Config α) {key : String} (h : Field.ofKey? key = none)
    (value : Json) (rest : List (String × Json)) :
    config.setAll? ((key, value) :: rest) = config.setAll? rest := by
  rw [setAll?, h]

theorem setAll?_cons_key (config : Config α) (field : Field) (value : Json)
    (rest : List (String × Json)) :
    config.setAll? ((field.key, value) :: rest) =
      (config.set? field value).bind fun config => config.setAll? rest := by
  rw [setAll?, Field.ofKey?_key]

theorem setAll?_values (config : Config α) {other : Config α}
    (hnumbers : ∀ x ∈ other.numbers, (Json.ofScalar x).toScalar? = some x)
    (fields : List Field) :
    config.setAll? (fields.map fun field => (field.key, other.value field)) =
      some (fields.foldl other.adopt config) := by
  induction fields generalizing config with
  | nil => rfl
  | cons field fields ih =>
    rw [List.map_cons, setAll?_cons_key, set?_value config hnumbers field, Option.bind_some, ih,
      List.foldl_cons]

omit [NumberText α] in
theorem fieldsOnce_map (write : Field → Json) :
    fieldsOnce (Field.all.map fun field => (field.key, write field)) = true := by
  have hkeys : ∀ field ∈ Field.all,
      (Field.all.filter fun other => other.key == field.key).length ≤ 1 := by decide
  refine List.all_eq_true.2 fun field hfield => decide_eq_true ?_
  rw [List.filter_map, List.length_map]
  exact hkeys field hfield

theorem ofJson?_ofMembers [Scalar α] (members : List (String × Json)) :
    ofJson? (.ofMembers members) =
      if fieldsOnce members then (default : Config α).setAll? members else none := by
  simp only [Json.ofMembers, ofJson?, Json.keyed?_of_keys, Option.bind_eq_bind, Option.bind_some]

theorem ofJson?_toJson [Scalar α] {config : Config α}
    (hnumbers : ∀ x ∈ config.numbers, (Json.ofScalar x).toScalar? = some x) :
    ofJson? config.toJson = some config := by
  rw [toJson, ofJson?_ofMembers, if_pos (fieldsOnce_map config.value),
    setAll?_values default hnumbers, foldl_adopt_all]

theorem writable_value (config : Config α) (field : Field) : (config.value field).Writable := by
  cases field with
  | grammar => exact Json.writable_ofString _
  | iterations => exact Json.writable_ofOption (fun n => Json.writable_number _) _
  | angle => exact Json.writable_ofOption Json.writable_ofScalar _
  | seed => exact Json.writable_ofOption Json.writable_ofString _
  | headColor => exact Color.writable_toJson _
  | tailColor => exact Color.writable_toJson _
  | background => exact Color.writable_toJson _
  | headWidth => exact Json.writable_ofScalar _
  | tailWidth => exact Json.writable_ofScalar _
  | interval => exact Json.writable_number _
  | placement => exact Json.writable_ofString _

theorem writable_toJson (config : Config α) : config.toJson.Writable :=
  Json.writable_ofMembers (List.forall_mem_map.2 fun field _ => config.writable_value field)

/-! ### Checked configurations -/

omit [NumberText α] in
theorem isFinite_of_check [Scalar α] {config : Config α} (h : config.check = .ok ()) :
    ∀ x ∈ config.numbers, Scalar.isFinite x = true := by
  unfold check at h
  split at h
  · cases h
  split at h
  · cases h
  split at h
  · cases h
  split at h
  · cases h
  next hhead htail hangle =>
    simp only [Paint.isFit, Bool.not_eq_true', Bool.not_eq_false, Bool.and_eq_true] at hhead htail
    intro x hx
    rcases List.mem_append.1 hx with hx | hx
    · rw [Option.mem_toList.1 hx, Option.any_some, Bool.not_eq_true', Bool.not_eq_false] at hangle
      exact hangle
    · rcases List.mem_pair.1 hx with rfl | rfl
      · exact hhead.1
      · exact htail.1

theorem parse_of_parse? [Scalar α] {value : Json} {text : String}
    (h : Json.parse? text = some value) :
    parse (α := α) text = (ofJson? value).elim (.error .malformedJson)
      fun config : Config α => config.check.map fun _ => config := by
  rw [parse, h, Option.bind_some]
  cases ofJson? (α := α) value with
  | none => rfl
  | some config =>
    show config.check.bind _ = config.check.map _
    cases config.check with
    | error e => rfl
    | ok u => rfl

theorem parse_of_json [Scalar α] {config : Config α} (hcheck : config.check = .ok ())
    (hvalue : ofJson? config.toJson = some config) {text : String}
    (htext : Json.parse? text = some config.toJson) : parse text = .ok config := by
  rw [parse_of_parse? htext, hvalue, Option.elim_some, hcheck]
  rfl

/-- A configuration that passes the check is read back from what it is written as, provided that
its numbers are: every field is the same again. -/
theorem parse_written {config : Config Float} (hcheck : config.check = .ok ())
    (hnumbers : ∀ x ∈ config.numbers, ReadsBack x) :
    parse config.toJson.compact = .ok config ∧ parse config.toJson.pretty = .ok config := by
  have hvalue : ofJson? config.toJson = some config := ofJson?_toJson fun x hx =>
    Json.toScalar?_ofScalar (isFinite_of_check hcheck x hx) (hnumbers x hx)
  have hwritable := config.writable_toJson
  exact ⟨parse_of_json hcheck hvalue (Json.parse?_compact hwritable),
    parse_of_json hcheck hvalue (Json.parse?_pretty hwritable)⟩

/-- A name that is full of escapes, extreme integers, and a turn by minus zero. -/
def awkward : Config Float where
  grammar := "\"\\/\x00\n\x1f\x7f é🌲"
  iterations := some Int64.minValue
  angle := some (-0.0)
  seed := some "[\t+]"
  style :=
    { head := ⟨⟨255, 0, 1, 0⟩, 1e-7⟩, tail := ⟨.gray, 1e300⟩, background := .black }
  interval := 0xffffffffffffffff
  placement := .centered

theorem parse_written_awkward :
    awkward.check = .ok () ∧ (∀ x ∈ awkward.numbers, ReadsBack x) ∧
      parse awkward.toJson.compact = .ok awkward ∧ parse awkward.toJson.pretty = .ok awkward := by
  have hcheck : awkward.check = .ok () := by decide +kernel
  have hnumbers : ∀ x ∈ awkward.numbers, ReadsBack x := by decide +kernel
  exact ⟨hcheck, hnumbers, parse_written hcheck hnumbers⟩

end Config

end LSystem
