import LSystem.Proofs.Config.Json

/-!
# Fields one by one

What a field of a configuration holds, and all the JSON values that it may be
written as. A field is set to a value exactly if the value is one of these, and
all other fields stay as they are.
-/

namespace LSystem

theorem uniqueMember?_eq_some_iff {key : String} {members : List (String × Json)} {value : Json} :
    uniqueMember? key members = some value ↔
      (members.filter fun member => member.1 == key) = [(key, value)] := by
  constructor
  · intro h
    unfold uniqueMember? at h
    split at h
    · next key' value' heq =>
      cases h
      have hmem : (key', value) ∈ members.filter fun member => member.1 == key := by
        rw [heq]
        exact List.mem_singleton_self _
      have hkey : key' = key := eq_of_beq (List.mem_filter.1 hmem).2
      rw [heq, hkey]
    · cases h
  · intro h
    rw [uniqueMember?, h]

/-- Any numeral that is read as the number. -/
def NumberWrittenAs {α : Type} [NumberText α] (x : α) (value : Json) : Prop :=
  ∃ numeral, value = .number numeral ∧ NumberText.ofNumeral? numeral = some x

namespace Color

theorem byteOfJson?_eq_some_iff {value : Json} {b : UInt8} :
    byteOfJson? value = some b ↔ value = byteJson b := by
  constructor
  · intro h
    obtain ⟨n, hn, rfl⟩ := Option.map_eq_some_iff.1 h
    obtain ⟨rfl, hlow, hhigh⟩ := Json.toIntIn?_eq_some_iff.1 hn
    have hlt : n.toNat < UInt8.size := by
      show n.toNat < 256
      omega
    rw [byteJson, UInt8.toNat_ofNat_of_lt' hlt, Int.toNat_of_nonneg hlow]
  · rintro rfl
    exact byteOfJson?_byteJson b

theorem ofValues?_eq_some_iff {r g b a : Json} {color : Color} :
    ofValues? r g b a = some color ↔ r = byteJson color.red ∧ g = byteJson color.green ∧
      b = byteJson color.blue ∧ a = byteJson color.alpha := by
  constructor
  · intro h
    obtain ⟨red, hred, h⟩ := Option.bind_eq_some_iff.1 h
    obtain ⟨green, hgreen, h⟩ := Option.bind_eq_some_iff.1 h
    obtain ⟨blue, hblue, h⟩ := Option.bind_eq_some_iff.1 h
    obtain ⟨alpha, halpha, h⟩ := Option.bind_eq_some_iff.1 h
    cases h
    exact ⟨byteOfJson?_eq_some_iff.1 hred, byteOfJson?_eq_some_iff.1 hgreen,
      byteOfJson?_eq_some_iff.1 hblue, byteOfJson?_eq_some_iff.1 halpha⟩
  · rintro ⟨rfl, rfl, rfl, rfl⟩
    exact ofValues?_byteJson color

/-- An array of the four bytes, or an object with each of them once, whatever else it has. -/
def WrittenAs (color : Color) (value : Json) : Prop :=
  let bytes := [("r", byteJson color.red), ("g", byteJson color.green),
    ("b", byteJson color.blue), ("a", byteJson color.alpha)]
  value = .array (bytes.map Prod.snd) ∨
    ∃ members, value = .ofMembers members ∧
      ∀ byte ∈ bytes, (members.filter fun member => member.1 == byte.1) = [byte]

theorem ofJson?_eq_some_iff {value : Json} {color : Color} :
    ofJson? value = some color ↔ color.WrittenAs value := by
  constructor
  · intro h
    unfold ofJson? at h
    split at h
    · next r g b a =>
      obtain ⟨rfl, rfl, rfl, rfl⟩ := ofValues?_eq_some_iff.1 h
      exact .inl rfl
    · next members =>
      obtain ⟨keyed, hkeyed, h⟩ := Option.bind_eq_some_iff.1 h
      obtain ⟨r, hr, h⟩ := Option.bind_eq_some_iff.1 h
      obtain ⟨g, hg, h⟩ := Option.bind_eq_some_iff.1 h
      obtain ⟨b, hb, h⟩ := Option.bind_eq_some_iff.1 h
      obtain ⟨a, ha, h⟩ := Option.bind_eq_some_iff.1 h
      obtain ⟨rfl, rfl, rfl, rfl⟩ := ofValues?_eq_some_iff.1 h
      rw [Json.keyed?_eq_some_iff.1 hkeyed]
      refine .inr ⟨keyed, rfl, ?_⟩
      simp only [List.forall_mem_cons]
      exact ⟨uniqueMember?_eq_some_iff.1 hr, uniqueMember?_eq_some_iff.1 hg,
        uniqueMember?_eq_some_iff.1 hb, uniqueMember?_eq_some_iff.1 ha,
        fun _ h => absurd h List.not_mem_nil⟩
    · cases h
  · rintro (rfl | ⟨members, rfl, hbytes⟩)
    · exact ofValues?_byteJson color
    · simp only [List.forall_mem_cons] at hbytes
      obtain ⟨hr, hg, hb, ha, _⟩ := hbytes
      simp only [Json.ofMembers, ofJson?, Json.keyed?_of_keys, Option.bind_eq_bind,
        Option.bind_some, uniqueMember?_eq_some_iff.2 hr, uniqueMember?_eq_some_iff.2 hg,
        uniqueMember?_eq_some_iff.2 hb, uniqueMember?_eq_some_iff.2 ha]
      exact ofValues?_byteJson color

end Color

namespace Placement

/-- The name, or an object in which it holds null. -/
def WrittenAs (placement : Placement) (value : Json) : Prop :=
  value = .ofString placement.name ∨ value = .ofMembers [(placement.name, .null)]

theorem ofName?_eq_some_iff {name : String} {placement : Placement} :
    ofName? name = some placement ↔ name = placement.name := by
  constructor
  · intro h
    unfold ofName? at h
    split at h
    · next hname =>
      cases h
      exact hname
    · split at h
      · next hname =>
        cases h
        exact hname
      · cases h
  · rintro rfl
    exact ofName?_name placement

theorem ofJson?_eq_some_iff {value : Json} {placement : Placement} :
    ofJson? value = some placement ↔ placement.WrittenAs value := by
  constructor
  · intro h
    unfold ofJson? at h
    split at h
    · next name =>
      cases ofName?_eq_some_iff.1 h
      exact .inl rfl
    · next name =>
      cases ofName?_eq_some_iff.1 h
      exact .inr rfl
    · cases h
  · rintro (rfl | rfl)
    · exact ofName?_name placement
    · exact ofName?_name placement

end Placement

namespace Config

variable {α : Type}

theorem iterationsOfJson?_eq_some_iff {value : Json} {n : Int64} :
    iterationsOfJson? value = some n ↔ value = .ofInt n.toInt := by
  constructor
  · intro h
    obtain ⟨i, hi, rfl⟩ := Option.map_eq_some_iff.1 h
    obtain ⟨rfl, hlow, hhigh⟩ := Json.toIntIn?_eq_some_iff.1 hi
    rw [Int64.toInt_ofInt_of_le hlow (Int.lt_of_le_sub_one hhigh)]
  · rintro rfl
    exact iterationsOfJson?_ofInt n

theorem intervalOfJson?_eq_some_iff {value : Json} {n : UInt64} :
    intervalOfJson? value = some n ↔ value = .ofInt n.toNat := by
  constructor
  · intro h
    obtain ⟨i, hi, rfl⟩ := Option.map_eq_some_iff.1 h
    obtain ⟨rfl, hlow, hhigh⟩ := Json.toIntIn?_eq_some_iff.1 hi
    have hlt : i.toNat < UInt64.size := by
      have hhigh : i ≤ (UInt64.size : Int) - 1 := hhigh
      omega
    rw [UInt64.toNat_ofNat_of_lt' hlt, Int.toNat_of_nonneg hlow]
  · rintro rfl
    exact intervalOfJson?_ofInt n

/-- What a field of a configuration holds. -/
def Field.Choice (α : Type) : Field → Type
  | .grammar => String
  | .iterations => Option Int64
  | .angle => Option α
  | .seed => Option String
  | .headColor | .tailColor | .background => Color
  | .headWidth | .tailWidth => α
  | .interval => UInt64
  | .placement => Placement

def get (config : Config α) : (field : Field) → field.Choice α
  | .grammar => config.grammar
  | .iterations => config.iterations
  | .angle => config.angle
  | .seed => config.seed
  | .headColor => config.style.head.color
  | .tailColor => config.style.tail.color
  | .background => config.style.background
  | .headWidth => config.style.head.width
  | .tailWidth => config.style.tail.width
  | .interval => config.interval
  | .placement => config.placement

theorem get_adopt_self (config other : Config α) (field : Field) :
    (other.adopt config field).get field = other.get field := by
  cases field <;> rfl

theorem get_adopt_of_ne (config other : Config α) {field field' : Field} (h : field' ≠ field) :
    (other.adopt config field).get field' = config.get field' := by
  cases field <;> cases field' <;> first | rfl | exact absurd rfl h

theorem ext_get {config other : Config α} (h : ∀ field, config.get field = other.get field) :
    config = other := by
  obtain ⟨grammar, iterations, angle, seed, ⟨head, tail, background⟩, interval, placement⟩ := config
  obtain ⟨headColor, headWidth⟩ := head
  obtain ⟨tailColor, tailWidth⟩ := tail
  cases h .grammar
  cases h .iterations
  cases h .angle
  cases h .seed
  cases h .headColor
  cases h .headWidth
  cases h .tailColor
  cases h .tailWidth
  cases h .background
  cases h .interval
  cases h .placement
  rfl

/-- Another configuration that is the same in all fields but one is the result of taking over this
one. -/
theorem adopt_eq_iff {config other : Config α} {field : Field} :
    other.adopt config field = other ↔
      ∀ field', field' ≠ field → other.get field' = config.get field' := by
  constructor
  · intro h field' hne
    rw [← h, get_adopt_of_ne config other hne]
  · intro h
    refine ext_get fun field' => ?_
    by_cases hfield : field' = field
    · subst hfield
      exact get_adopt_self config other field'
    · rw [get_adopt_of_ne config other hfield, h field' hfield]

variable [NumberText α]

/-- The JSON values that a choice may be written as. -/
def Field.WrittenAs : (field : Field) → field.Choice α → Json → Prop
  | .grammar, name => fun value => value = .ofString name
  | .iterations, n? => Json.OptionWrittenAs (fun n value => value = .ofInt (Int64.toInt n)) n?
  | .angle, x? => Json.OptionWrittenAs (NumberWrittenAs (α := α)) x?
  | .seed, text? => Json.OptionWrittenAs (fun text value => value = .ofString text) text?
  | .headColor, color | .tailColor, color | .background, color => Color.WrittenAs color
  | .headWidth, x | .tailWidth, x => fun value => NumberWrittenAs (α := α) x value
  | .interval, n => fun value => value = .ofInt (UInt64.toNat n)
  | .placement, choice => Placement.WrittenAs choice

/-- A choice that is read and put in its place stands there. -/
theorem map_eq_some_iff_get {β γ : Type} (get : γ → β) {put : β → γ} (hget : ∀ b, get (put b) = b)
    {choice? : Option β} {c : γ} :
    choice?.map put = some c ↔ choice? = some (get c) ∧ put (get c) = c := by
  constructor
  · intro h
    obtain ⟨b, hb, rfl⟩ := Option.map_eq_some_iff.1 h
    rw [hget]
    exact ⟨hb, rfl⟩
  · rintro ⟨hread, hput⟩
    rw [hread, Option.map_some, hput]

/-- A field is set to a value exactly if it is written as this value then and the others are kept. -/
theorem set?_eq_some_iff {config other : Config α} {field : Field} {value : Json} :
    config.set? field value = some other ↔
      field.WrittenAs (other.get field) value ∧
        ∀ field', field' ≠ field → other.get field' = config.get field' := by
  rw [← adopt_eq_iff]
  cases field with
  | grammar =>
    rw [set?, map_eq_some_iff_get (·.grammar) fun _ => rfl]
    exact and_congr_left' Json.toString?_eq_some_iff
  | iterations =>
    rw [set?, map_eq_some_iff_get (·.iterations) fun _ => rfl]
    exact and_congr_left' (Json.toOption?_eq_some_iff iterationsOfJson?_eq_some_iff rfl)
  | angle =>
    rw [set?, map_eq_some_iff_get (·.angle) fun _ => rfl]
    exact and_congr_left' (Json.toOption?_eq_some_iff Json.toScalar?_eq_some_iff rfl)
  | seed =>
    rw [set?, map_eq_some_iff_get (·.seed) fun _ => rfl]
    exact and_congr_left' (Json.toOption?_eq_some_iff Json.toString?_eq_some_iff rfl)
  | headColor =>
    rw [set?, map_eq_some_iff_get (·.style.head.color) fun _ => rfl]
    exact and_congr_left' Color.ofJson?_eq_some_iff
  | tailColor =>
    rw [set?, map_eq_some_iff_get (·.style.tail.color) fun _ => rfl]
    exact and_congr_left' Color.ofJson?_eq_some_iff
  | background =>
    rw [set?, map_eq_some_iff_get (·.style.background) fun _ => rfl]
    exact and_congr_left' Color.ofJson?_eq_some_iff
  | headWidth =>
    rw [set?, map_eq_some_iff_get (·.style.head.width) fun _ => rfl]
    exact and_congr_left' Json.toScalar?_eq_some_iff
  | tailWidth =>
    rw [set?, map_eq_some_iff_get (·.style.tail.width) fun _ => rfl]
    exact and_congr_left' Json.toScalar?_eq_some_iff
  | interval =>
    rw [set?, map_eq_some_iff_get (·.interval) fun _ => rfl]
    exact and_congr_left' intervalOfJson?_eq_some_iff
  | placement =>
    rw [set?, map_eq_some_iff_get (·.placement) fun _ => rfl]
    exact and_congr_left' Placement.ofJson?_eq_some_iff

end Config

end LSystem
