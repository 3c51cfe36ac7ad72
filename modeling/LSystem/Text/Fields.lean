/-!
# Fields

Cuts a text at every occurrence of a separator. The fields joined by the
separator give the text back, and no field holds the separator.
-/

namespace LSystem.Text

def fields (separator : Char) : List Char → List (List Char)
  | [] => [[]]
  | c :: rest =>
    if c = separator then [] :: fields separator rest
    else
      match fields separator rest with
      | [] => [[c]]
      | first :: others => (c :: first) :: others

theorem fields_ne_nil (separator : Char) (text : List Char) : fields separator text ≠ [] := by
  cases text with
  | nil => simp [fields]
  | cons c rest =>
    simp only [fields]
    split
    · simp
    · split <;> simp

theorem intercalate_fields (separator : Char) (text : List Char) :
    [separator].intercalate (fields separator text) = text := by
  induction text with
  | nil => rfl
  | cons c rest ih =>
    obtain ⟨first, others, hrest⟩ := List.exists_cons_of_ne_nil (fields_ne_nil separator rest)
    rw [hrest] at ih
    simp only [fields, hrest]
    split
    · rename_i hc
      simp [List.intercalate_cons_cons, ih, hc]
    · cases others with
      | nil => simpa [List.intercalate] using ih
      | cons second more =>
        simp only [List.intercalate_cons_cons, List.cons_append] at ih ⊢
        rw [ih]

theorem not_mem_of_mem_fields (separator : Char) (text : List Char) :
    ∀ field ∈ fields separator text, separator ∉ field := by
  induction text with
  | nil => simp [fields]
  | cons c rest ih =>
    intro field hfield
    simp only [fields] at hfield
    split at hfield
    · rcases List.mem_cons.1 hfield with rfl | h
      · simp
      · exact ih field h
    · rename_i hc
      split at hfield
      · rename_i hnil
        exact absurd hnil (fields_ne_nil separator rest)
      · rename_i first others heq
        rcases List.mem_cons.1 hfield with rfl | h
        · have := ih first (by simp [heq])
          simp only [List.mem_cons, not_or]
          exact ⟨fun h => hc h.symm, this⟩
        · exact ih field (by simp [heq, h])

theorem fields_of_not_mem {separator : Char} {text : List Char} (h : separator ∉ text) :
    fields separator text = [text] := by
  induction text with
  | nil => rfl
  | cons c rest ih =>
    have hc : separator ≠ c := List.ne_of_not_mem_cons h
    rw [fields, if_neg hc.symm, ih (List.not_mem_of_not_mem_cons h)]

theorem fields_append_cons {separator : Char} {before : List Char} (h : separator ∉ before)
    (after : List Char) :
    fields separator (before ++ separator :: after) = before :: fields separator after := by
  induction before with
  | nil => rw [List.nil_append, fields, if_pos rfl]
  | cons c rest ih =>
    have hc : separator ≠ c := List.ne_of_not_mem_cons h
    rw [List.cons_append, fields, if_neg hc.symm, ih (List.not_mem_of_not_mem_cons h)]

theorem length_fields (separator : Char) (text : List Char) :
    (fields separator text).length = text.count separator + 1 := by
  induction text with
  | nil => rfl
  | cons c rest ih =>
    obtain ⟨first, others, hrest⟩ := List.exists_cons_of_ne_nil (fields_ne_nil separator rest)
    rw [hrest, List.length_cons] at ih
    rw [fields, hrest, List.count_cons]
    split
    · next hc => simp [hc, ih]
    · next hc => simp [hc, ih]

/-- Cuts a text in two at the first character of a class, which is dropped. -/
def cutAt (cut : Char → Bool) : List Char → Option (List Char × List Char)
  | [] => none
  | c :: rest =>
    if cut c then some ([], rest)
    else (cutAt cut rest).map fun (before, after) => (c :: before, after)

/-- Text before the cut, the character cut at, and the text after it make up the whole text. -/
theorem eq_append_of_cutAt {cut : Char → Bool} {text before after : List Char}
    (h : cutAt cut text = some (before, after)) :
    ∃ c, cut c = true ∧ text = before ++ c :: after ∧ ∀ d ∈ before, cut d = false := by
  induction text generalizing before with
  | nil => simp [cutAt] at h
  | cons c rest ih =>
    simp only [cutAt] at h
    split at h
    · rename_i hc
      simp only [Option.some.injEq, Prod.mk.injEq] at h
      obtain ⟨rfl, rfl⟩ := h
      exact ⟨c, hc, by simp, by simp⟩
    · rename_i hc
      simp only [Option.map_eq_some_iff, Prod.mk.injEq, Prod.exists] at h
      obtain ⟨b, a, hcut, rfl, rfl⟩ := h
      obtain ⟨d, hd, htext, hbefore⟩ := ih hcut
      refine ⟨d, hd, by simp [htext], ?_⟩
      intro e he
      rcases List.mem_cons.1 he with rfl | he
      · simpa using hc
      · exact hbefore e he

end LSystem.Text
