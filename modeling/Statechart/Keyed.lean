namespace Statechart

variable {κ α : Type} [DecidableEq κ]

/-- A finite map as a list of pairs, in the order in which the keys came up. -/
abbrev Keyed (κ α : Type) := List (κ × α)

namespace Keyed

def get? : Keyed κ α → κ → Option α
  | [], _ => none
  | (key, value) :: rest, wanted => if key = wanted then some value else get? rest wanted

/-- Sets the value of a key: in its place if the key is there, else at the end. -/
def put : Keyed κ α → κ → α → Keyed κ α
  | [], key, value => [(key, value)]
  | (key, old) :: rest, wanted, value =>
    if key = wanted then (key, value) :: rest else (key, old) :: put rest wanted value

def putAll (map : Keyed κ α) (entries : List (κ × α)) : Keyed κ α :=
  entries.foldl (fun map entry => put map entry.1 entry.2) map

def keys (map : Keyed κ α) : List κ :=
  map.map Prod.fst

@[simp] theorem get?_nil (wanted : κ) : get? ([] : Keyed κ α) wanted = none :=
  rfl

@[simp] theorem get?_put (map : Keyed κ α) (key wanted : κ) (value : α) :
    get? (put map key value) wanted = if key = wanted then some value else get? map wanted := by
  induction map with
  | nil => rfl
  | cons entry rest ih =>
    obtain ⟨other, old⟩ := entry
    by_cases same : other = key
    · subst same
      by_cases hit : other = wanted <;> simp [put, get?, hit]
    · by_cases hit : other = wanted
      · subst hit
        simp [put, get?, same, Ne.symm same]
      · simp [put, get?, same, hit, ih]

theorem mem_keys_put {map : Keyed κ α} {key other : κ} {value : α} :
    other ∈ keys (put map key value) ↔ other = key ∨ other ∈ keys map := by
  induction map with
  | nil => simp [put, keys]
  | cons entry rest ih =>
    obtain ⟨first, old⟩ := entry
    by_cases same : first = key
    · subst same
      simp [put, keys]
    · simp only [keys] at ih
      simp only [put, if_neg same, keys, List.map_cons, List.mem_cons, ih]
      constructor
      · rintro (h | h | h)
        · exact Or.inr (Or.inl h)
        · exact Or.inl h
        · exact Or.inr (Or.inr h)
      · rintro (h | h | h)
        · exact Or.inr (Or.inl h)
        · exact Or.inl h
        · exact Or.inr (Or.inr h)

theorem nodup_keys_put {map : Keyed κ α} {key : κ} {value : α} (apart : (keys map).Nodup) :
    (keys (put map key value)).Nodup := by
  induction map with
  | nil => simp [put, keys]
  | cons entry rest ih =>
    obtain ⟨first, old⟩ := entry
    obtain ⟨fresh, apart⟩ := List.nodup_cons.1 apart
    by_cases same : first = key
    · subst same
      simpa [put, keys] using And.intro fresh apart
    · rw [put, if_neg same]
      refine List.nodup_cons.2 ⟨?_, ih apart⟩
      intro found
      cases mem_keys_put.1 found with
      | inl h => exact same h
      | inr h => exact fresh h

end Keyed

end Statechart
