import Mathlib.Data.List.TakeWhile
import Statechart.Text.Blank

namespace Statechart.Text

section

variable {p : Char → Bool} {before rest : List Char}

theorem dropWhile_append_of_stops (inside : ∀ c ∈ before, p c = true)
    (stops : ∀ c ∈ rest.head?, p c = false) : (before ++ rest).dropWhile p = rest := by
  rw [List.dropWhile_append_of_pos inside]
  cases rest with
  | nil => rfl
  | cons c rest => rw [List.dropWhile_cons_of_neg (by simp [stops c rfl])]

theorem takeWhile_append_of_stops (inside : ∀ c ∈ before, p c = true)
    (stops : ∀ c ∈ rest.head?, p c = false) : (before ++ rest).takeWhile p = before := by
  rw [List.takeWhile_append_of_pos inside]
  cases rest with
  | nil => exact List.append_nil before
  | cons c rest =>
      rw [List.takeWhile_cons_of_neg (by simp [stops c rfl]), List.append_nil]

end

structure Trimmed (text core : List Char) : Prop where
  around : ∃ before after, text = before ++ core ++ after ∧
    (∀ c ∈ before, isBlank c = true) ∧ ∀ c ∈ after, isBlank c = true
  begins : ∀ c ∈ core.head?, isBlank c = false
  ends : ∀ c ∈ core.getLast?, isBlank c = false

theorem begins_dropWhile_isBlank (text : List Char) :
    ∀ c ∈ (text.dropWhile isBlank).head?, isBlank c = false := by
  intro c first
  have unblank := List.head?_dropWhile_not isBlank text
  rw [Option.mem_def.mp first] at unblank
  exact unblank

theorem exists_eq_append_dropWhile (text : List Char) :
    ∃ before, text = before ++ text.dropWhile isBlank ∧ ∀ c ∈ before, isBlank c = true :=
  ⟨text.takeWhile isBlank, List.takeWhile_append_dropWhile.symm,
    fun _ member => List.mem_takeWhile_imp member⟩

theorem trimmed_trim (text : List Char) : Trimmed text (trim text) := by
  obtain ⟨before, textEq, blankBefore⟩ := exists_eq_append_dropWhile text
  obtain ⟨after, restEq, blankAfter⟩ :=
    exists_eq_append_dropWhile (text.dropWhile isBlank).reverse
  have coreEq : text.dropWhile isBlank = trim text ++ after.reverse := by
    rw [trim, ← List.reverse_append, ← restEq, List.reverse_reverse]
  refine ⟨⟨before, after.reverse, ?_, blankBefore, ?_⟩, ?_, ?_⟩
  · rw [List.append_assoc, ← coreEq, ← textEq]
  · intro c member
    exact blankAfter c (List.mem_reverse.mp member)
  · intro c first
    refine begins_dropWhile_isBlank text c ?_
    rw [coreEq, List.head?_append, Option.mem_def.mp first]
    rfl
  · intro c last
    rw [trim, List.getLast?_reverse] at last
    exact begins_dropWhile_isBlank _ c last

theorem Trimmed.trim_eq {text core : List Char} (trimmed : Trimmed text core) :
    trim text = core := by
  obtain ⟨before, after, rfl, blankBefore, blankAfter⟩ := trimmed.around
  cases core with
  | nil =>
      have blank : ∀ c ∈ before ++ [] ++ after, isBlank c = true := by
        simpa [or_imp, forall_and] using And.intro blankBefore blankAfter
      rw [trim, List.dropWhile_eq_nil_iff.mpr blank]
      rfl
  | cons first core =>
      have begins : ∀ c ∈ ((first :: core) ++ after).head?, isBlank c = false := trimmed.begins
      have ends : ∀ c ∈ (first :: core).reverse.head?, isBlank c = false := by
        rw [List.head?_reverse]
        exact trimmed.ends
      have blankAfter : ∀ c ∈ after.reverse, isBlank c = true := fun c member =>
        blankAfter c (List.mem_reverse.mp member)
      rw [trim, List.append_assoc, dropWhile_append_of_stops blankBefore begins,
        List.reverse_append, dropWhile_append_of_stops blankAfter ends, List.reverse_reverse]

theorem trimmed_iff {text core : List Char} : Trimmed text core ↔ trim text = core :=
  ⟨Trimmed.trim_eq, fun same => same ▸ trimmed_trim text⟩

theorem Trimmed.pad {text core before after : List Char} (trimmed : Trimmed text core)
    (blankBefore : ∀ c ∈ before, isBlank c = true) (blankAfter : ∀ c ∈ after, isBlank c = true) :
    Trimmed (before ++ text ++ after) core := by
  obtain ⟨inner, outer, rfl, blankInner, blankOuter⟩ := trimmed.around
  refine ⟨⟨before ++ inner, outer ++ after, by simp, ?_, ?_⟩, trimmed.begins, trimmed.ends⟩
  · exact fun c member => (List.mem_append.mp member).elim (blankBefore c) (blankInner c)
  · exact fun c member => (List.mem_append.mp member).elim (blankOuter c) (blankAfter c)

theorem trim_eq_nil_iff {text : List Char} : trim text = [] ↔ ∀ c ∈ text, isBlank c = true := by
  constructor
  · intro empty
    obtain ⟨before, after, textEq, blankBefore, blankAfter⟩ := (trimmed_iff.mpr empty).around
    simpa [textEq, or_imp, forall_and] using And.intro blankBefore blankAfter
  · intro blank
    refine Trimmed.trim_eq ⟨⟨text, [], by simp, blank, nofun⟩, nofun, nofun⟩

end Statechart.Text
