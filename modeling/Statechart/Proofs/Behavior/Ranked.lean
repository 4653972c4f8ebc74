import Mathlib.Data.List.Basic

namespace Statechart

variable {α β : Type} {rank : α → Int32} {given sorted sorted' : List α}

/-- The given items by descending rank; items of one rank keep the order in which they are given. -/
structure Ranked (rank : α → Int32) (given sorted : List α) : Prop where
  perm : sorted.Perm given
  descending : sorted.Pairwise fun first second => rank second ≤ rank first
  kept : ∀ r, (sorted.filter fun a => rank a = r) = given.filter fun a => rank a = r

theorem rank_trans (rank : α → Int32) (a b c : α) (first : decide (rank b ≤ rank a) = true)
    (second : decide (rank c ≤ rank b) = true) : decide (rank c ≤ rank a) = true := by
  rw [decide_eq_true_eq] at first second ⊢
  exact Int32.le_trans second first

theorem rank_total (rank : α → Int32) (a b : α) :
    (decide (rank b ≤ rank a) || decide (rank a ≤ rank b)) = true := by
  rw [Bool.or_eq_true, decide_eq_true_eq, decide_eq_true_eq]
  exact Int32.le_total (rank b) (rank a)

theorem ranked_mergeSort (rank : α → Int32) (given : List α) :
    Ranked rank given
      (given.mergeSort fun first second => decide (rank second ≤ rank first)) := by
  have perm := List.mergeSort_perm given fun first second => decide (rank second ≤ rank first)
  have descending := List.pairwise_mergeSort (rank_trans rank) (rank_total rank) given
  refine ⟨perm, descending.imp of_decide_eq_true, fun r => ?_⟩
  -- Items of one rank are in order already, and sorting does not disturb what is in order.
  have ordered : (given.filter fun a => rank a = r).Pairwise
      fun first second => decide (rank second ≤ rank first) = true := by
    apply List.pairwise_of_forall_mem_list
    intro a aMember b bMember
    rw [List.mem_filter, decide_eq_true_eq] at aMember bMember
    rw [decide_eq_true_eq, aMember.2, bMember.2]
    exact Int32.le_refl r
  have within := (List.sublist_mergeSort (rank_trans rank) (rank_total rank) ordered
    List.filter_sublist).filter fun a => decide (rank a = r)
  rw [List.filter_filter] at within
  simp only [Bool.and_self] at within
  exact (within.eq_of_length (perm.filter _).length_eq.symm).symm

theorem mem_iff_of_filter_rank_eq
    (agree : ∀ r, (sorted.filter fun a => rank a = r) = sorted'.filter fun a => rank a = r)
    (a : α) : a ∈ sorted ↔ a ∈ sorted' := by
  have alike := congrArg (a ∈ ·) (agree (rank a))
  simpa using alike

theorem eq_of_filter_rank_eq
    (descending : sorted.Pairwise fun first second => rank second ≤ rank first)
    (descending' : sorted'.Pairwise fun first second => rank second ≤ rank first)
    (agree : ∀ r, (sorted.filter fun a => rank a = r) = sorted'.filter fun a => rank a = r) :
    sorted = sorted' := by
  induction sorted generalizing sorted' with
  | nil =>
      rw [eq_comm, List.eq_nil_iff_forall_not_mem]
      intro a member
      exact List.not_mem_nil ((mem_iff_of_filter_rank_eq agree a).mpr member)
  | cons a sorted ih =>
      have members := mem_iff_of_filter_rank_eq agree
      obtain ⟨b, sorted', rfl⟩ : ∃ b rest, sorted' = b :: rest :=
        List.exists_cons_of_ne_nil (List.ne_nil_of_mem ((members a).mp List.mem_cons_self))
      obtain ⟨top, below⟩ := List.pairwise_cons.mp descending
      obtain ⟨top', below'⟩ := List.pairwise_cons.mp descending'
      have upper : rank b ≤ rank a := by
        rcases List.mem_cons.mp ((members b).mpr List.mem_cons_self) with rfl | further
        · exact Int32.le_refl _
        · exact top b further
      have lower : rank a ≤ rank b := by
        rcases List.mem_cons.mp ((members a).mp List.mem_cons_self) with rfl | further
        · exact Int32.le_refl _
        · exact top' a further
      have same : rank b = rank a := Int32.le_antisymm upper lower
      have first := agree (rank a)
      rw [List.filter_cons_of_pos (by simp), List.filter_cons_of_pos (by simpa using same)] at first
      obtain ⟨rfl, _⟩ := List.cons.inj first
      refine congrArg (List.cons a) (ih below below' fun r => ?_)
      have whole := agree r
      by_cases own : rank a = r
      · rw [List.filter_cons_of_pos (by simpa using own),
          List.filter_cons_of_pos (by simpa using own)] at whole
        exact (List.cons.inj whole).2
      · rwa [List.filter_cons_of_neg (by simpa using own),
          List.filter_cons_of_neg (by simpa using own)] at whole

namespace Ranked

theorem unique (ranked : Ranked rank given sorted) (ranked' : Ranked rank given sorted') :
    sorted = sorted' :=
  eq_of_filter_rank_eq ranked.descending ranked'.descending fun r =>
    (ranked.kept r).trans (ranked'.kept r).symm

theorem pair_sublist {a b : α} (ranked : Ranked rank given sorted)
    (order : [a, b].Sublist given) (lower : rank b ≤ rank a) : [a, b].Sublist sorted := by
  rw [ranked.unique (ranked_mergeSort rank given)]
  exact List.pair_sublist_mergeSort (rank_trans rank) (rank_total rank) (decide_eq_true lower) order

theorem pair_sublist_iff {a b : α} (ranked : Ranked rank given sorted) (same : rank a = rank b) :
    [a, b].Sublist sorted ↔ [a, b].Sublist given := by
  constructor
  · intro order
    have within := order.filter fun c => rank c = rank b
    rw [List.filter_cons_of_pos (by simpa using same), List.filter_cons_of_pos (by simp),
      ranked.kept] at within
    exact within.trans List.filter_sublist
  · exact fun order => ranked.pair_sublist order (same ▸ Int32.le_refl _)

theorem map {rank' : β → Int32} {f : α → β} (same : ∀ a, rank' (f a) = rank a)
    (ranked : Ranked rank given sorted) : Ranked rank' (given.map f) (sorted.map f) where
  perm := ranked.perm.map f
  descending := by
    rw [List.pairwise_map]
    exact ranked.descending.imp fun {a b} lower => by rwa [same, same]
  kept r := by
    simp only [List.filter_map, Function.comp_def, same]
    rw [ranked.kept r]

section Searching

variable {p : α → Bool} {a : α}

theorem find?_eq_none_iff (ranked : Ranked rank given sorted) :
    sorted.find? p = none ↔ ∀ a ∈ given, p a = false := by
  rw [List.find?_eq_none]
  simp only [ranked.perm.mem_iff, Bool.not_eq_true]

theorem of_find?_eq_some (ranked : Ranked rank given sorted) (found : sorted.find? p = some a) :
    p a = true ∧ ∃ before after, given = before ++ a :: after ∧
      (∀ b ∈ before, p b = true → rank b < rank a) ∧
      ∀ b ∈ after, p b = true → rank b ≤ rank a := by
  obtain ⟨hit, front, back, split, missed⟩ := List.find?_eq_some_iff_append.mp found
  have highest {b : α} (member : b ∈ given) (hit' : p b = true) : rank b ≤ rank a := by
    rw [← ranked.perm.mem_iff, split, List.mem_append, List.mem_cons] at member
    rcases member with inFront | rfl | inBack
    · have miss := missed b inFront
      rw [hit'] at miss
      contradiction
    · exact Int32.le_refl _
    · have descending := ranked.descending
      rw [split, List.pairwise_append, List.pairwise_cons] at descending
      exact descending.2.1.1 b inBack
  -- Among those of its rank, the sorted list has what was given, in the order it was given in.
  have kept := ranked.kept (rank a)
  rw [split, List.filter_append, List.filter_cons_of_pos (by simp)] at kept
  obtain ⟨before, rest, givenEq, frontEq, restEq⟩ := List.filter_eq_append_iff.mp kept.symm
  obtain ⟨lower, after, rfl, lowerDiffer, _, _⟩ := List.filter_eq_cons_iff.mp restEq
  refine ⟨hit, before ++ lower, after, by rw [givenEq, List.append_assoc], ?_, ?_⟩
  · intro b member hit'
    refine Int32.lt_of_le_of_ne (highest ?_ hit') fun same => ?_
    · rw [givenEq]
      rcases List.mem_append.mp member with inBefore | inLower
      · exact List.mem_append_left _ inBefore
      · exact List.mem_append_right _ (List.mem_append_left _ inLower)
    · rcases List.mem_append.mp member with inBefore | inLower
      · have inFront : b ∈ front.filter fun a' => rank a' = rank a := by
          rw [← frontEq, List.mem_filter]
          exact ⟨inBefore, decide_eq_true same⟩
        have miss := missed b (List.mem_filter.mp inFront).1
        rw [hit'] at miss
        contradiction
      · exact lowerDiffer b inLower (decide_eq_true same)
  · intro b member hit'
    refine highest ?_ hit'
    rw [givenEq]
    exact List.mem_append_right _ (List.mem_append_right _ (List.mem_cons_of_mem a member))

end Searching

end Ranked

end Statechart
