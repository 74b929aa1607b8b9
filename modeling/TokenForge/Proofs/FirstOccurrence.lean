/-
Lists without their later repetitions. `List.eraseDups` keeps the first
occurrence of every element and nothing else (`nodup_eraseDups`); read from the
right, a last element stays exactly if it is new (`eraseDups_concat`), so what
stays is in the order of the first occurrences (`firstOccurrences_iff`). It
also does not matter whether the parts of a list are cleared of repetitions
before they are put together (`eraseDups_flatMap`), or before or after they are
renamed one to one (`eraseDups_map`).
-/
import Mathlib.Data.List.Basic
import Mathlib.Data.List.Induction

namespace TokenForge

/-- No element is left twice. -/
theorem nodup_eraseDups {α : Type} [BEq α] [LawfulBEq α] (l : List α) :
    l.eraseDups.Nodup := by
  match l with
  | [] => exact List.nodup_nil
  | a :: l =>
      rw [List.eraseDups_cons, List.nodup_cons]
      refine ⟨?_, nodup_eraseDups _⟩
      rw [List.mem_eraseDups, List.mem_filter]
      simp
termination_by l.length
decreasing_by exact Nat.lt_succ_of_le (List.length_filter_le _ _)

section FirstOccurrence

variable {α β : Type} [DecidableEq α]

/-- A last member is added to the first occurrences if it is a new one. -/
theorem eraseDups_concat (l : List α) (a : α) :
    (l ++ [a]).eraseDups
      = if a ∈ l then l.eraseDups else l.eraseDups ++ [a] := by
  rw [List.eraseDups_append, List.removeAll]
  by_cases ha : a ∈ l
  · simp [ha]
  · simp [ha, List.eraseDups_cons]

theorem eraseDups_map [DecidableEq β] {f : α → β} (hf : Function.Injective f)
    (l : List α) :
    (l.map f).eraseDups = l.eraseDups.map f := by
  induction l using List.reverseRecOn with
  | nil => rfl
  | append_singleton l a ih =>
      rw [List.map_append, List.map_singleton, eraseDups_concat,
        eraseDups_concat, ih]
      have hmem : f a ∈ l.map f ↔ a ∈ l := List.mem_map_of_injective hf
      by_cases ha : a ∈ l
      · rw [if_pos ha, if_pos (hmem.2 ha)]
      · rw [if_neg ha, if_neg fun h => ha (hmem.1 h), List.map_append,
          List.map_singleton]

/-- Renamings that put elements together leave the same,
before or after clearing. -/
theorem eraseDups_map_eraseDups [DecidableEq β] (f : α → β) (l : List α) :
    (l.eraseDups.map f).eraseDups = (l.map f).eraseDups := by
  induction l using List.reverseRecOn with
  | nil => rfl
  | append_singleton l a ih =>
      rw [eraseDups_concat, List.map_append, List.map_singleton,
        eraseDups_concat]
      by_cases ha : a ∈ l
      · rw [if_pos ha, if_pos (List.mem_map_of_mem ha), ih]
      · rw [if_neg ha, List.map_append, List.map_singleton,
          eraseDups_concat, ih]
        simp only [List.mem_map, List.mem_eraseDups]

/-- Repetitions in the second part may be dropped before. -/
theorem eraseDups_append_right (l r : List α) :
    (l ++ r.eraseDups).eraseDups = (l ++ r).eraseDups := by
  induction r using List.reverseRecOn with
  | nil => rfl
  | append_singleton r a ih =>
      rw [eraseDups_concat, ← List.append_assoc l r, eraseDups_concat, ← ih]
      by_cases har : a ∈ r
      · rw [if_pos har, if_pos (List.mem_append_right l har)]
      · rw [if_neg har, ← List.append_assoc, eraseDups_concat]
        simp only [List.mem_append, List.mem_eraseDups]

/-- So may those in the first. -/
theorem eraseDups_append_left (l r : List α) :
    (l.eraseDups ++ r).eraseDups = (l ++ r).eraseDups := by
  induction r using List.reverseRecOn with
  | nil =>
      rw [List.append_nil, List.append_nil]
      exact eraseDups_append_right [] l
  | append_singleton r a ih =>
      rw [← List.append_assoc, ← List.append_assoc, eraseDups_concat,
        eraseDups_concat, ih]
      simp only [List.mem_append, List.mem_eraseDups]

/-- A list has the elements of another one, each once, in the order in
which they first occur. -/
structure FirstOccurrences (l kept : List α) : Prop where
  once : kept.Nodup
  mem_iff : ∀ a, a ∈ kept ↔ a ∈ l
  in_order : kept.Pairwise fun a b => l.idxOf a < l.idxOf b

/-- The first occurrences stand in the order of their places. -/
theorem pairwise_idxOf_eraseDups (l : List α) :
    l.eraseDups.Pairwise fun a b => l.idxOf a < l.idxOf b := by
  induction l using List.reverseRecOn with
  | nil => exact .nil
  | append_singleton l a ih =>
      -- the elements of the beginning keep their places, and a new last
      -- element has the last one
      have hplace : ∀ b ∈ l, (l ++ [a]).idxOf b = l.idxOf b :=
        fun b hb => List.idxOf_append_of_mem hb
      have hkept : l.eraseDups.Pairwise fun b c =>
        (l ++ [a]).idxOf b < (l ++ [a]).idxOf c := by
        refine ih.imp_of_mem fun {b c} hb hc hbc => ?_
        rw [hplace b (List.mem_eraseDups.1 hb),
          hplace c (List.mem_eraseDups.1 hc)]
        exact hbc
      rw [eraseDups_concat]
      by_cases ha : a ∈ l
      · rw [if_pos ha]
        exact hkept
      · rw [if_neg ha, List.pairwise_append]
        refine ⟨hkept, List.pairwise_singleton _ _, fun b hb c hc => ?_⟩
        have hbl : b ∈ l := List.mem_eraseDups.1 hb
        rw [List.mem_singleton.1 hc, hplace b hbl,
          List.idxOf_append_of_notMem ha]
        exact Nat.lt_of_lt_of_le (List.idxOf_lt_length_of_mem hbl)
          (Nat.le_add_right _ _)

/-- There is one such list. -/
theorem firstOccurrences_iff {l kept : List α} :
    FirstOccurrences l kept ↔ kept = l.eraseDups := by
  constructor
  · intro h
    have hperm : kept.Perm l.eraseDups := by
      refine (List.perm_ext_iff_of_nodup h.once (nodup_eraseDups l)).2
        fun a => ?_
      rw [h.mem_iff, List.mem_eraseDups]
    refine List.Perm.eq_of_pairwise (fun a b _ _ hab hba => ?_) h.in_order
      (pairwise_idxOf_eraseDups l) hperm
    exact absurd hab (Nat.lt_asymm hba)
  · rintro rfl
    exact ⟨nodup_eraseDups l, fun _ => List.mem_eraseDups,
      pairwise_idxOf_eraseDups l⟩

/-- Clearing the parts of a list of repetitions first makes no difference. -/
theorem eraseDups_flatMap (l : List β) (f : β → List α) :
    (l.flatMap fun b => (f b).eraseDups).eraseDups
      = (l.flatMap f).eraseDups := by
  induction l with
  | nil => rfl
  | cons b l ih =>
      rw [List.flatMap_cons, List.flatMap_cons, eraseDups_append_left,
        ← eraseDups_append_right, ih, eraseDups_append_right]

end FirstOccurrence

end TokenForge
