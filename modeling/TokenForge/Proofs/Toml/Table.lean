/-
The table of a document that is nothing but assignments to different keys. Each
assignment finds its key free and puts a leaf after those there are
(`foldlM_assign`), so the table has what was assigned, in the order of the
keys. That order is a matter of listing only: where keys are different, what
stands under one of them is the same in every order (`lookup_perm`).
-/
import Mathlib.Data.List.Perm.Basic
import Mathlib.Data.String.Basic
import TokenForge.Toml.Document
import TokenForge.Toml.Readable

namespace TokenForge.Toml

-- ================================================================= lookup

section Lookup

variable {α : Type} {l l' : List (String × α)}

/-- Where keys are different, an entry is found under its key. -/
theorem lookup_eq_some_iff_mem (hl : (l.map Prod.fst).Nodup) (key : String)
    (a : α) :
    l.lookup key = some a ↔ (key, a) ∈ l := by
  induction l with
  | nil => simp
  | cons e l ih =>
      obtain ⟨k, b⟩ := e
      rw [List.map_cons, List.nodup_cons] at hl
      rw [List.lookup_cons, List.mem_cons]
      by_cases hkey : key = k
      · subst hkey
        rw [beq_self_eq_true]
        constructor
        · intro h
          exact .inl (congrArg (key, ·) (Option.some.inj h).symm)
        · rintro (h | h)
          · exact congrArg some (Prod.mk.inj h).2.symm
          · exact absurd (List.mem_map_of_mem h) hl.1
      · rw [beq_false_of_ne hkey, ih hl.2]
        constructor
        · exact .inr
        · rintro (h | h)
          · exact absurd (Prod.mk.inj h).1 hkey
          · exact h

/-- What stands under a key does not depend on the order. -/
theorem lookup_perm (h : l.Perm l') (hl : (l.map Prod.fst).Nodup)
    (key : String) :
    l.lookup key = l'.lookup key := by
  have hl' : (l'.map Prod.fst).Nodup := (h.map Prod.fst).nodup_iff.1 hl
  refine Option.ext fun a => ?_
  rw [lookup_eq_some_iff_mem hl, lookup_eq_some_iff_mem hl', h.mem_iff]

theorem lookup_eq_none_of_not_mem {key : String} (h : key ∉ l.map Prod.fst) :
    l.lookup key = none := by
  rw [List.lookup_eq_none_iff]
  intro e he
  rw [bne_iff_ne]
  rintro rfl
  exact h (List.mem_map_of_mem he)

end Lookup

-- ================================================================ sorting

/-- Sorting loses no entry. -/
theorem sortEntries_perm (es : List (String × Value)) :
    (sortEntries es).Perm es :=
  List.mergeSort_perm es _

/-- What is found under a key does not depend on the order if
no key stands twice. -/
theorem lookup_sortEntries {es : List (String × Value)}
    (h : (es.map Prod.fst).Nodup) (key : String) :
    (sortEntries es).lookup key = es.lookup key :=
  (lookup_perm (sortEntries_perm es).symm h key).symm

/-- Sorted entries are in the order of their keys. -/
theorem pairwise_sortEntries (es : List (String × Value)) :
    (sortEntries es).Pairwise fun a b => a.1 ≤ b.1 := by
  have htrans : ∀ a b c : String × Value, decide (a.1 ≤ b.1) = true →
      decide (b.1 ≤ c.1) = true → decide (a.1 ≤ c.1) = true := by
    intro a b c hab hbc
    rw [decide_eq_true_eq] at hab hbc ⊢
    exact le_trans hab hbc
  have htotal : ∀ a b : String × Value,
      (decide (a.1 ≤ b.1) || decide (b.1 ≤ a.1)) = true := by
    intro a b
    rw [Bool.or_eq_true, decide_eq_true_eq, decide_eq_true_eq]
    exact le_total a.1 b.1
  exact (List.pairwise_mergeSort htrans htotal es).imp of_decide_eq_true

/-- Of entries in the order of their keys, those up to a key are those under
smaller keys, or all of them if the key is not there. -/
theorem mem_takeWhile_ne_iff {es : List (String × Value)}
    (hsorted : es.Pairwise fun a b => a.1 ≤ b.1) {key : String}
    {e : String × Value} :
    e ∈ es.takeWhile (·.1 != key)
      ↔ e ∈ es ∧ (es.lookup key = none ∨ e.1 < key) := by
  induction es with
  | nil => simp
  | cons a es ih =>
      rw [List.pairwise_cons] at hsorted
      rw [List.lookup_cons, List.mem_cons]
      by_cases hkey : a.1 = key
      · subst hkey
        have hlarger : ∀ e, e = a ∨ e ∈ es → ¬ e.1 < a.1 := by
          rintro e (rfl | he)
          · exact lt_irrefl _
          · exact not_lt.2 (hsorted.1 e he)
        simp only [List.takeWhile_cons, bne_self_eq_false, Bool.false_eq_true,
          if_false, List.not_mem_nil, beq_self_eq_true, reduceCtorEq, false_or,
          false_iff, not_and]
        exact hlarger e
      · have hfirst : es.lookup key = none ∨ a.1 < key := by
          cases hfound : es.lookup key with
          | none => exact .inl rfl
          | some v =>
              obtain ⟨front, tail, rfl, -⟩ := List.lookup_eq_some_iff.1 hfound
              exact .inr (lt_of_le_of_ne (hsorted.1 (key, v) (by simp)) hkey)
        rw [List.takeWhile_cons_of_pos (by simpa using hkey), List.mem_cons,
          ih hsorted.2, beq_false_of_ne (Ne.symm hkey)]
        constructor
        · rintro (rfl | ⟨he, hbefore⟩)
          · exact ⟨.inl rfl, hfirst⟩
          · exact ⟨.inr he, hbefore⟩
        · rintro ⟨rfl | he, hbefore⟩
          · exact .inl rfl
          · exact .inr ⟨he, hbefore⟩

/-- Entries are readable if the value of each is. -/
theorem entriesReadable_iff {es : List (String × Value)} :
    entriesReadable es = true ↔ ∀ e ∈ es, e.2.isReadable = true := by
  induction es with
  | nil => simp [entriesReadable]
  | cons e es ih =>
      rw [entriesReadable, Bool.and_eq_true, ih, List.forall_mem_cons]

theorem entriesReadable_takeWhile {es : List (String × Value)}
    (h : entriesReadable es = true) (p : String × Value → Bool) :
    entriesReadable (es.takeWhile p) = true := by
  rw [entriesReadable_iff] at h ⊢
  exact fun e he => h e ((List.takeWhile_sublist p).mem he)

theorem entriesReadable_sortEntries (es : List (String × Value)) :
    entriesReadable (sortEntries es) = entriesReadable es := by
  rw [Bool.eq_iff_iff, entriesReadable_iff, entriesReadable_iff]
  exact forall_congr' fun e => by rw [(sortEntries_perm es).mem_iff]

-- ============================================================ assignments

/-- Values under their keys, as a table holds them. -/
def leaves (es : List (String × Value)) : Entries :=
  es.map fun e => (e.1, .leaf e.2)

/-- Entries that were assigned one by one are all values. -/
theorem valuesOf_leaves (es : List (String × Value)) :
    valuesOf (leaves es) = es := by
  induction es with
  | nil => rfl
  | cons e es ih =>
      show (e.1, e.2) :: valuesOf (leaves es) = _
      rw [ih]

/-- The statement that assigns a value to a key. -/
def assignment (e : String × Value) : Statement := .assign [e.1] e.2

/-- An assignment to a new key is appended. -/
theorem add_assignment {done : List (String × Value)} {e : String × Value}
    (h : e.1 ∉ done.map Prod.fst) :
    Draft.add ⟨leaves done, []⟩ (assignment e)
      = some ⟨leaves (done ++ [e]), []⟩ := by
  have hfree : (leaves done).lookup e.1 = none := by
    refine lookup_eq_none_of_not_mem ?_
    unfold leaves
    rwa [List.map_map]
  have hassign : Entries.assign e.2 [e.1] (leaves done)
      = some (leaves (done ++ [e])) := by
    unfold Entries.assign Entries.assignFrom
    rw [hfree]
    unfold leaves
    rw [List.map_append]
    rfl
  show (do
    let entries ← Entries.assign e.2 [e.1] (leaves done)
    some (Draft.mk entries [])) = _
  rw [hassign]
  rfl

/-- Assignments to new and different keys put one leaf after the other. -/
theorem foldlM_assign (es : List (String × Value)) :
    ∀ done : List (String × Value), ((done ++ es).map Prod.fst).Nodup →
      (es.map assignment).foldlM Draft.add ⟨leaves done, []⟩
        = some ⟨leaves (done ++ es), []⟩ := by
  induction es with
  | nil =>
      intro done _
      rw [List.append_nil]
      rfl
  | cons e es ih =>
      intro done h
      have hmove : done ++ e :: es = done ++ [e] ++ es :=
        List.append_cons done e es
      have hnew : e.1 ∉ done.map Prod.fst := by
        rw [List.map_append, List.nodup_append] at h
        intro hmem
        exact h.2.2 _ hmem _ (List.mem_map_of_mem (List.mem_cons_self ..)) rfl
      rw [List.map_cons, List.foldlM_cons, add_assignment hnew]
      rw [hmove] at h ⊢
      exact ih (done ++ [e]) h

/-- Assignments to different keys build the table of what they assign. -/
theorem build_assignments {es : List (String × Value)}
    (h : (es.map Prod.fst).Nodup) :
    build (es.map assignment) = some (sortEntries es) := by
  have hfold := foldlM_assign es [] h
  unfold build
  rw [show Draft.empty = ⟨leaves [], []⟩ from rfl, hfold, Option.map_some,
    Entries.complete, List.nil_append, valuesOf_leaves]

end TokenForge.Toml
