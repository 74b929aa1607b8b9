/-
Traversals that may be refused: a function that may fail, tried on the
elements of a list one after the other. A traversal succeeds exactly if it
succeeds at every element, and then its results are the elements' results in
order (`mapM_eq_ok_iff`); otherwise it is the first failing element that is
reported (`mapM_eq_error_iff`).

`FailsWith` says of a computation when it succeeds and what it fails with
otherwise. It passes through traversals (`FailsWith.mapM`), so a traversal of
traversals is known to report the first failing element of the first failing
list.
-/
import Mathlib.Data.List.Forall2

namespace TokenForge

/-- Every element of a list is related to one of a related list. -/
theorem exists_of_forall₂_left {α β : Type} {R : α → β → Prop} {l : List α}
    {r : List β} (h : List.Forall₂ R l r) {a : α} (ha : a ∈ l) :
    ∃ b ∈ r, R a b := by
  induction h with
  | nil => cases ha
  | @cons x y l r hxy _ ih =>
      rcases List.mem_cons.1 ha with rfl | ha
      · exact ⟨y, List.mem_cons_self .., hxy⟩
      · obtain ⟨b, hb, hab⟩ := ih ha
        exact ⟨b, List.mem_cons_of_mem _ hb, hab⟩

-- ======================================================= the first element

/-- The first element of a list without a property. -/
def FirstWithout {α : Type} (p : α → Prop) (l : List α) (a : α) : Prop :=
  ∃ before after, l = before ++ a :: after ∧ (∀ b ∈ before, p b) ∧ ¬p a

section FirstWithout

variable {α : Type} {p : α → Prop} {l : List α} {a x : α}

theorem FirstWithout.mem (h : FirstWithout p l a) : a ∈ l ∧ ¬p a := by
  obtain ⟨before, after, rfl, -, ha⟩ := h
  exact ⟨List.mem_append_right _ (List.mem_cons_self ..), ha⟩

theorem firstWithout_iff_find? [DecidablePred p] :
    FirstWithout p l a ↔ l.find? (fun b => ¬p b) = some a := by
  rw [List.find?_eq_some_iff_append]
  simp only [FirstWithout, decide_not, Bool.not_eq_true',
    decide_eq_false_iff_not, Bool.not_not, decide_eq_true_eq]
  constructor
  · rintro ⟨before, after, hsplit, hbefore, ha⟩
    exact ⟨ha, before, after, hsplit, hbefore⟩
  · rintro ⟨ha, before, after, hsplit, hbefore⟩
    exact ⟨before, after, hsplit, hbefore, ha⟩

instance [DecidablePred p] [DecidableEq α] : Decidable (FirstWithout p l a) :=
  decidable_of_iff _ firstWithout_iff_find?.symm

theorem firstWithout_cons_of_pos (hx : p x) :
    FirstWithout p (x :: l) a ↔ FirstWithout p l a := by
  constructor
  · rintro ⟨before, after, hsplit, hbefore, ha⟩
    cases before with
    | nil =>
        cases hsplit
        exact absurd hx ha
    | cons b before =>
        obtain ⟨-, rfl⟩ := List.cons.inj hsplit
        exact ⟨before, after, rfl,
          fun b' hb' => hbefore b' (List.mem_cons_of_mem _ hb'), ha⟩
  · rintro ⟨before, after, rfl, hbefore, ha⟩
    exact ⟨x :: before, after, rfl, List.forall_mem_cons.2 ⟨hx, hbefore⟩, ha⟩

theorem firstWithout_cons_of_neg (hx : ¬p x) :
    FirstWithout p (x :: l) a ↔ a = x := by
  constructor
  · rintro ⟨before, after, hsplit, hbefore, -⟩
    cases before with
    | nil => exact (List.cons.inj hsplit).1.symm
    | cons b before =>
        obtain ⟨rfl, -⟩ := List.cons.inj hsplit
        exact absurd (hbefore x (List.mem_cons_self ..)) hx
  · rintro rfl
    exact ⟨[], l, rfl, fun b hb => absurd hb List.not_mem_nil, hx⟩

theorem exists_first (h : ∃ a ∈ l, ¬p a) : ∃ a, FirstWithout p l a := by
  induction l with
  | nil =>
      obtain ⟨a, ha, -⟩ := h
      cases ha
  | cons x l ih =>
      by_cases hx : p x
      · have htail : ∃ a ∈ l, ¬p a := by
          obtain ⟨a, ha, hp⟩ := h
          exact ⟨a, (List.mem_cons.1 ha).resolve_left
            fun hax => hp (hax ▸ hx), hp⟩
        obtain ⟨a, ha⟩ := ih htail
        exact ⟨a, (firstWithout_cons_of_pos hx).2 ha⟩
      · exact ⟨x, (firstWithout_cons_of_neg hx).2 rfl⟩

end FirstWithout

-- ============================================================= traversals

section Traversal

variable {ε α β : Type} {f : α → Except ε β}

/-- A traversal succeeds if every element does, with their results. -/
theorem mapM_eq_ok_iff {l : List α} {r : List β} :
    l.mapM f = .ok r ↔ List.Forall₂ (fun a b => f a = .ok b) l r := by
  induction l generalizing r with
  | nil =>
      rw [List.forall₂_nil_left_iff]
      exact ⟨fun h => (Except.ok.inj h).symm, fun h => by rw [h]; rfl⟩
  | cons a l ih =>
      rw [List.mapM_cons, List.forall₂_cons_left_iff]
      cases ha : f a with
      | error e =>
          refine ⟨fun h => ?_, ?_⟩
          · cases h
          · rintro ⟨b, r', hb, -, -⟩
            cases hb
      | ok b =>
          cases hl : l.mapM f with
          | error e =>
              refine ⟨fun h => ?_, ?_⟩
              · cases h
              · rintro ⟨b', r', -, hr', -⟩
                rw [ih.2 hr'] at hl
                cases hl
          | ok r' =>
              refine ⟨fun h => ?_, ?_⟩
              · cases h
                exact ⟨b, r', rfl, ih.1 hl, rfl⟩
              · rintro ⟨b', r'', hb, hr'', rfl⟩
                rw [ih.2 hr''] at hl
                cases hb
                cases hl
                rfl

theorem mapM_ok_of_forall {g : α → β} (l : List α)
    (h : ∀ a ∈ l, f a = .ok (g a)) : l.mapM f = .ok (l.map g) := by
  rw [mapM_eq_ok_iff, List.forall₂_map_right_iff, List.forall₂_same]
  exact h

theorem mem_of_mapM {l : List α} {r : List β} (h : l.mapM f = .ok r) {a : α}
    (ha : a ∈ l) : ∃ b ∈ r, f a = .ok b :=
  exists_of_forall₂_left (mapM_eq_ok_iff.1 h) ha

/-- Every result is that of some element. -/
theorem exists_of_mem_mapM {l : List α} {r : List β} (h : l.mapM f = .ok r)
    {b : β} (hb : b ∈ r) : ∃ a ∈ l, f a = .ok b := by
  have hflip : List.Forall₂ (fun b a => f a = .ok b) r l :=
    (mapM_eq_ok_iff.1 h).flip
  exact exists_of_forall₂_left hflip hb

/-- A traversal fails with what the first failing element fails with. -/
theorem mapM_eq_error_iff {l : List α} {e : ε} :
    l.mapM f = .error e
      ↔ ∃ a, FirstWithout (fun a => ∃ b, f a = .ok b) l a
        ∧ f a = .error e := by
  let works (a : α) : Prop := ∃ b, f a = .ok b
  induction l with
  | nil =>
      refine ⟨fun h => (nomatch h), ?_⟩
      rintro ⟨a, hfirst, -⟩
      exact absurd hfirst.mem.1 List.not_mem_nil
  | cons x l ih =>
      rw [List.mapM_cons]
      cases hx : f x with
      | error e' =>
          have hfails : ¬works x := by simp [works, hx]
          constructor
          · intro h
            cases h
            exact ⟨x, (firstWithout_cons_of_neg hfails).2 rfl, hx⟩
          · rintro ⟨a, hfirst, ha⟩
            rw [(firstWithout_cons_of_neg hfails).1 hfirst, hx] at ha
            cases ha
            rfl
      | ok b =>
          have hworks : works x := ⟨b, hx⟩
          refine Iff.trans ?_ (ih.trans <| exists_congr fun a =>
            and_congr_left' (firstWithout_cons_of_pos hworks).symm)
          cases l.mapM f with
          | error e' => exact Iff.rfl
          | ok r => exact ⟨fun h => (nomatch h), fun h => (nomatch h)⟩

end Traversal

-- =============================================================== failures

/-- When a computation succeeds, and what it fails with otherwise. -/
structure FailsWith {ε α : Type} (x : Except ε α) (succeeds : Prop)
    (conflict : ε → Prop) :
    Prop where
  ok_iff : (∃ a, x = .ok a) ↔ succeeds
  error_iff : ¬succeeds → ∀ e, x = .error e ↔ conflict e

namespace FailsWith

variable {ε α β : Type} {x : Except ε α} {p : Prop} {conflict : ε → Prop}

/-- It fails exactly if it does not succeed. -/
theorem fails_iff (h : FailsWith x p conflict) : (∃ e, x = .error e) ↔ ¬p := by
  rw [← h.ok_iff]
  cases x with
  | error e => simp
  | ok a => simp

/-- Where a conflict rules success out, the conflicts are the errors. -/
theorem eq_error_iff (h : FailsWith x p conflict) {e : ε}
    (hconflict : conflict e → ¬p) :
    x = .error e ↔ conflict e := by
  refine ⟨fun he => (h.error_iff (h.fails_iff.1 ⟨e, he⟩) e).1 he, fun he => ?_⟩
  exact (h.error_iff (hconflict he) e).2 he

/-- What is done with a result that cannot fail any more changes nothing. -/
theorem bind_ok (h : FailsWith x p conflict) (g : α → β) :
    FailsWith (x >>= fun a => .ok (g a)) p conflict := by
  obtain ⟨hok, herror⟩ := h
  cases x with
  | error e =>
      show FailsWith (.error e : Except ε β) p conflict
      exact ⟨by simpa using hok, by simpa using herror⟩
  | ok a =>
      show FailsWith (.ok (g a) : Except ε β) p conflict
      exact ⟨by simpa using hok, by simpa using herror⟩

/-- A traversal succeeds if every element does, and otherwise fails with the
conflict of the first element that does not. -/
theorem mapM {f : α → Except ε β} {p : α → Prop} {conflict : α → ε → Prop}
    (h : ∀ a, FailsWith (f a) (p a) (conflict a)) (l : List α) :
    FailsWith (l.mapM f) (∀ a ∈ l, p a) fun e => ∃ a,
      FirstWithout p l a ∧ conflict a e where
  ok_iff := by
    constructor
    · rintro ⟨r, hr⟩ a ha
      obtain ⟨b, -, hb⟩ := mem_of_mapM hr ha
      exact (h a).ok_iff.1 ⟨b, hb⟩
    · intro hall
      cases hr : l.mapM f with
      | ok r => exact ⟨r, rfl⟩
      | error e =>
          obtain ⟨a, hfirst, -⟩ := mapM_eq_error_iff.1 hr
          exact absurd ((h a).ok_iff.2 (hall a hfirst.mem.1)) hfirst.mem.2
  error_iff _ e := by
    have hp : (fun a => ∃ b, f a = .ok b) = p :=
      funext fun a => propext (h a).ok_iff
    rw [mapM_eq_error_iff, hp]
    exact exists_congr fun a => and_congr_right fun hfirst =>
      (h a).error_iff hfirst.mem.2 e

end FailsWith

-- ================================================================ searches

/-- Searches for the same thing in related lists find related elements, or
find nothing in both. -/
theorem rel_find? {α : Type} {R : α → α → Prop} {p q : α → Bool} {l r : List α}
    (h : List.Forall₂ R l r) (hpq : ∀ a b, R a b → p a = q b) :
    Option.Rel R (l.find? p) (r.find? q) := by
  induction h with
  | nil => exact .none
  | @cons a b l r hab _ ih =>
      rw [List.find?_cons, List.find?_cons, hpq a b hab]
      cases q b with
      | true => exact .some hab
      | false => exact ih

end TokenForge
