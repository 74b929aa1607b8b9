/-
What a whole history makes of a contract. The representation invariant
(`Contract.WellFormed`) says that the names of bases, the signatures of
functions and the ancestors of a function are without repetition; every step
keeps it, also one that runs into a conflict, so every contract that a
history leaves has it (`wellFormed_replay`).

`recorded` reads off a history which ancestors were named for a signature.
The entry of the table holds exactly those (`records_replay`): neither
the order of the steps nor repetitions nor conflicts leave another trace.
-/
import Mathlib.Data.List.Induction
import TokenForge.Proofs.Contract.Step

namespace TokenForge

namespace Contract

-- ============================================================= histories

theorem replay_nil (c : Contract) : replay [] c = c := rfl

theorem replay_cons (s : Step) (history : List Step) (c : Contract) :
    replay (s :: history) c = replay history (s.next c) := rfl

/-- More steps start from what the first ones leave. -/
theorem replay_append (h₁ h₂ : List Step) (c : Contract) :
    replay (h₁ ++ h₂) c = replay h₂ (replay h₁ c) :=
  List.foldl_append

/-- What every step keeps, every history keeps. -/
theorem replay_induction {P : Contract → Prop} (history : List Step) :
    ∀ {c : Contract}, P c → (∀ (s : Step) (c : Contract), P c → P (s.next c)) →
      P (replay history c) := by
  induction history with
  | nil => intro c h _; exact h
  | cons s history ih =>
      intro c h hstep
      exact ih (hstep s c h) hstep

theorem name_replay (history : List Step) (c : Contract) :
    (replay history c).name = c.name := by
  refine replay_induction history (P := fun c' => c'.name = c.name) rfl ?_
  intro s c' h
  rw [Step.name_next, h]

-- ========================================================== the invariant

/-- Nothing is listed twice. -/
structure WellFormed (c : Contract) : Prop where
  /-- No two bases share a name. -/
  bases_distinct : c.baseNames.Nodup
  /-- No two entries share a signature. -/
  signatures_distinct : c.signatures.Nodup
  /-- No entry names an ancestor twice. -/
  ancestors_distinct : ∀ m ∈ c.methods, m.ancestors.Nodup

/-- A contract to which nothing was done is well formed. -/
theorem wellFormed_start (name : String) :
    WellFormed { name } where
  bases_distinct := List.nodup_nil
  signatures_distinct := List.nodup_nil
  ancestors_distinct := fun _ hm => absurd hm (List.not_mem_nil)

/-- Registering an ancestor makes none stand twice. -/
theorem nodup_addAncestor {m : Method} (h : m.ancestors.Nodup) (a : String) :
    (m.addAncestor a).ancestors.Nodup := by
  unfold Method.addAncestor
  split
  · exact h
  · next ha =>
    rw [List.nodup_append]
    refine ⟨h, List.nodup_singleton a, ?_⟩
    rintro x hx y hy rfl
    exact ha (List.mem_singleton.1 hy ▸ hx)

/-- The ancestors of an edited function: those it had, unless the step names
one. -/
theorem ancestors_result {s : Step} {d : Declaration} {f : MethodEdit}
    (hs : s.edit? = some (d, f)) (m : Method) :
    (∃ a, s = .ancestor a d ∧ f.result m = m.addAncestor a)
      ∨ ((∀ a e, s ≠ .ancestor a e)
        ∧ (f.result m).ancestors = m.ancestors) := by
  rcases Step.edit?_cases hs with ⟨a, rfl, rfl⟩ | ⟨text, rfl, rfl⟩ |
    ⟨change, refusal, hbody, rfl⟩
  · exact .inl ⟨a, rfl, rfl⟩
  · exact .inr ⟨fun a e h => (nomatch h), rfl⟩
  · refine .inr ⟨?_, by rw [MethodEdit.result_onBody]⟩
    rintro a e rfl
    cases hbody

/-- Every step keeps the names of the bases apart. -/
theorem bases_distinct_next {c : Contract} (h : c.baseNames.Nodup) (s : Step) :
    (s.next c).baseNames.Nodup := by
  by_cases hs : ∃ b, s = .base b
  · obtain ⟨b, rfl⟩ := hs
    rw [Step.next_base]
    unfold baseNames
    dsimp only
    split
    · exact h
    · next hb =>
      rw [List.map_append, List.map_singleton, List.nodup_append]
      refine ⟨h, List.nodup_singleton _, ?_⟩
      rintro x hx y hy rfl
      exact hb (List.mem_singleton.1 hy ▸ hx)
  · have hbases := Step.bases_next (fun b hb => hs ⟨b, hb⟩) c
    unfold baseNames
    rw [hbases]
    exact h

/-- Every step keeps the invariant, conflicts included. -/
theorem wellFormed_next {c : Contract} (h : c.WellFormed) (s : Step) :
    (s.next c).WellFormed := by
  cases hs : s.edit? with
  | none =>
      have hmethods := Step.methods_next hs c
      refine ⟨bases_distinct_next h.bases_distinct s, ?_, ?_⟩
      · unfold signatures
        rw [hmethods]
        exact h.signatures_distinct
      · rw [hmethods]
        exact h.ancestors_distinct
  | some df =>
      obtain ⟨d, f⟩ := df
      have hsig := Step.signature_result hs
      have hnext := (Step.next_of_edit hs c).1
      refine ⟨bases_distinct_next h.bases_distinct s, ?_, ?_⟩
      · rw [hnext, signatures_edited h.signatures_distinct hsig]
        split
        · exact h.signatures_distinct
        · next hd =>
          rw [List.nodup_append]
          refine ⟨h.signatures_distinct, List.nodup_singleton _, ?_⟩
          rintro x hx y hy rfl
          exact hd (List.mem_singleton.1 hy ▸ hx)
      · intro m hm
        rw [hnext, mem_methods_edited h.signatures_distinct hsig] at hm
        rcases hm with ⟨hm, -⟩ | rfl
        · exact h.ancestors_distinct m hm
        · -- the edited function, which may be a fresh one
          have hold : (c.methodFor d).ancestors.Nodup := by
            rcases methodFor_cases c d with hfresh | hentry
            · rw [hfresh]
              exact List.nodup_nil
            · exact h.ancestors_distinct _ hentry
          rcases ancestors_result hs (c.methodFor d)
            with ⟨a, -, hres⟩ | ⟨-, hres⟩
          · rw [hres]
            exact nodup_addAncestor hold a
          · rw [hres]
            exact hold

/-- Every contract that a history leaves is well formed. -/
theorem wellFormed_replay (history : List Step) (name : String) :
    WellFormed (replay history { name }) :=
  replay_induction history (wellFormed_start name) fun s _ h =>
    wellFormed_next h s

/-- A contract that steps make from nothing. -/
def Reachable (c : Contract) : Prop :=
  ∃ name history, c = replay history { name }

/-- A contract that steps can reach is well formed. -/
theorem Reachable.wellFormed {c : Contract} (h : c.Reachable) :
    c.WellFormed := by
  obtain ⟨name, history, rfl⟩ := h
  exact wellFormed_replay history name

end Contract

-- ================================================= ancestors of a history

/-- The ancestors a step names for a signature. -/
def Step.named (sig : Signature) : Step → List String
  | .ancestor a d => if d.signature = sig then [a] else []
  | _ => []

/-- The ancestors a history names for a signature, in order and as often as
they are named. -/
def recorded (history : List Step) (sig : Signature) : List String :=
  history.flatMap (Step.named sig)

theorem recorded_append (h₁ h₂ : List Step) (sig : Signature) :
    recorded (h₁ ++ h₂) sig = recorded h₁ sig ++ recorded h₂ sig :=
  List.flatMap_append

theorem recorded_singleton (s : Step) (sig : Signature) :
    recorded [s] sig = s.named sig :=
  List.append_nil _

/-- A step that names no ancestor names none. -/
theorem Step.named_of_ne {s : Step} (hs : ∀ a d, s ≠ .ancestor a d)
    (sig : Signature) : s.named sig = [] := by
  cases s with
  | ancestor a d => exact absurd rfl (hs a d)
  | _ => rfl

/-- A step names ancestors for the signature it speaks of only. -/
theorem Step.named_other {s : Step} {d : Declaration} {f : MethodEdit}
    (hs : s.edit? = some (d, f)) {sig : Signature} (h : sig ≠ d.signature) :
    s.named sig = [] := by
  cases s with
  | ancestor a d' =>
      obtain ⟨rfl, -⟩ := Prod.mk.inj (Option.some.inj hs)
      exact if_neg fun hd => h hd.symm
  | _ => rfl

/-- What an edit makes of the ancestors: the step's own are added. -/
theorem mem_ancestors_result {s : Step} {d : Declaration} {f : MethodEdit}
    (hs : s.edit? = some (d, f)) (m : Method) (x : String) :
    x ∈ (f.result m).ancestors
      ↔ x ∈ m.ancestors ∨ x ∈ s.named d.signature := by
  rcases Contract.ancestors_result hs m with ⟨a, rfl, hres⟩ | ⟨hne, hres⟩
  · rw [hres, Method.addAncestor_eq, mem_withName]
    simp [Step.named]
  · rw [hres, Step.named_of_ne hne]
    simp

/-- The table of a contract holds what a history recorded: each entry the
ancestors named for its signature, and no entry is missing. -/
def Contract.Records (c : Contract) (history : List Step) : Prop :=
  (∀ m ∈ c.methods, ∀ a, a ∈ m.ancestors ↔ a ∈ recorded history m.signature)
    ∧ ∀ sig, sig ∉ c.signatures → recorded history sig = []

/-- The function of a declaration holds what was recorded for it, also if it
is fresh. -/
theorem Contract.Records.mem_methodFor {c : Contract} {history : List Step}
    (h : c.Records history) (d : Declaration) (a : String) :
    a ∈ (c.methodFor d).ancestors ↔ a ∈ recorded history d.signature := by
  cases hfind : c.method? d.signature with
  | none =>
      rw [methodFor_of_none hfind, h.2 _ (method?_eq_none.1 hfind)]
      exact Iff.rfl
  | some m =>
      obtain ⟨hm, hsig⟩ := method?_eq_some hfind
      rw [methodFor_of_some hfind, ← hsig]
      exact h.1 m hm a

/-- After a step, what is recorded is what was recorded and
what the step names. -/
theorem Contract.Records.next {c : Contract} {history : List Step}
    (h : c.Records history) (hc : c.signatures.Nodup) (s : Step) :
    (s.next c).Records (history ++ [s]) := by
  cases hs : s.edit? with
  | none =>
      have hne : ∀ a d, s ≠ .ancestor a d := by
        rintro a d rfl
        cases hs
      unfold Records signatures
      rw [Step.methods_next hs]
      simp only [recorded_append, recorded_singleton, Step.named_of_ne hne,
        List.append_nil]
      exact h
  | some df =>
      obtain ⟨d, f⟩ := df
      have hsig := Step.signature_result hs
      rw [(Step.next_of_edit hs c).1]
      refine ⟨?_, ?_⟩
      · intro m hm a
        rw [recorded_append, recorded_singleton, List.mem_append]
        rcases (mem_methods_edited hc hsig).1 hm with ⟨hm, hne⟩ | rfl
        · -- another function: the step names nothing for it
          rw [h.1 m hm a, Step.named_other hs hne]
          simp
        · rw [mem_ancestors_result hs, h.mem_methodFor, hsig,
            signature_methodFor]
      · -- a function that is still not there was never spoken of
        intro sig hnew
        rw [signatures_edited hc hsig] at hnew
        have hold : sig ∉ c.signatures := by
          split at hnew
          · exact hnew
          · exact fun hmem => hnew (List.mem_append_left _ hmem)
        have hne : sig ≠ d.signature := by
          rintro rfl
          rw [if_neg hold] at hnew
          exact hnew (List.mem_append_right _ (List.mem_singleton_self _))
        rw [recorded_append, recorded_singleton, h.2 sig hold,
          Step.named_other hs hne]
        rfl

/-- Every contract that a history leaves holds what the history recorded. -/
theorem Contract.records_replay (history : List Step) (name : String) :
    (replay history { name }).Records history := by
  induction history using List.reverseRecOn with
  | nil => exact ⟨fun m hm => absurd hm List.not_mem_nil, fun _ _ => rfl⟩
  | append_singleton history s ih =>
      rw [replay_append]
      exact ih.next (wellFormed_replay history name).signatures_distinct s

end TokenForge
