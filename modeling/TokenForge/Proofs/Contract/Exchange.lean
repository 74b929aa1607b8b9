/-
Two neighbouring steps of a history, taken in the other order. Steps on
different parts of a contract commute on the nose, and so do steps on two
functions that are both in the table. On one function that is in the table,
a step on the ancestors, one on the modifiers and one on the body commute as
well; two steps on the ancestors leave them in another order. That last case
is why contracts are compared with `Alike` instead of equality: everything
agrees but the order of each function's ancestors.

Every step respects `Alike` and runs into the same conflict on both sides
(`Step.next_of_alike`), so the difference never grows, and an exchange early
in a history changes nothing that comes after it (`replay_exchange`).

A step that puts a function into the table is not exchanged with another
that speaks of a function: the order of the table would change.
-/
import TokenForge.Proofs.Contract.Replay
import TokenForge.Proofs.Traversal

namespace TokenForge

-- ================================================================= alike

/-- Two functions that differ in the order of their ancestors at most. -/
structure Method.Alike (m n : Method) : Prop where
  decl : m.decl = n.decl
  ancestors : m.ancestors.Perm n.ancestors
  modifiers : m.modifiers = n.modifiers
  body : m.body = n.body

theorem Method.Alike.refl (m : Method) : m.Alike m :=
  ⟨rfl, .refl _, rfl, rfl⟩

theorem Method.Alike.of_eq {m n : Method} (h : m = n) : m.Alike n :=
  h ▸ .refl m

theorem Method.Alike.signature {m n : Method} (h : m.Alike n) :
    m.signature = n.signature :=
  congrArg Declaration.signature h.decl

/-- Two contracts that differ in the order of their functions' ancestors at
most. -/
structure Contract.Alike (c c' : Contract) : Prop where
  rest : c' = { c with methods := c'.methods }
  methods : List.Forall₂ Method.Alike c.methods c'.methods

theorem Contract.Alike.of_eq {c c' : Contract} (h : c = c') : c.Alike c' := by
  subst h
  exact ⟨rfl, List.forall₂_same.2 fun m _ => .refl m⟩

/-- Contracts that are alike look up functions that are. -/
theorem Contract.Alike.methodFor {c c' : Contract} (h : c.Alike c')
    (d : Declaration) : (c.methodFor d).Alike (c'.methodFor d) := by
  have hget : ∀ {x y : Option Method}, Option.Rel Method.Alike x y →
      (x.getD (.fresh d)).Alike (y.getD (.fresh d)) := by
    intro x y hxy
    cases hxy with
    | none => exact .refl _
    | some hmn => exact hmn
  exact hget (rel_find? h.methods fun m n hmn => by rw [hmn.signature])

-- ============================================================ like edits

/-- An edit does the same to like functions. -/
def MethodEdit.Respectful (f : MethodEdit) : Prop :=
  ∀ m n : Method, m.Alike n →
    (f.result m).Alike (f.result n) ∧ f.refusal? m = f.refusal? n

/-- Naming an ancestor respects the likeness of functions. -/
theorem MethodEdit.respectful_onAncestors (a : String) :
    (onAncestors a).Respectful := by
  intro m n h
  refine ⟨?_, rfl⟩
  show (m.addAncestor a).Alike (n.addAncestor a)
  unfold Method.addAncestor
  by_cases ha : a ∈ m.ancestors
  · rw [if_pos ha, if_pos (h.ancestors.mem_iff.1 ha)]
    exact h
  · rw [if_neg ha, if_neg fun hn => ha (h.ancestors.mem_iff.2 hn)]
    exact ⟨h.decl, h.ancestors.append_right _, h.modifiers, h.body⟩

/-- So does giving a modifier. -/
theorem MethodEdit.respectful_onModifiers (text : String) :
    (onModifiers text).Respectful := by
  intro m n h
  exact ⟨⟨h.decl, h.ancestors, congrArg (· ++ [text]) h.modifiers, h.body⟩,
    rfl⟩

/-- So does working on the body. -/
theorem MethodEdit.respectful_onBody (change : Body → Option Body)
    (refusal : Signature → ContractError) :
    (onBody change refusal).Respectful := by
  intro m n h
  rw [result_onBody, result_onBody, refusal?_onBody, refusal?_onBody, ← h.body,
    ← h.signature]
  exact ⟨⟨h.decl, h.ancestors, h.modifiers, rfl⟩, rfl⟩

/-- What a step does to a function, it does to a like one. -/
theorem Step.respectful {s : Step} {d : Declaration} {f : MethodEdit}
    (hs : s.edit? = some (d, f)) : f.Respectful := by
  rcases edit?_cases hs with ⟨a, -, rfl⟩ | ⟨text, -, rfl⟩ |
    ⟨change, refusal, -, rfl⟩
  · exact MethodEdit.respectful_onAncestors a
  · exact MethodEdit.respectful_onModifiers text
  · exact MethodEdit.respectful_onBody change refusal

/-- A respectful edit keeps contracts alike. -/
theorem Contract.Alike.edited {c c' : Contract} (h : c.Alike c')
    (hc : c.signatures.Nodup) {d : Declaration} {f : MethodEdit}
    (hf : f.Respectful) (hsig : ∀ m, (f.result m).signature = m.signature) :
    (c.edited d f).Alike (c'.edited d f) := by
  refine ⟨?_, rel_edited h.methods hc (fun _ _ hmn => hmn.signature) hsig hsig
    (fun m n hmn => (hf m n hmn).1) (.refl _)⟩
  rw [edited_eq c' d f, edited_eq c d f, h.rest]

-- ============================================================ like steps

/-- A step that speaks of no function does not look at the functions. -/
theorem Step.next_of_methods {s : Step} (hs : s.edit? = none) (c : Contract)
    (ms : List Method) :
    s.next { c with methods := ms } = { s.next c with methods := ms }
      ∧ s.conflict? { c with methods := ms } = s.conflict? c := by
  cases s <;> simp only [edit?, reduceCtorEq] at hs
  case base b =>
      rw [next_base, next_base, conflict?_base, conflict?_base]
      exact ⟨rfl, rfl⟩
  all_goals exact ⟨rfl, rfl⟩

/-- Every step does the same to like contracts: they stay alike, and it runs
into the same conflict. -/
theorem Step.next_of_alike {c c' : Contract} (h : c.Alike c')
    (hc : c.signatures.Nodup) (s : Step) :
    (s.next c).Alike (s.next c') ∧ s.conflict? c = s.conflict? c' := by
  cases hs : s.edit? with
  | none =>
      have hnext := next_of_methods hs c c'.methods
      rw [← h.rest] at hnext
      rw [hnext.1, hnext.2]
      refine ⟨⟨rfl, ?_⟩, rfl⟩
      rw [methods_next hs]
      exact h.methods
  | some df =>
      obtain ⟨d, f⟩ := df
      have hf := respectful hs
      rw [(next_of_edit hs c).1, (next_of_edit hs c).2, (next_of_edit hs c').1,
        (next_of_edit hs c').2]
      exact ⟨h.edited hc hf (signature_result hs), (hf _ _ (h.methodFor d)).2⟩

-- ======================================================= different parts

/-- The parts of a contract. -/
inductive Part where
  | license
  | upgradeable
  | bases
  | attachments
  | methods
  | variables
  | constructorArgs
  | constructorCode
  deriving DecidableEq, Repr

/-- The part of a contract that a step works on. -/
def Step.part : Step → Part
  | .license _ => .license
  | .upgradeable => .upgradeable
  | .base _ => .bases
  | .attachment _ => .attachments
  | .ancestor _ _ => .methods
  | .modifier _ _ => .methods
  | .line _ _ => .methods
  | .body _ _ => .methods
  | .declare _ => .variables
  | .constructorArg _ => .constructorArgs
  | .constructorLine _ => .constructorCode

/-- Two steps can be taken in either order: what they leave is alike, and
neither sees the other. -/
structure Exchangeable (c : Contract) (s t : Step) : Prop where
  next : (t.next (s.next c)).Alike (s.next (t.next c))
  first : s.conflict? (t.next c) = s.conflict? c
  second : t.conflict? (s.next c) = t.conflict? c

theorem Method.Alike.symm {m n : Method} (h : m.Alike n) : n.Alike m :=
  ⟨h.decl.symm, h.ancestors.symm, h.modifiers.symm, h.body.symm⟩

theorem Contract.Alike.symm {c c' : Contract} (h : c.Alike c') :
    c'.Alike c := by
  refine ⟨?_, h.methods.flip.imp fun _ _ hmn => hmn.symm⟩
  rw [h.rest]

theorem Exchangeable.symm {c : Contract} {s t : Step}
    (h : Exchangeable c s t) :
    Exchangeable c t s :=
  ⟨h.next.symm, h.second, h.first⟩

/-- An edit depends on the functions of a contract only. -/
theorem Contract.edited_congr {c c' : Contract} (h : c.methods = c'.methods)
    (d : Declaration) (f : MethodEdit) :
    (c.edited d f).methods = (c'.edited d f).methods
      ∧ c.methodFor d = c'.methodFor d := by
  have hfor : c.methodFor d = c'.methodFor d := by
    unfold methodFor method?
    rw [h]
  have htouch : (c.touch d).methods = (c'.touch d).methods := by
    unfold touch method?
    rw [h]
    split
    · exact h
    · rfl
  refine ⟨?_, hfor⟩
  unfold edited
  rw [hfor]
  cases f (c'.methodFor d) with
  | error e => exact htouch
  | ok m =>
      show List.map _ (c.touch d).methods = List.map _ (c'.touch d).methods
      rw [htouch]

/-- A step on a function and one on the contract itself can be exchanged. -/
theorem Step.exchange_edit_field {s t : Step} {d : Declaration}
    {f : MethodEdit} (hs : s.edit? = some (d, f)) (ht : t.edit? = none)
    (c : Contract) :
    Exchangeable c s t := by
  have hmethods := Contract.edited_congr (methods_next ht c) d f
  have hnext := next_of_methods ht c (c.edited d f).methods
  rw [← Contract.edited_eq] at hnext
  refine ⟨.of_eq ?_, ?_, ?_⟩
  · rw [(next_of_edit hs c).1, (next_of_edit hs (t.next c)).1, hnext.1,
      Contract.edited_eq (t.next c), hmethods.1]
  · rw [(next_of_edit hs c).2, (next_of_edit hs (t.next c)).2, hmethods.2]
  · rw [(next_of_edit hs c).1, hnext.2]

/-- So can two steps on different parts of the contract. -/
theorem Step.exchange_fields {s t : Step} (hs : s.edit? = none)
    (ht : t.edit? = none) (h : s.part ≠ t.part) (c : Contract) :
    Exchangeable c s t := by
  cases s <;> simp only [edit?, reduceCtorEq] at hs
  case base b =>
      cases t <;> simp only [edit?, reduceCtorEq] at ht
      case base b' => exact absurd rfl h
      all_goals
        refine ⟨.of_eq ?_, ?_, rfl⟩
        · rw [next_base, next_base]
          rfl
        · rw [conflict?_base, conflict?_base]
          rfl
  all_goals
    cases t <;> simp only [edit?, reduceCtorEq] at ht
    case base b =>
        refine ⟨.of_eq ?_, rfl, ?_⟩
        · rw [next_base, next_base]
          rfl
        · rw [conflict?_base, conflict?_base]
          rfl
    all_goals first
      | exact absurd rfl h
      | exact ⟨.of_eq rfl, rfl, rfl⟩

/-- A step that speaks of a function works on the table. -/
theorem Step.part_of_edit {s : Step} {d : Declaration} {f : MethodEdit}
    (hs : s.edit? = some (d, f)) : s.part = .methods := by
  cases s <;> simp only [edit?, reduceCtorEq] at hs
  all_goals rfl

/-- Steps on different parts of a contract can be exchanged. -/
theorem Step.exchange_parts {s t : Step} (h : s.part ≠ t.part) (c : Contract) :
    Exchangeable c s t := by
  cases hs : s.edit? with
  | none =>
      cases ht : t.edit? with
      | none => exact exchange_fields hs ht h c
      | some eg => exact (exchange_edit_field ht hs c).symm
  | some df =>
      cases ht : t.edit? with
      | none => exact exchange_edit_field hs ht c
      | some eg =>
          exact absurd ((part_of_edit hs).trans (part_of_edit ht).symm) h

-- ==================================================== edits of one function

/-- Two edits of one function can be made in either order. -/
structure MethodEdit.Exchangeable (f g : MethodEdit) (m : Method) : Prop where
  result : (g.result (f.result m)).Alike (f.result (g.result m))
  first : f.refusal? (g.result m) = f.refusal? m
  second : g.refusal? (f.result m) = g.refusal? m

theorem MethodEdit.Exchangeable.symm {f g : MethodEdit} {m : Method}
    (h : f.Exchangeable g m) : g.Exchangeable f m :=
  ⟨h.result.symm, h.second, h.first⟩

/-- The order in which two names are added shows in the order only. -/
theorem withName_withName_perm (a b : String) (l : List String) :
    (withName b (withName a l)).Perm (withName a (withName b l)) := by
  by_cases hab : a = b
  · rw [hab]
  by_cases ha : a ∈ l
  · rw [withName, withName, if_pos ha, withName,
      if_pos (mem_withName.2 (.inl ha))]
    exact .refl _
  by_cases hb : b ∈ l
  · have hb' : b ∈ withName a l := mem_withName.2 (.inl hb)
    rw [withName, if_pos hb', show withName b l = l from if_pos hb]
  have hb' : b ∉ withName a l := fun h =>
    (mem_withName.1 h).elim hb fun hba => hab hba.symm
  have ha' : a ∉ withName b l := fun h => (mem_withName.1 h).elim ha hab
  rw [withName, if_neg hb', withName, if_neg ha, withName, if_neg ha',
    withName, if_neg hb, List.append_assoc, List.append_assoc]
  exact (List.Perm.swap b a []).append_left l

/-- Two ancestors of one function can be exchanged up to their order. -/
theorem MethodEdit.exchange_ancestors (a b : String) (m : Method) :
    (onAncestors a).Exchangeable (onAncestors b) m := by
  refine ⟨?_, rfl, rfl⟩
  show ((m.addAncestor a).addAncestor b).Alike
      ((m.addAncestor b).addAncestor a)
  simp only [Method.addAncestor_eq]
  exact ⟨rfl, withName_withName_perm a b m.ancestors, rfl, rfl⟩

/-- An ancestor and a modifier can be exchanged. -/
theorem MethodEdit.exchange_ancestors_modifiers (a text : String)
    (m : Method) :
    (onAncestors a).Exchangeable (onModifiers text) m := by
  refine ⟨.of_eq ?_, rfl, rfl⟩
  show (m.addAncestor a).addModifier text = (m.addModifier text).addAncestor a
  rw [Method.addAncestor_eq, Method.addAncestor_eq]
  rfl

section Body

variable (change : Body → Option Body) (refusal : Signature → ContractError)

/-- So can an ancestor and work on the body. -/
theorem MethodEdit.exchange_ancestors_body (a : String) (m : Method) :
    (onAncestors a).Exchangeable (onBody change refusal) m := by
  have hresult : (onAncestors a).result m
      = { m with ancestors := withName a m.ancestors } := m.addAncestor_eq a
  refine ⟨.of_eq ?_, rfl, ?_⟩
  · rw [result_onBody, result_onBody, hresult]
    rw [show ∀ n : Method, (onAncestors a).result n = _ from
      fun n => n.addAncestor_eq a]
  · rw [refusal?_onBody, refusal?_onBody, hresult]
    rfl

/-- So can a modifier and work on the body. -/
theorem MethodEdit.exchange_modifiers_body (text : String) (m : Method) :
    (onModifiers text).Exchangeable (onBody change refusal) m := by
  refine ⟨.of_eq ?_, rfl, ?_⟩
  · rw [result_onBody, result_onBody]
    rfl
  · rw [refusal?_onBody, refusal?_onBody]
    rfl

end Body

/-- Edits of different sides of a function, or both of its ancestors, can be
exchanged. -/
theorem Step.exchange_edits {s t : Step} {d e : Declaration} {f g : MethodEdit}
    (hs : s.edit? = some (d, f)) (ht : t.edit? = some (e, g))
    (h : s.aspect? ≠ t.aspect?
      ∨ s.aspect? = some .ancestors ∧ t.aspect? = some .ancestors)
    (m : Method) :
    f.Exchangeable g m := by
  rcases edit?_cases hs with ⟨a, rfl, rfl⟩ | ⟨text, rfl, rfl⟩ |
      ⟨change, refusal, hbody, rfl⟩ <;>
    rcases edit?_cases ht with ⟨b, rfl, rfl⟩ | ⟨text', rfl, rfl⟩ |
      ⟨change', refusal', hbody', rfl⟩
  · exact MethodEdit.exchange_ancestors a b m
  · exact MethodEdit.exchange_ancestors_modifiers a text' m
  · exact MethodEdit.exchange_ancestors_body change' refusal' a m
  · exact (MethodEdit.exchange_ancestors_modifiers b text m).symm
  · rcases h with h | ⟨h, -⟩
    · exact absurd rfl h
    · cases h
  · exact MethodEdit.exchange_modifiers_body change' refusal' text m
  · exact (MethodEdit.exchange_ancestors_body change refusal b m).symm
  · exact (MethodEdit.exchange_modifiers_body change refusal text' m).symm
  · rw [hbody, hbody'] at h
    rcases h with h | ⟨h, -⟩
    · exact absurd rfl h
    · cases h

-- ==================================================== functions of the table

namespace Contract

/-- A function of the table is found under its signature. -/
theorem method?_of_mem {c : Contract} (hc : c.signatures.Nodup) {m : Method}
    (hm : m ∈ c.methods) : c.method? m.signature = some m := by
  cases hfind : c.method? m.signature with
  | none =>
      exact absurd (List.mem_map.2 ⟨m, hm, rfl⟩) (method?_eq_none.1 hfind)
  | some n =>
      obtain ⟨hn, hns⟩ := method?_eq_some hfind
      rw [List.inj_on_of_nodup_map hc hn hm hns]

theorem methodFor_of_mem {c : Contract} (hc : c.signatures.Nodup) {m : Method}
    (hm : m ∈ c.methods) {d : Declaration} (h : m.signature = d.signature) :
    c.methodFor d = m :=
  methodFor_of_some (h ▸ method?_of_mem hc hm)

theorem methodFor_mem {c : Contract} {d : Declaration}
    (h : d.signature ∈ c.signatures) : c.methodFor d ∈ c.methods := by
  cases hfind : c.method? d.signature with
  | none => exact absurd h (method?_eq_none.1 hfind)
  | some n =>
      rw [methodFor_of_some hfind]
      exact (method?_eq_some hfind).1

end Contract

namespace MethodEdit

variable {f g : MethodEdit} {sig sig' : Signature} {m : Method}

/-- An edit of the function of one signature; others stay. -/
def on (f : MethodEdit) (sig : Signature) (m : Method) : Method :=
  if m.signature = sig then f.result m else m

theorem on_of_eq (h : m.signature = sig) : f.on sig m = f.result m :=
  if_pos h

theorem on_of_ne (h : m.signature ≠ sig) : f.on sig m = m :=
  if_neg h

theorem signature_on (hf : ∀ m, (f.result m).signature = m.signature) :
    (f.on sig m).signature = m.signature := by
  by_cases h : m.signature = sig
  · rw [on_of_eq h, hf]
  · rw [on_of_ne h]

/-- Edits of different functions can be exchanged, and so can edits of one
function that can be exchanged there. -/
theorem on_exchange (hf : ∀ m, (f.result m).signature = m.signature)
    (hg : ∀ m, (g.result m).signature = m.signature)
    (h : sig ≠ sig' ∨ f.Exchangeable g m) :
    (g.on sig' (f.on sig m)).Alike (f.on sig (g.on sig' m)) := by
  by_cases hm : m.signature = sig
  · have hm' : (g.on sig' m).signature = sig := (signature_on hg).trans hm
    rw [on_of_eq hm, on_of_eq hm']
    by_cases hn : m.signature = sig'
    · have hn' : (f.result m).signature = sig' := (hf m).trans hn
      rw [on_of_eq hn, on_of_eq hn']
      rcases h with h | h
      · exact absurd (hm.symm.trans hn) h
      · exact h.result
    · have hn' : (f.result m).signature ≠ sig' := (hf m).trans_ne hn
      rw [on_of_ne hn, on_of_ne hn']
      exact .refl _
  · have hm' : (g.on sig' m).signature ≠ sig := (signature_on hg).trans_ne hm
    rw [on_of_ne hm, on_of_ne hm']
    exact .refl _

/-- An edit is refused or not whatever was done to another function, or to
this one by an edit it can be exchanged with. -/
theorem refusal?_on
    (h : m.signature ≠ sig ∨ g.refusal? (f.result m) = g.refusal? m) :
    g.refusal? (f.on sig m) = g.refusal? m := by
  by_cases hm : m.signature = sig
  · rw [on_of_eq hm]
    exact h.resolve_left fun hne => hne hm
  · rw [on_of_ne hm]

end MethodEdit

/-- What an edit of one function makes of another, or of itself. -/
theorem Contract.methodFor_edited {c : Contract} (hc : c.signatures.Nodup)
    {d e : Declaration} {f : MethodEdit}
    (hf : ∀ m, (f.result m).signature = m.signature)
    (hd : d.signature ∈ c.signatures) (he : e.signature ∈ c.signatures) :
    (c.edited d f).methodFor e = f.on d.signature (c.methodFor e) := by
  have hsigs : (c.edited d f).signatures = c.signatures := by
    rw [signatures_edited hc hf, if_pos hd]
  refine methodFor_of_mem (hsigs ▸ hc) ?_ ?_
  · rw [methods_edited_of_mem hc hd hf]
    exact List.mem_map_of_mem (methodFor_mem he)
  · exact (MethodEdit.signature_on hf).trans (signature_methodFor c e)

/-- Two edits of functions of the table, one after the other. -/
theorem Contract.methods_edited_edited {c : Contract} (hc : c.signatures.Nodup)
    {d e : Declaration} {f g : MethodEdit}
    (hf : ∀ m, (f.result m).signature = m.signature)
    (hg : ∀ m, (g.result m).signature = m.signature)
    (hd : d.signature ∈ c.signatures) (he : e.signature ∈ c.signatures) :
    ((c.edited d f).edited e g).methods
      = c.methods.map fun m => g.on e.signature (f.on d.signature m) := by
  have hsigs : (c.edited d f).signatures = c.signatures := by
    rw [signatures_edited hc hf, if_pos hd]
  rw [methods_edited_of_mem (hsigs ▸ hc) (hsigs ▸ he) hg,
    methods_edited_of_mem hc hd hf, List.map_map]
  rfl

/-- Two steps that speak of functions of the table can be exchanged if the
functions are different or the edits can be exchanged. -/
theorem Step.exchange_methods {c : Contract} (hc : c.signatures.Nodup)
    {s t : Step} {d e : Declaration} {f g : MethodEdit}
    (hs : s.edit? = some (d, f)) (ht : t.edit? = some (e, g))
    (hd : d.signature ∈ c.signatures) (he : e.signature ∈ c.signatures)
    (h : d.signature ≠ e.signature ∨ ∀ m, f.Exchangeable g m) :
    Exchangeable c s t := by
  have hf := signature_result hs
  have hg := signature_result ht
  refine ⟨⟨?_, ?_⟩, ?_, ?_⟩
  · -- the fields beside the table
    rw [(next_of_edit ht _).1, (next_of_edit hs _).1, (next_of_edit hs _).1,
      (next_of_edit ht _).1, Contract.edited_eq (c.edited e g),
      Contract.edited_eq (c.edited d f), Contract.edited_eq c d,
      Contract.edited_eq c e]
  · -- the table, entry by entry
    rw [(next_of_edit ht _).1, (next_of_edit hs _).1, (next_of_edit hs _).1,
      (next_of_edit ht _).1, Contract.methods_edited_edited hc hf hg hd he,
      Contract.methods_edited_edited hc hg hf he hd, List.forall₂_map_left_iff,
      List.forall₂_map_right_iff, List.forall₂_same]
    exact fun m _ => MethodEdit.on_exchange hf hg
      (h.imp_right fun hfg => hfg m)
  · -- each step is refused or not as if it came first
    rw [(next_of_edit hs _).2, (next_of_edit hs _).2, (next_of_edit ht _).1,
      Contract.methodFor_edited hc hg he hd]
    refine MethodEdit.refusal?_on (h.imp ?_ fun hfg => (hfg _).first)
    intro hne
    rw [Contract.signature_methodFor]
    exact hne
  · rw [(next_of_edit ht _).2, (next_of_edit ht _).2, (next_of_edit hs _).1,
      Contract.methodFor_edited hc hf hd he]
    refine MethodEdit.refusal?_on (h.imp ?_ fun hfg => (hfg _).second)
    intro hne
    rw [Contract.signature_methodFor]
    exact hne.symm

-- ============================================================= histories

/-- The signature of the function a step speaks of. -/
def Step.function? (s : Step) : Option Signature :=
  s.edit?.map fun edit => edit.1.signature

/-- Two steps on a contract of which neither depends on the other. -/
inductive Independent (c : Contract) (s t : Step) : Prop
  /-- They work on different parts of the contract. -/
  | parts (h : s.part ≠ t.part)
  /-- They speak of two functions that are both in the table. -/
  | functions {p q : Signature} (hs : s.function? = some p)
      (ht : t.function? = some q) (hp : p ∈ c.signatures)
      (hq : q ∈ c.signatures) (h : p ≠ q)
  /-- They name ancestors of one function of the table. -/
  | ancestors {p : Signature} (hs : s.function? = some p)
      (ht : t.function? = some p) (hp : p ∈ c.signatures)
      (h : s.aspect? = some .ancestors ∧ t.aspect? = some .ancestors)
  /-- They work on different sides of one function of the table. -/
  | sides {p : Signature} (hs : s.function? = some p)
      (ht : t.function? = some p) (hp : p ∈ c.signatures)
      (h : s.aspect? ≠ t.aspect?)

/-- A step that names a function edits it. -/
theorem Step.exists_edit {s : Step} {p : Signature}
    (h : s.function? = some p) :
    ∃ d f, s.edit? = some (d, f) ∧ d.signature = p := by
  obtain ⟨⟨d, f⟩, hs, hp⟩ := Option.map_eq_some_iff.1 h
  exact ⟨d, f, hs, hp⟩

/-- Independent steps can be taken in either order. -/
theorem Independent.exchangeable {c : Contract} (hc : c.signatures.Nodup)
    {s t : Step} (h : Independent c s t) : Exchangeable c s t := by
  cases h with
  | parts h => exact Step.exchange_parts h c
  | functions hs ht hp hq h =>
      obtain ⟨d, f, hedit, rfl⟩ := Step.exists_edit hs
      obtain ⟨e, g, hedit', rfl⟩ := Step.exists_edit ht
      exact Step.exchange_methods hc hedit hedit' hp hq (.inl h)
  | ancestors hs ht hp h =>
      obtain ⟨d, f, hedit, rfl⟩ := Step.exists_edit hs
      obtain ⟨e, g, hedit', he⟩ := Step.exists_edit ht
      exact Step.exchange_methods hc hedit hedit' hp (he ▸ hp)
        (.inr (Step.exchange_edits hedit hedit' (.inr h)))
  | sides hs ht hp h =>
      obtain ⟨d, f, hedit, rfl⟩ := Step.exists_edit hs
      obtain ⟨e, g, hedit', he⟩ := Step.exists_edit ht
      exact Step.exchange_methods hc hedit hedit' hp (he ▸ hp)
        (.inr (Step.exchange_edits hedit hedit' (.inl h)))

namespace Contract

/-- The conflict of each step of a history, if it runs into one. -/
def outcomes : List Step → Contract → List (Option ContractError)
  | [], _ => []
  | s :: history, c => s.conflict? c :: outcomes history (s.next c)

/-- The outcomes of more steps are those in the contract that
the first ones leave. -/
theorem outcomes_append (h₁ h₂ : List Step) (c : Contract) :
    outcomes (h₁ ++ h₂) c = outcomes h₁ c ++ outcomes h₂ (replay h₁ c) := by
  induction h₁ generalizing c with
  | nil => rfl
  | cons s h₁ ih =>
      rw [List.cons_append, outcomes, ih, replay_cons]
      rfl

/-- A history does the same to like contracts, step by step. -/
theorem replay_of_alike (history : List Step) {c c' : Contract}
    (h : c.Alike c') (hc : c.WellFormed) :
    (replay history c).Alike (replay history c')
      ∧ outcomes history c = outcomes history c' := by
  induction history generalizing c c' with
  | nil => exact ⟨h, rfl⟩
  | cons s history ih =>
      obtain ⟨hnext, hconflict⟩ :=
        Step.next_of_alike h hc.signatures_distinct s
      obtain ⟨hreplay, houtcomes⟩ := ih hnext (wellFormed_next hc s)
      refine ⟨hreplay, ?_⟩
      rw [outcomes, outcomes, hconflict, houtcomes]

/-- Exchanging two independent steps of a history leaves like contracts, and
every step of the history has the same outcome. -/
theorem replay_exchange {before : List Step} {s t : Step} {c : Contract}
    (hc : c.WellFormed) (h : Independent (replay before c) s t)
    (after : List Step) :
    (replay (before ++ s :: t :: after) c).Alike
        (replay (before ++ t :: s :: after) c)
      ∧ ∃ x y rest,
          outcomes (before ++ s :: t :: after) c
              = outcomes before c ++ x :: y :: rest
            ∧ outcomes (before ++ t :: s :: after) c
              = outcomes before c ++ y :: x :: rest := by
  have hwf : (replay before c).WellFormed :=
    replay_induction before hc fun s _ h => wellFormed_next h s
  obtain ⟨hnext, hfirst, hsecond⟩ := h.exchangeable hwf.signatures_distinct
  obtain ⟨hreplay, houtcomes⟩ := replay_of_alike after hnext
    (wellFormed_next (wellFormed_next hwf s) t)
  refine ⟨?_, s.conflict? (replay before c), t.conflict? (replay before c),
    outcomes after (t.next (s.next (replay before c))), ?_, ?_⟩
  · rw [replay_append, replay_append]
    exact hreplay
  · rw [outcomes_append, outcomes, outcomes, hsecond]
  · rw [outcomes_append, outcomes, outcomes, hfirst, houtcomes]

end Contract

end TokenForge
