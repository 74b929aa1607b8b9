/-
What one step does to a contract, said once. Seven of the eleven steps touch
one field each, and their effect is read off. The other four speak of a
function; they differ only in what they do to that function (`Step.edit?`),
so one description serves them all: the function enters the table if it was
not spoken of, and then its entry is replaced by the edited one or, if the
edit is refused, stays (`runOn_editMethod`). Each edit works on one of three
sides of the function: its ancestors, its modifiers or its body
(`Step.edit?_cases`).

Later arguments take the table as a list. An edit changes the entry of its
signature in place (`methods_edited_of_mem`) or puts a new entry at the end
(`methods_edited_of_not_mem`); both follow from the signatures being
distinct, which an edit keeps (`signatures_edited`).
-/
import Mathlib.Data.List.Forall2
import Mathlib.Data.List.Nodup
import TokenForge.Contract.Assembly

namespace TokenForge

-- ============================================================= ancestors

/-- A list of names with one more, unless it is there. -/
def withName (a : String) (l : List String) : List String :=
  if a ∈ l then l else l ++ [a]

theorem Method.addAncestor_eq (m : Method) (a : String) :
    m.addAncestor a = { m with ancestors := withName a m.ancestors } := by
  unfold addAncestor withName
  split <;> rfl

/-- A name is added at the end unless it is there. -/
theorem mem_withName {a x : String} {l : List String} :
    x ∈ withName a l ↔ x ∈ l ∨ x = a := by
  unfold withName
  split
  next ha =>
    refine ⟨Or.inl, ?_⟩
    rintro (hx | rfl)
    · exact hx
    · exact ha
  next => rw [List.mem_append, List.mem_singleton]

-- ======================================================= edits of a method

/-- A change to one function, which may be refused. -/
abbrev MethodEdit := Method → Except ContractError Method

namespace MethodEdit

/-- The function after an edit; a refused edit leaves it. -/
def result (f : MethodEdit) (m : Method) : Method :=
  match f m with
  | .ok m' => m'
  | .error _ => m

/-- The reason an edit is refused. -/
def refusal? (f : MethodEdit) (m : Method) : Option ContractError :=
  match f m with
  | .ok _ => none
  | .error e => some e

theorem result_of_ok {f : MethodEdit} {m m' : Method} (h : f m = .ok m') :
    f.result m = m' := by
  rw [result, h]

theorem result_of_error {f : MethodEdit} {m : Method} {e : ContractError}
    (h : f m = .error e) : f.result m = m := by
  rw [result, h]

/-- Naming an ancestor. -/
def onAncestors (name : String) : MethodEdit :=
  fun m => .ok (m.addAncestor name)

/-- Adding a modifier. -/
def onModifiers (text : String) : MethodEdit :=
  fun m => .ok (m.addModifier text)

/-- Changing the body, where the change may be refused. -/
def onBody (change : Body → Option Body)
    (refusal : Signature → ContractError) :
    MethodEdit := fun m =>
  match change m.body with
  | some body => .ok { m with body }
  | none => .error (refusal m.signature)

/-- Work on a body leaves the function as it is if the body refuses it. -/
theorem result_onBody (change : Body → Option Body)
    (refusal : Signature → ContractError) (m : Method) :
    (onBody change refusal).result m
      = { m with body := (change m.body).getD m.body } := by
  unfold result onBody
  cases change m.body <;> rfl

/-- It is refused exactly if the body refuses it. -/
theorem refusal?_onBody (change : Body → Option Body)
    (refusal : Signature → ContractError) (m : Method) :
    (onBody change refusal).refusal? m
      = if (change m.body).isSome then none
        else some (refusal m.signature) := by
  unfold refusal? onBody
  cases change m.body <;> rfl

end MethodEdit

/-- The side of a function that a step works on. -/
inductive Aspect where
  | ancestors
  | modifiers
  | body
  deriving DecidableEq, Repr

namespace Step

/-- The side of a function that a step works on, if it speaks of one. -/
def aspect? : Step → Option Aspect
  | .ancestor _ _ => some .ancestors
  | .modifier _ _ => some .modifiers
  | .line _ _ => some .body
  | .body _ _ => some .body
  | _ => none

/-- The function a step speaks of and what it does to that function. -/
def edit? : Step → Option (Declaration × MethodEdit)
  | .ancestor name d => some (d, .onAncestors name)
  | .modifier text d => some (d, .onModifiers text)
  | .line text d => some (d, .onBody (·.append? text) (.bodyReplaced ·.text))
  | .body lines d =>
      some (d, .onBody (·.replace? lines) (.bodyAppended ·.text))
  | _ => none

/-- The edits there are, by the side of the function they work on. -/
theorem edit?_cases {s : Step} {d : Declaration} {f : MethodEdit}
    (hs : s.edit? = some (d, f)) :
    (∃ a, s = .ancestor a d ∧ f = .onAncestors a)
      ∨ (∃ text, s = .modifier text d ∧ f = .onModifiers text)
      ∨ (∃ change refusal, s.aspect? = some .body
          ∧ f = .onBody change refusal) := by
  cases s <;> simp only [edit?, Option.some.injEq, Prod.mk.injEq,
    reduceCtorEq] at hs
  case ancestor a d' =>
      obtain ⟨rfl, rfl⟩ := hs
      exact .inl ⟨a, rfl, rfl⟩
  case modifier text d' =>
      obtain ⟨rfl, rfl⟩ := hs
      exact .inr (.inl ⟨text, rfl, rfl⟩)
  case line text d' =>
      obtain ⟨rfl, rfl⟩ := hs
      exact .inr (.inr ⟨_, _, rfl, rfl⟩)
  case body lines d' =>
      obtain ⟨rfl, rfl⟩ := hs
      exact .inr (.inr ⟨_, _, rfl, rfl⟩)

end Step

/-- A step never changes what is declared about a function. -/
theorem Step.decl_result {s : Step} {d : Declaration} {f : MethodEdit}
    (hs : s.edit? = some (d, f)) (m : Method) :
    (f.result m).decl = m.decl := by
  rcases edit?_cases hs with ⟨a, -, rfl⟩ | ⟨text, -, rfl⟩ |
    ⟨change, refusal, -, rfl⟩
  · show (m.addAncestor a).decl = m.decl
    rw [Method.addAncestor_eq]
  · rfl
  · rw [MethodEdit.result_onBody]

/-- A step keeps the signature of the function it edits. -/
theorem Step.signature_result {s : Step} {d : Declaration} {f : MethodEdit}
    (hs : s.edit? = some (d, f)) (m : Method) :
    (f.result m).signature = m.signature :=
  congrArg Declaration.signature (decl_result hs m)

-- ========================================================== the table

namespace Contract

/-- The signatures of the functions, in order. -/
def signatures (c : Contract) : List Signature := c.methods.map (·.signature)

theorem method?_eq_some {c : Contract} {s : Signature} {m : Method}
    (h : c.method? s = some m) : m ∈ c.methods ∧ m.signature = s :=
  ⟨List.mem_of_find?_eq_some h, by simpa using List.find?_some h⟩

theorem method?_eq_none {c : Contract} {s : Signature} :
    c.method? s = none ↔ s ∉ c.signatures := by
  unfold method? signatures
  rw [List.find?_eq_none]
  simp only [decide_eq_true_eq, List.mem_map, not_exists, not_and]

theorem methodFor_of_some {c : Contract} {d : Declaration} {m : Method}
    (h : c.method? d.signature = some m) : c.methodFor d = m := by
  rw [methodFor, h]
  rfl

theorem methodFor_of_none {c : Contract} {d : Declaration}
    (h : c.method? d.signature = none) : c.methodFor d = .fresh d := by
  rw [methodFor, h]
  rfl

/-- The function of a declaration is fresh or an entry of the table. -/
theorem methodFor_cases (c : Contract) (d : Declaration) :
    c.methodFor d = .fresh d ∨ c.methodFor d ∈ c.methods := by
  cases h : c.method? d.signature with
  | none => exact .inl (methodFor_of_none h)
  | some m =>
      rw [methodFor_of_some h]
      exact .inr (method?_eq_some h).1

theorem signature_methodFor (c : Contract) (d : Declaration) :
    (c.methodFor d).signature = d.signature := by
  cases h : c.method? d.signature with
  | none =>
      rw [methodFor_of_none h]
      rfl
  | some m =>
      rw [methodFor_of_some h]
      exact (method?_eq_some h).2

/-- Touching a function that is there changes nothing. -/
theorem touch_of_some {c : Contract} {d : Declaration} {m : Method}
    (h : c.method? d.signature = some m) : c.touch d = c := by
  simp [touch, h]

/-- Touching a new function appends it without ancestors, modifiers or body. -/
theorem touch_of_none {c : Contract} {d : Declaration}
    (h : c.method? d.signature = none) :
    c.touch d = { c with methods := c.methods ++ [.fresh d] } := by
  simp [touch, h]

/-- Speaking of a function does not change it. -/
theorem methodFor_touch (c : Contract) (d : Declaration) :
    (c.touch d).methodFor d = c.methodFor d := by
  cases h : c.method? d.signature with
  | some m => rw [touch_of_some h]
  | none =>
      rw [touch_of_none h, methodFor_of_none h]
      unfold method? at h
      simp only [methodFor, method?, List.find?_append, h, Option.none_or]
      simp [Method.fresh, Method.signature]

/-- The contract after an edit of the function of a declaration. -/
def edited (c : Contract) (d : Declaration) (f : MethodEdit) : Contract :=
  match f (c.methodFor d) with
  | .ok m => (c.touch d).setMethod m
  | .error _ => c.touch d

end Contract

/-- Editing a function: what becomes of the contract, and the conflict. -/
theorem Assembly.runOn_editMethod (d : Declaration) (f : MethodEdit)
    (c : Contract) :
    (Assembly.editMethod d f).runOn c
      = (c.edited d f, f.refusal? (c.methodFor d)) := by
  have hrun : (Assembly.editMethod d f).runOn c
      = match f ((c.touch d).methodFor d) with
        | .ok m => ((c.touch d).setMethod m, none)
        | .error e => (c.touch d, some e) := by
    show Assembly.runOn (match f ((c.touch d).methodFor d) with
      | .ok m => Assembly.edit fun c => c.setMethod m
      | .error e => throw e) (c.touch d) = _
    cases f ((c.touch d).methodFor d) <;> rfl
  rw [hrun, Contract.methodFor_touch]
  unfold Contract.edited MethodEdit.refusal?
  cases f (c.methodFor d) <;> rfl

theorem Contract.hasBase_iff {c : Contract} {name : String} :
    c.hasBase name = true ↔ name ∈ c.baseNames :=
  List.contains_iff_mem

/-- Adding a base: what becomes of the contract, and the conflict. -/
theorem Assembly.runOn_addBase (b : Base) (c : Contract) :
    (Assembly.addBase b).runOn c
      = if b.name ∈ c.baseNames then (c, some (.duplicateBase c.name b.name))
        else ({ c with bases := c.bases ++ [b] }, none) := by
  show Assembly.runOn (if c.hasBase b.name = true
    then throw (.duplicateBase c.name b.name)
    else Assembly.edit fun c => { c with bases := c.bases ++ [b] }) c = _
  by_cases h : b.name ∈ c.baseNames
  · rw [if_pos h, if_pos (Contract.hasBase_iff.2 h)]
    rfl
  · rw [if_neg h, if_neg fun hb => h (Contract.hasBase_iff.1 hb)]
    rfl

namespace Contract

variable {c : Contract} {d : Declaration} {f : MethodEdit}

/-- An edit touches nothing but the table. -/
theorem edited_eq (c : Contract) (d : Declaration) (f : MethodEdit) :
    c.edited d f = { c with methods := (c.edited d f).methods } := by
  have htouch : c.touch d = { c with methods := (c.touch d).methods } := by
    unfold touch
    split <;> rfl
  unfold edited
  cases f (c.methodFor d) with
  | error e => exact htouch
  | ok m =>
      show setMethod (c.touch d) m = _
      rw [htouch]
      rfl

/-- An edit of a function that was not spoken of puts it at the end. -/
theorem methods_edited_of_not_mem (hd : d.signature ∉ c.signatures)
    (hf : ∀ m, (f.result m).signature = m.signature) :
    (c.edited d f).methods = c.methods ++ [f.result (.fresh d)] := by
  have hnone := method?_eq_none.2 hd
  unfold edited
  rw [methodFor_of_none hnone, touch_of_none hnone]
  cases hfm : f (.fresh d) with
  | error e => rw [MethodEdit.result_of_error hfm]
  | ok m =>
      have hsig : m.signature = d.signature := by
        rw [← MethodEdit.result_of_ok hfm, hf]
        rfl
      have hold : (c.methods.map fun n =>
          if n.signature = m.signature then m else n) = c.methods := by
        calc (c.methods.map fun n =>
          if n.signature = m.signature then m else n)
            = c.methods.map id := List.map_congr_left fun n hn => ?_
          _ = c.methods := List.map_id _
        refine if_neg fun hns => hd ?_
        exact List.mem_map.2 ⟨n, hn, hns.trans hsig⟩
      have hnew : (Method.fresh d).signature = m.signature := by
        rw [hsig]
        rfl
      simp only [setMethod, List.map_append, List.map_cons, List.map_nil, hold,
        if_pos hnew, MethodEdit.result_of_ok hfm]

/-- An edit of a function that was spoken of changes its entry in place. -/
theorem methods_edited_of_mem (hc : c.signatures.Nodup)
    (hd : d.signature ∈ c.signatures)
    (hf : ∀ m, (f.result m).signature = m.signature) :
    (c.edited d f).methods = c.methods.map fun m =>
      if m.signature = d.signature then f.result m else m := by
  cases hfind : c.method? d.signature with
  | none => exact absurd hd (method?_eq_none.1 hfind)
  | some m =>
      obtain ⟨hm, hsig⟩ := method?_eq_some hfind
      -- signatures are distinct, so `m` is the only entry with this one
      have huniq : ∀ n ∈ c.methods, n.signature = d.signature → n = m := by
        intro n hn hns
        exact List.inj_on_of_nodup_map hc hn hm (hns.trans hsig.symm)
      have hplace : (c.methods.map fun n =>
          if n.signature = d.signature then f.result n else n)
          = c.methods.map fun n =>
              if n.signature = d.signature then f.result m else n := by
        refine List.map_congr_left fun n hn => ?_
        by_cases hns : n.signature = d.signature
        · rw [if_pos hns, if_pos hns, huniq n hn hns]
        · rw [if_neg hns, if_neg hns]
      rw [hplace]
      unfold edited
      rw [methodFor_of_some hfind, touch_of_some hfind]
      cases hfm : f m with
      | ok m' =>
          have hsig' : m'.signature = d.signature := by
            rw [← hsig, ← hf m, MethodEdit.result_of_ok hfm]
          simp only [setMethod, hsig', MethodEdit.result_of_ok hfm]
      | error e =>
          rw [MethodEdit.result_of_error hfm]
          calc c.methods
              = c.methods.map id := (List.map_id _).symm
            _ = _ := List.map_congr_left fun n hn => ?_
          by_cases hns : n.signature = d.signature
          · rw [if_pos hns, huniq n hn hns]
            rfl
          · rw [if_neg hns]
            rfl

/-- The entries after an edit: the edited one and those of other
signatures. -/
theorem mem_methods_edited (hc : c.signatures.Nodup)
    (hf : ∀ m, (f.result m).signature = m.signature) {m : Method} :
    m ∈ (c.edited d f).methods
      ↔ (m ∈ c.methods ∧ m.signature ≠ d.signature)
        ∨ m = f.result (c.methodFor d) := by
  cases hfind : c.method? d.signature with
  | none =>
      have hd := method?_eq_none.1 hfind
      have hother : ∀ n ∈ c.methods, n.signature ≠ d.signature :=
        fun n hn hns => hd (List.mem_map.2 ⟨n, hn, hns⟩)
      rw [methods_edited_of_not_mem hd hf, methodFor_of_none hfind,
        List.mem_append, List.mem_singleton]
      exact or_congr_left ⟨fun hm => ⟨hm, hother m hm⟩, And.left⟩
  | some n =>
      obtain ⟨hn, hns⟩ := method?_eq_some hfind
      rw [methods_edited_of_mem hc (List.mem_map.2 ⟨n, hn, hns⟩) hf,
        methodFor_of_some hfind, List.mem_map]
      constructor
      · rintro ⟨k, hk, rfl⟩
        by_cases hks : k.signature = d.signature
        · right
          rw [if_pos hks, List.inj_on_of_nodup_map hc hk hn
            (hks.trans hns.symm)]
        · left
          rw [if_neg hks]
          exact ⟨hk, hks⟩
      · rintro (⟨hm, hms⟩ | rfl)
        · exact ⟨m, hm, if_neg hms⟩
        · exact ⟨n, hn, if_pos hns⟩

/-- An edit of a function that was spoken of keeps the signatures; of a new
one, it puts the signature at their end. -/
theorem signatures_edited (hc : c.signatures.Nodup)
    (hf : ∀ m, (f.result m).signature = m.signature) :
    (c.edited d f).signatures
      = if d.signature ∈ c.signatures then c.signatures
        else c.signatures ++ [d.signature] := by
  by_cases hd : d.signature ∈ c.signatures
  · rw [if_pos hd]
    unfold signatures
    rw [methods_edited_of_mem hc hd hf, List.map_map]
    refine List.map_congr_left fun m _ => ?_
    by_cases hm : m.signature = d.signature
    · simp [hm, hf]
    · simp [hm]
  · rw [if_neg hd]
    unfold signatures
    rw [methods_edited_of_not_mem hd hf, List.map_append,
      List.map_singleton, hf]
    rfl

/-- Edits that keep functions related, made in two tables of related
functions, keep the tables related. -/
theorem rel_edited {R : Method → Method → Prop} {c' : Contract}
    {g : MethodEdit} (h : List.Forall₂ R c.methods c'.methods)
    (hc : c.signatures.Nodup) (hR : ∀ m n, R m n → m.signature = n.signature)
    (hf : ∀ m, (f.result m).signature = m.signature)
    (hg : ∀ m, (g.result m).signature = m.signature)
    (hfg : ∀ m n, R m n → R (f.result m) (g.result n))
    (hfresh : R (.fresh d) (.fresh d)) :
    List.Forall₂ R (c.edited d f).methods (c'.edited d g).methods := by
  have hsigs : c.signatures = c'.signatures := by
    unfold signatures
    rw [← List.forall₂_eq_eq_eq, List.forall₂_map_left_iff,
      List.forall₂_map_right_iff]
    exact h.imp hR
  have hc' : c'.signatures.Nodup := hsigs ▸ hc
  by_cases hd : d.signature ∈ c.signatures
  · have hd' : d.signature ∈ c'.signatures := hsigs ▸ hd
    rw [methods_edited_of_mem hc hd hf, methods_edited_of_mem hc' hd' hg,
      List.forall₂_map_left_iff, List.forall₂_map_right_iff]
    refine h.imp fun m n hmn => ?_
    rw [← hR m n hmn]
    split
    · exact hfg m n hmn
    · exact hmn
  · have hd' : d.signature ∉ c'.signatures := hsigs ▸ hd
    rw [methods_edited_of_not_mem hd hf, methods_edited_of_not_mem hd' hg]
    exact List.rel_append h (.cons (hfg _ _ hfresh) .nil)

end Contract

-- ============================================================== the steps

namespace Step

/-- A step about a function edits that function and nothing else. -/
theorem next_of_edit {s : Step} {d : Declaration} {f : MethodEdit}
    (hs : s.edit? = some (d, f)) (c : Contract) :
    s.next c = c.edited d f ∧ s.conflict? c = f.refusal? (c.methodFor d) := by
  have hrun : s.perform.runOn c
      = (c.edited d f, f.refusal? (c.methodFor d)) := by
    rw [← Assembly.runOn_editMethod]
    cases s <;> simp only [edit?, Option.some.injEq, Prod.mk.injEq,
      reduceCtorEq] at hs
    all_goals
      obtain ⟨rfl, rfl⟩ := hs
      rfl
  unfold next conflict?
  rw [hrun]
  exact ⟨rfl, rfl⟩

/-- A base joins the others unless one of its name is there. -/
theorem next_base (b : Base) (c : Contract) :
    (Step.base b).next c
      = { c with bases :=
            if b.name ∈ c.baseNames then c.bases else c.bases ++ [b] } := by
  unfold next perform
  rw [Assembly.runOn_addBase]
  split <;> rfl

/-- A base is in conflict with one of its name. -/
theorem conflict?_base (b : Base) (c : Contract) :
    (Step.base b).conflict? c
      = if b.name ∈ c.baseNames then some (.duplicateBase c.name b.name)
        else none := by
  unfold conflict? perform
  rw [Assembly.runOn_addBase]
  split <;> rfl

/-- A step that edits no function leaves the table. -/
theorem methods_next {s : Step} (hs : s.edit? = none) (c : Contract) :
    (s.next c).methods = c.methods := by
  cases s <;> simp only [edit?, reduceCtorEq] at hs
  case base b => rw [next_base]
  all_goals rfl

/-- Only a base is added to the bases. -/
theorem bases_next {s : Step} (hs : ∀ b, s ≠ .base b) (c : Contract) :
    (s.next c).bases = c.bases := by
  cases hedit : s.edit? with
  | some df =>
      rw [(next_of_edit hedit c).1, Contract.edited_eq]
  | none =>
      cases s <;> simp only [edit?, reduceCtorEq] at hedit
      case base b => exact absurd rfl (hs b)
      all_goals rfl

/-- No step changes the name. -/
theorem name_next (s : Step) (c : Contract) : (s.next c).name = c.name := by
  cases hedit : s.edit? with
  | some df =>
      rw [(next_of_edit hedit c).1, Contract.edited_eq]
  | none =>
      cases s <;> simp only [edit?, reduceCtorEq] at hedit
      case base b => rw [next_base]
      all_goals rfl

/-- Only one step sets the license. -/
theorem license_next {s : Step} (hs : ∀ l, s ≠ .license l) (c : Contract) :
    (s.next c).license = c.license := by
  cases hedit : s.edit? with
  | some df =>
      rw [(next_of_edit hedit c).1, Contract.edited_eq]
  | none =>
      cases s <;> simp only [edit?, reduceCtorEq] at hedit
      case base b => rw [next_base]
      case license l => exact absurd rfl (hs l)
      all_goals rfl

end Step

end TokenForge
