/-
What a contract holds after a history, read off the history. The lists that
only grow at their end are what they were, followed by what each step puts
there in turn (`appended_replay`): the attachments, the variables, the lines of
the constructor, and, for each signature on its own, the modifiers of the
function. The bases are known by their names, and the functions by the
declarations that were spoken of.

The functions of a contract are therefore known without a look at the table:
which there are, whether one has an ancestor, and which modifiers it has, in
order and as often as they were added (`mem_methods_replay`). The ancestors
come in the order in which they were first recorded (`ancestorsOf_replay`).
-/
import TokenForge.Proofs.Contract.BodyHistory
import TokenForge.Proofs.Contract.Invariant

namespace TokenForge

-- ======================================================== what steps add

namespace Step

/-- The name of the base a step adds, unless it is there. -/
@[simp]
def inherited : Step → List String
  | .base b => [b.name]
  | _ => []

/-- The attachment a step adds. -/
@[simp]
def attached : Step → List Attachment
  | .attachment a => [a]
  | _ => []

/-- The declaration or comment line a step adds. -/
@[simp]
def declared : Step → List String
  | .declare text => [text]
  | _ => []

/-- The constructor line a step adds. -/
@[simp]
def constructed : Step → List String
  | .constructorLine text => [text]
  | _ => []

/-- The modifiers a step adds to the function of a signature. -/
@[simp]
def given (sig : Signature) : Step → List String
  | .modifier text d => if d.signature = sig then [text] else []
  | _ => []

/-- Whether a step makes the contract upgradeable. -/
@[simp]
def marks : Step → Bool
  | .upgradeable => true
  | _ => false

/-- What a step puts at the end of the lists of a contract. -/
theorem lists_next (s : Step) (c : Contract) :
    (s.next c).attachments = c.attachments ++ s.attached
      ∧ (s.next c).stateVariables = c.stateVariables ++ s.declared
      ∧ (s.next c).constructorCode = c.constructorCode ++ s.constructed := by
  cases hs : s.edit? with
  | some df =>
      rw [(next_of_edit hs c).1, Contract.edited_eq]
      cases s <;> simp [attached, declared, constructed, edit?] at hs ⊢
  | none =>
      cases s <;> simp only [edit?, reduceCtorEq] at hs
      case base b =>
          rw [next_base]
          simp [attached, declared, constructed]
      case attachment a =>
        exact ⟨rfl, (List.append_nil _).symm, (List.append_nil _).symm⟩
      case declare text =>
        exact ⟨(List.append_nil _).symm, rfl, (List.append_nil _).symm⟩
      case constructorLine text =>
          exact ⟨(List.append_nil _).symm, (List.append_nil _).symm, rfl⟩
      all_goals
        exact ⟨(List.append_nil _).symm, (List.append_nil _).symm,
          (List.append_nil _).symm⟩

/-- A contract stays upgradeable once it is. -/
theorem upgradeable_next (s : Step) (c : Contract) :
    (s.next c).upgradeable = (c.upgradeable || s.marks) := by
  cases hs : s.edit? with
  | some df =>
      rw [(next_of_edit hs c).1, Contract.edited_eq]
      cases s <;> simp [edit?] at hs ⊢
  | none =>
      cases s <;> simp only [edit?, reduceCtorEq] at hs
      case base b =>
          rw [next_base]
          exact (Bool.or_false _).symm
      case upgradeable => exact (Bool.or_true _).symm
      all_goals exact (Bool.or_false _).symm

/-- The names of the bases grow by what a step inherits. -/
theorem mem_baseNames_next {s : Step} {c : Contract} {name : String} :
    name ∈ (s.next c).baseNames ↔ name ∈ c.baseNames ∨ name ∈ s.inherited := by
  by_cases hs : ∃ b, s = .base b
  · obtain ⟨b, rfl⟩ := hs
    rw [next_base, inherited, List.mem_singleton]
    unfold Contract.baseNames
    dsimp only
    split
    next hb =>
      refine ⟨Or.inl, ?_⟩
      rintro (hname | rfl)
      · exact hname
      · exact hb
    next =>
      rw [List.map_append, List.map_singleton, List.mem_append,
        List.mem_singleton]
  · have hnone : s.inherited = [] := by
      cases s with
      | base b => exact absurd ⟨b, rfl⟩ hs
      | _ => rfl
    have hbases := bases_next (fun b hb => hs ⟨b, hb⟩) c
    unfold Contract.baseNames
    rw [hbases, hnone]
    simp

end Step

-- ============================================ the lists of the functions

namespace Contract

/-- The modifiers of the function of a signature; none if it was not spoken
of. -/
def modifiersOf (c : Contract) (sig : Signature) : List String :=
  ((c.method? sig).map (·.modifiers)).getD []

/-- The ancestors of the function of a signature; none if it was not spoken
of. -/
def ancestorsOf (c : Contract) (sig : Signature) : List String :=
  ((c.method? sig).map (·.ancestors)).getD []

section Lists

variable {f : Method → List String} {c : Contract}

/-- A list that is empty in a fresh function. -/
theorem list_methodFor (hf : ∀ d, f (.fresh d) = []) (c : Contract)
    (d : Declaration) :
    f (c.methodFor d) = ((c.method? d.signature).map f).getD [] := by
  cases h : c.method? d.signature with
  | none =>
      rw [methodFor_of_none h]
      exact hf d
  | some m =>
      rw [methodFor_of_some h]
      rfl

theorem list_of_mem (hc : c.signatures.Nodup) {m : Method}
    (hm : m ∈ c.methods) :
    ((c.method? m.signature).map f).getD [] = f m := by
  rw [method?_of_mem hc hm]
  rfl

end Lists

theorem modifiers_methodFor (c : Contract) (d : Declaration) :
    (c.methodFor d).modifiers = c.modifiersOf d.signature :=
  list_methodFor (fun _ => rfl) c d

/-- The modifiers of a function in the table. -/
theorem modifiersOf_of_mem {c : Contract} (hc : c.signatures.Nodup)
    {m : Method} (hm : m ∈ c.methods) :
    c.modifiersOf m.signature = m.modifiers :=
  list_of_mem hc hm

end Contract

/-- What an edit makes of the modifiers: the step's own are added. -/
theorem Step.modifiers_result {s : Step} {d : Declaration} {f : MethodEdit}
    (hs : s.edit? = some (d, f)) (m : Method) :
    (f.result m).modifiers = m.modifiers ++ s.given d.signature := by
  rcases edit?_cases hs with ⟨a, rfl, rfl⟩ | ⟨text, rfl, rfl⟩ |
    ⟨change, refusal, hbody, rfl⟩
  · show (m.addAncestor a).modifiers = _
    rw [Method.addAncestor_eq]
    exact (List.append_nil _).symm
  · rw [given, if_pos rfl]
    rfl
  · rw [MethodEdit.result_onBody]
    cases s <;> simp only [aspect?, Option.some.injEq, reduceCtorEq] at hbody
    all_goals exact (List.append_nil _).symm

/-- A step gives its modifier to the function it names. -/
theorem Step.modifiersOf_next (s : Step) (c : Contract) (sig : Signature) :
    (s.next c).modifiersOf sig = c.modifiersOf sig ++ s.given sig := by
  by_cases hs : s.function? = some sig
  · obtain ⟨⟨d, f⟩, hedit, rfl⟩ := Option.map_eq_some_iff.1 hs
    show (((s.next c).method? d.signature).map (·.modifiers)).getD [] = _
    rw [method?_next_self hedit, ← Contract.modifiers_methodFor c d]
    exact modifiers_result hedit _
  · have hnone : s.given sig = [] := by
      cases s with
      | modifier text d => exact if_neg fun hd => hs (congrArg some hd)
      | _ => rfl
    rw [Contract.modifiersOf, method?_next_other hs, hnone, List.append_nil]
    rfl

/-- Ancestors that are the first occurrences of names are so again after a
step, with the step's own names at the end. -/
theorem Step.ancestorsOf_next {c : Contract} {sig : Signature}
    {names : List String} (s : Step)
    (h : c.ancestorsOf sig = names.eraseDups) :
    (s.next c).ancestorsOf sig = (names ++ s.named sig).eraseDups := by
  by_cases hs : s.function? = some sig
  · obtain ⟨⟨d, f⟩, hedit, rfl⟩ := Option.map_eq_some_iff.1 hs
    have hold : (c.methodFor d).ancestors = names.eraseDups :=
      (Contract.list_methodFor (fun _ => rfl) c d).trans h
    show (((s.next c).method? d.signature).map (·.ancestors)).getD [] = _
    rw [method?_next_self hedit]
    show (f.result (c.methodFor d)).ancestors
        = (names ++ s.named d.signature).eraseDups
    rcases Contract.ancestors_result hedit (c.methodFor d)
      with ⟨a, rfl, hres⟩ | ⟨hne, hres⟩
    · have hnamed : Step.named d.signature (.ancestor a d) = [a] := if_pos rfl
      rw [hres, Method.addAncestor_eq, hnamed, eraseDups_concat]
      simp only [hold, withName, List.mem_eraseDups]
    · rw [hres, hold, named_of_ne hne, List.append_nil]
  · have hnone : s.named sig = [] := by
      cases s with
      | ancestor a d => exact if_neg fun hd => hs (congrArg some hd)
      | _ => rfl
    rw [Contract.ancestorsOf, method?_next_other hs, hnone, List.append_nil]
    exact h

-- ============================================================= histories

namespace Contract

/-- A list to which each step appends holds, after a history, what it held
before and then what the steps appended. -/
theorem appended_replay {α : Type} {f : Contract → List α} {g : Step → List α}
    (hnext : ∀ s c, f (s.next c) = f c ++ g s) (history : List Step)
    (c : Contract) :
    f (replay history c) = f c ++ history.flatMap g := by
  induction history generalizing c with
  | nil => exact (List.append_nil _).symm
  | cons s history ih =>
      rw [replay_cons, ih, hnext, List.flatMap_cons, List.append_assoc]

variable (history : List Step) (name : String)

/-- The attachments are those that the history made, in order. -/
theorem attachments_replay :
    (replay history { name }).attachments = history.flatMap Step.attached :=
  appended_replay (fun s c => (s.lists_next c).1) history _

/-- The variables are those that the history declared, in order. -/
theorem stateVariables_replay :
    (replay history { name }).stateVariables = history.flatMap Step.declared :=
  appended_replay (fun s c => (s.lists_next c).2.1) history _

/-- The lines of the constructor are those that the history added, in order. -/
theorem constructorCode_replay :
    (replay history { name }).constructorCode
      = history.flatMap Step.constructed :=
  appended_replay (fun s c => (s.lists_next c).2.2) history _

/-- The modifiers of a function are those that the
history gave it, in order. -/
theorem modifiersOf_replay (sig : Signature) :
    (replay history { name }).modifiersOf sig
      = history.flatMap (Step.given sig) :=
  appended_replay (f := (·.modifiersOf sig))
    (fun s c => s.modifiersOf_next c sig) history _

/-- A contract is upgradeable if the history made it so. -/
theorem upgradeable_replay :
    (replay history { name }).upgradeable = history.any Step.marks := by
  induction history using List.reverseRecOn with
  | nil => rfl
  | append_singleton history s ih =>
      rw [replay_append, List.any_append, ← ih, List.any_cons, List.any_nil,
        Bool.or_false]
      exact s.upgradeable_next _

/-- The names of the bases after a history: those there were, and those
of the bases it adds. -/
theorem mem_baseNames_replay_from {history : List Step} {c : Contract}
    {base : String} :
    base ∈ (replay history c).baseNames
      ↔ base ∈ c.baseNames ∨ base ∈ history.flatMap Step.inherited := by
  induction history generalizing c with
  | nil => simp [replay_nil]
  | cons s history ih =>
      rw [replay_cons, ih, Step.mem_baseNames_next, List.flatMap_cons,
        List.mem_append, or_assoc]

/-- The bases are those that the history inherits. -/
theorem mem_baseNames_replay {history : List Step} {name base : String} :
    base ∈ (replay history { name }).baseNames
      ↔ base ∈ history.flatMap Step.inherited := by
  rw [mem_baseNames_replay_from]
  exact or_iff_right List.not_mem_nil

/-- A function that a history leaves: it was spoken of, it has the modifiers it
was given, and the ancestors that were recorded. -/
theorem mem_methods_replay {history : List Step} {name : String} {m : Method}
    (hm : m ∈ (replay history { name }).methods) :
    m.signature ∈ (spoken history).map (·.signature)
      ∧ m.modifiers = history.flatMap (Step.given m.signature)
      ∧ ∀ a, a ∈ m.ancestors ↔ a ∈ recorded history m.signature := by
  have hdistinct := (wellFormed_replay history name).signatures_distinct
  refine ⟨?_, ?_, (records_replay history name).1 m hm⟩
  · rw [← List.mem_eraseDups, ← signatures_replay history name]
    exact List.mem_map.2 ⟨m, hm, rfl⟩
  · rw [← modifiersOf_of_mem hdistinct hm, modifiersOf_replay]

/-- The ancestors of a function come in the order in which they
were first recorded. -/
theorem ancestorsOf_replay (history : List Step) (name : String)
    (sig : Signature) :
    (replay history { name }).ancestorsOf sig
      = (recorded history sig).eraseDups := by
  induction history using List.reverseRecOn with
  | nil => rfl
  | append_singleton history s ih =>
      rw [replay_append, recorded_append, recorded_singleton]
      exact s.ancestorsOf_next ih

/-- The ancestors of a function are those recorded for it, each once. -/
theorem ancestors_replay {history : List Step} {name : String} {m : Method}
    (hm : m ∈ (replay history { name }).methods) :
    m.ancestors = (recorded history m.signature).eraseDups := by
  have hdistinct := (wellFormed_replay history name).signatures_distinct
  rw [← ancestorsOf_replay history name]
  exact (list_of_mem hdistinct hm).symm

/-- The body of a function is what the calls of the history made of it. -/
theorem body_replay {history : List Step} {name : String} {m : Method}
    (hm : m ∈ (replay history { name }).methods) :
    m.body = .ofCalls (bodyCalls history m.signature) := by
  have hdistinct := (wellFormed_replay history name).signatures_distinct
  rw [← bodyOf_replay history name, bodyOf, method?_of_mem hdistinct hm]
  rfl

/-- A function that was spoken of is there. -/
theorem exists_method_replay {history : List Step} (name : String)
    {d : Declaration} (hd : d ∈ spoken history) :
    ∃ m ∈ (replay history { name }).methods, m.signature = d.signature := by
  have hsig : d.signature ∈ (replay history { name }).signatures := by
    rw [signatures_replay, List.mem_eraseDups]
    exact List.mem_map.2 ⟨d, hd, rfl⟩
  exact List.mem_map.1 hsig

end Contract

end TokenForge
