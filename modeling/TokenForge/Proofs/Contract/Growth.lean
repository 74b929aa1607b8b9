/-
A step happens as a whole or not at all, and nothing is ever taken away.

A step that runs into a conflict leaves the contract as it was, the table
included (`Step.next_of_conflict`). For a base that is plain from the order of
test and change. For a body it is not: the function enters the table before
the edit is tried. But no edit is refused by a function of which nothing was
said (`Step.refusal?_fresh`), so a refused one found its function in the table
and had nothing to enter.

A step that succeeds keeps every list of the contract, and the order of the
table, as the beginning of what they become (`Step.grows_next`), and touches
one function at most. So nothing is taken away along a history either
(`grows_replay`).
-/
import TokenForge.Proofs.Contract.Lookup

namespace TokenForge

open Contract

-- ============================================================== conflicts

namespace Step

variable {s : Step} {d : Declaration} {f : MethodEdit}

/-- A function of which nothing was said accepts every edit. -/
theorem refusal?_fresh (hs : s.edit? = some (d, f)) (e : Declaration) :
    f.refusal? (.fresh e) = none := by
  cases s <;> simp only [edit?, Option.some.injEq, Prod.mk.injEq,
    reduceCtorEq] at hs
  all_goals
    obtain ⟨-, rfl⟩ := hs
    rfl

/-- A refused edit leaves the contract as it was. -/
theorem edited_of_refusal (hs : s.edit? = some (d, f)) {c : Contract}
    {e : ContractError} (h : f.refusal? (c.methodFor d) = some e) :
    c.edited d f = c := by
  cases hfind : c.method? d.signature with
  | none =>
      rw [methodFor_of_none hfind, refusal?_fresh hs] at h
      cases h
  | some m =>
      unfold edited
      unfold MethodEdit.refusal? at h
      cases hfm : f (c.methodFor d) with
      | ok m' => rw [hfm] at h; cases h
      | error e' => exact touch_of_some hfind

/-- A step that runs into a conflict leaves the contract as it was. -/
theorem next_of_conflict {c : Contract} {e : ContractError}
    (h : s.conflict? c = some e) : s.next c = c := by
  cases hs : s.edit? with
  | some df =>
      obtain ⟨d, f⟩ := df
      obtain ⟨hnext, hconflict⟩ := next_of_edit hs c
      rw [hconflict] at h
      rw [hnext]
      exact edited_of_refusal hs h
  | none =>
      cases s <;> simp only [edit?, reduceCtorEq] at hs
      case base b =>
          rw [conflict?_base] at h
          split at h
          next hb => rw [next_base, if_pos hb]
          next => cases h
      all_goals cases h

end Step

-- ================================================================= growth

namespace Contract

/-- A contract and what it becomes: every list is the beginning of what it
becomes, and so is the order of the table. -/
structure Grows (c c' : Contract) : Prop where
  bases : c.bases <+: c'.bases
  attachments : c.attachments <+: c'.attachments
  stateVariables : c.stateVariables <+: c'.stateVariables
  constructorArgs : c.constructorArgs <+: c'.constructorArgs
  constructorCode : c.constructorCode <+: c'.constructorCode
  signatures : c.signatures <+: c'.signatures

theorem Grows.refl (c : Contract) : c.Grows c :=
  ⟨List.prefix_rfl, List.prefix_rfl, List.prefix_rfl, List.prefix_rfl,
    List.prefix_rfl, List.prefix_rfl⟩

theorem Grows.trans {a b c : Contract} (h : a.Grows b) (h' : b.Grows c) :
    a.Grows c :=
  ⟨h.bases.trans h'.bases, h.attachments.trans h'.attachments,
    h.stateVariables.trans h'.stateVariables,
    h.constructorArgs.trans h'.constructorArgs,
    h.constructorCode.trans h'.constructorCode,
    h.signatures.trans h'.signatures⟩

/-- An edit puts its function at the end of the table or leaves the order. -/
theorem grows_edited {c : Contract} (hc : c.signatures.Nodup) {d : Declaration}
    {f : MethodEdit} (hf : ∀ m, (f.result m).signature = m.signature) :
    c.Grows (c.edited d f) := by
  have hsigs : c.signatures <+: (c.edited d f).signatures := by
    rw [signatures_edited hc hf]
    split
    · exact List.prefix_rfl
    · exact List.prefix_append _ _
  rw [edited_eq] at hsigs ⊢
  exact { Grows.refl c with signatures := hsigs }

end Contract

/-- Whatever a step does, it takes nothing away. -/
theorem Step.grows_next {c : Contract} (hc : c.signatures.Nodup) (s : Step) :
    c.Grows (s.next c) := by
  cases hs : s.edit? with
  | some df =>
      rw [(next_of_edit hs c).1]
      exact grows_edited hc (signature_result hs)
  | none =>
      cases s <;> simp only [edit?, reduceCtorEq] at hs
      case base b =>
          rw [next_base]
          refine { Grows.refl c with bases := ?_ }
          dsimp only
          split
          · exact List.prefix_rfl
          · exact List.prefix_append _ _
      case license | upgradeable => exact { Grows.refl c with }
      case attachment a =>
          exact { Grows.refl c with attachments := List.prefix_append _ _ }
      case declare text =>
          exact { Grows.refl c with stateVariables := List.prefix_append _ _ }
      case constructorArg a =>
          exact { Grows.refl c with constructorArgs := List.prefix_append _ _ }
      case constructorLine text =>
          exact { Grows.refl c with constructorCode := List.prefix_append _ _ }

namespace Contract

-- ============================================================== histories

/-- Whatever follows in a history, nothing is taken away. -/
theorem grows_replay (history : List Step) {c : Contract} (hc : c.WellFormed) :
    c.Grows (replay history c) := by
  induction history generalizing c with
  | nil => exact .refl c
  | cons s history ih =>
      exact (s.grows_next hc.signatures_distinct).trans
        (ih (wellFormed_next hc s))

end Contract

-- ============================================================ the theorem

/-- Whatever was done to a contract, one more step either runs into a
conflict and changes nothing, or it succeeds, and then every list of the
contract goes on from what it was, the functions keep their order, and those
the step does not speak of are as they were. -/
theorem step_atomic {c : Contract} (hc : c.Reachable) (s : Step) :
    (∀ e, s.conflict? c = some e → s.next c = c)
      ∧ (s.conflict? c = none →
        c.Grows (s.next c)
          ∧ ∀ sig, s.function? ≠ some sig →
            (s.next c).method? sig = c.method? sig) := by
  refine ⟨fun e h => Step.next_of_conflict h, fun _ => ⟨?_, ?_⟩⟩
  · exact s.grows_next hc.wellFormed.signatures_distinct
  · exact fun sig hsig => Step.method?_next_other hsig c

/-- A contract that every kind of conflict is one step away from, and a step
that puts a third function into its table. -/
theorem atomic_near_conflicts :
    let mint : Declaration := { name := "mint", visibility := .everywhere }
    let burn : Declaration := { name := "burn", visibility := .everywhere }
    let pause : Declaration := { name := "pause", visibility := .everywhere }
    let base : Base := ⟨⟨"Token", "./Token.sol"⟩, [.text "Gold"]⟩
    let c := replay [.base base, .line "supply += 1;" mint, .body [] burn]
      { name := "Gold" }
    (Step.base { base with args := [] }).next c = c
      ∧ (Step.body ["revert();"] mint).next c = c
      ∧ (Step.line "supply -= 1;" burn).next c = c
      ∧ c.Grows ((Step.ancestor "Token" pause).next c)
      ∧ ((Step.ancestor "Token" pause).next c).method? burn.signature
        = some ⟨burn, [], [], .replaced []⟩ := by
  intro mint burn pause base c
  have hc : c.Reachable := ⟨_, _, rfl⟩
  obtain ⟨hgrows, hothers⟩ := (step_atomic hc (.ancestor "Token" pause)).2 rfl
  refine ⟨(step_atomic hc _).1 (.duplicateBase "Gold" "Token") (by decide),
    (step_atomic hc _).1 (.bodyAppended "mint()") (by decide),
    (step_atomic hc _).1 (.bodyReplaced "burn()") (by decide), hgrows, ?_⟩
  rw [hothers burn.signature (by decide)]
  decide

end TokenForge
