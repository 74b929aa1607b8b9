/-
When contracts have no text, and what is said about it. Printing a file and
checking its contracts are two traversals that mark the functions of every
contract, and marking is all in them that can fail. A function has no mark
exactly if one of its ancestors is no base, so both fail on the same contracts,
and with the same conflict: it is about the first contract that has such a
function, the first one in it, and the first such ancestor of that
(`print_fails_iff`).

The functions are marked before it is decided which of them are left out.
A conflict of a function that would not be printed is therefore one, too.
-/
import TokenForge.Command.Outcome
import TokenForge.Proofs.Contract.Content
import TokenForge.Proofs.Source.Transform

namespace TokenForge

namespace Contract

theorem block_failsWith (c : Contract) :
    FailsWith c.block (∀ m ∈ c.methods, c.Knows m) c.Conflict :=
  (marked_failsWith c).bind_ok c.blockOf

/-- A summary fails as the block of its contract does. -/
theorem summary_failsWith (c : Contract) :
    FailsWith c.summary (∀ m ∈ c.methods, c.Knows m) c.Conflict :=
  (marked_failsWith c).bind_ok _

end Contract

namespace SourceFile

/-- The conflict of a file: that of its first contract with a function that has
an ancestor that is no base. -/
def Conflict (cs : List Contract) (e : ContractError) : Prop :=
  ∃ c, FirstWithout (fun c : Contract => ∀ m ∈ c.methods, c.Knows m) cs c
    ∧ c.Conflict e

/-- All ancestors in a list of contracts are bases. -/
def AllKnown (cs : List Contract) : Prop :=
  ∀ c ∈ cs, ∀ m ∈ c.methods, c.Knows m

/-- Printing fails at the first contract that is not resolved. -/
theorem print_failsWith (transform : String → String) (cs : List Contract) :
    FailsWith (print transform cs) (AllKnown cs) (Conflict cs) :=
  (FailsWith.mapM Contract.block_failsWith cs).bind_ok _

/-- So does the list of summaries, which the check of a record shows. -/
theorem summaries_failsWith (cs : List Contract) :
    FailsWith (cs.mapM Contract.summary) (AllKnown cs) (Conflict cs) :=
  FailsWith.mapM Contract.summary_failsWith cs

/-- A conflict is about some ancestor that is no base. -/
theorem Conflict.not_allKnown {cs : List Contract} {e : ContractError}
    (h : Conflict cs e) :
    ¬AllKnown cs := by
  obtain ⟨c, hc, -⟩ := h
  exact fun hall => hc.mem.2 (hall c hc.mem.1)

-- ============================================================== the theorem

/-- Contracts cannot be printed exactly if a function of one of them, printed
or not, has an ancestor that is no base of its contract. What is reported is
the conflict of the first such contract, the first such function in it, and its
first such ancestor; and the check of the same contracts reports the same, or
succeeds if they are printed. Contracts hold the functions in the order in
which they were first spoken of, and functions the ancestors in the order in
which they were first recorded. -/
theorem print_fails_iff :
    (∀ (transform : String → String) (cs : List Contract),
        ((∃ e, print transform cs = .error e)
            ↔ ∃ c ∈ cs, ∃ m ∈ c.methods, ∃ a ∈ m.ancestors, a ∉ c.baseNames)
          ∧ ∀ e, (print transform cs = .error e ↔ Conflict cs e)
            ∧ (cs.mapM Contract.summary = .error e
              ↔ print transform cs = .error e))
      ∧ ∀ (name : String) (history : List Step),
        let c := Contract.replay history { name }
        c.signatures = ((spoken history).map (·.signature)).eraseDups
          ∧ (∀ m ∈ c.methods,
            m.ancestors = (recorded history m.signature).eraseDups)
          ∧ ∀ base, base ∈ c.baseNames
            ↔ base ∈ history.flatMap Step.inherited := by
  refine ⟨fun transform cs => ⟨?_, fun e => ?_⟩, fun name history => ?_⟩
  · rw [(print_failsWith transform cs).fails_iff]
    unfold AllKnown Contract.Knows
    push Not
    exact Iff.rfl
  · have hprint : print transform cs = .error e ↔ Conflict cs e :=
      (print_failsWith transform cs).eq_error_iff Conflict.not_allKnown
    have hsummaries : cs.mapM Contract.summary = .error e ↔ Conflict cs e :=
      (summaries_failsWith cs).eq_error_iff Conflict.not_allKnown
    exact ⟨hprint, hsummaries.trans hprint.symm⟩
  · exact ⟨Contract.signatures_replay history name,
      fun m hm => Contract.ancestors_replay hm,
      fun base => Contract.mem_baseNames_replay⟩

/-- Three contracts, two of which name ancestors that are no bases. The first
that is reported is the only ancestor of a function to which nothing was added,
which is never printed. -/
theorem print_fails_of_strayAncestors :
    let internal : String → Declaration :=
  fun name => { name, visibility := .inside }
    let votes : Step := .base ⟨⟨"Votes", "./Votes.sol"⟩, []⟩
    let fine := Contract.replay [votes, .ancestor "Votes" (internal "mint")]
        { name := "Fine" }
    let stray := Contract.replay [votes, .ancestor "Votes" (internal "mint"),
      .ancestor "Ghost" (internal "pause"),
        .ancestor "Votes" (internal "burn"),
      .ancestor "Specter" (internal "burn")] { name := "Stray" }
    let other := Contract.replay [.ancestor "Specter" (internal "pause")]
        { name := "Other" }
    let conflict := ContractError.unknownAncestor "Stray" "pause()" "Ghost"
    printPlain [fine, stray, other] = .error conflict
      ∧ [fine, stray, other].mapM Contract.summary = .error conflict
      ∧ stray.methods.map (·.isOmitted) = [true, true, false] := by
  intro internal votes fine stray other conflict
  let pause := stray.methodFor (internal "pause")
  have hcontract : FirstWithout
      (fun c : Contract => ∀ m ∈ c.methods, c.Knows m)
      [fine, stray, other] stray := by
    decide +kernel
  have hmethod : FirstWithout stray.Knows stray.methods pause := by
    decide +kernel
  have hancestor : FirstWithout
      (· ∈ stray.baseNames) pause.ancestors "Ghost" := by decide +kernel
  have hnamed : conflict
      = .unknownAncestor stray.name pause.signature.text "Ghost" := by
    decide +kernel
  obtain ⟨hfiles, -⟩ := print_fails_iff
  obtain ⟨hprint, hsummaries⟩ := (hfiles id [fine, stray, other]).2 conflict
  have herror : printPlain [fine, stray, other] = .error conflict :=
    hprint.2 ⟨stray, hcontract, pause, hmethod, "Ghost", hancestor, hnamed⟩
  exact ⟨herror, hsummaries.2 herror, by decide +kernel⟩

end SourceFile

end TokenForge
