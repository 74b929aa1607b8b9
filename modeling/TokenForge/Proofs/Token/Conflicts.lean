/-
Features that a conflict stops. The three features that bring a base of their
own can run into what was done to the contract before: their base is there, or
the body of their function was written in the other way. They are not undone
then. What such a feature leaves is what its steps before the refused one make
of the contract, and which steps these are is read off the contract in advance.

Each outcome follows from the list of the feature's steps, of which at
most two can be refused, since a restriction never is. The steps before do
not touch what decides a later one: they add no base of its name and work
on no body (`bodyOf_replay_of_not_called`), so the conditions are about
the contract as it was.

A stopped feature takes nothing away. It leaves the contract exactly as it was
if its own base is the first thing it does, as in pausing; the upgrade features
do something before (`stopped_features`).
-/
import TokenForge.Proofs.Contract.BodyHistory
import TokenForge.Proofs.Token.Attempt

namespace TokenForge

open Assembly Contract

-- ================================================================= refusals

/-- Steps that work on other bodies leave a body as it was. -/
theorem Contract.bodyOf_replay_of_not_called {steps : List Step}
    {sig : Signature} (h : ∀ s ∈ steps, s.bodyCall? sig = none)
    (c : Contract) :
    (replay steps c).bodyOf sig = c.bodyOf sig := by
  induction steps generalizing c with
  | nil => rfl
  | cons s steps ih =>
      obtain ⟨hs, hsteps⟩ := List.forall_mem_cons.1 h
      rw [replay_cons, ih hsteps, Step.bodyOf_next_of_none hs]

/-- A body that was appended to. -/
def Body.isGrown : Body → Bool
  | .grown _ => true
  | _ => false

/-- A line is refused where the body was set as a whole. -/
theorem Step.conflict?_line (text : String) (d : Declaration) (c : Contract) :
    (Step.line text d).conflict? c
      = if (c.bodyOf d.signature).isReplaced then
        some (.bodyReplaced d.signature.text)
        else none := by
  have hcall : (Step.line text d).bodyCall? d.signature
      = some (.append text) := if_pos rfl
  rw [(bodyOf_next_of_call hcall c).2]
  cases c.bodyOf d.signature <;> rfl

/-- A whole body is refused where lines were appended. -/
theorem Step.conflict?_body (lines : List String) (d : Declaration)
    (c : Contract) :
    (Step.body lines d).conflict? c
      = if (c.bodyOf d.signature).isGrown then
        some (.bodyAppended d.signature.text)
        else none := by
  have hcall : (Step.body lines d).bodyCall? d.signature
      = some (.replace lines) := if_pos rfl
  rw [(bodyOf_next_of_call hcall c).2]
  cases c.bodyOf d.signature <;> rfl

namespace Token

variable {c : Contract} {access : Access} {role : String}
  {fs : List Declaration}

-- ============================================================= restrictions

/-- The one base that a restriction may bring. -/
theorem inherited_restrictingFrom {name : String}
    (h : name ∈ (restrictingFrom c access role fs).flatMap Step.inherited) :
    name = accessBase access := by
  cases access <;>
    simp [restrictingFrom, accessIntroduction, roleIntroductionFrom,
      List.flatMap_map] at h <;>
    exact h.2

/-- A restriction works on no body. -/
theorem bodyCall?_restrictingFrom (sig : Signature) :
    ∀ s ∈ restrictingFrom c access role fs, s.bodyCall? sig = none := by
  cases access <;>
    simp [restrictingFrom, accessIntroduction, roleIntroductionFrom,
      Step.bodyCall?, or_imp, forall_and]

/-- A restriction gives a modifier to every function it lists. -/
theorem given_restrictingFrom {g : Declaration} (hg : g ∈ fs) :
    (restrictingFrom c access role fs).flatMap (Step.given g.signature)
      ≠ [] := by
  intro hnone
  have hstep : .modifier (accessModifier access role) g
      ∈ restrictingFrom c access role fs :=
    List.mem_append_right _
      (List.mem_append_right _ (List.mem_map.2 ⟨g, hg, rfl⟩))
  have hgiven := List.flatMap_eq_nil_iff.1 hnone _ hstep
  rw [Step.given, if_pos rfl] at hgiven
  cases hgiven

-- ==================================================================== pauses

/-- What pausing does first is refused only for its base. -/
theorem admits_pauseStart (h : "Pausable" ∉ c.baseNames) (access : Access)
    (fs : List Declaration) : c.Admits (pauseStart c access fs) := by
  refine admits_append.2 ⟨admits_base h (by simp), ?_⟩
  rw [← restrictingFrom_pauseGuards]
  exact admits_restrictingFrom ..

/-- It writes no body. -/
theorem bodyOf_pauseStart (c : Contract) (access : Access)
    (fs : List Declaration) (sig : Signature) :
    (replay (pauseStart c access fs) c).bodyOf sig = c.bodyOf sig := by
  refine bodyOf_replay_of_not_called (List.forall_mem_append.2 ⟨?_, ?_⟩) c
  · simp [pauseGuards, Step.bodyCall?]
  · exact bodyCall?_restrictingFrom sig

/-- How pausing ends. -/
theorem runOn_addPausable (c : Contract) (access : Access)
    (fs : List Declaration) :
    (addPausable access fs).runOn c =
      if "Pausable" ∈ c.baseNames then
        (c, some (.duplicateBase c.name "Pausable"))
      else if (c.bodyOf pause.signature).isReplaced then
        (replay (pauseStart c access fs) c, some (.bodyReplaced "pause()"))
      else if (c.bodyOf unpause.signature).isReplaced then
        (replay (pauseStart c access fs ++ [.line "_pause();" pause]) c,
          some (.bodyReplaced "unpause()"))
      else
        (replay (pauseStart c access fs
          ++ [.line "_pause();" pause, .line "_unpause();" unpause]) c,
            none) := by
  have hpauseText : pause.signature.text = "pause()" := by decide
  have hunpauseText : unpause.signature.text = "unpause()" := by decide
  have hpause := Step.conflict?_line "_pause();" pause
      (replay (pauseStart c access fs) c)
  have hunpause := Step.conflict?_line "_unpause();" unpause
    (replay (pauseStart c access fs ++ [.line "_pause();" pause]) c)
  rw [bodyOf_pauseStart, hpauseText] at hpause
  rw [replay_append, bodyOf_replay_of_not_called (by decide),
    bodyOf_pauseStart, hunpauseText, ← replay_append] at hunpause
  rw [runOn_of_attempts (attempts_pausable c access fs)]
  by_cases hbase : "Pausable" ∈ c.baseNames
  · have hconflict :
        (inheriting "Pausable" "security/Pausable.sol" []).conflict? c
        = some (.duplicateBase c.name "Pausable") := by
      rw [inheriting, Step.conflict?_base, name_base, if_pos hbase]
    have hnothing : c.Admits [] := trivial
    rw [if_pos hbase]
    exact runOn_attempt_of_conflict hnothing hconflict
  · have hstart := admits_pauseStart hbase access fs
    rw [if_neg hbase]
    cases hfirst : (c.bodyOf pause.signature).isReplaced with
    | true =>
        rw [hfirst, if_pos rfl] at hpause
        exact runOn_attempt_of_conflict hstart hpause
    | false =>
        rw [hfirst, if_neg Bool.false_ne_true] at hpause
        have hone : c.Admits
            (pauseStart c access fs ++ [.line "_pause();" pause]) :=
          admits_append.2 ⟨hstart, hpause, trivial⟩
        rw [if_neg Bool.false_ne_true, List.append_cons]
        cases hsecond : (c.bodyOf unpause.signature).isReplaced with
        | true =>
            rw [hsecond, if_pos rfl] at hunpause
            exact runOn_attempt_of_conflict hone hunpause
        | false =>
            rw [hsecond, if_neg Bool.false_ne_true] at hunpause
            exact runOn_attempt_of_admits
              (admits_append.2 ⟨hone, hunpause, trivial⟩)

-- ================================================================= upgrades

/-- How making a contract upgradeable ends. -/
theorem runOn_setProxy (c : Contract) (proxy : Proxy) :
    (setProxy (some proxy)).runOn c =
      if "Initializable" ∈ c.baseNames then
        ({ c with upgradeable := true },
          some (.duplicateBase c.name "Initializable"))
      else (replay (proxyHistory (some proxy)) c, none) := by
  have hmarked : c.Admits [.upgradeable] := ⟨rfl, trivial⟩
  have hbase :
      (inheriting "Initializable" "proxy/utils/Initializable.sol" []).conflict?
      (replay [.upgradeable] c) = if "Initializable" ∈ c.baseNames
        then some (.duplicateBase c.name "Initializable") else none :=
    Step.conflict?_base ..
  rw [runOn_of_attempts (attempts_setProxy c (some proxy))]
  by_cases hthere : "Initializable" ∈ c.baseNames
  · rw [if_pos hthere] at hbase ⊢
    exact runOn_attempt_of_conflict hmarked hbase
  · rw [if_neg hthere] at hbase ⊢
    exact runOn_attempt_of_admits ⟨rfl, hbase, trivial⟩

/-- How adding the check of upgrades ends. -/
theorem runOn_addUpgradeCheck (c : Contract) (access : Access) :
    (addUpgradeCheck (some .uups) access).runOn c =
      if "UUPSUpgradeable" ∈ c.baseNames then
        (replay (restrictingFrom c access "UPGRADER" [authorizeUpgrade]) c,
          some (.duplicateBase c.name "UUPSUpgradeable"))
      else if (c.bodyOf authorizeUpgrade.signature).isGrown then
        (replay (upgradeStart c access) c,
          some (.bodyAppended "_authorizeUpgrade(address)"))
      else (replay (upgradeStart c access ++ [.body [] authorizeUpgrade]) c,
        none) := by
  have htext : authorizeUpgrade.signature.text
      = "_authorizeUpgrade(address)" := by decide
  have hrestriction :=
    admits_restrictingFrom c access "UPGRADER" [authorizeUpgrade]
  have hnames : "UUPSUpgradeable"
        ∈ (replay
          (restrictingFrom c access "UPGRADER" [authorizeUpgrade]) c).baseNames
      ↔ "UUPSUpgradeable" ∈ c.baseNames := by
    rw [mem_baseNames_replay_from, or_iff_left]
    intro hbase
    have hname := inherited_restrictingFrom hbase
    cases access <;> revert hname <;> decide
  have hbase := Step.conflict?_base
    ⟨openzeppelin "UUPSUpgradeable" "proxy/utils/UUPSUpgradeable.sol", []⟩
    (replay (restrictingFrom c access "UPGRADER" [authorizeUpgrade]) c)
  rw [name_base, name_replay] at hbase
  rw [runOn_of_attempts (attempts_upgradeCheck c access)]
  by_cases hthere : "UUPSUpgradeable" ∈ c.baseNames
  · rw [if_pos (hnames.2 hthere)] at hbase
    rw [if_pos hthere, upgradeStart, List.append_assoc]
    exact runOn_attempt_of_conflict hrestriction hbase
  · rw [if_neg (mt hnames.1 hthere)] at hbase
    have hstart : c.Admits (upgradeStart c access) :=
      admits_append.2 ⟨hrestriction, hbase,
        Step.conflict?_of_not_refusable rfl _, trivial⟩
    have hbody := Step.conflict?_body [] authorizeUpgrade
        (replay (upgradeStart c access) c)
    have hkept :
        (replay (upgradeStart c access) c).bodyOf authorizeUpgrade.signature
        = c.bodyOf authorizeUpgrade.signature := by
      refine bodyOf_replay_of_not_called (List.forall_mem_append.2 ⟨?_, ?_⟩) c
      · exact bodyCall?_restrictingFrom _
      · simp [Step.bodyCall?]
    rw [hkept, htext] at hbody
    rw [if_neg hthere]
    cases hgrown : (c.bodyOf authorizeUpgrade.signature).isGrown with
    | true =>
        rw [hgrown, if_pos rfl] at hbody
        exact runOn_attempt_of_conflict hstart hbody
    | false =>
        rw [hgrown, if_neg Bool.false_ne_true] at hbody
        exact runOn_attempt_of_admits
          (admits_append.2 ⟨hstart, hbody, trivial⟩)

-- ============================================================ all features

/-- The features that bring a base of their own to any contract. -/
inductive Feature where
  /-- Initializers in place of constructors. -/
  | proxy (proxy? : Option Proxy)
  /-- Pausing, for the functions that depend on it. -/
  | pausable (access : Access) (fs : List Declaration)
  /-- The privileged check of upgrades. -/
  | upgradeCheck (proxy? : Option Proxy) (access : Access)
  deriving DecidableEq, Repr

namespace Feature

/-- What a feature does. -/
def perform : Feature → Assembly Unit
  | .proxy proxy? => setProxy proxy?
  | .pausable access fs => addPausable access fs
  | .upgradeCheck proxy? access => addUpgradeCheck proxy? access

/-- How a conflict stops a feature: with which conflict, and what it
leaves of the contract. -/
inductive Stops (c : Contract) : Feature → ContractError → Contract → Prop
  /-- The contract was made upgradeable before its base
  was found to be there. -/
  | initializable (kind : Proxy) (h : "Initializable" ∈ c.baseNames) :
      Stops c (.proxy (some kind)) (.duplicateBase c.name "Initializable")
        { c with upgradeable := true }
  /-- The base of a pause was there, and nothing had been done. -/
  | pausable (access : Access) (fs : List Declaration)
      (h : "Pausable" ∈ c.baseNames) :
      Stops c (.pausable access fs) (.duplicateBase c.name "Pausable") c
  /-- The pause was guarded and restricted before the first of its
  functions was refused. -/
  | pause (access : Access) (fs : List Declaration)
      (hbase : "Pausable" ∉ c.baseNames)
      (h : (c.bodyOf pause.signature).isReplaced = true) :
      Stops c (.pausable access fs) (.bodyReplaced "pause()")
        (replay (pauseStart c access fs) c)
  /-- The first function of the pause was written before the
  second was refused. -/
  | unpause (access : Access) (fs : List Declaration)
      (hbase : "Pausable" ∉ c.baseNames)
      (hfirst : (c.bodyOf Token.pause.signature).isReplaced = false)
      (h : (c.bodyOf unpause.signature).isReplaced = true) :
      Stops c (.pausable access fs) (.bodyReplaced "unpause()")
        (replay (pauseStart c access fs ++ [.line "_pause();" Token.pause]) c)
  /-- The check was restricted before its base was found to be there. -/
  | upgradeable (access : Access) (h : "UUPSUpgradeable" ∈ c.baseNames) :
      Stops c (.upgradeCheck (some .uups) access)
        (.duplicateBase c.name "UUPSUpgradeable")
        (replay (restrictingFrom c access "UPGRADER" [authorizeUpgrade]) c)
  /-- The check was restricted and declared by its base before
  its body was refused. -/
  | authorize (access : Access) (hbase : "UUPSUpgradeable" ∉ c.baseNames)
      (h : (c.bodyOf authorizeUpgrade.signature).isGrown = true) :
      Stops c (.upgradeCheck (some .uups) access)
        (.bodyAppended "_authorizeUpgrade(address)")
        (replay (upgradeStart c access) c)

/-- The contracts that a feature leaves as they were if a conflict stops it. -/
def Spares (c : Contract) : Feature → Prop
  | .proxy _ => c.upgradeable = true
  | .pausable _ _ => "Pausable" ∈ c.baseNames
  | .upgradeCheck _ _ => False

instance (c : Contract) : DecidablePred (Spares c)
  | .proxy _ => inferInstanceAs (Decidable (c.upgradeable = true))
  | .pausable _ _ => inferInstanceAs (Decidable ("Pausable" ∈ c.baseNames))
  | .upgradeCheck _ _ => inferInstanceAs (Decidable False)

variable {f : Feature} {d : Contract} {e : ContractError}

/-- A feature that meets a conflict is stopped in one of the ways listed. -/
theorem stops_of_runOn (h : f.perform.runOn c = (d, some e)) :
    f.Stops c e d := by
  match f with
  | .proxy none => cases h
  | .proxy (some kind) =>
      rw [perform, runOn_setProxy] at h
      split at h
      next hthere =>
        cases h
        exact .initializable kind hthere
      next => cases h
  | .pausable access fs =>
      rw [perform, runOn_addPausable] at h
      split at h
      next hthere =>
        cases h
        exact .pausable access fs hthere
      next hbase =>
        split at h
        next hpause =>
          cases h
          exact .pause access fs hbase hpause
        next hpause =>
          split at h
          next hunpause =>
            cases h
            exact .unpause access fs hbase
              (eq_false_of_ne_true hpause) hunpause
          next => cases h
  | .upgradeCheck none _ => cases h
  | .upgradeCheck (some .transparent) _ => cases h
  | .upgradeCheck (some .uups) access =>
      rw [perform, runOn_addUpgradeCheck] at h
      split at h
      next hthere =>
        cases h
        exact .upgradeable access hthere
      next hbase =>
        split at h
        next hgrown =>
          cases h
          exact .authorize access hbase hgrown
        next => cases h

/-- A feature that is stopped in one of the ways listed meets that conflict. -/
theorem runOn_of_stops (h : f.Stops c e d) :
    f.perform.runOn c = (d, some e) := by
  cases h with
  | initializable kind h => rw [perform, runOn_setProxy, if_pos h]
  | pausable access fs h => rw [perform, runOn_addPausable, if_pos h]
  | pause access fs hbase h =>
      rw [perform, runOn_addPausable, if_neg hbase, if_pos h]
  | unpause access fs hbase hfirst h =>
      rw [perform, runOn_addPausable, if_neg hbase, hfirst,
        if_neg Bool.false_ne_true, if_pos h]
  | upgradeable access h => rw [perform, runOn_addUpgradeCheck, if_pos h]
  | authorize access hbase h =>
      rw [perform, runOn_addUpgradeCheck, if_neg hbase, if_pos h]

/-- A stopped feature takes nothing away. -/
theorem grows_of_stops (hc : c.Reachable) (h : f.Stops c e d) : c.Grows d := by
  cases h with
  | initializable => exact grows_replay [.upgradeable] hc.wellFormed
  | pausable => exact .refl c
  | pause => exact grows_replay _ hc.wellFormed
  | unpause => exact grows_replay _ hc.wellFormed
  | upgradeable => exact grows_replay _ hc.wellFormed
  | authorize => exact grows_replay _ hc.wellFormed

/-- A base that was brought shows that the contract is not what it was. -/
theorem replay_ne_of_inherited {steps : List Step} {name : String}
    (h : name ∉ c.baseNames) (hsteps : name ∈ steps.flatMap Step.inherited) :
    replay steps c ≠ c := by
  intro heq
  have hmem : name ∈ (replay steps c).baseNames :=
    mem_baseNames_replay_from.2 (.inr hsteps)
  rw [heq] at hmem
  exact h hmem

/-- So does a modifier that was given. -/
theorem replay_ne_of_given {steps : List Step} {sig : Signature}
    (h : steps.flatMap (Step.given sig) ≠ []) : replay steps c ≠ c := by
  intro heq
  have hmodifiers := appended_replay (f := (·.modifiersOf sig))
    (fun s c => s.modifiersOf_next c sig) steps c
  rw [heq] at hmodifiers
  exact h (List.self_eq_append_right.1 hmodifiers)

/-- A stopped feature leaves a contract as it was if it
spares it, and no other. -/
theorem eq_iff_of_stops (h : f.Stops c e d) : d = c ↔ f.Spares c := by
  cases h with
  | initializable kind h =>
      constructor
      · intro heq
        exact (congrArg Contract.upgradeable heq).symm
      · intro hmarked
        show { c with upgradeable := true } = c
        rw [← hmarked]
  | pausable access fs h => exact iff_of_true rfl h
  | pause access fs hbase h =>
      exact iff_of_false
        (replay_ne_of_inherited hbase (List.mem_cons_self ..)) hbase
  | unpause access fs hbase hfirst h =>
      exact iff_of_false
        (replay_ne_of_inherited hbase (List.mem_cons_self ..)) hbase
  | upgradeable access h =>
      exact iff_of_false
        (replay_ne_of_given
          (given_restrictingFrom (List.mem_singleton_self _))) id
  | authorize access hbase h =>
      refine iff_of_false (replay_ne_of_inherited hbase ?_) id
      simp [upgradeStart]

-- ============================================================== the theorem

/-- When a conflict stops a feature, with which conflict and what is left is
read off the contract as it was. Nothing is taken away from the contract, and
it is as it was only if the feature spares it: an upgradeable one if it is made
upgradeable, one that has the base of a pause if it is to be paused, and none
if upgrades are to be checked. -/
theorem stopped_exact {c : Contract} (hc : c.Reachable) (f : Feature)
    (d : Contract) (e : ContractError) :
    (f.perform.runOn c = (d, some e) ↔ f.Stops c e d)
      ∧ (f.perform.runOn c = (d, some e) →
        c.Grows d ∧ (d = c ↔ f.Spares c)) := by
  refine ⟨⟨stops_of_runOn, runOn_of_stops⟩, fun h => ?_⟩
  have hstops := stops_of_runOn h
  exact ⟨grows_of_stops hc hstops, eq_iff_of_stops hstops⟩

/-- A contract whose functions are written in the way that pausing
does not write them. -/
def pausedByHand : Contract :=
  replay [.body ["paused = true;"] Token.pause,
    .body ["paused = false;"] unpause]
    { name := "Token" }

/-- The first function of a pause is refused, and the contract has the base
of the pause by then. -/
theorem stopped_exact_pausedByHand :
    pausedByHand.Reachable
      ∧ ∃ d, (pausable .ownable []).perform.runOn pausedByHand
          = (d, some (.bodyReplaced "pause()"))
        ∧ pausedByHand.Grows d ∧ d ≠ pausedByHand := by
  have hc : pausedByHand.Reachable := ⟨_, _, rfl⟩
  have hstops : (pausable .ownable []).Stops pausedByHand
      (.bodyReplaced "pause()")
      (replay (pauseStart pausedByHand .ownable []) pausedByHand) :=
    .pause .ownable [] (by decide) (by decide)
  obtain ⟨hiff, hleft⟩ := stopped_exact hc (pausable .ownable []) _ _
  have hrun := hiff.2 hstops
  obtain ⟨hgrows, hsame⟩ := hleft hrun
  exact ⟨hc, _, hrun, hgrows, mt hsame.1 (by decide)⟩

/-- Conflicts do not undo what a feature did: a contract with the base of
upgradeable contracts is upgradeable after that base was refused. -/
theorem not_undone :
    ¬∀ c : Contract, c.Reachable → ∀ (f : Feature) (d : Contract)
    (e : ContractError), f.perform.runOn c = (d, some e) → d = c := by
  intro h
  have hsame := h
    (replay [.base ⟨⟨"Initializable", "./Initializable.sol"⟩, []⟩]
      { name := "Token" })
    ⟨_, _, rfl⟩ (.proxy (some .uups)) _ _ rfl
  exact absurd hsame (by decide)

end Feature

end Token

end TokenForge
