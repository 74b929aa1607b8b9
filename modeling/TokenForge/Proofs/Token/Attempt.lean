/-
What an assembly does to a given contract, also if a conflict stops it. A
feature decides by looking at the contract which steps it takes, and then takes
them in order, so from one contract it is an attempt at a list of steps
(`Attempts`): as much of it is done as goes before the first conflict. The
rules follow the ways to put an assembly together; after one part, the next is
asked from the contract that the steps of the first leave.

An attempt is decided by its conflicts. If the contract admits all of its
steps, it ends in the contract that the steps leave; the first conflict ends it
where the steps before have led, since a refused step changes nothing
(`Assembly.runOn_attempt_of_conflict`).

A restriction is the one part that looks before it acts. Its steps are
written down here for any contract (`Token.restrictingFrom`), and none of
them is ever refused. The features that both tokens have, pausing and
upgrades, are built on it. What they do before they write a body has names of
its own (`Token.pauseStart`, `Token.upgradeStart`), since the body is where a
conflict can stop them.
-/
import TokenForge.Proofs.Contract.Content
import TokenForge.Proofs.Token.Triple
import TokenForge.Token.Pausable
import TokenForge.Token.Proxy

namespace TokenForge

-- ==================================================== optional parts of lists

/-- A list that is there only if an option is set. -/
def onlyIf {α : Type} (option : Bool) (l : List α) : List α :=
  if option then l else []

section OnlyIf

variable {α β : Type} {option : Bool} {l : List α}

@[simp]
theorem onlyIf_true (l : List α) : onlyIf true l = l := rfl

@[simp]
theorem onlyIf_false (l : List α) : onlyIf false l = [] := rfl

@[simp]
theorem onlyIf_nil (option : Bool) : onlyIf option ([] : List α) = [] := by
  cases option <;> rfl

/-- A part that depends on an option has members only if the option is set. -/
@[simp]
theorem mem_onlyIf {x : α} : x ∈ onlyIf option l ↔ option = true ∧ x ∈ l := by
  cases option <;> simp

/-- It is empty if the option is not set, or there is nothing in it. -/
@[simp]
theorem onlyIf_eq_nil : onlyIf option l = [] ↔ option = false ∨ l = [] := by
  cases option <;> simp

@[simp]
theorem map_onlyIf (option : Bool) (l : List α) (f : α → β) :
    (onlyIf option l).map f = onlyIf option (l.map f) := by
  cases option <;> rfl

@[simp]
theorem filter_onlyIf (option : Bool) (l : List α) (p : α → Bool) :
    (onlyIf option l).filter p = onlyIf option (l.filter p) := by
  cases option <;> rfl

@[simp]
theorem flatMap_onlyIf (option : Bool) (l : List α) (f : α → List β) :
    (onlyIf option l).flatMap f = onlyIf option (l.flatMap f) := by
  cases option <;> rfl

@[simp]
theorem any_onlyIf (option : Bool) (l : List α) (p : α → Bool) :
    (onlyIf option l).any p = (option && l.any p) := by
  cases option <;> rfl

end OnlyIf

-- ============================================================ admitted steps

/-- No step of the list runs into a conflict. -/
def Contract.Admits (c : Contract) : List Step → Prop
  | [] => True
  | s :: steps => s.conflict? c = none ∧ (s.next c).Admits steps

/-- Whether there are contracts in which the step runs into a conflict. -/
@[simp]
def Step.refusable : Step → Bool
  | .base _ => true
  | .line _ _ => true
  | .body _ _ => true
  | _ => false

/-- A step that brings no base and works on no body meets no conflict. -/
theorem Step.conflict?_of_not_refusable {s : Step} (hs : s.refusable = false)
    (c : Contract) :
    s.conflict? c = none := by
  cases hedit : s.edit? with
  | none =>
      cases s <;> simp only [edit?, refusable, reduceCtorEq] at hedit hs
      all_goals rfl
  | some df =>
      obtain ⟨d, f⟩ := df
      rw [(next_of_edit hedit c).2]
      rcases edit?_cases hedit
        with ⟨a, -, rfl⟩ | ⟨text, -, rfl⟩ | ⟨change, refusal, hbody, -⟩
      · rfl
      · rfl
      · cases s <;> simp [aspect?] at hbody hs

/-- The base a step brings, if it is admitted. -/
@[simp]
def Step.brought : Step → List Base
  | .base b => [b]
  | _ => []

namespace Contract

variable {c : Contract} {s : Step} {steps more : List Step}

/-- A contract admits more steps if it admits those after the first ones. -/
theorem admits_append :
    c.Admits (steps ++ more)
      ↔ c.Admits steps ∧ (replay steps c).Admits more := by
  induction steps generalizing c with
  | nil => exact (iff_of_eq (true_and _)).symm
  | cons s steps ih =>
      rw [List.cons_append, Admits, Admits, ih, replay_cons, and_assoc]

/-- Steps that cannot be refused are admitted by every contract. -/
theorem admits_of_not_refusable (h : ∀ s ∈ steps, s.refusable = false) :
    c.Admits steps := by
  induction steps generalizing c with
  | nil => trivial
  | cons s steps ih =>
      obtain ⟨hs, hsteps⟩ := List.forall_mem_cons.1 h
      exact ⟨Step.conflict?_of_not_refusable hs c, ih hsteps⟩

/-- A base that is not there is admitted. -/
theorem admits_base {b : Base} (hb : b.name ∉ c.baseNames)
    (h : ∀ s ∈ steps, s.refusable = false) : c.Admits (.base b :: steps) := by
  refine ⟨?_, admits_of_not_refusable h⟩
  rw [Step.conflict?_base, if_neg hb]

/-- Admitted steps bring their bases. -/
theorem bases_replay (h : c.Admits steps) :
    (replay steps c).bases = c.bases ++ steps.flatMap Step.brought := by
  induction steps generalizing c with
  | nil => exact (List.append_nil _).symm
  | cons s steps ih =>
      have hs : (s.next c).bases = c.bases ++ s.brought := by
        by_cases hbase : ∃ b, s = .base b
        · obtain ⟨b, rfl⟩ := hbase
          have hfree := h.1
          rw [Step.conflict?_base] at hfree
          rw [Step.next_base]
          split at hfree
          next => cases hfree
          next hb => exact if_neg hb
        · have hnone : s.brought = [] := by
            cases s with
            | base b => exact absurd ⟨b, rfl⟩ hbase
            | _ => rfl
          rw [Step.bases_next (fun b hb => hbase ⟨b, hb⟩), hnone,
            List.append_nil]
      rw [replay_cons, ih h.2, hs, List.flatMap_cons, List.append_assoc]

end Contract

namespace Assembly

open Contract

-- ================================================================= attempts

/-- The steps one after the other, up to the first that
runs into a conflict. -/
def attempt (steps : List Step) : Assembly Unit := steps.forM Step.perform

/-- From the contract, the assembly is an attempt at the steps. -/
def Attempts (c : Contract) (a : Assembly Unit) (steps : List Step) : Prop :=
  a c = attempt steps c

variable {c d : Contract} {s : Step} {steps more : List Step}
  {e : ContractError}

/-- The first step decides: a conflict ends the attempt, and
otherwise it goes on. -/
theorem attempt_cons (s : Step) (steps : List Step) (c : Contract) :
    attempt (s :: steps) c = match s.conflict? c with
      | none => attempt steps (s.next c)
      | some e => .error e (s.next c) := by
  show EStateM.bind s.perform (fun _ => attempt steps) c = _
  rw [EStateM.bind, Step.perform_apply]
  cases s.conflict? c <;> rfl

/-- Steps that are all admitted are done, and what follows
starts where they lead. -/
theorem attempt_append (h : c.Admits steps) (more : List Step) :
    attempt (steps ++ more) c = attempt more (replay steps c) := by
  induction steps generalizing c with
  | nil => rfl
  | cons s steps ih =>
      rw [List.cons_append, attempt_cons, h.1]
      exact ih h.2

/-- Steps that are admitted are all done. -/
theorem attempt_of_admits (h : c.Admits steps) :
    attempt steps c = .ok () (replay steps c) := by
  have hall := attempt_append h []
  rwa [List.append_nil] at hall

/-- An attempt that succeeds has done all its steps. -/
theorem admits_of_attempt (h : attempt steps c = .ok () d) :
    c.Admits steps := by
  induction steps generalizing c with
  | nil => trivial
  | cons s steps ih =>
      rw [attempt_cons] at h
      cases hs : s.conflict? c with
      | none =>
          rw [hs] at h
          exact ⟨hs, ih h⟩
      | some e =>
          rw [hs] at h
          cases h

/-- An attempt that succeeds has done all its steps. -/
theorem eq_replay_of_attempt (h : attempt steps c = .ok () d) :
    d = replay steps c := by
  rw [attempt_of_admits (admits_of_attempt h)] at h
  cases h
  rfl

-- ==================================================================== rules

section Attempts

variable {a b : Assembly Unit}

/-- A step is an attempt at itself. -/
theorem Attempts.step (s : Step) : Attempts c s.perform [s] := by
  unfold Attempts
  rw [attempt_cons, Step.perform_apply]
  cases s.conflict? c <;> rfl

theorem Attempts.skip : Attempts c (pure ()) [] := rfl

/-- The second assembly is asked from where the steps of the first lead. -/
theorem Attempts.bind (ha : Attempts c a steps)
    (hb : Attempts (replay steps c) b more) :
    Attempts c (a >>= fun _ => b) (steps ++ more) := by
  have hsplit : attempt (steps ++ more)
      = attempt steps >>= fun _ => attempt more :=
    List.forM_append
  unfold Attempts
  rw [hsplit]
  show EStateM.bind a (fun _ => b) c
      = EStateM.bind (attempt steps) (fun _ => attempt more) c
  rw [EStateM.bind, EStateM.bind, ha]
  cases hrun : attempt steps c with
  | ok u d =>
      rw [eq_replay_of_attempt hrun]
      exact hb
  | error e d => rfl

/-- A repetition of steps is an attempt at all of them. -/
theorem Attempts.forM {α : Type} {f : α → Assembly Unit} {s : α → Step}
    (hf : ∀ x, f x = (s x).perform) (l : List α) :
    Attempts c (l.forM f) (l.map s) := by
  induction l generalizing c with
  | nil => exact Attempts.skip
  | cons x l ih =>
      have hx : Attempts c (f x) [s x] := by
        rw [hf]
        exact Attempts.step _
      exact hx.bind ih

/-- What a catalog has is found without looking at the contract. -/
theorem Attempts.lookUp {catalog : Catalog} {function : String}
    {d : Declaration} {f : Declaration → Assembly Unit}
    (hget : catalog.get function = .ok d) (hf : Attempts c (f d) steps) :
    Attempts c (Token.lookUp catalog function >>= f) steps := by
  rw [Token.lookUp_of_get hget, pure_bind]
  exact hf

/-- A test of the contract goes by the contract. -/
theorem Attempts.test {p : Contract → Bool}
    (ha : p c = true → Attempts c a steps)
    (hb : p c = false → Attempts c b steps) :
    Attempts c (do if p (← get) = true then a else b) steps := by
  show (if p c = true then a else b) c = _
  cases hp : p c with
  | true => exact ha hp
  | false => exact hb hp

end Attempts

-- ================================================================= outcomes

/-- A conflict ends an attempt where the steps before it lead. -/
theorem runOn_attempt_of_conflict (h : c.Admits steps)
    (hs : s.conflict? (replay steps c) = some e) :
    (attempt (steps ++ s :: more)).runOn c = (replay steps c, some e) := by
  unfold runOn
  rw [attempt_append h, attempt_cons, hs, Step.next_of_conflict hs]

/-- An attempt at admitted steps meets no conflict. -/
theorem runOn_attempt_of_admits (h : c.Admits steps) :
    (attempt steps).runOn c = (replay steps c, none) := by
  unfold runOn
  rw [attempt_of_admits h]

/-- What an assembly leaves, with or without a conflict, is what
its attempt leaves. -/
theorem runOn_of_attempts {a : Assembly Unit} (h : Attempts c a steps) :
    a.runOn c = (attempt steps).runOn c := by
  unfold runOn
  rw [h]

end Assembly

namespace Token

open Assembly Contract

-- ========================================================== restrictions

/-- Adding a contract of the package as a base. -/
@[simp]
def inheriting (name path : String) (args : List Value) : Step :=
  .base ⟨openzeppelin name path, args⟩

@[simp]
theorem name_openzeppelin (name path : String) :
    (openzeppelin name path).name = name :=
  rfl

@[simp]
theorem name_base (name path : String) (args : List Value) :
    Base.name ⟨openzeppelin name path, args⟩ = name := rfl

/-- The base through which access is restricted. -/
def accessBase : Access → String
  | .ownable => "Ownable"
  | .roles => "AccessControl"

/-- The modifier of functions that a role may call. -/
def accessModifier (access : Access) (role : String) : String :=
  match access with
  | .ownable => "onlyOwner"
  | .roles => onlyRole role

/-- What only the first restriction of a contract does. -/
def accessIntroduction : Access → List Step
  | .ownable => [inheriting "Ownable" "access/Ownable.sol" []]
  | .roles =>
      [inheriting "AccessControl" "access/AccessControl.sol" [],
        .constructorLine adminGrant]

/-- A text that stands twice between fixed texts is fixed by the whole. -/
theorem eq_of_twice {a b c x y : String}
    (h : a ++ x ++ b ++ x ++ c = a ++ y ++ b ++ y ++ c) : x = y := by
  have hlist := congrArg String.toList h
  simp only [String.toList_append, List.append_assoc,
    List.append_cancel_left_eq] at hlist
  have hlength := congrArg List.length hlist
  simp only [List.length_append] at hlength
  exact String.toList_injective (List.append_inj hlist (by omega)).1

/-- Roles are told apart by their declarations. -/
@[simp]
theorem roleDeclaration_inj {role role' : String} :
    roleDeclaration role = roleDeclaration role' ↔ role = role' := by
  refine ⟨fun h => ?_, congrArg _⟩
  have hid : roleId role = roleId role' := eq_of_twice h
  exact String.toList_injective
    (by simpa [roleId] using congrArg String.toList hid)

/-- What a restriction of a contract does for its role. -/
def roleIntroductionFrom (c : Contract) (access : Access) (role : String) :
    List Step :=
  match access with
  | .ownable => []
  | .roles =>
      .ancestor "AccessControl" supportsInterface
        :: onlyIf (!c.stateVariables.contains (roleDeclaration role))
          [.declare (roleDeclaration role), .constructorLine (roleGrant role)]

/-- The steps of a restriction of a contract. -/
def restrictingFrom (c : Contract) (access : Access) (role : String)
    (fs : List Declaration) : List Step :=
  onlyIf (!c.hasBase (accessBase access)) (accessIntroduction access)
    ++ (roleIntroductionFrom c access role
      ++ fs.map (.modifier (accessModifier access role)))

variable {c : Contract} {access : Access} {role : String}
  {fs : List Declaration}

/-- Guarding functions is an attempt at one modifier for each. -/
theorem attempts_guard (modifier : String) (fs : List Declaration) :
    Attempts c (guard modifier fs) (fs.map (.modifier modifier)) :=
  Attempts.forM (f := Assembly.addModifier modifier) (fun _ => rfl) fs

/-- A base that is added unless it is there. -/
theorem attempts_unlessBase {base path : String}
    {introduction more : List Step} {a b : Assembly Unit}
    (ha : c.hasBase base = true → Attempts c a more)
    (hb : c.hasBase base = false →
      Attempts c (inherit base path [] >>= fun _ => b)
        (introduction ++ more)) :
    Attempts c
      (do if (← get).hasBase base = true then a
          else (inherit base path [] >>= fun _ => b))
      (onlyIf (!c.hasBase base) introduction ++ more) := by
  refine Attempts.test (p := fun c => c.hasBase base) ?_ ?_
  · intro hbase
    rw [hbase]
    exact ha hbase
  · intro hbase
    rw [hbase]
    exact hb hbase

/-- A restriction takes its steps. -/
theorem attempts_restrict (c : Contract) (access : Access) (role : String)
    (fs : List Declaration) :
    Attempts c (restrict access role fs)
      (restrictingFrom c access role fs) := by
  cases access with
  | ownable =>
      refine attempts_unlessBase (fun _ => attempts_guard "onlyOwner" fs)
        fun _ => ?_
      exact (Attempts.step (inheriting "Ownable" "access/Ownable.sol" [])).bind
        (attempts_guard "onlyOwner" fs)
  | roles =>
      -- what follows the base: no step of it concerns
      -- whether the role was declared
      have hrest : ∀ d : Contract, d.stateVariables = c.stateVariables →
          Attempts d (do
            Assembly.addAncestor "AccessControl"
              (← lookUp sharedCatalog "supportsInterface")
            unless (← get).stateVariables.contains (roleDeclaration role) do
              Assembly.addVariable (roleDeclaration role)
              Assembly.addConstructorLine (roleGrant role)
            guard (onlyRole role) fs)
            (roleIntroductionFrom c .roles role
              ++ fs.map (.modifier (onlyRole role))) := by
        intro d hd
        refine Attempts.lookUp rfl
          ((Attempts.step (.ancestor "AccessControl" supportsInterface)).bind
            ?_)
        have hknown :
            (replay
              [.ancestor "AccessControl" supportsInterface] d).stateVariables
            = c.stateVariables := by
          rw [← hd]
          exact ((Step.lists_next _ d).2.1).trans (List.append_nil _)
        refine Attempts.test (p := fun c =>
          c.stateVariables.contains (roleDeclaration role)) ?_ ?_
        · intro hrole
          rw [hknown] at hrole
          rw [hrole]
          exact attempts_guard (onlyRole role) fs
        · intro hrole
          rw [hknown] at hrole
          rw [hrole]
          exact (Attempts.step (.declare _)).bind
            ((Attempts.step (.constructorLine _)).bind
              (attempts_guard (onlyRole role) fs))
      refine attempts_unlessBase (fun _ => hrest c rfl) fun _ => ?_
      refine (Attempts.step
        (inheriting "AccessControl" "access/AccessControl.sol" [])).bind
        ((Attempts.step (.constructorLine adminGrant)).bind (hrest _ ?_))
      simp only [replay_cons, replay_nil, (Step.lists_next _ _).2.1,
        Step.declared, inheriting, List.append_nil]

/-- No step of a restriction is refused. -/
theorem admits_restrictingFrom (c : Contract) (access : Access) (role : String)
    (fs : List Declaration) : c.Admits (restrictingFrom c access role fs) := by
  have hrest : ∀ s ∈ roleIntroductionFrom c access role
      ++ fs.map (.modifier (accessModifier access role)), s.refusable
        = false := by
    cases access <;> simp [roleIntroductionFrom, or_imp, forall_and]
  cases hbase : c.hasBase (accessBase access) with
  | true =>
      rw [restrictingFrom, hbase]
      exact admits_of_not_refusable hrest
  | false =>
      have hnew : accessBase access ∉ c.baseNames := by
        rw [← hasBase_iff, hbase]
        exact Bool.false_ne_true
      rw [restrictingFrom, hbase]
      cases access with
      | ownable => exact admits_base hnew hrest
      | roles => exact admits_base hnew (List.forall_mem_cons.2 ⟨rfl, hrest⟩)

/-- The steps of a restriction depend on whether its base is there
and on the variables. -/
theorem restrictingFrom_congr {d : Contract} (access : Access) (role : String)
    (fs : List Declaration)
    (hbase : d.hasBase (accessBase access) = c.hasBase (accessBase access))
    (hvariables : d.stateVariables = c.stateVariables) :
    restrictingFrom d access role fs = restrictingFrom c access role fs := by
  unfold restrictingFrom roleIntroductionFrom
  rw [hbase, hvariables]

-- ================================================================= features

/-- What pausing does first: it brings its base and makes functions
depend on the pause. -/
def pauseGuards (fs : List Declaration) : List Step :=
  inheriting "Pausable" "security/Pausable.sol" []
    :: fs.map (.modifier "whenNotPaused")

/-- What pausing does before it writes its two functions. -/
def pauseStart (c : Contract) (access : Access) (fs : List Declaration) :
    List Step :=
  pauseGuards fs ++ restrictingFrom c access "PAUSER" [pause, unpause]

/-- The restriction is that of the contract as it was before the pause. -/
theorem restrictingFrom_pauseGuards (c : Contract) (access : Access)
    (fs : List Declaration) :
    restrictingFrom (replay (pauseGuards fs) c) access "PAUSER"
      [pause, unpause]
      = restrictingFrom c access "PAUSER" [pause, unpause] := by
  have hname : accessBase access ≠ "Pausable" := by cases access <;> decide
  refine restrictingFrom_congr access "PAUSER" _ ?_ ?_
  · rw [Bool.eq_iff_iff, hasBase_iff, hasBase_iff, mem_baseNames_replay_from]
    simp [pauseGuards, List.flatMap_map, hname]
  · rw [appended_replay (fun s c => (s.lists_next c).2.1)]
    simp [pauseGuards, List.flatMap_map]

/-- Pausing is an attempt at what it does first, and then at a line for
each of its functions. -/
theorem attempts_pausable (c : Contract) (access : Access)
    (fs : List Declaration) :
    Attempts c (addPausable access fs)
      (pauseStart c access fs
        ++ [.line "_pause();" pause, .line "_unpause();" unpause]) := by
  have hlines : ∀ d : Contract,
      Attempts d (Assembly.appendLine "_pause();" pause >>= fun _ =>
      Assembly.appendLine "_unpause();" unpause)
      [.line "_pause();" pause, .line "_unpause();" unpause] :=
    fun d => (Attempts.step (.line "_pause();" pause)).bind
      (Attempts.step (.line "_unpause();" unpause))
  have hrestrict := attempts_restrict
      (replay (pauseGuards fs) c) access "PAUSER" [pause, unpause]
  rw [restrictingFrom_pauseGuards] at hrestrict
  have hsplit : pauseStart c access fs
      ++ [.line "_pause();" pause, .line "_unpause();" unpause]
      = [inheriting "Pausable" "security/Pausable.sol" []]
        ++ (fs.map (.modifier "whenNotPaused")
          ++ (restrictingFrom c access "PAUSER" [pause, unpause]
            ++ [.line "_pause();" pause, .line "_unpause();" unpause])) := by
    simp only [pauseStart, pauseGuards, List.cons_append, List.nil_append,
      List.append_assoc]
  rw [hsplit]
  exact (Attempts.step (inheriting "Pausable" "security/Pausable.sol" [])).bind
    ((attempts_guard "whenNotPaused" fs).bind
      (Attempts.lookUp rfl (Attempts.lookUp rfl (hrestrict.bind (hlines _)))))

/-- The steps that make a contract upgradeable. -/
@[simp]
def proxyHistory (proxy? : Option Proxy) : List Step :=
  onlyIf proxy?.isSome
    [.upgradeable,
      inheriting "Initializable" "proxy/utils/Initializable.sol" []]

/-- Setting a proxy is an attempt at its history, which does not
depend on the contract. -/
theorem attempts_setProxy (c : Contract) (proxy? : Option Proxy) :
    Attempts c (setProxy proxy?) (proxyHistory proxy?) := by
  cases proxy? with
  | none => exact Attempts.skip
  | some proxy =>
      exact (Attempts.step .upgradeable).bind
        (Attempts.step
          (inheriting "Initializable" "proxy/utils/Initializable.sol" []))

/-- What the check of upgrades does before it writes its function. -/
def upgradeStart (c : Contract) (access : Access) : List Step :=
  restrictingFrom c access "UPGRADER" [authorizeUpgrade]
    ++ [inheriting "UUPSUpgradeable" "proxy/utils/UUPSUpgradeable.sol" [],
      .ancestor "UUPSUpgradeable" authorizeUpgrade]

/-- The check of upgrades ends with the body of its
function, which is empty. -/
theorem attempts_upgradeCheck (c : Contract) (access : Access) :
    Attempts c (addUpgradeCheck (some .uups) access)
      (upgradeStart c access ++ [.body [] authorizeUpgrade]) := by
  unfold upgradeStart
  rw [List.append_assoc]
  exact Attempts.lookUp rfl
    ((attempts_restrict c access "UPGRADER" [authorizeUpgrade]).bind
    ((Attempts.step
      (inheriting "UUPSUpgradeable" "proxy/utils/UUPSUpgradeable.sol" [])).bind
      ((Attempts.step (.ancestor "UUPSUpgradeable" authorizeUpgrade)).bind
        (Attempts.step (.body [] authorizeUpgrade)))))

end Token

end TokenForge
