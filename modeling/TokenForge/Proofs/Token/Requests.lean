/-
Restrictions asked for again and again. A request names a way of access, a role
and some functions, and a contract may get any number of them in any mixture.
None of them fails, and everything that a restriction needs only once is there
once: the base of its way of access, the grant of the administrator role, and
the constant and the grant of its role.

Three tests of the contract have to keep step for this: two look for a base
by its name, the third for the text of a declaration. The invariant
(`RequestedBy`) says of each list what the requests so far make of it, so
it also says how each test ends. One request keeps it (`RequestedBy.next`),
and the induction is on the requests from the end, since each one looks at
what those before it left.

The lines of the constructor are all different unless somebody asks for the
role that only administrators have: its grant is the administrator's own
(`restrict_repeatable`).
-/
import TokenForge.Proofs.Token.Attempt

namespace TokenForge.Token

open Assembly Contract

-- ================================================================ requests

/-- Functions that only some may call: in which way, under which role,
and which functions. -/
structure Request where
  access : Access
  role : String
  functions : List Declaration
  deriving DecidableEq, Repr

/-- The base through which access is restricted, as it is added. -/
def accessParent : Access → Base
  | .ownable => ⟨openzeppelin "Ownable" "access/Ownable.sol", []⟩
  | .roles => ⟨openzeppelin "AccessControl" "access/AccessControl.sol", []⟩

theorem ownable_beq_roles : (Access.ownable == Access.roles) = false := rfl

theorem name_accessParent (access : Access) :
    (accessParent access).name = accessBase access := by
  cases access <;> rfl

namespace Request

/-- Asks for the restriction. -/
def perform (r : Request) : Assembly Unit :=
  restrict r.access r.role r.functions

/-- The contract after a request. -/
def next (r : Request) (c : Contract) : Contract :=
  replay (restrictingFrom c r.access r.role r.functions) c

/-- The role that a request needs, if its way of access knows roles. -/
def roles (r : Request) : List String := onlyIf (r.access == .roles) [r.role]

/-- The modifiers that a request gives to the function of a signature: one for
each time the function is listed. -/
def given (sig : Signature) (r : Request) : List String :=
  (r.functions.filter fun d => d.signature = sig).map fun _ =>
    accessModifier r.access r.role

/-- A request is never refused. -/
theorem perform_apply (r : Request) (c : Contract) :
    r.perform c = .ok () (r.next c) := by
  have hsteps := attempts_restrict c r.access r.role r.functions
  exact hsteps.trans (attempt_of_admits (admits_restrictingFrom ..))

/-- Requests succeed one after the other, so they leave what each of
them leaves in turn. -/
theorem forM_perform (rs : List Request) (c : Contract) :
    rs.forM perform c = .ok () (rs.foldl (fun c r => r.next c) c) := by
  induction rs generalizing c with
  | nil => rfl
  | cons r rs ih =>
      show EStateM.bind r.perform (fun _ => rs.forM perform) c = _
      rw [EStateM.bind, perform_apply]
      exact ih (r.next c)

theorem reachable_next {c : Contract} (hc : c.Reachable) (r : Request) :
    (r.next c).Reachable := by
  obtain ⟨name, history, rfl⟩ := hc
  exact ⟨name, _, (replay_append ..).symm⟩

end Request

-- ============================================================= one request

section Views

variable (c : Contract) (r : Request)

/-- A request brings the base of its access if the
contract does not have it. -/
theorem bases_next : (r.next c).bases
    = c.bases ++ onlyIf (!c.hasBase (accessBase r.access))
      [accessParent r.access] := by
  rw [Request.next, bases_replay (admits_restrictingFrom ..), restrictingFrom]
  cases r.access <;>
    simp [accessIntroduction, roleIntroductionFrom, accessParent,
      List.flatMap_map]

/-- A request for a role declares the role unless it was declared. -/
theorem stateVariables_next : (r.next c).stateVariables
    = c.stateVariables ++ onlyIf (r.access == .roles)
        (onlyIf (!c.stateVariables.contains (roleDeclaration r.role))
          [roleDeclaration r.role]) := by
  rw [Request.next, appended_replay (fun s c => (s.lists_next c).2.1),
    restrictingFrom]
  cases r.access <;>
    simp [accessIntroduction, roleIntroductionFrom, List.flatMap_map,
      ownable_beq_roles]

/-- The administrator is granted with the base, and a role
with its declaration. -/
theorem constructorCode_next : (r.next c).constructorCode
    = c.constructorCode ++ onlyIf (r.access == .roles)
        (onlyIf (!c.hasBase "AccessControl") [adminGrant]
          ++ onlyIf (!c.stateVariables.contains (roleDeclaration r.role))
            [roleGrant r.role]) := by
  rw [Request.next, appended_replay (fun s c => (s.lists_next c).2.2),
    restrictingFrom]
  cases r.access <;>
    simp [accessIntroduction, roleIntroductionFrom, accessBase,
      List.flatMap_map, ownable_beq_roles]

/-- A request gives its modifier to the functions it lists, as
often as it lists them. -/
theorem modifiersOf_next (sig : Signature) :
    (r.next c).modifiersOf sig = c.modifiersOf sig ++ r.given sig := by
  have hfs : ∀ fs : List Declaration,
      (fs.map (Step.modifier (accessModifier r.access r.role))).flatMap
        (Step.given sig)
        = (fs.filter fun d => d.signature = sig).map fun _ =>
          accessModifier r.access r.role := by
    intro fs
    induction fs with
    | nil => rfl
    | cons d fs ih =>
        rw [List.map_cons, List.flatMap_cons, ih, List.filter_cons]
        by_cases hd : d.signature = sig
        · simp [hd]
        · simp [hd]
  have hintroduced :
      (onlyIf (!c.hasBase (accessBase r.access)) (accessIntroduction r.access)
      ++ roleIntroductionFrom c r.access r.role).flatMap (Step.given sig)
        = [] := by
    cases r.access <;> simp [accessIntroduction, roleIntroductionFrom]
  rw [Request.next,
    appended_replay (f := (·.modifiersOf sig))
      (fun s c => s.modifiersOf_next c sig),
    restrictingFrom, ← List.append_assoc, List.flatMap_append, hintroduced,
    List.nil_append, hfs]
  rfl

end Views

-- ============================================================ all requests

/-- The roles that requests need, in order and as often as
they are asked for. -/
def rolesOf (rs : List Request) : List String := rs.flatMap Request.roles

/-- What requests make of a fresh contract. -/
structure RequestedBy (rs : List Request) (c : Contract) : Prop where
  bases : c.bases = (rs.map fun r => accessParent r.access).eraseDups
  stateVariables : c.stateVariables
    = (rolesOf rs).eraseDups.map roleDeclaration
  constructorCode : c.constructorCode
    = onlyIf (rs.any (·.access == .roles))
      (adminGrant :: (rolesOf rs).eraseDups.map roleGrant)
  modifiersOf : ∀ sig, c.modifiersOf sig = rs.flatMap (Request.given sig)

variable {rs : List Request} {c : Contract} {r : Request}

/-- The roles of one more request come last. -/
theorem rolesOf_concat (rs : List Request) (r : Request) :
    rolesOf (rs ++ [r]) = rolesOf rs ++ r.roles := by
  unfold rolesOf
  rw [List.flatMap_append, List.flatMap_singleton]

/-- Roles are needed only where a request knows roles. -/
theorem rolesOf_eq_nil (h : rs.any (·.access == .roles) = false) :
    rolesOf rs = [] := by
  refine List.flatMap_eq_nil_iff.2 fun r hr => ?_
  have hr' := List.any_eq_false.1 h r hr
  rw [Request.roles, eq_false_of_ne_true hr']
  rfl

/-- The base of a way of access is there exactly if a request went that way. -/
theorem RequestedBy.hasBase (h : RequestedBy rs c) (access : Access) :
    c.hasBase (accessBase access) = rs.any (·.access == access) := by
  have hname : ∀ a b : Access, accessBase a = accessBase b ↔ a = b := by
    intro a b
    cases a <;> cases b <;> decide
  rw [Bool.eq_iff_iff, hasBase_iff, baseNames, h.bases]
  simp [List.mem_eraseDups, name_accessParent, hname]

/-- The constant of a role is there exactly if the role was asked for. -/
theorem RequestedBy.declares (h : RequestedBy rs c) (role : String) :
    c.stateVariables.contains (roleDeclaration role)
      = decide (role ∈ rolesOf rs) := by
  rw [Bool.eq_iff_iff, List.contains_iff_mem, h.stateVariables]
  simp [List.mem_eraseDups]

/-- One request more. -/
theorem RequestedBy.next (h : RequestedBy rs c) (r : Request) :
    RequestedBy (rs ++ [r]) (r.next c) where
  bases := by
    have hmem : accessParent r.access ∈ rs.map (fun r => accessParent r.access)
        ↔ rs.any (·.access == r.access) = true := by
      have hinj : ∀ a b : Access, accessParent a = accessParent b ↔ a = b := by
        intro a b
        cases a <;> cases b <;> decide
      simp [hinj]
    rw [bases_next, h.hasBase, h.bases, List.map_append, List.map_singleton,
      eraseDups_concat]
    by_cases hasked : rs.any (·.access == r.access) = true
    · rw [if_pos (hmem.2 hasked), hasked]
      exact List.append_nil _
    · rw [if_neg (mt hmem.1 hasked), eq_false_of_ne_true hasked]
      rfl
  stateVariables := by
    rw [stateVariables_next, h.declares, h.stateVariables, rolesOf_concat,
      Request.roles]
    cases r.access with
    | ownable =>
        exact (List.append_nil _).trans (by rw [ownable_beq_roles]; simp)
    | roles =>
        rw [beq_self_eq_true, onlyIf_true, onlyIf_true, eraseDups_concat]
        by_cases hrole : r.role ∈ rolesOf rs
        · simp [hrole]
        · simp [hrole]
  constructorCode := by
    rw [constructorCode_next, h.declares, h.constructorCode, rolesOf_concat,
      Request.roles, List.any_append, List.any_cons, List.any_nil,
      Bool.or_false, show "AccessControl" = accessBase .roles from rfl,
      h.hasBase]
    cases r.access with
    | ownable =>
        rw [ownable_beq_roles]
        simp
    | roles =>
        rw [beq_self_eq_true, onlyIf_true, onlyIf_true, Bool.or_true,
          onlyIf_true, eraseDups_concat]
        cases hany : rs.any (·.access == .roles) with
        | true =>
            -- the administrator was granted before; what is left
            -- is the role's own grant
            by_cases hrole : r.role ∈ rolesOf rs
            · simp [hrole]
            · simp [hrole]
        | false => simp [rolesOf_eq_nil hany]
  modifiersOf := by
    intro sig
    rw [modifiersOf_next, h.modifiersOf, List.flatMap_append,
      List.flatMap_singleton]

/-- Whatever was asked for, the contract is what the requests
make of a fresh one. -/
theorem requestedBy_foldl (name : String) (rs : List Request) :
    RequestedBy rs (rs.foldl (fun c r => r.next c) { name }) := by
  induction rs using List.reverseRecOn with
  | nil => exact ⟨rfl, rfl, rfl, fun _ => rfl⟩
  | append_singleton rs r ih =>
      rw [List.foldl_append, List.foldl_cons, List.foldl_nil]
      exact ih.next r

/-- Requests lead from a fresh contract to one that steps can reach. -/
theorem reachable_foldl (name : String) (rs : List Request) :
    (rs.foldl (fun c r => r.next c) ({ name } : Contract)).Reachable := by
  induction rs using List.reverseRecOn with
  | nil => exact ⟨name, [], rfl⟩
  | append_singleton rs r ih =>
      rw [List.foldl_append, List.foldl_cons, List.foldl_nil]
      exact r.reachable_next ih

-- ============================================================ what is where

/-- Roles are told apart by their grants. -/
theorem roleGrant_injective : Function.Injective roleGrant := by
  intro role role' h
  refine String.toList_injective ?_
  simpa [roleGrant, roleId] using congrArg String.toList h

/-- The administrator is granted like a role of that name. -/
theorem adminGrant_eq : adminGrant = roleGrant "DEFAULT_ADMIN" := by decide

/-- No line of the constructor is there twice, unless the administrator is
asked for as a role. -/
theorem RequestedBy.nodup_constructorCode (h : RequestedBy rs c) :
    c.constructorCode.Nodup ↔ "DEFAULT_ADMIN" ∉ rolesOf rs := by
  rw [h.constructorCode]
  cases hany : rs.any (·.access == .roles) with
  | false => simp [rolesOf_eq_nil hany]
  | true =>
      have hroles : ((rolesOf rs).eraseDups.map roleGrant).Nodup :=
        (nodup_eraseDups _).map roleGrant_injective
      rw [onlyIf_true, List.nodup_cons, and_iff_left hroles, adminGrant_eq,
        List.mem_map_of_injective roleGrant_injective, List.mem_eraseDups]

/-- A function that was listed is in the table. -/
theorem RequestedBy.exists_method (h : RequestedBy rs c) (hr : r ∈ rs)
    {d : Declaration} (hd : d ∈ r.functions) :
    ∃ m ∈ c.methods, m.signature = d.signature := by
  cases hfind : c.method? d.signature with
  | some m => exact ⟨m, method?_eq_some hfind⟩
  | none =>
      have hmodifiers := h.modifiersOf d.signature
      rw [Contract.modifiersOf, hfind] at hmodifiers
      have hgiven := List.flatMap_eq_nil_iff.1 hmodifiers.symm r hr
      rw [Request.given, List.map_eq_nil_iff, List.filter_eq_nil_iff] at hgiven
      exact absurd (decide_eq_true rfl) (hgiven d hd)

-- ============================================================== the theorem

/-- Requests never fail, whatever was asked for before. The bases are those of
the ways of access in the order of their first requests; the variables are the
constants of the roles, and the constructor grants the administrator, if a
request knows roles, and then the roles, each once and in the order of its
first request; no line is there twice unless the administrator's own role is
asked for. A function has one modifier for each time it was listed, in the
order of the requests. -/
theorem restrict_repeatable (name : String) (rs : List Request) :
    ∃ c roles, Assembly.build name (rs.forM Request.perform) = .ok c
      ∧ FirstOccurrences (rs.map fun r => accessParent r.access) c.bases
      ∧ FirstOccurrences (rolesOf rs) roles
      ∧ c.stateVariables = roles.map roleDeclaration ∧ c.stateVariables.Nodup
      ∧ c.constructorCode
        = (if ∃ r ∈ rs, r.access = .roles
          then adminGrant :: roles.map roleGrant else [])
      ∧ (c.constructorCode.Nodup ↔ "DEFAULT_ADMIN" ∉ rolesOf rs)
      ∧ (∀ r ∈ rs, ∀ d ∈ r.functions, ∃ m ∈ c.methods,
        m.signature = d.signature)
      ∧ ∀ m ∈ c.methods,
        m.modifiers = rs.flatMap (Request.given m.signature) := by
  have h := requestedBy_foldl name rs
  have hdistinct := (reachable_foldl name rs).wellFormed.signatures_distinct
  refine ⟨_, (rolesOf rs).eraseDups, ?_, firstOccurrences_iff.2 h.bases,
    firstOccurrences_iff.2 rfl, h.stateVariables, ?_, ?_,
    h.nodup_constructorCode, ?_, ?_⟩
  · unfold Assembly.build
    rw [Request.forM_perform]
  · rw [h.stateVariables]
    exact (nodup_eraseDups _).map fun role role' hrole =>
      roleDeclaration_inj.1 hrole
  · rw [h.constructorCode]
    by_cases hroles : ∃ r ∈ rs, r.access = .roles
    · rw [if_pos hroles]
      have hany : rs.any (·.access == .roles) = true := by simpa using hroles
      rw [hany, onlyIf_true]
    · rw [if_neg hroles]
      have hany : rs.any (·.access == .roles) = false := by simpa using hroles
      rw [hany, onlyIf_false]
  · exact fun r hr d hd => h.exists_method hr hd
  · intro m hm
    rw [← modifiersOf_of_mem hdistinct hm, h.modifiersOf]

/-- A function that is listed twice under a role, then for the owner and then
under another role. -/
def mintRequests : List Request :=
  let mint : Declaration := { name := "mint", visibility := .everywhere }
  [⟨.roles, "MINTER", [mint, mint]⟩, ⟨.ownable, "DEFAULT_ADMIN", [mint]⟩,
    ⟨.roles, "PAUSER", [mint]⟩, ⟨.roles, "MINTER", []⟩]

/-- The requests succeed, the constructor has no line twice, and the function
has the modifiers of all of them in their order. -/
theorem restrict_repeatable_mint :
    ∃ c, Assembly.build "Token" (mintRequests.forM Request.perform) = .ok c
      ∧ c.constructorCode.Nodup
      ∧ ∃ m ∈ c.methods, m.modifiers = ["onlyRole(MINTER_ROLE)",
          "onlyRole(MINTER_ROLE)", "onlyOwner", "onlyRole(PAUSER_ROLE)"] := by
  obtain ⟨c, roles, hbuild, -, -, -, -, -, hcode, hlisted, hmodifiers⟩ :=
    restrict_repeatable "Token" mintRequests
  obtain ⟨m, hm, hsig⟩ :=
    hlisted _ (List.mem_cons_self ..) _ (List.mem_cons_self ..)
  refine ⟨c, hbuild, hcode.2 (by decide), m, hm, ?_⟩
  rw [hmodifiers m hm, hsig]
  decide

end TokenForge.Token
