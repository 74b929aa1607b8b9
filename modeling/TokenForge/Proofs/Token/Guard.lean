/-
No privileged function is left open. The options of a record ask for
restrictions: a role and the functions that only its holders may call.
`Enforces` collects what a history has to do with them, and each token's
history is checked against it once. What the history leaves is first written
out option by option (`Erc721.spoken_history` and its neighbours), so the check
is about which options ask for what, and in particular about which of the
restrictions is the first, since only that one brings the base and the
administrator's grant.

From there on the token no longer matters: the functions of the contract are
either overrides or restricted, a restricted one has the modifier of its role
and no other, and what the modifier relies on is there, once.
-/
import TokenForge.Proofs.Token.History

namespace TokenForge

open Contract

-- ========================================================== restrictions

namespace Token

/-- The functions that only the holders of a role may call. -/
structure Restriction where
  role : String
  functions : List Declaration
  deriving DecidableEq, Repr

/-- The restricted functions, by signature, each with its role. -/
def assignments (rs : List Restriction) : List (Signature × String) :=
  rs.flatMap fun x => x.functions.map fun d => (d.signature, x.role)

/-- The modifiers that restrictions give to the function of a signature. -/
def restrictionsOf (access : Access) (rs : List Restriction)
    (sig : Signature) : List String :=
  ((assignments rs).filter (·.1 = sig)).map fun p => accessModifier access p.2

/-- In a list without repeated keys, the pairs with the key of a member
are that member alone. -/
theorem filter_key {α β : Type} [DecidableEq α] {l : List (α × β)} {p : α × β}
    (hl : (l.map Prod.fst).Nodup) (hp : p ∈ l) :
    l.filter (·.1 = p.1) = [p] := by
  induction l with
  | nil => exact absurd hp List.not_mem_nil
  | cons q l ih =>
      rw [List.map_cons, List.nodup_cons] at hl
      rcases List.mem_cons.1 hp with rfl | hp
      · have hrest : l.filter (·.1 = p.1) = [] := by
          rw [List.filter_eq_nil_iff]
          intro q hq hsame
          rw [decide_eq_true_iff] at hsame
          exact hl.1 (hsame ▸ List.mem_map_of_mem hq)
        rw [List.filter_cons_of_pos (by simp), hrest]
      · have hne : q.1 ≠ p.1 := by
          intro hsame
          exact hl.1 (hsame ▸ List.mem_map_of_mem hp)
        rw [List.filter_cons_of_neg (by simpa using hne), ih hl.2 hp]

@[simp]
theorem restrictionsOf_nil (access : Access) (sig : Signature) :
    restrictionsOf access [] sig = [] := rfl

/-- The modifiers of more restrictions come after those of the first. -/
@[simp]
theorem restrictionsOf_append (access : Access) (rs rs' : List Restriction)
    (sig : Signature) :
    restrictionsOf access (rs ++ rs') sig
      = restrictionsOf access rs sig ++ restrictionsOf access rs' sig := by
  simp [restrictionsOf, assignments]

/-- An option that is not set restricts no function. -/
@[simp]
theorem restrictionsOf_onlyIf (access : Access) (option : Bool)
    (rs : List Restriction) (sig : Signature) :
    restrictionsOf access (onlyIf option rs) sig
      = onlyIf option (restrictionsOf access rs sig) := by
  cases option <;> rfl

/-- A restriction gives its modifier to its functions and to no other. -/
@[simp]
theorem given_restricting (first : Bool) (access : Access) (role : String)
    (fs : List Declaration) (sig : Signature) :
    (restricting first access role fs).flatMap (Step.given sig)
      = restrictionsOf access [⟨role, fs⟩] sig := by
  have hfs : (fs.map (Step.modifier (accessModifier access role))).flatMap
      (Step.given sig)
      = restrictionsOf access [⟨role, fs⟩] sig := by
    unfold restrictionsOf assignments
    rw [List.flatMap_singleton]
    induction fs with
    | nil => rfl
    | cons d fs ih =>
        rw [List.map_cons, List.flatMap_cons, ih, List.map_cons,
          List.filter_cons]
        by_cases hd : d.signature = sig <;> simp [hd]
  unfold restricting
  rw [List.flatMap_append, List.flatMap_append, hfs]
  cases first <;> cases access <;> rfl

-- =========================================================== what backs them

/-- Whether a variable line declares the constant of some role. -/
def isRoleConstant (line : String) : Bool :=
  "bytes32 public constant ".toList.isPrefixOf line.toList

/-- Whether a variable line declares the constant of a role. -/
def declaresRole (role line : String) : Bool :=
  ("bytes32 public constant " ++ roleId role
    ++ " ").toList.isPrefixOf line.toList

/-- Whether a constructor line grants some role. -/
def isGrant (line : String) : Bool :=
  "_setupRole(".toList.isPrefixOf line.toList

/-- Whether a constructor line grants a role. -/
def grantsRole (role line : String) : Bool :=
  ("_setupRole(" ++ roleId role ++ ",").toList.isPrefixOf line.toList

/-- The role that may grant roles. -/
def adminRole : String := "DEFAULT_ADMIN"

/-- The contract has what the modifier of a role relies on: the base, and with
roles also the interface of the registry, the one constant of the role, and its
one grant, which comes after the one grant of the administrator. -/
def Backs (c : Contract) : Access → String → Prop
  | .ownable, _ => "Ownable" ∈ c.baseNames ∧ "AccessControl" ∉ c.baseNames
  | .roles, role =>
      "AccessControl" ∈ c.baseNames ∧ "Ownable" ∉ c.baseNames
        ∧ (∃ m ∈ c.methods, m.decl.name = "supportsInterface"
          ∧ "AccessControl" ∈ m.ancestors)
        ∧ c.stateVariables.filter (declaresRole role) = [roleDeclaration role]
        ∧ c.constructorCode.filter
          (fun line => grantsRole adminRole line || grantsRole role line)
          = [adminGrant, roleGrant role]

/-- The declaration of a role is told from the other variables. -/
@[simp]
theorem isRoleConstant_roleDeclaration (role : String) :
    isRoleConstant (roleDeclaration role) = true := by
  unfold isRoleConstant roleDeclaration
  simp only [List.isPrefixOf_iff_prefix, String.toList_append,
    List.append_assoc]
  exact List.prefix_append _ _

/-- The grant of a role is told from the other lines of a constructor. -/
@[simp]
theorem isGrant_roleGrant (role : String) :
    isGrant (roleGrant role) = true := by
  unfold isGrant roleGrant
  simp only [List.isPrefixOf_iff_prefix, String.toList_append,
    List.append_assoc]
  exact List.prefix_append _ _

/-- So is the grant of the administrator. -/
@[simp]
theorem isGrant_adminGrant : isGrant adminGrant = true := by
  decide

/-- The roles that features ask for. -/
def roles : List String := ["URI_SETTER", "PAUSER", "MINTER", "UPGRADER"]

theorem isRoleConstant_of_declaresRole {role line : String}
    (h : declaresRole role line = true) :
    isRoleConstant line = true := by
  unfold declaresRole at h
  unfold isRoleConstant
  rw [List.isPrefixOf_iff_prefix] at h ⊢
  simp only [String.toList_append, List.append_assoc] at h
  exact (List.prefix_append _ _).trans h

theorem isGrant_of_grantsRole {role line : String}
    (h : grantsRole role line = true) :
    isGrant line = true := by
  unfold grantsRole at h
  unfold isGrant
  rw [List.isPrefixOf_iff_prefix] at h ⊢
  simp only [String.toList_append, List.append_assoc] at h
  exact (List.prefix_append _ _).trans h

/-- The declaration of a role there is declares no other one. -/
theorem declaresRole_roleDeclaration : ∀ role ∈ roles, ∀ other ∈ roles,
    declaresRole role (roleDeclaration other) = (other == role) := by
  decide

theorem grantsRole_adminGrant : grantsRole adminRole adminGrant = true := by
  decide

/-- The grant of a role there is grants no other one, and not
the administrator's. -/
theorem grantsRole_roleGrant : ∀ role ∈ roles, ∀ other ∈ roles,
    (grantsRole adminRole (roleGrant other)
      || grantsRole role (roleGrant other))
      = (other == role) := by
  decide

/-- Restrictions of different functions, with different roles of those there
are, none of them of the hook. -/
structure Orderly (rs : List Restriction) : Prop where
  signatures_distinct : ((assignments rs).map Prod.fst).Nodup
  roles_distinct : (rs.map (·.role)).Nodup
  roles_known : ∀ x ∈ rs, x.role ∈ roles
  not_hook : ∀ x ∈ rs, ∀ d ∈ x.functions, d.name ≠ "_beforeTokenTransfer"

/-- Of the lines that restrictions add, those of one role. -/
theorem Orderly.filter_lines {rs : List Restriction} (h : Orderly rs)
    {p q : String → Bool} (hpq : ∀ line, p line = true → q line = true)
    (text : String → String) {x : Restriction}
    (hp : ∀ other ∈ roles, p (text other) = (other == x.role)) (hx : x ∈ rs)
    (first : List String) {lines : List String}
    (hlines : lines.filter q = first ++ rs.map fun y => text y.role) :
    lines.filter p = first.filter p ++ [text x.role] := by
  have hone : (rs.map (·.role)).filter (· == x.role) = [x.role] := by
    rw [List.filter_beq,
      List.count_eq_one_of_mem h.roles_distinct (List.mem_map_of_mem hx)]
    rfl
  have hsplit : lines.filter p = (lines.filter q).filter p := by
    rw [List.filter_filter]
    refine List.filter_congr fun line _ => ?_
    cases hline : p line with
    | false => rfl
    | true => rw [hpq line hline, Bool.and_true]
  have hmap : (rs.map fun y => text y.role) = (rs.map (·.role)).map text := by
    rw [List.map_map]
    rfl
  have hkey : (rs.map (·.role)).filter (p ∘ text)
      = (rs.map (·.role)).filter (· == x.role) := by
    refine List.filter_congr fun role hrole => ?_
    obtain ⟨y, hy, rfl⟩ := List.mem_map.1 hrole
    exact hp _ (h.roles_known y hy)
  rw [hsplit, hlines, List.filter_append, hmap, List.filter_map, hkey, hone]
  rfl

/-- Both kinds of access have a base of their own. -/
theorem accessBase_inj {a b : Access} :
    accessBase a = accessBase b ↔ a = b := by
  cases a <;> cases b <;> decide

/-- A history has what its restrictions need, and touches no function that is
neither an override nor restricted. -/
structure Enforces (access : Access) (pausable : Bool) (hook : Declaration)
    (overrides : List Declaration) (rs : List Restriction)
    (history : List Step) : Prop where
  orderly : Orderly rs
  mem_spoken : ∀ d, d ∈ spoken history
    ↔ d ∈ overrides ∨ ∃ x ∈ rs, d ∈ x.functions
  recorded : ∀ d ∈ overrides, ∃ a, Step.ancestor a d ∈ history
  overrides_named : ∀ d ∈ overrides, d.name ≠ "_authorizeUpgrade"
    ∧ (d.name = "_beforeTokenTransfer" → d = hook)
  hook_mem : hook ∈ overrides
  hook_name : hook.name = "_beforeTokenTransfer"
  given : ∀ sig, (history.flatMap (Step.given sig)).Perm
    (onlyIf pausable (if hook.signature = sig then ["whenNotPaused"] else [])
      ++ restrictionsOf access rs sig)
  bases : ∀ a, accessBase a ∈ history.flatMap Step.inherited
    ↔ a = access ∧ rs ≠ []
  pausable : "Pausable" ∈ history.flatMap Step.inherited ↔ pausable = true
  registered : access = .roles → rs ≠ [] →
    Step.ancestor "AccessControl" supportsInterface ∈ history
  declared : access = .roles →
    (history.flatMap Step.declared).filter isRoleConstant
    = rs.map fun x => roleDeclaration x.role
  granted : access = .roles → rs ≠ [] →
    (history.flatMap Step.constructed).filter isGrant
    = adminGrant :: rs.map fun x => roleGrant x.role

/-- The restriction that comes with the pause. -/
def pauseRestriction : Restriction := ⟨"PAUSER", [pause, unpause]⟩

/-- The restriction that comes with the check of upgrades. -/
def upgradeRestriction : Restriction := ⟨"UPGRADER", [authorizeUpgrade]⟩

/-- With roles, every restriction registers the contract's interface. -/
theorem registers_restricting (first : Bool) (role : String)
    (fs : List Declaration) :
    Step.ancestor "AccessControl" supportsInterface
      ∈ restricting first .roles role fs :=
  List.mem_append_left _ (List.mem_append_right _ (List.mem_cons_self ..))

-- ===================================================== non-fungible tokens

namespace Erc721

/-- The restrictions that the options ask for. -/
def restrictions (o : Erc721Options) : List Restriction :=
  onlyIf o.pausable [pauseRestriction]
    ++ onlyIf o.mintable [⟨"MINTER", [mintFunction o.incremental]⟩]
    ++ onlyIf (o.common.proxy? == some .uups) [upgradeRestriction]

/-- The functions of the bases that the contract overrides. -/
def overrides (o : Erc721Options) : List Declaration :=
  [beforeTransfer, burn, tokenUri, supportsInterface]
    ++ onlyIf (o.baseUri?.any fun uri => !uri.isEmpty) [baseUri]
    ++ onlyIf o.openSea [isApprovedForAll]

/-- No two features that restrict have a function or a role in common, and none
restricts the hook. -/
theorem orderly_restrictions (o : Erc721Options) :
    Orderly (restrictions o) := by
  unfold restrictions
  cases o.pausable <;> cases o.mintable <;> cases o.incremental <;>
    cases o.common.proxy? == some .uups
  all_goals exact ⟨by decide, by decide, by decide, by decide⟩

/-- Something is restricted if the contract pauses, mints, or
checks its upgrades. -/
theorem restrictions_ne_nil {o : Erc721Options} :
    restrictions o ≠ [] ↔ o.pausable = true ∨ o.mintable = true
      ∨ o.common.proxy? = some .uups := by
  unfold restrictions
  cases o.pausable <;> cases o.mintable <;> simp

/-- The restricted functions, option by option. -/
theorem exists_restricted {o : Erc721Options} {d : Declaration} :
    (∃ x ∈ restrictions o, d ∈ x.functions)
      ↔ (o.pausable = true ∧ (d = pause ∨ d = unpause))
        ∨ (o.mintable = true ∧ d = mintFunction o.incremental)
        ∨ (o.common.proxy? = some .uups ∧ d = authorizeUpgrade) := by
  unfold restrictions
  simp [or_and_right, exists_or, and_assoc, pauseRestriction,
    upgradeRestriction]

-- ------------------------------------------------- what the history leaves

/-- The functions that the history speaks of, feature by feature. -/
theorem spoken_history (o : Erc721Options) :
    spoken (history o)
      = [beforeTransfer, burn, tokenUri, supportsInterface]
        ++ onlyIf (o.baseUri?.any fun uri => !uri.isEmpty) [baseUri, baseUri]
        ++ onlyIf o.enumerable [beforeTransfer, supportsInterface]
        ++ onlyIf o.uriStorage [burn, tokenUri]
        ++ onlyIf o.pausable (beforeTransfer
          :: onlyIf (o.common.access == .roles) [supportsInterface]
          ++ [pause, unpause, pause, unpause])
        ++ onlyIf o.mintable
          (onlyIf (o.common.access == .roles) [supportsInterface]
            ++ [mintFunction o.incremental]
            ++ onlyIf o.incremental [safeMintNext, safeMintNext]
            ++ onlyIf (!o.incremental) [safeMint])
        ++ onlyIf o.openSea (List.replicate 5 isApprovedForAll)
        ++ onlyIf (o.common.proxy? == some .uups)
          (onlyIf (o.common.access == .roles) [supportsInterface]
            ++ List.replicate 3 authorizeUpgrade) := by
  simp [history, Step.declaration?, proxyApproval, List.replicate]

/-- The modifiers that the history gives, feature by feature. -/
theorem given_history (o : Erc721Options) (sig : Signature) :
    (history o).flatMap (Step.given sig)
      = onlyIf o.pausable
          ((if beforeTransfer.signature = sig then ["whenNotPaused"] else [])
            ++ restrictionsOf o.common.access [pauseRestriction] sig)
        ++ onlyIf o.mintable (restrictionsOf o.common.access
          [⟨"MINTER", [mintFunction o.incremental]⟩] sig)
        ++ onlyIf (o.common.proxy? == some .uups)
          (restrictionsOf o.common.access [upgradeRestriction] sig) := by
  simp [history, List.flatMap_map, pauseRestriction, upgradeRestriction]

/-- The bases that the history brings. -/
theorem inherited_history (o : Erc721Options) :
    (history o).flatMap Step.inherited
      = onlyIf o.common.proxy?.isSome ["Initializable"] ++ ["ERC721"]
        ++ onlyIf o.enumerable ["ERC721Enumerable"]
        ++ onlyIf o.uriStorage ["ERC721URIStorage"]
        ++ onlyIf o.pausable ["Pausable", accessBase o.common.access]
        ++ onlyIf o.burnable ["ERC721Burnable"]
        ++ onlyIf o.mintable
          (onlyIf (!o.pausable) [accessBase o.common.access])
        ++ onlyIf (o.common.proxy? == some .uups)
          (onlyIf (!(o.pausable || o.mintable)) [accessBase o.common.access]
            ++ ["UUPSUpgradeable"]) := by
  simp [history]

/-- The variables that the history declares. -/
theorem declared_history (o : Erc721Options) :
    (history o).flatMap Step.declared
      = onlyIf o.pausable
          (onlyIf (o.common.access == .roles) [roleDeclaration "PAUSER"])
        ++ onlyIf o.mintable
          (onlyIf (o.common.access == .roles) [roleDeclaration "MINTER"]
            ++ onlyIf o.incremental
              ["Counters.Counter private _tokenIdCounter;"])
        ++ onlyIf o.openSea ["address proxyRegistryAddress;"]
        ++ onlyIf (o.common.proxy? == some .uups)
          (onlyIf (o.common.access == .roles)
            [roleDeclaration "UPGRADER"]) := by
  simp [history, proxyApproval]

/-- The lines of the constructor. -/
theorem constructed_history (o : Erc721Options) :
    (history o).flatMap Step.constructed
      = onlyIf o.pausable (onlyIf (o.common.access == .roles)
          [adminGrant, roleGrant "PAUSER"])
        ++ onlyIf o.mintable (onlyIf (o.common.access == .roles)
          (onlyIf (!o.pausable) [adminGrant] ++ [roleGrant "MINTER"]))
        ++ onlyIf o.openSea ["proxyRegistryAddress = _proxyRegistryAddress;"]
        ++ onlyIf (o.common.proxy? == some .uups)
          (onlyIf (o.common.access == .roles)
            (onlyIf (!(o.pausable || o.mintable)) [adminGrant]
              ++ [roleGrant "UPGRADER"])) := by
  simp [history, proxyApproval]

/-- With roles, a restriction registers the interface. -/
theorem registered_history {o : Erc721Options}
    (haccess : o.common.access = .roles) (h : restrictions o ≠ []) :
    Step.ancestor "AccessControl" supportsInterface ∈ history o := by
  unfold history
  rw [haccess]
  simp only [List.mem_append, mem_onlyIf, pausing, mintHistory, upgradeHistory,
    registers_restricting, true_or, or_true, and_true, beq_iff_eq]
  rcases restrictions_ne_nil.1 h with hpausable | hmintable | hproxy
  · simp [hpausable]
  · simp [hmintable]
  · simp [hproxy]

-- --------------------------------------------------------------- together

/-- The history of a non-fungible token does what its restrictions need. -/
theorem enforces (o : Erc721Options) :
    Enforces o.common.access o.pausable beforeTransfer (overrides o)
      (restrictions o) (history o) where
  orderly := orderly_restrictions o
  mem_spoken := by
    intro d
    have hmint : d = mintFunction o.incremental
        ↔ o.incremental = true ∧ d = safeMintNext
          ∨ o.incremental = false ∧ d = safeMint := by
      unfold mintFunction
      cases o.incremental <;> simp
    rw [spoken_history, exists_restricted, overrides, hmint]
    simp only [List.mem_append, mem_onlyIf, List.mem_cons, List.mem_replicate,
      List.not_mem_nil, or_false, beq_iff_eq, hmint]
    -- what a base declares is overridden anyhow, so a feature adds its own
    grind
  recorded := by
    intro d hd
    refine ⟨"ERC721", ?_⟩
    revert d hd
    simp only [overrides, List.forall_mem_append, mem_onlyIf]
    simp +contextual [history]
  overrides_named := by
    simp only [overrides, List.forall_mem_append, mem_onlyIf]
    simp [beforeTransfer, burn, tokenUri, supportsInterface, baseUri,
      isApprovedForAll]
  hook_mem := by simp [overrides]
  hook_name := rfl
  given := by
    intro sig
    refine List.Perm.of_eq ?_
    rw [given_history, restrictions, restrictionsOf_append,
      restrictionsOf_append, restrictionsOf_onlyIf, restrictionsOf_onlyIf,
      restrictionsOf_onlyIf]
    cases o.pausable with
    | false => rfl
    | true => simp only [onlyIf_true, List.append_assoc]
  bases := by
    intro a
    have hother : ∀ name ∈ ["Initializable", "ERC721", "ERC721Enumerable",
        "ERC721URIStorage", "Pausable", "ERC721Burnable", "UUPSUpgradeable"],
        accessBase a ≠ name := by
      cases a <;> decide
    simp only [List.forall_mem_cons] at hother
    rw [inherited_history, restrictions_ne_nil]
    simp only [List.mem_append, mem_onlyIf, List.mem_cons, hother,
      accessBase_inj, List.not_mem_nil, or_false, false_or, and_false,
      beq_iff_eq]
    constructor
    · rintro ((⟨hpausable, ha⟩ | ⟨hmintable, -, ha⟩) | ⟨hproxy, -, ha⟩)
      · exact ⟨ha, .inl hpausable⟩
      · exact ⟨ha, .inr (.inl hmintable)⟩
      · exact ⟨ha, .inr (.inr hproxy)⟩
    · -- the first restriction that is asked for brings the base
      rintro ⟨ha, hasked⟩
      cases hpausable : o.pausable with
      | true => exact .inl (.inl ⟨rfl, ha⟩)
      | false =>
          cases hmintable : o.mintable with
          | true => exact .inl (.inr ⟨rfl, rfl, ha⟩)
          | false =>
              rw [hpausable, hmintable] at hasked
              exact .inr ⟨by simpa using hasked, rfl, ha⟩
  pausable := by
    rw [inherited_history]
    simp [eq_accessBase]
  registered := registered_history
  declared := by
    intro haccess
    have hcounter : isRoleConstant
        "Counters.Counter private _tokenIdCounter;" = false := by decide
    have haddress : isRoleConstant
        "address proxyRegistryAddress;" = false := by decide
    rw [declared_history, haccess, restrictions]
    simp [hcounter, haddress, pauseRestriction, upgradeRestriction]
  granted := by
    intro haccess hrs
    have hregistry : isGrant "proxyRegistryAddress = _proxyRegistryAddress;"
        = false := by decide
    have hlines : ((history o).flatMap Step.constructed).filter isGrant
        = onlyIf o.pausable [adminGrant, roleGrant "PAUSER"]
          ++ onlyIf o.mintable
            (onlyIf (!o.pausable) [adminGrant] ++ [roleGrant "MINTER"])
          ++ onlyIf (o.common.proxy? == some .uups)
            (onlyIf (!(o.pausable || o.mintable)) [adminGrant]
              ++ [roleGrant "UPGRADER"]) := by
      rw [constructed_history, haccess]
      simp [hregistry]
    rw [hlines]
    have hasked := restrictions_ne_nil.1 hrs
    unfold restrictions
    -- the first restriction that is asked for has the administrator's grant
    cases hpausable : o.pausable with
    | true =>
        cases o.mintable <;> cases o.common.proxy? == some Proxy.uups <;> rfl
    | false =>
        cases hmintable : o.mintable with
        | true => cases o.common.proxy? == some Proxy.uups <;> rfl
        | false =>
            rw [hpausable, hmintable] at hasked
            have hproxy : o.common.proxy? = some .uups := by simpa using hasked
            rw [hproxy]
            rfl

end Erc721

-- ============================================================ multi tokens

namespace Erc1155

/-- The restrictions that the options ask for. -/
def restrictions (o : Erc1155Options) : List Restriction :=
  onlyIf o.updatableUri [⟨"URI_SETTER", [setUri]⟩]
    ++ onlyIf o.pausable [pauseRestriction]
    ++ onlyIf o.mintable [⟨"MINTER", [mint, mintBatch]⟩]
    ++ onlyIf (o.common.proxy? == some .uups) [upgradeRestriction]

/-- The functions of the bases that the contract overrides. -/
def overrides : List Declaration := [beforeTransfer, supportsInterface]

/-- No two features that restrict have a function or a role in common, and none
restricts the hook. -/
theorem orderly_restrictions (o : Erc1155Options) :
    Orderly (restrictions o) := by
  unfold restrictions
  cases o.updatableUri <;> cases o.pausable <;> cases o.mintable <;>
    cases o.common.proxy? == some .uups
  all_goals exact ⟨by decide, by decide, by decide, by decide⟩

/-- Something is restricted if the URI can be set, or the contract pauses,
mints, or checks its upgrades. -/
theorem restrictions_ne_nil {o : Erc1155Options} :
    restrictions o ≠ [] ↔ o.updatableUri = true ∨ o.pausable = true
      ∨ o.mintable = true ∨ o.common.proxy? = some .uups := by
  unfold restrictions
  cases o.updatableUri <;> cases o.pausable <;> cases o.mintable <;> simp

/-- The restricted functions, option by option. -/
theorem exists_restricted {o : Erc1155Options} {d : Declaration} :
    (∃ x ∈ restrictions o, d ∈ x.functions)
      ↔ (o.updatableUri = true ∧ d = setUri)
        ∨ (o.pausable = true ∧ (d = pause ∨ d = unpause))
        ∨ (o.mintable = true ∧ (d = mint ∨ d = mintBatch))
        ∨ (o.common.proxy? = some .uups ∧ d = authorizeUpgrade) := by
  unfold restrictions
  simp [or_and_right, exists_or, and_assoc, pauseRestriction,
    upgradeRestriction]

-- ------------------------------------------------- what the history leaves

/-- The functions that the history speaks of, feature by feature. -/
theorem spoken_history (o : Erc1155Options) :
    spoken (history o)
      = [beforeTransfer, supportsInterface]
        ++ onlyIf o.updatableUri
          (onlyIf (o.common.access == .roles) [supportsInterface]
            ++ [setUri, setUri])
        ++ onlyIf o.pausable (beforeTransfer
          :: onlyIf (o.common.access == .roles) [supportsInterface]
          ++ [pause, unpause, pause, unpause])
        ++ onlyIf o.mintable
          (onlyIf (o.common.access == .roles) [supportsInterface]
            ++ [mint, mintBatch, mint, mintBatch])
        ++ onlyIf o.supply [beforeTransfer]
        ++ onlyIf (o.common.proxy? == some .uups)
          (onlyIf (o.common.access == .roles) [supportsInterface]
            ++ List.replicate 3 authorizeUpgrade) := by
  simp [history, Step.declaration?, List.replicate]

/-- The modifiers that the history gives, feature by feature. -/
theorem given_history (o : Erc1155Options) (sig : Signature) :
    (history o).flatMap (Step.given sig)
      = onlyIf o.updatableUri
          (restrictionsOf o.common.access [⟨"URI_SETTER", [setUri]⟩] sig)
        ++ onlyIf o.pausable
          ((if beforeTransfer.signature = sig then ["whenNotPaused"] else [])
            ++ restrictionsOf o.common.access [pauseRestriction] sig)
        ++ onlyIf o.mintable
          (restrictionsOf o.common.access [⟨"MINTER", [mint, mintBatch]⟩] sig)
        ++ onlyIf (o.common.proxy? == some .uups)
          (restrictionsOf o.common.access [upgradeRestriction] sig) := by
  simp [history, pauseRestriction, upgradeRestriction]

/-- The bases that the history brings. -/
theorem inherited_history (o : Erc1155Options) :
    (history o).flatMap Step.inherited
      = onlyIf o.common.proxy?.isSome ["Initializable"] ++ ["ERC1155"]
        ++ onlyIf o.updatableUri [accessBase o.common.access]
        ++ onlyIf o.pausable ("Pausable"
          :: onlyIf (!o.updatableUri) [accessBase o.common.access])
        ++ onlyIf o.burnable ["ERC1155Burnable"]
        ++ onlyIf o.mintable (onlyIf (!(o.updatableUri || o.pausable))
          [accessBase o.common.access])
        ++ onlyIf o.supply ["ERC1155Supply"]
        ++ onlyIf (o.common.proxy? == some .uups)
          (onlyIf (!(o.updatableUri || o.pausable || o.mintable))
            [accessBase o.common.access] ++ ["UUPSUpgradeable"]) := by
  simp [history]

/-- The variables that the history declares. -/
theorem declared_history (o : Erc1155Options) :
    (history o).flatMap Step.declared
      = onlyIf o.updatableUri
          (onlyIf (o.common.access == .roles) [roleDeclaration "URI_SETTER"])
        ++ onlyIf o.pausable
          (onlyIf (o.common.access == .roles) [roleDeclaration "PAUSER"])
        ++ onlyIf o.mintable
          (onlyIf (o.common.access == .roles) [roleDeclaration "MINTER"])
        ++ onlyIf (o.common.proxy? == some .uups)
          (onlyIf (o.common.access == .roles)
            [roleDeclaration "UPGRADER"]) := by
  simp [history]

/-- The lines of the constructor. -/
theorem constructed_history (o : Erc1155Options) :
    (history o).flatMap Step.constructed
      = onlyIf o.updatableUri (onlyIf (o.common.access == .roles)
          [adminGrant, roleGrant "URI_SETTER"])
        ++ onlyIf o.pausable (onlyIf (o.common.access == .roles)
          (onlyIf (!o.updatableUri) [adminGrant] ++ [roleGrant "PAUSER"]))
        ++ onlyIf o.mintable (onlyIf (o.common.access == .roles)
          (onlyIf (!(o.updatableUri || o.pausable)) [adminGrant]
            ++ [roleGrant "MINTER"]))
        ++ onlyIf (o.common.proxy? == some .uups)
          (onlyIf (o.common.access == .roles)
            (onlyIf (!(o.updatableUri || o.pausable || o.mintable))
              [adminGrant]
              ++ [roleGrant "UPGRADER"])) := by
  simp [history]

/-- With roles, a restriction registers the interface. -/
theorem registered_history {o : Erc1155Options}
    (haccess : o.common.access = .roles) (h : restrictions o ≠ []) :
    Step.ancestor "AccessControl" supportsInterface ∈ history o := by
  unfold history
  rw [haccess]
  simp only [List.mem_append, mem_onlyIf, setUriHistory, pausing, mintHistory,
    upgradeHistory, registers_restricting, true_or, or_true, and_true,
    beq_iff_eq]
  rcases restrictions_ne_nil.1 h with huri | hpausable | hmintable | hproxy
  · simp [huri]
  · simp [hpausable]
  · simp [hmintable]
  · simp [hproxy]

-- --------------------------------------------------------------- together

/-- The history of a multi token does what its restrictions need. -/
theorem enforces (o : Erc1155Options) :
    Enforces o.common.access o.pausable beforeTransfer overrides
      (restrictions o) (history o) where
  orderly := orderly_restrictions o
  mem_spoken := by
    intro d
    rw [spoken_history, exists_restricted, overrides]
    simp only [List.mem_append, mem_onlyIf, List.mem_cons, List.mem_replicate,
      List.not_mem_nil, or_false, beq_iff_eq]
    -- what a base declares is overridden anyhow, so a feature adds its own
    grind
  recorded := by
    intro d hd
    refine ⟨"ERC1155", ?_⟩
    revert d hd
    simp [overrides, history]
  overrides_named := by
    simp [overrides, beforeTransfer, supportsInterface]
  hook_mem := by simp [overrides]
  hook_name := rfl
  given := by
    intro sig
    rw [given_history, restrictions, restrictionsOf_append,
      restrictionsOf_append, restrictionsOf_append, restrictionsOf_onlyIf,
      restrictionsOf_onlyIf, restrictionsOf_onlyIf, restrictionsOf_onlyIf]
    cases o.pausable with
    | false => exact List.Perm.refl _
    | true =>
        -- the setter of the URI is restricted before the hook is guarded
        simp only [onlyIf_true, List.append_assoc]
        exact List.perm_append_comm_assoc ..
  bases := by
    intro a
    have hother : ∀ name ∈ ["Initializable", "ERC1155", "Pausable",
        "ERC1155Burnable", "ERC1155Supply", "UUPSUpgradeable"],
        accessBase a ≠ name := by
      cases a <;> decide
    simp only [List.forall_mem_cons] at hother
    rw [inherited_history, restrictions_ne_nil]
    simp only [List.mem_append, mem_onlyIf, List.mem_cons, hother,
      accessBase_inj, List.not_mem_nil, or_false, false_or, and_false,
      beq_iff_eq]
    constructor
    · rintro (((⟨huri, ha⟩ | ⟨hpausable, -, ha⟩) | ⟨hmintable, -, ha⟩)
        | ⟨hproxy, -, ha⟩)
      · exact ⟨ha, .inl huri⟩
      · exact ⟨ha, .inr (.inl hpausable)⟩
      · exact ⟨ha, .inr (.inr (.inl hmintable))⟩
      · exact ⟨ha, .inr (.inr (.inr hproxy))⟩
    · -- the first restriction that is asked for brings the base
      rintro ⟨ha, hasked⟩
      cases huri : o.updatableUri with
      | true => exact .inl (.inl (.inl ⟨rfl, ha⟩))
      | false =>
          cases hpausable : o.pausable with
          | true => exact .inl (.inl (.inr ⟨rfl, rfl, ha⟩))
          | false =>
              cases hmintable : o.mintable with
              | true => exact .inl (.inr ⟨rfl, rfl, ha⟩)
              | false =>
                  rw [huri, hpausable, hmintable] at hasked
                  exact .inr ⟨by simpa using hasked, rfl, ha⟩
  pausable := by
    rw [inherited_history]
    simp [eq_accessBase]
  registered := registered_history
  declared := by
    intro haccess
    rw [declared_history, haccess, restrictions]
    simp [pauseRestriction, upgradeRestriction]
  granted := by
    intro haccess hrs
    have hlines : ((history o).flatMap Step.constructed).filter isGrant
        = onlyIf o.updatableUri [adminGrant, roleGrant "URI_SETTER"]
          ++ onlyIf o.pausable
            (onlyIf (!o.updatableUri) [adminGrant] ++ [roleGrant "PAUSER"])
          ++ onlyIf o.mintable (onlyIf (!(o.updatableUri || o.pausable))
            [adminGrant] ++ [roleGrant "MINTER"])
          ++ onlyIf (o.common.proxy? == some .uups)
            (onlyIf (!(o.updatableUri || o.pausable || o.mintable))
              [adminGrant]
              ++ [roleGrant "UPGRADER"]) := by
      rw [constructed_history, haccess]
      simp
    rw [hlines]
    have hasked := restrictions_ne_nil.1 hrs
    unfold restrictions
    -- the first restriction that is asked for has the administrator's grant
    cases huri : o.updatableUri with
    | true =>
        cases o.pausable <;> cases o.mintable <;>
          cases o.common.proxy? == some Proxy.uups <;> rfl
    | false =>
        cases hpausable : o.pausable with
        | true =>
            cases o.mintable <;>
              cases o.common.proxy? == some Proxy.uups <;> rfl
        | false =>
            cases hmintable : o.mintable with
            | true => cases o.common.proxy? == some Proxy.uups <;> rfl
            | false =>
                rw [huri, hpausable, hmintable] at hasked
                have hproxy : o.common.proxy? = some .uups := by
                  simpa using hasked
                rw [hproxy]
                rfl

end Erc1155

-- ============================================================ all contracts

/-- No modifier of a restriction is the one of the pause. -/
theorem accessModifier_ne (access : Access) (role : String) :
    accessModifier access role ≠ "whenNotPaused" := by
  intro h
  have hhead := congrArg (fun s => s.toList.head?) h
  cases access <;>
    simp [accessModifier, onlyRole, String.toList_append] at hhead

section Enforces

variable {access : Access} {pausable : Bool} {hook : Declaration}
  {overrides : List Declaration} {rs : List Restriction} {steps : List Step}
  {name : String} {m : Method}

/-- An entry of the contract has a declaration that was spoken of. -/
theorem decl_spoken (hm : m ∈ (replay steps { name }).methods) :
    m.decl ∈ spoken steps :=
  List.mem_of_find?_eq_some
    ((represents_replay name steps).first_declared m hm)

/-- An ancestor that was named for a declaration is recorded. -/
theorem mem_ancestors_of_step {a : String} {d : Declaration}
    (ha : Step.ancestor a d ∈ steps) (hm : m ∈ (replay steps { name }).methods)
    (hd : m.signature = d.signature) :
    a ∈ m.ancestors := by
  rw [(mem_methods_replay hm).2.2 a, hd]
  refine List.mem_flatMap.2 ⟨_, ha, ?_⟩
  rw [Step.named, if_pos rfl]
  exact List.mem_singleton_self a

namespace Enforces

variable (h : Enforces access pausable hook overrides rs steps)
include h

/-- A restricted function has the modifier of its restriction and no other. -/
theorem modifiers_eq (hm : m ∈ (replay steps { name }).methods)
    {x : Restriction} (hx : x ∈ rs) {d : Declaration} (hd : d ∈ x.functions)
    (hsig : m.signature = d.signature) :
    m.modifiers = [accessModifier access x.role] := by
  have hother : hook.signature ≠ d.signature := by
    intro hhook
    have hname : d.name = "_beforeTokenTransfer" := by
      rw [← h.hook_name]
      exact (congrArg Signature.name hhook).symm
    exact h.orderly.not_hook x hx d hd hname
  have hassigned : (d.signature, x.role) ∈ assignments rs :=
    List.mem_flatMap.2 ⟨x, hx, List.mem_map.2 ⟨d, hd, rfl⟩⟩
  have hgiven := h.given d.signature
  rw [if_neg hother, onlyIf_nil, List.nil_append, restrictionsOf,
    filter_key h.orderly.signatures_distinct hassigned] at hgiven
  rw [(mem_methods_replay hm).2.1, hsig]
  exact List.perm_singleton.1 hgiven

/-- The base, the constant and the grants that the modifier
relies on are there. -/
theorem backs {x : Restriction} (hx : x ∈ rs) :
    Backs (replay steps { name }) access x.role := by
  have hrs : rs ≠ [] := List.ne_nil_of_mem hx
  have hbase : ∀ a, accessBase a ∈ (replay steps { name }).baseNames
      ↔ a = access := by
    intro a
    rw [mem_baseNames_replay, h.bases]
    exact and_iff_left hrs
  cases access with
  | ownable =>
      exact ⟨(hbase .ownable).2 rfl,
        fun hmem => by simpa using (hbase .roles).1 hmem⟩
  | roles =>
      have hrole := h.orderly.roles_known x hx
      refine ⟨(hbase .roles).2 rfl,
        fun hmem => by simpa using (hbase .ownable).1 hmem, ?_, ?_, ?_⟩
      · have hregistered := h.registered rfl hrs
        have hspoken : supportsInterface ∈ spoken steps :=
          List.mem_filterMap.2 ⟨_, hregistered, rfl⟩
        obtain ⟨m, hm, hsig⟩ := exists_method_replay name hspoken
        exact ⟨m, hm, congrArg Signature.name hsig,
          mem_ancestors_of_step hregistered hm hsig⟩
      · have hconstant : ∀ line, declaresRole x.role line = true →
            isRoleConstant line = true :=
          fun _ => isRoleConstant_of_declaresRole
        have hlines : (steps.flatMap Step.declared).filter isRoleConstant
            = [] ++ rs.map fun y => roleDeclaration y.role := h.declared rfl
        rw [stateVariables_replay,
          h.orderly.filter_lines hconstant roleDeclaration
          (declaresRole_roleDeclaration x.role hrole) hx [] hlines]
        rfl
      · have hgrant : ∀ line,
            (grantsRole adminRole line || grantsRole x.role line) = true →
            isGrant line = true := by
          intro line hline
          rcases Bool.or_eq_true_iff.1 hline with hline | hline
          · exact isGrant_of_grantsRole hline
          · exact isGrant_of_grantsRole hline
        have hlines : (steps.flatMap Step.constructed).filter isGrant
            = [adminGrant] ++ rs.map fun y => roleGrant y.role :=
          h.granted rfl hrs
        rw [constructorCode_replay, h.orderly.filter_lines hgrant roleGrant
          (grantsRole_roleGrant x.role hrole) hx [adminGrant] hlines]
        simp [grantsRole_adminGrant]

/-- A function without ancestors, and the check of upgrades, is restricted. -/
theorem restricted_of_exposed (hm : m ∈ (replay steps { name }).methods)
    (hexposed : m.ancestors = [] ∨ m.decl.name = "_authorizeUpgrade") :
    ∃ x ∈ rs, m.decl ∈ x.functions := by
  rcases (h.mem_spoken m.decl).1 (decl_spoken hm) with hd | hd
  · obtain ⟨a, ha⟩ := h.recorded m.decl hd
    rcases hexposed with hnil | hname
    · exact absurd hnil (List.ne_nil_of_mem (mem_ancestors_of_step ha hm rfl))
    · exact absurd hname (h.overrides_named m.decl hd).1
  · exact hd

/-- The function named after the hook is the hook. -/
theorem signature_hook_iff (hm : m ∈ (replay steps { name }).methods) :
    m.signature = hook.signature ↔ m.decl.name = "_beforeTokenTransfer" := by
  refine ⟨fun hsig => h.hook_name ▸ congrArg Signature.name hsig,
    fun hname => ?_⟩
  rcases (h.mem_spoken m.decl).1 (decl_spoken hm) with hd | ⟨x, hx, hd⟩
  · exact congrArg Declaration.signature
      ((h.overrides_named m.decl hd).2 hname)
  · exact absurd hname (h.orderly.not_hook x hx m.decl hd)

/-- What depends on the pause is the hook, in a contract that has one. -/
theorem whenNotPaused_iff (hm : m ∈ (replay steps { name }).methods) :
    "whenNotPaused" ∈ m.modifiers
      ↔ pausable = true ∧ m.decl.name = "_beforeTokenTransfer" := by
  have hno : "whenNotPaused" ∉ restrictionsOf access rs m.signature := by
    intro hmem
    obtain ⟨p, -, hp⟩ := List.mem_map.1 hmem
    exact accessModifier_ne access p.2 hp
  rw [(mem_methods_replay hm).2.1, (h.given m.signature).mem_iff,
    List.mem_append, or_iff_left hno, mem_onlyIf, ← h.signature_hook_iff hm]
  by_cases hsig : hook.signature = m.signature
  · simp [hsig]
  · rw [if_neg hsig]
    simp [Ne.symm hsig]

/-- The hook is there. -/
theorem exists_hook (name : String) : ∃ m ∈ (replay steps { name }).methods,
    m.decl.name = "_beforeTokenTransfer" := by
  obtain ⟨m, hm, hsig⟩ :=
    exists_method_replay name ((h.mem_spoken hook).2 (.inl h.hook_mem))
  exact ⟨m, hm, (h.signature_hook_iff hm).1 hsig⟩

end Enforces

end Enforces

end Token

-- ============================================================= all records

open Token

/-- Who may call privileged functions. -/
def OptionRecord.access : OptionRecord → Access
  | .erc721 o => o.common.access
  | .erc1155 o => o.common.access

/-- The restrictions that a record asks for. -/
def OptionRecord.restrictions : OptionRecord → List Restriction
  | .erc721 o => Erc721.restrictions o
  | .erc1155 o => Erc1155.restrictions o

/-- The history of every record enforces the restrictions that
its options ask for. -/
theorem OptionRecord.enforces (r : OptionRecord) : ∃ pausable hook overrides,
    Enforces r.access pausable hook overrides r.restrictions r.history := by
  cases r with
  | erc721 o => exact ⟨_, _, _, Erc721.enforces o⟩
  | erc1155 o => exact ⟨_, _, _, Erc1155.enforces o⟩

/-- Every function of a main contract that no base knows, and the check of
upgrades, has one modifier: that of the owner, or of a role which the contract
declares and grants once. Transfers depend on a pause exactly if the contract
can be paused. -/
theorem OptionRecord.privileged_guarded (r : OptionRecord) :
    ∃ c, r.contracts = .ok (r.auxiliaries ++ [c])
      ∧ (∀ m ∈ c.methods,
        m.ancestors = [] ∨ m.decl.name = "_authorizeUpgrade" →
          ∃ role, m.modifiers = [accessModifier r.access role]
            ∧ Backs c r.access role)
      ∧ ((∃ m ∈ c.methods, "whenNotPaused" ∈ m.modifiers)
        ↔ "Pausable" ∈ c.baseNames)
      ∧ (∀ m ∈ c.methods, "whenNotPaused" ∈ m.modifiers ↔
          "Pausable" ∈ c.baseNames
            ∧ m.decl.name = "_beforeTokenTransfer") := by
  obtain ⟨pausable, hook, overrides, h⟩ := r.enforces
  have hpausable : "Pausable" ∈ (replay r.history { name := r.name }).baseNames
      ↔ pausable = true := by
    rw [mem_baseNames_replay, h.pausable]
  refine ⟨_, r.contracts_eq_replay, ?_, ?_, ?_⟩
  · intro m hm hexposed
    obtain ⟨x, hx, hd⟩ := h.restricted_of_exposed hm hexposed
    exact ⟨x.role, h.modifiers_eq hm hx hd rfl, h.backs hx⟩
  · rw [hpausable]
    refine ⟨?_, fun hp => ?_⟩
    · rintro ⟨m, hm, hmem⟩
      exact ((h.whenNotPaused_iff hm).1 hmem).1
    · obtain ⟨m, hm, hname⟩ := h.exists_hook r.name
      exact ⟨m, hm, (h.whenNotPaused_iff hm).2 ⟨hp, hname⟩⟩
  · intro m hm
    rw [hpausable]
    exact h.whenNotPaused_iff hm

/-- The functions that the options restrict are there, each with the
modifier of its role. -/
theorem OptionRecord.restrictions_present (r : OptionRecord) :
    ∃ c, r.contracts = .ok (r.auxiliaries ++ [c])
      ∧ ∀ x ∈ r.restrictions, ∀ d ∈ x.functions, ∃ m ∈ c.methods,
          m.signature = d.signature
            ∧ m.modifiers = [accessModifier r.access x.role] := by
  obtain ⟨pausable, hook, overrides, h⟩ := r.enforces
  refine ⟨_, r.contracts_eq_replay, fun x hx d hd => ?_⟩
  obtain ⟨m, hm, hsig⟩ :=
    exists_method_replay r.name ((h.mem_spoken d).2 (.inr ⟨x, hx, hd⟩))
  exact ⟨m, hm, hsig, h.modifiers_eq hm hx hd hsig⟩

end TokenForge
