/-
The history of the main contract of a record, in closed form. What a feature
does is a list of steps. Only a restriction looks at the contract first: it
brings the base it works through unless an earlier restriction did, and
declares its role unless that was done. No role is asked for twice in one
record, so all that matters is which restriction is the first, and that can be
read off the options.

`Performs` ties the two together: an assembly that succeeds after a history
does what the given steps do. Its rules follow the ways to put an assembly
together, and the history of a feature is put together in the same way. What an
assembly attempts from a contract with a history, it performs there
(`Assembly.Performs.of_attempts`), so the shared features come with their
steps. The main statement is `OptionRecord.contracts_eq_replay`: the main
contract is what the history of its record makes of a fresh contract.
-/
import TokenForge.Proofs.Token.Attempt
import TokenForge.Proofs.Token.Success

namespace TokenForge

-- ======================================================= spoken declarations

@[simp]
theorem spoken_nil : spoken [] = [] := rfl

@[simp]
theorem spoken_cons (s : Step) (h : List Step) :
    spoken (s :: h) = s.declaration?.toList ++ spoken h := by
  unfold spoken
  cases hs : s.declaration? <;> simp [hs]

@[simp]
theorem spoken_append (h h' : List Step) :
    spoken (h ++ h') = spoken h ++ spoken h' :=
  List.filterMap_append

/-- An option that is not set speaks of no function. -/
@[simp]
theorem spoken_onlyIf (option : Bool) (h : List Step) :
    spoken (onlyIf option h) = onlyIf option (spoken h) := by
  cases option <;> rfl

-- ==================================================== what assemblies perform

namespace Assembly

/-- If the assembly succeeds after a history of a fresh contract, it does what
the steps do, none of which is refused. -/
def Performs (name : String) (before : List Step) (a : Assembly Unit)
    (steps : List Step) : Prop :=
  ∀ c, a (Contract.replay before { name }) = .ok () c →
    attempt steps (Contract.replay before { name }) = .ok () c

section Performs

variable {name : String} {before h h' : List Step} {a b : Assembly Unit}

/-- From a contract with a history, an assembly performs the
steps that it attempts. -/
theorem Performs.of_attempts
    (ha : Attempts (Contract.replay before { name }) a h) :
    Performs name before a h := by
  intro c hc
  rw [ha] at hc
  exact hc

/-- A step performs itself. -/
theorem Performs.step (s : Step) : Performs name before s.perform [s] :=
  .of_attempts (Attempts.step s)

theorem Performs.skip : Performs name before (pure ()) [] :=
  .of_attempts Attempts.skip

/-- What the second assembly performs may depend on what the first one did. -/
theorem Performs.bind (ha : Performs name before a h)
    (hb : Performs name (before ++ h) b h') :
    Performs name before (a >>= fun _ => b) (h ++ h') := by
  intro c hc
  obtain ⟨d, hd, hc⟩ := bind_eq_ok hc
  have hdone := ha d hd
  rw [eq_replay_of_attempt hdone, ← Contract.replay_append] at hc
  rw [attempt_append (admits_of_attempt hdone), ← Contract.replay_append]
  exact hb c hc

/-- A function that the catalog has is found, whatever happened before. -/
theorem Performs.lookUp {catalog : Catalog} {function : String}
    {d : Declaration} {f : Declaration → Assembly Unit}
    (hget : catalog.get function = .ok d) (hf : Performs name before (f d) h) :
    Performs name before (Token.lookUp catalog function >>= f) h := by
  rw [Token.lookUp_of_get hget, pure_bind]
  exact hf

/-- A part that depends on an option is performed if the option is set. -/
theorem Performs.whenSet (option : Bool) (ha : Performs name before a h) :
    Performs name before (Token.whenSet option a) (onlyIf option h) := by
  cases option with
  | true => exact ha
  | false => exact Performs.skip

end Performs

end Assembly

namespace Token

open Assembly Contract

-- ========================================================== restrictions

/-- What a restriction does for its role. -/
def roleIntroduction (access : Access) (role : String) : List Step :=
  match access with
  | .ownable => []
  | .roles =>
      [.ancestor "AccessControl" supportsInterface,
        .declare (roleDeclaration role), .constructorLine (roleGrant role)]

/-- The steps of a restriction. -/
def restricting (first : Bool) (access : Access) (role : String)
    (fs : List Declaration) : List Step :=
  onlyIf first (accessIntroduction access) ++ roleIntroduction access role
    ++ fs.map (.modifier (accessModifier access role))

-- ============================================= what restrictions leave

section Views

variable (first : Bool) (access : Access) (role : String)
  (fs : List Declaration)

/-- Each of the two kinds of access works through a base of its own. -/
theorem eq_accessBase {name : String} :
    name = accessBase access
      ↔ name = "Ownable" ∧ access = .ownable
        ∨ name = "AccessControl" ∧ access = .roles := by
  cases access <;> simp [accessBase]

/-- Only the first restriction brings the base. -/
@[simp]
theorem inherited_restricting :
    (restricting first access role fs).flatMap Step.inherited
      = onlyIf first [accessBase access] := by
  cases first <;> cases access <;>
    simp [restricting, accessIntroduction, roleIntroduction, List.flatMap_map,
      accessBase]

/-- A restriction to a role declares the role, and nothing else. -/
@[simp]
theorem declared_restricting :
    (restricting first access role fs).flatMap Step.declared
      = onlyIf (access == .roles) [roleDeclaration role] := by
  cases first <;> cases access <;>
    simp [restricting, accessIntroduction, roleIntroduction, onlyIf,
      List.flatMap_map]

/-- A restriction attaches no library. -/
@[simp]
theorem attached_restricting :
    (restricting first access role fs).flatMap Step.attached = [] := by
  cases first <;> cases access <;>
    simp [restricting, accessIntroduction, roleIntroduction]

/-- A restriction does not make a contract upgradeable. -/
@[simp]
theorem marks_restricting :
    (restricting first access role fs).any Step.marks = false := by
  cases first <;> cases access <;>
    simp [restricting, accessIntroduction, roleIntroduction]

/-- A restriction to a role grants it, after the grant of the administrator
if it is the first. -/
@[simp]
theorem constructed_restricting :
    (restricting first access role fs).flatMap Step.constructed
      = onlyIf (access == .roles)
        (onlyIf first [adminGrant] ++ [roleGrant role]) := by
  cases first <;> cases access <;>
    simp [restricting, accessIntroduction, roleIntroduction, onlyIf,
      List.flatMap_map]

/-- A restriction speaks of its functions, and with roles first of
`supportsInterface`. -/
@[simp]
theorem spoken_restricting :
    spoken (restricting first access role fs)
      = onlyIf (access == .roles) [supportsInterface] ++ fs := by
  have hfs : ∀ text, spoken (fs.map (.modifier text)) = fs := by
    intro text
    unfold spoken
    simp [List.filterMap_map, Function.comp_def, Step.declaration?]
  cases first <;> cases access <;>
    simp [restricting, accessIntroduction, roleIntroduction, Step.declaration?,
      hfs, onlyIf]

end Views

section Restrictions

variable {name : String} {before h : List Step}

/-- The steps of a restriction, if it is known whether it is the first and if
its role was not asked for before. -/
theorem restrictingFrom_replay (first : Bool) (access : Access) (role : String)
    (fs : List Declaration)
    (hfirst : accessBase access ∈ before.flatMap Step.inherited
      ↔ first = false)
    (hrole : roleDeclaration role ∉ before.flatMap Step.declared) :
    restrictingFrom (replay before { name }) access role fs
      = restricting first access role fs := by
  have hbase : (replay before { name }).hasBase (accessBase access)
      = !first := by
    rw [Bool.eq_iff_iff, hasBase_iff, mem_baseNames_replay, hfirst,
      Bool.not_eq_true']
  have hnew : (replay before { name }).stateVariables.contains
      (roleDeclaration role) = false := by
    rw [stateVariables_replay]
    simpa using hrole
  unfold restrictingFrom roleIntroductionFrom restricting roleIntroduction
  rw [hbase, hnew, Bool.not_not, List.append_assoc]
  cases access <;> rfl

/-- What a restriction performs: whether it is the first is whether its base
has been brought, and its role must be a new one. -/
theorem performs_restrict (first : Bool) (access : Access) (role : String)
    (fs : List Declaration)
    (hfirst : accessBase access ∈ before.flatMap Step.inherited
      ↔ first = false)
    (hrole : roleDeclaration role ∉ before.flatMap Step.declared) :
    Performs name before (restrict access role fs)
      (restricting first access role fs) := by
  rw [← restrictingFrom_replay first access role fs hfirst hrole]
  exact .of_attempts (attempts_restrict ..)

end Restrictions

-- ============================================================== features

/-- The steps that make functions depend on a pause. -/
@[simp]
def pausing (first : Bool) (access : Access) (fs : List Declaration) :
    List Step :=
  inheriting "Pausable" "security/Pausable.sol" []
    :: fs.map (.modifier "whenNotPaused")
    ++ restricting first access "PAUSER" [pause, unpause]
    ++ [.line "_pause();" pause, .line "_unpause();" unpause]

/-- The steps that add the check of upgrades. -/
@[simp]
def upgradeHistory (first : Bool) (proxy? : Option Proxy) (access : Access) :
    List Step :=
  onlyIf (proxy? == some .uups)
    (restricting first access "UPGRADER" [authorizeUpgrade]
      ++ [inheriting "UUPSUpgradeable" "proxy/utils/UUPSUpgradeable.sol" [],
        .ancestor "UUPSUpgradeable" authorizeUpgrade,
        .body [] authorizeUpgrade])

section Features

variable {name : String} {before : List Step}

/-- Pausing brings its base, guards the functions, and restricts the two
that pause and unpause. -/
theorem performs_pausable (first : Bool) (access : Access)
    (fs : List Declaration)
    (hfirst : accessBase access ∈ before.flatMap Step.inherited
      ↔ first = false)
    (hrole : roleDeclaration "PAUSER" ∉ before.flatMap Step.declared) :
    Performs name before (addPausable access fs)
      (pausing first access fs) := by
  have hsteps : pauseStart (replay before { name }) access fs
      ++ [.line "_pause();" pause, .line "_unpause();" unpause]
        = pausing first access fs := by
    unfold pauseStart
    rw [restrictingFrom_replay first access "PAUSER" _ hfirst hrole]
    rfl
  rw [← hsteps]
  exact .of_attempts (attempts_pausable ..)

/-- Setting a proxy makes the contract upgradeable if there is one. -/
theorem performs_setProxy (proxy? : Option Proxy) :
    Performs name before (setProxy proxy?) (proxyHistory proxy?) :=
  .of_attempts (attempts_setProxy ..)

/-- The check of upgrades is a restriction, and the base that asks for it comes
after the restriction. -/
theorem performs_upgradeCheck (first : Bool) (proxy? : Option Proxy)
    (access : Access)
    (hfirst : accessBase access ∈ before.flatMap Step.inherited
      ↔ first = false)
    (hrole : roleDeclaration "UPGRADER" ∉ before.flatMap Step.declared) :
    Performs name before (addUpgradeCheck proxy? access)
      (upgradeHistory first proxy? access) := by
  match proxy? with
  | none => exact Performs.skip
  | some .transparent => exact Performs.skip
  | some .uups =>
      have hsteps : upgradeStart (replay before { name }) access
          ++ [.body [] authorizeUpgrade]
          = upgradeHistory first (some .uups) access := by
        unfold upgradeStart
        rw [restrictingFrom_replay first access "UPGRADER" _ hfirst hrole,
          List.append_assoc]
        rfl
      rw [← hsteps]
      exact .of_attempts (attempts_upgradeCheck ..)

end Features

-- ===================================================== non-fungible tokens

namespace Erc721

@[simp]
def baseHistory (name symbol : String) : List Step :=
  [inheriting "ERC721" "token/ERC721/ERC721.sol" [.text name, .text symbol],
    .ancestor "ERC721" beforeTransfer, .ancestor "ERC721" burn,
      .ancestor "ERC721" tokenUri,
    .ancestor "ERC721" supportsInterface]

@[simp]
def baseUriHistory (uri? : Option String) : List Step :=
  onlyIf (uri?.any fun uri => !uri.isEmpty)
    [.ancestor "ERC721" baseUri,
      .body ["return " ++ Solidity.Literal.ofString (uri?.getD "")
        ++ ";"] baseUri]

@[simp]
def enumerableHistory : List Step :=
  [inheriting "ERC721Enumerable" "token/ERC721/extensions/ERC721Enumerable.sol"
    [],
    .ancestor "ERC721Enumerable" beforeTransfer,
    .ancestor "ERC721Enumerable" supportsInterface]

@[simp]
def uriStorageHistory : List Step :=
  [inheriting "ERC721URIStorage" "token/ERC721/extensions/ERC721URIStorage.sol"
    [],
    .ancestor "ERC721URIStorage" burn, .ancestor "ERC721URIStorage" tokenUri]

@[simp]
def burnableHistory : List Step :=
  [inheriting "ERC721Burnable" "token/ERC721/extensions/ERC721Burnable.sol" []]

/-- The function that mints. -/
def mintFunction (incremental : Bool) : Declaration :=
  if incremental then safeMintNext else safeMint

@[simp]
def mintHistory (first : Bool) (access : Access) (incremental : Bool) :
    List Step :=
  restricting first access "MINTER" [mintFunction incremental]
    ++ onlyIf incremental
      [.attachment ⟨openzeppelin "Counters" "utils/Counters.sol",
        "Counters.Counter"⟩,
        .declare "Counters.Counter private _tokenIdCounter;",
        .line "_safeMint(to, _tokenIdCounter.current());" safeMintNext,
        .line "_tokenIdCounter.increment();" safeMintNext]
    ++ onlyIf (!incremental) [.line "_safeMint(to, tokenId);" safeMint]

@[simp]
def openSeaHistory : List Step :=
  [.constructorArg ⟨"_proxyRegistryAddress", "address"⟩,
    .constructorLine "proxyRegistryAddress = _proxyRegistryAddress;",
    .declare "address proxyRegistryAddress;",
    .ancestor "ERC721" isApprovedForAll]
    ++ proxyApproval.map fun line => .line line isApprovedForAll

/-- The history of a non-fungible token. -/
def history (o : Erc721Options) : List Step :=
  [.license o.common.license] ++ proxyHistory o.common.proxy?
    ++ baseHistory o.name o.symbol
    ++ baseUriHistory o.baseUri?
    ++ onlyIf o.enumerable enumerableHistory
    ++ onlyIf o.uriStorage uriStorageHistory
    ++ onlyIf o.pausable (pausing true o.common.access [beforeTransfer])
    ++ onlyIf o.burnable burnableHistory
    ++ onlyIf o.mintable
      (mintHistory (!o.pausable) o.common.access o.incremental)
    ++ onlyIf o.openSea openSeaHistory
    ++ upgradeHistory (!(o.pausable || o.mintable)) o.common.proxy?
      o.common.access

section Features

variable {name : String} {before : List Step}

/-- The token inherits its base with the name and the symbol. -/
theorem performs_baseContract (tokenName symbol : String) :
    Performs name before (addBaseContract tokenName symbol)
      (baseHistory tokenName symbol) := by
  have hancestor : ∀ (h : List Step) {catalog : Catalog} {function : String}
      (d : Declaration), catalog.get function = .ok d →
      Performs name h (lookUp catalog function
        >>= Assembly.addAncestor "ERC721")
        [.ancestor "ERC721" d] :=
    fun h _ _ d hd => Performs.lookUp hd (Performs.step (.ancestor "ERC721" d))
  have hdeclared : ∀ h, Performs name h
      (["_beforeTokenTransfer", "_burn", "tokenURI"].forM fun function => do
        Assembly.addAncestor "ERC721" (← lookUp catalog function))
      ([.ancestor "ERC721" beforeTransfer] ++ ([.ancestor "ERC721" burn]
        ++ ([.ancestor "ERC721" tokenUri] ++ []))) := by
    intro h
    exact (hancestor _ beforeTransfer rfl).bind ((hancestor _ burn rfl).bind
      ((hancestor _ tokenUri rfl).bind Performs.skip))
  exact (Performs.step (inheriting "ERC721" "token/ERC721/ERC721.sol"
    [.text tokenName, .text symbol])).bind
      ((hdeclared _).bind (hancestor _ supportsInterface rfl))

/-- The function of the base URI is written only if there is one
and it is not empty. -/
theorem performs_baseUri? (uri? : Option String) :
    Performs name before (addBaseUri? uri?) (baseUriHistory uri?) := by
  cases uri? with
  | none => exact Performs.skip
  | some uri =>
      exact Performs.whenSet (!uri.isEmpty) (Performs.lookUp rfl
        ((Performs.step (.ancestor "ERC721" baseUri)).bind
          (Performs.step (.body _ baseUri))))

/-- The extension for enumeration is inherited and registered with the two
functions it overrides. -/
theorem performs_enumerable :
    Performs name before addEnumerable enumerableHistory :=
  (Performs.step (inheriting "ERC721Enumerable" _ [])).bind
    (Performs.lookUp rfl
      ((Performs.step (.ancestor "ERC721Enumerable" beforeTransfer)).bind
      (Performs.lookUp rfl
        (Performs.step (.ancestor "ERC721Enumerable" supportsInterface)))))

/-- The extension for stored URIs is inherited and registered with the two
functions it overrides. -/
theorem performs_uriStorage :
    Performs name before addUriStorage uriStorageHistory :=
  (Performs.step (inheriting "ERC721URIStorage" _ [])).bind
    (Performs.lookUp rfl
      ((Performs.step (.ancestor "ERC721URIStorage" burn)).bind
      (Performs.lookUp rfl
        (Performs.step (.ancestor "ERC721URIStorage" tokenUri)))))

/-- Minting is restricted to its role and then written, with a counter if the
identifiers are counted. -/
theorem performs_mint (first : Bool) (access : Access) (incremental : Bool)
    (hfirst : accessBase access ∈ before.flatMap Step.inherited
      ↔ first = false)
    (hrole : roleDeclaration "MINTER" ∉ before.flatMap Step.declared) :
    Performs name before
      (if incremental = true then addCountedMint access else addMint access)
      (mintHistory first access incremental) := by
  have hrestrict : Performs name before
      (restrict access "MINTER" [mintFunction incremental])
      (restricting first access "MINTER" [mintFunction incremental]) :=
    performs_restrict first access "MINTER" _ hfirst hrole
  rw [mintHistory, List.append_assoc]
  cases incremental with
  | true =>
      exact Performs.lookUp rfl
        (hrestrict.bind ((Performs.step (.attachment _)).bind
        ((Performs.step
          (.declare "Counters.Counter private _tokenIdCounter;")).bind
          ((Performs.step
            (.line "_safeMint(to, _tokenIdCounter.current());" _)).bind
            (Performs.step (.line "_tokenIdCounter.increment();" _))))))
  | false =>
      exact Performs.lookUp rfl
        (hrestrict.bind
          (Performs.step (.line "_safeMint(to, tokenId);" safeMint)))

/-- The registry of proxies is a variable that the constructor sets, and a
function of its own looks into it. -/
theorem performs_openSea : Performs name before addOpenSea openSeaHistory :=
  (Performs.step (.constructorArg ⟨"_proxyRegistryAddress", "address"⟩)).bind
    ((Performs.step
      (.constructorLine "proxyRegistryAddress = _proxyRegistryAddress;")).bind
      ((Performs.step (.declare "address proxyRegistryAddress;")).bind
        (Performs.lookUp rfl
          ((Performs.step (.ancestor "ERC721" isApprovedForAll)).bind
          (.of_attempts
            (Attempts.forM (s := fun line => .line line isApprovedForAll)
            (fun _ => rfl) proxyApproval))))))

end Features

/-- The assembly of a record performs the history of its options. -/
theorem performs_assemble (name : String) (o : Erc721Options) :
    Performs name [] (assemble o) (history o) := by
  unfold history
  simp only [List.append_assoc]
  refine Performs.bind (Performs.step (.license _)) ?_
  refine Performs.bind (performs_setProxy _) ?_
  refine Performs.bind (performs_baseContract _ _) ?_
  refine Performs.bind (performs_baseUri? _) ?_
  refine Performs.bind (Performs.whenSet _ performs_enumerable) ?_
  refine Performs.bind (Performs.whenSet _ performs_uriStorage) ?_
  refine Performs.bind (Performs.whenSet _ (Performs.lookUp rfl
    (performs_pausable true _ [beforeTransfer] ?_ ?_))) ?_
  · cases o.common.access <;> simp [accessBase]
  · simp
  refine Performs.bind
    (Performs.whenSet _ (Performs.step (inheriting "ERC721Burnable" _ []))) ?_
  refine Performs.bind
    (Performs.whenSet _ (performs_mint (!o.pausable) _ _ ?_ ?_)) ?_
  · cases o.common.access <;> simp [accessBase]
  · simp
  refine Performs.bind (Performs.whenSet _ performs_openSea) ?_
  refine performs_upgradeCheck _ _ _ ?_ ?_
  · cases o.pausable <;> cases o.common.access <;> simp [accessBase]
  · have hcounter : roleDeclaration "UPGRADER"
        ≠ "Counters.Counter private _tokenIdCounter;" := by
      decide
    have haddress : roleDeclaration "UPGRADER"
        ≠ "address proxyRegistryAddress;" := by decide
    simp [hcounter, haddress]

end Erc721

-- ============================================================ multi tokens

namespace Erc1155

@[simp]
def baseHistory (uri : String) : List Step :=
  [inheriting "ERC1155" "token/ERC1155/ERC1155.sol" [.text uri],
    .ancestor "ERC1155" beforeTransfer, .ancestor "ERC1155" supportsInterface]

@[simp]
def setUriHistory (access : Access) : List Step :=
  restricting true access "URI_SETTER" [setUri]
    ++ [.line "_setURI(newuri);" setUri]

@[simp]
def burnableHistory : List Step :=
  [inheriting "ERC1155Burnable" "token/ERC1155/extensions/ERC1155Burnable.sol"
    []]

@[simp]
def mintHistory (first : Bool) (access : Access) : List Step :=
  restricting first access "MINTER" [mint, mintBatch]
    ++ [.line "_mint(account, id, amount, data);" mint,
      .line "_mintBatch(to, ids, amounts, data);" mintBatch]

@[simp]
def supplyHistory : List Step :=
  [inheriting "ERC1155Supply" "token/ERC1155/extensions/ERC1155Supply.sol" [],
    .ancestor "ERC1155Supply" beforeTransfer]

/-- The history of a multi token. -/
def history (o : Erc1155Options) : List Step :=
  [.license o.common.license] ++ proxyHistory o.common.proxy?
    ++ baseHistory o.uri
    ++ onlyIf o.updatableUri (setUriHistory o.common.access)
    ++ onlyIf o.pausable
      (pausing (!o.updatableUri) o.common.access [beforeTransfer])
    ++ onlyIf o.burnable burnableHistory
    ++ onlyIf o.mintable
      (mintHistory (!(o.updatableUri || o.pausable)) o.common.access)
    ++ onlyIf o.supply supplyHistory
    ++ upgradeHistory (!(o.updatableUri || o.pausable || o.mintable))
      o.common.proxy?
      o.common.access

section Features

variable {name : String} {before : List Step}

/-- The token inherits its base with the URI. -/
theorem performs_baseContract (uri : String) :
    Performs name before (addBaseContract uri) (baseHistory uri) :=
  (Performs.step
    (inheriting "ERC1155" "token/ERC1155/ERC1155.sol" [.text uri])).bind
    (Performs.lookUp rfl
      ((Performs.step (.ancestor "ERC1155" beforeTransfer)).bind
      (Performs.lookUp rfl
        (Performs.step (.ancestor "ERC1155" supportsInterface)))))

/-- Setting the URI comes first, so its restriction is the one
that brings the base. -/
theorem performs_setUri (access : Access)
    (hfirst : accessBase access ∈ before.flatMap Step.inherited ↔ true = false)
    (hrole : roleDeclaration "URI_SETTER" ∉ before.flatMap Step.declared) :
    Performs name before (addSetUri access) (setUriHistory access) :=
  Performs.lookUp rfl
    ((performs_restrict true access "URI_SETTER" [setUri] hfirst hrole).bind
    (Performs.step (.line "_setURI(newuri);" setUri)))

/-- Both ways to mint are restricted to one role, and written after that. -/
theorem performs_mint (first : Bool) (access : Access)
    (hfirst : accessBase access ∈ before.flatMap Step.inherited
      ↔ first = false)
    (hrole : roleDeclaration "MINTER" ∉ before.flatMap Step.declared) :
    Performs name before (addMint access) (mintHistory first access) :=
  Performs.lookUp rfl (Performs.lookUp rfl
    ((performs_restrict first access "MINTER" [mint,
      mintBatch] hfirst hrole).bind
      ((Performs.step (.line "_mint(account, id, amount, data);" mint)).bind
        (Performs.step
          (.line "_mintBatch(to, ids, amounts, data);" mintBatch)))))

/-- The extension that counts the supply is inherited and
registered with the hook. -/
theorem performs_supply : Performs name before addSupply supplyHistory :=
  (Performs.step (inheriting "ERC1155Supply" _ [])).bind
    (Performs.lookUp rfl
      (Performs.step (.ancestor "ERC1155Supply" beforeTransfer)))

end Features

/-- The assembly of a record performs the history of its options. -/
theorem performs_assemble (name : String) (o : Erc1155Options) :
    Performs name [] (assemble o) (history o) := by
  unfold history
  simp only [List.append_assoc]
  refine Performs.bind (Performs.step (.license _)) ?_
  refine Performs.bind (performs_setProxy _) ?_
  refine Performs.bind (performs_baseContract _) ?_
  refine Performs.bind (Performs.whenSet _ (performs_setUri _ ?_ ?_)) ?_
  · cases o.common.access <;> simp [accessBase]
  · simp
  refine Performs.bind (Performs.whenSet _ (Performs.lookUp rfl
    (performs_pausable _ _ [beforeTransfer] ?_ ?_))) ?_
  · cases o.common.access <;> simp [accessBase]
  · simp
  refine Performs.bind
    (Performs.whenSet _ (Performs.step (inheriting "ERC1155Burnable" _ []))) ?_
  refine Performs.bind (Performs.whenSet _ (performs_mint _ _ ?_ ?_)) ?_
  · cases o.updatableUri <;> cases o.common.access <;> simp [accessBase]
  · simp
  refine Performs.bind (Performs.whenSet _ performs_supply) ?_
  refine performs_upgradeCheck _ _ _ ?_ ?_
  · cases o.updatableUri <;> cases o.pausable <;> cases o.common.access <;>
      simp [accessBase]
  · simp

end Erc1155

end Token

-- ============================================================= all records

open Contract

/-- The history of a record's main contract. -/
def OptionRecord.history : OptionRecord → List Step
  | .erc721 o => Token.Erc721.history o
  | .erc1155 o => Token.Erc1155.history o

namespace OptionRecord

/-- What is done for a record are the steps of its history. -/
theorem performs_assemble (r : OptionRecord) :
    Assembly.Performs r.name [] r.assemble r.history := by
  cases r with
  | erc721 o => exact Token.Erc721.performs_assemble o.name o
  | erc1155 o => exact Token.Erc1155.performs_assemble o.name o

/-- A fresh contract admits the history of a record. -/
theorem admits_history (r : OptionRecord) :
    Admits { name := r.name } r.history := by
  obtain ⟨c, hrun, -, -⟩ := r.contracts_ok
  exact Assembly.admits_of_attempt (r.performs_assemble c hrun)

/-- An assembly that succeeds leaves what its history makes
of a fresh contract. -/
theorem eq_replay_of_assemble {r : OptionRecord} {c : Contract}
    (h : r.assemble { name := r.name } = .ok () c) :
    c = replay r.history { name := r.name } :=
  Assembly.eq_replay_of_attempt (r.performs_assemble c h)

/-- The main contract of a record is what its history makes of a fresh one. -/
theorem contracts_eq_replay (r : OptionRecord) :
    r.contracts
      = .ok (r.auxiliaries ++ [replay r.history { name := r.name }]) := by
  obtain ⟨c, hrun, hcontracts, -⟩ := r.contracts_ok
  rw [hcontracts, eq_replay_of_assemble hrun]

end OptionRecord

end TokenForge
