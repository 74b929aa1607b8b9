/-
Every option record has its contracts, and they can be printed: no feature
runs into a conflict, whatever the others did before it. What carries the
proof is an estimate of the contract (`Fits`): the names its bases are
among, the names that are surely bases, and a division of the functions
into those whose bodies are set as a whole and those whose bodies grow. Each
base is added where it is among the possible names of no earlier feature;
each ancestor is surely a base when it is named; and no function is treated
in both ways.

The estimate does not look at the strings of a record, so they cannot make a
feature fail, valid or not.
-/
import TokenForge.Proofs.Contract.Replay
import TokenForge.Proofs.Source.Print
import TokenForge.Proofs.Token.Triple
import TokenForge.Token.Generate

namespace TokenForge.Token

open Assembly Contract

-- ============================================================ the estimate

/-- The functions whose bodies are set as a whole; those of all others
grow line by line. -/
def setAsWhole : List Signature :=
  [Erc721.baseUri.signature, authorizeUpgrade.signature]

/-- A body is treated as the division says. -/
def Divided (s : Signature) : Body → Prop
  | .untouched => True
  | .grown _ => s ∉ setAsWhole
  | .replaced _ => s ∈ setAsWhole

/-- A contract fits an estimate of its bases. -/
structure Fits (names sure : List String) (c : Contract) : Prop where
  wellFormed : c.WellFormed
  /-- Every base is among the possible names. -/
  bases_le : ∀ n ∈ c.baseNames, n ∈ names
  /-- Every sure name is a base. -/
  bases_ge : ∀ n ∈ sure, n ∈ c.baseNames
  /-- Every ancestor is a base. -/
  known : ∀ m ∈ c.methods, ∀ a ∈ m.ancestors, a ∈ c.baseNames
  /-- Every body is treated as the division says. -/
  divided : ∀ m ∈ c.methods, Divided m.signature m.body

section Estimates

variable {names names' sure sure' : List String}

theorem Fits.start (name : String) : Fits [] [] { name } where
  wellFormed := wellFormed_start name
  bases_le := fun _ h => h
  bases_ge := fun _ h => h
  known := fun _ h => absurd h List.not_mem_nil
  divided := fun _ h => absurd h List.not_mem_nil

/-- An estimate may be made coarser. -/
theorem Fits.coarsen {c : Contract} (h : Fits names sure c)
    (hnames : names ⊆ names') (hsure : sure' ⊆ sure) : Fits names' sure' c :=
  { h with
    bases_le := fun n hn => hnames (h.bases_le n hn)
    bases_ge := fun n hn => h.bases_ge n (hsure hn) }

-- =============================================================== steps

/-- A step on another field than the bases and the functions. -/
theorem ensures_field {s : Step} (hs : s.edit? = none)
    (hb : ∀ b, s ≠ .base b) :
    Ensures (Fits names sure) s.perform (Fits names sure) := by
  refine Ensures.step fun c h => ⟨?_, ?_⟩
  · cases s <;> simp only [Step.edit?, reduceCtorEq] at hs
    case base b => exact absurd rfl (hb b)
    all_goals rfl
  · have hnames : (s.next c).baseNames = c.baseNames := by
      unfold baseNames
      rw [Step.bases_next hb]
    have hmethods := Step.methods_next hs c
    refine ⟨wellFormed_next h.wellFormed s, ?_, ?_, ?_, ?_⟩
    · rw [hnames]
      exact h.bases_le
    · rw [hnames]
      exact h.bases_ge
    · rw [hnames, hmethods]
      exact h.known
    · rw [hmethods]
      exact h.divided

/-- A base that is not there yet. -/
theorem ensures_newBase (b : Base) :
    Ensures (fun c => Fits names sure c ∧ b.name ∉ c.baseNames)
      (Step.base b).perform (Fits (b.name :: names) (b.name :: sure)) := by
  refine Ensures.step fun c h => ?_
  obtain ⟨h, hb⟩ := h
  have hnames : ((Step.base b).next c).baseNames
      = c.baseNames ++ [b.name] := by
    rw [Step.next_base, if_neg hb]
    unfold baseNames
    rw [List.map_append]
    rfl
  have hmethods : ((Step.base b).next c).methods = c.methods :=
    Step.methods_next rfl c
  refine ⟨by rw [Step.conflict?_base, if_neg hb],
    wellFormed_next h.wellFormed _, ?_, ?_, ?_, ?_⟩
  · rw [hnames]
    intro n hn
    rcases List.mem_append.1 hn with hn | hn
    · exact List.mem_cons_of_mem _ (h.bases_le n hn)
    · rw [List.mem_singleton.1 hn]
      exact List.mem_cons_self ..
  · rw [hnames]
    intro n hn
    rcases List.mem_cons.1 hn with rfl | hn
    · exact List.mem_append_right _ (List.mem_singleton_self _)
    · exact List.mem_append_left _ (h.bases_ge n hn)
  · rw [hnames, hmethods]
    exact fun m hm a ha => List.mem_append_left _ (h.known m hm a ha)
  · rw [hmethods]
    exact h.divided

/-- An edit that keeps the division and names sure ancestors only. -/
theorem ensures_edit {s : Step} {d : Declaration} {f : MethodEdit}
    (hs : s.edit? = some (d, f)) (hnamed : ∀ a ∈ s.named d.signature, a ∈ sure)
    (hf : ∀ m : Method, Divided d.signature m.body →
      f.refusal? m = none ∧ Divided d.signature (f.result m).body) :
    Ensures (Fits names sure) s.perform (Fits names sure) := by
  refine Ensures.step fun c h => ?_
  have hsig := Step.signature_result hs
  have hdistinct := h.wellFormed.signatures_distinct
  -- the function as it is before the edit, also if it is fresh
  have hfor : Divided d.signature (c.methodFor d).body
      ∧ ∀ a ∈ (c.methodFor d).ancestors, a ∈ c.baseNames := by
    cases hfind : c.method? d.signature with
    | none =>
        rw [methodFor_of_none hfind]
        exact ⟨trivial, fun a ha => absurd ha List.not_mem_nil⟩
    | some m =>
        obtain ⟨hm, hsig⟩ := method?_eq_some hfind
        rw [methodFor_of_some hfind, ← hsig]
        exact ⟨h.divided m hm, h.known m hm⟩
  have hnames : (s.next c).baseNames = c.baseNames := by
    unfold baseNames
    rw [(Step.next_of_edit hs c).1, edited_eq]
  have hmem : ∀ m, m ∈ (s.next c).methods →
      m ∈ c.methods ∨ m = f.result (c.methodFor d) := by
    intro m hm
    rw [(Step.next_of_edit hs c).1, mem_methods_edited hdistinct hsig] at hm
    exact hm.imp_left And.left
  refine ⟨?_, wellFormed_next h.wellFormed s, ?_, ?_, ?_, ?_⟩
  · rw [(Step.next_of_edit hs c).2]
    exact (hf _ hfor.1).1
  · rw [hnames]
    exact h.bases_le
  · rw [hnames]
    exact h.bases_ge
  · rw [hnames]
    intro m hm a ha
    rcases hmem m hm with hm | rfl
    · exact h.known m hm a ha
    · rw [mem_ancestors_result hs] at ha
      rcases ha with ha | ha
      · exact hfor.2 a ha
      · exact h.bases_ge a (hnamed a ha)
  · intro m hm
    rcases hmem m hm with hm | rfl
    · exact h.divided m hm
    · rw [hsig, signature_methodFor]
      exact (hf _ hfor.1).2

/-- Naming an ancestor that surely is a base. -/
theorem ensures_ancestor {a : String} (ha : a ∈ sure) (d : Declaration) :
    Ensures (Fits names sure) (Assembly.addAncestor a d)
      (Fits names sure) := by
  refine ensures_edit (s := .ancestor a d) rfl ?_ fun m hm => ⟨rfl, ?_⟩
  · intro _ hx
    rw [Step.named, if_pos rfl, List.mem_singleton] at hx
    rw [hx]
    exact ha
  · show Divided d.signature (m.addAncestor a).body
    rw [Method.addAncestor_eq]
    exact hm

/-- A modifier is never refused, and a contract that fits goes on to fit. -/
theorem ensures_modifier (text : String) (d : Declaration) :
    Ensures (Fits names sure) (Assembly.addModifier text d)
      (Fits names sure) :=
  ensures_edit (s := .modifier text d) rfl
    (fun _ hx => absurd hx List.not_mem_nil) fun _ hm => ⟨rfl, hm⟩

/-- A line is taken by a function whose body is not set as a whole. -/
theorem ensures_line {d : Declaration} (hd : d.signature ∉ setAsWhole)
    (text : String) :
    Ensures (Fits names sure) (Assembly.appendLine text d)
      (Fits names sure) := by
  refine ensures_edit (s := .line text d) rfl
    (fun x hx => absurd hx List.not_mem_nil) fun m hm => ?_
  rw [MethodEdit.refusal?_onBody, MethodEdit.result_onBody]
  cases hbody : m.body with
  | untouched => exact ⟨rfl, hd⟩
  | grown ls => exact ⟨rfl, hd⟩
  | replaced ls =>
      rw [hbody] at hm
      exact absurd hm hd

/-- A body is taken by a function that is set as a whole, since
it has no lines then. -/
theorem ensures_body {d : Declaration} (hd : d.signature ∈ setAsWhole)
    (lines : List String) :
    Ensures (Fits names sure) (Assembly.replaceBody lines d)
      (Fits names sure) := by
  refine ensures_edit (s := .body lines d) rfl
    (fun x hx => absurd hx List.not_mem_nil) fun m hm => ?_
  rw [MethodEdit.refusal?_onBody, MethodEdit.result_onBody]
  cases hbody : m.body with
  | untouched => exact ⟨rfl, hd⟩
  | replaced ls => exact ⟨rfl, hd⟩
  | grown ls =>
      rw [hbody] at hm
      exact absurd hd hm

/-- A base that is among the possible names of no base so far. -/
theorem ensures_inherit {name : String} (hname : name ∉ names) (path : String)
    (args : List Value) :
    Ensures (Fits names sure) (inherit name path args)
      (Fits (name :: names) (name :: sure)) := by
  have hnew : Ensures (fun c => Fits names sure c ∧ name ∉ c.baseNames)
      (inherit name path args) (Fits (name :: names) (name :: sure)) :=
    ensures_newBase ⟨openzeppelin name path, args⟩
  exact hnew.weaken (fun _ h => ⟨h, fun hb => hname (h.bases_le _ hb)⟩)
    fun _ => id

-- ============================================================ features

/-- Guarding functions is never refused. -/
theorem ensures_guard (modifier : String) (fs : List Declaration) :
    Ensures (Fits names sure) (guard modifier fs) (Fits names sure) :=
  Ensures.forM fun d _ => ensures_modifier modifier d

/-- A base that is added unless it is there, and what is done in either
case. -/
theorem ensures_unlessBase {name path : String} {a b : Assembly Unit}
    {Q : Contract → Prop}
    (ha : Ensures (Fits (name :: names) (name :: sure)) a Q)
    (hb : Ensures (Fits (name :: names) (name :: sure)) b Q) :
    Ensures (Fits names sure)
      (do if (← get).hasBase name = true then a
          else (inherit name path [] >>= fun _ => b)) Q := by
  refine Ensures.test (p := fun c => c.hasBase name) ?_ ?_
  · refine ha.weaken (fun c h => ?_) fun _ => id
    obtain ⟨h, hbase⟩ := h
    refine { h with bases_le := ?_, bases_ge := ?_ }
    · exact fun n hn => List.mem_cons_of_mem _ (h.bases_le n hn)
    · intro n hn
      rcases List.mem_cons.1 hn with rfl | hn
      · exact hasBase_iff.1 hbase
      · exact h.bases_ge n hn
  · have hnew : Ensures (fun c => Fits names sure c ∧ c.hasBase name = false)
        (inherit name path []) (Fits (name :: names) (name :: sure)) := by
      refine (ensures_newBase ⟨openzeppelin name path, []⟩).weaken
        (fun c h => ⟨h.1, fun hmem => ?_⟩) fun _ => id
      have htrue : c.hasBase name = true := hasBase_iff.2 hmem
      rw [h.2] at htrue
      cases htrue
    exact hnew.bind hb

/-- After a restriction to the owner, the contract has the
base it works through. -/
theorem ensures_restrictToOwner (fs : List Declaration) :
    Ensures (Fits names sure) (restrictToOwner fs)
      (Fits ("Ownable" :: names) ("Ownable" :: sure)) :=
  ensures_unlessBase (ensures_guard "onlyOwner" fs)
    (ensures_guard "onlyOwner" fs)

/-- After a restriction to a role, the contract has the registry of roles. -/
theorem ensures_restrictToRole (role : String) (fs : List Declaration) :
    Ensures (Fits names sure) (restrictToRole role fs)
      (Fits ("AccessControl" :: names) ("AccessControl" :: sure)) := by
  let τ := Fits ("AccessControl" :: names) ("AccessControl" :: sure)
  have hguard : Ensures τ (guard (onlyRole role) fs) τ := ensures_guard _ fs
  have hdeclare : Ensures τ (Assembly.addVariable (roleDeclaration role)) τ :=
    ensures_field (s := .declare _) rfl fun b h => nomatch h
  have hline : ∀ text, Ensures τ (Assembly.addConstructorLine text) τ :=
    fun text =>
    ensures_field (s := .constructorLine text) rfl fun b h => nomatch h
  -- the role is declared and granted unless it was before
  have hrole : Ensures τ (do
      if (← get).stateVariables.contains (roleDeclaration role) = true then
        guard (onlyRole role) fs
      else Assembly.addVariable (roleDeclaration role) >>= fun _ =>
        Assembly.addConstructorLine (roleGrant role) >>= fun _ =>
          guard (onlyRole role) fs) τ := by
    refine Ensures.test (p := fun c => c.stateVariables.contains _) ?_ ?_
    · exact hguard.weaken (fun _ => And.left) fun _ => id
    · exact (hdeclare.bind ((hline _).bind hguard)).weaken (fun _ => And.left)
        fun _ => id
  have hancestor : Ensures τ
      (Assembly.addAncestor "AccessControl" supportsInterface) τ :=
    ensures_ancestor (List.mem_cons_self ..) supportsInterface
  have hget : sharedCatalog.get "supportsInterface"
      = .ok supportsInterface := rfl
  exact ensures_unlessBase (Ensures.lookUp hget (hancestor.bind hrole))
    ((hline adminGrant).bind (Ensures.lookUp hget (hancestor.bind hrole)))

/-- A restriction brings at most one of the two bases of access. -/
theorem ensures_restrict (access : Access) (role : String)
    (fs : List Declaration) :
    Ensures (Fits names sure) (restrict access role fs)
      (Fits ("Ownable" :: "AccessControl" :: names) sure) := by
  cases access with
  | ownable =>
      exact (ensures_restrictToOwner fs).weaken (fun _ => id) fun c h =>
        h.coarsen (by simp) (by simp)
  | roles =>
      exact (ensures_restrictToRole role fs).weaken (fun _ => id) fun c h =>
        h.coarsen (by simp) (by simp)

/-- Pausing is not refused unless the base of pauses may be there. -/
theorem ensures_pausable (hname : "Pausable" ∉ names) (access : Access)
    (fs : List Declaration) :
    Ensures (Fits names sure) (addPausable access fs)
      (Fits ("Ownable" :: "AccessControl" :: "Pausable" :: names) sure) := by
  have hcoarse : Ensures (Fits names sure)
      (inherit "Pausable" "security/Pausable.sol" [])
      (Fits ("Pausable" :: names) sure) :=
    (ensures_inherit hname _ _).weaken (fun _ => id) fun c h =>
      h.coarsen (List.Subset.refl _) (by simp)
  have hpause : pausableCatalog.get "pause" = .ok pause := rfl
  have hunpause : pausableCatalog.get "unpause" = .ok unpause := rfl
  exact hcoarse.bind ((ensures_guard _ fs).bind (Ensures.lookUp hpause
    (Ensures.lookUp hunpause ((ensures_restrict access _ _).bind
      ((ensures_line (by decide) _).bind (ensures_line (by decide) _))))))

/-- Making a contract upgradeable is not refused unless
its base may be there. -/
theorem ensures_setProxy (hname : "Initializable" ∉ names)
    (proxy? : Option Proxy) :
    Ensures (Fits names sure) (setProxy proxy?)
      (Fits ("Initializable" :: names) sure) := by
  cases proxy? with
  | none =>
      exact Ensures.skip.weaken (fun _ => id) fun c h =>
        h.coarsen (by simp) (List.Subset.refl _)
  | some proxy =>
      have hmark : Ensures (Fits names sure) Assembly.markUpgradeable
          (Fits names sure) :=
        ensures_field (s := .upgradeable) rfl fun b h => nomatch h
      exact (hmark.bind (ensures_inherit hname _ _)).weaken (fun _ => id)
        fun c h => h.coarsen (List.Subset.refl _) (by simp)

/-- The check of upgrades is not refused unless its base may be there. -/
theorem ensures_upgradeCheck (hname : "UUPSUpgradeable" ∉ names)
    (proxy? : Option Proxy) (access : Access) :
    Ensures (Fits names sure) (addUpgradeCheck proxy? access)
      (Fits ("UUPSUpgradeable" :: "Ownable" :: "AccessControl"
        :: names) sure) := by
  have hskip : Ensures (Fits names sure) (pure ())
      (Fits ("UUPSUpgradeable" :: "Ownable" :: "AccessControl"
        :: names) sure) :=
    Ensures.skip.weaken (fun _ => id) fun c h =>
      h.coarsen (fun n hn => by simp [hn]) (List.Subset.refl _)
  cases proxy? with
  | none => exact hskip
  | some proxy =>
      cases proxy with
      | transparent => exact hskip
      | uups =>
          have hnew : "UUPSUpgradeable" ∉ "Ownable" :: "AccessControl"
              :: names := by
            simpa using hname
          have hrestrict : Ensures (Fits names sure)
              (restrict access "UPGRADER" [authorizeUpgrade])
              (Fits ("Ownable" :: "AccessControl" :: names) sure) :=
            ensures_restrict access _ _
          have hget : proxyCatalog.get "_authorizeUpgrade"
              = .ok authorizeUpgrade := rfl
          have hall := hrestrict.bind
            ((ensures_inherit hnew "proxy/utils/UUPSUpgradeable.sol" []).bind
              ((ensures_ancestor (List.mem_cons_self ..) authorizeUpgrade).bind
                (ensures_body (d := authorizeUpgrade) (by decide) [])))
          exact Ensures.lookUp hget (hall.weaken (fun _ => id) fun c h =>
            h.coarsen (List.Subset.refl _) (by simp))

/-- A base that an option may add, for the rest of which its name is only
possible. -/
theorem ensures_optionalBase {name : String} {a : Assembly Unit}
    (option : Bool)
    (h : Ensures (Fits names sure) a (Fits (name :: names) (name :: sure))) :
    Ensures (Fits names sure) (whenSet option a) (Fits (name :: names) sure) :=
  (h.weaken (fun _ => id) fun _ hc =>
    hc.coarsen (List.Subset.refl _) (List.subset_cons_self ..)).whenSet option
    fun _ hc => hc.coarsen (List.subset_cons_self ..) (List.Subset.refl _)

end Estimates

-- ===================================================== non-fungible tokens

namespace Erc721

variable {names sure : List String}

/-- The functions that the base contract declares are in the catalog. -/
theorem get_baseFunction : ∀ f ∈ ["_beforeTokenTransfer", "_burn", "tokenURI"],
    ∃ d ∈ [beforeTransfer, burn, tokenUri], catalog.get f = .ok d := by
  rw [List.forall_mem_cons, List.forall_mem_cons, List.forall_mem_singleton]
  exact ⟨⟨beforeTransfer, by decide, rfl⟩, ⟨burn, by decide, rfl⟩,
    ⟨tokenUri, by decide, rfl⟩⟩

/-- The token has its base, and registers functions of that base only. -/
theorem ensures_baseContract (hname : "ERC721" ∉ names)
    (name symbol : String) :
    Ensures (Fits names sure) (addBaseContract name symbol)
      (Fits ("ERC721" :: names) ("ERC721" :: sure)) := by
  have hancestor : ∀ d, Ensures (Fits ("ERC721" :: names) ("ERC721" :: sure))
      (Assembly.addAncestor "ERC721" d)
        (Fits ("ERC721" :: names) ("ERC721" :: sure)) :=
    fun d => ensures_ancestor (List.mem_cons_self ..) d
  refine (ensures_inherit hname _ _).bind (Ensures.bind
    (Ensures.forM fun f hf => ?_) (Ensures.lookUp rfl (hancestor _)))
  obtain ⟨d, -, hd⟩ := get_baseFunction f hf
  exact Ensures.lookUp hd (hancestor d)

/-- The function of the base URI is set as a whole, in a token. -/
theorem ensures_baseUri? (hsure : "ERC721" ∈ sure) (uri? : Option String) :
    Ensures (Fits names sure) (addBaseUri? uri?) (Fits names sure) := by
  cases uri? with
  | none => exact Ensures.skip
  | some uri =>
      exact (Ensures.lookUp rfl ((ensures_ancestor hsure baseUri).bind
        (ensures_body (by decide) _))).whenSet _ fun _ => id

/-- The extension has its own base when it registers its functions. -/
theorem ensures_enumerable (hname : "ERC721Enumerable" ∉ names) :
    Ensures (Fits names sure) addEnumerable
      (Fits ("ERC721Enumerable" :: names) ("ERC721Enumerable" :: sure)) :=
  (ensures_inherit hname _ _).bind
    (Ensures.lookUp rfl ((ensures_ancestor (List.mem_cons_self ..) _).bind
      (Ensures.lookUp rfl (ensures_ancestor (List.mem_cons_self ..) _))))

/-- The extension has its own base when it registers its functions. -/
theorem ensures_uriStorage (hname : "ERC721URIStorage" ∉ names) :
    Ensures (Fits names sure) addUriStorage
      (Fits ("ERC721URIStorage" :: names) ("ERC721URIStorage" :: sure)) :=
  (ensures_inherit hname _ _).bind
    (Ensures.lookUp rfl ((ensures_ancestor (List.mem_cons_self ..) _).bind
      (Ensures.lookUp rfl (ensures_ancestor (List.mem_cons_self ..) _))))

/-- Minting writes lines only, so that it is not refused. -/
theorem ensures_mint (access : Access) (incremental : Bool) :
    Ensures (Fits names sure)
      (if incremental then addCountedMint access else addMint access)
      (Fits ("Ownable" :: "AccessControl" :: names) sure) := by
  have hfield : ∀ s : Step, s.edit? = none → (∀ b, s ≠ .base b) →
      Ensures (Fits ("Ownable" :: "AccessControl" :: names) sure) s.perform
        (Fits ("Ownable" :: "AccessControl" :: names) sure) :=
    fun s hs hb => ensures_field hs hb
  cases incremental with
  | true =>
      exact Ensures.lookUp rfl ((ensures_restrict access _ [safeMintNext]).bind
        ((hfield (.attachment _) rfl fun b h => nomatch h).bind
          ((hfield (.declare _) rfl fun b h => nomatch h).bind
            ((ensures_line (by decide) _).bind (ensures_line (by decide) _)))))
  | false =>
      exact Ensures.lookUp rfl
        ((ensures_restrict access _ [safeMint]).bind
          (ensures_line (by decide) _))

/-- The registry writes its function line by line, in a token. -/
theorem ensures_openSea (hsure : "ERC721" ∈ sure) :
    Ensures (Fits names sure) addOpenSea (Fits names sure) :=
  (ensures_field (s := .constructorArg _) rfl fun b h => nomatch h).bind
    ((ensures_field (s := .constructorLine _) rfl fun b h => nomatch h).bind
      ((ensures_field (s := .declare _) rfl fun b h => nomatch h).bind
        (Ensures.lookUp rfl ((ensures_ancestor hsure isApprovedForAll).bind
          (Ensures.forM fun _ _ => ensures_line (by decide) _)))))

/-- Every set of options has its contract. -/
theorem ensures_assemble (o : Erc721Options) :
    Ensures (Fits [] []) (assemble o) fun c => ∃ names sure,
      Fits names sure c := by
  refine Ensures.bind
    (ensures_field (s := .license _) rfl fun b h => nomatch h) ?_
  refine Ensures.bind (ensures_setProxy (by decide) _) ?_
  refine Ensures.bind (ensures_baseContract (by decide) _ _) ?_
  refine Ensures.bind (ensures_baseUri? (by decide) _) ?_
  refine Ensures.bind
    (ensures_optionalBase _ (ensures_enumerable (by decide))) ?_
  refine Ensures.bind
    (ensures_optionalBase _ (ensures_uriStorage (by decide))) ?_
  refine Ensures.bind
    ((Ensures.lookUp rfl (ensures_pausable (by decide) _ _)).whenSet _
    fun c h => h.coarsen (fun n hn => by simp [hn]) (List.Subset.refl _)) ?_
  refine Ensures.bind
    (ensures_optionalBase _ (ensures_inherit (by decide) _ _)) ?_
  refine Ensures.bind ((ensures_mint _ _).whenSet _ fun c h =>
    h.coarsen (fun n hn => by simp [hn]) (List.Subset.refl _)) ?_
  refine Ensures.bind ((ensures_openSea (by decide)).whenSet _ fun _ => id) ?_
  exact (ensures_upgradeCheck (by decide) _ _).weaken (fun _ => id) fun c h =>
    ⟨_, _, h⟩

end Erc721

-- ============================================================ multi tokens

namespace Erc1155

variable {names sure : List String}

/-- The token has its base, and registers functions of that base only. -/
theorem ensures_baseContract (hname : "ERC1155" ∉ names) (uri : String) :
    Ensures (Fits names sure) (addBaseContract uri)
      (Fits ("ERC1155" :: names) ("ERC1155" :: sure)) :=
  (ensures_inherit hname _ _).bind
    (Ensures.lookUp rfl ((ensures_ancestor (List.mem_cons_self ..) _).bind
      (Ensures.lookUp rfl (ensures_ancestor (List.mem_cons_self ..) _))))

/-- Setting the URI writes one line only, so that it is not refused. -/
theorem ensures_setUri (access : Access) :
    Ensures (Fits names sure) (addSetUri access)
      (Fits ("Ownable" :: "AccessControl" :: names) sure) :=
  Ensures.lookUp rfl
    ((ensures_restrict access _ [setUri]).bind (ensures_line (by decide) _))

/-- Minting writes lines only, so that it is not refused. -/
theorem ensures_mint (access : Access) :
    Ensures (Fits names sure) (addMint access)
      (Fits ("Ownable" :: "AccessControl" :: names) sure) :=
  Ensures.lookUp rfl
    (Ensures.lookUp rfl ((ensures_restrict access _ [mint, mintBatch]).bind
    ((ensures_line (by decide) _).bind (ensures_line (by decide) _))))

/-- The extension has its own base when it registers the hook. -/
theorem ensures_supply (hname : "ERC1155Supply" ∉ names) :
    Ensures (Fits names sure) addSupply
      (Fits ("ERC1155Supply" :: names) ("ERC1155Supply" :: sure)) :=
  (ensures_inherit hname _ _).bind
    (Ensures.lookUp rfl (ensures_ancestor (List.mem_cons_self ..) _))

/-- Every set of options has its contract. -/
theorem ensures_assemble (o : Erc1155Options) :
    Ensures (Fits [] []) (assemble o) fun c => ∃ names sure,
      Fits names sure c := by
  refine Ensures.bind
    (ensures_field (s := .license _) rfl fun b h => nomatch h) ?_
  refine Ensures.bind (ensures_setProxy (by decide) _) ?_
  refine Ensures.bind (ensures_baseContract (by decide) _) ?_
  refine Ensures.bind ((ensures_setUri _).whenSet _ fun c h =>
    h.coarsen (fun n hn => by simp [hn]) (List.Subset.refl _)) ?_
  refine Ensures.bind
    ((Ensures.lookUp rfl (ensures_pausable (by decide) _ _)).whenSet _
    fun c h => h.coarsen (fun n hn => by simp [hn]) (List.Subset.refl _)) ?_
  refine Ensures.bind
    (ensures_optionalBase _ (ensures_inherit (by decide) _ _)) ?_
  refine Ensures.bind ((ensures_mint _).whenSet _ fun c h =>
    h.coarsen (fun n hn => by simp [hn]) (List.Subset.refl _)) ?_
  refine Ensures.bind (ensures_optionalBase _ (ensures_supply (by decide))) ?_
  exact (ensures_upgradeCheck (by decide) _ _).weaken (fun _ => id) fun c h =>
    ⟨_, _, h⟩

end Erc1155

-- ============================================================= all records

/-- An assembly that succeeds from a fresh contract makes a contract. -/
theorem build_of_ensures {a : Assembly Unit} {Q : Contract → Prop}
    (h : Ensures (Fits [] []) a Q) (name : String) :
    ∃ c, Assembly.build name a = .ok c ∧ a { name } = .ok () c ∧ Q c := by
  obtain ⟨c, hrun, hQ⟩ := h { name } (.start name)
  refine ⟨c, ?_, hrun, hQ⟩
  unfold Assembly.build
  rw [hrun]

/-- A contract that fits has every ancestor of its
functions among its bases. -/
theorem Fits.resolved {names sure : List String} {c : Contract}
    (h : Fits names sure c) : c.Resolved :=
  ⟨h.wellFormed, h.known⟩

/-- The auxiliary contracts have no functions, and so no ancestors
that could be unknown. -/
theorem Erc721.resolved_auxiliaries (o : Erc721Options) :
    ∀ c ∈ Erc721.auxiliaries o, c.Resolved := by
  intro c hc
  have hempty : ∀ c : Contract, c.bases = [] → c.methods = [] →
      c.Resolved := by
    intro c hb hm
    refine ⟨⟨?_, ?_, ?_⟩, ?_⟩
    · rw [baseNames, hb]
      exact List.nodup_nil
    · rw [signatures, hm]
      exact List.nodup_nil
    · rw [hm]
      exact fun m h => absurd h List.not_mem_nil
    · rw [hm]
      exact fun m h => absurd h List.not_mem_nil
  unfold auxiliaries at hc
  split at hc
  · rcases List.mem_cons.1 hc with rfl | hc
    · exact hempty _ rfl rfl
    · rw [List.mem_singleton.1 hc]
      exact hempty _ rfl rfl
  · cases hc

end TokenForge.Token

namespace TokenForge

open Token Assembly

/-- The contracts of a record ahead of its main one. -/
def OptionRecord.auxiliaries : OptionRecord → List Contract
  | .erc721 o => Erc721.auxiliaries o
  | .erc1155 _ => []

/-- The assembly of a record's main contract. -/
def OptionRecord.assemble : OptionRecord → Assembly Unit
  | .erc721 o => Erc721.assemble o
  | .erc1155 o => Erc1155.assemble o

/-- Every record has its contracts, and all of them can be printed. -/
theorem OptionRecord.contracts_ok (r : OptionRecord) :
    ∃ c, r.assemble { name := r.name } = .ok () c
      ∧ r.contracts = .ok (r.auxiliaries ++ [c])
      ∧ ∀ d ∈ r.auxiliaries ++ [c], d.Resolved := by
  cases r with
  | erc721 o =>
      obtain ⟨c, hbuild, hrun, names, sure, hfits⟩ :=
        build_of_ensures (Erc721.ensures_assemble o) o.name
      refine ⟨c, hrun, ?_, ?_⟩
      · show (do
          let token ← Assembly.build o.name (Erc721.assemble o)
          .ok (Erc721.auxiliaries o ++ [token])) = _
        rw [hbuild]
        rfl
      · intro d hd
        rcases List.mem_append.1 hd with hd | hd
        · exact Erc721.resolved_auxiliaries o d hd
        · rw [List.mem_singleton.1 hd]
          exact hfits.resolved
  | erc1155 o =>
      obtain ⟨c, hbuild, hrun, names, sure, hfits⟩ :=
        build_of_ensures (Erc1155.ensures_assemble o) o.name
      refine ⟨c, hrun, ?_, ?_⟩
      · show (do
          let token ← Assembly.build o.name (Erc1155.assemble o)
          .ok [token]) = _
        rw [hbuild]
        rfl
      · intro d hd
        rw [List.mem_singleton.1 hd]
        exact hfits.resolved

/-- No record runs into a conflict, whatever its strings and options. It has
its contracts, every function in them has its mark, and the file is printed,
with the imports as they are, changed in any way, or pinned. -/
theorem OptionRecord.free_of_conflicts (r : OptionRecord) :
    ∃ c, r.contracts = .ok (r.auxiliaries ++ [c])
      ∧ (∀ d ∈ r.auxiliaries ++ [c], ∀ m ∈ d.methods,
          ∃ mark, OverrideMark.resolve d m = .ok mark)
      ∧ (∀ transform, ∃ text,
          SourceFile.print transform (r.auxiliaries ++ [c]) = .ok text)
      ∧ (∃ text, SourceFile.printPlain (r.auxiliaries ++ [c]) = .ok text)
      ∧ ∃ text, SourceFile.printVersioned (r.auxiliaries ++ [c])
        = .ok text := by
  obtain ⟨c, -, hcontracts, hresolved⟩ := r.contracts_ok
  have hprint : ∀ transform, ∃ text,
      SourceFile.print transform (r.auxiliaries ++ [c]) = .ok text :=
    fun transform => ⟨_, SourceFile.print_of_resolved transform hresolved⟩
  refine ⟨c, hcontracts, fun d hd m hm => ?_, hprint, hprint id,
    hprint (Package.pin Version.bundled)⟩
  have hwf := (hresolved d hd).wellFormed
  exact ⟨_, OverrideMark.resolve_of_known hwf.bases_distinct
    (hwf.ancestors_distinct m hm) ((hresolved d hd).known m hm)⟩

end TokenForge
