/-
Two records of the same shape make matching contracts. The shape is all that
the features look at: which options are set, who may call privileged
functions, how the contract is upgraded, and whether there is a base URI.
The strings reach a contract in three places only, as its licence, as the
arguments of its bases and as the line that returns the base URI, and in
each of them the other record's string stands on the other side.

Every feature is compared with itself, step by step; the texts that come
from the features themselves are fixed, so that they are plain is decided by
looking at them.
-/
import TokenForge.Proofs.Source.Matching
import TokenForge.Proofs.Token.Success

namespace TokenForge

open Solidity Assembly

-- ============================================================== fixed texts

instance (d : Declaration) : Decidable d.PlainTexts :=
  decidable_of_iff (Plain d.name ∧ (∀ a ∈ d.args, Plain a.name ∧ Plain a.type)
      ∧ (∀ r ∈ d.returns, Plain r) ∧ d.doc? = none)
    ⟨fun ⟨hn, ha, hr, hd⟩ => ⟨hn, ha, hr, hd⟩,
      fun h => ⟨h.name, h.args, h.returns, h.doc⟩⟩

namespace Token

variable {A : String → String → Prop}

-- ================================================================== steps

/-- The texts of a contract that no feature looks at. -/
structure Label where
  name : String
  license : String

/-- A contract with the texts of a label. -/
structure Label.On (a : Label) (c : Contract) : Prop where
  name : c.name = a.name
  license : c.license = a.license

/-- Two contracts match, and each has the texts of its own label. -/
structure Linked (A : String → String → Prop) (a b : Label) (c c' : Contract) :
    Prop where
  wellFormed : c.WellFormed
  matched : c.Matches A c'
  left : a.On c
  right : b.On c'

variable {a b : Label}

/-- Steps that match keep contracts linked, each with the
texts of its own label. -/
theorem relates_step {s t : Step} (h : Step.Matches A s t) :
    Relates (Linked A a b) s.perform t.perform := by
  refine Relates.step fun c c' hc => ?_
  have hlicense := h.license_next c c'
  refine ⟨Contract.wellFormed_next hc.wellFormed s,
    h.next hc.matched hc.wellFormed.signatures_distinct, ⟨?_, ?_⟩, ⟨?_, ?_⟩⟩
  · rw [Step.name_next, hc.left.name]
  · rw [hlicense.1, hc.left.license]
  · rw [Step.name_next, hc.right.name]
  · rw [hlicense.2, hc.right.license]

/-- Setting the license of its own label keeps each contract linked. -/
theorem relates_setLicense :
    Relates (Linked A a b) (Assembly.setLicense a.license)
      (Assembly.setLicense b.license) := by
  refine Relates.step (s := .license _) (t := .license _) fun c c' hc => ?_
  exact ⟨Contract.wellFormed_next hc.wellFormed _, { hc.matched with },
    ⟨hc.left.name, rfl⟩, ⟨hc.right.name, rfl⟩⟩

/-- Both contracts inherit one base, with arguments that match. -/
theorem relates_inherit {name path : String} (hname : Plain name)
    (hpath : Quotable ("@openzeppelin/contracts/" ++ path))
    {args args' : List Value}
    (hargs : List.Forall₂ (Value.Matches A) args args') :
    Relates (Linked A a b) (inherit name path args)
      (inherit name path args') := by
  have hbase : Base.Matches A ⟨openzeppelin name path, args⟩
      ⟨openzeppelin name path, args'⟩ := ⟨rfl, hname, hpath, hargs⟩
  exact relates_step (.base hbase)

/-- Both contracts register one ancestor of one function. -/
theorem relates_ancestor (name : String) {d : Declaration}
    (hd : d.PlainTexts) :
    Relates (Linked A a b) (Assembly.addAncestor name d)
      (Assembly.addAncestor name d) :=
  relates_step (.ancestor hd)

/-- Both contracts append one line that has no quotes. -/
theorem relates_line {text : String} (ht : Plain text) {d : Declaration}
    (hd : d.PlainTexts) :
    Relates (Linked A a b) (Assembly.appendLine text d)
      (Assembly.appendLine text d) :=
  relates_step (.line ht hd)

/-- Both contracts put one line without quotes into the constructor. -/
theorem relates_constructorLine {text : String} (ht : Plain text) :
    Relates (Linked A a b) (Assembly.addConstructorLine text)
      (Assembly.addConstructorLine text) :=
  relates_step (.constructorLine ht)

/-- Both contracts guard the same functions with one modifier. -/
theorem relates_guard {modifier : String} (ht : Plain modifier)
    {fs : List Declaration} (hfs : ∀ d ∈ fs, d.PlainTexts) :
    Relates (Linked A a b) (guard modifier fs) (guard modifier fs) :=
  Relates.forM fun d hd => relates_step (.modifier ht (hfs d hd))

-- ========================================================= access control

/-- The texts that a role brings. -/
structure RoleTexts (role : String) : Prop where
  declaration : VariableReads (roleDeclaration role)
  grant : Plain (roleGrant role)
  modifier : Plain (onlyRole role)

/-- Linked contracts have the same bases, so both inherit this
one or neither does. -/
theorem relates_unlessBase {name path : String} (hname : Plain name)
    (hpath : Quotable ("@openzeppelin/contracts/" ++ path))
    {x y : Assembly Unit} (hx : Relates (Linked A a b) x x)
    (hy : Relates (Linked A a b) y y) :
    Relates (Linked A a b)
      (do if (← get).hasBase name = true then x
          else (inherit name path [] >>= fun _ => y))
      (do if (← get).hasBase name = true then x
          else (inherit name path [] >>= fun _ => y)) := by
  refine Relates.test (p := fun c => c.hasBase name) (fun c c' hc => ?_) hx
    ((relates_inherit hname hpath .nil).bind hy)
  unfold Contract.hasBase
  rw [hc.matched.baseNames]

/-- A restriction takes the same steps for both contracts. -/
theorem relates_restrict (access : Access) {role : String}
    (hrole : RoleTexts role) {fs : List Declaration}
    (hfs : ∀ d ∈ fs, d.PlainTexts) :
    Relates (Linked A a b) (restrict access role fs)
      (restrict access role fs) := by
  cases access with
  | ownable =>
      have hguard : Relates (Linked A a b) (guard "onlyOwner" fs)
          (guard "onlyOwner" fs) :=
        relates_guard (by decide) hfs
      exact relates_unlessBase (by decide) (by decide) hguard hguard
  | roles =>
      have hguard : Relates (Linked A a b) (guard (onlyRole role) fs)
          (guard (onlyRole role) fs) := relates_guard hrole.modifier hfs
      let declared : Assembly Unit := do
        if (← get).stateVariables.contains (roleDeclaration role) = true then
          guard (onlyRole role) fs
        else Assembly.addVariable (roleDeclaration role) >>= fun _ =>
          Assembly.addConstructorLine (roleGrant role) >>= fun _ =>
            guard (onlyRole role) fs
      have hdeclare : Relates (Linked A a b) declared declared :=
        Relates.test (p := fun c => c.stateVariables.contains _)
          (fun c c' hc => by rw [hc.matched.stateVariables]) hguard
          ((relates_step (.declare hrole.declaration)).bind
            ((relates_constructorLine hrole.grant).bind hguard))
      have hget : sharedCatalog.get "supportsInterface"
          = .ok supportsInterface := rfl
      have hrest := (relates_ancestor (A := A) (a := a) (b := b)
        "AccessControl" (d := supportsInterface) (by decide)).bind hdeclare
      exact relates_unlessBase (by decide) (by decide)
        (Relates.lookUp hget hrest)
        ((relates_constructorLine (by decide)).bind
          (Relates.lookUp hget hrest))

/-- The identifier of a role can be quoted if the role can. -/
theorem quotable_roleId {role : String} (h : Quotable role) :
    Quotable (roleId role) := by
  have hsuffix : Quotable "_ROLE" := by decide
  intro x hx
  unfold roleId at hx
  rw [String.toList_append, List.mem_append] at hx
  rcases hx with hx | hx
  · exact h x hx
  · exact hsuffix x hx

/-- The declaration of a role has its name as a word and in a literal. -/
theorem reads_roleDeclaration {role : String} (hplain : Plain (roleId role))
    (hquotable : Quotable (roleId role)) :
    ∃ ts, ReadsText (roleDeclaration role ++ "\n") ts := by
  have hlead : Plain
      ("bytes32 public constant " ++ roleId role ++ " = keccak256(") := by
    have hconstant : Plain "bytes32 public constant " := by decide
    have hhash : Plain " = keccak256(" := by decide
    exact (hconstant.append hplain).append hhash
  have hopen : " = keccak256(".toList
      = " = keccak256".toList ++ ['('] := by decide
  have hquote : " = keccak256(\"".toList
      = " = keccak256".toList ++ ['(', '"'] := by
    decide
  have hclose : "\");".toList = ['"', ')', ';'] := by decide
  have hfeed : "\n".toList = ['\n'] := by decide
  have hend : Reads [')', ';', '\n'] [.symbol ')', .symbol ';'] := by
    unfold Reads
    decide
  unfold Plain at hlead
  rw [String.toList_append, hopen, ← List.append_assoc] at hlead
  obtain ⟨ts, hts⟩ := reads_of_plain hlead (by decide)
  have hall := (hts.append (reads_quoted hquotable)).append hend
  have hsplit : (roleDeclaration role ++ "\n").toList
      = ("bytes32 public constant " ++ roleId role).toList
        ++ " = keccak256".toList
        ++ ['('] ++ ('"' :: (roleId role).toList ++ ['"'])
          ++ [')', ';', '\n'] := by
    unfold roleDeclaration
    simp only [String.toList_append, hquote, hclose, hfeed, List.append_assoc,
      List.cons_append, List.nil_append]
  rw [← hsplit] at hall
  exact ⟨_, hall⟩

/-- The texts of a role whose name opens no literal and no comment. -/
theorem roleTexts {role : String} (hplain : Plain role)
    (hquotable : Quotable role) :
    RoleTexts role := by
  have hid : Plain (roleId role) := by
    have hsuffix : Plain "_ROLE" := by decide
    exact hplain.append hsuffix
  refine ⟨?_, ?_, ?_⟩
  · obtain ⟨ts, hts⟩ := reads_roleDeclaration hid (quotable_roleId hquotable)
    have hsame : Package.upgradeableVariable (roleDeclaration role)
        = roleDeclaration role := by
      apply Package.upgradeableVariable_eq
      unfold roleDeclaration
      simp only [String.append_assoc, String.toList_append]
      rfl
    refine ⟨⟨_, hts⟩, ?_⟩
    rw [hsame]
    exact ⟨_, hts⟩
  · have hgrant : Plain "_setupRole(" := by decide
    have hsender : Plain ", msg.sender);" := by decide
    exact (hgrant.append hid).append hsender
  · have honly : Plain "onlyRole(" := by decide
    have hclose : Plain ")" := by decide
    exact (honly.append hid).append hclose

-- ======================================================== shared features

/-- Pausing takes the same steps for both contracts. -/
theorem relates_pausable (access : Access) {fs : List Declaration}
    (hfs : ∀ d ∈ fs, d.PlainTexts) :
    Relates (Linked A a b) (addPausable access fs) (addPausable access fs) :=
  (relates_inherit (by decide) (by decide) .nil).bind
    ((relates_guard (by decide) hfs).bind
      (Relates.lookUp rfl (Relates.lookUp rfl
      ((relates_restrict access (roleTexts (by decide) (by decide))
        (by decide)).bind
        ((relates_line (by decide) (by decide)).bind
          (relates_line (by decide) (by decide)))))))

/-- So does setting the proxy. -/
theorem relates_setProxy (proxy? : Option Proxy) :
    Relates (Linked A a b) (setProxy proxy?) (setProxy proxy?) := by
  cases proxy? with
  | none => exact Relates.skip
  | some proxy =>
      exact (relates_step (s := .upgradeable)
        (t := .upgradeable) .upgradeable).bind
        (relates_inherit (by decide) (by decide) .nil)

/-- So does the check of upgrades. -/
theorem relates_upgradeCheck (proxy? : Option Proxy) (access : Access) :
    Relates (Linked A a b) (addUpgradeCheck proxy? access)
      (addUpgradeCheck proxy? access) := by
  cases proxy? with
  | none => exact Relates.skip
  | some proxy =>
      cases proxy with
      | transparent => exact Relates.skip
      | uups =>
          have hrestrict : Relates (Linked A a b)
              (restrict access "UPGRADER" [authorizeUpgrade])
              (restrict access "UPGRADER" [authorizeUpgrade]) :=
            relates_restrict access (roleTexts (by decide) (by decide))
              (by decide)
          exact Relates.lookUp rfl (hrestrict.bind
            ((relates_inherit (by decide) (by decide) .nil).bind
              ((relates_ancestor _ (by decide)).bind
                (relates_step (.body .nil (by decide))))))

-- ===================================================== non-fungible tokens

namespace Erc721

/-- The two tokens inherit their base with names and symbols that match. -/
theorem relates_baseContract {name name' symbol symbol' : String}
    (hname : A name name') (hsymbol : A symbol symbol') :
    Relates (Linked A a b) (addBaseContract name symbol)
      (addBaseContract name' symbol') := by
  have hplain : ∀ d ∈ [beforeTransfer, burn, tokenUri],
      d.PlainTexts := by decide
  refine (relates_inherit (by decide) (by decide)
    (.cons (.text hname) (.cons (.text hsymbol) .nil))).bind
    (Relates.bind (Relates.forM fun f hf => ?_)
      (Relates.lookUp rfl (relates_ancestor _ (by decide))))
  obtain ⟨d, hd, hget⟩ := get_baseFunction f hf
  exact Relates.lookUp hget (relates_ancestor _ (hplain d hd))

/-- The two functions of the base URI return literals that match. -/
theorem relates_baseUri {uri uri' : String} (huri : A uri uri') :
    Relates (Linked A a b) (addBaseUri uri) (addBaseUri uri') :=
  Relates.lookUp rfl ((relates_ancestor _ (by decide)).bind
    (relates_step (.body (.cons (.returned huri) .nil) (by decide))))

/-- Minting takes the same steps for both contracts, counted or not. -/
theorem relates_mint (access : Access) (incremental : Bool) :
    Relates (Linked A a b)
      (if incremental then addCountedMint access else addMint access)
      (if incremental then addCountedMint access else addMint access) := by
  cases incremental with
  | true =>
      have hcounters :
          VariableReads "Counters.Counter private _tokenIdCounter;" :=
        variableReads_of_plain (by decide)
      exact Relates.lookUp rfl
        ((relates_restrict access (roleTexts (by decide) (by decide))
          (by decide)).bind
          ((relates_step (.attachment ⟨by decide, by decide, by decide⟩)).bind
            ((relates_step (.declare hcounters)).bind
              ((relates_line (by decide) (by decide)).bind
                (relates_line (by decide) (by decide))))))
  | false =>
      exact Relates.lookUp rfl
        ((relates_restrict access (roleTexts (by decide) (by decide))
          (by decide)).bind
          (relates_line (by decide) (by decide)))

/-- Nothing of the registry depends on the texts of the record. -/
theorem relates_openSea : Relates (Linked A a b) addOpenSea addOpenSea := by
  have haddress : VariableReads "address proxyRegistryAddress;" :=
    variableReads_of_plain (by decide)
  have hlines : ∀ line ∈ proxyApproval, Plain line := by decide
  exact (relates_step (.constructorArg ⟨by decide, by decide⟩)).bind
    ((relates_constructorLine (by decide)).bind
      ((relates_step (.declare haddress)).bind
        (Relates.lookUp rfl ((relates_ancestor _ (by decide)).bind
          (Relates.forM fun line hline =>
            relates_line (hlines line hline) (by decide))))))

end Erc721

end Token

-- ================================================================== shapes

/-- Whether a base URI is set; an empty one is none. -/
def Erc721Options.hasBaseUri (o : Erc721Options) : Bool :=
  o.baseUri?.any fun uri => !uri.isEmpty

/-- Options that differ in their strings only, and agree on whether there is
a base URI. -/
structure Erc721Options.SameShape (o p : Erc721Options) : Prop where
  enumerable : o.enumerable = p.enumerable
  uriStorage : o.uriStorage = p.uriStorage
  burnable : o.burnable = p.burnable
  pausable : o.pausable = p.pausable
  mintable : o.mintable = p.mintable
  incremental : o.incremental = p.incremental
  openSea : o.openSea = p.openSea
  access : o.common.access = p.common.access
  proxy? : o.common.proxy? = p.common.proxy?
  hasBaseUri : o.hasBaseUri = p.hasBaseUri

/-- Options that differ in their strings only. -/
structure Erc1155Options.SameShape (o p : Erc1155Options) : Prop where
  burnable : o.burnable = p.burnable
  pausable : o.pausable = p.pausable
  mintable : o.mintable = p.mintable
  supply : o.supply = p.supply
  updatableUri : o.updatableUri = p.updatableUri
  access : o.common.access = p.common.access
  proxy? : o.common.proxy? = p.common.proxy?

namespace Token

variable {A : String → String → Prop} {a b : Label}

/-- The base URI feature by whether there is one. -/
theorem Erc721.addBaseUri?_cases (o : Erc721Options) :
    (o.hasBaseUri = false ∧ Erc721.addBaseUri? o.baseUri? = pure ())
      ∨ ∃ uri, o.hasBaseUri = true ∧ o.baseUri? = some uri
          ∧ Erc721.addBaseUri? o.baseUri? = Erc721.addBaseUri uri := by
  unfold Erc721Options.hasBaseUri
  cases o.baseUri? with
  | none => exact .inl ⟨rfl, rfl⟩
  | some uri =>
      cases huri : uri.isEmpty with
      | true =>
          left
          simp [huri, addBaseUri?, whenSet]
      | false =>
          right
          exact ⟨uri, by simp [huri], rfl,
            by simp [huri, addBaseUri?, whenSet]⟩

/-- Options of the same shape make matching contracts. -/
theorem Erc721.relates_assemble {o p : Erc721Options} (h : o.SameShape p)
    (hname : A o.name p.name) (hsymbol : A o.symbol p.symbol)
    (huri : ∀ uri uri', o.baseUri? = some uri → p.baseUri? = some uri' →
      A uri uri') (ha : a.license = o.common.license)
    (hb : b.license = p.common.license) :
    Relates (Linked A a b) (assemble o) (assemble p) := by
  have hbaseUri : Relates (Linked A a b) (addBaseUri? o.baseUri?)
      (addBaseUri? p.baseUri?) := by
    rcases addBaseUri?_cases o with ⟨ho, hadd⟩ | ⟨uri, ho, hset, hadd⟩ <;>
      rcases addBaseUri?_cases p with ⟨hp, hadd'⟩ | ⟨uri', hp, hset', hadd'⟩
    · rw [hadd, hadd']
      exact Relates.skip
    · rw [h.hasBaseUri, hp] at ho
      cases ho
    · rw [h.hasBaseUri, hp] at ho
      cases ho
    · rw [hadd, hadd']
      exact relates_baseUri (huri uri uri' hset hset')
  -- what the features look at is the same on both sides
  unfold assemble
  rw [← h.enumerable, ← h.uriStorage, ← h.burnable, ← h.pausable, ← h.mintable,
    ← h.incremental, ← h.openSea, ← h.access, ← h.proxy?]
  rw [← ha, ← hb]
  refine Relates.bind relates_setLicense ?_
  refine Relates.bind (relates_setProxy _) ?_
  refine Relates.bind (relates_baseContract hname hsymbol) ?_
  refine Relates.bind hbaseUri ?_
  refine Relates.bind (Relates.whenSet _ ?_) ?_
  · exact (relates_inherit (by decide) (by decide) .nil).bind
      (Relates.lookUp rfl ((relates_ancestor _ (by decide)).bind
        (Relates.lookUp rfl (relates_ancestor _ (by decide)))))
  refine Relates.bind (Relates.whenSet _ ?_) ?_
  · exact (relates_inherit (by decide) (by decide) .nil).bind
      (Relates.lookUp rfl ((relates_ancestor _ (by decide)).bind
        (Relates.lookUp rfl (relates_ancestor _ (by decide)))))
  refine Relates.bind (Relates.whenSet _
    (Relates.lookUp rfl (relates_pausable _ (by decide)))) ?_
  refine Relates.bind (Relates.whenSet _
    (relates_inherit (by decide) (by decide) .nil)) ?_
  refine Relates.bind (Relates.whenSet _ (relates_mint _ _)) ?_
  refine Relates.bind (Relates.whenSet _ relates_openSea) ?_
  exact relates_upgradeCheck _ _

/-- Records of one shape with URIs that match are assembled to
contracts that match. -/
theorem Erc1155.relates_assemble {o p : Erc1155Options} (h : o.SameShape p)
    (huri : A o.uri p.uri) (ha : a.license = o.common.license)
    (hb : b.license = p.common.license) :
    Relates (Linked A a b) (assemble o) (assemble p) := by
  unfold assemble
  rw [← h.burnable, ← h.pausable, ← h.mintable, ← h.supply, ← h.updatableUri,
    ← h.access, ← h.proxy?]
  rw [← ha, ← hb]
  refine Relates.bind relates_setLicense ?_
  refine Relates.bind (relates_setProxy _) ?_
  refine Relates.bind ?_ ?_
  · exact
      (relates_inherit (by decide) (by decide) (.cons (.text huri) .nil)).bind
      (Relates.lookUp rfl ((relates_ancestor _ (by decide)).bind
        (Relates.lookUp rfl (relates_ancestor _ (by decide)))))
  refine Relates.bind (Relates.whenSet _ ?_) ?_
  · exact Relates.lookUp rfl
      ((relates_restrict _ (roleTexts (by decide) (by decide))
        (by decide)).bind
        (relates_line (by decide) (by decide)))
  refine Relates.bind (Relates.whenSet _
    (Relates.lookUp rfl (relates_pausable _ (by decide)))) ?_
  refine Relates.bind (Relates.whenSet _
    (relates_inherit (by decide) (by decide) .nil)) ?_
  refine Relates.bind (Relates.whenSet _ ?_) ?_
  · exact Relates.lookUp rfl (Relates.lookUp rfl
      ((relates_restrict _ (roleTexts (by decide) (by decide))
        (by decide)).bind
        ((relates_line (by decide) (by decide)).bind
          (relates_line (by decide) (by decide)))))
  refine Relates.bind (Relates.whenSet _ ?_) ?_
  · exact (relates_inherit (by decide) (by decide) .nil).bind
      (Relates.lookUp rfl (relates_ancestor _ (by decide)))
  exact relates_upgradeCheck _ _

end Token

end TokenForge
