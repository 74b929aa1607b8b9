/-
When the names of a generated file clash. Beside the name of the record a file
has names of the package's contracts, which it imports, and with marketplace
approval those of two small contracts ahead of the token. These are apart from
one another (`auxiliaries_apart`). So whether all names are apart depends on
the record's name alone: it must be none of the others. Which those are can be
read off the options (`takenNames`).

Validation does not look at them. Each is a name that it accepts, so a record
that is valid can have a contract inherit from itself, or declare a contract of
the file again.
-/
import TokenForge.Options.Encode
import TokenForge.Options.Validation
import TokenForge.Proofs.Token.History

namespace TokenForge

-- ================================================================== names

/-- The names that a contract imports, as they are printed. -/
def Contract.importedNames (c : Contract) : List String :=
  (c.baseNames ++ c.attachments.map (·.library.name)).map c.shownName

/-- No two contracts of a file share a name, and none has a name that the file
imports. -/
structure NamesApart (cs : List Contract) : Prop where
  distinct : (cs.map (·.name)).Nodup
  not_imported : ∀ c ∈ cs, ∀ d ∈ cs, c.name ∉ d.importedNames

namespace Token

/-- The names of the package that features bring, apart from those that do not
depend on whether the contract is upgradeable. -/
def Erc721.packageNames (o : Erc721Options) : List String :=
  ["ERC721"]
    ++ onlyIf o.enumerable ["ERC721Enumerable"]
    ++ onlyIf o.uriStorage ["ERC721URIStorage"]
    ++ onlyIf o.pausable ["Pausable"]
    ++ onlyIf o.burnable ["ERC721Burnable"]
    ++ onlyIf (o.pausable || o.mintable || o.common.proxy? == some .uups)
      [accessBase o.common.access]
    ++ onlyIf (o.mintable && o.incremental) ["Counters"]

def Erc1155.packageNames (o : Erc1155Options) : List String :=
  ["ERC1155"]
    ++ onlyIf o.pausable ["Pausable"]
    ++ onlyIf o.burnable ["ERC1155Burnable"]
    ++ onlyIf o.supply ["ERC1155Supply"]
    ++ onlyIf (o.updatableUri || o.pausable || o.mintable
      || o.common.proxy? == some .uups)
      [accessBase o.common.access]

end Token

namespace OptionRecord

open Token

def packageNames : OptionRecord → List String
  | .erc721 o => Erc721.packageNames o
  | .erc1155 o => Erc1155.packageNames o

/-- The names that the main contract of a record imports. -/
def importedNames (r : OptionRecord) : List String :=
  match r.common.proxy? with
  | none => r.packageNames
  | some proxy =>
      ["Initializable"] ++ r.packageNames.map (· ++ "Upgradeable")
        ++ onlyIf (proxy == .uups) ["UUPSUpgradeable"]

/-- The names that a record cannot have without a clash. -/
def takenNames (r : OptionRecord) : List String :=
  r.auxiliaries.map (·.name) ++ r.importedNames

end OptionRecord

namespace Token
open Contract

/-- What the history inherits or attaches is what the options
ask of the package. -/
theorem Erc721.mem_dependencyNames (o : Erc721Options) (name : String) :
    name ∈ (history o).flatMap Step.inherited
        ++ ((history o).flatMap Step.attached).map (·.library.name)
      ↔ name ∈ onlyIf o.common.proxy?.isSome
        ["Initializable"] ++ packageNames o
        ++ onlyIf (o.common.proxy? == some .uups) ["UUPSUpgradeable"] := by
  simp [history, packageNames]
  grind

/-- What the history inherits or attaches is what the options
ask of the package. -/
theorem Erc1155.mem_dependencyNames (o : Erc1155Options) (name : String) :
    name ∈ (history o).flatMap Step.inherited
        ++ ((history o).flatMap Step.attached).map (·.library.name)
      ↔ name ∈ onlyIf o.common.proxy?.isSome
        ["Initializable"] ++ packageNames o
        ++ onlyIf (o.common.proxy? == some .uups) ["UUPSUpgradeable"] := by
  simp [history, packageNames]
  grind

/-- A token is made upgradeable if it has a proxy. -/
theorem Erc721.marks_history (o : Erc721Options) :
    (history o).any Step.marks = o.common.proxy?.isSome := by
  simp [history]

/-- A token is made upgradeable if it has a proxy. -/
theorem Erc1155.marks_history (o : Erc1155Options) :
    (history o).any Step.marks = o.common.proxy?.isSome := by
  simp [history]

end Token

-- ============================================================= all records

namespace OptionRecord

open Token Contract

/-- The names of the package that some record uses. -/
def knownNames : List String :=
  ["ERC721", "ERC721Enumerable", "ERC721URIStorage", "ERC721Burnable",
    "Counters", "ERC1155", "ERC1155Burnable", "ERC1155Supply", "Pausable",
    "Ownable", "AccessControl"]

/-- A record needs nothing of the package but what is known by name. -/
theorem packageNames_known (r : OptionRecord) :
    ∀ name ∈ r.packageNames, name ∈ knownNames := by
  have haccess : ∀ access, accessBase access ∈ knownNames := by
    intro access
    cases access <;> decide
  have honly : ∀ (option : Bool) {name : String}, name ∈ knownNames →
      ∀ n ∈ onlyIf option [name], n ∈ knownNames := by
    intro option name hname n hn
    rw [mem_onlyIf, List.mem_singleton] at hn
    exact hn.2 ▸ hname
  cases r with
  | erc721 o =>
      simp only [packageNames, Erc721.packageNames, List.forall_mem_append,
        List.forall_mem_singleton]
      exact ⟨⟨⟨⟨⟨⟨by decide, honly _ (by decide)⟩, honly _ (by decide)⟩,
        honly _ (by decide)⟩, honly _ (by decide)⟩, honly _ (haccess _)⟩,
        honly _ (by decide)⟩
  | erc1155 o =>
      simp only [packageNames, Erc1155.packageNames, List.forall_mem_append,
        List.forall_mem_singleton]
      exact ⟨⟨⟨⟨by decide, honly _ (by decide)⟩, honly _ (by decide)⟩,
        honly _ (by decide)⟩,
        honly _ (haccess _)⟩

/-- All known names get the suffix. -/
theorem upgradeableName_known :
    ∀ name ∈ knownNames,
      Package.upgradeableName name = name ++ "Upgradeable" := by
  decide

theorem mem_dependencyNames (r : OptionRecord) (name : String) :
    name ∈ (replay r.history { name := r.name }).baseNames
        ++ (replay r.history { name := r.name }).attachments.map
          (·.library.name)
      ↔ name ∈ onlyIf r.common.proxy?.isSome
        ["Initializable"] ++ r.packageNames
        ++ onlyIf (r.common.proxy? == some .uups) ["UUPSUpgradeable"] := by
  rw [List.mem_append, mem_baseNames_replay, attachments_replay,
    ← List.mem_append]
  cases r with
  | erc721 o => exact Erc721.mem_dependencyNames o name
  | erc1155 o => exact Erc1155.mem_dependencyNames o name

theorem upgradeable_replay (r : OptionRecord) :
    (replay r.history { name := r.name }).upgradeable
      = r.common.proxy?.isSome := by
  rw [Contract.upgradeable_replay]
  cases r with
  | erc721 o => exact Erc721.marks_history o
  | erc1155 o => exact Erc1155.marks_history o

/-- The main contract imports the names that the options bring. -/
theorem mem_importedNames (r : OptionRecord) (name : String) :
    name ∈ (replay r.history { name := r.name }).importedNames
      ↔ name ∈ r.importedNames := by
  have hmap : ∀ {l l' : List String}, (∀ n, n ∈ l ↔ n ∈ l') →
      ∀ f : String → String,
      (name ∈ l.map f ↔ name ∈ l'.map f) := by
    intro l l' hl f
    simp only [List.mem_map, hl]
  unfold Contract.importedNames
  rw [hmap r.mem_dependencyNames]
  unfold importedNames
  cases hproxy : r.common.proxy? with
  | none =>
      have hshown : (replay r.history { name := r.name }).shownName = id := by
        funext n
        rw [shownName, r.upgradeable_replay, hproxy]
        rfl
      rw [hshown, List.map_id]
      simp
  | some proxy =>
      have hshown : (replay r.history { name := r.name }).shownName
          = Package.upgradeableName := by
        funext n
        rw [shownName, r.upgradeable_replay, hproxy]
        rfl
      have hknown : r.packageNames.map Package.upgradeableName
          = r.packageNames.map (· ++ "Upgradeable") :=
        List.map_congr_left fun n hn =>
          upgradeableName_known n (r.packageNames_known n hn)
      have hshared : Package.upgradeableName "Initializable" = "Initializable"
          ∧ Package.upgradeableName "UUPSUpgradeable"
            = "UUPSUpgradeable" := by decide
      rw [hshown, List.map_append, List.map_append, map_onlyIf,
        map_onlyIf, hknown]
      simp [hshared]

/-- The names that some record imports. -/
def importableNames : List String :=
  "Initializable" :: "UUPSUpgradeable" :: knownNames
    ++ knownNames.map (· ++ "Upgradeable")

/-- A main contract imports only names that are listed as importable. -/
theorem importedNames_importable (r : OptionRecord) :
    ∀ name ∈ r.importedNames, name ∈ importableNames := by
  have hknown := r.packageNames_known
  intro name hname
  unfold importedNames at hname
  unfold importableNames
  split at hname
  · simp [hknown name hname]
  · simp only [List.mem_append, List.mem_singleton, List.mem_map,
      mem_onlyIf] at hname
    rcases hname with (rfl | ⟨n, hn, rfl⟩) | ⟨-, rfl⟩
    · simp
    · simp only [List.cons_append, List.mem_cons, List.mem_append,
        List.mem_map]
      exact .inr (.inr (.inr ⟨n, hknown n hn, rfl⟩))
    · simp

/-- The names of the contracts ahead of the token. -/
theorem names_auxiliaries (r : OptionRecord) : r.auxiliaries.map (·.name) = []
    ∨ r.auxiliaries.map (·.name)
      = ["OwnableDelegateProxy", "ProxyRegistry"] := by
  cases r with
  | erc721 o =>
      unfold auxiliaries Erc721.auxiliaries
      dsimp only
      split
      · exact .inr rfl
      · exact .inl rfl
  | erc1155 o => exact .inl rfl

/-- An auxiliary contract imports nothing. -/
theorem importedNames_auxiliary (r : OptionRecord) :
    ∀ c ∈ r.auxiliaries, c.importedNames = [] := by
  cases r with
  | erc721 o =>
      unfold auxiliaries Erc721.auxiliaries
      dsimp only
      split
      · intro c hc
        rcases List.mem_pair.1 hc with rfl | rfl
        · rfl
        · rfl
      · exact fun c hc => absurd hc List.not_mem_nil
  | erc1155 o => exact fun c hc => absurd hc List.not_mem_nil

-- ========================================================== when they clash

/-- The names ahead of the token are different ones, and
no package has them. -/
theorem auxiliaries_apart (r : OptionRecord) :
    (r.auxiliaries.map (·.name)).Nodup
    ∧ ∀ name ∈ r.auxiliaries.map (·.name), name ∉ r.importedNames := by
  have hfree : ∀ name ∈ ["OwnableDelegateProxy", "ProxyRegistry"],
      name ∉ importableNames := by decide
  rcases r.names_auxiliaries with haux | haux
  · rw [haux]
    exact ⟨List.nodup_nil, fun _ h => absurd h List.not_mem_nil⟩
  · rw [haux]
    exact ⟨by decide, fun n hn h =>
      hfree n hn (r.importedNames_importable n h)⟩

/-- The contracts of a file have different names exactly if the token has none
of those ahead of it. -/
theorem nodup_names_iff {r : OptionRecord} {c : Contract}
    (hname : c.name = r.name) :
    ((r.auxiliaries ++ [c]).map (·.name)).Nodup
      ↔ r.name ∉ r.auxiliaries.map (·.name) := by
  rw [List.map_append, List.map_singleton, hname, List.nodup_append]
  constructor
  · rintro ⟨-, -, hnew⟩ h
    exact hnew _ h _ (List.mem_singleton_self _) rfl
  · intro hnew
    refine ⟨r.auxiliaries_apart.1, List.nodup_singleton _, ?_⟩
    intro n hn m hm
    rw [List.mem_singleton.1 hm]
    rintro rfl
    exact hnew hn

/-- The names of a record's file are apart if and only if the name of the
record is none of the names that its options bring. -/
theorem names_apart_iff_not_taken (r : OptionRecord) :
    ∃ c, r.contracts = .ok (r.auxiliaries ++ [c])
      ∧ (NamesApart (r.auxiliaries ++ [c]) ↔ r.name ∉ r.takenNames) := by
  refine ⟨_, r.contracts_eq_replay, ?_⟩
  have hname : (replay r.history { name := r.name }).name = r.name :=
    name_replay _ _
  have himported := r.mem_importedNames
  unfold takenNames
  rw [List.mem_append, not_or]
  constructor
  · rintro ⟨hdistinct, hnot⟩
    have hmain := List.mem_append_right r.auxiliaries
      (List.mem_singleton_self (replay r.history { name := r.name }))
    have hself := hnot _ hmain _ hmain
    rw [hname, himported] at hself
    exact ⟨(nodup_names_iff hname).1 hdistinct, hself⟩
  · rintro ⟨hnew, hself⟩
    refine ⟨(nodup_names_iff hname).2 hnew, ?_⟩
    -- only the token imports names, and none of them is a
    -- contract's ahead of it
    intro c hc d hd
    rcases List.mem_append.1 hd with hd | hd
    · rw [r.importedNames_auxiliary d hd]
      exact List.not_mem_nil
    · rw [List.mem_singleton.1 hd, himported]
      rcases List.mem_append.1 hc with hc | hc
      · exact r.auxiliaries_apart.2 _ (List.mem_map_of_mem hc)
      · rw [List.mem_singleton.1 hc, hname]
        exact hself

/-- Validation accepts every name that a record cannot have without a clash. -/
theorem nameFault?_of_taken (r : OptionRecord) :
    ∀ name ∈ r.takenNames, nameFault? name = none := by
  have haux : ∀ name ∈ ["OwnableDelegateProxy", "ProxyRegistry"],
      nameFault? name = none := by
    decide
  have himportable : ∀ name ∈ importableNames, nameFault? name = none := by
    decide
  unfold takenNames
  rw [List.forall_mem_append]
  refine ⟨?_, fun name hname =>
    himportable name (r.importedNames_importable name hname)⟩
  rcases r.names_auxiliaries with h | h
  · rw [h]
    exact fun _ hname => absurd hname List.not_mem_nil
  · rw [h]
    exact haux

/-- A valid token may be called like the contract it inherits from, and like a
contract ahead of it. -/
theorem valid_names_clash :
    ((OptionRecord.erc721 { name := "ERC721", symbol := "T" }).validate
          ⟨"kind = \"ERC721\"\nname = \"ERC721\"\nsymbol = \"T\"\n",
            "token.toml"⟩ = .ok ()
        ∧ ∃ c,
          (OptionRecord.erc721 { name := "ERC721", symbol := "T" }).contracts
            = .ok [c]
          ∧ c.name ∈ c.importedNames)
      ∧ (OptionRecord.erc721
          { name := "ProxyRegistry", symbol := "T", openSea := true }).validate
          ⟨"kind = \"ERC721\"\nname = \"ProxyRegistry\"\nsymbol = \"T\"\n"
            ++ "open-sea = true\n", "token.toml"⟩ = .ok ()
        ∧ ∃ cs,
          (OptionRecord.erc721 { name := "ProxyRegistry", symbol := "T",
                                 openSea := true }).contracts = .ok cs
          ∧ ¬ (cs.map (·.name)).Nodup := by
  refine ⟨⟨rfl, _, contracts_eq_replay _, ?_⟩, rfl, _,
    contracts_eq_replay _, ?_⟩
  · rw [name_replay, mem_importedNames]
    decide
  · rw [List.map_append, List.map_singleton, name_replay]
    decide

end OptionRecord

end TokenForge
