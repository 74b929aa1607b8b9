/-
The literals of a record's contract. Of the strings of a record some stand in
its contract as literals: the arguments of the token's own base, and the base
URI in the line of the function that returns it. `OptionRecord.textFields`
lists their fields in the order of the text, and
`OptionRecord.literals_replay` says that the contract has a literal for each
of them, in this order, and no other.

The literals are read off the history. A base brings those of its arguments
(`Step.passedLiterals`), and a call on a body those of its lines
(`Step.writtenLiterals`); the steps of the features bring none. The one
function that has a literal is declared again, since the token's base declares
it, so its literal stands below the arguments.
-/
import TokenForge.Proofs.Source.MatchingText
import TokenForge.Proofs.Source.Selection
import TokenForge.Proofs.Token.History
import TokenForge.Proofs.Token.Matching

namespace TokenForge

open Solidity

-- ============================================== the literals of a history

namespace Step

/-- The literals among the arguments of a base that is called. -/
@[simp]
def passedLiterals : Step → List (List Char)
  | .base b => if b.isInitialized then b.literals else []
  | _ => []

/-- The literals in the lines that a step writes for the function of a
signature. -/
@[simp]
def writtenLiterals (sig : Signature) : Step → List (List Char)
  | .line text d => if d.signature = sig then literalsOf text else []
  | .body lines d => if d.signature = sig then lines.flatMap literalsOf else []
  | _ => []

end Step

/-- A line of a body was written by one of the calls. -/
theorem Body.mem_lines_ofCalls {calls : List BodyCall} {line : String}
    (h : line ∈ (ofCalls calls).lines) :
    .append line ∈ calls ∨ ∃ lines, .replace lines ∈ calls ∧ line ∈ lines := by
  match calls with
  | [] => cases h
  | .append first :: later =>
      left
      rcases List.mem_cons.1 h with rfl | h
      · exact List.mem_cons_self ..
      · obtain ⟨call, hcall, hline⟩ := List.mem_filterMap.1 h
        cases call with
        | append text =>
            cases hline
            exact List.mem_cons_of_mem _ hcall
        | replace lines => cases hline
  | .replace first :: later =>
      right
      cases hlast : (replacements later).getLast? with
      | none =>
          rw [ofCalls, hlast] at h
          exact ⟨first, List.mem_cons_self .., h⟩
      | some last =>
          rw [ofCalls, hlast] at h
          obtain ⟨call, hcall, heq⟩ :=
            List.mem_filterMap.1 (List.mem_of_getLast? hlast)
          cases call with
          | append text => cases heq
          | replace lines =>
              cases heq
              exact ⟨_, List.mem_cons_of_mem _ hcall, h⟩

/-- Where only one member of a list contributes, it contributes everything. -/
theorem flatMap_eq_of_nodup {α β : Type} {l : List α} (hl : l.Nodup) {x : α}
    (hx : x ∈ l) {f : α → List β} (h : ∀ y ∈ l, y ≠ x → f y = []) :
    l.flatMap f = f x := by
  obtain ⟨before, after, rfl⟩ := List.append_of_mem hx
  obtain ⟨-, hafter, hbefore⟩ := List.nodup_append.1 hl
  have hnone : ∀ ys : List α, (∀ y ∈ ys, y ∈ before ++ x :: after ∧ y ≠ x) →
      ys.flatMap f = [] := by
    intro ys hys
    rw [List.flatMap_eq_nil_iff]
    exact fun y hy => h y (hys y hy).1 (hys y hy).2
  rw [List.flatMap_append, List.flatMap_cons, hnone before, hnone after,
    List.nil_append, List.append_nil]
  · intro y hy
    refine ⟨by simp [hy], ?_⟩
    rintro rfl
    exact (List.nodup_cons.1 hafter).1 hy
  · intro y hy
    exact ⟨by simp [hy], hbefore y hy x (List.mem_cons_self ..)⟩

namespace Contract

-- ============================================= the literals of a contract

/-- Admitted bases pass their literals on in order. -/
theorem literals_initializedBases {c : Contract} {steps : List Step}
    (h : c.Admits steps) :
    (replay steps c).initializedBases.flatMap Base.literals
      = c.initializedBases.flatMap Base.literals
        ++ steps.flatMap Step.passedLiterals := by
  have hstep : ∀ s : Step,
      (s.brought.filter Base.isInitialized).flatMap Base.literals
        = s.passedLiterals := by
    intro s
    cases s with
    | base b => cases hb : b.isInitialized <;> simp [hb]
    | _ => rfl
  unfold initializedBases
  rw [bases_replay h, List.filter_append, List.flatMap_append,
    List.filter_flatMap, List.flatMap_assoc]
  simp only [hstep]

/-- Marks have no literals, so those of marked functions are
those of the functions. -/
theorem methodLiterals_exactlyMarked (bases : List String) (ms : List Method) :
    methodLiterals (exactlyMarked bases ms) = ms.flatMap Method.literals := by
  unfold methodLiterals exactlyMarked
  rw [List.flatMap_map]

variable {history : List Step} {name : String}

/-- The literals of a contract with a history: those passed to its bases, then
those of the functions it introduces, then those of the functions it declares
again. -/
theorem literals_eq (h : Admits { name } history) :
    (replay history { name }).literals
      = history.flatMap Step.passedLiterals
        ++ (replay history { name }).introduced.flatMap Method.literals
        ++ (replay history { name }).redeclared.flatMap Method.literals := by
  have hprinted := (represents_replay name history).printed
  unfold literals
  rw [literals_initializedBases h, newMethods_exactlyMarked hprinted,
    overridingMethods_exactlyMarked, methodLiterals_exactlyMarked,
    methodLiterals_exactlyMarked]
  rfl

section Methods

variable {m : Method} (hm : m ∈ (replay history { name }).methods)
include hm

/-- A function for which no literal was written has none. -/
theorem literals_of_not_written
    (h : history.flatMap (Step.writtenLiterals m.signature) = []) :
    m.literals = [] := by
  have hcall : ∀ call ∈ bodyCalls history m.signature,
      ∃ s, Step.writtenLiterals m.signature s = []
        ∧ s.bodyCall? m.signature = some call := by
    intro call hcall
    obtain ⟨s, hs, hcall⟩ := List.mem_filterMap.1 hcall
    exact ⟨s, List.flatMap_eq_nil_iff.1 h s hs, hcall⟩
  unfold Method.literals Method.code
  rw [body_replay hm, List.flatMap_eq_nil_iff]
  intro line hline
  rcases Body.mem_lines_ofCalls hline with hmem | ⟨lines, hmem, hline⟩
  · obtain ⟨s, hnone, hs⟩ := hcall _ hmem
    cases s <;> simp [Step.bodyCall?] at hs
    obtain ⟨hd, rfl⟩ := hs
    simpa [hd] using hnone
  · obtain ⟨s, hnone, hs⟩ := hcall _ hmem
    cases s <;> simp [Step.bodyCall?] at hs
    obtain ⟨hd, rfl⟩ := hs
    rw [Step.writtenLiterals, if_pos hd, List.flatMap_eq_nil_iff] at hnone
    exact hnone line hline

/-- A function whose body was set once has the literals of that body. -/
theorem literals_of_replaced {lines : List String}
    (h : bodyCalls history m.signature = [.replace lines]) :
    m.literals = lines.flatMap literalsOf := by
  unfold Method.literals Method.code
  rw [body_replay hm, h]
  rfl

end Methods

/-- Without a literal in any function, a contract has those of its bases. -/
theorem literals_replay_of_none (h : Admits { name } history)
    (hnone : ∀ sig, history.flatMap (Step.writtenLiterals sig) = []) :
    (replay history { name }).literals
      = history.flatMap Step.passedLiterals := by
  have hmethods : ∀ ms : List Method,
      (∀ m ∈ ms, m ∈ (replay history { name }).methods) →
      ms.flatMap Method.literals = [] := by
    intro ms hms
    rw [List.flatMap_eq_nil_iff]
    exact fun m hm => literals_of_not_written (hms m hm) (hnone m.signature)
  rw [literals_eq h,
    hmethods (introduced _) fun m hm => (List.mem_filter.1 hm).1,
    hmethods (redeclared _) fun m hm => (List.mem_filter.1 hm).1,
    List.append_nil, List.append_nil]

/-- If literals are written for one function only, in a body that is set once,
and a base declares it, then they come after those of the bases. -/
theorem literals_replay_of_one (h : Admits { name } history) {a : String}
    {d : Declaration} {lines : List String}
    (hancestor : Step.ancestor a d ∈ history)
    (hcalls : bodyCalls history d.signature = [.replace lines])
    (hother : ∀ sig, sig ≠ d.signature →
      history.flatMap (Step.writtenLiterals sig) = []) :
    (replay history { name }).literals
      = history.flatMap Step.passedLiterals ++ lines.flatMap literalsOf := by
  have hspoken : d ∈ spoken history := List.mem_filterMap.2 ⟨_, hancestor, rfl⟩
  obtain ⟨m, hm, hsig⟩ := exists_method_replay name hspoken
  have hnil : ∀ n ∈ (replay history { name }).methods, n ≠ m →
      n.literals = [] := by
    intro n hn hne
    refine literals_of_not_written hn (hother _ fun hsame => hne ?_)
    have hdistinct := (represents_replay name history).signatures_distinct
    exact List.inj_on_of_nodup_map hdistinct hn hm (hsame.trans hsig.symm)
  have hancestors : m.ancestors ≠ [] := by
    refine List.ne_nil_of_mem (a := a) ?_
    rw [(mem_methods_replay hm).2.2 a, hsig]
    refine List.mem_flatMap.2 ⟨_, hancestor, ?_⟩
    rw [Step.named, if_pos rfl]
    exact List.mem_singleton_self a
  have hreplaced : m.isReplaced = true := by
    unfold Method.isReplaced
    rw [body_replay hm, hsig, hcalls]
    rfl
  have hredeclared : m.Redeclared := by
    refine (Method.isOmitted_eq_false_iff hancestors).1 ?_
    unfold Method.isOmitted Method.isBare
    rw [hreplaced, Bool.not_true, Bool.and_false, Bool.and_false]
  have hintroduced :
      (replay history { name }).introduced.flatMap Method.literals = [] := by
    rw [List.flatMap_eq_nil_iff]
    intro n hn
    obtain ⟨hmem, hnew⟩ := List.mem_filter.1 hn
    refine hnil n hmem ?_
    rintro rfl
    exact hancestors (of_decide_eq_true hnew)
  have hshown : (replay history { name }).redeclared.flatMap Method.literals
      = m.literals := by
    refine flatMap_eq_of_nodup ?_ ?_ fun n hn =>
      hnil n (List.mem_filter.1 hn).1
    · have hdistinct := (represents_replay name history).signatures_distinct
      exact (List.Nodup.of_map _ hdistinct).filter _
    · exact List.mem_filter.2 ⟨hm, decide_eq_true hredeclared⟩
  rw [literals_eq h, hintroduced, hshown, List.append_nil,
    literals_of_replaced hm (by rw [hsig, hcalls])]

end Contract

namespace Token

open Contract

-- ========================================================= the histories

section Features

variable (first : Bool) (access : Access) (role : String)
  (fs : List Declaration) (sig : Signature)

/-- A restriction passes no literal to a base. -/
@[simp]
theorem passedLiterals_restricting :
    (restricting first access role fs).flatMap Step.passedLiterals = [] := by
  cases first <;> cases access <;>
    simp [restricting, accessIntroduction, roleIntroduction, Base.literals]

/-- A restriction writes no literal into a body. -/
@[simp]
theorem writtenLiterals_restricting :
    (restricting first access role fs).flatMap (Step.writtenLiterals sig)
      = [] := by
  cases first <;> cases access <;>
    simp [restricting, accessIntroduction, roleIntroduction]

/-- The calls on a body are those of the parts of a history. -/
theorem bodyCalls_onlyIf (option : Bool) (h : List Step) :
    bodyCalls (onlyIf option h) sig = onlyIf option (bodyCalls h sig) := by
  cases option <;> rfl

theorem bodyCalls_nil : bodyCalls [] sig = [] := rfl

theorem bodyCalls_cons (s : Step) (h : List Step) :
    bodyCalls (s :: h) sig = (s.bodyCall? sig).toList ++ bodyCalls h sig := by
  unfold bodyCalls
  cases hs : s.bodyCall? sig <;> simp [hs]

/-- A restriction works on no body. -/
theorem bodyCalls_restricting :
    bodyCalls (restricting first access role fs) sig = [] := by
  cases first <;> cases access <;>
    simp [bodyCalls, Step.bodyCall?, restricting, accessIntroduction,
      roleIntroduction]

end Features

namespace Erc721

/-- The token's own base is passed the name and the symbol; no other base is
passed a string. -/
theorem passedLiterals_history (o : Erc721Options) :
    (history o).flatMap Step.passedLiterals
      = [Literal.encode o.name.toList, Literal.encode o.symbol.toList] := by
  have hbase : ∀ args, Base.isInitialized
      ⟨openzeppelin "ERC721" "token/ERC721/ERC721.sol", args⟩ = true :=
    fun _ => rfl
  have happroval : (proxyApproval.map fun line =>
      Step.line line isApprovedForAll).flatMap Step.passedLiterals = [] := rfl
  simp [history, Base.literals, hbase, happroval, Value.render,
    literalsOf_ofString]

/-- Lines with literals are written for the function of the base URI only, and
only if there is one. -/
theorem writtenLiterals_history {o : Erc721Options} {sig : Signature}
    (h : o.hasBaseUri = false ∨ sig ≠ baseUri.signature) :
    (history o).flatMap (Step.writtenLiterals sig) = [] := by
  have hplain : ∀ line ∈ ["_pause();", "_unpause();",
      "_safeMint(to, _tokenIdCounter.current());",
      "_tokenIdCounter.increment();", "_safeMint(to, tokenId);"]
        ++ proxyApproval, literalsOf line = [] := by
    have hchars : ∀ line ∈ ["_pause();", "_unpause();",
        "_safeMint(to, _tokenIdCounter.current());",
        "_tokenIdCounter.increment();", "_safeMint(to, tokenId);"]
          ++ proxyApproval, Plain line := by decide
    exact fun line hline => (hchars line hline).literalsOf
  simp only [List.forall_mem_append, List.forall_mem_cons] at hplain
  obtain ⟨⟨hpause, hunpause, hnext, hcount, hmint, -⟩, happroval⟩ := hplain
  simp [history, hpause, hunpause, hnext, hcount, hmint]
  refine ⟨h.imp_right fun hsig heq => absurd heq.symm hsig,
    .inr fun line hline _ => happroval line hline⟩

/-- The body of the base URI is set once, if there is one; the calls of the
other features are for other functions. -/
theorem bodyCalls_history {o : Erc721Options} (ho : o.hasBaseUri = true) :
    bodyCalls (history o) baseUri.signature
      = [.replace ["return " ++ Literal.ofString (o.baseUri?.getD "")
        ++ ";"]] := by
  have hset : bodyCalls (baseUriHistory o.baseUri?) baseUri.signature
      = [.replace ["return " ++ Literal.ofString (o.baseUri?.getD "")
        ++ ";"]] := by
    unfold Erc721Options.hasBaseUri at ho
    rw [baseUriHistory, ho]
    rfl
  have hother : ∀ d ∈ [pause, unpause, safeMintNext, safeMint,
      isApprovedForAll, authorizeUpgrade], d.signature
        ≠ baseUri.signature := by decide
  simp only [List.forall_mem_cons] at hother
  obtain ⟨hpause, hunpause, hnext, hmint, happroved, hupgrade, -⟩ := hother
  have happroval : bodyCalls (proxyApproval.map fun line =>
      Step.line line isApprovedForAll) baseUri.signature = [] := by
    simp [bodyCalls, Step.bodyCall?, happroved]
  unfold history
  simp only [bodyCalls_append, bodyCalls_onlyIf, hset]
  simp [bodyCalls_append, bodyCalls_onlyIf, bodyCalls_restricting,
    bodyCalls_cons, bodyCalls_nil, Step.bodyCall?, hpause, hunpause, hnext,
    hmint, hupgrade, happroval]

/-- The contract has the name, the symbol and the base URI if there is one. -/
theorem literals_replay {o : Erc721Options} {name : String}
    (h : Admits { name } (history o)) :
    (replay (history o) { name }).literals
      = [Literal.encode o.name.toList, Literal.encode o.symbol.toList]
        ++ onlyIf o.hasBaseUri
          [Literal.encode (o.baseUri?.getD "").toList] := by
  cases ho : o.hasBaseUri with
  | false =>
      rw [literals_replay_of_none h
        fun sig => writtenLiterals_history (.inl ho),
        passedLiterals_history]
      rfl
  | true =>
      have hancestor : Step.ancestor "ERC721" baseUri ∈ history o := by
        unfold Erc721Options.hasBaseUri at ho
        simp [history, ho]
      rw [literals_replay_of_one h hancestor (bodyCalls_history ho)
        fun sig hsig => writtenLiterals_history (.inr hsig),
        passedLiterals_history, List.flatMap_singleton, literalsOf_returned]
      rfl

end Erc721

namespace Erc1155

/-- The token's own base is passed the URI; no other base is passed a
string. -/
theorem passedLiterals_history (o : Erc1155Options) :
    (history o).flatMap Step.passedLiterals
      = [Literal.encode o.uri.toList] := by
  have hbase : ∀ args, Base.isInitialized
      ⟨openzeppelin "ERC1155" "token/ERC1155/ERC1155.sol", args⟩ = true :=
    fun _ => rfl
  simp [history, Base.literals, hbase, Value.render, literalsOf_ofString]

/-- No line with a literal is written for any function. -/
theorem writtenLiterals_history (o : Erc1155Options) (sig : Signature) :
    (history o).flatMap (Step.writtenLiterals sig) = [] := by
  have hplain : ∀ line ∈ ["_setURI(newuri);", "_pause();", "_unpause();",
      "_mint(account, id, amount, data);",
      "_mintBatch(to, ids, amounts, data);"], literalsOf line = [] := by
    have hchars : ∀ line ∈ ["_setURI(newuri);", "_pause();", "_unpause();",
        "_mint(account, id, amount, data);",
        "_mintBatch(to, ids, amounts, data);"], Plain line := by decide
    exact fun line hline => (hchars line hline).literalsOf
  simp only [List.forall_mem_cons] at hplain
  obtain ⟨hset, hpause, hunpause, hmint, hbatch, -⟩ := hplain
  simp [history, hset, hpause, hunpause, hmint, hbatch]

/-- The contract has the URI. -/
theorem literals_replay {o : Erc1155Options} {name : String}
    (h : Admits { name } (history o)) :
    (replay (history o) { name }).literals
      = [Literal.encode o.uri.toList] := by
  rw [literals_replay_of_none h (writtenLiterals_history o),
    passedLiterals_history]

end Erc1155

end Token

-- ============================================================= all records

/-- The fields whose strings a token contract holds as literals. -/
inductive TextField where
  | name
  | symbol
  | baseUri
  | uri
  deriving DecidableEq, Repr

namespace OptionRecord

/-- The string that a record's contract holds for a field, if there is one. -/
def text? : OptionRecord → TextField → Option String
  | .erc721 o, .name => some o.name
  | .erc721 o, .symbol => some o.symbol
  | .erc721 o, .baseUri => o.baseUri?
  | .erc1155 o, .uri => some o.uri
  | _, _ => none

/-- The fields of the literals in a record's contract, in the order of the
text. A base URI has a literal if it is set and not empty. -/
def textFields : OptionRecord → List TextField
  | .erc721 o => [.name, .symbol] ++ onlyIf o.hasBaseUri [.baseUri]
  | .erc1155 _ => [.uri]

/-- A literal is spelled from the string of a field. -/
def Spells (r : OptionRecord) (field : TextField) (l : List Char) : Prop :=
  ∃ s, r.text? field = some s ∧ l = Literal.encode s.toList

/-- The main contract of a record has the literals of the record's strings,
field by field, and no other. -/
theorem literals_replay (r : OptionRecord) :
    List.Forall₂ r.Spells r.textFields
      (Contract.replay r.history { name := r.name }).literals := by
  have hadmits := r.admits_history
  cases r with
  | erc721 o =>
      have hall := Token.Erc721.literals_replay hadmits
      unfold history textFields
      rw [hall]
      refine List.rel_append
        (.cons ⟨_, rfl, rfl⟩ (.cons ⟨_, rfl, rfl⟩ .nil)) ?_
      cases ho : o.hasBaseUri with
      | false => exact .nil
      | true =>
          refine .cons ?_ .nil
          cases hset : o.baseUri? with
          | none =>
              rw [Erc721Options.hasBaseUri, hset] at ho
              cases ho
          | some uri => exact ⟨uri, hset, rfl⟩
  | erc1155 o =>
      have hall := Token.Erc1155.literals_replay hadmits
      unfold history textFields
      rw [hall]
      exact .cons ⟨_, rfl, rfl⟩ .nil

end OptionRecord

end TokenForge
