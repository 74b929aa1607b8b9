/-
No injection through the strings of a record. What a valid record prints is
a row of slots that its shape alone decides: tokens that are the same for
all records of the shape, and literals that stand for one of the record's
strings each (`OptionRecord.source_fills_slots`). Around the slots there are
the licence in the first comment and the name after the keyword `contract`,
which validation keeps on one line and to one word.

Two records of one shape are compared first: they make matching contracts,
so their tokens agree up to literals of corresponding strings
(`tokens_of_sameShape`). The slots are then read off two records of the
shape that have all strings different: where their tokens agree, no record
has another token, and where they differ, every record has the literal of
its own string.
-/
import TokenForge.Options.Validation
import TokenForge.Proofs.Solidity.Literal
import TokenForge.Proofs.Source.FileTokens
import TokenForge.Proofs.Token.Literals

namespace TokenForge

open Solidity Token

-- ============================================================= the strings

/-- A name without a fault is an identifier. -/
theorem isIdentifier_of_nameFault? {name : String}
    (h : nameFault? name = none) :
    isIdentifier name = true := by
  unfold nameFault? at h
  split at h
  · cases h
  split at h
  · cases h
  split at h
  · cases h
  next hidentifier => simpa using hidentifier

/-- A license without a fault has only characters of licenses. -/
theorem isLicensePart_of_licenseFault? {license : String}
    (h : licenseFault? license = none) :
    ∀ c ∈ license.toList, isLicensePart c = true := by
  unfold licenseFault? at h
  split at h
  · cases h
  split at h
  · cases h
  next hparts => simpa using hparts

namespace OptionRecord

/-- Records of one standard that differ in their strings only, and agree on
whether there is a base URI. -/
inductive SameShape : OptionRecord → OptionRecord → Prop
  | erc721 {o p : Erc721Options} (h : o.SameShape p) :
      SameShape (.erc721 o) (.erc721 p)
  | erc1155 {o p : Erc1155Options} (h : o.SameShape p) :
      SameShape (.erc1155 o) (.erc1155 p)

/-- The strings that stand in no literal cannot leave their place: the name
is one word, and the licence stays on its line. -/
structure Contained (r : OptionRecord) : Prop where
  name : isIdentifier r.name = true
  license : '\n' ∉ r.common.license.toList

/-- Validation contains the strings. -/
theorem contained_of_validate {r : OptionRecord} {d : Document}
    (h : r.validate d = .ok ()) : r.Contained := by
  unfold validate at h
  split at h
  · cases h
  next hname =>
    split at h
    · cases h
    next hlicense =>
      refine ⟨isIdentifier_of_nameFault? hname, fun hmem => ?_⟩
      have hpart := isLicensePart_of_licenseFault? hlicense _ hmem
      revert hpart
      decide

-- ======================================================= two of one shape

variable {r r' : OptionRecord}

/-- Strings of two records under one field. -/
def Corresponding (r r' : OptionRecord) (v w : String) : Prop :=
  ∃ field, r.text? field = some v ∧ r'.text? field = some w

/-- The licence is set before anything else is done. -/
theorem assemble_start (r : OptionRecord) :
    r.assemble { name := r.name }
      = r.assemble { name := r.name, license := r.common.license } := by
  cases r <;> rfl

/-- Records of one shape make matching contracts of their names and
licences. -/
theorem SameShape.matching (h : r.SameShape r') {c c' : Contract}
    (hc : r.assemble { name := r.name } = .ok () c)
    (hc' : r'.assemble { name := r'.name } = .ok () c') :
    Linked (Corresponding r r') ⟨r.name, r.common.license⟩
      ⟨r'.name, r'.common.license⟩ c c' := by
  have hrelates : Assembly.Relates
      (Linked (Corresponding r r') ⟨r.name, r.common.license⟩
        ⟨r'.name, r'.common.license⟩) r.assemble r'.assemble := by
    cases h with
    | @erc721 o p h =>
        exact Erc721.relates_assemble h ⟨.name, rfl, rfl⟩ ⟨.symbol, rfl, rfl⟩
          (fun uri uri' ho hp => ⟨.baseUri, ho, hp⟩) rfl rfl
    | @erc1155 o p h =>
        exact Erc1155.relates_assemble h ⟨.uri, rfl, rfl⟩ rfl rfl
  rw [assemble_start] at hc hc'
  refine hrelates _ _ c c' ⟨?_, ?_, ⟨rfl, rfl⟩, ⟨rfl, rfl⟩⟩ hc hc'
  · exact ⟨List.nodup_nil, List.nodup_nil,
      fun m hm => absurd hm List.not_mem_nil⟩
  · exact Contract.matches_start rfl rfl

/-- The contracts ahead of the main one hold no string of the record. -/
theorem SameShape.twins (h : r.SameShape r') :
    List.Forall₂ SourceFile.Twins r.auxiliaries r'.auxiliaries := by
  have hplain : ∀ (c c' : Contract) (line : String),
      c = { name := c.name, license := c.license, stateVariables := [line] } →
      c' = { name := c.name, license := c'.license,
             stateVariables := [line] } →
      VariableReads line → isIdentifier c.name = true →
        SourceFile.Twins c c' := by
    intro c c' line hc hc' hline hname
    have hstart : Contract.Matches (fun _ _ => False)
        { name := c.name, license := c.license }
        { name := c.name, license := c'.license } :=
      Contract.matches_start rfl rfl
    have hnext := (Step.Matches.declare hline).next hstart List.nodup_nil
    refine ⟨?_, ?_, hname⟩
    · rw [hc, hc']
      exact hnext
    · rw [hc']
  cases h with
  | @erc721 o p h =>
      show List.Forall₂ _ (Erc721.auxiliaries o) (Erc721.auxiliaries p)
      unfold Erc721.auxiliaries
      rw [← h.openSea]
      split
      · have hdelegate :
            isIdentifier "OwnableDelegateProxy" = true := by decide
        have hregistry : isIdentifier "ProxyRegistry" = true := by decide
        have hcomment : VariableReads
            "// Per-user proxy deployed through the OpenSea proxy registry." :=
          variableReads_of_comment rfl (by decide)
        have hmapping : VariableReads
            "mapping(address => OwnableDelegateProxy) public proxies;" :=
          variableReads_of_plain (by decide)
        exact .cons (hplain _ _ _ rfl rfl hcomment hdelegate)
          (.cons (hplain _ _ _ rfl rfl hmapping hregistry) .nil)
      · exact .nil
  | erc1155 h => exact .nil

-- ============================================================== the tokens

/-- The tokens of a record's source: the licence comment, what stands ahead
of the main contract, and the main contract from its name on. -/
def PrintsAs (versioned : Bool) (r : OptionRecord)
    (before after : List Token) : Prop :=
  ∃ text c, r.source versioned = .ok text
    ∧ r.assemble { name := r.name } = .ok () c
    ∧ tokens (Fragment.textOf 0 (SourceFile.blockOf c))
      = .word "contract".toList :: .word r.name.toList :: after
    ∧ tokens text
      = .comment (SourceFile.licenseComment r.common.license).toList :: before
        ++ .word "contract".toList :: .word r.name.toList :: after

/-- What a record is printed as is fixed by the record. -/
theorem PrintsAs.unique {versioned : Bool} {b b' a a' : List Token}
    (h : r.PrintsAs versioned b a) (h' : r.PrintsAs versioned b' a') :
    b = b' ∧ a = a' := by
  obtain ⟨text, c, htext, hc, hblock, htokens⟩ := h
  obtain ⟨text', c', htext', hc', hblock', htokens'⟩ := h'
  rw [htext] at htext'
  cases htext'
  rw [hc] at hc'
  cases hc'
  have hafter : a = a' := by
    rw [hblock] at hblock'
    simpa using hblock'
  rw [htokens, hafter] at htokens'
  exact ⟨by simpa using htokens', hafter⟩

/-- The auxiliary contracts have the license of the record. -/
theorem license_auxiliaries {c : Contract}
    (hc : c.license = r.common.license) :
    SourceFile.license (r.auxiliaries ++ [c]) = r.common.license := by
  cases r with
  | erc721 o =>
      show SourceFile.license (Erc721.auxiliaries o ++ [c]) = _
      unfold Erc721.auxiliaries
      split
      · rfl
      · exact hc
  | erc1155 o => exact hc

/-- What is done to import paths. -/
def pathTransform (versioned : Bool) : String → String :=
  if versioned then Package.pin Version.bundled else id

/-- Both ways to import keep paths free of what would end a quoted text. -/
theorem keepsQuotable_pathTransform (versioned : Bool) :
    SourceFile.KeepsQuotable (pathTransform versioned) := by
  intro path hpath
  cases versioned with
  | true => exact Package.quotable_pin hpath
  | false => exact hpath

/-- The source of a record is the file of its contracts,
once they are resolved. -/
theorem source_of_contracts (versioned : Bool) {cs : List Contract}
    (h : r.contracts = .ok cs) (hcs : ∀ c ∈ cs, c.Resolved) :
    r.source versioned = .ok (Fragment.textOf 0 (SourceFile.fragments
      (pathTransform versioned) cs (cs.map SourceFile.blockOf))) := by
  have hprint := SourceFile.print_of_resolved (pathTransform versioned) hcs
  unfold source
  rw [h]
  cases versioned with
  | true => exact hprint
  | false => exact hprint

/-- Records of one shape have the same tokens but for the licence, the name
and literals of corresponding strings; the first record's are those of its
fields in order. -/
theorem tokens_of_sameShape (versioned : Bool) (h : r.SameShape r')
    (hr : r.Contained) (hr' : r'.Contained) :
    ∃ before after after' ls, r.PrintsAs versioned before after
      ∧ r'.PrintsAs versioned before after'
      ∧ Aligned (Corresponding r r') ls after after'
      ∧ List.Forall₂ r.Spells r.textFields ls := by
  obtain ⟨c, hrun, hcontracts, hresolved⟩ := r.contracts_ok
  obtain ⟨c', hrun', hcontracts', hresolved'⟩ := r'.contracts_ok
  have hlinked := h.matching hrun hrun'
  have hname : c.name = r.name := hlinked.left.name
  have hname' : c'.name = r'.name := hlinked.right.name
  obtain ⟨ts, us, hts, hus, haligned⟩ := hlinked.matched.blockOf
    (by rw [hname]; exact hr.name) (by rw [hname']; exact hr'.name)
  have hspelled : List.Forall₂ r.Spells r.textFields c.literals := by
    rw [eq_replay_of_assemble hrun]
    exact r.literals_replay
  have hlicense := license_auxiliaries hlinked.left.license
  have hlicense' := license_auxiliaries hlinked.right.license
  obtain ⟨before, hfile, hfile'⟩ := SourceFile.reads_of_matching
    (keepsQuotable_pathTransform versioned) h.twins hlinked.matched
    (by rw [hlicense]; exact hr.license) (by rw [hlicense']; exact hr'.license)
    hts hus
  rw [hname] at hts hfile
  rw [hname'] at hus hfile'
  rw [hlicense] at hfile
  rw [hlicense'] at hfile'
  exact ⟨before, ts, us, c.literals,
    ⟨_, c, source_of_contracts versioned hcontracts hresolved, hrun,
      tokens_of_reads (hts 0), tokens_of_reads (hfile 0)⟩,
    ⟨_, c', source_of_contracts versioned hcontracts' hresolved', hrun',
      tokens_of_reads (hus 0), tokens_of_reads (hfile' 0)⟩,
    haligned, hspelled⟩

-- ============================================================== the slots

end OptionRecord

/-- A place in the tokens that the records of a shape print. -/
inductive Slot where
  /-- One token for all records. -/
  | fixed (token : Token)
  /-- A literal of each record's own string. -/
  | literal (field : TextField)

/-- The field whose string a slot holds. -/
def Slot.field? : Slot → Option TextField
  | .fixed _ => none
  | .literal field => some field

/-- A token fills a slot for a record. A literal is spelled from the record's
string, and reads as exactly this string, with nothing left over. -/
def Slot.FilledBy (r : OptionRecord) : Slot → Token → Prop
  | .fixed token, t => t = token
  | .literal field, t => ∃ s l, r.text? field = some s ∧ t = .literal l
      ∧ l = Literal.encode s.toList
      ∧ Literal.read l = some (s.toUTF8.data.toList, [])

/-- The tokens that stand in the slots for strings, in order. -/
def Slot.literalsIn (slots : List Slot) (ts : List Token) : List Token :=
  (slots.zip ts).filterMap fun p => p.1.field?.map fun _ => p.2

/-- They fill the slots of the fields one by one. -/
theorem Slot.forall₂_literalsIn {r : OptionRecord} {slots : List Slot}
    {ts : List Token} (h : List.Forall₂ (Slot.FilledBy r) slots ts) :
    List.Forall₂ (fun field t => (Slot.literal field).FilledBy r t)
      (slots.filterMap Slot.field?) (literalsIn slots ts) := by
  induction h with
  | nil => exact .nil
  | @cons slot t slots ts hslot _ ih =>
      cases slot with
      | fixed token => exact ih
      | literal field => exact .cons hslot ih

namespace OptionRecord

variable {p q r : OptionRecord}

/-- The slot of a field takes the literal of the field's string. -/
theorem filledBy_literal {field : TextField} {s : String}
    (h : r.text? field = some s) :
    (Slot.literal field).FilledBy r (.literal (Literal.encode s.toList)) := by
  have hread := Literal.read_encode_toUTF8 s []
  rw [List.append_nil] at hread
  exact ⟨s, _, h, rfl, rfl, hread⟩

/-- Two records whose strings are all different, each from the other's and
from one another. -/
structure Apart (p q : OptionRecord) : Prop where
  left : ∀ f g v, p.text? f = some v → p.text? g = some v → f = g
  right : ∀ f g v, q.text? f = some v → q.text? g = some v → f = g
  across : ∀ f g v, p.text? f = some v → q.text? g ≠ some v

/-- A literal of the first record stands for one field. -/
theorem Apart.leftUnique_spells (h : p.Apart q) :
    Relator.LeftUnique p.Spells := by
  rintro f g l ⟨s, hs, rfl⟩ ⟨t, ht, hst⟩
  rw [← Literal.encode_inj hst] at ht
  exact h.left f g s hs ht

/-- Where two records have one token, no third one has another. -/
theorem Apart.filledBy_same (h : p.Apart q) {t v : Token}
    (hp : t.Matches (Corresponding p r) v)
    (hq : t.Matches (Corresponding q r) v) : (Slot.fixed t).FilledBy r v := by
  rcases hp with htv | ⟨x, w, ⟨g, hx, -⟩, ht, -⟩
  · exact htv.symm
  rcases hq with htv | ⟨y, w', ⟨g', hy, -⟩, ht', -⟩
  · exact htv.symm
  -- no token is a literal of strings of both
  rw [ht] at ht'
  injection ht' with hxy
  rw [← Literal.encode_inj hxy] at hy
  exact absurd hy (h.across g g' x hx)

/-- Where two records have literals for a field, a third one has its own. -/
theorem Apart.filledBy_own (h : p.Apart q) {f : TextField} {s s' : String}
    {v : Token} (hs : p.text? f = some s) (hs' : q.text? f = some s')
    (hp : Token.Matches (Corresponding p r)
      (.literal (Literal.encode s.toList)) v)
    (hq : Token.Matches (Corresponding q r)
      (.literal (Literal.encode s'.toList)) v) :
    (Slot.literal f).FilledBy r v := by
  rcases hp with rfl | ⟨x, w, ⟨g, hx, hw⟩, hsx, rfl⟩
  · rcases hq with huv | ⟨y, w', ⟨g', hy, hw'⟩, hsy, hv⟩
    · injection huv with hss
      rw [Literal.encode_inj hss] at hs'
      exact absurd hs' (h.across f f s hs)
    · injection hsy with hsy
      rw [← Literal.encode_inj hsy] at hy
      rw [h.right g' f s' hy hs'] at hw'
      rw [hv]
      exact filledBy_literal hw'
  · injection hsx with hsx
    rw [← Literal.encode_inj hsx] at hx
    rw [h.left g f s hx hs] at hw
    exact filledBy_literal hw

/-- The slots that are read off two records hold what any third one prints,
and their fields are those of the first record's literals. -/
theorem Apart.exists_slots (h : p.Apart q) {ls : List (List Char)}
    {ts us : List Token} (htu : Aligned (Corresponding p q) ls ts us) :
    ∃ slots : List Slot,
      List.Forall₂ p.Spells (slots.filterMap Slot.field?) ls
        ∧ ∀ (r : OptionRecord) (vs : List Token),
          List.Forall₂ (Token.Matches (Corresponding p r)) ts vs →
          List.Forall₂ (Token.Matches (Corresponding q r)) us vs →
          List.Forall₂ (Slot.FilledBy r) slots vs := by
  induction htu with
  | nil =>
      refine ⟨[], .nil, fun r vs hp hq => ?_⟩
      cases hp
      exact .nil
  | same t _ ih =>
      obtain ⟨slots, hfields, hslots⟩ := ih
      refine ⟨.fixed t :: slots, hfields, fun r vs hp hq => ?_⟩
      cases hp with
      | cons hv hvs =>
          cases hq with
          | cons hv' hvs' =>
              exact .cons (h.filledBy_same hv hv') (hslots r _ hvs hvs')
  | literal hvw _ ih =>
      obtain ⟨f, hs, hs'⟩ := hvw
      obtain ⟨slots, hfields, hslots⟩ := ih
      refine ⟨.literal f :: slots, .cons ⟨_, hs, rfl⟩ hfields,
        fun r vs hp hq => ?_⟩
      cases hp with
      | cons hv hvs =>
          cases hq with
          | cons hv' hvs' =>
              exact .cons (h.filledBy_own hs hs' hv hv') (hslots r _ hvs hvs')

-- ======================================================== the main result

/-- The record with other strings; a base URI that is not set stays so. -/
def withTexts (texts : TextField → String) : OptionRecord → OptionRecord
  | .erc721 o => .erc721 { o with
      name := texts .name
      symbol := texts .symbol
      baseUri? := if o.hasBaseUri then some (texts .baseUri) else none
      common := { o.common with license := "MIT" } }
  | .erc1155 o => .erc1155 { o with
      name := texts .name
      uri := texts .uri
      common := { o.common with license := "MIT" } }

variable {texts texts' : TextField → String}

/-- The name of a record with other texts is the text for the name. -/
theorem name_withTexts (shape : OptionRecord) :
    (shape.withTexts texts).name = texts .name := by
  cases shape <;> rfl

/-- A record with other texts has the license that is usual. -/
theorem license_withTexts (shape : OptionRecord) :
    (shape.withTexts texts).common.license = "MIT" := by
  cases shape <;> rfl

/-- The text of a field in a record with other texts is the one for it. -/
theorem eq_of_text?_withTexts {shape : OptionRecord} {field : TextField}
    {v : String} (h : (shape.withTexts texts).text? field = some v) :
    texts field = v := by
  cases shape with
  | erc721 o =>
      cases field with
      | name => injection h
      | symbol => injection h
      | baseUri =>
          change (if o.hasBaseUri then some (texts .baseUri) else none)
            = some v at h
          split at h
          · injection h
          · cases h
      | uri => cases h
  | erc1155 o =>
      cases field with
      | uri => injection h
      | name => cases h
      | symbol => cases h
      | baseUri => cases h

/-- Other texts do not change the shape, as long as the one for the
base URI is not empty. -/
theorem sameShape_withTexts (htexts : (texts .baseUri).isEmpty = false)
    {shape : OptionRecord} (h : shape.SameShape r) :
    (shape.withTexts texts).SameShape r := by
  cases h with
  | @erc721 o p h =>
      refine .erc721 { h with hasBaseUri := ?_ }
      rw [← h.hasBaseUri]
      show (if o.hasBaseUri then some (texts .baseUri) else none).any
        (fun uri => !uri.isEmpty) = o.hasBaseUri
      cases o.hasBaseUri with
      | true => simp [htexts]
      | false => rfl
  | @erc1155 o p h => exact .erc1155 { h with }

/-- Nor do they change which fields are printed. -/
theorem textFields_withTexts (htexts : (texts .baseUri).isEmpty = false)
    (shape : OptionRecord) :
    (shape.withTexts texts).textFields = shape.textFields := by
  cases shape with
  | erc721 o =>
      have huri : ((if o.hasBaseUri then some (texts .baseUri) else none).any
          fun uri => !uri.isEmpty) = o.hasBaseUri := by
        cases o.hasBaseUri with
        | true => simp [htexts]
        | false => rfl
      exact congrArg (fun b => [TextField.name, .symbol]
        ++ onlyIf b [.baseUri]) huri
  | erc1155 o => rfl

theorem SameShape.refl (r : OptionRecord) : r.SameShape r := by
  cases r with
  | erc721 o =>
      exact .erc721 ⟨rfl, rfl, rfl, rfl, rfl, rfl, rfl, rfl, rfl, rfl⟩
  | erc1155 o => exact .erc1155 ⟨rfl, rfl, rfl, rfl, rfl, rfl, rfl⟩

theorem SameShape.symm {r r' : OptionRecord} (h : r.SameShape r') :
    r'.SameShape r := by
  cases h with
  | erc721 h =>
      exact .erc721 ⟨h.enumerable.symm, h.uriStorage.symm, h.burnable.symm,
        h.pausable.symm, h.mintable.symm, h.incremental.symm, h.openSea.symm,
        h.access.symm, h.proxy?.symm, h.hasBaseUri.symm⟩
  | erc1155 h =>
      exact .erc1155 ⟨h.burnable.symm, h.pausable.symm, h.mintable.symm,
        h.supply.symm, h.updatableUri.symm, h.access.symm, h.proxy?.symm⟩

/-- One string for each field. -/
def oneLetter : TextField → String
  | .name => "A"
  | .symbol => "B"
  | .baseUri => "C"
  | .uri => "D"

/-- One string for each field, and none of the others. -/
def otherLetter : TextField → String
  | .name => "E"
  | .symbol => "F"
  | .baseUri => "G"
  | .uri => "H"

/-- Records with different letters for their texts have no text in common, and
neither has one twice. -/
theorem apart_letters (shape : OptionRecord) :
    (shape.withTexts oneLetter).Apart (shape.withTexts otherLetter) := by
  have hone : ∀ f g, oneLetter f = oneLetter g → f = g := by
    rintro (_ | _ | _ | _) (_ | _ | _ | _) <;> decide
  have hother : ∀ f g, otherLetter f = otherLetter g → f = g := by
    rintro (_ | _ | _ | _) (_ | _ | _ | _) <;> decide
  have hacross : ∀ f g, oneLetter f ≠ otherLetter g := by
    rintro (_ | _ | _ | _) (_ | _ | _ | _) <;> decide
  refine ⟨fun f g v hf hg => hone f g ?_, fun f g v hf hg => hother f g ?_,
    fun f g v hf hg => hacross f g ?_⟩ <;>
    · rw [eq_of_text?_withTexts hf, eq_of_text?_withTexts hg]

/-- A record with other texts is contained if the text for its
name is an identifier. -/
theorem contained_withTexts (shape : OptionRecord)
    (htexts : isIdentifier (texts .name) = true) :
    (shape.withTexts texts).Contained := by
  refine ⟨?_, ?_⟩
  · rw [name_withTexts]
    exact htexts
  · rw [license_withTexts]
    decide

/-- No injection. What the valid records of a shape print has the same tokens,
one by one, but for the licence comment, the word that names the main
contract, and one literal for each of the record's strings: the name, the
symbol and, if it is set, the base URI of a non-fungible token, or the URI of a
multi token, in this order. Each such literal reads as exactly the record's own
string. In particular the records have equally many tokens. -/
theorem source_fills_slots (versioned : Bool) (shape : OptionRecord) :
    ∃ before slots, slots.filterMap Slot.field? = shape.textFields
      ∧ ∀ (r : OptionRecord) (d : Document),
        r.validate d = .ok () → shape.SameShape r →
        ∃ after, r.PrintsAs versioned before after
          ∧ List.Forall₂ (Slot.FilledBy r) slots after := by
  have hone : (shape.withTexts oneLetter).Contained :=
    contained_withTexts shape (by decide)
  have hother : (shape.withTexts otherLetter).Contained :=
    contained_withTexts shape (by decide)
  have hletters : (shape.withTexts oneLetter).SameShape
      (shape.withTexts otherLetter) :=
    sameShape_withTexts (by decide)
      (sameShape_withTexts (by decide) (.refl shape)).symm
  have hapart := apart_letters shape
  obtain ⟨before, ts, us, ls, hts, hus, htu, hspelled⟩ :=
    tokens_of_sameShape versioned hletters hone hother
  obtain ⟨slots, hfields, hslots⟩ := hapart.exists_slots htu
  have hshown : slots.filterMap Slot.field? = shape.textFields := by
    rw [List.left_unique_forall₂' hapart.leftUnique_spells hfields hspelled]
    exact textFields_withTexts (by decide) shape
  refine ⟨before, slots, hshown, fun r d hvalid hshape => ?_⟩
  have hr := contained_of_validate hvalid
  obtain ⟨b, ts', vs, _, hts', hvs, htv, -⟩ := tokens_of_sameShape versioned
    (sameShape_withTexts (by decide) hshape) hone hr
  obtain ⟨b', us', vs', _, hus', hvs', huv, -⟩ := tokens_of_sameShape versioned
    (sameShape_withTexts (by decide) hshape) hother hr
  -- the three records print the same in every comparison
  obtain ⟨rfl, rfl⟩ := hts.unique hts'
  obtain ⟨-, rfl⟩ := hus.unique hus'
  obtain ⟨-, rfl⟩ := hvs.unique hvs'
  exact ⟨vs, hvs, hslots r vs htv.matched huv.matched⟩

/-- A record with strings that mean no harm. -/
def plainRecord : OptionRecord :=
  .erc721 {
    name := "Token"
    symbol := "TKN"
    baseUri? := some "https://token.example/" }

/-- The same record with strings that try to leave their literals. -/
def hostileRecord : OptionRecord :=
  .erc721 {
    name := "Other"
    symbol := "\") \x7b selfdestruct(msg.sender); \x7d //"
    baseUri? := some "\\\"; \u2028\n//"
    common := { license := "Apache-2.0" } }

/-- The two records print the same tokens around their strings, and each
hostile string is held by one literal. -/
theorem slots_of_hostileRecord :
    plainRecord.validate ⟨"", ""⟩ = .ok ()
      ∧ hostileRecord.validate ⟨"", ""⟩ = .ok ()
      ∧ ∃ before slots after after',
        plainRecord.PrintsAs false before after
          ∧ List.Forall₂ (Slot.FilledBy plainRecord) slots after
          ∧ hostileRecord.PrintsAs false before after'
          ∧ List.Forall₂ (Slot.FilledBy hostileRecord) slots after'
          ∧ slots.filterMap Slot.field? = [.name, .symbol, .baseUri]
          ∧ Slot.literalsIn slots after' = [.literal "\"Other\"".toList,
              .literal
                "\"\\\") \x7b selfdestruct(msg.sender); \x7d //\"".toList,
              .literal "unicode\"\\\\\\\"; \\u2028\\n//\"".toList] := by
  have hplain : plainRecord.validate ⟨"", ""⟩ = .ok () := rfl
  have hhostile : hostileRecord.validate ⟨"", ""⟩ = .ok () := rfl
  have hshape : plainRecord.SameShape hostileRecord :=
    .erc721 ⟨rfl, rfl, rfl, rfl, rfl, rfl, rfl, rfl, rfl, rfl⟩
  obtain ⟨before, slots, hfields, hall⟩ := source_fills_slots false plainRecord
  obtain ⟨after, hprints, hfilled⟩ := hall _ _ hplain (.refl plainRecord)
  obtain ⟨after', hprints', hfilled'⟩ := hall _ _ hhostile hshape
  have hliterals := Slot.forall₂_literalsIn hfilled'
  have hnamed : slots.filterMap Slot.field? = [.name, .symbol, .baseUri] :=
    hfields
  rw [hnamed] at hliterals
  refine ⟨hplain, hhostile, before, slots, after, after', hprints, hfilled,
    hprints', hfilled', hnamed, ?_⟩
  generalize Slot.literalsIn slots after' = ts at hliterals
  rcases hliterals with _ | ⟨⟨_, _, hname, rfl, rfl, -⟩, hrest⟩
  rcases hrest with _ | ⟨⟨_, _, hsymbol, rfl, rfl, -⟩, hrest⟩
  rcases hrest with _ | ⟨⟨_, _, huri, rfl, rfl, -⟩, hrest⟩
  cases hrest
  cases hname
  cases hsymbol
  cases huri
  decide

end OptionRecord

end TokenForge
