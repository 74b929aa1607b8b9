/-
Contracts that match: the same contract up to its name, its licence, the
strings passed to its bases and the strings its bodies return. Everything
they share is plain, so it opens no literal and no comment when printed;
what differs is printed as literals. Matching contracts therefore print the
same tokens up to these literals (`Contract.Matches.body`), even where a
longer literal pushes a heading into its other layout.

The relation is taken apart along the data: values, bases, lines, bodies,
functions, contracts. Each step that matches another keeps it
(`Step.Matches.next`).
-/
import TokenForge.Proofs.Contract.Exchange
import TokenForge.Proofs.Package.Upgradeable
import TokenForge.Proofs.Source.Tokens
import TokenForge.Source.File

namespace TokenForge

open Solidity

-- ========================================================== plain names

/-- A plain name is printed as a plain one. -/
theorem Contract.plain_shownName (c : Contract) {name : String}
    (h : Plain name) : Plain (c.shownName name) := by
  have hsuffix : Plain Package.suffix := by decide
  unfold shownName
  split
  · exact fun x hx => (Package.mem_upgradeableName hx).elim (h x) (hsuffix x)
  · exact h

/-- A plain line is plain after its type is renamed. -/
theorem Package.plain_upgradeableVariable {line : String} (h : Plain line) :
    Plain (Package.upgradeableVariable line) := by
  have hsuffix : Plain Package.suffix := by decide
  exact fun x hx => (Package.mem_upgradeableVariable hx).elim (h x) (hsuffix x)

/-- A declaration that does not start with a capital letter is the same in
both packages. -/
theorem Package.upgradeableVariable_eq {line : String}
    (h : line.toList.head?.any Char.isUpper = false) :
    Package.upgradeableVariable line = line := by
  have hword :
      (line.toList.takeWhile Package.isWordPart).head?.any Char.isUpper
      = false := by
    cases hline : line.toList with
    | nil => rfl
    | cons c rest =>
        rw [hline] at h
        rw [List.takeWhile_cons]
        split
        · exact h
        · rfl
  unfold Package.upgradeableVariable Package.isQualified
  dsimp only
  rw [hword]
  rfl

-- ========================================================= the relations

section Relations

variable (A : String → String → Prop)

/-- Arguments of bases that match: corresponding strings. -/
inductive Value.Matches : Value → Value → Prop
  | text {v w : String} (h : A v w) : Value.Matches (.text v) (.text w)

/-- A path that can stand between quotes. -/
def Quotable (path : String) : Prop := ∀ c ∈ path.toList, isInner c = true

instance (path : String) : Decidable (Quotable path) :=
  decidable_of_iff (path.toList.all isInner = true) List.all_eq_true

/-- Bases that match: the same plain name and path, matching arguments. -/
structure Base.Matches (b b' : Base) : Prop where
  dependency : b.dependency = b'.dependency
  plain : Plain b.name
  path : Quotable b.dependency.path
  args : List.Forall₂ (Value.Matches A) b.args b'.args

/-- Lines of bodies that match: the same plain line, or returned literals of
corresponding strings. -/
inductive LineMatches : String → String → Prop
  | plain {s : String} (h : Plain s) : LineMatches s s
  | returned {v w : String} (h : A v w) :
      LineMatches ("return " ++ Literal.ofString v ++ ";")
        ("return " ++ Literal.ofString w ++ ";")

/-- Bodies that match: begun in the same way, with matching lines. -/
inductive Body.Matches : Body → Body → Prop
  | untouched : Body.Matches .untouched .untouched
  | grown {ls ls' : List String} (h : List.Forall₂ (LineMatches A) ls ls') :
      Body.Matches (.grown ls) (.grown ls')
  | replaced {ls ls' : List String} (h : List.Forall₂ (LineMatches A) ls ls') :
      Body.Matches (.replaced ls) (.replaced ls')

/-- A declaration all of whose texts are plain, without documentation. -/
structure Declaration.PlainTexts (d : Declaration) : Prop where
  name : Plain d.name
  args : ∀ a ∈ d.args, Plain a.name ∧ Plain a.type
  returns : ∀ r ∈ d.returns, Plain r
  doc : d.doc? = none

/-- Functions that match: the same up to matching bodies. -/
structure Method.Matches (m m' : Method) : Prop where
  decl : m.decl = m'.decl
  decl_plain : m.decl.PlainTexts
  ancestors : m.ancestors = m'.ancestors
  modifiers : m.modifiers = m'.modifiers
  modifiers_plain : ∀ s ∈ m.modifiers, Plain s
  body : Body.Matches A m.body m'.body

/-- A declaration line that is complete at the end of its line, in a plain
contract and in an upgradeable one. -/
def VariableReads (line : String) : Prop :=
  (∃ ts, ReadsText (line ++ "\n") ts)
    ∧ ∃ ts, ReadsText (Package.upgradeableVariable line ++ "\n") ts

/-- An attachment whose texts are plain. -/
structure Attachment.PlainTexts (a : Attachment) : Prop where
  name : Plain a.library.name
  path : Quotable a.library.path
  type : Plain a.type

/-- An argument whose texts are plain. -/
structure Argument.PlainTexts (a : Argument) : Prop where
  name : Plain a.name
  type : Plain a.type

/-- Contracts that match, whatever their names and licences. -/
structure Contract.Matches (c c' : Contract) : Prop where
  upgradeable : c.upgradeable = c'.upgradeable
  bases : List.Forall₂ (Base.Matches A) c.bases c'.bases
  methods : List.Forall₂ (Method.Matches A) c.methods c'.methods
  stateVariables : c.stateVariables = c'.stateVariables
  stateVariables_read : ∀ line ∈ c.stateVariables, VariableReads line
  attachments : c.attachments = c'.attachments
  attachments_plain : ∀ a ∈ c.attachments, a.PlainTexts
  constructorArgs : c.constructorArgs = c'.constructorArgs
  constructorArgs_plain : ∀ a ∈ c.constructorArgs, a.PlainTexts
  constructorCode : c.constructorCode = c'.constructorCode
  constructorCode_plain : ∀ line ∈ c.constructorCode, Plain line

end Relations

variable {A : String → String → Prop}

/-- A plain declaration is complete at the end of its line. -/
theorem variableReads_of_plain {line : String} (h : Plain line) :
    VariableReads line := by
  have hline : ∀ {s : String}, Plain s → ∃ ts, ReadsText (s ++ "\n") ts := by
    intro s hs
    obtain ⟨ts, hts⟩ := hs.settles
    refine ⟨ts, ?_⟩
    unfold ReadsText
    rw [String.toList_append]
    exact hts '\n' (by decide)
  exact ⟨hline h, hline (Package.plain_upgradeableVariable h)⟩

/-- A comment among the declarations is complete at the end of its line. -/
theorem variableReads_of_comment {line : String} {text : List Char}
    (hline : line.toList = '/' :: '/' :: text) (htext : '\n' ∉ text) :
    VariableReads line := by
  have hread : ReadsText (line ++ "\n") [.comment ('/' :: '/' :: text)] := by
    unfold ReadsText
    rw [String.toList_append, hline]
    exact reads_comment htext
  have hsame : Package.upgradeableVariable line = line := by
    apply Package.upgradeableVariable_eq
    rw [hline]
    rfl
  refine ⟨⟨_, hread⟩, ?_⟩
  rw [hsame]
  exact ⟨_, hread⟩

-- ================================================================ steps

/-- Edits of bodies that match, by matching lines or a plain one, keep bodies
matched. -/
theorem Body.Matches.append? {b b' : Body} (h : b.Matches A b') {line : String}
    (hline : Plain line) :
    ((b.append? line).getD b).Matches A ((b'.append? line).getD b') := by
  cases h with
  | untouched => exact .grown (.cons (.plain hline) .nil)
  | grown h => exact .grown (List.rel_append h (.cons (.plain hline) .nil))
  | replaced h => exact .replaced h

/-- Bodies that match take or refuse a replacement together. -/
theorem Body.Matches.replace? {b b' : Body} (h : b.Matches A b')
    {ls ls' : List String} (hls : List.Forall₂ (LineMatches A) ls ls') :
    ((b.replace? ls).getD b).Matches A ((b'.replace? ls').getD b') := by
  cases h with
  | untouched => exact .replaced hls
  | grown h => exact .grown h
  | replaced h => exact .replaced hls

/-- Steps that match: the same step with plain texts, or steps that add
matching bases or set bodies of matching lines. -/
inductive Step.Matches (A : String → String → Prop) : Step → Step → Prop
  | upgradeable : Step.Matches A .upgradeable .upgradeable
  | base {b b' : Base} (h : b.Matches A b') :
      Step.Matches A (.base b) (.base b')
  | attachment {a : Attachment} (h : a.PlainTexts) :
      Step.Matches A (.attachment a) (.attachment a)
  | ancestor {name : String} {d : Declaration} (hd : d.PlainTexts) :
      Step.Matches A (.ancestor name d) (.ancestor name d)
  | modifier {text : String} {d : Declaration} (ht : Plain text)
      (hd : d.PlainTexts) :
          Step.Matches A (.modifier text d) (.modifier text d)
  | line {text : String} {d : Declaration} (ht : Plain text)
      (hd : d.PlainTexts) : Step.Matches A (.line text d) (.line text d)
  | body {ls ls' : List String} {d : Declaration}
      (hls : List.Forall₂ (LineMatches A) ls ls') (hd : d.PlainTexts) :
      Step.Matches A (.body ls d) (.body ls' d)
  | declare {text : String} (h : VariableReads text) :
      Step.Matches A (.declare text) (.declare text)
  | constructorArg {a : Argument} (h : a.PlainTexts) :
      Step.Matches A (.constructorArg a) (.constructorArg a)
  | constructorLine {text : String} (h : Plain text) :
      Step.Matches A (.constructorLine text) (.constructorLine text)

theorem Method.Matches.signature {m m' : Method} (h : m.Matches A m') :
    m.signature = m'.signature :=
  congrArg Declaration.signature h.decl

theorem Method.matches_fresh {d : Declaration} (hd : d.PlainTexts) :
    (Method.fresh d).Matches A (.fresh d) :=
  ⟨rfl, hd, rfl, rfl, fun _ hs => absurd hs List.not_mem_nil, .untouched⟩

/-- Contracts that match have the same bases by name. -/
theorem Contract.Matches.baseNames {c c' : Contract} (h : c.Matches A c') :
    c.baseNames = c'.baseNames := by
  unfold Contract.baseNames
  rw [← List.forall₂_eq_eq_eq, List.forall₂_map_left_iff,
    List.forall₂_map_right_iff]
  exact h.bases.imp fun _ _ hb => congrArg Dependency.name hb.dependency

theorem mem_append_singleton {α : Type} {P : α → Prop} {l : List α} {x : α}
    (hl : ∀ y ∈ l, P y) (hx : P x) : ∀ y ∈ l ++ [x], P y := by
  intro y hy
  rcases List.mem_append.1 hy with hy | hy
  · exact hl y hy
  · rw [List.mem_singleton.1 hy]
    exact hx

/-- Edits that keep functions matched, in matching contracts. -/
theorem Contract.Matches.edited {c c' : Contract} (h : c.Matches A c')
    (hc : c.signatures.Nodup) {s s' : Step} {d : Declaration}
    {f g : MethodEdit} (hs : s.edit? = some (d, f))
    (hs' : s'.edit? = some (d, g)) (hd : d.PlainTexts)
    (hfg : ∀ m m' : Method, m.Matches A m' →
      (f.result m).Matches A (g.result m')) :
    (s.next c).Matches A (s'.next c') := by
  have hmethods := rel_edited h.methods hc (fun _ _ hm => hm.signature)
    (Step.signature_result hs) (Step.signature_result hs') hfg
    (Method.matches_fresh hd)
  rw [(Step.next_of_edit hs c).1, (Step.next_of_edit hs' c').1,
    edited_eq c d f, edited_eq c' d g]
  exact { h with methods := hmethods }

/-- Matching steps keep contracts matched. -/
theorem Step.Matches.next {s s' : Step} (hs : s.Matches A s') {c c' : Contract}
    (h : c.Matches A c') (hc : c.signatures.Nodup) :
    (s.next c).Matches A (s'.next c') := by
  cases hs with
  | upgradeable => exact { h with upgradeable := rfl }
  | @base b b' hb =>
      rw [next_base, next_base, ← h.baseNames,
        show b'.name = b.name from congrArg Dependency.name hb.dependency.symm]
      split
      · exact h
      · exact { h with bases := List.rel_append h.bases (.cons hb .nil) }
  | @attachment a ha =>
      exact { h with
        attachments := congrArg (· ++ [a]) h.attachments
        attachments_plain := mem_append_singleton h.attachments_plain ha }
  | @ancestor name d hd =>
      refine h.edited hc rfl rfl hd fun m m' hm => ?_
      show (m.addAncestor name).Matches A (m'.addAncestor name)
      rw [Method.addAncestor_eq, Method.addAncestor_eq, ← hm.ancestors]
      exact { hm with ancestors := rfl }
  | @modifier text d ht hd =>
      refine h.edited hc rfl rfl hd fun m m' hm => ?_
      exact { hm with
        modifiers := congrArg (· ++ [text]) hm.modifiers
        modifiers_plain := mem_append_singleton hm.modifiers_plain ht }
  | @line text d ht hd =>
      refine h.edited hc rfl rfl hd fun m m' hm => ?_
      rw [MethodEdit.result_onBody, MethodEdit.result_onBody]
      exact { hm with body := hm.body.append? ht }
  | @body ls ls' d hls hd =>
      refine h.edited hc rfl rfl hd fun m m' hm => ?_
      rw [MethodEdit.result_onBody, MethodEdit.result_onBody]
      exact { hm with body := hm.body.replace? hls }
  | @declare text ht =>
      exact { h with
        stateVariables := congrArg (· ++ [text]) h.stateVariables
        stateVariables_read := mem_append_singleton h.stateVariables_read ht }
  | @constructorArg a ha =>
      exact { h with
        constructorArgs := congrArg (· ++ [a]) h.constructorArgs
        constructorArgs_plain :=
          mem_append_singleton h.constructorArgs_plain ha }
  | @constructorLine text ht =>
      exact { h with
        constructorCode := congrArg (· ++ [text]) h.constructorCode
        constructorCode_plain :=
          mem_append_singleton h.constructorCode_plain ht }

/-- Matching steps leave the licences. -/
theorem Step.Matches.license_next {s s' : Step} (h : s.Matches A s')
    (c c' : Contract) :
    (s.next c).license = c.license ∧ (s'.next c').license = c'.license := by
  have hs : ∀ l, s ≠ .license l := by
    rintro l rfl
    cases h
  have hs' : ∀ l, s' ≠ .license l := by
    rintro l rfl
    cases h
  exact ⟨Step.license_next hs c, Step.license_next hs' c'⟩

/-- Contracts to which nothing was done match. -/
theorem Contract.matches_start {c c' : Contract}
    (h : c = { name := c.name, license := c.license })
    (h' : c' = { name := c'.name, license := c'.license }) :
    c.Matches A c' := by
  rw [h, h']
  exact {
    upgradeable := rfl
    bases := .nil
    methods := .nil
    stateVariables := rfl
    stateVariables_read := fun _ hx => absurd hx List.not_mem_nil
    attachments := rfl
    attachments_plain := fun _ hx => absurd hx List.not_mem_nil
    constructorArgs := rfl
    constructorArgs_plain := fun _ hx => absurd hx List.not_mem_nil
    constructorCode := rfl
    constructorCode_plain := fun _ hx => absurd hx List.not_mem_nil }

end TokenForge
