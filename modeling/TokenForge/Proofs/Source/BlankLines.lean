/-
Where a printed file has blank lines. If every text of the contracts fills a
line, and so does every path that the transformation makes of such a one, the
file is a well-spaced layout in the sense of `Fragment.Spaced`: each section of
a contract is one or is empty, and the sections are joined where both sides
have something in them.

The lines of the file therefore start and end with one that shows something,
blank lines stand alone between two such lines and are empty, and the text ends
with one line feed (`blank_lines_apart`). The lines that open a contract or a
function and those that close it have no blank line on their inner side.
-/
import TokenForge.Proofs.Source.Imports
import TokenForge.Proofs.Source.Print
import TokenForge.Proofs.Source.Texts

namespace TokenForge

open Fragment (Spaced SpacedIfAny linesOf indentation)

-- ================================================================ functions

namespace Callable

/-- A function whose words and lines fill lines. -/
structure FillsLines (f : Callable) : Prop where
  title : FillsLine f.title
  args : ∀ a ∈ f.args, OneLine a
  modifiers : FillLines f.modifiers
  body : SpacedIfAny f.body

variable {f : Callable}

/-- A signature shows at least its parentheses. -/
theorem visible_signature (f : Callable) : Visible f.signature :=
  Visible.append_right (by decide) _

theorem fillsLine_braces (f : Callable) : FillsLine f.braces := by
  unfold braces
  split
  · decide
  · decide

theorem FillsLines.signature (h : f.FillsLines) : FillsLine f.signature := by
  have hargs : OneLine (", ".intercalate f.args) :=
    .intercalate (by decide) h.args
  exact ((h.title.append (by decide)).append hargs).append (by decide)

theorem visible_headingParts (f : Callable) :
    Visible (" ".intercalate f.headingParts) := by
  have hmem : f.signature ∈ f.headingParts :=
    List.mem_append_left _ (List.mem_cons_self ..)
  have hoccurs : Occurs f.signature (" ".intercalate f.headingParts) :=
    occurs_intercalate hmem
  obtain ⟨before, after, hsplit⟩ := hoccurs
  rw [hsplit]
  exact (f.visible_signature.append_right before).append_left after

/-- The words of a heading on one line. -/
theorem FillsLines.headingParts (h : f.FillsLines) :
    FillsLine (" ".intercalate f.headingParts) where
  oneLine := by
    refine .intercalate (by decide) fun word hword => ?_
    rcases List.mem_cons.1 hword with rfl | hword
    · exact h.signature.oneLine
    · rcases List.mem_append.1 hword with hword | hword
      · exact (h.modifiers word hword).oneLine
      · rw [List.mem_singleton.1 hword]
        exact f.fillsLine_braces.oneLine
  visible := f.visible_headingParts

/-- A heading is well spaced in either layout. -/
theorem FillsLines.heading (h : f.FillsLines) : Spaced f.heading := by
  unfold Callable.heading
  split
  · exact .line h.headingParts
  · have hwords : SpacedIfAny (f.modifiers.map .line) :=
      Fragment.spaced_lines (fun word => word) h.modifiers
    exact Spaced.around_ifAny (.line h.signature) hwords
      (.line f.fillsLine_braces)

/-- A function whose texts fill lines is well spaced. -/
theorem FillsLines.fragments (h : f.FillsLines) : Spaced f.fragments := by
  have hclosing : Spaced [.line "\x7d"] := .line (by decide)
  unfold Callable.fragments closing
  split
  · rw [List.append_nil]
    exact h.heading
  · exact h.heading.around_ifAny h.body hclosing

/-- The last line of a heading shows something, whatever the words are. -/
theorem visible_heading (f : Callable) (level : Nat) :
    ∃ l ∈ (linesOf level f.heading).getLast?, Visible l := by
  unfold heading
  split
  · exact ⟨_, rfl, f.visible_headingParts.append_right _⟩
  · refine ⟨indentation level ++ f.braces, ?_,
      f.fillsLine_braces.visible.append_right _⟩
    have hlines : linesOf level
        [.line f.signature, .block (f.modifiers.map .line), .line f.braces]
        = linesOf level [.line f.signature, .block (f.modifiers.map .line)]
          ++ [indentation level ++ f.braces] :=
      Fragment.linesOf_append level [_, _] [.line f.braces]
    rw [hlines]
    exact List.getLast?_concat

/-- Where a function with a body is laid out, its heading and its
brace enclose the body. -/
theorem encloses {fs : List Fragment} (level : Nat) (hbody : f.body ≠ [])
    (hfs : SpacedIfAny fs) (h : f.fragments <:+: fs) :
    Encloses (linesOf level fs) (linesOf level f.heading)
      (linesOf (level + 1) f.body)
      (indentation level ++ "\x7d") := by
  have hclosing : f.closing = [.block f.body, .line "\x7d"] :=
    if_neg (by simpa using hbody)
  unfold fragments at h
  rw [hclosing] at h
  have hblock : .block f.body ∈ fs :=
    h.subset (List.mem_append_right _ (List.mem_cons_self ..))
  have hinner : SpacedIfAny f.body := by
    rcases hfs with rfl | hfs
    · cases hblock
    · exact hfs.of_block hblock
  exact Fragment.encloses_block (f.visible_heading level) hinner (by decide) h

end Callable

namespace Method

variable {c : Contract} {m : Method} {mark : OverrideMark}

/-- The words after the arguments, in a contract with a mark of the
function's own ancestors. -/
theorem fillLines_headingWords (h : FillLines m.texts)
    (hmark : ∀ names, mark = .several names → FillLines names) :
    FillLines (headingWords c m mark) := by
  obtain ⟨hdecl, -, hmodifiers, -⟩ := fillLines_iff.1 h
  obtain ⟨-, -, hreturns, -⟩ := Declaration.fillLines_iff.1 hdecl
  have hvisibility : FillsLine m.decl.visibility.keyword := by
    cases m.decl.visibility <;> decide
  have hmutability : FillLines m.decl.mutability.keyword?.toList := by
    cases m.decl.mutability <;> decide
  have hoverride : FillLines (overrideWord c mark) := by
    cases mark with
    | new => exact fillLines_nil
    | single =>
        show FillLines ["override"]
        decide
    | several names =>
        have hopen : FillsLine "override(" := by decide
        have hnames : OneLine (", ".intercalate (names.map c.shownName)) :=
          c.oneLine_shownNames (hmark names rfl)
        exact fillLines_cons.2
          ⟨(hopen.append hnames).append (by decide), fillLines_nil⟩
  have hresults : FillLines (returnsWord m.decl) := by
    unfold returnsWord
    split
    · exact fillLines_nil
    · have hopen : FillsLine "returns (" := by decide
      have htypes : OneLine (", ".intercalate m.decl.returns) :=
        .intercalate (by decide) fun t ht => (hreturns t ht).oneLine
      exact fillLines_cons.2
        ⟨(hopen.append htypes).append (by decide), fillLines_nil⟩
  unfold headingWords
  simp only [fillLines_append, fillLines_cons]
  exact ⟨⟨⟨⟨hvisibility, hmutability⟩, hmodifiers⟩, hoverride⟩, hresults⟩

/-- The call of the function that is overridden fills a line. -/
theorem fillsLine_superCall {d : Declaration} (h : FillLines d.texts) :
    FillsLine (superCall d) := by
  obtain ⟨hname, hargs, -, -⟩ := Declaration.fillLines_iff.1 h
  have hnames : OneLine (", ".intercalate (d.args.map (·.name))) := by
    refine .intercalate (by decide) fun s hs => ?_
    obtain ⟨a, ha, rfl⟩ := List.mem_map.1 hs
    exact (Argument.fillLines_iff.1 (hargs a ha)).1.oneLine
  have hsuper : FillsLine "super." := by decide
  have hcall :=
    (((hsuper.append hname.oneLine).append (by decide : OneLine "(")).append
    hnames).append (by decide : OneLine ");")
  unfold superCall
  dsimp only
  split
  · exact hcall
  · have hreturn : FillsLine "return " := by decide
    exact hreturn.append hcall.oneLine

/-- A function whose words and lines fill lines, as it is printed. -/
theorem fillsLines_callable (h : FillLines m.texts)
    (hmark : ∀ names, mark = .several names → FillLines names) :
    (m.callable c mark).FillsLines := by
  obtain ⟨hdecl, -, -, hcode⟩ := fillLines_iff.1 h
  obtain ⟨hname, hargs, -, -⟩ := Declaration.fillLines_iff.1 hdecl
  have hlines : FillLines (m.bodyLines mark) := by
    refine fillLines_append.2 ⟨hcode, ?_⟩
    split
    · exact fillLines_cons.2 ⟨fillsLine_superCall hdecl, fillLines_nil⟩
    · exact fillLines_nil
  have hkeyword : FillsLine "function " := by decide
  refine ⟨hkeyword.append hname.oneLine, fun s hs => ?_,
    fillLines_headingWords h hmark,
    Fragment.spaced_lines (fun line => line) hlines⟩
  obtain ⟨a, ha, rfl⟩ := List.mem_map.1 hs
  exact Argument.oneLine_text (hargs a ha)

/-- The documentation stands right above the heading. -/
theorem spaced_fragments (h : FillLines m.texts)
    (hmark : ∀ names, mark = .several names → FillLines names) :
    Spaced (m.fragments c mark) := by
  have hfunction : Spaced (m.callable c mark).fragments :=
    (fillsLines_callable h hmark).fragments
  have hdoc : SpacedIfAny (docLine m.decl) := by
    obtain ⟨-, -, -, hdoc⟩ := Declaration.fillLines_iff.1 (fillLines_iff.1 h).1
    have hmark : FillsLine "/// " := by decide
    exact Fragment.spaced_lines (fun doc => "/// " ++ doc) fun doc hmem =>
      hmark.append (hdoc doc hmem).oneLine
  unfold fragments
  rcases hdoc with hdoc | hdoc
  · rw [hdoc, List.nil_append]
    exact hfunction
  · exact hdoc.append hfunction

end Method

-- ================================================================ contracts

namespace Contract

variable {c : Contract} {marked : List (Method × OverrideMark)}

/-- The marks of a contract name what its functions name. -/
theorem spaced_method (h : FillLines c.texts) (hmarked : c.marked = .ok marked)
    {p : Method × OverrideMark} (hp : p ∈ marked) :
    Spaced (p.1.fragments c p.2) := by
  obtain ⟨m, hm, hmark⟩ := exists_of_mem_mapM hmarked hp
  obtain ⟨-, -, -, hmethods, -⟩ := fillLines_iff.1 h
  cases hresolve : OverrideMark.resolve c m with
  | error e =>
      rw [hresolve] at hmark
      cases hmark
  | ok mark =>
      rw [hresolve] at hmark
      cases hmark
      obtain ⟨-, hancestors, -, -⟩ := Method.fillLines_iff.1 (hmethods m hm)
      have hnames : ∀ names, mark = .several names → FillLines names := by
        intro names hseveral name hname
        subst hseveral
        exact hancestors name
          (OverrideMark.mem_ancestors_of_several hresolve hname)
      exact Method.spaced_fragments (hmethods m hm) hnames

/-- The `using` section is well spaced, or there is none. -/
theorem spaced_usingSection (h : ∀ a ∈ c.attachments, FillLines a.texts) :
    SpacedIfAny c.usingSection := by
  have hlines : ∀ p ∈ c.attachedPairs,
      FillsLine ("using " ++ c.shownName p.1 ++ " for " ++ c.shownName p.2
        ++ ";") := by
    intro p hp
    obtain ⟨a, ha, rfl⟩ := List.mem_map.1 (List.mem_eraseDups.1 hp)
    obtain ⟨hname, -, htype⟩ := Attachment.fillLines_iff.1 (h a ha)
    have husing : FillsLine "using " := by decide
    have hlibrary := (husing.append (c.oneLine_shownName hname.oneLine)).append
      (by decide : OneLine " for ")
    exact (hlibrary.append (c.oneLine_shownName htype.oneLine)).append
      (by decide)
  exact Fragment.spaced_lines _ hlines

theorem oneLine_constructorArgs
    (h : ∀ a ∈ c.constructorArgs, FillLines a.texts) :
    ∀ s ∈ c.constructorArgs.map Argument.text, OneLine s := by
  intro s hs
  obtain ⟨a, ha, rfl⟩ := List.mem_map.1 hs
  exact Argument.oneLine_text (h a ha)

/-- So is the constructor of a plain contract. -/
theorem spaced_plainConstructor (h : FillLines c.texts) :
    Spaced c.plainConstructor := by
  obtain ⟨-, -, hbases, -, -, -, hargs, hcode⟩ := fillLines_iff.1 h
  have htitle : FillsLine "constructor" := by decide
  have hcalls : FillLines
      ((c.initializedBases.filter
        fun b => !b.args.isEmpty).map Base.constructorCall) := by
    intro call hcall
    obtain ⟨b, hb, rfl⟩ := List.mem_map.1 hcall
    have hbase : FillLines b.texts :=
      hbases b (List.mem_filter.1 (List.mem_filter.1 hb).1).1
    exact (Base.fillLines_iff.1 hbase).1.append (Base.oneLine_argsText hbase)
  have hcode : SpacedIfAny (c.constructorCode.map .line) :=
    Fragment.spaced_lines (fun line => line) hcode
  exact Callable.FillsLines.fragments
    ⟨htitle, oneLine_constructorArgs hargs, hcalls, hcode⟩

/-- The calls of the initializers and the constructor's own lines are
sections of the body. -/
theorem spaced_initializeFunction (h : FillLines c.texts) :
    Spaced c.initializeFunction := by
  obtain ⟨-, -, hbases, -, -, -, hargs, hcode⟩ := fillLines_iff.1 h
  have htitle : FillsLine "function initialize" := by decide
  have hmodifiers : FillLines ["initializer public"] := by decide
  have hcalls : ∀ b ∈ c.initializedBases,
      FillsLine (b.initializerCall ++ ";") := by
    intro b hb
    have hbase : FillLines b.texts := hbases b (List.mem_filter.1 hb).1
    have hunder : FillsLine "__" := by decide
    have hcallee :=
      (hunder.append (Base.fillLines_iff.1 hbase).1.oneLine).append
      (by decide : OneLine "_init")
    exact (hcallee.append (Base.oneLine_argsText hbase)).append (by decide)
  have hbody : SpacedIfAny (Fragment.joinSections [
      c.initializedBases.map fun b => .line (b.initializerCall ++ ";"),
      c.constructorCode.map .line]) :=
    Fragment.spaced_joinPair (Fragment.spaced_lines _ hcalls)
      (Fragment.spaced_lines (fun line => line) hcode)
  exact Callable.FillsLines.fragments
    ⟨htitle, oneLine_constructorArgs hargs, hmodifiers, hbody⟩

/-- The section of the constructor is well spaced in both kinds of contract. -/
theorem spaced_constructorSection (h : FillLines c.texts) :
    SpacedIfAny c.constructorSection := by
  have hlocked : SpacedIfAny lockedConstructor := by
    refine Fragment.spaced_lines
      (l := ["/// @custom:oz-upgrades-unsafe-allow constructor",
      "constructor() initializer \x7b\x7d"]) (fun line => line) ?_
    decide
  unfold constructorSection
  split
  · exact .inl rfl
  · split
    · exact Fragment.spaced_joinPair hlocked
        (.inr (spaced_initializeFunction h))
    · exact .inr (spaced_plainConstructor h)

/-- Every function that is printed is well spaced. -/
theorem spaced_methodSections (h : FillLines c.texts)
    (hmarked : c.marked = .ok marked) {some : List (Method × OverrideMark)}
    (hsome : some ⊆ marked) :
    ∀ s ∈ c.methodSections some, SpacedIfAny s := by
  intro s hs
  obtain ⟨p, hp, rfl⟩ := List.mem_map.1 hs
  exact .inr (spaced_method h hmarked (hsome hp))

theorem spaced_commentSection (marked : List (Method × OverrideMark)) :
    SpacedIfAny (commentSection marked) := by
  have hcomment : FillsLine overridesComment := by decide
  unfold commentSection
  split
  · exact .inl rfl
  · exact .inr (.line hcomment)

theorem spaced_variableSection (h : FillLines c.stateVariables) :
    SpacedIfAny c.variableSection :=
  Fragment.spaced_lines c.shownVariable fun line hline =>
    c.fillsLine_shownVariable (h line hline)

/-- What is between the braces of a contract is well spaced, whichever
sections are empty. -/
theorem spaced_body (h : FillLines c.texts) (hmarked : c.marked = .ok marked) :
    SpacedIfAny (c.body marked) := by
  obtain ⟨-, -, -, -, hvariables, hattachments, -, -⟩ := fillLines_iff.1 h
  have hnew : ∀ s ∈ c.methodSections (newMethods marked), SpacedIfAny s :=
    spaced_methodSections h hmarked
      fun _ hp => (List.mem_filter.1 (List.mem_filter.1 hp).1).1
  have hoverriding :
      ∀ s ∈ c.methodSections (overridingMethods marked), SpacedIfAny s :=
    spaced_methodSections h hmarked
      fun _ hp => (List.mem_filter.1 (List.mem_filter.1 hp).1).1
  refine Fragment.spaced_joinSections fun s hs => ?_
  simp only [List.mem_append, List.mem_cons, List.not_mem_nil, or_false] at hs
  rcases hs with (((hs | hs) | hs) | hs) | hs
  · rcases hs with rfl | rfl
    · exact spaced_usingSection hattachments
    · exact spaced_constructorSection h
  · exact hnew s hs
  · rw [hs]
    exact spaced_commentSection marked
  · exact hoverriding s hs
  · rw [hs]
    exact spaced_variableSection hvariables

theorem visible_heading (c : Contract) : Visible c.heading :=
  Visible.append_right (by decide) _

/-- The block of a contract is well spaced if its texts fill lines. -/
theorem spaced_blockOf (h : FillLines c.texts)
    (hmarked : c.marked = .ok marked) :
    Spaced (c.blockOf marked) := by
  obtain ⟨hname, -, hbases, -⟩ := fillLines_iff.1 h
  have hnames : FillLines c.baseNames := by
    intro name hname
    obtain ⟨b, hb, rfl⟩ := List.mem_map.1 hname
    exact (Base.fillLines_iff.1 (hbases b hb)).1
  have htail : OneLine (if (c.baseNames.map c.shownName).isEmpty then ""
      else " is " ++ ", ".intercalate (c.baseNames.map c.shownName)) := by
    split
    · decide
    · exact OneLine.append (by decide) (c.oneLine_shownNames hnames)
  have hcontract : FillsLine "contract " := by decide
  have hheading : FillsLine c.heading :=
    ((hcontract.append hname.oneLine).append htail).append (by decide)
  have hclosing : Spaced [.line "\x7d"] := .line (by decide)
  exact Spaced.around_ifAny (.line hheading) (spaced_body h hmarked) hclosing

/-- A function that has a block in the text of a contract: the
constructor, the function `initialize` of an upgradeable contract, or a
function that is not left out. -/
inductive Prints (c : Contract) (marked : List (Method × OverrideMark))
    (f : Callable) : Prop where
  | constructor (hneeded : c.needsConstructor = true)
      (hplain : c.upgradeable = false)
      (hf : f.fragments = c.plainConstructor)
  | initializer (hneeded : c.needsConstructor = true)
      (hupgradeable : c.upgradeable = true)
      (hf : f.fragments = c.initializeFunction)
  | method {m : Method} {mark : OverrideMark} (hm : (m, mark) ∈ marked)
      (hprinted : m.isOmitted = false) (hf : f = m.callable c mark)

/-- Its fragments stand among those of the body. -/
theorem Prints.infix_body {f : Callable} (h : c.Prints marked f) :
    f.fragments <:+: c.body marked := by
  have hsection : c.constructorSection <:+: c.body marked := by
    apply Fragment.infix_joinSections
    simp only [List.mem_append, List.mem_cons, true_or, or_true]
  cases h with
  | constructor hneeded hplain hf =>
      rw [hf]
      rw [constructorSection, hneeded, hplain] at hsection
      exact hsection
  | initializer hneeded hupgradeable hf =>
      rw [constructorSection, hneeded, hupgradeable] at hsection
      rw [hf]
      exact (Fragment.infix_joinSections
        (List.mem_cons_of_mem _ (List.mem_singleton_self _))).trans
        hsection
  | method hm hprinted hf =>
      rw [hf]
      exact (List.suffix_append _ _).isInfix.trans
        (infix_body_method hm hprinted)

end Contract

-- =================================================================== files

namespace SourceFile

variable {transform : String → String} {cs : List Contract} {text : String}

/-- The header is well spaced. -/
theorem spaced_header (h : ∀ c ∈ cs, FillLines c.texts) :
    Spaced (header cs) := by
  have hlicense : OneLine (license cs) := by
    cases cs with
    | nil => decide
    | cons c cs =>
        obtain ⟨-, hlicense, -⟩ :=
          Contract.fillLines_iff.1 (h c (List.mem_cons_self ..))
        exact hlicense.oneLine
  have hmark : FillsLine "// SPDX-License-Identifier: " := by decide
  have hpragma : FillsLine
      ("pragma solidity ^" ++ compilerVersion ++ ";") := by decide
  exact .append (.line (hmark.append hlicense)) (.line hpragma)

/-- The import section is well spaced, as long as the transformation
makes lines of lines. -/
theorem spaced_importSection
    (ht : ∀ path, FillsLine path → FillsLine (transform path))
    (h : ∀ c ∈ cs, FillLines c.texts) :
    SpacedIfAny (importSection transform cs) := by
  have hneeded : ∀ c ∈ cs, ∀ path ∈ c.importPaths, FillsLine path := by
    intro c hc path hpath
    obtain ⟨-, -, hbases, -, -, hattachments, -, -⟩ :=
      Contract.fillLines_iff.1 (h c hc)
    obtain ⟨path, hmem, rfl⟩ := List.mem_map.1 hpath
    apply c.fillsLine_shownPath
    rcases List.mem_append.1 hmem with hmem | hmem
    · obtain ⟨b, hb, rfl⟩ := List.mem_map.1 hmem
      exact (Base.fillLines_iff.1 (hbases b hb)).2.1
    · obtain ⟨a, ha, rfl⟩ := List.mem_map.1 hmem
      exact (Attachment.fillLines_iff.1 (hattachments a ha)).2.1
  have hlines : FillLines (imports transform cs).statements := by
    intro s hs
    obtain ⟨path, hpath, rfl⟩ := List.mem_map.1 hs
    obtain ⟨c, hc, hmem⟩ := List.mem_flatMap.1 (Imports.mem_paths_ofList hpath)
    obtain ⟨needed, hfrom, rfl⟩ := List.mem_map.1 hmem
    have hshown : FillsLine (transform needed) :=
      ht needed (hneeded c hc needed hfrom)
    have himport : FillsLine "import \"" := by decide
    exact (himport.append hshown.oneLine).append (by decide)
  exact Fragment.spaced_lines (fun line => line) hlines

/-- A file is well spaced if its contracts are. -/
theorem spaced_fragments
    (ht : ∀ path, FillsLine path → FillsLine (transform path))
    (h : ∀ c ∈ cs, FillLines c.texts) {blocks : List (List Fragment)}
    (hblocks : ∀ b ∈ blocks, Spaced b) :
    Spaced (fragments transform cs blocks) := by
  have hsections : ∀ s ∈ [header cs, importSection transform cs] ++ blocks,
      SpacedIfAny s := by
    intro s hs
    rcases List.mem_append.1 hs with hs | hs
    · rcases List.mem_cons.1 hs with rfl | hs
      · exact .inr (spaced_header h)
      · rw [List.mem_singleton.1 hs]
        exact spaced_importSection ht h
    · exact .inr (hblocks s hs)
  refine (Fragment.spaced_joinSections hsections).resolve_left fun hnil => ?_
  -- the header is there in every file
  have hheader : header cs <:+: fragments transform cs blocks :=
    Fragment.infix_joinSections
      (List.mem_append_left _ (List.mem_cons_self ..))
  unfold fragments at hheader
  rw [hnil] at hheader
  cases List.infix_nil.1 hheader

/-- In a printed file whose texts fill lines, blank lines are empty and stand
alone between two lines that show something, and the text ends with one line
feed. No blank line follows the line that opens a contract or a function, and
none precedes the line that closes it. -/
theorem blank_lines_apart (hprint : print transform cs = .ok text)
    (h : ∀ c ∈ cs, FillLines c.texts)
    (ht : ∀ path, FillsLine path → FillsLine (transform path)) :
    EndsOnce text ∧ ∃ lines,
      text = String.join (lines.map (· ++ "\n")) ∧ WellSpaced lines
      ∧ ∀ c ∈ cs, ∃ marked, c.marked = .ok marked
        ∧ Encloses lines [c.heading] (linesOf 1 (c.body marked)) "\x7d"
        ∧ ∀ f : Callable, c.Prints marked f → f.body ≠ [] →
          Encloses lines (linesOf 1 f.heading) (linesOf 2 f.body)
            (indentation 1 ++ "\x7d") := by
  obtain ⟨blocks, hblocks, rfl⟩ := print_eq_ok.1 hprint
  have hspaced : ∀ b ∈ blocks, Spaced b := by
    intro b hb
    obtain ⟨c, hc, hblock⟩ := exists_of_mem_mapM hblocks hb
    obtain ⟨marked, hmarked, rfl⟩ := Contract.block_eq_ok.1 hblock
    exact Contract.spaced_blockOf (h c hc) hmarked
  have hlines : WellSpaced (linesOf 0 (fragments transform cs blocks)) :=
    (spaced_fragments ht h hspaced).wellSpaced 0
  refine ⟨hlines.endsOnce, _, rfl, hlines, fun c hc => ?_⟩
  obtain ⟨b, hb, hblock⟩ := mem_of_mapM hblocks hc
  obtain ⟨marked, hmarked, rfl⟩ := Contract.block_eq_ok.1 hblock
  have hbody : SpacedIfAny (c.body marked) :=
    Contract.spaced_body (h c hc) hmarked
  have hplaced : c.blockOf marked <:+: fragments transform cs blocks :=
    Fragment.infix_joinSections (List.mem_append_right _ hb)
  refine ⟨marked, hmarked, ?_, fun f hf hne => ?_⟩
  · have hheading : ∃ l ∈ (linesOf 0 [.line c.heading]).getLast?, Visible l :=
      ⟨_, rfl, c.visible_heading⟩
    have hcontract := Fragment.encloses_block hheading hbody
        (by decide) hplaced
    rwa [Fragment.indentation_zero, String.empty_append] at hcontract
  · have hinner : linesOf 1 (c.body marked)
        <:+: linesOf 0 (fragments transform cs blocks) :=
      Fragment.linesOf_infix_of_block 0
        (hplaced.subset (List.mem_cons_of_mem _ (List.mem_cons_self ..)))
    exact (f.encloses 1 hne hbody hf.infix_body).mono hinner

/-- An upgradeable contract in which every section has something: bases with
and without arguments, one of them over two lines, a function of two bases
without a body of its own and a documented one with a long heading. -/
def vault : Contract where
  name := "Vault"
  upgradeable := true
  bases := [⟨⟨"Left", "@openzeppelin/contracts/token/Left.sol"⟩,
      [.text "two\nlines", .integer (-7), .verbatim "cap"]⟩,
    ⟨⟨"Right", "./Right.sol"⟩, []⟩]
  methods := [
    ⟨{ name := "hook",
       visibility := .inside }, ["Right", "Left"], [], .untouched⟩,
    ⟨{ name := "settle", visibility := .everywhere,
        args := [⟨"amount", "uint256"⟩], returns := ["uint256"],
        doc? := some "Settles an account." },
      [], ["onlyRole(SETTLER_ROLE)", "whenNotPaused"],
      .grown ["return amount;"]⟩]
  stateVariables := ["Counters.Counter private counter;"]
  attachments := [⟨⟨"Counters", "@openzeppelin/contracts/utils/Counters.sol"⟩,
    "Counters.Counter"⟩]
  constructorArgs := [⟨"cap", "uint256"⟩]
  constructorCode := ["counter.increment();"]

/-- Its initializer has a blank line between the calls and the constructor's
own line, and none at its braces. -/
theorem blank_lines_of_vault :
    ∃ text, printVersioned [vault] = .ok text ∧ EndsOnce text
      ∧ ∃ lines, text = String.join (lines.map (· ++ "\n")) ∧ WellSpaced lines
        ∧ Encloses lines
          ["    function initialize(uint256 cap) initializer public \x7b"]
          ["        __Left_init(\"two\\nlines\", -7, cap);",
            "        __Right_init();", "",
            "        counter.increment();"] "    \x7d" := by
  obtain ⟨text, hprint⟩ : ∃ text, printVersioned [vault] = .ok text := ⟨_, rfl⟩
  have htexts : ∀ c ∈ [vault], FillLines c.texts := by decide
  obtain ⟨hend, lines, hlines, hspaced, hcontracts⟩ :=
    blank_lines_apart hprint htexts fun _ =>
      Package.fillsLine_pin Version.bundled
  obtain ⟨marked, -, -, hfunctions⟩ :=
    hcontracts vault (List.mem_singleton_self vault)
  let f : Callable := {
    title := "function initialize"
    args := ["uint256 cap"]
    modifiers := ["initializer public"]
    body := [.line "__Left_init(\"two\\nlines\", -7, cap);",
      .line "__Right_init();", .blank, .line "counter.increment();"] }
  have hprints : vault.Prints marked f := .initializer (by decide) rfl rfl
  exact ⟨text, hprint, hend, lines, hlines, hspaced,
    hfunctions f hprints (List.cons_ne_nil _ _)⟩

end SourceFile

end TokenForge
