/-
What a printed function looks like. Its heading has the same words in either
layout, so whichever is chosen the lines of the heading, put together with
spaces, are one line (`Callable.headingLines_words`), and the layout is a
matter of the bytes of the words before the brace. The other choices are made
from the entry alone: the clause from its ancestors, the call of the bases from
its ancestors and from how its body came to be, the braces from whether there
is a line between them.

The text of a function is described by its lines with their levels (`textAt`);
a function in a contract stands at the first level.
-/
import Mathlib.Algebra.GroupWithZero.Nat
import TokenForge.Proofs.Contract.BodyHistory
import TokenForge.Proofs.Contract.Content
import TokenForge.Proofs.Source.Selection

namespace TokenForge

-- ============================================================ lines in text

namespace Fragment

/-- The text of lines that each stand at a level. -/
def textAt (lines : List (Nat × String)) : String :=
  String.join (lines.map fun l => indentation l.1 ++ l.2 ++ "\n")

theorem textAt_append (lines lines' : List (Nat × String)) :
    textAt (lines ++ lines') = textAt lines ++ textAt lines' := by
  unfold textAt
  rw [List.map_append, String.join_append]

/-- The text of lines on one level. -/
theorem textOf_map_line (level : Nat) (ls : List String) :
    textOf level (ls.map .line) = textAt (ls.map (level, ·)) := by
  induction ls with
  | nil => rfl
  | cons s ls ih =>
      rw [List.map_cons, textOf_cons, textOf_line, ih]
      simp [textAt]

theorem textOf_singleton (level : Nat) (s : String) :
    textOf level [.line s] = textAt [(level, s)] :=
  textOf_map_line level [s]

end Fragment

-- ================================================================= layouts

namespace Callable

/-- The bytes of several texts are added up. -/
theorem totalBytes_eq (texts : List String) :
    totalBytes texts = (texts.map String.utf8ByteSize).sum := by
  induction texts with
  | nil => rfl
  | cons text texts ih => rw [totalBytes, List.map_cons, List.sum_cons, ih]

/-- The lines of a heading with their levels. -/
def headingLines (f : Callable) (level : Nat) : List (Nat × String) :=
  if f.headingLength ≤ maxHeading then
    [(level, " ".intercalate f.headingParts)]
  else (level, f.signature) :: f.modifiers.map (level + 1, ·)
    ++ [(level, f.braces)]

/-- The heading of a function is printed as its lines. -/
theorem textOf_heading (f : Callable) (level : Nat) :
    Fragment.textOf level f.heading
      = Fragment.textAt (f.headingLines level) := by
  unfold heading headingLines
  by_cases hshort : f.headingLength ≤ maxHeading
  · rw [if_pos hshort, if_pos hshort, Fragment.textOf_singleton]
  · rw [if_neg hshort, if_neg hshort, Fragment.textOf_cons,
      Fragment.textOf_cons _ (.block _), Fragment.textOf_block,
      Fragment.textOf_map_line, Fragment.textOf_singleton,
      Fragment.textOf_singleton, ← Fragment.textAt_append,
      ← Fragment.textAt_append]
    rfl

/-- The words of a heading are the same in either layout. -/
theorem headingLines_words (f : Callable) (level : Nat) :
    " ".intercalate ((f.headingLines level).map (·.2))
      = " ".intercalate f.headingParts := by
  unfold headingLines
  split
  · rw [List.map_singleton, String.intercalate_singleton]
  · congr 1
    simp [headingParts, Function.comp_def]

/-- A heading is one line exactly if it is short enough. -/
theorem length_headingLines (f : Callable) (level : Nat) :
    (f.headingLines level).length = 1 ↔ f.headingLength ≤ maxHeading := by
  unfold headingLines
  split
  next hshort => simp [hshort]
  next hlong => simp [hlong]

section Body

variable {f : Callable} {lines : List String}

/-- A function without lines in its body has both braces in its heading. -/
theorem braces_of_lines (h : f.body = lines.map .line) :
    f.braces = if lines = [] then "\x7b\x7d" else "\x7b" := by
  unfold braces
  rw [h]
  simp only [List.isEmpty_iff, List.map_eq_nil_iff]

/-- The lines of a body stand one level deeper than the heading
and the closing brace. -/
theorem textOf_closing (h : f.body = lines.map .line) (level : Nat) :
    Fragment.textOf level f.closing
      = Fragment.textAt
        (if lines = [] then []
         else lines.map (level + 1, ·) ++ [(level, "\x7d")]) := by
  unfold closing
  rw [h]
  simp only [List.isEmpty_iff, List.map_eq_nil_iff]
  split
  · rfl
  · rw [Fragment.textOf_cons, Fragment.textOf_block, Fragment.textOf_map_line,
      Fragment.textOf_singleton, ← Fragment.textAt_append]

end Body

end Callable

-- ============================================================ the heading

namespace Method

/-- `function name(args)`. -/
def signatureText (m : Method) : String :=
  "function " ++ m.decl.name ++ "("
    ++ ", ".intercalate (m.decl.args.map fun a => a.type ++ " " ++ a.name)
      ++ ")"

/-- The lines of the body: those of the entry, and the call of the bases if
there are any and the body was not set as a whole. -/
def shownBody (m : Method) : List String :=
  m.code ++ if m.ancestors ≠ [] ∧ m.isReplaced = false then
    [(if m.decl.returns = [] then "" else "return ")
      ++ "super." ++ m.decl.name ++ "("
        ++ ", ".intercalate (m.decl.args.map (·.name)) ++ ");"]
  else []

/-- The braces at the end of the heading. -/
def shownBraces (m : Method) : String :=
  if m.shownBody = [] then "\x7b\x7d" else "\x7b"

/-- The documentation line, if there is one. -/
def docText (m : Method) : List (Nat × String) :=
  m.decl.doc?.toList.map fun doc => (1, "/// " ++ doc)

/-- The body one level deeper and the closing brace;
nothing for an empty body. -/
def closingText (m : Method) : List (Nat × String) :=
  if m.shownBody = [] then [] else m.shownBody.map (2, ·) ++ [(1, "\x7d")]

/-- The comment above a function is its documentation, if it has one. -/
theorem textOf_docLine (m : Method) :
    Fragment.textOf 1 (docLine m.decl) = Fragment.textAt m.docText := by
  unfold docLine docText
  cases m.decl.doc? with
  | none => rfl
  | some doc => exact Fragment.textOf_singleton 1 ("/// " ++ doc)

end Method

namespace Contract

/-- The bases of a contract that are among some names, in their order. -/
def basesAmong (c : Contract) (names : List String) : List String :=
  c.baseNames.filter (· ∈ names)

/-- The override clause of a function: nothing without ancestors, and the bases
among them if they are several. -/
def clauseWords (c : Contract) (m : Method) : List String :=
  match m.ancestors with
  | [] => []
  | [_] => ["override"]
  | names =>
      ["override(" ++ ", ".intercalate ((c.basesAmong names).map c.shownName)
        ++ ")"]

/-- What follows the arguments: the visibility, the mutability if it has a
keyword, the modifiers, the clause, and the results if there are any. -/
def headingTail (c : Contract) (m : Method) : List String :=
  m.decl.visibility.keyword :: m.decl.mutability.keyword?.toList ++ m.modifiers
    ++ c.clauseWords m
    ++ if m.decl.returns = [] then []
      else ["returns (" ++ ", ".intercalate m.decl.returns ++ ")"]

/-- The bytes of the title, of the arguments and of what follows them. -/
def headingBytes (c : Contract) (m : Method) : Nat :=
  ("function " ++ m.decl.name).utf8ByteSize
    + (m.decl.args.map fun a => (a.type ++ " " ++ a.name).utf8ByteSize).sum
    + ((c.headingTail m).map String.utf8ByteSize).sum

/-- A function in a contract has a heading of these lines. -/
structure LaidOut (c : Contract) (m : Method) (heading : List (Nat × String)) :
    Prop where
  /-- The documentation, the heading, the body and the closing brace
  are the whole text. -/
  text : c.functionText m
    = Fragment.textAt (m.docText ++ heading ++ m.closingText)
  /-- The lines of the heading have the words of the heading. -/
  words : " ".intercalate (heading.map (·.2))
    = " ".intercalate (m.signatureText :: c.headingTail m ++ [m.shownBraces])
  /-- A heading of one line is a short one. -/
  one_line : heading.length = 1 ↔ c.headingBytes m ≤ 72
  /-- It stands at the level of the function. -/
  short : c.headingBytes m ≤ 72 →
    heading
      = [(1, " ".intercalate
        (m.signatureText :: c.headingTail m ++ [m.shownBraces]))]
  /-- A long heading has one line for each word after the
  arguments, one level deeper. -/
  long : 72 < c.headingBytes m →
    heading = (1, m.signatureText) :: (c.headingTail m).map (2, ·)
      ++ [(1, m.shownBraces)]

-- ============================================================= the entries

variable {c : Contract} (m : Method)

/-- The word of the exact mark names the bases among the ancestors. -/
theorem overrideWord_exact :
    Method.overrideWord c (OverrideMark.exact c.baseNames m.ancestors)
      = c.clauseWords m := by
  unfold OverrideMark.exact clauseWords basesAmong
  match m.ancestors with
  | [] => rfl
  | [_] => rfl
  | _ :: _ :: _ => rfl

/-- The words after the arguments, in a contract that
knows all its ancestors. -/
theorem headingWords_exact :
    Method.headingWords c m (OverrideMark.exact c.baseNames m.ancestors)
      = c.headingTail m := by
  unfold Method.headingWords headingTail Method.returnsWord
  rw [overrideWord_exact]
  simp only [List.isEmpty_iff]

/-- The body of a function that calls the function it overrides, unless its own
body replaces that. -/
theorem bodyLines_exact :
    m.bodyLines (OverrideMark.exact c.baseNames m.ancestors)
      = m.shownBody := by
  have hcalls : m.callsSuper (OverrideMark.exact c.baseNames m.ancestors)
      = true
      ↔ m.ancestors ≠ [] ∧ m.isReplaced = false := by
    unfold Method.callsSuper
    rw [Bool.and_eq_true, bne_iff_ne, Bool.not_eq_true']
    exact and_congr_left' (not_congr OverrideMark.exact_eq_new)
  have hcall : Method.superCall m.decl
      = (if m.decl.returns = [] then "" else "return ")
      ++ "super." ++ m.decl.name ++ "("
        ++ ", ".intercalate (m.decl.args.map (·.name)) ++ ");" := by
    unfold Method.superCall
    simp only [List.isEmpty_iff]
    split
    · simp only [String.empty_append]
    · simp only [String.append_assoc]
  unfold Method.bodyLines Method.shownBody
  rw [hcall]
  simp only [hcalls]

/-- What decides on the layout is the bytes of the title, the
arguments and the words. -/
theorem headingLength_exact :
    (m.callable c (OverrideMark.exact c.baseNames m.ancestors)).headingLength
      = c.headingBytes m := by
  have hwords :
      (m.callable c (OverrideMark.exact c.baseNames m.ancestors)).modifiers
      = c.headingTail m := headingWords_exact m
  unfold Callable.headingLength headingBytes
  rw [Callable.totalBytes_eq, Callable.totalBytes_eq, hwords]
  simp only [Method.callable, List.map_map]
  rfl

/-- A function of a resolved contract is laid out by its entry. -/
theorem Resolved.laidOut (h : c.Resolved) (hm : m ∈ c.methods) :
    c.LaidOut m
      ((m.callable c (OverrideMark.exact c.baseNames m.ancestors)).headingLines
        1) := by
  have hbytes := headingLength_exact (c := c) m
  have hsignature :
      (m.callable c (OverrideMark.exact c.baseNames m.ancestors)).signature
      = m.signatureText := rfl
  have hwords :
      (m.callable c (OverrideMark.exact c.baseNames m.ancestors)).modifiers
      = c.headingTail m := headingWords_exact m
  have hbody : (m.callable c (OverrideMark.exact c.baseNames m.ancestors)).body
      = m.shownBody.map .line :=
    congrArg (List.map Fragment.line) (bodyLines_exact (c := c) m)
  have htext := h.functionText hm
  unfold Method.fragments at htext
  -- from here on the function is any callable with this heading and this body
  generalize m.callable c (OverrideMark.exact c.baseNames m.ancestors) = f at *
  have hbraces : f.braces = m.shownBraces := Callable.braces_of_lines hbody
  have hparts : f.headingParts
      = m.signatureText :: c.headingTail m ++ [m.shownBraces] := by
    unfold Callable.headingParts
    rw [hsignature, hwords, hbraces]
  have hlines : f.headingLines 1 = if c.headingBytes m ≤ 72
      then [(1, " ".intercalate
        (m.signatureText :: c.headingTail m ++ [m.shownBraces]))]
      else (1, m.signatureText) :: (c.headingTail m).map (2, ·)
        ++ [(1, m.shownBraces)] := by
    unfold Callable.headingLines Callable.maxHeading
    rw [hbytes, hparts, hsignature, hwords, hbraces]
  exact {
    text := by
      unfold Callable.fragments at htext
      rw [htext, Fragment.textOf_append, Fragment.textOf_append,
        Method.textOf_docLine, Callable.textOf_heading,
        Callable.textOf_closing hbody, Fragment.textAt_append,
        Fragment.textAt_append, String.append_assoc]
      rfl
    words := by rw [Callable.headingLines_words, hparts]
    one_line := by
      rw [Callable.length_headingLines, hbytes]
      rfl
    short := fun hshort => by rw [hlines, if_pos hshort]
    long := fun hlong => by rw [hlines, if_neg (by omega)] }

/-- A function that is declared is in the text of its contract. -/
theorem Resolved.occurs_functionText (h : c.Resolved) {m : Method}
    (hm : m ∈ c.methods) (hprinted : m.isOmitted = false) :
    Occurs (c.functionText m)
      (Fragment.textOf 1 (c.body (exactlyMarked c.baseNames c.methods))) := by
  rw [h.functionText hm]
  exact Fragment.occurs_textOf 1
    (infix_body_method (List.mem_map.2 ⟨m, hm, rfl⟩) hprinted)

/-- A function that a contract introduces or declares again is printed. -/
theorem not_omitted_of_declared {m : Method}
    (hprinted : ∀ m ∈ c.methods, m.ancestors = [] → m.isOmitted = false)
    (h : m ∈ c.introduced ∨ m ∈ c.redeclared) :
    m ∈ c.methods ∧ m.isOmitted = false := by
  rcases h with h | h
  · obtain ⟨hm, hnone⟩ := List.mem_filter.1 h
    exact ⟨hm, hprinted m hm (of_decide_eq_true hnone)⟩
  · obtain ⟨hm, hredeclared⟩ := List.mem_filter.1 h
    by_cases hnone : m.ancestors = []
    · exact ⟨hm, hprinted m hm hnone⟩
    · exact ⟨hm, (Method.isOmitted_eq_false_iff hnone).2
        (of_decide_eq_true hredeclared)⟩

/-- Every function that a printed contract declares is in the text, laid out by
its entry. -/
theorem laidOut_of_print {name : String} {history : List Step}
    (hc : c = replay history { name }) {transform : String → String}
    {cs : List Contract} {text : String} (hmem : c ∈ cs)
    (h : SourceFile.print transform cs = .ok text) {m : Method}
    (hm : m ∈ c.introduced ∨ m ∈ c.redeclared) :
    Occurs (c.functionText m) text ∧ ∃ heading, c.LaidOut m heading := by
  subst hc
  obtain ⟨hresolved, hoccurs, hblock⟩ :=
    resolved_of_print (wellFormed_replay history name) hmem h
  have hprinted := (represents_replay name history).printed
  obtain ⟨hmethod, hkept⟩ := not_omitted_of_declared hprinted hm
  refine ⟨?_, _, hresolved.laidOut m hmethod⟩
  refine (hresolved.occurs_functionText hmethod hkept).trans
    (Occurs.trans ?_ hoccurs)
  exact ⟨_, "\x7d\n", hblock⟩

end Contract

-- ============================================================ the theorem

open Contract

/-- Every function that a printed contract declares is in the text, laid out by
its entry, and the entry has the modifiers and the body that the history gave
it, in the order of the calls. -/
theorem printed_layout (name : String) (history : List Step) :
    let c := replay history { name }
    ∀ (transform : String → String) (cs : List Contract) (text : String),
      c ∈ cs → SourceFile.print transform cs = .ok text →
        ∀ m, m ∈ c.introduced ∨ m ∈ c.redeclared →
          m.modifiers = history.flatMap (Step.given m.signature)
            ∧ m.body = .ofCalls (bodyCalls history m.signature)
            ∧ Occurs (c.functionText m) text
            ∧ ∃ heading, c.LaidOut m heading := by
  intro c transform cs text hc hprint m hdeclared
  obtain ⟨hoccurs, hlaid⟩ := laidOut_of_print rfl hc hprint hdeclared
  have hm : m ∈ c.methods := by
    rcases hdeclared with h | h
    · exact (List.mem_filter.1 h).1
    · exact (List.mem_filter.1 h).1
  exact ⟨(mem_methods_replay hm).2.1, body_replay hm, hoccurs, hlaid⟩

/-- Two functions of two bases in an upgradeable contract, one a byte longer
than the other. The body of the shorter one was replaced by nothing. -/
def boundaryHistory : List Step :=
  let callable : String → Declaration :=
    fun name => { name, visibility := .everywhere }
  [.upgradeable, .base ⟨⟨"Left", "./Left.sol"⟩, []⟩,
    .base ⟨⟨"Right", "./Right.sol"⟩, []⟩,
    .ancestor "Right" (callable "transferTokens"),
    .ancestor "Left" (callable "transferTokens"),
    .body [] (callable "transferTokens"),
    .ancestor "Left" (callable "transferTokens2"),
    .ancestor "Right" (callable "transferTokens2")]

/-- Two functions of 72 and of 73 bytes: the heading of the first is one line,
that of the second has a line for each of its words. -/
theorem printed_layout_of_boundary :
    let c := replay boundaryHistory { name := "Token" }
    let clause := "override(LeftUpgradeable, RightUpgradeable)"
    ∃ text, SourceFile.printPlain [c] = .ok text
      ∧ Occurs ("    function transferTokens() public " ++ clause
        ++ " \x7b\x7d\n") text
      ∧ Occurs ("    function transferTokens2()\n        public\n        "
        ++ clause
        ++ "\n    \x7b\n        super.transferTokens2();\n    \x7d\n")
          text := by
  intro c clause
  obtain ⟨text, hprint⟩ :
      ∃ text, SourceFile.printPlain [c] = .ok text := ⟨_, rfl⟩
  have hlaid := printed_layout "Token" boundaryHistory id [c] text
      (List.mem_singleton_self c) hprint
  let short : Method :=
    ⟨{ name := "transferTokens", visibility := .everywhere },
    ["Right", "Left"], [], .replaced []⟩
  let long : Method :=
    ⟨{ name := "transferTokens2", visibility := .everywhere },
    ["Left", "Right"], [], .untouched⟩
  refine ⟨text, hprint, ?_, ?_⟩
  · obtain ⟨-, -, hoccurs, heading, hshort⟩ := hlaid short (.inr (by decide))
    have hbytes : c.headingBytes short = 72 := by decide
    rw [hshort.text, hshort.short (Nat.le_of_eq hbytes)] at hoccurs
    exact hoccurs
  · obtain ⟨-, -, hoccurs, heading, hlong⟩ := hlaid long (.inr (by decide))
    have hbytes : c.headingBytes long = 73 := by decide
    rw [hlong.text, hlong.long (Nat.lt_of_lt_of_eq (by decide) hbytes.symm)]
      at hoccurs
    exact hoccurs

end TokenForge
