/-
How a printed contract calls the constructors of its bases. A plain contract
does so in the heading of its constructor, an upgradeable one in the body of
its initializer, and the section holds nothing else but the constructor's
own arguments and lines.

Whether there is a constructor is decided by the bases as they are, and which
bases it calls after those named `Initializable` were left out. In an
upgradeable contract that is as it should be: such a base has no initializer of
its own, and every other base is called, with or without arguments
(`initializer_calls_bases`). A plain contract leaves the same bases out, though
it calls constructors: the arguments of a base named `Initializable` then
make a constructor that does not pass them on, and every other argument is
passed on (`constructor_calls_bases`).
-/
import TokenForge.Proofs.Source.MethodLayout

namespace TokenForge

open Fragment (textAt textOf)

-- ============================================================ the layouts

/-- The lines of a heading in a contract, with their levels: the title with the
arguments, the words after them, and the brace, on one line unless title,
arguments and words have more than 72 bytes; then each word has a line of its
own, one level deeper. -/
def headingAt (title : String) (args words : List String) (brace : String) :
    List (Nat × String) :=
  let signature := title ++ "(" ++ ", ".intercalate args ++ ")"
  if title.utf8ByteSize + (args.map String.utf8ByteSize).sum
      + (words.map String.utf8ByteSize).sum ≤ 72
  then [(1, " ".intercalate (signature :: words ++ [brace]))]
  else (1, signature) :: words.map (2, ·) ++ [(1, brace)]

theorem Callable.headingLines_eq (f : Callable) :
    f.headingLines 1 = headingAt f.title f.args f.modifiers f.braces := by
  unfold headingLines headingLength headingAt
  rw [totalBytes_eq, totalBytes_eq]
  rfl

theorem Callable.textOf_fragments (f : Callable) :
    textOf 1 f.fragments
      = textAt (headingAt f.title f.args f.modifiers f.braces)
        ++ textOf 1 f.closing := by
  unfold fragments
  rw [Fragment.textOf_append, textOf_heading, headingLines_eq]

theorem Callable.fragments_ne_nil (f : Callable) : f.fragments ≠ [] := by
  unfold fragments heading
  split <;> simp

/-- Two sections, the first of which is not empty. -/
theorem Fragment.textOf_joinSections_pair (level : Nat) {s : List Fragment}
    (hs : s ≠ []) (t : List Fragment) :
    textOf level (joinSections [s, t])
      = textOf level s ++ if t = [] then "" else "\n" ++ textOf level t := by
  rw [textOf_joinSections level _ hs, List.filter_cons]
  cases t with
  | nil => rfl
  | cons f t =>
      have hkept : (!(f :: t).isEmpty) = true := rfl
      rw [if_pos hkept, if_neg (List.cons_ne_nil f t), List.filter_nil,
        List.map_singleton, String.join_cons, String.join_nil,
        String.append_empty]

-- ============================================================== the calls

/-- The call of a function with the arguments of a base. -/
def Base.callAs (callee : String) (b : Base) : String :=
  callee ++ "(" ++ ", ".intercalate (b.args.map Value.render) ++ ")"

theorem Base.constructorCall_eq (b : Base) :
    b.constructorCall = b.callAs b.name := by
  unfold constructorCall argsText callAs
  simp only [String.append_assoc]

theorem Base.initializerCall_eq (b : Base) :
    b.initializerCall = b.callAs ("__" ++ b.name ++ "_init") := by
  unfold initializerCall argsText callAs
  simp only [String.append_assoc]

namespace Contract

/-- The bases whose constructors take arguments. -/
def basesWithArgs (c : Contract) : List Base :=
  c.bases.filter fun b => b.args ≠ []

/-- The bases whose constructors a plain contract calls. -/
def calledBases (c : Contract) : List Base :=
  c.basesWithArgs.filter fun b => b.name ≠ "Initializable"

/-- The arguments of the constructor as written. -/
def constructorParams (c : Contract) : List String :=
  c.constructorArgs.map fun a => a.type ++ " " ++ a.name

/-- The constructor of a plain contract that calls some
bases in its heading. -/
def constructorText (c : Contract) (called : List Base) : String :=
  let calls := called.map fun b => b.callAs b.name
  if c.constructorCode = [] then
    textAt (headingAt "constructor" c.constructorParams calls "\x7b\x7d")
  else
    textAt (headingAt "constructor" c.constructorParams calls "\x7b"
      ++ c.constructorCode.map (2, ·) ++ [(1, "\x7d")])

/-- The constructor of an upgradeable contract: it is empty, and its modifier
keeps the initializer from being run on the contract itself. -/
def lockedText : String :=
  textAt [(1, "/// @custom:oz-upgrades-unsafe-allow constructor"),
    (1, "constructor() initializer \x7b\x7d")]

/-- The initializer of an upgradeable contract: a statement for each
base that has one, and below a blank line the lines of the
constructor, if there are any. -/
def initializerText (c : Contract) : String :=
  textAt (headingAt "function initialize" c.constructorParams
    ["initializer public"] "\x7b"
      ++ (c.bases.filter fun b => b.name ≠ "Initializable").map fun b =>
        (2, b.callAs ("__" ++ b.name ++ "_init") ++ ";"))
    ++ (if c.constructorCode = [] then ""
      else "\n" ++ textAt (c.constructorCode.map (2, ·)))
    ++ textAt [(1, "\x7d")]

variable {c : Contract}

theorem calledBases_eq_iff :
    c.calledBases = c.basesWithArgs
      ↔ ∀ b ∈ c.bases, b.name = "Initializable" → b.args = [] := by
  unfold calledBases basesWithArgs
  rw [List.filter_eq_self]
  simp only [List.mem_filter, decide_eq_true_eq]
  constructor
  · intro h b hb hname
    by_contra hargs
    exact h b ⟨hb, hargs⟩ hname
  · rintro h b ⟨hb, hargs⟩ hname
    exact hargs (h b hb hname)

theorem initializedBases_eq :
    c.initializedBases = c.bases.filter fun b => b.name ≠ "Initializable" := by
  unfold initializedBases Base.isInitialized
  refine List.filter_congr fun b _ => ?_
  rw [decide_not, ← beq_eq_decide]
  rfl

theorem initializedBases_withArgs :
    (c.initializedBases.filter fun b => !b.args.isEmpty) = c.calledBases := by
  rw [initializedBases_eq]
  unfold calledBases basesWithArgs
  rw [List.filter_filter, List.filter_filter]
  refine List.filter_congr fun b _ => ?_
  rw [Bool.and_comm]
  cases b.args with
  | nil => rfl
  | cons a args => rfl

theorem constructorParams_eq :
    c.constructorArgs.map Argument.text = c.constructorParams :=
  rfl

-- ======================================================== the two sections

/-- A plain contract has a constructor if a base, the arguments or
the code ask for one. -/
theorem needsConstructor_of_plain (h : c.upgradeable = false) :
    c.needsConstructor = true
      ↔ (∃ b ∈ c.bases, b.args ≠ []) ∨ c.constructorArgs ≠ []
      ∨ c.constructorCode ≠ [] := by
  unfold needsConstructor
  rw [h, Bool.false_and, Bool.or_false, Bool.or_eq_true,
    Bool.or_eq_true, or_assoc]
  simp

theorem textOf_plainConstructor :
    textOf 1 c.plainConstructor = c.constructorText c.calledBases := by
  unfold plainConstructor
  rw [Callable.textOf_fragments, Callable.textOf_closing rfl,
    Callable.braces_of_lines rfl]
  dsimp only
  rw [initializedBases_withArgs, constructorParams_eq]
  have hcalls : c.calledBases.map Base.constructorCall
      = c.calledBases.map fun b => b.callAs b.name :=
    List.map_congr_left fun b _ => b.constructorCall_eq
  rw [hcalls]
  unfold constructorText
  by_cases hcode : c.constructorCode = []
  · rw [if_pos hcode, if_pos hcode, if_pos hcode]
    exact String.append_empty
  · rw [if_neg hcode, if_neg hcode, if_neg hcode, ← Fragment.textAt_append,
      List.append_assoc]

/-- The constructor section of a plain contract is its
constructor, or nothing. -/
theorem sectionTexts_plain (h : c.upgradeable = false) :
    sectionTexts [c.constructorSection]
      = if (∃ b ∈ c.bases, b.args ≠ []) ∨ c.constructorArgs ≠ []
        ∨ c.constructorCode ≠ []
        then [c.constructorText c.calledBases] else [] := by
  have hne : c.plainConstructor ≠ [] := Callable.fragments_ne_nil _
  unfold constructorSection
  rw [h]
  by_cases hneeds : c.needsConstructor = true
  · rw [if_pos ((needsConstructor_of_plain h).1 hneeds), hneeds]
    show sectionTexts [c.plainConstructor] = _
    rw [sectionTexts_singleton hne, textOf_plainConstructor]
  · rw [if_neg (mt (needsConstructor_of_plain h).2 hneeds),
      Bool.eq_false_iff.2 hneeds]
    rfl

/-- An upgradeable contract with a base that is
initialized has a constructor. -/
theorem needsConstructor_of_upgradeable (h : c.upgradeable = true)
    (hbases : c.initializedBases ≠ []) : c.needsConstructor = true := by
  unfold needsConstructor
  rw [h, List.isEmpty_eq_false_iff.2 hbases]
  exact Bool.or_true _

/-- The statements of an initializer, at their level. -/
theorem textOf_initializerCalls :
    textOf 2 (c.initializedBases.map fun b => .line (b.initializerCall ++ ";"))
      = textAt ((c.bases.filter fun b => b.name ≠ "Initializable").map fun b =>
        (2, b.callAs ("__" ++ b.name ++ "_init") ++ ";")) := by
  have hlines : (c.initializedBases.map
    fun b => Fragment.line (b.initializerCall ++ ";"))
      = (c.initializedBases.map
        fun b => b.callAs ("__" ++ b.name ++ "_init") ++ ";").map .line := by
    rw [List.map_map]
    exact List.map_congr_left fun b _ => by rw [Base.initializerCall_eq]; rfl
  rw [hlines, Fragment.textOf_map_line, List.map_map, initializedBases_eq]
  rfl

/-- The text of an initializer that has a base to call. -/
theorem textOf_initializeFunction (hbases : c.initializedBases ≠ []) :
    textOf 1 c.initializeFunction = c.initializerText := by
  let calls : List Fragment :=
    c.initializedBases.map fun b => .line (b.initializerCall ++ ";")
  let code : List Fragment := c.constructorCode.map .line
  have hcalls : calls ≠ [] := mt List.map_eq_nil_iff.1 hbases
  have hbody : (Fragment.joinSections [calls, code]).isEmpty = false := by
    rw [Fragment.isEmpty_joinSections, List.all_cons,
      List.isEmpty_eq_false_iff.2 hcalls]
    rfl
  have hcode : textOf 2 code = textAt (c.constructorCode.map (2, ·)) :=
    Fragment.textOf_map_line 2 c.constructorCode
  unfold initializeFunction
  rw [Callable.textOf_fragments]
  unfold Callable.braces Callable.closing
  dsimp only
  rw [hbody, constructorParams_eq]
  simp only [Bool.false_eq_true, if_false]
  rw [Fragment.textOf_cons, Fragment.textOf_block, Fragment.textOf_singleton,
    Fragment.textOf_joinSections_pair 2 hcalls, hcode, textOf_initializerCalls]
  unfold initializerText
  rw [Fragment.textAt_append]
  simp only [List.map_eq_nil_iff, String.append_assoc]

/-- The constructor section of an upgradeable contract with a
base to initialize. -/
theorem sectionTexts_upgradeable (h : c.upgradeable = true)
    (hbase : ∃ b ∈ c.bases, b.name ≠ "Initializable") :
    sectionTexts [c.constructorSection]
      = [lockedText ++ "\n" ++ c.initializerText] := by
  have hbases : c.initializedBases ≠ [] := by
    rw [initializedBases_eq]
    obtain ⟨b, hb, hname⟩ := hbase
    exact List.ne_nil_of_mem (List.mem_filter.2 ⟨hb, decide_eq_true hname⟩)
  have hlocked : lockedConstructor ≠ [] := List.cons_ne_nil _ _
  have hinit : c.initializeFunction ≠ [] := Callable.fragments_ne_nil _
  have hsection : c.constructorSection
      = Fragment.joinSections [lockedConstructor, c.initializeFunction] := by
    unfold constructorSection
    rw [needsConstructor_of_upgradeable h hbases, h]
    rfl
  have htext : textOf 1 c.constructorSection
      = lockedText ++ "\n" ++ c.initializerText := by
    rw [hsection, Fragment.textOf_joinSections_pair 1 hlocked, if_neg hinit,
      textOf_initializeFunction hbases, ← String.append_assoc]
    rfl
  have hne : c.constructorSection ≠ [] := by
    intro hnil
    rw [hsection, ← List.isEmpty_iff, Fragment.isEmpty_joinSections] at hnil
    cases hnil
  rw [sectionTexts_singleton hne, htext]

end Contract

/-- A section is in the text of its contract. -/
theorem occurs_section {x : String} {sections : List String}
    (hx : x ∈ sections) {heading : String} :
    Occurs x (heading ++ "\n" ++ "\n".intercalate sections ++ "\x7d\n") :=
  (occurs_intercalate hx).trans ⟨heading ++ "\n", "\x7d\n", rfl⟩

-- ============================================================== the theorems

open Contract

/-- The constructor of a plain contract. There is one exactly if a base has
arguments, or the contract has arguments or lines of its own for it. Its
heading calls, in the order of the bases, each base with arguments that is not
named `Initializable`, with all its arguments, and no other base: these are all
the bases with arguments exactly if none of that name has any. -/
theorem constructor_calls_bases (name : String) (history : List Step) :
    let c := replay history { name }
    c.upgradeable = false →
      (c.calledBases = c.basesWithArgs
        ↔ ∀ b ∈ c.bases, b.name = "Initializable" → b.args = [])
        ∧ ∀ (transform : String → String) (cs : List Contract) (text : String),
          c ∈ cs → SourceFile.print transform cs = .ok text →
            Occurs c.blockText text
              ∧ c.blockText = c.heading ++ "\n"
                ++ "\n".intercalate (sectionTexts [c.usingSection]
                  ++ (if (∃ b ∈ c.bases, b.args ≠ []) ∨ c.constructorArgs ≠ []
                        ∨ c.constructorCode ≠ []
                      then [c.constructorText c.calledBases] else [])
                  ++ c.lowerTexts)
                ++ "\x7d\n" := by
  intro c hplain
  refine ⟨calledBases_eq_iff, fun transform cs text hc hprint => ?_⟩
  obtain ⟨-, hoccurs, hblock⟩ := sections_of_print rfl hc hprint
  rw [sectionTexts_plain hplain] at hblock
  exact ⟨hoccurs, hblock⟩

/-- Bases with and without arguments of a plain contract, and none with
arguments that is named `Initializable`. -/
def mixedBases : List Step :=
  [.base ⟨⟨"Initializable", "./Initializable.sol"⟩, []⟩,
    .base ⟨⟨"Named", "./Named.sol"⟩, [.text "My \"Token\"", .integer (-7)]⟩,
    .base ⟨⟨"Paused", "./Paused.sol"⟩, []⟩,
    .base ⟨⟨"Owned", "./Owned.sol"⟩, [.verbatim "msg.sender"]⟩,
    .constructorArg ⟨"cap", "uint256"⟩, .constructorLine "limit = cap;"]

/-- All bases with arguments are called, in their order, above the
constructor's own line. -/
theorem constructor_of_mixedBases :
    let c := replay mixedBases { name := "Token" }
    c.upgradeable = false ∧ c.calledBases = c.basesWithArgs
      ∧ ∃ text, SourceFile.printPlain [c] = .ok text
        ∧ Occurs ("    constructor(uint256 cap) "
          ++ "Named(\"My \\\"Token\\\"\", -7) Owned(msg.sender) \x7b\n"
          ++ "        limit = cap;\n    \x7d\n") text := by
  intro c
  obtain ⟨hcalled, hshown⟩ := constructor_calls_bases "Token" mixedBases rfl
  obtain ⟨text, hprint⟩ :
      ∃ text, SourceFile.printPlain [c] = .ok text := ⟨_, rfl⟩
  obtain ⟨hoccurs, hblock⟩ :=
    hshown id [c] text (List.mem_singleton_self c) hprint
  have htext : c.constructorText c.calledBases
      = "    constructor(uint256 cap) "
        ++ "Named(\"My \\\"Token\\\"\", -7) Owned(msg.sender) \x7b\n"
        ++ "        limit = cap;\n    \x7d\n" := by
    decide +kernel
  refine ⟨rfl, hcalled.2 (by decide), text, hprint, ?_⟩
  rw [← htext]
  refine Occurs.trans ?_ hoccurs
  rw [hblock, if_pos (by decide)]
  exact occurs_section (List.mem_append_left _
    (List.mem_append_right _ (List.mem_singleton_self _)))

/-- The argument of a base named `Initializable` makes a
constructor and is lost. -/
theorem constructor_loses_argument :
    let c := replay
      [.base ⟨⟨"Initializable", "./Initializable.sol"⟩, [.integer 1]⟩]
      { name := "Token" }
    c.upgradeable = false ∧ c.basesWithArgs ≠ []
      ∧ SourceFile.printPlain [c] = .ok (SourceFile.headerText "MIT"
        ++ "\nimport \"./Initializable.sol\";\n\n"
        ++ "contract Token is Initializable \x7b\n"
        ++ "    constructor() \x7b\x7d\n\x7d\n") := by
  decide +kernel

/-- The constructor of an upgradeable contract with a base that is not named
`Initializable`. It is locked, and below it, after a blank line, stands one
function that calls the initializer of every such base in their order, with or
without arguments, and then has the lines of the constructor. The headings are
those of the two, of the contract with the names of its bases, and of its
functions, which are laid out by their entries; none of them calls a base. -/
theorem initializer_calls_bases (name : String) (history : List Step) :
    let c := replay history { name }
    c.upgradeable = true → (∃ b ∈ c.bases, b.name ≠ "Initializable") →
      ∀ (transform : String → String) (cs : List Contract) (text : String),
        c ∈ cs → SourceFile.print transform cs = .ok text →
          Occurs c.blockText text
            ∧ c.blockText = c.heading ++ "\n"
              ++ "\n".intercalate (sectionTexts [c.usingSection]
                ++ [lockedText ++ "\n" ++ c.initializerText] ++ c.lowerTexts)
              ++ "\x7d\n"
            ∧ c.heading = "contract " ++ c.name ++ " is "
              ++ ", ".intercalate (c.baseNames.map c.shownName) ++ " \x7b"
            ∧ ∀ m, m ∈ c.introduced ∨ m ∈ c.redeclared →
              ∃ heading, c.LaidOut m heading := by
  intro c hupgradeable hbase transform cs text hc hprint
  obtain ⟨hresolved, hoccurs, hblock⟩ := sections_of_print rfl hc hprint
  have hbases : c.bases ≠ [] := by
    obtain ⟨b, hb, -⟩ := hbase
    exact List.ne_nil_of_mem hb
  rw [sectionTexts_upgradeable hupgradeable hbase] at hblock
  refine ⟨hoccurs, hblock, heading_of_bases hbases, fun m hm => ?_⟩
  have hdeclared := not_omitted_of_declared
      (represents_replay name history).printed hm
  exact ⟨_, hresolved.laidOut m hdeclared.1⟩

/-- An upgradeable contract with a base named `Initializable` among the others,
whose initializers take two arguments, none, and one. -/
def proxiedBases : List Step :=
  [.base ⟨⟨"Named", "./Named.sol"⟩, [.text "Token", .text "TKN"]⟩,
    .upgradeable, .base ⟨⟨"Initializable", "./Initializable.sol"⟩, []⟩,
    .base ⟨⟨"Paused", "./Paused.sol"⟩, []⟩,
    .base ⟨⟨"Owned", "./Owned.sol"⟩, [.verbatim "owner"]⟩,
    .constructorArg ⟨"owner", "address"⟩, .constructorArg ⟨"cap", "uint256"⟩,
    .constructorLine "limit = cap;"]

/-- Below the locked constructor, one function calls the three initializers in
their order and then has the constructor's own line. -/
theorem initializer_of_proxiedBases :
    let c := replay proxiedBases { name := "Token" }
    c.upgradeable = true ∧ (∃ b ∈ c.bases, b.name ≠ "Initializable")
      ∧ ∃ text, SourceFile.printPlain [c] = .ok text
        ∧ Occurs ("    /// @custom:oz-upgrades-unsafe-allow constructor\n"
          ++ "    constructor() initializer \x7b\x7d\n\n"
          ++ "    function initialize(address owner, uint256 cap) "
            ++ "initializer public \x7b\n"
          ++ "        __Named_init(\"Token\", \"TKN\");\n"
          ++ "        __Paused_init();\n"
          ++ "        __Owned_init(owner);\n\n"
          ++ "        limit = cap;\n    \x7d\n") text := by
  intro c
  have hbase : ∃ b ∈ c.bases, b.name ≠ "Initializable" := by decide
  obtain ⟨text, hprint⟩ :
      ∃ text, SourceFile.printPlain [c] = .ok text := ⟨_, rfl⟩
  obtain ⟨hoccurs, hblock, -⟩ :=
    initializer_calls_bases "Token" proxiedBases rfl hbase id [c] text
    (List.mem_singleton_self c) hprint
  have htext : lockedText ++ "\n" ++ c.initializerText
      = "    /// @custom:oz-upgrades-unsafe-allow constructor\n"
        ++ "    constructor() initializer \x7b\x7d\n\n"
        ++ "    function initialize(address owner, uint256 cap) "
          ++ "initializer public \x7b\n"
        ++ "        __Named_init(\"Token\", \"TKN\");\n"
        ++ "        __Paused_init();\n"
        ++ "        __Owned_init(owner);\n\n"
        ++ "        limit = cap;\n    \x7d\n" := by
    decide +kernel
  refine ⟨rfl, hbase, text, hprint, ?_⟩
  rw [← htext]
  refine Occurs.trans ?_ hoccurs
  rw [hblock]
  exact occurs_section (List.mem_append_left _
    (List.mem_append_right _ (List.mem_singleton_self _)))

end TokenForge
