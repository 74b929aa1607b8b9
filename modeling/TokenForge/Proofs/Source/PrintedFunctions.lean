/-
What stands between the braces of a printed contract. The functions it
introduces come first, in the order of the table; then, under one comment if
there are any, those it declares again, in that order too. Each of them stands
there as its entry says (`Contract.LaidOut`), and beside them the table has
only functions that are as their one base has them (`printed_functions`).
-/
import TokenForge.Proofs.Source.MethodLayout

namespace TokenForge

open Contract

/-- The text of a printed contract: the functions it introduces, then, under
the one comment if there are any, those it declares again, between the other
sections and with a blank line between neighbours. Each of these functions is
laid out by its entry. The table has each signature once, in the order in which
the signatures were first spoken of, and what it has beside these functions is
what a single base declares and to which nothing was added. -/
theorem printed_functions (name : String) (history : List Step) :
    let c := replay history { name }
    c.signatures = ((spoken history).map (·.signature)).eraseDups
      ∧ c.signatures.Nodup
      ∧ (∀ m ∈ c.methods, (m ∉ c.introduced ∧ m ∉ c.redeclared)
        ↔ m.ancestors.length = 1 ∧ m.modifiers = [] ∧ m.code = []
          ∧ m.isReplaced = false)
      ∧ ∀ (transform : String → String) (cs : List Contract) (text : String),
        c ∈ cs → SourceFile.print transform cs = .ok text →
          Occurs c.blockText text
            ∧ c.blockText = c.heading ++ "\n"
              ++ "\n".intercalate
                (sectionTexts [c.usingSection, c.constructorSection]
                ++ c.introduced.map c.functionText
                ++ (if c.redeclared = [] then []
                  else ["    // The following functions are overrides "
                    ++ "required by Solidity.\n"])
                ++ c.redeclared.map c.functionText
                ++ sectionTexts [c.variableSection])
              ++ "\x7d\n"
            ∧ ∀ m, m ∈ c.introduced ∨ m ∈ c.redeclared →
              ∃ heading, c.LaidOut m heading := by
  intro c
  have hrep := represents_replay name history
  have hwf := wellFormed_replay history name
  refine ⟨hrep.first_spoken, hrep.signatures_distinct, fun m hm => ?_,
    fun transform cs text hc hprint => ?_⟩
  · unfold introduced redeclared
    simp only [List.mem_filter, hm, true_and, decide_eq_true_eq]
    unfold Method.Redeclared Method.Touched
    rw [← List.length_eq_zero_iff, ← Bool.not_eq_true]
    by_cases hone : m.ancestors.length = 1
    · simp [hone]
    · simp only [hone, false_and, or_false, iff_false, not_and, not_not]
      omega
  · obtain ⟨hresolved, hoccurs, hblock⟩ := resolved_of_print hwf hc hprint
    rw [hresolved.textOf_body hrep.printed] at hblock
    exact ⟨hoccurs, hblock, fun m hm => (laidOut_of_print rfl hc hprint hm).2⟩

/-- A history with a function of every kind: one of its own, one whose body was
replaced by nothing, one that is as its only base has it, and one of two
bases. -/
def mixedHistory : List Step :=
  let internal : String → Declaration :=
    fun name => { name, visibility := .inside }
  [.base ⟨⟨"Left", "./Left.sol"⟩, []⟩, .base ⟨⟨"Right", "./Right.sol"⟩, []⟩,
    .ancestor "Left" (internal "burn"), .ancestor "Left" (internal "move"),
    .line "supply += 1;" (internal "mint"),
      .ancestor "Right" (internal "hook"),
    .body [] (internal "burn"), .ancestor "Left" (internal "hook")]

/-- Its contract declares three of the four functions, and this is its text. -/
theorem printed_functions_of_mixed :
    let c := replay mixedHistory { name := "Token" }
    c.introduced.map (·.decl.name) = ["mint"]
      ∧ c.redeclared.map (·.decl.name) = ["burn", "hook"]
      ∧ ∃ text, SourceFile.printPlain [c] = .ok text
        ∧ Occurs c.blockText text
        ∧ c.blockText = "contract Token is Left, Right \x7b\n"
          ++ "\n".intercalate
            ["    function mint() internal \x7b\n"
                ++ "        supply += 1;\n    \x7d\n",
              "    // The following functions are overrides "
                ++ "required by Solidity.\n",
              "    function burn() internal override \x7b\x7d\n",
              "    function hook() internal override(Left, Right) \x7b\n"
                ++ "        super.hook();\n    \x7d\n"]
          ++ "\x7d\n" := by
  intro c
  obtain ⟨text, hprint⟩ :
      ∃ text, SourceFile.printPlain [c] = .ok text := ⟨_, rfl⟩
  obtain ⟨-, -, -, hshown⟩ := printed_functions "Token" mixedHistory
  obtain ⟨hoccurs, hblock, hlaid⟩ :=
    hshown id [c] text (List.mem_singleton_self c) hprint
  refine ⟨by decide, by decide, text, hprint, hoccurs, ?_⟩
  let mint : Method :=
    ⟨{ name := "mint",
       visibility := .inside }, [], [], .grown ["supply += 1;"]⟩
  let burn : Method :=
    ⟨{ name := "burn", visibility := .inside }, ["Left"], [], .replaced []⟩
  let hook : Method :=
    ⟨{ name := "hook",
       visibility := .inside }, ["Right", "Left"], [], .untouched⟩
  have hintroduced : c.introduced = [mint] := by decide
  have hredeclared : c.redeclared = [burn, hook] := by decide
  have hupper : sectionTexts [c.usingSection, c.constructorSection] = [] := rfl
  have hlower : sectionTexts [c.variableSection] = [] := rfl
  have hmint : c.functionText mint
      = "    function mint() internal \x7b\n"
        ++ "        supply += 1;\n    \x7d\n" := by
    obtain ⟨heading, h⟩ := hlaid mint (.inl (by decide))
    exact h.text.trans (by rw [h.short (by decide)]; rfl)
  have hburn : c.functionText burn
      = "    function burn() internal override \x7b\x7d\n" := by
    obtain ⟨heading, h⟩ := hlaid burn (.inr (by decide))
    exact h.text.trans (by rw [h.short (by decide)]; rfl)
  have hhook : c.functionText hook
      = "    function hook() internal override(Left, Right) \x7b\n"
        ++ "        super.hook();\n    \x7d\n" := by
    obtain ⟨heading, h⟩ := hlaid hook (.inr (by decide))
    exact h.text.trans (by rw [h.short (by decide)]; rfl)
  have hheading : c.heading = "contract Token is Left, Right \x7b" := rfl
  -- the text is stated of the contract by its history
  change c.blockText = c.heading ++ "\n"
    ++ "\n".intercalate (sectionTexts [c.usingSection, c.constructorSection]
      ++ c.introduced.map c.functionText
        ++ (if c.redeclared = [] then [] else _)
      ++ c.redeclared.map c.functionText ++ sectionTexts [c.variableSection])
    ++ _ at hblock
  rw [hblock]
  clear_value c
  rw [hheading, hintroduced, hredeclared, hupper, hlower]
  simp only [List.map_cons, List.map_nil, hmint, hburn, hhook]
  rfl

end TokenForge
