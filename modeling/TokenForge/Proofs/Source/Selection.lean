/-
Which functions a printed contract declares. A function without ancestors is
declared, and so is one that several bases declare, or one that a single base
declares and to which something was added; a function that its only base
declares and that is as the base has it needs no declaration. The printer
decides this in two places, once by what was added (`Method.isOmitted`) and
once by the mark, and the two agree because no entry of a table is bare
(`represents_replay`): what has no ancestor is never left out.

So the printed functions are two filters of the table, both in its order, and
the text between the braces is the texts of the sections one after the other
with a blank line between neighbours (`textOf_body`).
-/
import TokenForge.Proofs.Contract.Invariant
import TokenForge.Proofs.Source.Composition

namespace TokenForge

-- ============================================================== selection

namespace Method

/-- Something was added to a function: a modifier, a line, or a body as a
whole, be it empty. -/
def Touched (m : Method) : Prop :=
  m.modifiers ≠ [] ∨ m.code ≠ [] ∨ m.isReplaced = true

instance : DecidablePred Touched := fun m =>
  inferInstanceAs
    (Decidable (m.modifiers ≠ [] ∨ m.code ≠ [] ∨ m.isReplaced = true))

/-- A function of the bases has to be declared again. -/
def Redeclared (m : Method) : Prop :=
  2 ≤ m.ancestors.length ∨ m.ancestors.length = 1 ∧ m.Touched

instance : DecidablePred Redeclared := fun m =>
  inferInstanceAs
    (Decidable (2 ≤ m.ancestors.length ∨ m.ancestors.length = 1 ∧ m.Touched))

theorem isBare_eq_false_iff {m : Method} : m.isBare = false ↔ m.Touched := by
  unfold isBare Touched
  simp only [Bool.and_eq_false_iff, Bool.not_eq_false',
    List.isEmpty_eq_false_iff, ne_eq, or_assoc]

/-- A function with ancestors is printed exactly if it has
to be declared again. -/
theorem isOmitted_eq_false_iff {m : Method} (h : m.ancestors ≠ []) :
    m.isOmitted = false ↔ m.Redeclared := by
  have hlength : 0 < m.ancestors.length := List.length_pos_iff.2 h
  unfold isOmitted Redeclared
  rw [Bool.and_eq_false_iff, isBare_eq_false_iff, decide_eq_false_iff_not]
  constructor
  · rintro (hmany | htouched)
    · exact .inl (by omega)
    · by_cases hone : m.ancestors.length = 1
      · exact .inr ⟨hone, htouched⟩
      · exact .inl (by omega)
  · rintro (hmany | ⟨-, htouched⟩)
    · exact .inl (by omega)
    · exact .inr htouched

end Method

namespace Contract

/-- The functions that a contract introduces, in the order of its table. -/
def introduced (c : Contract) : List Method :=
  c.methods.filter fun m => m.ancestors = []

/-- The functions that a contract declares again, in the order of its table. -/
def redeclared (c : Contract) : List Method :=
  c.methods.filter fun m => m.Redeclared

/-- The text of a function in the body of its contract. -/
def functionText (c : Contract) (m : Method) : String :=
  match OverrideMark.resolve c m with
  | .ok mark => Fragment.textOf 1 (m.fragments c mark)
  | .error _ => ""

/-- The texts of the sections with something in them, one level deep. -/
def sectionTexts (sections : List (List Fragment)) : List String :=
  (sections.filter fun s => !s.isEmpty).map (Fragment.textOf 1)

theorem sectionTexts_append (sections sections' : List (List Fragment)) :
    sectionTexts (sections ++ sections')
      = sectionTexts sections ++ sectionTexts sections' := by
  unfold sectionTexts
  rw [List.filter_append, List.map_append]

theorem sectionTexts_singleton {s : List Fragment} (h : s ≠ []) :
    sectionTexts [s] = [Fragment.textOf 1 s] := by
  have hne : (!s.isEmpty) = true := by simpa using h
  unfold sectionTexts
  rw [List.filter_cons, if_pos hne]
  rfl

-- ===================================================== resolved contracts

variable {c : Contract}

/-- A contract that can be printed has only bases as ancestors. -/
theorem Resolved.of_block (hc : c.WellFormed) {b : List Fragment}
    (h : c.block = .ok b) :
    c.Resolved := by
  obtain ⟨marked, hmarked, -⟩ := block_eq_ok.1 h
  exact ⟨hc, (marked_failsWith c).ok_iff.1 ⟨marked, hmarked⟩⟩

theorem Resolved.functionText (h : c.Resolved) {m : Method}
    (hm : m ∈ c.methods) :
    c.functionText m
      = Fragment.textOf 1
        (m.fragments c (OverrideMark.exact c.baseNames m.ancestors)) := by
  unfold Contract.functionText
  rw [OverrideMark.resolve_of_known h.wellFormed.bases_distinct
    (h.wellFormed.ancestors_distinct m hm) (h.known m hm)]

-- ============================================================ the sections

variable {bases : List String} {ms : List Method}

/-- The printed functions without a mark are those without ancestors. -/
theorem newMethods_exactlyMarked
    (hprinted : ∀ m ∈ ms, m.ancestors = [] → m.isOmitted = false) :
    newMethods (exactlyMarked bases ms)
      = exactlyMarked bases (ms.filter fun m => m.ancestors = []) := by
  unfold newMethods printedMethods exactlyMarked
  rw [List.filter_map, List.filter_map, List.filter_filter]
  congr 1
  refine List.filter_congr fun m hm => ?_
  by_cases hnone : m.ancestors = []
  · simp [hnone, hprinted m hm hnone, OverrideMark.exact]
  · have hmark : OverrideMark.exact bases m.ancestors ≠ .new :=
      fun h => hnone (OverrideMark.exact_eq_new.1 h)
    simp [hnone, hmark]

/-- The printed functions with a mark are those that have
to be declared again. -/
theorem overridingMethods_exactlyMarked :
    overridingMethods (exactlyMarked bases ms)
      = exactlyMarked bases (ms.filter fun m => m.Redeclared) := by
  unfold overridingMethods printedMethods exactlyMarked
  rw [List.filter_map, List.filter_map, List.filter_filter]
  congr 1
  refine List.filter_congr fun m _ => ?_
  by_cases hnone : m.ancestors = []
  · simp [hnone, OverrideMark.exact, Method.Redeclared]
  · have hmark : OverrideMark.exact bases m.ancestors ≠ .new :=
      fun h => hnone (OverrideMark.exact_eq_new.1 h)
    have hkept := Method.isOmitted_eq_false_iff hnone
    by_cases hre : m.Redeclared
    · simp [hmark, hre, hkept.2 hre]
    · have homitted : m.isOmitted = true := by
        rw [← Bool.not_eq_false]
        exact fun h => hre (hkept.1 h)
      simp [hre, homitted]

/-- The texts of the sections of some functions of a resolved contract. -/
theorem sectionTexts_methodSections (h : c.Resolved)
    (hms : ∀ m ∈ ms, m ∈ c.methods) :
    sectionTexts (c.methodSections (exactlyMarked c.baseNames ms))
      = ms.map c.functionText := by
  have hsections : c.methodSections (exactlyMarked c.baseNames ms)
      = ms.map fun m => m.fragments c
        (OverrideMark.exact c.baseNames m.ancestors) := by
    unfold methodSections exactlyMarked
    rw [List.map_map]
    rfl
  have hne : ∀ s ∈ c.methodSections (exactlyMarked c.baseNames ms),
      (!s.isEmpty) = true := by
    intro s hs
    rw [hsections] at hs
    obtain ⟨m, -, rfl⟩ := List.mem_map.1 hs
    unfold Method.fragments Callable.fragments Callable.heading
    split <;> simp
  unfold sectionTexts
  rw [List.filter_eq_self.2 hne, hsections, List.map_map]
  exact List.map_congr_left fun m hm => (h.functionText (hms m hm)).symm

/-- What stands between the braces of a resolved contract whose functions
without ancestors are all printed. -/
theorem Resolved.textOf_body (h : c.Resolved)
    (hprinted : ∀ m ∈ c.methods, m.ancestors = [] → m.isOmitted = false) :
    Fragment.textOf 1 (c.body (exactlyMarked c.baseNames c.methods))
      = "\n".intercalate (sectionTexts [c.usingSection, c.constructorSection]
        ++ c.introduced.map c.functionText
        ++ (if c.redeclared = [] then []
          else ["    // The following functions are overrides "
            ++ "required by Solidity.\n"])
        ++ c.redeclared.map c.functionText
        ++ sectionTexts [c.variableSection]) := by
  have hnew : newMethods (exactlyMarked c.baseNames c.methods)
      = exactlyMarked c.baseNames c.introduced :=
    newMethods_exactlyMarked hprinted
  have hover : overridingMethods (exactlyMarked c.baseNames c.methods)
      = exactlyMarked c.baseNames c.redeclared :=
    overridingMethods_exactlyMarked
  have hcomment : sectionTexts
      [commentSection (exactlyMarked c.baseNames c.methods)]
      = if c.redeclared = [] then []
        else ["    // The following functions are overrides "
          ++ "required by Solidity.\n"] := by
    unfold commentSection
    rw [hover]
    unfold exactlyMarked
    cases c.redeclared with
    | nil => rfl
    | cons m ms => rfl
  have hintroduced : ∀ m ∈ c.introduced, m ∈ c.methods :=
    fun m hm => (List.mem_filter.1 hm).1
  have hredeclared : ∀ m ∈ c.redeclared, m ∈ c.methods :=
    fun m hm => (List.mem_filter.1 hm).1
  unfold body
  rw [Fragment.textOf_joinSections_eq, hnew, hover]
  show "\n".intercalate (sectionTexts _) = _
  rw [sectionTexts_append, sectionTexts_append, sectionTexts_append,
    sectionTexts_append, hcomment, sectionTexts_methodSections h hintroduced,
    sectionTexts_methodSections h hredeclared]

/-- A contract of a printed file is resolved, and its text is in
the text of the file. -/
theorem resolved_of_print (hc : c.WellFormed) {transform : String → String}
    {cs : List Contract} {text : String} (hmem : c ∈ cs)
    (h : SourceFile.print transform cs = .ok text) :
    c.Resolved ∧ Occurs c.blockText text
      ∧ c.blockText = c.heading ++ "\n"
        ++ Fragment.textOf 1 (c.body (exactlyMarked c.baseNames c.methods))
          ++ "\x7d\n" := by
  obtain ⟨marked, hmarked, hoccurs⟩ := SourceFile.occurs_print h hmem
  have hblock : c.block = .ok (c.blockOf marked) :=
    block_eq_ok.2 ⟨marked, hmarked, rfl⟩
  have hresolved : c.Resolved := .of_block hc hblock
  have hexact : c.blockOf marked
      = c.blockOf (exactlyMarked c.baseNames c.methods) :=
    Except.ok.inj (hblock.symm.trans hresolved.block)
  have htext : c.blockText = Fragment.textOf 0 (c.blockOf marked) := by
    unfold blockText shownBlock
    rw [hblock]
  rw [← htext] at hoccurs
  exact ⟨hresolved, hoccurs, by rw [htext, hexact, textOf_blockOf]⟩

/-- The texts of the sections below the constructor: the functions a contract
introduces, those it declares again under their comment, and the variables. -/
def lowerTexts (c : Contract) : List String :=
  c.introduced.map c.functionText
    ++ (if c.redeclared = [] then []
      else ["    // The following functions are overrides "
        ++ "required by Solidity.\n"])
    ++ c.redeclared.map c.functionText
    ++ sectionTexts [c.variableSection]

/-- The text of a contract that a history leaves is in the text of the file,
and is the heading with the sections below it. -/
theorem sections_of_print {name : String} {history : List Step}
    (hc : c = replay history { name }) {transform : String → String}
    {cs : List Contract} {text : String} (hmem : c ∈ cs)
    (h : SourceFile.print transform cs = .ok text) :
    c.Resolved ∧ Occurs c.blockText text
      ∧ c.blockText = c.heading ++ "\n"
        ++ "\n".intercalate
          (sectionTexts [c.usingSection] ++ sectionTexts [c.constructorSection]
          ++ c.lowerTexts)
        ++ "\x7d\n" := by
  subst hc
  have hwf := wellFormed_replay history name
  have hprinted := (represents_replay name history).printed
  obtain ⟨hresolved, hoccurs, hblock⟩ := resolved_of_print hwf hmem h
  have hsections : sectionTexts [usingSection _, constructorSection _]
      = sectionTexts [(replay history { name }).usingSection]
        ++ sectionTexts [(replay history { name }).constructorSection] :=
    sectionTexts_append [_] [_]
  refine ⟨hresolved, hoccurs, ?_⟩
  rw [hblock, hresolved.textOf_body hprinted, hsections]
  unfold lowerTexts
  simp only [List.append_assoc]

end Contract

end TokenForge
