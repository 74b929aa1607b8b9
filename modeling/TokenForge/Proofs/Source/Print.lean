/-
What stands where in a printed file. A file is printed exactly if every one
of its contracts has a block (`print_eq_ok`), and a contract has a block
exactly if each of its functions has a mark (`block_eq_ok`). The text of a
printed contract is then in the text of the file, between the heading with
its bases and the closing brace (`occurs_print`, `textOf_blockOf`), the text
of a function that is not left out is in the text of its contract
(`infix_body_method`), and every word of a heading is in the text of its
function, whichever layout the heading takes (`occurs_headingWord`).
-/
import TokenForge.Proofs.Contract.Override
import TokenForge.Proofs.Contract.Replay
import TokenForge.Proofs.Fragment.Text
import TokenForge.Source.File

namespace TokenForge

-- ================================================================= words

/-- A word of a heading is in the text in either layout. -/
theorem Callable.occurs_headingWord {f : Callable} {word : String}
    (h : word ∈ f.modifiers) (level : Nat) :
    Occurs word (Fragment.textOf level f.fragments) := by
  have hheading : Occurs word (Fragment.textOf level f.heading) := by
    unfold heading
    split
    · refine Occurs.trans (occurs_intercalate ?_)
        (Fragment.occurs_line level (List.mem_singleton_self _))
      exact List.mem_cons_of_mem _ (List.mem_append_left _ h)
    · refine Occurs.trans (Fragment.occurs_line (level + 1) ?_)
        (Fragment.occurs_block level
          (List.mem_cons_of_mem _ (List.mem_cons_self ..)))
      exact List.mem_map_of_mem h
  exact hheading.trans
    (Fragment.occurs_textOf level (List.prefix_append _ _).isInfix)

namespace Contract

variable {c : Contract} {marked : List (Method × OverrideMark)}

-- ================================================================= marks

theorem mem_marked (h : c.marked = .ok marked) {m : Method}
    (hm : m ∈ c.methods) {mark : OverrideMark}
    (hmark : OverrideMark.resolve c m = .ok mark) : (m, mark) ∈ marked := by
  obtain ⟨p, hp, hstep⟩ := mem_of_mapM h hm
  rw [hmark] at hstep
  cases hstep
  exact hp

-- ================================================================ blocks

/-- A contract has a block exactly if its functions have marks. -/
theorem block_eq_ok {b : List Fragment} :
    c.block = .ok b ↔ ∃ marked,
      c.marked = .ok marked ∧ b = c.blockOf marked := by
  unfold block
  cases c.marked with
  | error e =>
      constructor
      · intro h
        cases h
      · rintro ⟨marked, h, -⟩
        cases h
  | ok marked =>
      constructor
      · intro h
        cases h
        exact ⟨marked, rfl, rfl⟩
      · rintro ⟨marked', h, rfl⟩
        cases h
        rfl

/-- The text of a contract: its heading, its body and a brace. -/
theorem textOf_blockOf (c : Contract) (marked : List (Method × OverrideMark)) :
    Fragment.textOf 0 (c.blockOf marked)
      = c.heading ++ "\n" ++ Fragment.textOf 1 (c.body marked)
        ++ "\x7d\n" := by
  unfold blockOf
  rw [Fragment.textOf_cons, Fragment.textOf_cons _ (.block _),
    Fragment.textOf_line, Fragment.textOf_line, Fragment.textOf_block,
    Fragment.indentation_zero]
  simp [String.append_assoc]

theorem heading_of_bases (h : c.bases ≠ []) :
    c.heading = "contract " ++ c.name ++ " is "
      ++ ", ".intercalate (c.baseNames.map c.shownName) ++ " \x7b" := by
  have hnames : (c.baseNames.map c.shownName).isEmpty = false := by
    unfold baseNames
    rw [List.isEmpty_map, List.isEmpty_map]
    exact List.isEmpty_eq_false_iff.2 h
  unfold heading
  dsimp only
  rw [hnames]
  simp [String.append_assoc]

/-- A function that is not left out is in the body of its contract. -/
theorem infix_body_method {m : Method} {mark : OverrideMark}
    (hm : (m, mark) ∈ marked) (hprinted : m.isOmitted = false) :
    m.fragments c mark <:+: c.body marked := by
  have hkept : (m, mark) ∈ printedMethods marked :=
    List.mem_filter.2 ⟨hm, by simp [hprinted]⟩
  have hsection : ∀ {l : List (Method × OverrideMark)}, (m, mark) ∈ l →
      m.fragments c mark ∈ c.methodSections l :=
    fun hl => List.mem_map.2 ⟨(m, mark), hl, rfl⟩
  apply Fragment.infix_joinSections
  by_cases hnew : mark = .new
  · have hmem : (m, mark) ∈ newMethods marked :=
      List.mem_filter.2 ⟨hkept, by rw [hnew]; rfl⟩
    simp only [List.mem_append]
    exact .inl (.inl (.inl (.inr (hsection hmem))))
  · have hmem : (m, mark) ∈ overridingMethods marked :=
      List.mem_filter.2 ⟨hkept, by simpa using hnew⟩
    simp only [List.mem_append]
    exact .inl (.inr (hsection hmem))

-- ================================================== sections of functions

/-- The functions of a table with the marks they carry if all ancestors are
bases. -/
def exactlyMarked (bases : List String) (ms : List Method) :
    List (Method × OverrideMark) :=
  ms.map fun m => (m, OverrideMark.exact bases m.ancestors)

section Related

variable {R : Method → Method → Prop} {bases : List String}
  {ms ns : List Method}

/-- Of tables of related functions, related functions are printed, for any
selection of the functions by their marks. -/
theorem rel_printedMethods (h : List.Forall₂ R ms ns)
    (homit : ∀ m n, R m n → m.isOmitted = n.isOmitted)
    (hmark : ∀ m n, R m n →
      OverrideMark.exact bases m.ancestors
        = OverrideMark.exact bases n.ancestors)
    (keep : OverrideMark → Bool) :
    List.Forall₂
      (fun p q => R p.1 q.1 ∧ p.2 = OverrideMark.exact bases p.1.ancestors
        ∧ q.2 = p.2)
      ((printedMethods (exactlyMarked bases ms)).filter fun p => keep p.2)
      ((printedMethods (exactlyMarked bases ns)).filter
        fun p => keep p.2) := by
  induction h with
  | nil => exact .nil
  | @cons m n ms ns hmn _ ih =>
      unfold exactlyMarked printedMethods at ih ⊢
      simp only [List.map_cons, List.filter_cons, ← hmark m n hmn,
        ← homit m n hmn]
      by_cases hprinted : m.isOmitted = true
      · simpa only [hprinted, Bool.not_true, Bool.false_eq_true, if_false]
          using ih
      · by_cases hkeep : keep (OverrideMark.exact bases m.ancestors) = true
        · simpa [hprinted, hkeep, hmn] using ih
        · simpa [hprinted, hkeep] using ih

/-- So tables of related functions have related sections. -/
theorem rel_methodSections {S : List Fragment → List Fragment → Prop}
    {c c' : Contract} (h : List.Forall₂ R ms ns)
    (homit : ∀ m n, R m n → m.isOmitted = n.isOmitted)
    (hmark : ∀ m n, R m n →
      OverrideMark.exact bases m.ancestors
        = OverrideMark.exact bases n.ancestors)
    (hprint : ∀ m n, R m n →
      S (m.fragments c (OverrideMark.exact bases m.ancestors))
        (n.fragments c' (OverrideMark.exact bases m.ancestors)))
    (keep : OverrideMark → Bool) :
    List.Forall₂ S
      (c.methodSections
        ((printedMethods (exactlyMarked bases ms)).filter fun p => keep p.2))
      (c'.methodSections
        ((printedMethods (exactlyMarked bases ns)).filter
          fun p => keep p.2)) := by
  unfold methodSections
  rw [List.forall₂_map_left_iff, List.forall₂_map_right_iff]
  refine (rel_printedMethods h homit hmark keep).imp fun p q hpq => ?_
  obtain ⟨hmn, hp, hq⟩ := hpq
  show S (p.1.fragments c p.2) (q.1.fragments c' q.2)
  rw [hq, hp]
  exact hprint _ _ hmn

end Related

/-- Whether the comment is printed shows in the sections that follow it. -/
theorem commentSection_congr {c c' : Contract}
    {marked marked' : List (Method × OverrideMark)}
    (h : (c.methodSections (overridingMethods marked)).isEmpty
      = (c'.methodSections (overridingMethods marked')).isEmpty) :
    commentSection marked = commentSection marked' := by
  unfold methodSections at h
  rw [List.isEmpty_map, List.isEmpty_map] at h
  unfold commentSection
  rw [h]

-- ====================================================== resolved contracts

/-- A well-formed contract all of whose ancestors are bases. -/
structure Resolved (c : Contract) : Prop where
  wellFormed : c.WellFormed
  known : ∀ m ∈ c.methods, ∀ a ∈ m.ancestors, a ∈ c.baseNames

theorem Resolved.block (h : c.Resolved) :
    c.block = .ok (c.blockOf (exactlyMarked c.baseNames c.methods)) :=
  block_eq_ok.2 ⟨_, marked_of_known h.wellFormed.bases_distinct
    h.wellFormed.ancestors_distinct h.known, rfl⟩

end Contract

-- ================================================================= files

namespace SourceFile

/-- A file is printed exactly if each of its contracts has a block. -/
theorem print_eq_ok {transform : String → String} {cs : List Contract}
    {text : String} :
    print transform cs = .ok text
      ↔ ∃ blocks, cs.mapM Contract.block = .ok blocks
          ∧ text = Fragment.textOf 0 (fragments transform cs blocks) := by
  unfold print
  cases cs.mapM Contract.block with
  | error e =>
      constructor
      · intro h
        cases h
      · rintro ⟨blocks, h, -⟩
        cases h
  | ok blocks =>
      constructor
      · intro h
        cases h
        exact ⟨blocks, rfl, Fragment.render_eq _⟩
      · rintro ⟨blocks', h, rfl⟩
        cases h
        exact congrArg _ (Fragment.render_eq _)

/-- The text of a file of resolved contracts. -/
theorem print_of_resolved (transform : String → String) {cs : List Contract}
    (h : ∀ c ∈ cs, c.Resolved) :
    print transform cs = .ok (Fragment.textOf 0 (fragments transform cs
      (cs.map fun c => c.blockOf
        (Contract.exactlyMarked c.baseNames c.methods)))) :=
  print_eq_ok.2 ⟨_, mapM_ok_of_forall cs fun c hc => (h c hc).block, rfl⟩

/-- The text of each contract is in the text of its file. -/
theorem occurs_print {transform : String → String} {cs : List Contract}
    {text : String} (h : print transform cs = .ok text) {c : Contract}
    (hc : c ∈ cs) :
    ∃ marked, c.marked = .ok marked
      ∧ Occurs (Fragment.textOf 0 (c.blockOf marked)) text := by
  obtain ⟨blocks, hblocks, rfl⟩ := print_eq_ok.1 h
  obtain ⟨b, hb, hblock⟩ := mem_of_mapM hblocks hc
  obtain ⟨marked, hmarked, rfl⟩ := Contract.block_eq_ok.1 hblock
  refine ⟨marked, hmarked, Fragment.occurs_textOf 0 ?_⟩
  exact Fragment.infix_joinSections (List.mem_append_right _ hb)

end SourceFile

end TokenForge
