/-
Matching contracts print the same tokens up to the literals of corresponding
strings. The sections are compared one by one, in the order in which the
printer joins them; a section of plain lines is the same on both sides, and
the others are put together from plain texts and literals. Each section comes
with the literals that may differ: those of the arguments passed to bases, and
those in the lines of functions (`Contract.literals`).

The heading is the only place that shows a contract's name. Around it
everything is fixed (`Contract.reads_heading`).
-/
import TokenForge.Proofs.Source.Matching
import TokenForge.Proofs.Source.Print

namespace TokenForge

open Solidity

variable {A : String → String → Prop}

-- ================================================================ pieces

theorem isEmpty_of_forall₂ {α β : Type} {R : α → β → Prop} {l : List α}
    {l' : List β} (h : List.Forall₂ R l l') : l.isEmpty = l'.isEmpty := by
  cases h <;> rfl

theorem sameEach_of_plain {l : List String} (h : ∀ s ∈ l, Plain s) :
    SameEach SettlesText A [] l l := by
  induction l with
  | nil => exact .nil
  | cons s l ih =>
      obtain ⟨hs, hl⟩ := List.forall_mem_cons.1 h
      exact .cons (SameTokens.plain hs) (ih hl)

/-- The literals of the arguments passed to a base. -/
def Base.literals (b : Base) : List (List Char) :=
  b.args.flatMap fun v => literalsOf v.render

/-- The arguments of matching bases, with plain texts around them. -/
theorem Base.Matches.argsText {b b' : Base} (h : b.Matches A b')
    {front tail : String} (hfront : Plain front) (htail : Plain tail) :
    SameTokens SettlesText A b.literals (front ++ b.argsText ++ tail)
      (front ++ b'.argsText ++ tail) := by
  have hopen : SameTokens ReadsText A [] (front ++ "(") (front ++ "(") :=
    SameTokens.plain_before hfront (c := '(') rfl (by decide) (by decide)
  have hargs : SameEach ReadsText A b.literals (b.args.map Value.render)
      (b'.args.map Value.render) := by
    refine .of_forall₂ h.args fun v w hvw => ?_
    cases hvw with
    | @text v w hA =>
        rw [show literalsOf (Value.text v).render = [Literal.encode v.toList]
          from literalsOf_ofString v]
        exact SameTokens.literal hA
  have hlist : SameTokens ReadsText A b.literals
      (", ".intercalate (b.args.map Value.render))
      (", ".intercalate (b'.args.map Value.render)) := by
    have hcomma : ReadsText ", " [.symbol ','] := by
      unfold ReadsText Reads
      decide
    exact SameTokens.intercalate hcomma hargs
  have hclose : SameTokens SettlesText A [] (")" ++ tail) (")" ++ tail) := by
    have hplain : Plain ")" := by decide
    exact SameTokens.plain (hplain.append htail)
  have hsplit : ∀ b : Base,
      front ++ b.argsText ++ tail
        = front ++ "(" ++ ", ".intercalate (b.args.map Value.render)
          ++ (")" ++ tail) := by
    intro b
    unfold Base.argsText
    simp only [String.append_assoc]
  have hall := (hopen.append hlist).append_settles hclose
  rw [List.nil_append, List.append_nil] at hall
  rw [hsplit b, hsplit b']
  exact hall

/-- The one literal of a line that returns a string. -/
theorem literalsOf_returned (v : String) :
    literalsOf ("return " ++ Literal.ofString v ++ ";")
      = [Literal.encode v.toList] := by
  have hword : ReadsText "return " [.word "return".toList] := by
    unfold ReadsText Reads
    decide
  have hend : ReadsText ";" [.symbol ';'] := by
    unfold ReadsText Reads
    decide
  exact literalsOf_of_reads ((hword.append (readsText_literal v)).append hend)

/-- Lines that match are alike in tokens, up to the literals of the first. -/
theorem LineMatches.sameTokens {s s' : String} (h : LineMatches A s s') :
    SameTokens SettlesText A (literalsOf s) s s' := by
  cases h with
  | plain hs =>
      rw [hs.literalsOf]
      exact SameTokens.plain hs
  | @returned v w hA =>
      have hword : ReadsText "return " [.word "return".toList] := by
        unfold ReadsText Reads
        decide
      have hend : Plain ";" := by decide
      have hreturn : SameTokens ReadsText A [] "return " "return " :=
        SameTokens.refl ⟨_, hword⟩
      rw [literalsOf_returned]
      exact (hreturn.append (SameTokens.literal hA)).append_settles
        (SameTokens.plain hend)

theorem Argument.PlainTexts.text {a : Argument} (h : a.PlainTexts) :
    Plain a.text := by
  have hblank : Plain " " := by decide
  exact (h.type.append hblank).append h.name

theorem plain_signature {f : Callable} (htitle : Plain f.title)
    (hargs : ∀ a ∈ f.args, Plain a) : Plain f.signature := by
  have hopen : Plain "(" := by decide
  have hclose : Plain ")" := by decide
  have hcomma : Plain ", " := by decide
  exact ((htitle.append hopen).append (Plain.intercalate hcomma hargs)).append
    hclose

namespace Contract

variable {c c' : Contract}

/-- Contracts that match print names in the same way. -/
theorem Matches.shownName (h : c.Matches A c') :
    c.shownName = c'.shownName := by
  funext name
  unfold Contract.shownName
  rw [h.upgradeable]

theorem Matches.plain_baseNames (h : c.Matches A c') :
    ∀ name ∈ c.baseNames, Plain name := by
  intro name hname
  obtain ⟨b, hb, rfl⟩ := List.mem_map.1 hname
  obtain ⟨b', -, hbb'⟩ := exists_of_forall₂_left h.bases hb
  exact hbb'.plain

-- ============================================================ attachments

/-- They have one `using` section. -/
theorem Matches.usingSection (h : c.Matches A c') :
    SameTokens Fragment.Reads A [] c.usingSection c'.usingSection := by
  have heq : c'.usingSection = c.usingSection := by
    unfold Contract.usingSection attachedPairs
    rw [h.attachments, h.shownName]
  rw [heq]
  have hlines : c.usingSection = (c.attachedPairs.map fun p =>
      "using " ++ c.shownName p.1 ++ " for " ++ c.shownName p.2 ++ ";").map
        .line := by
    rw [List.map_map]
    rfl
  rw [hlines]
  refine SameTokens.lines (sameEach_of_plain fun s hs => ?_)
  obtain ⟨⟨library, type⟩, hp, rfl⟩ := List.mem_map.1 hs
  obtain ⟨a, ha, heq⟩ := List.mem_map.1 (List.mem_eraseDups.1 hp)
  obtain ⟨rfl, rfl⟩ := Prod.mk.inj heq
  have hplain := h.attachments_plain a ha
  have husing : Plain "using " := by decide
  have hfor : Plain " for " := by decide
  have hsemi : Plain ";" := by decide
  exact (((husing.append (c.plain_shownName hplain.name)).append hfor).append
    (c.plain_shownName hplain.type)).append hsemi

-- ============================================================ constructors

theorem Matches.initializedBases (h : c.Matches A c') :
    List.Forall₂ (Base.Matches A) c.initializedBases c'.initializedBases := by
  refine List.rel_filter (fun b b' hb => ?_) h.bases
  show b.isInitialized = true ↔ b'.isInitialized = true
  unfold Base.isInitialized Base.name
  rw [hb.dependency]

/-- Both need a constructor or neither does. -/
theorem Matches.needsConstructor (h : c.Matches A c') :
    c.needsConstructor = c'.needsConstructor := by
  have hany : (c.bases.any fun b => !b.args.isEmpty)
      = c'.bases.any fun b => !b.args.isEmpty := by
    have hmap : c.bases.map (fun b => b.args.isEmpty)
        = c'.bases.map fun b => b.args.isEmpty := by
      rw [← List.forall₂_eq_eq_eq, List.forall₂_map_left_iff,
        List.forall₂_map_right_iff]
      exact h.bases.imp fun _ _ hb => isEmpty_of_forall₂ hb.args
    calc (c.bases.any fun b => !b.args.isEmpty)
        = (c.bases.map fun b => b.args.isEmpty).any (!·) := by
          rw [List.any_map]
          rfl
      _ = (c'.bases.map fun b => b.args.isEmpty).any (!·) := by rw [hmap]
      _ = c'.bases.any fun b => !b.args.isEmpty := by
          rw [List.any_map]
          rfl
  unfold Contract.needsConstructor
  rw [hany, h.constructorArgs, h.constructorCode, h.upgradeable,
    isEmpty_of_forall₂ h.initializedBases]

theorem Matches.plain_constructorArgs (h : c.Matches A c') :
    ∀ s ∈ c.constructorArgs.map Argument.text, Plain s := by
  intro s hs
  obtain ⟨a, ha, rfl⟩ := List.mem_map.1 hs
  exact (h.constructorArgs_plain a ha).text

/-- Bases without arguments have no literals, so it does not matter whether
they are called. -/
theorem literals_called (bs : List Base) :
    (bs.filter fun b => !b.args.isEmpty).flatMap Base.literals
      = bs.flatMap Base.literals := by
  induction bs with
  | nil => rfl
  | cons b bs ih =>
      rw [List.filter_cons, List.flatMap_cons, ← ih]
      cases hargs : b.args with
      | nil => simp [Base.literals, hargs]
      | cons v vs => simp

/-- Their constructors differ in the literals of their bases only. -/
theorem Matches.plainConstructor (h : c.Matches A c') :
    SameTokens Fragment.Reads A (c.initializedBases.flatMap Base.literals)
      c.plainConstructor c'.plainConstructor := by
  have hcalled : List.Forall₂ (Base.Matches A)
      (c.initializedBases.filter fun b => !b.args.isEmpty)
      (c'.initializedBases.filter fun b => !b.args.isEmpty) :=
    List.rel_filter
      (fun b b' hb => by
        show (!b.args.isEmpty) = true ↔ (!b'.args.isEmpty) = true
        rw [isEmpty_of_forall₂ hb.args])
      h.initializedBases
  have hcalls : SameEach SettlesText A
      (c.initializedBases.flatMap Base.literals)
      ((c.initializedBases.filter fun b => !b.args.isEmpty).map
        Base.constructorCall)
      ((c'.initializedBases.filter fun b => !b.args.isEmpty).map
        Base.constructorCall) := by
    rw [← literals_called]
    refine .of_forall₂ hcalled fun b b' hb => ?_
    have hname : b'.name = b.name :=
      congrArg Dependency.name hb.dependency.symm
    have hnothing : Plain "" := by decide
    have hcall := hb.argsText hb.plain hnothing
    simpa only [Base.constructorCall, hname, String.append_empty] using hcall
  have hlines := SameTokens.lines (A := A)
    (sameEach_of_plain h.constructorCode_plain)
  have htitle : Plain "constructor" := by decide
  unfold Contract.plainConstructor
  rw [← h.constructorArgs, ← h.constructorCode,
    ← List.append_nil (c.initializedBases.flatMap Base.literals)]
  refine SameTokens.callable ?_ hcalls hlines rfl
  exact SameTokens.plain (plain_signature htitle h.plain_constructorArgs)

/-- So do their initializers. -/
theorem Matches.initializeFunction (h : c.Matches A c') :
    SameTokens Fragment.Reads A (c.initializedBases.flatMap Base.literals)
      c.initializeFunction c'.initializeFunction := by
  unfold Contract.initializeFunction
  rw [← h.constructorArgs, ← h.constructorCode]
  have hcalls : SameTokens Fragment.Reads A
      (c.initializedBases.flatMap Base.literals)
      (c.initializedBases.map fun b => .line (b.initializerCall ++ ";"))
      (c'.initializedBases.map fun b => .line (b.initializerCall ++ ";")) := by
    have hlines : SameEach SettlesText A
        (c.initializedBases.flatMap Base.literals)
        (c.initializedBases.map fun b => b.initializerCall ++ ";")
        (c'.initializedBases.map fun b => b.initializerCall ++ ";") := by
      refine .of_forall₂ h.initializedBases fun b b' hb => ?_
      have hname : b'.name = b.name :=
        congrArg Dependency.name hb.dependency.symm
      have hunder : Plain "__" := by decide
      have hinit : Plain "_init" := by decide
      have hend : Plain ";" := by decide
      have hcall := hb.argsText ((hunder.append hb.plain).append hinit) hend
      simpa only [Base.initializerCall, hname] using hcall
    have hall := SameTokens.lines hlines
    rw [List.map_map, List.map_map] at hall
    exact hall
  have hcode := SameTokens.lines (A := A)
    (sameEach_of_plain h.constructorCode_plain)
  have hbody := SameTokens.joinSections (.cons hcalls (.single hcode))
  rw [List.append_nil] at hbody
  have htitle : Plain "function initialize" := by decide
  have hwords : ∀ s ∈ ["initializer public"], Plain s := by decide
  rw [← List.nil_append (c.initializedBases.flatMap Base.literals)]
  refine SameTokens.callable
    (SameTokens.plain (plain_signature htitle h.plain_constructorArgs))
    (sameEach_of_plain hwords) hbody ?_
  rw [Fragment.isEmpty_joinSections, Fragment.isEmpty_joinSections]
  simp only [List.all_cons, List.isEmpty_map,
    isEmpty_of_forall₂ h.initializedBases]

/-- A contract that needs no constructor passes nothing to its bases. -/
theorem literals_of_not_needsConstructor (h : c.needsConstructor = false) :
    c.initializedBases.flatMap Base.literals = [] := by
  unfold Contract.needsConstructor at h
  simp only [Bool.or_eq_false_iff, List.any_eq_false, Bool.not_eq_true',
    Bool.not_eq_false, List.isEmpty_iff] at h
  rw [List.flatMap_eq_nil_iff]
  intro b hb
  unfold Base.literals
  rw [h.1.1.1 b (List.mem_filter.1 hb).1]
  rfl

/-- So do the sections of their constructors, in both layouts. -/
theorem Matches.constructorSection (h : c.Matches A c') :
    SameTokens Fragment.Reads A (c.initializedBases.flatMap Base.literals)
      c.constructorSection c'.constructorSection := by
  have hlocked : SameTokens Fragment.Reads A [] lockedConstructor
      lockedConstructor := by
    have hcomment : Fragment.Reads
        [.line "/// @custom:oz-upgrades-unsafe-allow constructor"]
        [.comment "/// @custom:oz-upgrades-unsafe-allow constructor".toList] :=
      Fragment.Reads.comment
        (t := "/ @custom:oz-upgrades-unsafe-allow constructor".toList)
        (by decide) (by decide)
    have hline : Plain "constructor() initializer \x7b\x7d" := by decide
    have hsplit : lockedConstructor
        = [.line "/// @custom:oz-upgrades-unsafe-allow constructor"]
          ++ [.line "constructor() initializer \x7b\x7d"] := rfl
    rw [hsplit]
    exact SameTokens.fragments_append (SameTokens.refl ⟨_, hcomment⟩)
      (SameTokens.line (SameTokens.plain hline))
  unfold Contract.constructorSection
  rw [← h.needsConstructor, ← h.upgradeable]
  split
  next hnone =>
      rw [literals_of_not_needsConstructor (by simpa using hnone)]
      exact SameTokens.fragments_nil
  split
  · exact SameTokens.joinSections
      (.cons hlocked (.single h.initializeFunction))
  · exact h.plainConstructor

end Contract

-- ============================================================== functions

theorem Body.Matches.lines {b b' : Body} (h : b.Matches A b') :
    List.Forall₂ (LineMatches A) b.lines b'.lines := by
  cases h with
  | untouched => exact .nil
  | grown h => exact h
  | replaced h => exact h

theorem Body.Matches.isReplaced {b b' : Body} (h : b.Matches A b') :
    b.isReplaced = b'.isReplaced := by
  cases h <;> rfl

namespace Method

/-- Functions that match are both printed or both left out. -/
theorem Matches.isOmitted {m m' : Method} (h : m.Matches A m') :
    m.isOmitted = m'.isOmitted := by
  have hbare : m.isBare = m'.isBare := by
    unfold Method.isBare Method.code Method.isReplaced
    rw [h.modifiers, isEmpty_of_forall₂ h.body.lines, h.body.isReplaced]
  unfold Method.isOmitted
  rw [hbare, h.ancestors]

/-- The call of the function that is overridden has no literals. -/
theorem plain_superCall {d : Declaration} (h : d.PlainTexts) :
    Plain (superCall d) := by
  have hsuper : Plain "super." := by decide
  have hopen : Plain "(" := by decide
  have hclose : Plain ");" := by decide
  have hreturn : Plain "return " := by decide
  have hcomma : Plain ", " := by decide
  have hargs : Plain (", ".intercalate (d.args.map (·.name))) := by
    refine Plain.intercalate hcomma fun s hs => ?_
    obtain ⟨a, ha, rfl⟩ := List.mem_map.1 hs
    exact (h.args a ha).1
  have hcall :=
    (((hsuper.append h.name).append hopen).append hargs).append hclose
  unfold superCall
  dsimp only
  split
  · exact hcall
  · exact hreturn.append hcall

/-- The words of a heading are plain if the names in its override mark
are. -/
theorem plain_headingWords {c : Contract} {m : Method} {mark : OverrideMark}
    (hd : m.decl.PlainTexts) (hmods : ∀ s ∈ m.modifiers, Plain s)
    (hmark : ∀ names, mark = .several names → ∀ n ∈ names, Plain n) :
    ∀ s ∈ headingWords c m mark, Plain s := by
  intro s hs
  have hcomma : Plain ", " := by decide
  have hclose : Plain ")" := by decide
  unfold headingWords at hs
  simp only [List.mem_append, List.mem_cons] at hs
  rcases hs with (((rfl | hs) | hs) | hs) | hs
  · cases m.decl.visibility <;> decide
  · cases hmut : m.decl.mutability <;> rw [hmut] at hs <;>
      simp only [Mutability.keyword?, Option.toList_none, Option.toList_some,
        List.mem_singleton, List.not_mem_nil] at hs <;>
      subst hs <;> decide
  · exact hmods s hs
  · cases mark with
    | new => cases hs
    | single =>
        rw [overrideWord, List.mem_singleton] at hs
        subst hs
        decide
    | several names =>
        rw [overrideWord, List.mem_singleton] at hs
        subst hs
        have hover : Plain "override(" := by decide
        refine (hover.append (Plain.intercalate hcomma fun t ht => ?_)).append
          hclose
        obtain ⟨n, hn, rfl⟩ := List.mem_map.1 ht
        exact c.plain_shownName (hmark names rfl n hn)
  · unfold returnsWord at hs
    split at hs
    · cases hs
    · rw [List.mem_singleton] at hs
      subst hs
      have hreturns : Plain "returns (" := by decide
      exact (hreturns.append (Plain.intercalate hcomma hd.returns)).append
        hclose

/-- The literals in the lines of a function. -/
def literals (m : Method) : List (List Char) := m.code.flatMap literalsOf

/-- Matching functions of matching contracts print the same tokens. -/
theorem Matches.fragments {m m' : Method} (h : m.Matches A m')
    {c c' : Contract} (hc : c.Matches A c') {mark : OverrideMark}
    (hmark : ∀ names, mark = .several names → ∀ n ∈ names, Plain n) :
    SameTokens Fragment.Reads A m.literals (m.fragments c mark)
      (m'.fragments c' mark) := by
  have hdoc : ∀ d : Declaration, d.doc? = none → docLine d = [] := by
    intro d hd
    rw [docLine, hd]
    rfl
  have hcode : SameEach SettlesText A m.literals m.code m'.code := by
    have hall := SameEach.of_forall₂ h.body.lines (f := id) (g := id)
      fun _ _ hl => hl.sameTokens
    rw [List.map_id, List.map_id] at hall
    exact hall
  have hlines : SameEach SettlesText A m.literals (m.bodyLines mark)
      (m'.bodyLines mark) := by
    unfold bodyLines callsSuper
    rw [← h.decl, show m'.isReplaced
      = m.isReplaced from h.body.isReplaced.symm]
    have hsuper := hcode.append (sameEach_of_plain (A := A)
      (l := if m.callsSuper mark then [superCall m.decl] else [])
        fun s hs => by
        split at hs
        · rw [List.mem_singleton.1 hs]
          exact plain_superCall h.decl_plain
        · cases hs)
    rwa [List.append_nil] at hsuper
  have hwords : headingWords c' m' mark = headingWords c m mark := by
    unfold headingWords
    rw [← h.decl, ← h.modifiers]
    cases mark <;> simp only [overrideWord, hc.shownName]
  have hfunction : Plain "function " := by decide
  unfold Method.fragments
  rw [hdoc m.decl h.decl_plain.doc, ← h.decl, hdoc m.decl h.decl_plain.doc]
  rw [← List.nil_append m.literals]
  refine SameTokens.callable ?_ ?_ (SameTokens.lines hlines) ?_
  · show SameTokens SettlesText A [] (m.callable c mark).signature
      (m'.callable c' mark).signature
    unfold Callable.signature callable
    rw [← h.decl]
    refine SameTokens.plain (plain_signature (f := m.callable c mark)
      (hfunction.append h.decl_plain.name) fun s hs => ?_)
    obtain ⟨a, ha, rfl⟩ := List.mem_map.1 hs
    have hplain := h.decl_plain.args a ha
    exact Argument.PlainTexts.text ⟨hplain.1, hplain.2⟩
  · show SameEach SettlesText A [] (headingWords c m mark)
      (headingWords c' m' mark)
    rw [hwords]
    exact sameEach_of_plain
      (plain_headingWords h.decl_plain h.modifiers_plain hmark)
  · show ((m.bodyLines mark).map Fragment.line).isEmpty
      = ((m'.bodyLines mark).map Fragment.line).isEmpty
    rw [List.isEmpty_map, List.isEmpty_map, hlines.isEmpty_eq]

end Method

-- ============================================================== contracts

namespace Contract

variable {c c' : Contract}

/-- The literals in the lines of functions with marks, in order. -/
def methodLiterals (marked : List (Method × OverrideMark)) :
    List (List Char) :=
  marked.flatMap fun p => p.1.literals

/-- Functions that match are printed alike, the new ones and the others. -/
theorem Matches.methodSections (h : c.Matches A c')
    (keep : OverrideMark → Bool) :
    SameEach Fragment.Reads A
      (methodLiterals ((printedMethods
        (exactlyMarked c.baseNames c.methods)).filter fun p => keep p.2))
      (c.methodSections ((printedMethods
        (exactlyMarked c.baseNames c.methods)).filter fun p => keep p.2))
      (c'.methodSections ((printedMethods
        (exactlyMarked c.baseNames c'.methods)).filter
          fun p => keep p.2)) := by
  refine .of_forall₂ (rel_printedMethods h.methods
    (fun _ _ hm => hm.isOmitted) (fun _ _ hm => by rw [hm.ancestors]) keep) ?_
  intro p q hpq
  obtain ⟨hm, hp, hq⟩ := hpq
  show SameTokens _ _ _ (p.1.fragments c p.2) (q.1.fragments c' q.2)
  rw [hq]
  refine hm.fragments h fun names hnames n hn => ?_
  rw [hp] at hnames
  rw [(OverrideMark.exact_eq_several.1 hnames).2] at hn
  exact h.plain_baseNames n (List.mem_filter.1 hn).1

/-- The variables are the same in both contracts. -/
theorem Matches.variableSection (h : c.Matches A c') :
    SameTokens Fragment.Reads A [] c.variableSection c'.variableSection := by
  have heq : c'.variableSection = c.variableSection := by
    unfold Contract.variableSection shownVariable
    rw [h.stateVariables, h.upgradeable]
  have hlines : ∀ l : List String, (∀ line ∈ l, VariableReads line) →
      ∃ ts, Fragment.Reads
        (l.map fun line => .line (c.shownVariable line)) ts := by
    intro l hl
    induction l with
    | nil => exact ⟨[], .nil⟩
    | cons line l ih =>
        obtain ⟨ts, hts⟩ := ih fun x hx => hl x (List.mem_cons_of_mem _ hx)
        have hshown : ∃ us, ReadsText (c.shownVariable line ++ "\n") us := by
          unfold shownVariable
          split
          · exact (hl line (List.mem_cons_self ..)).2
          · exact (hl line (List.mem_cons_self ..)).1
        obtain ⟨us, hus⟩ := hshown
        exact ⟨us ++ ts, (Fragment.Reads.line hus).append hts⟩
  rw [heq]
  exact SameTokens.refl (hlines c.stateVariables h.stateVariables_read)

/-- The literals of a contract that hold strings of its own: those of the
arguments passed to its bases, then those in the lines of its functions, which
are printed in two groups. -/
def literals (c : Contract) : List (List Char) :=
  c.initializedBases.flatMap Base.literals
    ++ methodLiterals (newMethods (exactlyMarked c.baseNames c.methods))
    ++ methodLiterals (overridingMethods (exactlyMarked c.baseNames c.methods))

/-- What stands between the braces of matching contracts. -/
theorem Matches.body (h : c.Matches A c') :
    SameTokens Fragment.Reads A c.literals
      (c.body (exactlyMarked c.baseNames c.methods))
      (c'.body (exactlyMarked c'.baseNames c'.methods)) := by
  rw [← h.baseNames]
  have hnew := h.methodSections fun mark => mark == .new
  have hover := h.methodSections fun mark => mark != .new
  have hcomment := commentSection_congr hover.isEmpty_eq
  have hcommentReads : ∃ ts, Fragment.Reads
      (commentSection (exactlyMarked c.baseNames c.methods)) ts := by
    unfold commentSection
    split
    · exact ⟨[], .nil⟩
    · exact ⟨_, Fragment.Reads.comment
        (t := (" The following functions are overrides "
          ++ "required by Solidity.").toList)
        (by decide) (by decide)⟩
  have hfirst : SameEach Fragment.Reads A
      (c.initializedBases.flatMap Base.literals)
      [c.usingSection, c.constructorSection]
      [c'.usingSection, c'.constructorSection] :=
    .cons h.usingSection (.single h.constructorSection)
  have hupper := (hfirst.append hnew).append
    (.single (SameTokens.refl hcommentReads))
  have hall := SameTokens.joinSections
    ((hupper.append hover).append (.single h.variableSection))
  rw [List.append_nil, List.append_nil] at hall
  unfold Contract.body
  rw [← hcomment]
  exact hall

/-- What follows the name in a heading. -/
def headingRest (c : Contract) : String :=
  if c.baseNames.isEmpty then "\x7b"
  else "is " ++ ", ".intercalate (c.baseNames.map c.shownName) ++ " \x7b"

theorem heading_eq (c : Contract) :
    c.heading = "contract" ++ " " ++ c.name ++ " " ++ c.headingRest := by
  have hempty : (c.baseNames.map c.shownName).isEmpty = c.baseNames.isEmpty :=
    List.isEmpty_map
  unfold heading headingRest
  dsimp only
  rw [hempty]
  split
  · simp only [String.append_assoc]
    rfl
  · have his : " is " = " " ++ "is " := rfl
    rw [his]
    simp only [String.append_assoc]
    rfl

/-- A heading is the keyword, the name, and tokens that do not depend on the
name. -/
theorem reads_heading (h : c.Matches A c') :
    ∃ ts, ∀ d ∈ [c, c'], isIdentifier d.name = true →
      SettlesText d.heading
        (.word "contract".toList :: .word d.name.toList :: ts) := by
  have hrest : c'.headingRest = c.headingRest := by
    unfold headingRest
    rw [h.baseNames, h.shownName]
  have hplain : Plain c.headingRest := by
    unfold headingRest
    split
    · decide
    · have his : Plain "is " := by decide
      have hcomma : Plain ", " := by decide
      have hbrace : Plain " \x7b" := by decide
      refine (his.append (Plain.intercalate hcomma fun s hs => ?_)).append
        hbrace
      obtain ⟨n, hn, rfl⟩ := List.mem_map.1 hs
      exact c.plain_shownName (h.plain_baseNames n hn)
  obtain ⟨ts, hts⟩ := hplain.settles
  refine ⟨ts, fun d hd hname => ?_⟩
  have hd' : d.headingRest = c.headingRest := by
    rcases List.mem_cons.1 hd with rfl | hd
    · rfl
    · rw [List.mem_singleton.1 hd, hrest]
  have hword : Settles "contract".toList [.word "contract".toList] :=
    settles_identifier (by decide)
  rw [heading_eq, hd']
  unfold SettlesText
  simp only [String.toList_append, List.append_assoc]
  exact hword.append_blank (b := ' ') (by decide)
    ((settles_identifier hname).append_blank (b := ' ') (by decide) hts)

/-- Matching contracts print the same tokens but for their names and the
literals of corresponding strings. -/
theorem Matches.blockOf (h : c.Matches A c')
    (hname : isIdentifier c.name = true)
    (hname' : isIdentifier c'.name = true) :
    ∃ ts us,
      Fragment.Reads (c.blockOf (exactlyMarked c.baseNames c.methods))
          (.word "contract".toList :: .word c.name.toList :: ts)
        ∧ Fragment.Reads (c'.blockOf (exactlyMarked c'.baseNames c'.methods))
          (.word "contract".toList :: .word c'.name.toList :: us)
        ∧ Aligned A c.literals ts us := by
  obtain ⟨hs, hheading⟩ := reads_heading h
  obtain ⟨ts, us, hts, hus, haligned⟩ := h.body
  have hclose : Fragment.Reads [.line "\x7d"] [.symbol '\x7d'] :=
    .settled (Reads.settles (by unfold Reads; decide))
  have hblock : ∀ (d : Contract) (marked : List (Method × OverrideMark))
      (vs : List Token),
      SettlesText d.heading
        (.word "contract".toList :: .word d.name.toList :: hs) →
      Fragment.Reads (d.body marked) vs →
      Fragment.Reads (d.blockOf marked)
        (.word "contract".toList :: .word d.name.toList ::
          (hs ++ vs ++ [.symbol '\x7d'])) := by
    intro d marked vs hd hbody
    unfold Contract.blockOf
    have hall := (Fragment.Reads.settled hd).append
      ((Fragment.Reads.block hbody).append hclose)
    simpa only [List.cons_append, List.nil_append, List.append_assoc]
      using hall
  refine ⟨hs ++ ts ++ [.symbol '\x7d'], hs ++ us ++ [.symbol '\x7d'],
    hblock c _ ts (hheading c (by simp) hname) hts,
    hblock c' _ us (hheading c' (by simp) hname') hus, ?_⟩
  have hall := ((Aligned.refl hs).append haligned).append
    (.refl [.symbol '\x7d'])
  rwa [List.append_nil] at hall

end Contract

end TokenForge
