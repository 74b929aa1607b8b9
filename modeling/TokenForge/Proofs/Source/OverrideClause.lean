/-
The override clause of every function of every contract that steps can make.
Which mark a function carries depends on the ancestors its history records
for it, as a set, and on the bases: no mark for no ancestor, the plain one
for one, and otherwise the bases that are ancestors, each once and in the
order of the bases (`ExactMark`). Neither the order of the steps nor
repetitions nor whether a base was added before or after the function spoke
of it make a difference.

In a printed file the heading of every declared function has the clause of
its mark: none, the keyword alone, or the keyword with names, which are then
some of the names after `is`, in the same order (`override_clause_exact`).
Both lists are rewritten name by name when the contract is upgradeable, so
the order survives it.
-/
import TokenForge.Proofs.Source.MethodLayout

namespace TokenForge

open Contract

-- ============================================================== the mark

/-- A mark is exactly right for a contract and the ancestors that were
recorded, in whatever order and however often. -/
structure ExactMark (c : Contract) (named : List String)
    (mark : OverrideMark) :
    Prop where
  /-- No mark exactly if nothing was recorded. -/
  new_iff : mark = .new ↔ named = []
  /-- The plain mark exactly if one ancestor was recorded. -/
  single_iff : mark = .single ↔ ∃ a, ∀ x, x ∈ named ↔ x = a
  /-- A list exactly if two were, and then the list of these bases. -/
  several_iff : ∀ names, mark = .several names
    ↔ (∃ a ∈ named, ∃ b ∈ named, a ≠ b) ∧ names = c.basesAmong named
  /-- The bases come in their order. -/
  in_order : (c.basesAmong named).Sublist c.baseNames
  /-- Every ancestor that was recorded is among them. -/
  complete : ∀ a, a ∈ c.basesAmong named ↔ a ∈ named
  /-- None is there twice. -/
  once : (c.basesAmong named).Nodup

/-- A list without repetition that has one member is that member. -/
theorem eq_singleton_iff_of_nodup {l : List String} (h : l.Nodup)
    {a : String} :
    l = [a] ↔ ∀ x, x ∈ l ↔ x = a := by
  rw [← List.perm_singleton,
    List.perm_ext_iff_of_nodup h (List.nodup_singleton a)]
  simp only [List.mem_singleton]

/-- A list without repetition has two entries exactly if it has two different
members. -/
theorem two_le_length_iff_of_nodup {l : List String} (h : l.Nodup) :
    2 ≤ l.length ↔ ∃ a ∈ l, ∃ b ∈ l, a ≠ b := by
  match l with
  | [] => simp
  | [x] => simp
  | x :: y :: rest =>
      have hxy : x ≠ y := by
        rintro rfl
        exact (List.nodup_cons.1 h).1 (List.mem_cons_self ..)
      constructor
      · intro _
        exact ⟨x, by simp, y, by simp, hxy⟩
      · intro _
        simp

theorem exactMark_exact {c : Contract} {ancestors named : List String}
    (hb : c.baseNames.Nodup) (hn : ancestors.Nodup)
    (hsame : ∀ a, a ∈ ancestors ↔ a ∈ named)
    (hknown : ∀ a ∈ named, a ∈ c.baseNames) :
    ExactMark c named (OverrideMark.exact c.baseNames ancestors) where
  new_iff := by
    rw [OverrideMark.exact_eq_new, List.eq_nil_iff_forall_not_mem,
      List.eq_nil_iff_forall_not_mem]
    exact forall_congr' fun a => not_congr (hsame a)
  single_iff := by
    rw [OverrideMark.exact_eq_single]
    refine exists_congr fun a => ?_
    rw [eq_singleton_iff_of_nodup hn]
    exact forall_congr' fun x => by rw [hsame x]
  several_iff := by
    intro names
    have hfilter : c.baseNames.filter (· ∈ ancestors) = c.basesAmong named :=
      List.filter_congr fun a _ => decide_eq_decide.2 (hsame a)
    rw [OverrideMark.exact_eq_several, hfilter, two_le_length_iff_of_nodup hn]
    simp only [hsame]
  in_order := List.filter_sublist
  complete := by
    intro a
    unfold basesAmong
    rw [List.mem_filter, decide_eq_true_eq]
    exact ⟨And.right, fun ha => ⟨hknown a ha, ha⟩⟩
  once := hb.filter _

-- ============================================================ in the text

/-- A clause of several names as a file shows it: in the text of the function,
which stands between the braces of the contract, below the names after
`is`. -/
def ShownClause (c : Contract) (m : Method) (names : List String)
    (text : String) : Prop :=
  ∃ bodyText,
    Occurs ("contract " ++ c.name ++ " is "
        ++ ", ".intercalate (c.baseNames.map c.shownName) ++ " \x7b\n"
        ++ bodyText ++ "\x7d\n") text
      ∧ Occurs (Fragment.textOf 1 (m.fragments c (.several names))) bodyText
      ∧ Occurs ("override(" ++ ", ".intercalate (names.map c.shownName) ++ ")")
          (Fragment.textOf 1 (m.fragments c (.several names)))

theorem Method.isOmitted_eq_false {m : Method} (h : 2 ≤ m.ancestors.length) :
    m.isOmitted = false := by
  have hlen : decide (m.ancestors.length ≤ 1) = false :=
    decide_eq_false (by omega)
  rw [isOmitted, hlen, Bool.false_and]

/-- The clause is a word of the function's text. -/
theorem Method.occurs_clause (c : Contract) (m : Method) (names : List String)
    (level : Nat) :
    Occurs ("override(" ++ ", ".intercalate (names.map c.shownName) ++ ")")
      (Fragment.textOf level (m.fragments c (.several names))) := by
  have hword : "override(" ++ ", ".intercalate (names.map c.shownName) ++ ")"
      ∈ (m.callable c (.several names)).modifiers := by
    show _ ∈ headingWords c m (.several names)
    unfold headingWords overrideWord
    exact List.mem_append_left _
      (List.mem_append_right _ (List.mem_singleton_self _))
  exact (Callable.occurs_headingWord hword level).trans
    (Fragment.occurs_textOf level (List.suffix_append _ _).isInfix)

/-- The clause of a function that has one is shown in every file with the
contract. -/
theorem shownClause_of_print {c : Contract} {m : Method} {names : List String}
    (hm : m ∈ c.methods)
    (hmark : OverrideMark.resolve c m = .ok (.several names))
    (hlen : 2 ≤ m.ancestors.length) (hbases : c.bases ≠ [])
    {transform : String → String} {cs : List Contract} (hc : c ∈ cs)
    {text : String} (hprint : SourceFile.print transform cs = .ok text) :
    ShownClause c m names text := by
  obtain ⟨marked, hmarked, hblock⟩ := SourceFile.occurs_print hprint hc
  rw [textOf_blockOf, heading_of_bases hbases] at hblock
  refine ⟨Fragment.textOf 1 (c.body marked), ?_, ?_,
    Method.occurs_clause c m names 1⟩
  · have hbrace : " \x7b\n" = " \x7b" ++ "\n" := rfl
    rw [hbrace, ← String.append_assoc]
    exact hblock
  · exact Fragment.occurs_textOf 1
      (infix_body_method (mem_marked hmarked hm hmark)
        (Method.isOmitted_eq_false hlen))

/-- A function with a mark as a file shows it: laid out by its entry, with the
clause of the mark among the words of its heading. -/
structure ShownMark (c : Contract) (m : Method) (mark : OverrideMark)
    (text : String) : Prop where
  occurs : Occurs (c.functionText m) text
  laidOut : ∃ heading, c.LaidOut m heading
  /-- A function that overrides nothing has no clause. -/
  new : mark = .new → c.clauseWords m = []
  /-- For a single ancestor it is the keyword. -/
  single : mark = .single → c.clauseWords m = ["override"]
  /-- For several it lists them as the contract prints their names. -/
  several : ∀ names, mark = .several names →
    c.clauseWords m
      = ["override(" ++ ", ".intercalate (names.map c.shownName) ++ ")"]

/-- A declared function has the clause of its mark. -/
theorem shownMark_of_print {name : String} {history : List Step} {c : Contract}
    (hc : c = replay history { name }) {transform : String → String}
    {cs : List Contract} {text : String} (hmem : c ∈ cs)
    (h : SourceFile.print transform cs = .ok text) {m : Method}
    (hm : m ∈ c.introduced ∨ m ∈ c.redeclared) {mark : OverrideMark}
    (hmark : mark = OverrideMark.exact c.baseNames m.ancestors) :
    ShownMark c m mark text := by
  obtain ⟨hoccurs, hlaid⟩ := laidOut_of_print hc hmem h hm
  have hwords : c.clauseWords m = Method.overrideWord c mark := by
    rw [hmark, overrideWord_exact]
  refine ⟨hoccurs, hlaid, ?_, ?_, ?_⟩
  · rintro rfl
    exact hwords
  · rintro rfl
    exact hwords
  · rintro names rfl
    exact hwords

-- ============================================================ the theorem

/-- Whatever history made a contract, a function whose recorded ancestors all
are bases carries the mark that is exactly right for them. In every file the
contract is printed in, a declared function has the clause of its mark; and if
the mark lists several names, these are among the names after `is`, in the same
order. -/
theorem override_clause_exact (name : String) (history : List Step)
    {m : Method} (hm : m ∈ (replay history { name }).methods)
    (hknown : ∀ a ∈ recorded history m.signature,
      a ∈ (replay history { name }).baseNames) :
    ∃ mark, OverrideMark.resolve (replay history { name }) m = .ok mark
      ∧ ExactMark (replay history { name }) (recorded history m.signature) mark
      ∧ (∀ names, mark = .several names →
          (names.map (replay history { name }).shownName).Sublist
              ((replay history { name }).baseNames.map
                (replay history { name }).shownName)
            ∧ ∀ (transform : String → String) (cs : List Contract)
              (text : String),
                replay history { name } ∈ cs →
                SourceFile.print transform cs = .ok text →
                ShownClause (replay history { name }) m names text)
      ∧ ∀ (transform : String → String) (cs : List Contract) (text : String),
          replay history { name } ∈ cs →
          SourceFile.print transform cs = .ok text →
          m ∈ (replay history { name }).introduced
            ∨ m ∈ (replay history { name }).redeclared →
          ShownMark (replay history { name }) m mark text := by
  have hwf := wellFormed_replay history name
  have hsame : ∀ a, a ∈ m.ancestors ↔ a ∈ recorded history m.signature :=
    (records_replay history name).1 m hm
  have hnodup := hwf.ancestors_distinct m hm
  have hmark := OverrideMark.resolve_of_known hwf.bases_distinct hnodup
    fun a ha => hknown a ((hsame a).1 ha)
  have hexact := exactMark_exact hwf.bases_distinct hnodup hsame hknown
  refine ⟨_, hmark, hexact, ?_, ?_⟩
  · intro names hseveral
    have hlist := (hexact.several_iff names).1 hseveral
    refine ⟨?_, ?_⟩
    · rw [hlist.2]
      exact hexact.in_order.map _
    · intro transform cs text hc hprint
      rw [hseveral] at hmark
      obtain ⟨a, ha, -⟩ := hlist.1
      have hbases : (replay history { name }).bases ≠ [] := by
        intro hnil
        have hbase := hknown a ha
        rw [baseNames, hnil] at hbase
        cases hbase
      exact shownClause_of_print hm hmark
        (OverrideMark.exact_eq_several.1 hseveral).1 hbases hc hprint
  · intro transform cs text hc hprint hdeclared
    exact shownMark_of_print rfl hc hprint hdeclared rfl

/-- A function that two bases declare. -/
def diamondHook : Declaration := { name := "hook", visibility := .inside }

/-- A history that names the second base first and twice, and before any base
was added. -/
def diamond : List Step :=
  [.upgradeable, .ancestor "Right" diamondHook,
    .base ⟨⟨"Left", "./Left.sol"⟩, []⟩, .ancestor "Left" diamondHook,
    .ancestor "Right" diamondHook, .base ⟨⟨"Right", "./Right.sol"⟩, []⟩]

/-- The clause of that history is in the order of the bases, and shown in the
heading of the function. -/
theorem diamond_clause :
    ∃ m ∈ (replay diamond { name := "Bottom" }).methods,
      OverrideMark.resolve (replay diamond { name := "Bottom" }) m
          = .ok (.several ["Left", "Right"])
        ∧ ∃ text,
            SourceFile.printPlain [replay diamond { name := "Bottom" }]
              = .ok text
            ∧ ShownClause (replay diamond { name := "Bottom" }) m
                ["Left", "Right"] text
            ∧ ShownMark (replay diamond { name := "Bottom" }) m
                (.several ["Left", "Right"]) text := by
  let m : Method := ⟨diamondHook, ["Right", "Left"], [], .untouched⟩
  have hm : m ∈ (replay diamond { name := "Bottom" }).methods := by decide
  have hredeclared : m ∈ (replay diamond { name := "Bottom" }).redeclared := by
    decide
  obtain ⟨mark, hmark, hexact, hclause, hshown⟩ :=
    override_clause_exact "Bottom" diamond hm (by decide)
  obtain rfl : mark = .several ["Left", "Right"] :=
    (hexact.several_iff _).2 (by decide)
  obtain ⟨text, hprint⟩ : ∃ text,
      SourceFile.printPlain [replay diamond { name := "Bottom" }] = .ok text :=
    ⟨_, rfl⟩
  have hmem := List.mem_singleton_self (replay diamond { name := "Bottom" })
  exact ⟨m, hm, hmark, text, hprint, (hclause _ rfl).2 id _ text hmem hprint,
    hshown id _ text hmem hprint (.inr hredeclared)⟩

end TokenForge
