/-
The source of a contract does not show in which order independent steps were
taken. Contracts that are alike differ in the order of their functions'
ancestors only; marks do not depend on that order, so the printed sections
are the same, fragment for fragment (`body_of_alike`).

If some ancestor is no base, neither contract is printed. The conflict is
about the same function in both, because the search for it goes along the
table, whose order is the same; the ancestor it names may be another one of
that function, because within a function the order is what differs.
-/
import TokenForge.Proofs.Contract.Exchange
import TokenForge.Proofs.Contract.Override
import TokenForge.Proofs.Source.Print

namespace TokenForge

-- ============================================================ one function

/-- Like functions are printed alike. -/
theorem Method.Alike.fragments {m n : Method} (h : m.Alike n) (c : Contract)
    (mark : OverrideMark) : m.fragments c mark = n.fragments c mark := by
  obtain ⟨decl, ancestors, modifiers, body⟩ := m
  obtain ⟨decl', ancestors', modifiers', body'⟩ := n
  obtain ⟨rfl, -, rfl, rfl⟩ := h
  rfl

/-- Of like functions, both are left out or none. -/
theorem Method.Alike.isOmitted {m n : Method} (h : m.Alike n) :
    m.isOmitted = n.isOmitted := by
  have hbare : m.isBare = n.isBare := by
    unfold Method.isBare Method.code Method.isReplaced
    rw [h.modifiers, h.body]
  unfold Method.isOmitted
  rw [hbare, h.ancestors.length_eq]

-- ============================================================== the body

namespace Contract

/-- A selection of the functions by their marks is printed alike for like
tables. -/
theorem methodSections_of_alike {ms ns : List Method}
    (h : List.Forall₂ Method.Alike ms ns) (c : Contract)
    (keep : OverrideMark → Bool) :
    c.methodSections
        ((printedMethods (exactlyMarked c.baseNames ms)).filter
          fun p => keep p.2)
      = c.methodSections
        ((printedMethods (exactlyMarked c.baseNames ns)).filter fun p =>
          keep p.2) := by
  rw [← List.forall₂_eq_eq_eq]
  exact rel_methodSections h (fun _ _ hmn => hmn.isOmitted)
    (fun _ _ hmn => OverrideMark.exact_perm hmn.ancestors)
    (fun _ _ hmn => hmn.fragments c _) keep

/-- The bodies of like contracts are the same. -/
theorem body_of_alike {c : Contract} {ns : List Method}
    (h : List.Forall₂ Method.Alike c.methods ns) :
    c.body (exactlyMarked c.baseNames c.methods)
      = c.body (exactlyMarked c.baseNames ns) := by
  have hnew := methodSections_of_alike h c fun mark => mark == .new
  have hover := methodSections_of_alike h c fun mark => mark != .new
  have hcomment := commentSection_congr (congrArg List.isEmpty hover)
  unfold body newMethods
  rw [hnew, hcomment]
  unfold overridingMethods
  rw [hover]

-- ============================================================= the text

/-- In like contracts the first function with an ancestor that is no base is
the same, up to the order of its ancestors. -/
theorem firstUnknown?_of_alike {c c' : Contract} (h : c.Alike c') :
    Option.Rel Method.Alike c.firstUnknown? c'.firstUnknown? := by
  have hnames : c'.baseNames = c.baseNames := by
    rw [h.rest]
    rfl
  unfold firstUnknown?
  rw [hnames]
  refine rel_find? h.methods fun m n hmn => ?_
  rw [Bool.eq_iff_iff]
  simp only [List.any_eq_true, hmn.ancestors.mem_iff]

/-- Like contracts have the same block if all ancestors are bases. -/
theorem block_of_alike {c c' : Contract} (h : c.Alike c') (hc : c.WellFormed)
    (hc' : c'.WellFormed)
    (hknown : ∀ m ∈ c.methods, ∀ a ∈ m.ancestors, a ∈ c.baseNames) :
    ∃ b, c.block = .ok b ∧ c'.block = .ok b := by
  obtain ⟨hrest, hmethods⟩ := h
  have hnames : c'.baseNames = c.baseNames := by rw [hrest]; rfl
  have hnone : c.firstUnknown? = none := firstUnknown?_eq_none.2 hknown
  have hknown' : ∀ m ∈ c'.methods, ∀ a ∈ m.ancestors, a ∈ c'.baseNames := by
    have hfind := firstUnknown?_of_alike ⟨hrest, hmethods⟩
    rw [hnone] at hfind
    cases hnone' : c'.firstUnknown? with
    | none => exact firstUnknown?_eq_none.1 hnone'
    | some n =>
        rw [hnone'] at hfind
        cases hfind
  refine ⟨_, Resolved.block ⟨hc, hknown⟩, ?_⟩
  rw [Resolved.block ⟨hc', hknown'⟩, hnames]
  unfold blockOf
  rw [body_of_alike hmethods]
  rw [hrest]
  rfl

/-- A contract with an ancestor that is no base has no block; the conflict is
about the first function with such an ancestor. -/
theorem block_of_unknown {c : Contract} {m : Method}
    (h : c.firstUnknown? = some m) :
    ∃ a, c.block = .error (.unknownAncestor c.name m.signature.text a) := by
  obtain ⟨a, -, -, hmarked⟩ := marked_of_unknown h
  refine ⟨a, ?_⟩
  unfold block
  rw [hmarked]
  rfl

/-- What a history recorded is known to a contract exactly if its table has
no other ancestors. -/
theorem known_iff_recorded (history : List Step) (name : String) :
    (∀ m ∈ (replay history { name }).methods, ∀ a ∈ m.ancestors,
        a ∈ (replay history { name }).baseNames)
      ↔ ∀ sig, ∀ a ∈ recorded history sig,
          a ∈ (replay history { name }).baseNames := by
  have hrec := records_replay history name
  constructor
  · intro h sig a ha
    by_cases hsig : sig ∈ (replay history { name }).signatures
    · obtain ⟨m, hm, rfl⟩ := List.mem_map.1 hsig
      exact h m hm a ((hrec.1 m hm a).2 ha)
    · rw [hrec.2 sig hsig] at ha
      cases ha
  · intro h m hm a ha
    exact h m.signature a ((hrec.1 m hm a).1 ha)

end Contract

namespace SourceFile

variable {transform : String → String} {c : Contract}

theorem print_of_block {b : List Fragment} (h : c.block = .ok b) :
    print transform [c]
      = .ok (Fragment.render (fragments transform [c] [b])) := by
  unfold print
  rw [List.mapM_cons, h]
  rfl

theorem print_of_block_error {e : ContractError} (h : c.block = .error e) :
    print transform [c] = .error e := by
  unfold print
  rw [List.mapM_cons, h]
  rfl

/-- Like contracts print alike: the same text if all ancestors are bases, and
otherwise a conflict about the same function. -/
theorem print_of_alike {c' : Contract} (h : c.Alike c') (hc : c.WellFormed)
    (hc' : c'.WellFormed) (transform : String → String) :
    ((∀ m ∈ c.methods, ∀ a ∈ m.ancestors, a ∈ c.baseNames) →
        ∃ text, print transform [c] = .ok text
          ∧ print transform [c'] = .ok text)
      ∧ ((¬∀ m ∈ c.methods, ∀ a ∈ m.ancestors, a ∈ c.baseNames) →
        ∃ function a a',
          print transform [c] = .error (.unknownAncestor c.name function a)
          ∧ print transform [c']
            = .error (.unknownAncestor c.name function a')) := by
  refine ⟨?_, ?_⟩
  · intro hknown
    obtain ⟨b, hb, hb'⟩ := Contract.block_of_alike h hc hc' hknown
    refine ⟨_, print_of_block hb, ?_⟩
    rw [print_of_block hb', h.rest]
    rfl
  · -- the first unknown ancestors may differ, but not the function they are of
    intro hunknown
    rw [← Contract.firstUnknown?_eq_none] at hunknown
    obtain ⟨m, hm⟩ := Option.ne_none_iff_exists'.1 hunknown
    have hfind := Contract.firstUnknown?_of_alike h
    rw [hm] at hfind
    cases hm' : c'.firstUnknown? with
    | none =>
        rw [hm'] at hfind
        cases hfind
    | some n =>
        rw [hm'] at hfind
        cases hfind with
        | some hmn =>
            obtain ⟨a, ha⟩ := Contract.block_of_unknown hm
            obtain ⟨a', ha'⟩ := Contract.block_of_unknown hm'
            refine ⟨m.signature.text, a, a', print_of_block_error ha, ?_⟩
            rw [print_of_block_error ha', hmn.signature, h.rest]

end SourceFile

-- ============================================================ the theorem

open Contract

/-- Exchanging two neighbouring independent steps of a history does not show.
Every step has the same outcome in both histories. If every ancestor that was
recorded is a base, both contracts print to the same text; otherwise neither
is printed, and both conflicts are about the same function. -/
theorem rendering_of_exchange (name : String) (before after : List Step)
    {s t : Step} (h : Independent (replay before { name }) s t)
    (transform : String → String) :
    (∃ x y rest,
        outcomes (before ++ s :: t :: after) { name }
            = outcomes before { name } ++ x :: y :: rest
          ∧ outcomes (before ++ t :: s :: after) { name }
            = outcomes before { name } ++ y :: x :: rest)
      ∧ ((∀ sig, ∀ a ∈ recorded (before ++ s :: t :: after) sig,
            a ∈ (replay (before ++ s :: t :: after) { name }).baseNames) →
          ∃ text,
            SourceFile.print transform
                [replay (before ++ s :: t :: after) { name }] = .ok text
            ∧ SourceFile.print transform
                [replay (before ++ t :: s :: after) { name }] = .ok text)
      ∧ ((∃ sig, ∃ a ∈ recorded (before ++ s :: t :: after) sig,
            a ∉ (replay (before ++ s :: t :: after) { name }).baseNames) →
          ∃ function a a',
            SourceFile.print transform
                [replay (before ++ s :: t :: after) { name }]
              = .error (.unknownAncestor name function a)
            ∧ SourceFile.print transform
                [replay (before ++ t :: s :: after) { name }]
              = .error (.unknownAncestor name function a')) := by
  obtain ⟨halike, houtcomes⟩ := replay_exchange (wellFormed_start name) h after
  obtain ⟨hok, herror⟩ := SourceFile.print_of_alike halike
    (wellFormed_replay _ name) (wellFormed_replay _ name) transform
  refine ⟨houtcomes, ?_, ?_⟩
  · intro hknown
    exact hok ((known_iff_recorded _ name).2 hknown)
  · rintro ⟨sig, a, ha, hbase⟩
    rw [name_replay] at herror
    refine herror fun hknown => hbase ?_
    exact (known_iff_recorded _ name).1 hknown sig a ha

/-- Two ancestors of a function of the table, named in either order, leave
different contracts with the same text. -/
theorem rendering_of_ancestors_exchanged :
    let hook : Declaration := { name := "hook", visibility := .inside }
    let before : List Step := [.base ⟨⟨"Left", "./Left.sol"⟩, []⟩,
      .base ⟨⟨"Right", "./Right.sol"⟩, []⟩, .line "count += 1;" hook]
    let s : Step := .ancestor "Right" hook
    let t : Step := .ancestor "Left" hook
    replay (before ++ [s, t]) { name := "Bottom" }
        ≠ replay (before ++ [t, s]) { name := "Bottom" }
      ∧ ∃ text,
          SourceFile.printPlain
            [replay (before ++ [s, t]) { name := "Bottom" }]
            = .ok text
          ∧ SourceFile.printPlain
            [replay (before ++ [t, s]) { name := "Bottom" }]
            = .ok text := by
  intro hook before s t
  have hindependent : Independent (replay before { name := "Bottom" }) s t :=
    .ancestors (p := hook.signature) rfl rfl (by decide) ⟨rfl, rfl⟩
  obtain ⟨-, hok, -⟩ :=
    rendering_of_exchange "Bottom" before [] hindependent id
  exact ⟨by decide, hok ((known_iff_recorded _ _).1 (by decide))⟩

end TokenForge
