/-
The representation invariant of a contract under construction, with what its
table remembers of the history.

`spoken` lists the declarations a history spoke of. The table is this list
with everything but the first declaration of each signature left out: a
signature has the declaration that was spoken of first (`declared_replay`),
and the signatures come in the order in which they were first spoken of
(`signatures_replay`). Both are kept by every step because a step that speaks
of a known function changes neither its declaration nor the order.

No entry is bare. A step puts a function into the table before it edits it,
so a refused edit could leave a function of which nothing is known; it does
not, because an edit that is refused found its function in the table
(`furnished_next`). An entry without ancestors has therefore a modifier or a
body, and the printer never leaves it out (`Method.not_omitted`).
-/
import TokenForge.Proofs.Contract.Growth
import TokenForge.Proofs.FirstOccurrence
import TokenForge.Source.Method

namespace TokenForge

-- ================================================ what a history spoke of

/-- The declaration a step speaks of, if it speaks of a function. -/
def Step.declaration? : Step → Option Declaration
  | .ancestor _ d => some d
  | .modifier _ d => some d
  | .line _ d => some d
  | .body _ d => some d
  | _ => none

/-- The declarations a history spoke of, in order and as often as it did. -/
def spoken (history : List Step) : List Declaration :=
  history.filterMap Step.declaration?

theorem spoken_concat (history : List Step) (s : Step) :
    spoken (history ++ [s]) = spoken history ++ s.declaration?.toList := by
  unfold spoken
  rw [List.filterMap_append]
  cases h : s.declaration? <;> simp [h]

theorem Step.declaration?_of_edit {s : Step} {d : Declaration} {f : MethodEdit}
    (hs : s.edit? = some (d, f)) : s.declaration? = some d := by
  cases s <;> simp only [edit?, Option.some.injEq, Prod.mk.injEq,
    reduceCtorEq] at hs
  all_goals
    obtain ⟨rfl, -⟩ := hs
    rfl

theorem Step.declaration?_of_field {s : Step} (hs : s.edit? = none) :
    s.declaration? = none := by
  cases s <;> simp only [edit?, reduceCtorEq] at hs
  all_goals rfl

-- ======================================================= the declarations

namespace Contract

/-- The declaration of a function after a step: the one it had, or else the
one the step speaks of. -/
theorem declared_next (s : Step) (c : Contract) (sig : Signature) :
    ((s.next c).method? sig).map (·.decl)
      = ((c.method? sig).map (·.decl)).or
        (s.declaration?.toList.find? (·.signature = sig)) := by
  cases hs : s.edit? with
  | none =>
      rw [Step.declaration?_of_field hs]
      unfold method?
      rw [Step.methods_next hs]
      simp
  | some df =>
      obtain ⟨d, f⟩ := df
      rw [Step.declaration?_of_edit hs]
      by_cases hsig : d.signature = sig
      · subst hsig
        rw [Step.method?_next_self hs, Option.map_some, Step.decl_result hs]
        cases hfind : c.method? d.signature with
        | none =>
            rw [methodFor_of_none hfind]
            simp [Method.fresh]
        | some m =>
            rw [methodFor_of_some hfind]
            simp
      · have hother : s.function? ≠ some sig := by
          rw [Step.function?, hs]
          simpa using hsig
        rw [Step.method?_next_other hother]
        simp [hsig]

/-- A signature has the declaration that was spoken of first. -/
theorem declared_replay (history : List Step) (name : String)
    (sig : Signature) :
    ((replay history { name }).method? sig).map (·.decl)
      = (spoken history).find? (·.signature = sig) := by
  induction history using List.reverseRecOn with
  | nil => rfl
  | append_singleton history s ih =>
      rw [replay_append, spoken_concat, List.find?_append, ← ih]
      exact declared_next s _ sig

/-- The signatures come in the order in which they were first spoken of. -/
theorem signatures_replay (history : List Step) (name : String) :
    (replay history { name }).signatures
      = ((spoken history).map (·.signature)).eraseDups := by
  induction history using List.reverseRecOn with
  | nil => rfl
  | append_singleton history s ih =>
      have hc := (wellFormed_replay history name).signatures_distinct
      rw [replay_append, spoken_concat, List.map_append]
      show (s.next (replay history { name })).signatures = _
      cases hs : s.edit? with
      | none =>
          rw [Step.declaration?_of_field hs, Option.toList_none, List.map_nil,
            List.append_nil, signatures, Step.methods_next hs]
          exact ih
      | some df =>
          obtain ⟨d, f⟩ := df
          rw [Step.declaration?_of_edit hs, (Step.next_of_edit hs _).1,
            signatures_edited hc (Step.signature_result hs), ih]
          simp only [Option.toList_some, List.map_singleton, eraseDups_concat,
            List.mem_eraseDups]

end Contract

-- ============================================================ the entries

namespace Method

/-- Something is known of a function beside its declaration. -/
def Furnished (m : Method) : Prop :=
  m.ancestors ≠ [] ∨ m.modifiers ≠ [] ∨ m.body ≠ .untouched

/-- The printer leaves out no function that has a modifier or a body and no
ancestor. -/
theorem not_omitted {m : Method} (hfurnished : m.Furnished)
    (hgrown : m.body ≠ .grown []) (hancestors : m.ancestors = []) :
    m.isOmitted = false := by
  have hbare : m.isBare = false := by
    unfold isBare code isReplaced
    rcases hfurnished with h | h | h
    · exact absurd hancestors h
    · simp [h]
    · cases hbody : m.body with
      | untouched => exact absurd hbody h
      | grown ls =>
          have hls : ls ≠ [] := fun hnil => hgrown (hnil ▸ hbody)
          simp [Body.lines, hls]
      | replaced ls => simp [Body.isReplaced]
  rw [isOmitted, hbare, Bool.and_false]

end Method

/-- A body that was appended to by some line, or replaced. -/
def Body.Written (b : Body) : Prop := b ≠ .untouched ∧ b ≠ .grown []

theorem Body.written_of_append? {line : String} {b b' : Body}
    (h : b.append? line = some b') : b'.Written := by
  cases b <;> cases h <;> simp [Written]

theorem Body.written_of_replace? {lines : List String} {b b' : Body}
    (h : b.replace? lines = some b') : b'.Written := by
  cases b <;> cases h <;> simp [Written]

/-- An edit of a body leaves a written one, or is refused and leaves all. -/
theorem MethodEdit.onBody_cases {change : Body → Option Body}
    (hchange : ∀ {b b'}, change b = some b' → b'.Written)
    (refusal : Signature → ContractError) (m : Method) :
    ((∃ e, (onBody change refusal).refusal? m = some e)
        ∧ (onBody change refusal).result m = m)
      ∨ ∃ body : Body, body.Written
        ∧ (onBody change refusal).result m = { m with body } := by
  rw [refusal?_onBody, result_onBody]
  cases h : change m.body with
  | none => exact .inl ⟨⟨_, rfl⟩, rfl⟩
  | some body => exact .inr ⟨body, hchange h, rfl⟩

namespace Step

variable {s : Step} {d : Declaration} {f : MethodEdit}

/-- What an edit makes of a function: one more ancestor, one more modifier or a
written body, or nothing if it is refused. -/
theorem result_cases (hs : s.edit? = some (d, f)) (m : Method) :
    (∃ a, f.result m = m.addAncestor a)
      ∨ (∃ text, f.result m = m.addModifier text)
      ∨ ((∃ e, f.refusal? m = some e) ∧ f.result m = m)
      ∨ ∃ body : Body, body.Written ∧ f.result m = { m with body } := by
  cases s <;> simp only [edit?, Option.some.injEq, Prod.mk.injEq,
    reduceCtorEq] at hs
  case ancestor a e =>
      obtain ⟨-, rfl⟩ := hs
      exact .inl ⟨a, rfl⟩
  case modifier text e =>
      obtain ⟨-, rfl⟩ := hs
      exact .inr (.inl ⟨text, rfl⟩)
  case line text e =>
      obtain ⟨-, rfl⟩ := hs
      exact .inr (.inr (MethodEdit.onBody_cases Body.written_of_append? _ m))
  case body lines e =>
      obtain ⟨-, rfl⟩ := hs
      exact .inr (.inr (MethodEdit.onBody_cases Body.written_of_replace? _ m))

/-- An edit leaves its function furnished, unless it was bare and the edit is
refused, and never a body to which nothing was appended. -/
theorem furnished_result (hs : s.edit? = some (d, f)) {m : Method}
    (h : f.refusal? m = none ∨ m.Furnished) (hgrown : m.body ≠ .grown []) :
    (f.result m).Furnished ∧ (f.result m).body ≠ .grown [] := by
  rcases result_cases hs m with ⟨a, hres⟩ | ⟨text, hres⟩ | ⟨⟨e, he⟩, hres⟩ |
    ⟨body, ⟨htouched, hlines⟩, hres⟩
  · rw [hres, Method.addAncestor_eq]
    exact ⟨.inl (List.ne_nil_of_mem (mem_withName.2 (.inr rfl))), hgrown⟩
  · rw [hres]
    exact ⟨.inr (.inl (by simp [Method.addModifier])), hgrown⟩
  · have hm : m.Furnished := h.resolve_left (by simp [he])
    rw [hres]
    exact ⟨hm, hgrown⟩
  · rw [hres]
    exact ⟨.inr (.inr htouched), hlines⟩

end Step

namespace Contract

/-- Every entry of a table has something known of it, and no body to which
nothing was appended. -/
def AllFurnished (c : Contract) : Prop :=
  ∀ m ∈ c.methods, m.Furnished ∧ m.body ≠ .grown []

/-- Every step leaves the entries furnished, conflicts included. -/
theorem furnished_next {c : Contract} (hc : c.signatures.Nodup)
    (h : c.AllFurnished) (s : Step) : (s.next c).AllFurnished := by
  cases hs : s.edit? with
  | none =>
      unfold AllFurnished
      rw [Step.methods_next hs]
      exact h
  | some df =>
      obtain ⟨d, f⟩ := df
      rw [(Step.next_of_edit hs c).1]
      intro m hm
      rcases (mem_methods_edited hc (Step.signature_result hs)).1 hm with
        ⟨hm, -⟩ | rfl
      · exact h m hm
      · -- the edited function: a fresh one refuses nothing, one of the table
        -- was furnished before
        rcases methodFor_cases c d with hfresh | hentry
        · rw [hfresh]
          exact Step.furnished_result hs (.inl (Step.refusal?_fresh hs d))
            (by simp [Method.fresh])
        · obtain ⟨hfurnished, hgrown⟩ := h _ hentry
          exact Step.furnished_result hs (.inr hfurnished) hgrown

theorem furnished_replay (history : List Step) (name : String) :
    (replay history { name }).AllFurnished := by
  induction history using List.reverseRecOn with
  | nil => exact fun m hm => absurd hm List.not_mem_nil
  | append_singleton history s ih =>
      rw [replay_append]
      exact furnished_next
        (wellFormed_replay history name).signatures_distinct ih s

end Contract

-- ============================================================ the theorem

open Contract

/-- A contract is in order and remembers what a history spoke of. -/
structure Contract.Represents (c : Contract) (history : List Step) : Prop where
  /-- No two bases share a name. -/
  bases_distinct : c.baseNames.Nodup
  /-- No two entries share a signature. -/
  signatures_distinct : c.signatures.Nodup
  /-- Under a signature stands the one entry whose declaration has it. -/
  keyed : ∀ sig m, c.method? sig = some m
    ↔ m ∈ c.methods ∧ m.decl.signature = sig
  /-- An entry has the declaration that was spoken of first. -/
  first_declared : ∀ m ∈ c.methods,
    (spoken history).find? (·.signature = m.signature) = some m.decl
  /-- The entries come in the order in which they were first spoken of. -/
  first_spoken : c.signatures = ((spoken history).map (·.signature)).eraseDups
  /-- No entry names an ancestor twice. -/
  ancestors_distinct : ∀ m ∈ c.methods, m.ancestors.Nodup
  /-- A body that was appended to has lines. -/
  grown : ∀ m ∈ c.methods, ∀ lines, m.body = .grown lines → lines ≠ []
  /-- Every entry has an ancestor, a modifier or a body. -/
  furnished : ∀ m ∈ c.methods, m.Furnished
  /-- An entry without ancestors is printed. -/
  printed : ∀ m ∈ c.methods, m.ancestors = [] → m.isOmitted = false

/-- Whatever steps were taken, and whichever of them ran into conflicts, the
contract they leave is in order and remembers what was spoken of. -/
theorem represents_replay (name : String) (history : List Step) :
    (replay history { name }).Represents history := by
  have hwf := wellFormed_replay history name
  have hentries := furnished_replay history name
  exact {
    bases_distinct := hwf.bases_distinct
    signatures_distinct := hwf.signatures_distinct
    keyed := by
      intro sig m
      refine ⟨method?_eq_some, ?_⟩
      rintro ⟨hm, rfl⟩
      exact method?_of_mem hwf.signatures_distinct hm
    first_declared := by
      intro m hm
      rw [← declared_replay history name,
        method?_of_mem hwf.signatures_distinct hm, Option.map_some]
    first_spoken := signatures_replay history name
    ancestors_distinct := hwf.ancestors_distinct
    grown := by
      rintro m hm lines hbody rfl
      exact (hentries m hm).2 hbody
    furnished := fun m hm => (hentries m hm).1
    printed := fun m hm =>
      Method.not_omitted (hentries m hm).1 (hentries m hm).2 }

/-- A second declaration of a signature is not remembered, whether it came with
a refused line or with a modifier. -/
example :
    let mint : Declaration := { name := "mint", visibility := .everywhere }
    let hidden : Declaration := { name := "mint", visibility := .inside }
    (replay [.body [] mint, .line "supply += 1;" hidden,
        .modifier "onlyOwner" hidden] { name := "Token" }).methods
      = [⟨mint, [], ["onlyOwner"], .replaced []⟩] := by
  decide

end TokenForge
