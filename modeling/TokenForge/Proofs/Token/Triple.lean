/-
Reasoning about assemblies. `Ensures P a Q` says that from a contract with
`P` the assembly runs into no conflict and leaves one with `Q`. `Relates R
a b` is about two runs: if both succeed from related contracts, they leave
related contracts. Each rule follows one way to put an assembly together: a
step, one assembly after the other, a repetition, a test of the contract, a
look at a catalog.
-/
import TokenForge.Proofs.Contract.Step
import TokenForge.Token.Library

namespace TokenForge

/-- What a step does, by its conflict and the contract after it. -/
theorem Step.perform_apply (s : Step) (c : Contract) :
    s.perform c = match s.conflict? c with
      | none => .ok () (s.next c)
      | some e => .error e (s.next c) := by
  unfold conflict? next Assembly.runOn
  cases s.perform c <;> rfl

/-- A step that succeeds leaves what it leaves in any case. -/
theorem Step.next_of_perform {s : Step} {c d : Contract}
    (h : s.perform c = .ok () d) :
    s.next c = d := by
  rw [perform_apply] at h
  cases hc : s.conflict? c with
  | none =>
      rw [hc] at h
      cases h
      rfl
  | some e =>
      rw [hc] at h
      cases h

/-- What a catalog has under a name is found. -/
theorem Token.lookUp_of_get {catalog : Catalog} {name : String}
    {d : Declaration} (h : catalog.get name = .ok d) :
    Token.lookUp catalog name = pure d := by
  rw [Token.lookUp, h]

namespace Assembly

/-- If one assembly after the other succeeds, so does each. -/
theorem bind_eq_ok {a b : Assembly Unit} {c d : Contract}
    (h : (a >>= fun _ => b) c = .ok () d) :
    ∃ e, a c = .ok () e ∧ b e = .ok () d := by
  change EStateM.bind a (fun _ => b) c = _ at h
  unfold EStateM.bind at h
  cases ha : a c with
  | ok u e =>
      rw [ha] at h
      exact ⟨e, rfl, h⟩
  | error u e =>
      rw [ha] at h
      cases h

-- ================================================================ one run

/-- From a contract with `P` the assembly succeeds and leaves one with
`Q`. -/
def Ensures (P : Contract → Prop) (a : Assembly Unit) (Q : Contract → Prop) :
    Prop :=
  ∀ c, P c → ∃ c', a c = .ok () c' ∧ Q c'

section Ensures

variable {P P' Q Q' R : Contract → Prop} {a b : Assembly Unit}

/-- A step that is not refused ensures what holds after it. -/
theorem Ensures.step {s : Step}
    (h : ∀ c, P c → s.conflict? c = none ∧ Q (s.next c)) :
    Ensures P s.perform Q := by
  intro c hc
  obtain ⟨hconflict, hQ⟩ := h c hc
  refine ⟨s.next c, ?_, hQ⟩
  rw [Step.perform_apply, hconflict]

theorem Ensures.skip : Ensures P (pure ()) P :=
  fun c hc => ⟨c, rfl, hc⟩

/-- What the first assembly ensures, the second may start from. -/
theorem Ensures.bind (ha : Ensures P a Q) (hb : Ensures Q b R) :
    Ensures P (a >>= fun _ => b) R := by
  intro c hc
  obtain ⟨c₁, hrun, hQ⟩ := ha c hc
  obtain ⟨c₂, hrun', hR⟩ := hb c₁ hQ
  refine ⟨c₂, ?_, hR⟩
  show EStateM.bind a (fun _ => b) c = _
  rw [EStateM.bind, hrun]
  exact hrun'

/-- Less may be ensured, and from more. -/
theorem Ensures.weaken (h : Ensures P a Q) (hP : ∀ c, P' c → P c)
    (hQ : ∀ c, Q c → Q' c) : Ensures P' a Q' := by
  intro c hc
  obtain ⟨c', hrun, hc'⟩ := h c (hP c hc)
  exact ⟨c', hrun, hQ c' hc'⟩

/-- A repetition keeps what each of its runs keeps. -/
theorem Ensures.forM {α : Type} {l : List α} {f : α → Assembly Unit}
    (h : ∀ x ∈ l, Ensures P (f x) P) : Ensures P (l.forM f) P := by
  induction l with
  | nil => exact Ensures.skip
  | cons x l ih =>
      exact (h x (List.mem_cons_self ..)).bind
        (ih fun y hy => h y (List.mem_cons_of_mem _ hy))

/-- A test of the contract is known to both of its branches. -/
theorem Ensures.test {p : Contract → Bool}
    (ha : Ensures (fun c => P c ∧ p c = true) a Q)
    (hb : Ensures (fun c => P c ∧ p c = false) b Q) :
    Ensures P (do if p (← get) = true then a else b) Q := by
  intro c hc
  show ∃ c', (if p c = true then a else b) c = .ok () c' ∧ Q c'
  cases hp : p c with
  | true => exact ha c ⟨hc, hp⟩
  | false => exact hb c ⟨hc, hp⟩

/-- A part that depends on an option ensures what holds without it too. -/
theorem Ensures.whenSet (option : Bool) (h : Ensures P a Q)
    (hskip : ∀ c, P c → Q c) : Ensures P (Token.whenSet option a) Q := by
  cases option with
  | true => exact h
  | false => exact Ensures.skip.weaken (fun _ => id) hskip

/-- Looking up what the catalog has is no conflict. -/
theorem Ensures.lookUp {catalog : Catalog} {name : String} {d : Declaration}
    {f : Declaration → Assembly Unit} (h : catalog.get name = .ok d)
    (hf : Ensures P (f d) Q) :
    Ensures P (Token.lookUp catalog name >>= f) Q := by
  rw [Token.lookUp_of_get h, pure_bind]
  exact hf

end Ensures

-- =============================================================== two runs

/-- If two assemblies succeed from related contracts, they leave related
contracts. -/
def Relates (R : Contract → Contract → Prop) (a b : Assembly Unit) : Prop :=
  ∀ c c' d d', R c c' → a c = .ok () d → b c' = .ok () d' → R d d'

section Relates

variable {R : Contract → Contract → Prop} {a a' b b' : Assembly Unit}

/-- Two steps relate what they keep related. -/
theorem Relates.step {s t : Step}
    (h : ∀ c c', R c c' → R (s.next c) (t.next c')) :
    Relates R s.perform t.perform := by
  intro c c' d d' hR hd hd'
  rw [← Step.next_of_perform hd, ← Step.next_of_perform hd']
  exact h c c' hR

theorem Relates.skip : Relates R (pure ()) (pure ()) := by
  intro c c' d d' hR hd hd'
  cases hd
  cases hd'
  exact hR

/-- One pair of assemblies after the other keeps contracts related. -/
theorem Relates.bind (ha : Relates R a a') (hb : Relates R b b') :
    Relates R (a >>= fun _ => b) (a' >>= fun _ => b') := by
  intro c c' d d' hR hd hd'
  obtain ⟨e, he, hd⟩ := bind_eq_ok hd
  obtain ⟨e', he', hd'⟩ := bind_eq_ok hd'
  exact hb e e' d d' (ha c c' e e' hR he he') hd hd'

/-- Repetitions over one list keep contracts related if
each pair of runs does. -/
theorem Relates.forM {α : Type} {l : List α} {f f' : α → Assembly Unit}
    (h : ∀ x ∈ l, Relates R (f x) (f' x)) :
    Relates R (l.forM f) (l.forM f') := by
  induction l with
  | nil => exact Relates.skip
  | cons x l ih =>
      exact (h x (List.mem_cons_self ..)).bind
        (ih fun y hy => h y (List.mem_cons_of_mem _ hy))

/-- Related contracts pass a test together, so both runs
take the same branch. -/
theorem Relates.test {p : Contract → Bool} (hp : ∀ c c', R c c' → p c = p c')
    (ha : Relates R a a') (hb : Relates R b b') :
    Relates R (do if p (← get) = true then a else b)
      (do if p (← get) = true then a' else b') := by
  intro c c' d d' hR hd hd'
  change (if p c = true then a else b) c = _ at hd
  change (if p c' = true then a' else b') c' = _ at hd'
  rw [← hp c c' hR] at hd'
  cases hpc : p c with
  | true =>
      rw [hpc] at hd hd'
      exact ha c c' d d' hR hd hd'
  | false =>
      rw [hpc] at hd hd'
      exact hb c c' d d' hR hd hd'

/-- An option that both runs share is taken by both or by none. -/
theorem Relates.whenSet (option : Bool) (h : Relates R a a') :
    Relates R (Token.whenSet option a) (Token.whenSet option a') := by
  cases option with
  | true => exact h
  | false => exact Relates.skip

/-- Both runs find the same declaration in a catalog. -/
theorem Relates.lookUp {catalog : Catalog} {name : String} {d : Declaration}
    {f f' : Declaration → Assembly Unit} (h : catalog.get name = .ok d)
    (hf : Relates R (f d) (f' d)) :
    Relates R (Token.lookUp catalog name >>= f)
      (Token.lookUp catalog name >>= f') := by
  rw [Token.lookUp_of_get h, pure_bind, pure_bind]
  exact hf

end Relates

end Assembly

end TokenForge
