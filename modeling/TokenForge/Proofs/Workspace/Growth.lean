/-
What making directories does to a workspace. An entry is put where nothing
stands, and it is a directory, so nothing that was there changes
(`MadeDirectories`); and as each segment of a path is entered that way, so does
nothing when a whole path is made, even if it leads nowhere in the end
(`made_makeDirectories`).

Paths that led somewhere still lead there afterwards. That needs less than
equal entries: what was there is still there, and directories still are
directories (`Keeps`), which holds of writing a file, too.
-/
import Mathlib.Data.List.Basic
import TokenForge.Workspace.Basic

namespace TokenForge.Workspace

variable {w w' : Workspace} {p q : Place} {e : Entry}

-- ============================================================== one entry

/-- The bytes of the file at a place. -/
def fileAt? (w : Workspace) (p : Place) : Option ByteArray :=
  match w.entry? p with
  | some (.file bytes) => some bytes
  | _ => none

theorem fileAt?_congr (h : w'.entry? p = w.entry? p) :
    w'.fileAt? p = w.fileAt? p := by
  unfold fileAt?
  rw [h]

theorem isDirectory_iff :
    w.isDirectory p = true ↔ w.entry? p = some .directory := by
  unfold isDirectory
  split
  · next h => exact iff_of_true rfl h
  · next h => exact iff_of_false Bool.false_ne_true h

theorem here_put (w : Workspace) (p : Place) (e : Entry) :
    (w.put p e).here = w.here := by
  unfold put
  split <;> rfl

private theorem lookup_map_self (entries : List (Place × Entry)) (p : Place)
    (e : Entry) (h : (entries.lookup p).isSome) :
    (entries.map fun x => if x.1 = p then (p, e) else x).lookup p
      = some e := by
  induction entries with
  | nil => cases h
  | cons x rest ih =>
      by_cases hx : x.1 = p
      · simp [hx]
      · have hne : (p == x.1) = false := by simpa using fun heq => hx heq.symm
        rw [List.map_cons, if_neg hx, List.lookup_cons, hne]
        apply ih
        rwa [List.lookup_cons, hne] at h

private theorem lookup_map_other (entries : List (Place × Entry)) (e : Entry)
    (h : q ≠ p) :
    (entries.map fun x => if x.1 = p then (p, e) else x).lookup q
      = entries.lookup q := by
  have hne : (q == p) = false := by simpa using h
  induction entries with
  | nil => rfl
  | cons x rest ih =>
      by_cases hx : x.1 = p
      · rw [List.map_cons, if_pos hx, List.lookup_cons, hne, ih,
          List.lookup_cons, hx, hne]
      · rw [List.map_cons, if_neg hx, List.lookup_cons, ih, List.lookup_cons]

/-- An entry stands where it was put. -/
theorem entry?_put_self (w : Workspace) (hp : p ≠ []) (e : Entry) :
    entry? (w.put p e) p = some e := by
  unfold put entry?
  rw [if_neg hp]
  split
  · next h => exact lookup_map_self w.entries p e h
  · next h =>
    rw [List.lookup_append, Option.not_isSome_iff_eq_none.1 h,
      List.lookup_cons_self]
    rfl

/-- No other place is touched. -/
theorem entry?_put_other (w : Workspace) (h : q ≠ p) (e : Entry) :
    entry? (w.put p e) q = w.entry? q := by
  unfold put entry?
  by_cases hq : q = []
  · rw [if_pos hq, if_pos hq]
  rw [if_neg hq, if_neg hq]
  split
  · exact lookup_map_other w.entries e h
  · have hne : (q == p) = false := by simpa using h
    rw [List.lookup_append, List.lookup_cons, hne, List.lookup_nil,
      Option.or_none]

/-- Putting an entry changes no file elsewhere. -/
theorem fileAt?_put_other (w : Workspace) (h : q ≠ p) (e : Entry) :
    (w.put p e).fileAt? q = w.fileAt? q :=
  fileAt?_congr (entry?_put_other w h e)

-- ==================================================== nothing but directories

/-- One workspace has the entries of another, and directories where
the other has nothing. -/
structure MadeDirectories (w w' : Workspace) : Prop where
  here : w'.here = w.here
  entry : ∀ p, w'.entry? p = w.entry? p
    ∨ w.entry? p = none ∧ w'.entry? p = some .directory

namespace MadeDirectories

theorem refl (w : Workspace) : MadeDirectories w w := ⟨rfl, fun _ => .inl rfl⟩

theorem trans {w'' : Workspace} (h : MadeDirectories w w')
    (h' : MadeDirectories w' w'') :
    MadeDirectories w w'' where
  here := h'.here.trans h.here
  entry p := by
    rcases h'.entry p with hsame | ⟨hnone, hmade⟩
    · rw [hsame]
      exact h.entry p
    · rcases h.entry p with hsame | ⟨-, hdirectory⟩
      · exact .inr ⟨hsame ▸ hnone, hmade⟩
      · rw [hnone] at hdirectory
        cases hdirectory

/-- A directory may be made where nothing is. -/
theorem put (h : w.entry? p = none) :
    MadeDirectories w (w.put p .directory) where
  here := here_put w p .directory
  entry q := by
    by_cases hq : q = p
    · have hp : p ≠ [] := by
        intro hroot
        rw [hroot] at h
        cases h
      rw [hq]
      exact .inr ⟨h, entry?_put_self w hp .directory⟩
    · exact .inl (entry?_put_other w hq .directory)

/-- No file is changed, made or lost. -/
theorem fileAt? (h : MadeDirectories w w') (p : Place) :
    w'.fileAt? p = w.fileAt? p := by
  rcases h.entry p with hsame | ⟨hnone, hmade⟩
  · exact fileAt?_congr hsame
  · unfold Workspace.fileAt?
    rw [hnone, hmade]

end MadeDirectories

/-- Entering a segment makes a directory or nothing. -/
theorem made_enter (w : Workspace) (p : Place) (segment : String) :
    MadeDirectories w (w.enter p segment).1 := by
  unfold enter
  split
  · exact .refl w
  split
  · exact .refl w
  split
  · exact .refl w
  dsimp only
  split
  · exact .refl w
  · exact .refl w
  next hnone =>
    split
    · exact .put hnone
    · exact .refl w

/-- Following a path makes directories, and nothing else. -/
theorem made_enterAll (w : Workspace) (p : Place) (ss : Segments) :
    MadeDirectories w (w.enterAll p ss).1 := by
  induction ss generalizing w p with
  | nil => exact .refl w
  | cons s rest ih =>
      have hstep := made_enter w p s
      unfold enterAll
      split
      · next w₁ q henter =>
        rw [henter] at hstep
        exact hstep.trans (ih w₁ q)
      · next w₁ henter =>
        rw [henter] at hstep
        exact hstep

/-- So does making all directories of a path. -/
theorem made_makeDirectories (w : Workspace) (path : String) :
    MadeDirectories w (w.makeDirectories path).1 := by
  unfold makeDirectories
  split
  · exact .refl w
  split
  · exact .refl w
  · exact made_enterAll w _ _

-- ========================================================== paths that stay

/-- What is there in one workspace is there in another, and its
directories are directories. -/
structure Keeps (w w' : Workspace) : Prop where
  here : w'.here = w.here
  entry : ∀ p, (w.entry? p).isSome → (w'.entry? p).isSome
  directory : ∀ p, w.isDirectory p = true → w'.isDirectory p = true

/-- Putting a file where no directory is loses nothing. -/
theorem Keeps.put (h : w.isDirectory p = false) (e : Entry) :
    Keeps w (w.put p e) where
  here := here_put w p e
  entry q hq := by
    by_cases hqp : q = p
    · have hp : p ≠ [] := by
        intro hroot
        rw [hroot] at h
        cases h
      rw [hqp, entry?_put_self w hp e]
      rfl
    · rwa [entry?_put_other w hqp e]
  directory q hq := by
    have hqp : q ≠ p := by
      intro hqp
      rw [hqp, h] at hq
      cases hq
    rw [isDirectory_iff, entry?_put_other w hqp e]
    exact isDirectory_iff.1 hq

/-- What was reached in one step is still reached. -/
theorem Keeps.follow? (h : Keeps w w') {segment : String}
    (hq : w.follow? p segment = some q) :
    w'.follow? p segment = some q := by
  unfold Workspace.follow? at hq ⊢
  cases hdirectory : w.isDirectory p with
  | false =>
      rw [hdirectory] at hq
      cases hq
  | true =>
      rw [hdirectory] at hq
      rw [h.directory p hdirectory]
      by_cases hstill : Path.isStill segment = true
      · simpa [hstill] using hq
      by_cases hup : segment = ".."
      · simpa [hstill, hup] using hq
      simp only [hstill, hup, Bool.not_true, Bool.false_eq_true,
        if_false] at hq ⊢
      split at hq
      · next hthere =>
        rw [if_pos (h.entry _ hthere)]
        exact hq
      · cases hq

/-- So is what was reached along a path. -/
theorem Keeps.foldlM_follow? (h : Keeps w w') {ss : Segments}
    (hq : ss.foldlM w.follow? p = some q) :
    ss.foldlM w'.follow? p = some q := by
  induction ss generalizing p with
  | nil => exact hq
  | cons s rest ih =>
      rw [List.foldlM_cons] at hq ⊢
      obtain ⟨next, hnext, hrest⟩ := Option.bind_eq_some_iff.1 hq
      rw [h.follow? hnext]
      exact ih hrest

end TokenForge.Workspace
