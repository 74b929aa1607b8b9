/-
What writing a file does to a workspace. A path that can be written names a
place: a name in a directory that is there (`exists_target`). Putting the file
there leaves the way to it as it was, so afterwards the path leads to that
place and the file is found under it (`place?_put_target`). Everything else has
the content it had, for on the way directories were made at most; and if the
file could not be written, that is all that happened (`save_cases`).

A path that is a plain name has no way to go. It is written in the working
directory or not at all, and no directory is made (`write_plain`).
-/
import TokenForge.Proofs.Text.Trim
import TokenForge.Proofs.Workspace.Growth
import TokenForge.Workspace.OutputFile

namespace TokenForge.Workspace

variable {w w' : Workspace} {path : String} {p q : Place}

theorem readBytes?_eq (w : Workspace) (path : String) :
    w.readBytes? path = (w.place? path).bind w.fileAt? := by
  unfold readBytes? fileAt?
  cases w.place? path with
  | none => rfl
  | some p => rfl

theorem readText?_of_bytes {text : String}
    (h : w.readBytes? path = some text.toUTF8) :
    w.readText? path = some text := by
  unfold readText?
  rw [h, Option.bind_some, String.fromUTF8?, String.toUTF8_eq_toByteArray,
    dif_pos text.isValidUTF8]
  rfl

-- ============================================================== the target

/-- A path that can be written ends with a name, and what stands before the
name leads to a directory. -/
theorem exists_target (h : w.target? path = some p) :
    ∃ front name directory,
      Path.isUsable path = true ∧ Path.segments path = front ++ [name]
      ∧ Path.isStill name = false ∧ name ≠ ".."
      ∧ front.foldlM w.follow? (w.startOf path) = some directory
      ∧ w.isDirectory directory = true ∧ p = directory ++ [name] := by
  unfold target? at h
  split at h
  · cases h
  next husable =>
    split at h
    · cases h
    next name hlast =>
      split at h
      · cases h
      next hname =>
        split at h
        next directory hfront =>
          split at h
          next hdirectory =>
            obtain ⟨front, hsegments⟩ := List.getLast?_eq_some_iff.1 hlast
            rw [hsegments, List.dropLast_concat] at hfront
            simp only [Bool.or_eq_true, not_or, Bool.not_eq_true,
              decide_eq_true_eq] at hname
            obtain ⟨⟨hstill, hup⟩, -⟩ := hname
            exact ⟨front, name, directory, by simpa using husable, hsegments,
              hstill, hup, hfront, hdirectory, (Option.some.inj h).symm⟩
          next => cases h
        next => cases h

/-- After a file was put at its target, the path leads there. -/
theorem place?_put_target (h : w.target? path = some p)
    (hfree : w.isDirectory p = false) (e : Entry) :
    (w.put p e).place? path = some p := by
  have hkeeps : Keeps w (w.put p e) := .put hfree e
  obtain ⟨front, name, directory, husable, hsegments, hstill, hup, hfront,
    hdirectory, rfl⟩ :=
    exists_target h
  have hstart : (w.put (directory ++ [name]) e).startOf path
      = w.startOf path := by
    unfold startOf
    rw [hkeeps.here]
  have hlast : (w.put (directory ++ [name]) e).follow? directory name
      = some (directory ++ [name]) := by
    unfold follow?
    rw [hkeeps.directory directory hdirectory, entry?_put_self w (by simp) e]
    simp [hstill, hup]
  unfold place?
  rw [if_pos husable, hsegments, List.foldlM_append, hstart,
    hkeeps.foldlM_follow? hfront]
  show [name].foldlM (w.put (directory ++ [name]) e).follow? directory = _
  rw [List.foldlM_cons, hlast]
  rfl

-- ================================================================= writing

/-- The only difference between two workspaces that is no new directory: a file
at the place that the path leads to. -/
structure WrittenUnder (path : String) (bytes : ByteArray) (w w' : Workspace) :
    Prop where
  /-- The path leads to the file. -/
  found : w'.readBytes? path = some bytes
  /-- No other file is changed, made or lost. -/
  others : ∀ p, w'.place? path ≠ some p → w'.fileAt? p = w.fileAt? p

/-- Putting a file where a path leads, over no directory,
writes it under the path. -/
theorem writtenUnder_put {w₁ : Workspace} (hmade : MadeDirectories w w₁)
    (htarget : w₁.target? path = some p) (hfree : w₁.isDirectory p = false)
    (bytes : ByteArray) :
    WrittenUnder path bytes w (w₁.put p (.file bytes)) where
  found := by
    obtain ⟨_, name, directory, -, -, -, -, -, -, rfl⟩ := exists_target htarget
    rw [readBytes?_eq, place?_put_target htarget hfree, Option.bind_some]
    unfold fileAt?
    rw [entry?_put_self w₁ (by simp)]
  others q hq := by
    have hqp : q ≠ p := by
      intro hqp
      apply hq
      rw [hqp]
      exact place?_put_target htarget hfree _
    rw [fileAt?_put_other w₁ hqp, hmade.fileAt? q]

/-- A file is written under its path, or nothing but directories is made. -/
theorem write_cases (w : Workspace) (path content : String) :
    (∃ w', w.write path content = (w', true)
      ∧ WrittenUnder path content.toUTF8 w w')
      ∨ ∃ w', w.write path content = (w', false) ∧ MadeDirectories w w' := by
  have hmade := made_makeDirectories w (Path.parent path)
  unfold write
  split
  · next w₁ hdirectories =>
    rw [hdirectories] at hmade
    unfold writeExisting
    split
    · exact .inr ⟨w₁, rfl, hmade⟩
    · next p htarget =>
      cases hfree : w₁.isDirectory p with
      | true => exact .inr ⟨w₁, rfl, hmade⟩
      | false => exact .inl ⟨_, rfl, writtenUnder_put hmade htarget hfree _⟩
  · next w₁ hdirectories =>
    rw [hdirectories] at hmade
    exact .inr ⟨w₁, rfl, hmade⟩

/-- A file that must not be replaced is left alone. -/
theorem save_of_existing {f : OutputFile} (hrule : f.overwrite = .ifMissing)
    (hthere : w.pathExists f.path = true) : w.save f = (w, some .skipped) := by
  unfold save
  rw [if_pos ⟨hrule, hthere⟩]

/-- Where nothing is in the way by the file's own rule,
saving it is writing it. -/
theorem save_cases (w : Workspace) (f : OutputFile) :
    (w.save f = (w, some .skipped) ∧ f.overwrite = .ifMissing
      ∧ w.pathExists f.path = true)
      ∨ (∃ w', w.save f = (w', some .written)
        ∧ WrittenUnder f.path f.content.toUTF8 w w')
      ∨ ∃ w', w.save f = (w', none) ∧ MadeDirectories w w' := by
  by_cases hskip : f.overwrite = .ifMissing ∧ w.pathExists f.path = true
  · exact .inl ⟨save_of_existing hskip.1 hskip.2, hskip⟩
  right
  unfold save
  rw [if_neg hskip]
  rcases write_cases w f.path f.content
    with ⟨w', hwrite, hwritten⟩ | ⟨w', hwrite, hmade⟩
  · rw [hwrite]
    exact .inl ⟨w', rfl, hwritten⟩
  · rw [hwrite]
    exact .inr ⟨w', rfl, hmade⟩

-- ============================================================== plain names

/-- A name that stands for itself as a path. -/
structure PlainName (name : String) : Prop where
  whole : '/' ∉ name.toList
  notStill : Path.isStill name = false
  notUp : name ≠ ".."

/-- Whether a file of that name can stand in the working directory. -/
def CanHold (w : Workspace) (name : String) : Prop :=
  Path.isUsable name = true ∧ Path.isUsableName name = true
    ∧ w.isDirectory w.here = true
    ∧ w.isDirectory (w.here ++ [name]) = false

instance (w : Workspace) (name : String) : Decidable (w.CanHold name) :=
  inferInstanceAs (Decidable (_ ∧ _))

namespace PlainName

variable {name : String}

theorem segments (h : PlainName name) : Path.segments name = [name] := by
  unfold Path.segments
  rw [Text.splitAt_of_not_mem h.whole, List.map_singleton,
    String.ofList_toList]

theorem parent (h : PlainName name) : Path.parent name = "" := by
  unfold Path.parent
  rw [h.segments]
  simp [Path.dropStill, h.notStill]

theorem startOf (h : PlainName name) (w : Workspace) :
    w.startOf name = w.here := by
  have hrelative : Path.isAbsolute name = false := by
    unfold Path.isAbsolute
    rw [beq_eq_false_iff_ne]
    intro hhead
    exact h.whole (List.mem_of_mem_head? hhead)
  unfold Workspace.startOf
  rw [hrelative]
  rfl

end PlainName

/-- The target of a plain name stands in the working
directory, if there is one. -/
theorem target?_plain {name : String} (h : PlainName name) (w : Workspace) :
    w.target? name
      = if Path.isUsable name = true ∧ Path.isUsableName name = true
        ∧ w.isDirectory w.here = true
        then some (w.here ++ [name]) else none := by
  unfold target?
  rw [h.segments, h.startOf w]
  cases husable : Path.isUsable name with
  | false => simp
  | true =>
      cases hname : Path.isUsableName name with
      | false => simp [hname]
      | true => simp [hname, h.notStill, h.notUp]

/-- A file with a plain name is put into the working directory,
or nothing is done. -/
theorem write_plain {name : String} (h : PlainName name) (w : Workspace)
    (content : String) :
    w.write name content
      = if w.CanHold name then
        (w.put (w.here ++ [name]) (.file content.toUTF8), true)
        else (w, false) := by
  have hdirectories : w.makeDirectories (Path.parent name) = (w, true) := by
    rw [h.parent]
    rfl
  unfold write
  rw [hdirectories]
  show w.writeExisting name content = _
  unfold writeExisting
  rw [target?_plain h w]
  by_cases hhold : w.CanHold name
  · rw [if_pos hhold]
    obtain ⟨husable, hname, hhere, hfree⟩ := hhold
    rw [if_pos ⟨husable, hname, hhere⟩]
    simp [hfree]
  rw [if_neg hhold]
  split
  next => rfl
  next p htarget =>
    obtain ⟨⟨husable, hname, hhere⟩, heq⟩ :=
      Option.ite_none_right_eq_some.1 htarget
    rw [← Option.some.inj heq]
    cases hfree : w.isDirectory (w.here ++ [name]) with
    | true => rfl
    | false => exact absurd ⟨husable, hname, hhere, hfree⟩ hhold

/-- Nothing is in the way of a file that is always written but a
directory of its name. -/
theorem save_plain {name : String} (h : PlainName name) (w : Workspace)
    (content : String) :
    w.save ⟨name, content, .always⟩
      = if w.CanHold name then
          (w.put (w.here ++ [name]) (.file content.toUTF8), some .written)
        else (w, none) := by
  unfold save
  rw [if_neg (by simp), write_plain h]
  by_cases hhold : w.CanHold name
  · rw [if_pos hhold, if_pos hhold]
  · rw [if_neg hhold, if_neg hhold]

end TokenForge.Workspace
