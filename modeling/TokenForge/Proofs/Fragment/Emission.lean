/-
What emitting fragments does, whatever was written before. The leaves of
fragments are their lines and blank lines from left to right, each with the
number of blocks it stands in. Emission adds the text of each leaf, with four
spaces for each level that the writer stands at and for each block around the
leaf, and gives the level back (`emission_composes`).

A writer can be driven to any level before: every call of it, emission
included, changes the level in a way that the level decides, and adds a text
that the level and the call decide (`Call.run_eq`). So a sequence of calls
does, too (`afterCalls_eq`), and the level it ends at is what its indents and
dedents make of it, also where there are more dedents than indents.
-/
import TokenForge.Proofs.Fragment.Text

namespace TokenForge

-- =============================================================== the leaves

/-- A line of fragments, or a blank line, and the number
of blocks around it. -/
structure Leaf where
  depth : Nat
  /-- What the line says; a blank line says nothing. -/
  line? : Option String

/-- The text of a leaf of fragments that stand `level` deep. -/
def Leaf.textAt (level : Nat) (leaf : Leaf) : String :=
  match leaf.line? with
  | some s => String.ofList (List.replicate (4 * (level + leaf.depth)) ' ')
    ++ s ++ "\n"
  | none => "\n"

namespace Fragment

mutual

/-- The leaves of a fragment with `depth` blocks around it,
from left to right. -/
def leaves (depth : Nat) : Fragment → List Leaf
  | .line s => [⟨depth, some s⟩]
  | .blank => [⟨depth, none⟩]
  | .block body => leavesOf (depth + 1) body

/-- The leaves of fragments with `depth` blocks around them,
from left to right. -/
def leavesOf (depth : Nat) : List Fragment → List Leaf
  | [] => []
  | f :: rest => leaves depth f ++ leavesOf depth rest

end

/-- The text of leaves, one after the other, where emission
starts `level` deep. -/
def leafText (level : Nat) (ls : List Leaf) : String :=
  String.join (ls.map (Leaf.textAt level))

theorem leafText_append (level : Nat) (a b : List Leaf) :
    leafText level (a ++ b) = leafText level a ++ leafText level b := by
  unfold leafText
  rw [List.map_append, String.join_append]

theorem leafText_singleton (level : Nat) (leaf : Leaf) :
    leafText level [leaf] = leaf.textAt level := by
  simp [leafText]

-- The induction is on the tree, with the blocks around it as a parameter: a
-- block puts one more around its leaves and stands one level deeper.
mutual

theorem textOf_leaves (level depth : Nat) (f : Fragment) :
    textOf (level + depth) [f] = leafText level (leaves depth f) := by
  match f with
  | .line s =>
      rw [textOf_line, leaves, leafText_singleton]
      rfl
  | .blank =>
      rw [textOf_blank, leaves, leafText_singleton]
      rfl
  | .block body =>
      rw [textOf_block, leaves]
      exact textOf_leavesOf level (depth + 1) body

theorem textOf_leavesOf (level depth : Nat) (fs : List Fragment) :
    textOf (level + depth) fs = leafText level (leavesOf depth fs) := by
  match fs with
  | [] => rfl
  | f :: rest =>
      rw [textOf_cons, textOf_leaves level depth f,
        textOf_leavesOf level depth rest, leavesOf, leafText_append]

end

end Fragment

namespace Writer

open Fragment (leaves leavesOf leafText)

/-- Emission adds the text of the leaves. -/
theorem text_emit_leaves (fs : List Fragment) (w : Writer) :
    (emit fs w).text = w.text ++ leafText w.level (leavesOf 0 fs) := by
  rw [text_emit, ← Fragment.textOf_leavesOf w.level 0 fs, Nat.add_zero]

-- ================================================================ the calls

/-- A call of a writer. -/
inductive Call where
  | line (s : String)
  | blank
  | indent
  | dedent
  | emit (fs : List Fragment)
  | apply (f : Fragment)

namespace Call

/-- The writer after a call. -/
def run (w : Writer) : Call → Writer
  | .line s => w.line s
  | .blank => w.blank
  | .indent => w.indent
  | .dedent => w.dedent
  | .emit fs => Writer.emit fs w
  | .apply f => Writer.apply f w

/-- The level that a call leads to. Only going deeper and going back change it,
and there is no level in front of the outermost. -/
def level (n : Nat) : Call → Nat
  | .indent => n + 1
  | .dedent => n - 1
  | _ => n

/-- The text that a call adds where the writer stands `n` deep. -/
def added (n : Nat) : Call → String
  | .line s => Leaf.textAt n ⟨0, some s⟩
  | .blank => Leaf.textAt n ⟨0, none⟩
  | .indent => ""
  | .dedent => ""
  | .emit fs => leafText n (leavesOf 0 fs)
  | .apply f => leafText n (leaves 0 f)

/-- A call changes the level and adds text, and both depend on the
level and the call only. -/
theorem run_eq (w : Writer) (call : Call) :
    call.run w = ⟨call.level w.level, w.text ++ call.added w.level⟩ := by
  cases call with
  | line s =>
      show w.line s = ⟨w.level,
        w.text ++ (Fragment.indentation w.level ++ s ++ "\n")⟩
      rw [← String.append_assoc, ← String.append_assoc]
      rfl
  | blank => rfl
  | indent =>
      show (⟨w.level + 1, w.text⟩ : Writer) = ⟨w.level + 1, w.text ++ ""⟩
      rw [String.append_empty]
  | dedent =>
      show (⟨w.level - 1, w.text⟩ : Writer) = ⟨w.level - 1, w.text ++ ""⟩
      rw [String.append_empty]
  | emit fs =>
      show Writer.emit fs w
          = ⟨w.level, w.text ++ leafText w.level (leavesOf 0 fs)⟩
      rw [← text_emit_leaves, ← level_emit fs w]
  | apply f =>
      show Writer.emit [f] w
          = ⟨w.level, w.text ++ leafText w.level (leaves 0 f)⟩
      have hleaves : leaves 0 f = leavesOf 0 [f] := (List.append_nil _).symm
      rw [hleaves, ← text_emit_leaves, ← level_emit [f] w]

end Call

/-- The writer after calls, in order. -/
def after (w : Writer) (calls : List Call) : Writer := calls.foldl Call.run w

/-- The level that calls lead to. -/
def levelAfter (n : Nat) (calls : List Call) : Nat := calls.foldl Call.level n

/-- The text that calls add where the writer stands `n` deep at first. -/
def transcript (n : Nat) : List Call → String
  | [] => ""
  | call :: rest => call.added n ++ transcript (call.level n) rest

/-- So do calls in order: what they make of a writer depends on them and the
level they start at. -/
theorem after_eq (w : Writer) (calls : List Call) :
    w.after calls = ⟨levelAfter w.level calls,
      w.text ++ transcript w.level calls⟩ := by
  induction calls generalizing w with
  | nil =>
      show w = ⟨w.level, w.text ++ ""⟩
      rw [String.append_empty]
  | cons call rest ih =>
      show (call.run w).after rest = _
      rw [ih, Call.run_eq, transcript, ← String.append_assoc]
      rfl

-- ============================================================== the theorem

/-- After any calls, a writer stands as deep as the indents and dedents among
them lead. Emission leaves it there, keeps what was written, and adds the text
of the leaves from left to right: four spaces for each level and each block
around a line, and none for a blank line. Emitting twice is emitting once, and
writers that stand equally deep get the same text. -/
theorem emission_composes (calls : List Call) (fs : List Fragment) :
    let w := empty.after calls
    w.level = levelAfter 0 calls
      ∧ (emit fs w).level = w.level
      ∧ (emit fs w).text = w.text ++ leafText w.level (leavesOf 0 fs)
      ∧ (∀ more, emit more (emit fs w) = emit (fs ++ more) w)
      ∧ ∀ others, (empty.after others).level = w.level →
        ∃ added, (emit fs w).text = w.text ++ added
          ∧ (emit fs (empty.after others)).text
            = (empty.after others).text ++ added := by
  intro w
  refine ⟨?_, level_emit fs w, text_emit_leaves fs w,
    fun more => (emit_append fs more w).symm, ?_⟩
  · show (empty.after calls).level = _
    rw [after_eq]
    rfl
  · intro others hlevel
    refine ⟨leafText w.level (leavesOf 0 fs), text_emit_leaves fs w, ?_⟩
    rw [text_emit_leaves, hlevel]

/-- Emission at the second level, which one writer reaches after more
dedents than indents. -/
theorem emission_of_unbalanced :
    let calls : List Call :=
  [.dedent, .indent, .dedent, .dedent, .indent, .line "x;", .indent]
    let others : List Call :=
  [.indent, .emit [.block [.line "y;"]], .blank, .indent]
    let fs : List Fragment :=
  [.line "a;", .block [.blank, .block [.line "b;"]], .line "c;"]
    let w := empty.after calls
    (empty.after others).level = w.level
      ∧ (emit fs w).level = 2
      ∧ (emit fs w).text
        = w.text ++ "        a;\n" ++ "\n" ++ "                b;\n"
          ++ "        c;\n"
      ∧ ∃ added, (emit fs w).text = w.text ++ added
        ∧ (emit fs (empty.after others)).text
          = (empty.after others).text ++ added := by
  intro calls others fs w
  obtain ⟨hreached, hlevel, htext, -, hsame⟩ := emission_composes calls fs
  have hdeep : (empty.after others).level = w.level := by decide
  have htwo : w.level = 2 := hreached
  refine ⟨hdeep, hlevel.trans htwo, ?_, hsame others hdeep⟩
  have hadded : leafText w.level (leavesOf 0 fs)
      = "        a;\n" ++ "\n" ++ "                b;\n"
        ++ "        c;\n" := by
    rw [htwo]
    decide
  rw [htext, hadded]
  simp only [String.append_assoc, w]

end Writer

end TokenForge
