/-
Documents made of lines that each assign one value. A line is any text that
alone says one thing (`statements`), so it may be indented, have comments and
blank lines around it, and hold a value of several lines. Behind a line end the
reader starts anew, and in front of one it finds what it finds alone
(`statementsFrom_append`); so the document says what its lines say, one after
the other (`statementsFrom_join`), whatever its line ends are and whether the
last line has one. What it holds is then a matter of `build_assignments`.
-/
import TokenForge.Proofs.Toml.Values

namespace TokenForge.Toml

variable {t : List Char}

-- ================================================================== lines

theorem readLine_starts {l : Line} {s r : List Char}
    (h : readLine s = some (l, r)) :
    Starts s := by
  unfold readLine at h
  split at h
  next => exact ⟨_, _, rfl, by decide⟩
  next => exact ⟨_, _, rfl, by decide⟩
  next =>
      obtain ⟨⟨path, rest⟩, hpath, -⟩ := Option.bind_eq_some_iff.1 h
      exact readPath_starts hpath

theorem readLine_append (ht : AtLineEnd t) {l : Line} {s r : List Char}
    (h : readLine s = some (l, r)) :
    ∃ place, readLine (s ++ t) = some (⟨l.statement, place⟩, r ++ t) := by
  unfold readLine at h
  split at h
  next inner =>
      obtain ⟨⟨path, rest⟩, hpath, hbrackets⟩ := Option.bind_eq_some_iff.1 h
      obtain ⟨rest', hone, hbracket⟩ := Option.bind_eq_some_iff.1 hbrackets
      obtain ⟨rest'', htwo, hres⟩ := Option.bind_eq_some_iff.1 hbracket
      cases hres
      unfold readLine
      simp only [List.cons_append, Option.bind_eq_bind,
        readPath_append ht hpath, Option.bind_some, afterChar_append hone,
        afterChar_append htwo]
      exact ⟨_, rfl⟩
  next inner hsingle =>
      obtain ⟨⟨path, rest⟩, hpath, hbracket⟩ := Option.bind_eq_some_iff.1 h
      obtain ⟨rest', hone, hres⟩ := Option.bind_eq_some_iff.1 hbracket
      cases hres
      obtain ⟨c, inner, rfl, -⟩ := readPath_starts hpath
      have hc : c ≠ '[' := by
        rintro rfl
        exact hsingle inner rfl
      unfold readLine
      split
      next heq => exact absurd (List.cons.inj (List.cons.inj heq).2).1 hc
      next heq =>
          rw [← (List.cons.inj heq).2]
          simp only [List.append_eq, Option.bind_eq_bind,
            readPath_append ht hpath, Option.bind_some, afterChar_append hone]
          exact ⟨_, rfl⟩
      next hother => exact absurd rfl (hother _)
  next hdouble hsingle =>
      obtain ⟨⟨path, rest⟩, hpath, hsigns⟩ := Option.bind_eq_some_iff.1 h
      obtain ⟨rest', hsign, hvalues⟩ := Option.bind_eq_some_iff.1 hsigns
      obtain ⟨⟨v, rest''⟩, hv, hres⟩ := Option.bind_eq_some_iff.1 hvalues
      cases hres
      obtain ⟨c, s, rfl, -⟩ := readPath_starts hpath
      unfold readLine
      split
      next heq =>
        exact absurd (congrArg (· :: s) (List.cons.inj heq).1) (hsingle s)
      next heq =>
        exact absurd (congrArg (· :: s) (List.cons.inj heq).1) (hsingle s)
      next =>
          simp only [Option.bind_eq_bind, readPath_append ht hpath,
            Option.bind_some, afterChar_append hsign, skipSpaces_append ht,
            readValue_append ht hv]
          exact ⟨_, rfl⟩

-- ============================================================== documents

/-- The statements of a document, apart from their places. -/
def statements (s : List Char) : Option (List Statement) :=
  (readLines s).map fun lines => lines.map (·.statement)

/-- The statements of a document, as far as the turns suffice. -/
def statementsFrom (turns : Nat) (s : List Char) : Option (List Statement) :=
  (readLinesFrom turns s).map fun lines => lines.map (·.statement)

/-- Reading starts with what is no trivia. -/
theorem readLinesFrom_congr {s u : List Char} (h : skipTrivia s = skipTrivia u)
    (turns : Nat) :
    readLinesFrom turns s = readLinesFrom turns u := by
  cases turns with
  | zero => rfl
  | succ turns =>
      unfold readLinesFrom
      rw [h]

/-- A text that says one thing: after trivia a statement, then the end of its
line, and after it nothing but trivia. -/
theorem cut_of_statements {a : Statement} {s : List Char}
    (h : statements s = some [a]) :
    ∃ l r rest, readLine (skipTrivia s) = some (l, r) ∧ l.statement = a
      ∧ endOfLine? r = some rest ∧ skipTrivia rest = [] := by
  obtain ⟨lines, hlines, hstatements⟩ := Option.map_eq_some_iff.1 h
  unfold readLines readLinesFrom at hlines
  split at hlines
  next =>
      cases hlines
      cases hstatements
  next hne =>
      obtain ⟨⟨l, r⟩, hl, hends⟩ := Option.bind_eq_some_iff.1 hlines
      obtain ⟨rest, hrest, hmore⟩ := Option.bind_eq_some_iff.1 hends
      obtain ⟨lines', hlines', hres⟩ := Option.bind_eq_some_iff.1 hmore
      cases hres
      rw [List.map_cons, List.cons.injEq, List.map_eq_nil_iff] at hstatements
      obtain ⟨hstatement, rfl⟩ := hstatements
      refine ⟨l, r, rest, hl, hstatement, hrest, ?_⟩
      cases hs : s.length with
      | zero =>
          rw [List.length_eq_zero_iff] at hs
          subst hs
          exact absurd rfl (hne)
      | succ n =>
          rw [hs] at hlines'
          unfold readLinesFrom at hlines'
          split at hlines'
          next heq => exact heq
          next =>
              obtain ⟨_, -, hends⟩ := Option.bind_eq_some_iff.1 hlines'
              obtain ⟨_, -, hmore⟩ := Option.bind_eq_some_iff.1 hends
              obtain ⟨_, -, hres⟩ := Option.bind_eq_some_iff.1 hmore
              cases hres

/-- A text that says one thing says it in front of a line end, and what
follows is read as before. -/
theorem statementsFrom_append {a : Statement} {s u : List Char}
    (h : statements s = some [a]) (hu : newline? t = some u) (turns : Nat) :
    statementsFrom (turns + 1) (s ++ t)
      = (statementsFrom turns u).map (a :: ·) := by
  have ht : AtLineEnd t := ⟨u, hu⟩
  obtain ⟨l, r, rest, hl, rfl, hrest, htrivia⟩ := cut_of_statements h
  have hstarts := readLine_starts hl
  obtain ⟨place, hline⟩ := readLine_append ht hl
  obtain ⟨q, hq, hskip⟩ := endOfLine?_append hu hrest htrivia
  unfold statementsFrom
  conv_lhs => unfold readLinesFrom
  rw [skipTrivia_append ht hstarts]
  obtain ⟨c, s', hcons, -⟩ := hstarts
  rw [hcons] at hline ⊢
  simp only [List.cons_append] at hline ⊢
  simp only [Option.bind_eq_bind, hline, Option.bind_some, hq,
    readLinesFrom_congr hskip]
  cases readLinesFrom turns u with
  | none => rfl
  | some lines => rfl

/-- More turns than needed change nothing. -/
theorem statementsFrom_self {a : Statement} {s : List Char}
    (h : statements s = some [a]) (turns : Nat) :
    statementsFrom (turns + 2) s = some [a] := by
  obtain ⟨l, r, rest, hl, rfl, hrest, htrivia⟩ := cut_of_statements h
  obtain ⟨c, s', hcons, -⟩ := readLine_starts hl
  unfold statementsFrom readLinesFrom
  rw [hcons] at hl ⊢
  simp only [Option.bind_eq_bind, hl, Option.bind_some, hrest]
  unfold readLinesFrom
  rw [htrivia]
  rfl

-- ======================================================== lines together

/-- How a line ends. -/
inductive LineEnd where
  | feed
  | returnFeed
  deriving DecidableEq, Repr

/-- The characters at the end of a line. -/
def LineEnd.text : LineEnd → String
  | .feed => "\n"
  | .returnFeed => "\r\n"

theorem LineEnd.newline?_append (e : LineEnd) (rest : List Char) :
    newline? (e.text.toList ++ rest) = some rest := by
  cases e <;> rfl

/-- A line that assigns a value to a key: alone it says just that. -/
structure KeyLine where
  text : String
  key : String
  value : Value
  lineEnd : LineEnd := .feed
  reads : statements text.toList = some [assignment (key, value)]

namespace KeyLine

/-- The entry that a line makes. -/
def entry (l : KeyLine) : String × Value := (l.key, l.value)

/-- No line is empty, and none starts with the mark of editors. -/
theorem eq_cons (l : KeyLine) :
    ∃ c s, l.text.toList = c :: s ∧ c ≠ '\ufeff' := by
  have hreads := l.reads
  cases htext : l.text.toList with
  | nil =>
      rw [htext] at hreads
      cases hreads
  | cons c s =>
      refine ⟨c, s, rfl, ?_⟩
      rintro rfl
      rw [htext] at hreads
      cases hreads

/-- Lines one after the other; `final` tells whether the
last one has an end. -/
def join (final : Bool) : List KeyLine → String
  | [] => ""
  | [l] => l.text ++ if final then l.lineEnd.text else ""
  | l :: l' :: ls => l.text ++ (l.lineEnd.text ++ join final (l' :: ls))

end KeyLine

/-- How a document has its lines: whether the mark of editors comes first, and
whether the last line has an end. -/
structure Layout where
  mark : Bool := false
  final : Bool := true

/-- The document that lines make. -/
def Layout.document (y : Layout) (ls : List KeyLine) : String :=
  (if y.mark then "\ufeff" else "") ++ KeyLine.join y.final ls

open KeyLine (join)

theorem toList_join_singleton (final : Bool) (l : KeyLine) :
    (join final [l]).toList
      = l.text.toList ++ if final then l.lineEnd.text.toList else [] := by
  cases final <;> simp [join]

theorem toList_join_cons (final : Bool) (l l' : KeyLine) (ls : List KeyLine) :
    (join final (l :: l' :: ls)).toList
      = l.text.toList ++ (l.lineEnd.text.toList
        ++ (join final (l' :: ls)).toList) := by
  rw [join, String.toList_append, String.toList_append]

/-- A document starts with what its first line starts with. -/
theorem join_cons_eq_cons (final : Bool) (l : KeyLine) (ls : List KeyLine) :
    ∃ c s, (join final (l :: ls)).toList = c :: s ∧ c ≠ '\ufeff'
      ∧ (join final ls).toList.length ≤ s.length := by
  obtain ⟨c, s, hcons, hc⟩ := l.eq_cons
  cases ls with
  | nil =>
      rw [toList_join_singleton, hcons, List.cons_append]
      exact ⟨c, _, rfl, hc, Nat.zero_le _⟩
  | cons l' ls =>
      rw [toList_join_cons, hcons, List.cons_append]
      refine ⟨c, _, rfl, hc, ?_⟩
      rw [List.length_append, List.length_append]
      omega

/-- Lines say one thing after the other. -/
theorem statementsFrom_join (final : Bool) (ls : List KeyLine) :
    ∀ turns, ls.length < turns →
      statementsFrom turns (join final ls).toList
        = some ((ls.map KeyLine.entry).map assignment) := by
  induction ls with
  | nil =>
      intro turns hturns
      obtain ⟨turns, rfl⟩ : ∃ n, turns = n + 1 := ⟨turns - 1, by omega⟩
      rfl
  | cons l ls ih =>
      intro turns hturns
      rw [List.length_cons] at hturns
      obtain ⟨turns, rfl⟩ : ∃ n, turns = n + 1 := ⟨turns - 1, by omega⟩
      cases ls with
      | nil =>
          obtain ⟨turns, rfl⟩ : ∃ n, turns = n + 1 := ⟨turns - 1, by omega⟩
          rw [toList_join_singleton]
          cases final with
          | false =>
              rw [if_neg Bool.false_ne_true, List.append_nil]
              exact statementsFrom_self l.reads turns
          | true =>
              have hend := l.lineEnd.newline?_append []
              rw [List.append_nil] at hend
              rw [if_pos rfl, statementsFrom_append l.reads hend]
              rfl
      | cons l' ls =>
          rw [toList_join_cons,
            statementsFrom_append l.reads (l.lineEnd.newline?_append _),
            ih turns (by omega)]
          rfl

theorem length_le_join (final : Bool) (ls : List KeyLine) :
    ls.length ≤ (join final ls).toList.length := by
  induction ls with
  | nil => exact Nat.zero_le _
  | cons l ls ih =>
      obtain ⟨c, s, hcons, -, hlength⟩ := join_cons_eq_cons final l ls
      rw [hcons, List.length_cons, List.length_cons]
      omega

/-- The mark of editors is dropped, and nothing else. -/
theorem dropMark_document (y : Layout) (ls : List KeyLine) :
    dropMark (y.document ls).toList = (join y.final ls).toList := by
  unfold Layout.document
  rw [String.toList_append]
  cases y.mark with
  | true => rfl
  | false =>
      show dropMark (join y.final ls).toList = _
      cases ls with
      | nil => rfl
      | cons l ls =>
          obtain ⟨c, s, hcons, hc, -⟩ := join_cons_eq_cons y.final l ls
          rw [hcons]
          unfold dropMark
          split
          next heq => exact absurd (List.cons.inj heq).1 hc
          next => rfl

/-- A document of lines with different keys holds what they assign. -/
theorem read_document (y : Layout) {ls : List KeyLine}
    (hkeys : (ls.map (·.key)).Nodup) :
    ∃ d, read (y.document ls).toList = some d
      ∧ d.entries = sortEntries (ls.map KeyLine.entry) := by
  have hturns := length_le_join y.final ls
  obtain ⟨lines, hlines, hstatements⟩ := Option.map_eq_some_iff.1
    (statementsFrom_join y.final ls ((join y.final ls).toList.length + 1)
      (by omega))
  have hdistinct : ((ls.map KeyLine.entry).map Prod.fst).Nodup := by
    rw [List.map_map]
    exact hkeys
  refine ⟨⟨sortEntries (ls.map KeyLine.entry), lines⟩, ?_, rfl⟩
  unfold read readLines
  rw [dropMark_document, hlines]
  simp only [Option.bind_eq_bind, Option.bind_some, hstatements,
    build_assignments hdistinct]

end TokenForge.Toml
