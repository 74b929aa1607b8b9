/-
Strings in front of a line end. A string that is read at all is read up to its
closing mark, so what stands behind it does not matter: each reader of strings
finds the same text and leaves the same rest with the line end behind it.
Readers that count turns get more of them in a longer document, so their
lemmas are about any greater count.

Strings on several lines look ahead twice: a closing mark may have two more
before it, and a backslash joins lines. Neither reaches over the line end
behind the string, because the marks are no line ends and a string goes on with
a character of its own (`readQuotedLinesFrom_head`).
-/
import TokenForge.Proofs.Toml.LineEnd

namespace TokenForge.Toml

variable {t : List Char}

-- =============================================================== escapes

/-- Digits that are read before some text are read before more. -/
theorem readHex_go_append {width acc n : Nat} {s r : List Char}
    (h : Text.readHex.go width acc s = some (n, r)) :
    Text.readHex.go width acc (s ++ t) = some (n, r ++ t) := by
  induction width generalizing acc s with
  | zero =>
      cases h
      rfl
  | succ width ih =>
      cases s with
      | nil => cases h
      | cons c s =>
          obtain ⟨d, hd, hrest⟩ := Option.bind_eq_some_iff.1 h
          exact Option.bind_eq_some_iff.2 ⟨d, hd, ih hrest⟩

/-- What a letter says after a backslash: a character, that the character's
code follows, or nothing. -/
theorem readEscape_cases (d : Char) :
    (∃ c, ∀ s, readEscape (d :: s) = some (c, s))
      ∨ (∃ width, ∀ s, readEscape (d :: s) = readEscape.code width s)
      ∨ ∀ s, readEscape (d :: s) = none := by
  by_cases hself : d = '"' ∨ d = '\\'
  · exact .inl ⟨d, fun s => if_pos hself⟩
  by_cases hletter : d ∈ ['b', 't', 'n', 'f', 'r', 'e']
  · simp only [List.mem_cons, List.not_mem_nil, or_false] at hletter
    rcases hletter with rfl | rfl | rfl | rfl | rfl | rfl <;>
      exact .inl ⟨_, fun s => rfl⟩
  by_cases hcode : d ∈ ['x', 'u', 'U']
  · simp only [List.mem_cons, List.not_mem_nil, or_false] at hcode
    rcases hcode with rfl | rfl | rfl <;> exact .inr (.inl ⟨_, fun s => rfl⟩)
  · simp only [List.mem_cons, List.not_mem_nil, or_false, not_or]
      at hletter hcode
    refine .inr (.inr fun s => ?_)
    simp only [readEscape, hself, hletter, hcode, if_false]

/-- So is an escape. -/
theorem readEscape_append {c : Char} {s r : List Char}
    (h : readEscape s = some (c, r)) :
    readEscape (s ++ t) = some (c, r ++ t) := by
  cases s with
  | nil => cases h
  | cons d s =>
      rw [List.cons_append]
      rcases readEscape_cases d with ⟨e, hd⟩ | ⟨width, hd⟩ | hd
      · rw [hd] at h ⊢
        cases h
        rfl
      · rw [hd] at h ⊢
        obtain ⟨⟨n, rest⟩, hn, hscalar⟩ := Option.bind_eq_some_iff.1 h
        obtain ⟨e, he, hres⟩ := Option.bind_eq_some_iff.1 hscalar
        cases hres
        refine Option.bind_eq_some_iff.2
          ⟨(n, r ++ t), readHex_go_append hn, ?_⟩
        exact Option.bind_eq_some_iff.2 ⟨c, he, rfl⟩
      · rw [hd] at h
        cases h

/-- A letter of an escape is no blank. -/
theorem readEscape_head {c d : Char} {s r : List Char}
    (h : readEscape (d :: s) = some (c, r)) :
    isSpace d = false ∧ d ≠ '\n' ∧ d ≠ '\r' := by
  refine ⟨?_, ?_, ?_⟩
  · by_contra hspace
    rw [Bool.not_eq_false, isSpace, Bool.or_eq_true, beq_iff_eq,
      beq_iff_eq] at hspace
    rcases hspace with rfl | rfl <;> cases h
  · rintro rfl
    cases h
  · rintro rfl
    cases h

-- ============================================================ on one line

/-- So is a quoted string, and more turns do no harm. -/
theorem readQuotedFrom_append {turns turns' : Nat} {s x r : List Char}
    (hturns : turns ≤ turns') (h : readQuotedFrom turns s = some (x, r)) :
    readQuotedFrom turns' (s ++ t) = some (x, r ++ t) := by
  induction turns generalizing turns' s x with
  | zero => cases h
  | succ turns ih =>
      obtain ⟨turns', rfl⟩ : ∃ n, turns' = n + 1 := ⟨turns' - 1, by omega⟩
      have hrest := @ih turns'
      cases s with
      | nil => cases h
      | cons c s =>
          rw [List.cons_append]
          unfold readQuotedFrom at h ⊢
          by_cases hquote : c = '"'
          · rw [if_pos hquote] at h ⊢
            cases h
            rfl
          rw [if_neg hquote] at h ⊢
          by_cases hslash : c = '\\'
          · rw [if_pos hslash] at h ⊢
            obtain ⟨⟨e, s'⟩, he, h⟩ := Option.bind_eq_some_iff.1 h
            obtain ⟨⟨text, r'⟩, htext, h⟩ := Option.bind_eq_some_iff.1 h
            cases h
            refine Option.bind_eq_some_iff.2 ⟨_, readEscape_append he, ?_⟩
            exact Option.bind_eq_some_iff.2 ⟨_, hrest (by omega) htext, rfl⟩
          rw [if_neg hslash] at h ⊢
          by_cases hplain : isPlain c = true
          · rw [if_pos hplain] at h ⊢
            obtain ⟨⟨text, r'⟩, htext, h⟩ := Option.bind_eq_some_iff.1 h
            cases h
            exact Option.bind_eq_some_iff.2 ⟨_, hrest (by omega) htext, rfl⟩
          · rw [if_neg hplain] at h
            cases h

theorem readQuoted_append {s x r : List Char}
    (h : readQuoted s = some (x, r)) :
    readQuoted (s ++ t) = some (x, r ++ t) :=
  readQuotedFrom_append (by rw [List.length_append]; omega) h

/-- So is a literal string. -/
theorem readLiteral_append {s x r : List Char}
    (h : readLiteral s = some (x, r)) :
    readLiteral (s ++ t) = some (x, r ++ t) := by
  induction s generalizing x with
  | nil => cases h
  | cons c s ih =>
      rw [List.cons_append]
      unfold readLiteral at h ⊢
      by_cases hquote : c = '\''
      · rw [if_pos hquote] at h ⊢
        cases h
        rfl
      rw [if_neg hquote] at h ⊢
      by_cases hplain : isPlain c = true
      · rw [if_pos hplain] at h ⊢
        obtain ⟨⟨text, r'⟩, htext, h⟩ := Option.bind_eq_some_iff.1 h
        cases h
        exact Option.bind_eq_some_iff.2 ⟨_, ih htext, rfl⟩
      · rw [if_neg hplain] at h
        cases h

-- ========================================== marks, ends and joints of lines

/-- The closing marks are found with all that belongs to them: no mark
stands at a line's end. -/
theorem closing?_append (ht : AtLineEnd t) {mark : Char} (hfeed : mark ≠ '\n')
    (hreturn : mark ≠ '\r') (s : List Char) :
    closing? mark (s ++ t)
      = (closing? mark s).map fun done => (done.1, done.2 ++ t) := by
  obtain ⟨d, t', rfl, hd⟩ := ht.cases
  have hne : d ≠ mark := by
    rintro rfl
    exact hd.elim hfeed hreturn
  unfold closing?
  match s with
  | [] => rcases t' with _ | ⟨e, t'⟩ <;> [rfl; rcases t' with _ | ⟨f, t'⟩ <;>
    simp [hne]]
  | [a] => rcases t' with _ | ⟨e, t'⟩ <;> simp [hne]
  | [a, b] => simp [hne]
  | a :: b :: c :: s =>
      by_cases hmarks : a = mark ∧ b = mark ∧ c = mark
      · simp only [List.cons_append, if_pos hmarks]
        match s with
        | [] => rcases t' with _ | ⟨e, t'⟩ <;> simp [hne]
        | [x] => by_cases hx : x = mark <;> simp [hne, hx]
        | x :: y :: s =>
            by_cases hx : x = mark <;> by_cases hy : y = mark <;> simp [hx, hy]
      · simp only [List.cons_append, if_neg hmarks, Option.map_none]

theorem closing?_cons_of_ne {mark c : Char} (hc : c ≠ mark) (s : List Char) :
    closing? mark (c :: s) = none := by
  unfold closing?
  rcases s with _ | ⟨a, _ | ⟨b, s⟩⟩ <;> simp [hc]

theorem lineEnd?_append {s nl r : List Char} (h : lineEnd? s = some (nl, r)) :
    lineEnd? (s ++ t) = some (nl, r ++ t) := by
  unfold lineEnd? at h
  split at h
  next =>
      cases h
      rfl
  next =>
      cases h
      rfl
  next => cases h

theorem lineEnd?_of_newline? {s : List Char} (h : newline? s = none) :
    lineEnd? s = none := by
  unfold newline? at h
  split at h
  next => cases h
  next => cases h
  next hfeed hreturn =>
      unfold lineEnd?
      split
      next => exact absurd rfl (hfeed _)
      next => exact absurd rfl (hreturn _)
      next => rfl

theorem lineEnd?_cons {c : Char} (hfeed : c ≠ '\n') (hreturn : c ≠ '\r')
    (s : List Char) :
    lineEnd? (c :: s) = none :=
  lineEnd?_of_newline? (newline?_cons hfeed hreturn s)

/-- An escape that stands for a character joins no lines. -/
theorem joinLines?_of_escape {c : Char} {s r : List Char}
    (h : readEscape s = some (c, r)) :
    joinLines? s = none := by
  cases s with
  | nil => cases h
  | cons d s =>
      obtain ⟨hspace, hfeed, hreturn⟩ := readEscape_head h
      unfold joinLines?
      rw [skipSpaces_of_not_isSpace hspace, newline?_cons hfeed hreturn]
      rfl

/-- Lines that are joined are so in front of what follows, if
something stands after them. -/
theorem joinLines?_append (ht : AtLineEnd t) {s r : List Char} (hr : Starts r)
    (h : joinLines? s = some r) : joinLines? (s ++ t) = some (r ++ t) := by
  obtain ⟨rest, hnew, rfl⟩ := Option.map_eq_some_iff.1 h
  unfold joinLines?
  rw [skipSpaces_append ht, newline?_append hnew, Option.map_some,
    skipBlanks_append ht hr]

/-- Nothing is left of the line ends that were joined over. -/
theorem newline?_of_joinLines? {s r : List Char} (h : joinLines? s = some r) :
    newline? r = none := by
  obtain ⟨rest, -, rfl⟩ := Option.map_eq_some_iff.1 h
  exact newline?_skipBlanks rest

/-- The line end after the opening marks is dropped with or without what
follows the string. -/
theorem dropNewline_append {s : List Char} (h : newline? s = none → Starts s) :
    dropNewline (s ++ t) = dropNewline s ++ t := by
  unfold dropNewline
  cases hnew : newline? s with
  | some rest => rw [newline?_append hnew, Option.getD_some, Option.getD_some]
  | none =>
      rw [newline?_append_of_starts (h hnew) hnew, Option.getD_none,
        Option.getD_none]

-- ======================================================= on several lines

/-- A string goes on with a character, and not with half a line end. -/
theorem readQuotedLinesFrom_head {turns : Nat} {s x r : List Char}
    (hnew : newline? s = none)
    (h : readQuotedLinesFrom turns s = some (x, r)) : Starts s := by
  cases turns with
  | zero => cases h
  | succ turns =>
      cases s with
      | nil => cases h
      | cons c s =>
          refine ⟨c, s, rfl, ?_⟩
          rintro rfl
          unfold readQuotedLinesFrom at h
          rw [closing?_cons_of_ne (by decide), lineEnd?_of_newline? hnew] at h
          cases h

/-- A string goes on with a character, and not with half a line end. -/
theorem readLiteralLinesFrom_head {turns : Nat} {s x r : List Char}
    (hnew : newline? s = none)
    (h : readLiteralLinesFrom turns s = some (x, r)) : Starts s := by
  cases turns with
  | zero => cases h
  | succ turns =>
      cases s with
      | nil => cases h
      | cons c s =>
          refine ⟨c, s, rfl, ?_⟩
          rintro rfl
          unfold readLiteralLinesFrom at h
          rw [closing?_cons_of_ne (by decide), lineEnd?_of_newline? hnew] at h
          cases h

/-- After a backslash a string goes on with a joint of lines or with an
escape: it joins lines here only if it did alone, since an escape's
letter is no blank. -/
theorem afterBackslash_append (ht : AtLineEnd t)
    {read read' : List Char → Option (List Char × List Char)}
      {s x r : List Char}
    (hhead : ∀ {s x r}, newline? s = none → read s = some (x, r) → Starts s)
    (hmore : ∀ {s x}, read s = some (x, r) → read' (s ++ t) = some (x, r ++ t))
    (h : (match joinLines? s with
      | some s => read s
      | none => do
        let (e, s) ← readEscape s
        let (text, rest) ← read s
        some (e :: text, rest)) = some (x, r)) :
    (match joinLines? (s ++ t) with
      | some s => read' s
      | none => do
        let (e, s) ← readEscape (s ++ t)
        let (text, rest) ← read' s
        some (e :: text, rest)) = some (x, r ++ t) := by
  cases hjoin : joinLines? s with
  | some s' =>
      rw [hjoin] at h
      rw [joinLines?_append ht (hhead (newline?_of_joinLines? hjoin) h) hjoin]
      exact hmore h
  | none =>
      rw [hjoin] at h
      obtain ⟨⟨e, s'⟩, he, h⟩ := Option.bind_eq_some_iff.1 h
      obtain ⟨⟨text, r'⟩, htext, hres⟩ := Option.bind_eq_some_iff.1 h
      cases hres
      have hescape := readEscape_append (t := t) he
      rw [joinLines?_of_escape hescape]
      refine Option.bind_eq_some_iff.2 ⟨_, hescape, ?_⟩
      exact Option.bind_eq_some_iff.2 ⟨_, hmore htext, rfl⟩

/-- A quoted string over several lines reads in front of what follows. -/
theorem readQuotedLinesFrom_append (ht : AtLineEnd t) {turns turns' : Nat}
    {s x r : List Char} (hturns : turns ≤ turns')
    (h : readQuotedLinesFrom turns s = some (x, r)) :
    readQuotedLinesFrom turns' (s ++ t) = some (x, r ++ t) := by
  induction turns generalizing turns' s x with
  | zero => cases h
  | succ turns ih =>
      obtain ⟨turns', rfl⟩ : ∃ n, turns' = n + 1 := ⟨turns' - 1, by omega⟩
      have hmore := fun {s x} => @ih turns' s x (by omega)
      unfold readQuotedLinesFrom at h ⊢
      rw [closing?_append ht (by decide) (by decide)]
      cases hclose : closing? '"' s with
      | some done =>
          rw [hclose] at h
          cases h
          rfl
      | none =>
          rw [hclose] at h
          dsimp only [Option.map_none] at h ⊢
          cases hend : lineEnd? s with
          | some cut =>
              obtain ⟨nl, s'⟩ := cut
              rw [hend] at h
              rw [lineEnd?_append hend]
              obtain ⟨⟨text, r'⟩, htext, hres⟩ := Option.bind_eq_some_iff.1 h
              cases hres
              exact Option.bind_eq_some_iff.2 ⟨_, hmore htext, rfl⟩
          | none =>
              rw [hend] at h
              dsimp only at h
              cases s with
              | nil => cases h
              | cons c s =>
                  dsimp only at h
                  rw [List.cons_append]
                  by_cases hslash : c = '\\'
                  · rw [if_pos hslash] at h
                    subst hslash
                    rw [lineEnd?_cons (by decide) (by decide)]
                    dsimp only
                    rw [if_pos rfl]
                    exact afterBackslash_append ht
                      readQuotedLinesFrom_head hmore h
                  rw [if_neg hslash] at h
                  by_cases hplain : isPlain c = true
                  · rw [if_pos hplain] at h
                    obtain ⟨⟨text, r'⟩, htext, hres⟩ :=
                      Option.bind_eq_some_iff.1 h
                    cases hres
                    rw [lineEnd?_cons (ne_of_class hplain (by decide))
                      (ne_of_class hplain (by decide))]
                    dsimp only
                    rw [if_neg hslash, if_pos hplain]
                    exact Option.bind_eq_some_iff.2 ⟨_, hmore htext, rfl⟩
                  · rw [if_neg hplain] at h
                    cases h

/-- So does a literal string over several lines. -/
theorem readLiteralLinesFrom_append (ht : AtLineEnd t) {turns turns' : Nat}
    {s x r : List Char} (hturns : turns ≤ turns')
    (h : readLiteralLinesFrom turns s = some (x, r)) :
    readLiteralLinesFrom turns' (s ++ t) = some (x, r ++ t) := by
  induction turns generalizing turns' s x with
  | zero => cases h
  | succ turns ih =>
      obtain ⟨turns', rfl⟩ : ∃ n, turns' = n + 1 := ⟨turns' - 1, by omega⟩
      have hmore := fun {s x} => @ih turns' s x (by omega)
      unfold readLiteralLinesFrom at h ⊢
      rw [closing?_append ht (by decide) (by decide)]
      cases hclose : closing? '\'' s with
      | some done =>
          rw [hclose] at h
          cases h
          rfl
      | none =>
          rw [hclose] at h
          dsimp only [Option.map_none] at h ⊢
          cases hend : lineEnd? s with
          | some cut =>
              obtain ⟨nl, s'⟩ := cut
              rw [hend] at h
              rw [lineEnd?_append hend]
              obtain ⟨⟨text, r'⟩, htext, hres⟩ := Option.bind_eq_some_iff.1 h
              cases hres
              exact Option.bind_eq_some_iff.2 ⟨_, hmore htext, rfl⟩
          | none =>
              rw [hend] at h
              dsimp only at h
              cases s with
              | nil => cases h
              | cons c s =>
                  dsimp only at h
                  rw [List.cons_append]
                  by_cases hplain : isPlain c = true
                  · rw [if_pos hplain] at h
                    obtain ⟨⟨text, r'⟩, htext, hres⟩ :=
                      Option.bind_eq_some_iff.1 h
                    cases hres
                    rw [lineEnd?_cons (ne_of_class hplain (by decide))
                      (ne_of_class hplain (by decide))]
                    dsimp only
                    rw [if_pos hplain]
                    exact Option.bind_eq_some_iff.2 ⟨_, hmore htext, rfl⟩
                  · rw [if_neg hplain] at h
                    cases h

theorem readQuotedLines_append (ht : AtLineEnd t) {s x r : List Char}
    (h : readQuotedLines s = some (x, r)) :
    readQuotedLines (s ++ t) = some (x, r ++ t) := by
  unfold readQuotedLines at h ⊢
  rw [dropNewline_append]
  · exact readQuotedLinesFrom_append ht (by rw [List.length_append]; omega) h
  · intro hnew
    rw [dropNewline, hnew] at h
    exact readQuotedLinesFrom_head hnew h

theorem readLiteralLines_append (ht : AtLineEnd t) {s x r : List Char}
    (h : readLiteralLines s = some (x, r)) :
    readLiteralLines (s ++ t) = some (x, r ++ t) := by
  unfold readLiteralLines at h ⊢
  rw [dropNewline_append]
  · exact readLiteralLinesFrom_append ht (by rw [List.length_append]; omega) h
  · intro hnew
    rw [dropNewline, hnew] at h
    exact readLiteralLinesFrom_head hnew h

-- =============================================================== together

/-- Marks that do not open a string of several lines do not in
front of a line end. -/
theorem AtLineEnd.append_ne_marks (ht : AtLineEnd t) {mark : Char}
    {s : List Char} (hfeed : mark ≠ '\n') (hreturn : mark ≠ '\r')
    (h : ∀ u, s ≠ mark :: mark :: u) (u : List Char) :
    s ++ t ≠ mark :: mark :: u := by
  intro heq
  obtain ⟨s', rfl, heq'⟩ := ht.eq_cons_of_append heq hfeed hreturn
  obtain ⟨s'', rfl, -⟩ := ht.eq_cons_of_append heq'.symm hfeed hreturn
  exact h s'' rfl

/-- So does every string. -/
theorem readString_append (ht : AtLineEnd t) {s x r : List Char}
    (h : readString s = some (x, r)) :
    readString (s ++ t) = some (x, r ++ t) := by
  unfold readString at h
  split at h
  next => exact readQuotedLines_append ht h
  next s hquotes =>
      have hone : ∀ u, s ++ t ≠ '"' :: '"' :: u :=
        ht.append_ne_marks (by decide) (by decide) fun u heq => hquotes u heq
      rw [List.cons_append]
      unfold readString
      split
      next heq => exact absurd (List.cons.inj heq).2 (hone _)
      next heq =>
          rw [← (List.cons.inj heq).2]
          exact readQuoted_append h
      next heq => exact absurd (List.cons.inj heq).1 (by decide)
      next heq => exact absurd (List.cons.inj heq).1 (by decide)
      next _ hother _ _ => exact absurd rfl (hother _)
  next => exact readLiteralLines_append ht h
  next s hmarks =>
      have hone : ∀ u, s ++ t ≠ '\'' :: '\'' :: u :=
        ht.append_ne_marks (by decide) (by decide) fun u heq => hmarks u heq
      rw [List.cons_append]
      unfold readString
      split
      next heq => exact absurd (List.cons.inj heq).1 (by decide)
      next heq => exact absurd (List.cons.inj heq).1 (by decide)
      next heq => exact absurd (List.cons.inj heq).2 (hone _)
      next heq =>
          rw [← (List.cons.inj heq).2]
          exact readLiteral_append h
      next hother => exact absurd rfl (hother _)
  next => cases h

end TokenForge.Toml
