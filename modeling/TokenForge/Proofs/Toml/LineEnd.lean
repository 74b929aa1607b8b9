/-
What ends at a line's end. The reader of a document looks ahead, so what it
takes may depend on what follows; but the runs of characters it takes hold no
line end, and spaces, comments and line ends are passed over one piece at a
time. So in front of a line end (`AtLineEnd`) it finds what it finds at the end
of a text, and leaves that line end with all behind it.

One thing has to be kept apart: a carriage return at the end of a text would
become a line end with the feed of another one behind it. What goes on with
anything else (`Starts`) is safe.
-/
import Mathlib.Data.List.TakeWhile
import TokenForge.Proofs.Toml.Assignment

namespace TokenForge.Toml

-- ============================================================== line ends

/-- A text that starts with a line end. -/
def AtLineEnd (t : List Char) : Prop := ∃ rest, newline? t = some rest

theorem AtLineEnd.cases {t : List Char} (ht : AtLineEnd t) :
    ∃ c rest, t = c :: rest ∧ (c = '\n' ∨ c = '\r') := by
  obtain ⟨rest, h⟩ := ht
  unfold newline? at h
  split at h
  next s => exact ⟨_, _, rfl, .inl rfl⟩
  next s => exact ⟨_, _, rfl, .inr rfl⟩
  next => cases h

variable {t : List Char}

/-- A class without the characters of line ends has none of them in front. -/
theorem AtLineEnd.head (ht : AtLineEnd t) {p : Char → Bool}
    (hfeed : p '\n' = false) (hreturn : p '\r' = false) :
    ∀ c ∈ t.head?, p c = false := by
  obtain ⟨c, rest, rfl, rfl | rfl⟩ := ht.cases
  · rintro _ ⟨⟩
    exact hfeed
  · rintro _ ⟨⟩
    exact hreturn

/-- A text in front of a line end starts with what the two
together start with. -/
theorem AtLineEnd.eq_cons_of_append (ht : AtLineEnd t) {s u : List Char}
    {c : Char} (h : s ++ t = c :: u) (hfeed : c ≠ '\n') (hreturn : c ≠ '\r') :
    ∃ s', s = c :: s' ∧ u = s' ++ t := by
  cases s with
  | nil =>
      obtain ⟨d, rest, rfl, hd⟩ := ht.cases
      obtain ⟨rfl, -⟩ := List.cons.inj h
      exact (hd.elim hfeed hreturn).elim
  | cons d s =>
      obtain ⟨rfl, rfl⟩ := List.cons.inj h
      exact ⟨s, rfl, rfl⟩

/-- A text starts with a character, and not with half a line end. -/
def Starts (s : List Char) : Prop := ∃ c r, s = c :: r ∧ c ≠ '\r'

/-- The end of a line is found in front of what follows. -/
theorem newline?_append {s r : List Char} (h : newline? s = some r) :
    newline? (s ++ t) = some (r ++ t) := by
  unfold newline? at h
  split at h
  next =>
      cases h
      rfl
  next =>
      cases h
      rfl
  next => cases h

theorem newline?_cons {c : Char} (hfeed : c ≠ '\n') (hreturn : c ≠ '\r')
    (s : List Char) :
    newline? (c :: s) = none := by
  unfold newline?
  split
  next heq => exact absurd (List.cons.inj heq).1 hfeed
  next heq => exact absurd (List.cons.inj heq).1 hreturn
  next => rfl

/-- What starts with no line end starts with none in front of one. -/
theorem newline?_append_of_starts {s : List Char} (hs : Starts s)
    (hnew : newline? s = none) :
    newline? (s ++ t) = none := by
  obtain ⟨c, r, rfl, hc⟩ := hs
  have hfeed : c ≠ '\n' := by
    rintro rfl
    cases hnew
  exact newline?_cons hfeed hc _

theorem length_newline? {s r : List Char} (h : newline? s = some r) :
    r.length < s.length := by
  unfold newline? at h
  split at h
  next =>
      cases h
      exact Nat.lt_succ_self _
  next =>
      cases h
      exact Nat.lt_succ_of_lt (Nat.lt_succ_self _)
  next => cases h

-- =================================================================== runs

/-- No character of a class stands at a line's end, so the run of
the class ends there. -/
theorem span_append_of_head {p : Char → Bool} (hp : ∀ c ∈ t.head?, p c = false)
    (s : List Char) :
    (s ++ t).span p = ((s.span p).1, (s.span p).2 ++ t) := by
  rw [List.span_eq_takeWhile_dropWhile (l := s)]
  dsimp only
  conv_lhs => rw [← List.takeWhile_append_dropWhile (p := p) (l := s),
    List.append_assoc]
  refine Text.span_append
    (fun c hc => List.all_eq_true.1 List.all_takeWhile c hc) fun c hc => ?_
  cases hs : s.dropWhile p with
  | nil =>
      rw [hs, List.nil_append] at hc
      exact hp c hc
  | cons d rest =>
      rw [hs] at hc
      cases hc
      have hd := List.head?_dropWhile_not p s
      rw [hs] at hd
      exact hd

theorem dropWhile_append_of_head {p : Char → Bool}
    (hp : ∀ c ∈ t.head?, p c = false) (s : List Char) :
    (s ++ t).dropWhile p = s.dropWhile p ++ t := by
  have h := congrArg Prod.snd (span_append_of_head hp s)
  simpa [List.span_eq_takeWhile_dropWhile] using h

/-- Skipping spaces stops at the end of the line. -/
theorem skipSpaces_append (ht : AtLineEnd t) (s : List Char) :
    skipSpaces (s ++ t) = skipSpaces s ++ t :=
  dropWhile_append_of_head (ht.head (by decide) (by decide)) s

/-- So does skipping a comment. -/
theorem skipCommentText_append (ht : AtLineEnd t) (s : List Char) :
    skipCommentText (s ++ t) = skipCommentText s ++ t :=
  dropWhile_append_of_head (ht.head (by decide) (by decide)) s

theorem length_skipSpaces (s : List Char) : (skipSpaces s).length ≤ s.length :=
  List.length_dropWhile_le _ s

theorem length_skipCommentText (s : List Char) :
    (skipCommentText s).length ≤ s.length :=
  List.length_dropWhile_le _ s

theorem skipComment_append (ht : AtLineEnd t) (s : List Char) :
    skipComment (s ++ t) = skipComment s ++ t := by
  cases s with
  | nil =>
      obtain ⟨c, rest, rfl, hc | hc⟩ := ht.cases <;> subst hc <;> rfl
  | cons c s =>
      unfold skipComment
      by_cases hc : c = '#'
      · subst hc
        exact skipCommentText_append ht s
      · split
        next heq => exact absurd (List.cons.inj heq).1 hc
        next =>
            split
            next heq => exact absurd (List.cons.inj heq).1 hc
            next => rfl

-- ================================================================= blanks

/-- More turns than characters are as good as any others. -/
theorem skipBlanksFrom_congr {turns turns' : Nat} {s : List Char}
    (h : s.length < turns) (h' : s.length < turns') :
    skipBlanksFrom turns s = skipBlanksFrom turns' s := by
  induction turns generalizing turns' s with
  | zero => omega
  | succ turns ih =>
      obtain ⟨turns', rfl⟩ : ∃ n, turns' = n + 1 := ⟨turns' - 1, by omega⟩
      unfold skipBlanksFrom
      cases hnew : newline? (skipSpaces s) with
      | none => rfl
      | some rest =>
          have hshort := length_newline? hnew
          have hspaces := length_skipSpaces s
          exact ih (by omega) (by omega)

/-- Over several lines, an end of line is skipped with the rest. -/
theorem skipBlanks_newline {s rest : List Char}
    (h : newline? (skipSpaces s) = some rest) :
    skipBlanks s = skipBlanks rest := by
  have hshort := length_newline? h
  have hspaces := length_skipSpaces s
  conv_lhs => unfold skipBlanks skipBlanksFrom
  rw [h]
  exact skipBlanksFrom_congr (by omega) (Nat.lt_succ_self _)

/-- What is no end of line is not. -/
theorem skipBlanks_stop {s : List Char} (h : newline? (skipSpaces s) = none) :
    skipBlanks s = skipSpaces s := by
  unfold skipBlanks skipBlanksFrom
  rw [h]

/-- Blanks are passed over line by line. -/
theorem blanks_induction {motive : List Char → Prop}
    (newline : ∀ s rest, newline? (skipSpaces s) = some rest →
      motive rest → motive s)
    (stop : ∀ s, newline? (skipSpaces s) = none → motive s) (s : List Char) :
    motive s := by
  cases h : newline? (skipSpaces s) with
  | none => exact stop s h
  | some rest =>
      have hshort := length_newline? h
      have hspaces := length_skipSpaces s
      exact newline s rest h (blanks_induction newline stop rest)
termination_by s.length

/-- No line end is left behind blanks. -/
theorem newline?_skipBlanks (s : List Char) :
    newline? (skipBlanks s) = none := by
  induction s using blanks_induction with
  | newline s rest h ih => rwa [skipBlanks_newline h]
  | stop s h => rwa [skipBlanks_stop h]

/-- What ends the blanks in front of a line end ends them as
well if more follows. -/
theorem skipBlanks_append (ht : AtLineEnd t) {s : List Char}
    (hs : Starts (skipBlanks s)) :
    skipBlanks (s ++ t) = skipBlanks s ++ t := by
  have happend := skipSpaces_append ht
  induction s using blanks_induction with
  | newline s rest h ih =>
      rw [skipBlanks_newline h] at hs ⊢
      rw [skipBlanks_newline (happend s ▸ newline?_append h)]
      exact ih hs
  | stop s h =>
      rw [skipBlanks_stop h] at hs ⊢
      rw [skipBlanks_stop (happend s ▸ newline?_append_of_starts hs h),
        happend]

-- ================================================================= trivia

/-- More turns than characters are as good as any others. -/
theorem skipTriviaFrom_congr {turns turns' : Nat} {s : List Char}
    (h : s.length < turns) (h' : s.length < turns') :
    skipTriviaFrom turns s = skipTriviaFrom turns' s := by
  induction turns generalizing turns' s with
  | zero => omega
  | succ turns ih =>
      obtain ⟨turns', rfl⟩ : ∃ n, turns' = n + 1 := ⟨turns' - 1, by omega⟩
      have hspaces := length_skipSpaces s
      unfold skipTriviaFrom
      dsimp only
      cases hnew : newline? (skipSpaces s) with
      | some rest =>
          have hshort := length_newline? hnew
          exact ih (by omega) (by omega)
      | none =>
          dsimp only
          split
          next rest heq =>
              have hcomment := length_skipCommentText rest
              rw [heq, List.length_cons] at hspaces
              exact ih (by omega) (by omega)
          next => rfl

/-- Between values, an end of line is skipped with the rest. -/
theorem skipTrivia_newline {s rest : List Char}
    (h : newline? (skipSpaces s) = some rest) :
    skipTrivia s = skipTrivia rest := by
  have hshort := length_newline? h
  have hspaces := length_skipSpaces s
  conv_lhs => unfold skipTrivia skipTriviaFrom
  dsimp only
  rw [h]
  exact skipTriviaFrom_congr (by omega) (Nat.lt_succ_self _)

/-- So is a comment. -/
theorem skipTrivia_comment {s rest : List Char}
    (h : skipSpaces s = '#' :: rest) :
    skipTrivia s = skipTrivia (skipCommentText rest) := by
  have hcomment := length_skipCommentText rest
  have hspaces := length_skipSpaces s
  rw [h, List.length_cons] at hspaces
  conv_lhs => unfold skipTrivia skipTriviaFrom
  dsimp only
  rw [h, newline?_cons (by decide) (by decide)]
  exact skipTriviaFrom_congr (by omega) (Nat.lt_succ_self _)

/-- Anything else is not. -/
theorem skipTrivia_stop {s : List Char} (hnew : newline? (skipSpaces s) = none)
    (hmark : ∀ rest, skipSpaces s ≠ '#' :: rest) :
    skipTrivia s = skipSpaces s := by
  unfold skipTrivia skipTriviaFrom
  dsimp only
  rw [hnew]
  dsimp only
  split
  next rest heq => exact absurd heq (hmark rest)
  next => rfl

/-- Trivia is passed over piece by piece: after the spaces there is a line end,
a comment, or what is no trivia. -/
theorem trivia_induction {motive : List Char → Prop}
    (newline : ∀ s rest, newline? (skipSpaces s) = some rest →
      motive rest → motive s)
    (comment : ∀ s rest, skipSpaces s = '#' :: rest →
      motive (skipCommentText rest) → motive s)
    (stop : ∀ s, newline? (skipSpaces s) = none →
      (∀ rest, skipSpaces s ≠ '#' :: rest) → motive s)
    (s : List Char) : motive s := by
  have hspaces := length_skipSpaces s
  cases hnew : newline? (skipSpaces s) with
  | some rest =>
      have hshort := length_newline? hnew
      exact newline s rest hnew (trivia_induction newline comment stop rest)
  | none =>
      by_cases hmark : ∃ rest, skipSpaces s = '#' :: rest
      · obtain ⟨rest, hmark⟩ := hmark
        have hcomment := length_skipCommentText rest
        have hshort : (skipCommentText rest).length < s.length := by
          rw [hmark, List.length_cons] at hspaces
          omega
        exact comment s rest hmark
          (trivia_induction newline comment stop (skipCommentText rest))
      · exact stop s hnew (not_exists.1 hmark)
termination_by s.length

/-- What ends the trivia in front of a line end ends them as
well if more follows. -/
theorem skipTrivia_append (ht : AtLineEnd t) {s : List Char}
    (hs : Starts (skipTrivia s)) :
    skipTrivia (s ++ t) = skipTrivia s ++ t := by
  have happend := skipSpaces_append ht
  induction s using trivia_induction with
  | newline s rest h ih =>
      rw [skipTrivia_newline h] at hs ⊢
      rw [skipTrivia_newline (happend s ▸ newline?_append h)]
      exact ih hs
  | comment s rest h ih =>
      have hmark : skipSpaces (s ++ t) = '#' :: (rest ++ t) := by
        rw [happend, h, List.cons_append]
      rw [skipTrivia_comment h] at hs ⊢
      rw [skipTrivia_comment hmark, skipCommentText_append ht]
      exact ih hs
  | stop s hnew hmark =>
      rw [skipTrivia_stop hnew hmark] at hs ⊢
      rw [skipTrivia_stop (happend s ▸ newline?_append_of_starts hs hnew),
        happend]
      intro rest heq
      obtain ⟨c, r, hcons, -⟩ := hs
      rw [happend, hcons] at heq
      exact hmark r (by rw [hcons, (List.cons.inj heq).1])

/-- What is trivia to its end stays so, and the line end
behind it is trivia too. -/
theorem skipTrivia_append_of_eq_nil (ht : AtLineEnd t) {s : List Char}
    (h : skipTrivia s = []) :
    skipTrivia (s ++ t) = skipTrivia t := by
  have happend := skipSpaces_append ht
  induction s using trivia_induction with
  | newline s rest hnew ih =>
      rw [skipTrivia_newline hnew] at h
      rw [skipTrivia_newline (happend s ▸ newline?_append hnew)]
      exact ih h
  | comment s rest hmark ih =>
      have hmark' : skipSpaces (s ++ t) = '#' :: (rest ++ t) := by
        rw [happend, hmark, List.cons_append]
      rw [skipTrivia_comment hmark] at h
      rw [skipTrivia_comment hmark', skipCommentText_append ht]
      exact ih h
  | stop s hnew hmark =>
      have hspaces : skipSpaces t = t := happend []
      obtain ⟨rest, hrest⟩ := ht
      rw [skipTrivia_stop hnew hmark] at h
      have hboth : newline? (skipSpaces (s ++ t)) = some rest := by
        rw [happend, h, List.nil_append, hrest]
      exact (skipTrivia_newline hboth).trans
        (skipTrivia_newline (hspaces.symm ▸ hrest)).symm

/-- A statement that ends with its text ends at the line end behind it. -/
theorem endOfLine?_append {u : List Char} (hu : newline? t = some u)
    {s r : List Char} (h : endOfLine? s = some r) (hr : skipTrivia r = []) :
    ∃ q, endOfLine? (s ++ t) = some q ∧ skipTrivia q = skipTrivia u := by
  have ht : AtLineEnd t := ⟨u, hu⟩
  have hspaces : skipSpaces t = t := skipSpaces_append ht []
  unfold endOfLine? at h ⊢
  rw [skipSpaces_append ht, skipComment_append ht]
  generalize skipComment (skipSpaces s) = w at h ⊢
  split at h
  next =>
      refine ⟨u, ?_, rfl⟩
      obtain ⟨c, rest, rfl, hc⟩ := ht.cases
      exact hu
  next hw =>
      refine ⟨r ++ t, ?_, ?_⟩
      · split
        next heq => exact absurd (List.append_eq_nil_iff.1 heq).1 hw
        next => exact newline?_append h
      · rw [skipTrivia_append_of_eq_nil ht hr,
          skipTrivia_newline (by rw [hspaces, hu])]

end TokenForge.Toml
