/-
The tokens of printed fragments. Indentation, line ends, blank lines and
blocks are white space, so the tokens of fragments are those of their lines,
in order (`Fragment.Reads`). A function's heading has the same tokens on one
line and on several (`Callable.reads_fragments`).

Two texts have the same tokens up to some string literals if each has
tokens and these agree one by one, where a literal may stand for a string of
one side only if the other side has the corresponding literal there
(`SameTokens`). The relation counts these literals: it carries those of the
first text, in order. It is kept by everything the printer does with texts,
whether or not both sides choose the same layout.
-/
import Mathlib.Data.List.Forall2
import TokenForge.Proofs.Fragment.Text
import TokenForge.Proofs.Solidity.Lexer
import TokenForge.Source.Heading

namespace TokenForge

open Solidity

-- ============================================================= fragments

/-- A text and its tokens, as `Reads`. -/
def ReadsText (s : String) (ts : List Token) : Prop := Reads s.toList ts

/-- A text and its tokens, as `Settles`. -/
def SettlesText (s : String) (ts : List Token) : Prop := Settles s.toList ts

/-- Texts that read alone are read one after the other. -/
theorem ReadsText.append {s t : String} {ts us : List Token}
    (hs : ReadsText s ts) (ht : ReadsText t us) :
    ReadsText (s ++ t) (ts ++ us) := by
  unfold ReadsText
  rw [String.toList_append]
  exact Reads.append hs ht

/-- The last part of a text is the one that has to settle. -/
theorem ReadsText.append_settles {s t : String} {ts us : List Token}
    (hs : ReadsText s ts) (ht : SettlesText t us) :
    SettlesText (s ++ t) (ts ++ us) := by
  unfold SettlesText
  rw [String.toList_append]
  exact Reads.append_settles hs ht

/-- The spaces between texts settle each of them. -/
theorem SettlesText.intercalate {parts : List String} {tss : List (List Token)}
    (h : List.Forall₂ SettlesText parts tss) :
    SettlesText (" ".intercalate parts) tss.flatten := by
  induction h with
  | nil => exact Reads.nil.settles
  | @cons s ts parts tss hs hparts ih =>
      cases hparts with
      | nil =>
          rw [String.intercalate_singleton, List.flatten_cons,
            List.flatten_nil, List.append_nil]
          exact hs
      | cons ht htail =>
          rw [String.intercalate_cons_cons, List.flatten_cons]
          unfold SettlesText
          rw [String.toList_append, String.toList_append, List.append_assoc]
          exact Settles.append_blank (b := ' ') hs (by decide) ih

namespace Fragment

/-- Fragments and the tokens of their text, however deep they stand. -/
def Reads (fs : List Fragment) (ts : List Token) : Prop :=
  ∀ level, ReadsText (textOf level fs) ts

theorem Reads.nil : Reads [] [] := fun _ => Solidity.Reads.nil

theorem Reads.append {a b : List Fragment} {ts us : List Token}
    (ha : Reads a ts) (hb : Reads b us) : Reads (a ++ b) (ts ++ us) := by
  intro level
  rw [textOf_append]
  exact (ha level).append (hb level)

/-- A line that is complete with its line feed. -/
theorem Reads.line {s : String} {ts : List Token}
    (h : ReadsText (s ++ "\n") ts) :
    Reads [.line s] ts := by
  intro level
  have hindent : ReadsText (indentation level) [] := by
    refine Solidity.Reads.blanks fun b hb => ?_
    rw [indentation, String.toList_ofList] at hb
    rw [(List.mem_replicate.1 hb).2]
    decide
  rw [textOf_line, String.append_assoc]
  exact hindent.append h

/-- The end of a line settles its text. -/
theorem Reads.settled {s : String} {ts : List Token} (h : SettlesText s ts) :
    Reads [.line s] ts := by
  apply Reads.line
  unfold ReadsText
  rw [String.toList_append]
  exact h '\n' (by decide)

/-- A comment is one token, whatever is written in it. -/
theorem Reads.comment {s : String} {t : List Char}
    (hs : s.toList = '/' :: '/' :: t) (h : '\n' ∉ t) :
    Reads [.line s] [.comment s.toList] := by
  apply Reads.line
  unfold ReadsText
  rw [String.toList_append, hs]
  exact reads_comment h

theorem Reads.blank : Reads [.blank] [] := by
  intro level
  rw [textOf_blank]
  refine Solidity.Reads.blanks fun b hb => ?_
  have hb : b ∈ ['\n'] := hb
  rw [List.mem_singleton.1 hb]
  decide

/-- A block only moves its lines, so it reads as they do. -/
theorem Reads.block {body : List Fragment} {ts : List Token}
    (h : Reads body ts) :
    Reads [.block body] ts := by
  intro level
  rw [textOf_block]
  exact h (level + 1)

/-- Lines are read one by one. -/
theorem Reads.lines {l : List String} {tss : List (List Token)}
    (h : List.Forall₂ SettlesText l tss) :
    Reads (l.map .line) tss.flatten := by
  induction h with
  | nil => exact .nil
  | cons hs _ ih => exact (Reads.settled hs).append ih

/-- The tokens of sections are those of each, one after the other. -/
theorem Reads.joinSections {sections : List (List Fragment)}
    {tss : List (List Token)} (h : List.Forall₂ Reads sections tss) :
    Reads (joinSections sections) tss.flatten := by
  induction h with
  | nil => exact .nil
  | @cons s ts sections tss hs _ ih =>
      rw [List.flatten_cons]
      rcases joinSections_cons_cases s sections with ⟨rfl, hjoin⟩ |
        ⟨-, hnil, hjoin⟩ | ⟨-, hjoin⟩
      · rw [hjoin]
        have hts : ts = [] := congrArg Prod.fst (hs 0).symm
        rw [hts, List.nil_append]
        exact ih
      · rw [hjoin]
        have htss : tss.flatten = [] := by
          rw [hnil] at ih
          exact congrArg Prod.fst (ih 0).symm
        rw [htss, List.append_nil]
        exact hs
      · rw [hjoin]
        have hblank := (hs.append .blank).append ih
        rw [List.append_nil] at hblank
        exact hblank

end Fragment

-- ============================================================= callables

namespace Callable

/-- The tokens of a body with its braces. -/
def bracedTokens (f : Callable) (body : List Token) : List Token :=
  if f.body.isEmpty then [.symbol '\x7b', .symbol '\x7d']
  else .symbol '\x7b' :: body ++ [.symbol '\x7d']

/-- The tokens of a function or constructor do not depend on the layout of
its heading. -/
theorem reads_fragments {f : Callable} {ts vs : List Token}
    {uss : List (List Token)} (hsig : SettlesText f.signature ts)
    (hmods : List.Forall₂ SettlesText f.modifiers uss)
    (hbody : Fragment.Reads f.body vs) :
    Fragment.Reads f.fragments (ts ++ uss.flatten ++ f.bracedTokens vs) := by
  have hopen : SettlesText f.braces
      (if f.body.isEmpty then [.symbol '\x7b', .symbol '\x7d']
        else [.symbol '\x7b']) := by
    unfold braces
    split
    · exact Reads.settles (by unfold Reads; decide)
    · exact Reads.settles (by unfold Reads; decide)
  have hheading : Fragment.Reads f.heading
      (ts ++ uss.flatten ++ if f.body.isEmpty
        then [.symbol '\x7b', .symbol '\x7d'] else [.symbol '\x7b']) := by
    unfold heading
    split
    · have hparts : List.Forall₂ SettlesText f.headingParts
          (ts :: uss ++ [if f.body.isEmpty
            then [.symbol '\x7b', .symbol '\x7d'] else [.symbol '\x7b']]) :=
        .cons hsig (List.rel_append hmods (.cons hopen .nil))
      have hline := Fragment.Reads.settled (SettlesText.intercalate hparts)
      simpa only [List.cons_append, List.flatten_cons, List.flatten_append,
        List.flatten_nil, List.append_nil, List.append_assoc] using hline
    · have hlines := (Fragment.Reads.settled hsig).append
        ((Fragment.Reads.block (Fragment.Reads.lines hmods)).append
          (Fragment.Reads.settled hopen))
      simpa only [List.cons_append, List.nil_append, List.append_assoc]
        using hlines
  -- an empty body has its closing brace in the heading
  unfold fragments closing bracedTokens
  cases hempty : f.body.isEmpty with
  | true =>
      rw [hempty] at hheading
      simpa only [if_true, List.append_nil] using hheading
  | false =>
      rw [hempty] at hheading
      have hclose : SettlesText "\x7d" [.symbol '\x7d'] :=
        Reads.settles (by unfold Reads; decide)
      have hall := hheading.append
        ((Fragment.Reads.block hbody).append (Fragment.Reads.settled hclose))
      simpa only [Bool.false_eq_true, if_false, List.cons_append,
        List.nil_append, List.append_assoc] using hall

end Callable

/-- The literal of a string is one token, and complete. -/
theorem readsText_literal (s : String) :
    ReadsText (Literal.ofString s) [.literal (Literal.encode s.toList)] := by
  unfold ReadsText
  rw [Literal.toList_ofString]
  exact reads_encode s.toList

/-- It is the one literal of its text. -/
theorem literalsOf_ofString (s : String) :
    literalsOf (Literal.ofString s) = [Literal.encode s.toList] :=
  literalsOf_of_reads (readsText_literal s)

-- =========================================================== same tokens

/-- Two tokens are equal, or are literals of corresponding strings. -/
def Solidity.Token.Matches (A : String → String → Prop) (t u : Token) : Prop :=
  t = u ∨ ∃ v w, A v w
    ∧ t = .literal (Literal.encode v.toList)
    ∧ u = .literal (Literal.encode w.toList)

/-- Two rows of tokens are equal one by one, but for literals of corresponding
strings; those that the first row has there are listed in order. -/
inductive Solidity.Aligned (A : String → String → Prop) :
    List (List Char) → List Token → List Token → Prop
  | nil : Aligned A [] [] []
  | same (t : Token) {ls : List (List Char)} {ts us : List Token}
      (h : Aligned A ls ts us) : Aligned A ls (t :: ts) (t :: us)
  | literal {v w : String} (hvw : A v w) {ls : List (List Char)}
      {ts us : List Token} (h : Aligned A ls ts us) :
    Aligned A (Literal.encode v.toList :: ls)
      (.literal (Literal.encode v.toList) :: ts)
      (.literal (Literal.encode w.toList) :: us)

namespace Solidity.Aligned

variable {A : String → String → Prop} {ls ls' : List (List Char)}
  {ts us ts' us' : List Token}

/-- A list is aligned with itself, without a literal of a record. -/
theorem refl (ts : List Token) : Aligned A [] ts ts := by
  induction ts with
  | nil => exact .nil
  | cons t ts ih => exact .same t ih

/-- What is aligned in parts is aligned as a whole, and the
literals follow each other. -/
theorem append (h : Aligned A ls ts us) (h' : Aligned A ls' ts' us') :
    Aligned A (ls ++ ls') (ts ++ ts') (us ++ us') := by
  induction h with
  | nil => exact h'
  | same t _ ih => exact .same t ih
  | literal hvw _ ih => exact .literal hvw ih

/-- Aligned tokens match one by one. -/
theorem matched (h : Aligned A ls ts us) :
    List.Forall₂ (Token.Matches A) ts us := by
  induction h with
  | nil => exact .nil
  | same t _ ih => exact .cons (.inl rfl) ih
  | literal hvw _ ih => exact .cons (.inr ⟨_, _, hvw, rfl, rfl⟩) ih

end Solidity.Aligned

/-- Two things have tokens, which are aligned with the given literals. -/
def SameTokens {α : Type} (reads : α → List Token → Prop)
    (A : String → String → Prop) (ls : List (List Char)) (x y : α) : Prop :=
  ∃ ts us, reads x ts ∧ reads y us ∧ Aligned A ls ts us

/-- The things of two lists have the same tokens, entry by entry. -/
inductive SameEach {α : Type} (reads : α → List Token → Prop)
    (A : String → String → Prop) : List (List Char) → List α → List α → Prop
  | nil : SameEach reads A [] [] []
  | cons {ls ls' : List (List Char)} {x y : α} {xs ys : List α}
      (h : SameTokens reads A ls x y) (hs : SameEach reads A ls' xs ys) :
    SameEach reads A (ls ++ ls') (x :: xs) (y :: ys)

namespace SameEach

variable {A : String → String → Prop} {α : Type}
  {reads : α → List Token → Prop} {ls ls' : List (List Char)}
  {xs ys xs' ys' : List α}

/-- One text on each side. -/
theorem single {x y : α} (h : SameTokens reads A ls x y) :
    SameEach reads A ls [x] [y] := by
  have hone := SameEach.cons h .nil
  rwa [List.append_nil] at hone

theorem append (h : SameEach reads A ls xs ys)
    (h' : SameEach reads A ls' xs' ys') :
    SameEach reads A (ls ++ ls') (xs ++ xs') (ys ++ ys') := by
  induction h with
  | nil => exact h'
  | cons hxy _ ih =>
      rw [List.append_assoc]
      exact .cons hxy ih

/-- Related lists have the same tokens if related entries have; the literals
are read off the entries of the first list. -/
theorem of_forall₂ {β γ : Type} {R : β → γ → Prop} {l : List β} {l' : List γ}
    (h : List.Forall₂ R l l') {f : β → α} {g : γ → α}
    {literals : β → List (List Char)}
    (hfg : ∀ b c, R b c → SameTokens reads A (literals b) (f b) (g c)) :
    SameEach reads A (l.flatMap literals) (l.map f) (l'.map g) := by
  induction h with
  | nil => exact .nil
  | cons hbc _ ih => exact .cons (hfg _ _ hbc) ih

/-- The token lists of lists that have the same tokens entry by entry. -/
theorem lists (h : SameEach reads A ls xs ys) :
    ∃ tss uss, List.Forall₂ reads xs tss ∧ List.Forall₂ reads ys uss
      ∧ Aligned A ls tss.flatten uss.flatten := by
  induction h with
  | nil => exact ⟨[], [], .nil, .nil, .nil⟩
  | cons hxy _ ih =>
      obtain ⟨ts, us, hts, hus, haligned⟩ := hxy
      obtain ⟨tss, uss, htss, huss, hrest⟩ := ih
      exact ⟨ts :: tss, us :: uss, .cons hts htss, .cons hus huss,
        haligned.append hrest⟩

/-- Texts that are alike in tokens are both empty or both not. -/
theorem isEmpty_eq (h : SameEach reads A ls xs ys) :
    xs.isEmpty = ys.isEmpty := by
  cases h <;> rfl

end SameEach

namespace SameTokens

variable {A : String → String → Prop} {ls ls' : List (List Char)}

/-- What reads at all is alike in tokens to itself. -/
theorem refl {α : Type} {reads : α → List Token → Prop} {x : α}
    (h : ∃ ts, reads x ts) : SameTokens reads A [] x x := by
  obtain ⟨ts, hts⟩ := h
  exact ⟨ts, ts, hts, hts, .refl ts⟩

-- ------------------------------------------------------------------ texts

theorem append {s s' t t' : String} (hs : SameTokens ReadsText A ls s s')
    (ht : SameTokens ReadsText A ls' t t') :
    SameTokens ReadsText A (ls ++ ls') (s ++ t) (s' ++ t') := by
  obtain ⟨ts, us, hts, hus, haligned⟩ := hs
  obtain ⟨ts', us', hts', hus', haligned'⟩ := ht
  exact ⟨ts ++ ts', us ++ us', hts.append hts', hus.append hus',
    haligned.append haligned'⟩

theorem append_settles {s s' t t' : String}
    (hs : SameTokens ReadsText A ls s s')
    (ht : SameTokens SettlesText A ls' t t') :
    SameTokens SettlesText A (ls ++ ls') (s ++ t) (s' ++ t') := by
  obtain ⟨ts, us, hts, hus, haligned⟩ := hs
  obtain ⟨ts', us', hts', hus', haligned'⟩ := ht
  exact ⟨ts ++ ts', us ++ us', hts.append_settles hts',
    hus.append_settles hus', haligned.append haligned'⟩

/-- Two literals of matching strings differ in one token, the literal. -/
theorem literal {v w : String} (h : A v w) :
    SameTokens ReadsText A [Literal.encode v.toList] (Literal.ofString v)
      (Literal.ofString w) :=
  ⟨_, _, readsText_literal v, readsText_literal w, .literal h .nil⟩

/-- A plain text has no literals, so it is the same on both sides. -/
theorem plain {s : String} (h : Plain s) : SameTokens SettlesText A [] s s :=
  refl h.settles

/-- A plain text is complete with a punctuation mark after it. -/
theorem plain_before {s mark : String} (h : Plain s) {c : Char}
    (hmark : mark.toList = [c]) (hc : isPlain c = true)
    (hpart : isIdentifierPart c = false) :
    SameTokens ReadsText A [] (s ++ mark) (s ++ mark) := by
  have hplain : ∀ x ∈ s.toList ++ [c], isPlain x = true := by
    intro x hx
    rcases List.mem_append.1 hx with hx | hx
    · exact h x hx
    · rw [List.mem_singleton.1 hx]
      exact hc
  obtain ⟨ts, hts⟩ := reads_of_plain hplain hpart
  refine refl ⟨ts, ?_⟩
  unfold ReadsText
  rw [String.toList_append, hmark]
  exact hts

/-- Complete texts with a complete separator between them. -/
theorem intercalate {sep : String} {ts : List Token} (hsep : ReadsText sep ts)
    {l l' : List String} (h : SameEach ReadsText A ls l l') :
    SameTokens ReadsText A ls (sep.intercalate l) (sep.intercalate l') := by
  induction h with
  | nil => exact refl ⟨[], Reads.nil⟩
  | cons hs hl ih =>
      cases hl with
      | nil =>
          rw [String.intercalate_singleton, String.intercalate_singleton,
            List.append_nil]
          exact hs
      | cons ht htail =>
          rw [String.intercalate_cons_cons, String.intercalate_cons_cons]
          have hall := (hs.append (refl ⟨ts, hsep⟩)).append ih
          rwa [List.append_nil] at hall

-- -------------------------------------------------------------- fragments

theorem fragments_nil : SameTokens Fragment.Reads A [] [] [] :=
  refl ⟨[], .nil⟩

theorem fragments_append {a a' b b' : List Fragment}
    (ha : SameTokens Fragment.Reads A ls a a')
    (hb : SameTokens Fragment.Reads A ls' b b') :
    SameTokens Fragment.Reads A (ls ++ ls') (a ++ b) (a' ++ b') := by
  obtain ⟨ts, us, hts, hus, haligned⟩ := ha
  obtain ⟨ts', us', hts', hus', haligned'⟩ := hb
  exact ⟨ts ++ ts', us ++ us', hts.append hts', hus.append hus',
    haligned.append haligned'⟩

/-- Lines are alike in tokens if their texts are. -/
theorem line {s s' : String} (h : SameTokens SettlesText A ls s s') :
    SameTokens Fragment.Reads A ls [.line s] [.line s'] := by
  obtain ⟨ts, us, hts, hus, haligned⟩ := h
  exact ⟨ts, us, .settled hts, .settled hus, haligned⟩

/-- Several lines are, if each two are. -/
theorem lines {l l' : List String} (h : SameEach SettlesText A ls l l') :
    SameTokens Fragment.Reads A ls (l.map .line) (l'.map .line) := by
  obtain ⟨tss, uss, htss, huss, haligned⟩ := h.lists
  exact ⟨_, _, .lines htss, .lines huss, haligned⟩

/-- Sections that are alike in tokens are joined to layouts that are. -/
theorem joinSections {sections sections' : List (List Fragment)}
    (h : SameEach Fragment.Reads A ls sections sections') :
    SameTokens Fragment.Reads A ls (Fragment.joinSections sections)
      (Fragment.joinSections sections') := by
  obtain ⟨tss, uss, htss, huss, haligned⟩ := h.lists
  exact ⟨_, _, .joinSections htss, .joinSections huss, haligned⟩

/-- Functions with the same tokens part by part, in whichever layouts. The
signature has no literals of corresponding strings. -/
theorem callable {f g : Callable}
    (hsig : SameTokens SettlesText A [] f.signature g.signature)
    (hmods : SameEach SettlesText A ls f.modifiers g.modifiers)
    (hbody : SameTokens Fragment.Reads A ls' f.body g.body)
    (hempty : f.body.isEmpty = g.body.isEmpty) :
    SameTokens Fragment.Reads A (ls ++ ls') f.fragments g.fragments := by
  obtain ⟨ts, us, hts, hus, haligned⟩ := hsig
  obtain ⟨tss, uss, htss, huss, hwords⟩ := hmods.lists
  obtain ⟨vs, ws, hvs, hws, hlines⟩ := hbody
  refine ⟨_, _, Callable.reads_fragments hts htss hvs,
    Callable.reads_fragments hus huss hws, (haligned.append hwords).append ?_⟩
  unfold Callable.bracedTokens
  rw [← hempty]
  split
  next hnone =>
      -- an empty body has no tokens, and so no literals
      rw [List.isEmpty_iff] at hnone
      rw [hnone] at hvs
      have hvs' : vs = [] := congrArg Prod.fst (hvs 0).symm
      rw [hvs'] at hlines
      cases hlines
      exact .refl _
  next =>
      have hclose := hlines.append (.refl [.symbol '\x7d'])
      rw [List.append_nil] at hclose
      exact .same _ hclose

end SameTokens

end TokenForge
