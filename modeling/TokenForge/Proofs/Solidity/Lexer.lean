/-
The tokens of a source text, as far as injection is concerned: words,
symbols, string literals and line comments. White space separates tokens and
is no token; `//` starts a comment that ends with its line; a quote starts a
literal that ends at the first quote no backslash escapes, and the word
`unicode` right before the quote belongs to the literal.

The lexer goes through the text once, one character at a time. Its mode is
the token it is in, so scanning a text in two parts is scanning the first
and going on with the mode it leaves (`scan_append`). A text that ends
between tokens is `Reads`: its tokens do not depend on what follows, and
joined texts have the joined tokens. A text `Settles` if a blank after it is
enough for that, whichever blank it is; this is what makes the layout of a
heading invisible.
-/
import TokenForge.Proofs.Solidity.Literal
import TokenForge.Solidity.Identifier
import TokenForge.Text.Blank

namespace TokenForge.Solidity

-- ============================================================= the lexer

/-- A token with its text. -/
inductive Token where
  /-- A comment, from its slashes to the end of the line. -/
  | comment (text : List Char)
  /-- A string literal, with its quotes and the mark before them. -/
  | literal (text : List Char)
  /-- A longest run of letters, digits, `_` and `$`. -/
  | word (text : List Char)
  /-- Any other character that is not white space. -/
  | symbol (c : Char)
  deriving DecidableEq, Repr

/-- Where the lexer is; a token under way carries its text so far. -/
inductive Mode where
  | between
  /-- After a slash that may start a comment. -/
  | slash
  | comment (text : List Char)
  | word (text : List Char)
  | literal (text : List Char)
  /-- After a backslash in a literal. -/
  | escape (text : List Char)
  deriving DecidableEq, Repr

namespace Mode

/-- The first character after a token. -/
def start (c : Char) : List Token × Mode :=
  if Text.isBlank c then ([], .between)
  else if c = '/' then ([], .slash)
  else if c = '"' then ([], .literal [c])
  else if isIdentifierPart c then ([], .word [c])
  else ([.symbol c], .between)

/-- One more character: the tokens it completes, and the mode after it. -/
def advance : Mode → Char → List Token × Mode
  | .between, c => start c
  | .slash, c =>
    if c = '/' then ([], .comment ['/', '/'])
    else (.symbol '/' :: (start c).1, (start c).2)
  | .comment text, c =>
    if c = '\n' then ([.comment text], .between)
    else ([], .comment (text ++ [c]))
  | .word text, c =>
    if isIdentifierPart c then ([], .word (text ++ [c]))
    else if c = '"' ∧ text = "unicode".toList then ([], .literal (text ++ [c]))
    else (.word text :: (start c).1, (start c).2)
  | .literal text, c =>
    if c = '"' then ([.literal (text ++ [c])], .between)
    else if c = '\\' then ([], .escape (text ++ [c]))
    else ([], .literal (text ++ [c]))
  | .escape text, c => ([], .literal (text ++ [c]))

/-- The token that the end of the text completes. -/
def finish : Mode → List Token
  | .between => []
  | .slash => [.symbol '/']
  | .comment text => [.comment text]
  | .word text => [.word text]
  | .literal text => [.literal text]
  | .escape text => [.literal text]

theorem advance_word (text : List Char) (c : Char) :
    advance (.word text) c
      = if isIdentifierPart c then ([], .word (text ++ [c]))
        else if c = '"' ∧ text = "unicode".toList then
          ([], .literal (text ++ [c]))
        else (.word text :: (start c).1, (start c).2) := rfl

theorem advance_literal (text : List Char) (c : Char) :
    advance (.literal text) c
      = if c = '"' then ([.literal (text ++ [c])], .between)
        else if c = '\\' then ([], .escape (text ++ [c]))
        else ([], .literal (text ++ [c])) := rfl

theorem advance_comment (text : List Char) (c : Char) :
    advance (.comment text) c
      = if c = '\n' then ([.comment text], .between)
        else ([], .comment (text ++ [c])) := rfl

end Mode

/-- The tokens a text completes from a mode on, and the mode it leaves. -/
def scan : Mode → List Char → List Token × Mode
  | m, [] => ([], m)
  | m, c :: s =>
    let (ts, m) := m.advance c
    let (us, m) := scan m s
    (ts ++ us, m)

/-- The tokens of a text. -/
def tokens (s : String) : List Token :=
  (scan .between s.toList).1 ++ (scan .between s.toList).2.finish

/-- The text of a token that is a literal. -/
def Token.literal? : Token → Option (List Char)
  | .literal text => some text
  | _ => none

/-- The literals of a text, in order. -/
def literalsOf (s : String) : List (List Char) :=
  (tokens s).filterMap Token.literal?

-- ============================================================= scanning

theorem scan_nil (m : Mode) : scan m [] = ([], m) := rfl

theorem scan_cons (m : Mode) (c : Char) (s : List Char) :
    scan m (c :: s) = ((m.advance c).1 ++ (scan (m.advance c).2 s).1,
      (scan (m.advance c).2 s).2) := rfl

/-- A text is scanned part by part, from where the first part stops. -/
theorem scan_append (m : Mode) (s t : List Char) :
    scan m (s ++ t) = ((scan m s).1 ++ (scan (scan m s).2 t).1,
      (scan (scan m s).2 t).2) := by
  induction s generalizing m with
  | nil => rfl
  | cons c s ih =>
      rw [List.cons_append, scan_cons, ih, scan_cons]
      simp only [List.append_assoc]

/-- A text whose tokens are complete. -/
def Reads (s : List Char) (ts : List Token) : Prop :=
  scan .between s = (ts, .between)

theorem Reads.nil : Reads [] [] := rfl

/-- Two texts that read alone are read one after the other. -/
theorem Reads.append {s t : List Char} {ts us : List Token} (hs : Reads s ts)
    (ht : Reads t us) : Reads (s ++ t) (ts ++ us) := by
  unfold Reads at hs ht ⊢
  rw [scan_append, hs, ht]

/-- What a text reads as is the list of its tokens. -/
theorem tokens_of_reads {s : String} {ts : List Token}
    (h : Reads s.toList ts) :
    tokens s = ts := by
  unfold tokens
  rw [show scan .between s.toList = (ts, .between) from h]
  exact List.append_nil _

/-- The literals of a text are those among its tokens. -/
theorem literalsOf_of_reads {s : String} {ts : List Token}
    (h : Reads s.toList ts) : literalsOf s = ts.filterMap Token.literal? := by
  unfold literalsOf
  rw [tokens_of_reads h]

-- ============================================================== settling

/-- A text whose tokens any blank after it completes. -/
def Settles (s : List Char) (ts : List Token) : Prop :=
  ∀ b, Text.isBlank b = true → Reads (s ++ [b]) ts

theorem scan_singleton (m : Mode) (c : Char) : scan m [c] = m.advance c := by
  rw [scan_cons, scan_nil, List.append_nil]

theorem Mode.start_of_blank {b : Char} (h : Text.isBlank b = true) :
    start b = ([], .between) :=
  if_pos h

/-- Blanks have no tokens. -/
theorem Reads.blanks {s : List Char} (h : ∀ b ∈ s, Text.isBlank b = true) :
    Reads s [] := by
  induction s with
  | nil => exact .nil
  | cons b s ih =>
      have hb : Reads [b] [] := by
        unfold Reads
        rw [scan_singleton]
        exact Mode.start_of_blank (h b (List.mem_cons_self ..))
      exact hb.append (ih fun b' hb' => h b' (List.mem_cons_of_mem _ hb'))

/-- A text that reads by itself is settled by what follows. -/
theorem Reads.settles {s : List Char} {ts : List Token} (h : Reads s ts) :
    Settles s ts := by
  intro b hb
  have hblank : Reads [b] [] := Reads.blanks fun b' hb' => by
    rw [List.mem_singleton.1 hb']
    exact hb
  have happend := h.append hblank
  rw [List.append_nil] at happend
  exact happend

/-- What is complete may stand before what settles. -/
theorem Reads.append_settles {s t : List Char} {ts us : List Token}
    (hs : Reads s ts) (ht : Settles t us) : Settles (s ++ t) (ts ++ us) := by
  intro b hb
  rw [List.append_assoc]
  exact hs.append (ht b hb)

/-- A blank settles the text before it. -/
theorem Settles.append_blank {s t : List Char} {ts us : List Token}
    (hs : Settles s ts) {b : Char} (hb : Text.isBlank b = true)
    (ht : Settles t us) : Settles (s ++ b :: t) (ts ++ us) := by
  rw [List.append_cons]
  exact (hs b hb).append_settles ht

-- =========================================================== plain texts

/-- A character that starts neither a literal nor a comment. -/
def isPlain (c : Char) : Bool := c != '"' && c != '/'

/-- A text without quotes and slashes. -/
def Plain (s : String) : Prop := ∀ c ∈ s.toList, isPlain c = true

instance (s : String) : Decidable (Plain s) :=
  decidable_of_iff (s.toList.all isPlain = true) List.all_eq_true

theorem Plain.append {s t : String} (hs : Plain s) (ht : Plain t) :
    Plain (s ++ t) := by
  intro c hc
  rw [String.toList_append, List.mem_append] at hc
  exact hc.elim (hs c) (ht c)

/-- Plain texts with a plain separator are a plain text. -/
theorem Plain.intercalate {sep : String} (hsep : Plain sep) {l : List String}
    (h : ∀ s ∈ l, Plain s) : Plain (sep.intercalate l) := by
  induction l with
  | nil => exact fun c hc => absurd hc List.not_mem_nil
  | cons s l ih =>
      have hs := h s (List.mem_cons_self ..)
      have hl := ih fun t ht => h t (List.mem_cons_of_mem _ ht)
      cases l with
      | nil =>
          rw [String.intercalate_singleton]
          exact hs
      | cons t l =>
          rw [String.intercalate_cons_cons]
          exact (hs.append hsep).append hl

/-- Neither in a literal nor in a comment, nor at the start of one. -/
def Mode.Quiet (m : Mode) : Prop := m = .between ∨ ∃ text, m = .word text

/-- A plain character starts no literal and no comment. -/
theorem Mode.start_of_plain {c : Char} (h : isPlain c = true) :
    (start c).2.Quiet
      ∧ (isIdentifierPart c = false → (start c).2 = .between) := by
  simp only [isPlain, Bool.and_eq_true, bne_iff_ne, ne_eq] at h
  unfold start
  by_cases hb : Text.isBlank c = true
  · rw [if_pos hb]
    exact ⟨.inl rfl, fun _ => rfl⟩
  · rw [if_neg hb, if_neg h.2, if_neg h.1]
    by_cases hp : isIdentifierPart c = true
    · rw [if_pos hp]
      refine ⟨.inr ⟨_, rfl⟩, fun hn => ?_⟩
      rw [hp] at hn
      cases hn
    · rw [if_neg hp]
      exact ⟨.inl rfl, fun _ => rfl⟩

/-- A plain character leads from a quiet mode to a quiet mode; one that is no
part of a word ends the word before it. -/
theorem Mode.advance_of_plain {m : Mode} (hm : m.Quiet) {c : Char}
    (h : isPlain c = true) :
    (m.advance c).2.Quiet
      ∧ (isIdentifierPart c = false → (m.advance c).2 = .between) := by
  rcases hm with rfl | ⟨text, rfl⟩
  · exact start_of_plain h
  · have hquote : ¬(c = '"' ∧ text = "unicode".toList) := by
      rintro ⟨rfl, -⟩
      cases h
    rw [advance_word]
    by_cases hp : isIdentifierPart c = true
    · rw [if_pos hp]
      refine ⟨.inr ⟨_, rfl⟩, fun hn => ?_⟩
      rw [hp] at hn
      cases hn
    · rw [if_neg hp, if_neg hquote]
      exact start_of_plain h

/-- No part of a plain text is inside a literal or a comment. -/
theorem quiet_scan {s : List Char} (h : ∀ c ∈ s, isPlain c = true) :
    ∀ {m : Mode}, m.Quiet → (scan m s).2.Quiet := by
  induction s with
  | nil => intro m hm; exact hm
  | cons c s ih =>
      intro m hm
      rw [scan_cons]
      exact ih (fun c' hc' => h c' (List.mem_cons_of_mem _ hc'))
        (Mode.advance_of_plain hm (h c (List.mem_cons_self ..))).1

/-- The characters of a word: letters, digits, `_` and `$`. -/
theorem toNat_of_isIdentifierPart {c : Char} (h : isIdentifierPart c = true) :
    (65 ≤ c.toNat ∧ c.toNat ≤ 90) ∨ (97 ≤ c.toNat ∧ c.toNat ≤ 122)
      ∨ (48 ≤ c.toNat ∧ c.toNat ≤ 57) ∨ c.toNat = 95 ∨ c.toNat = 36 := by
  change (((decide (c.val ≥ 'A'.val ∧ c.val ≤ 'Z'.val)
    || (decide (c.val ≥ 'a'.val) && decide (c.val ≤ 'z'.val)))
    || (decide (c.val ≥ '0'.val) && decide (c.val ≤ '9'.val)))
    || c == '_' || c == '$') = true at h
  simp only [Bool.or_eq_true, Bool.and_eq_true, decide_eq_true_eq, beq_iff_eq,
    ge_iff_le, UInt32.le_iff_toNat_le, ← Char.toNat_inj] at h
  change ((((65 ≤ c.toNat ∧ c.toNat ≤ 90) ∨ (97 ≤ c.toNat ∧ c.toNat ≤ 122))
    ∨ (48 ≤ c.toNat ∧ c.toNat ≤ 57)) ∨ c.toNat = 95) ∨ c.toNat = 36 at h
  omega

theorem isIdentifierPart_of_isBlank {b : Char} (h : Text.isBlank b = true) :
    isIdentifierPart b = false := by
  cases hpart : isIdentifierPart b with
  | false => rfl
  | true =>
      have hrange := toNat_of_isIdentifierPart hpart
      simp only [Text.isBlank, Bool.or_eq_true, Bool.and_eq_true,
        decide_eq_true_eq, beq_iff_eq] at h
      omega

/-- A blank completes a word, and otherwise nothing. -/
theorem Mode.advance_of_blank {m : Mode} (hm : m.Quiet) {b : Char}
    (hb : Text.isBlank b = true) : m.advance b = (m.finish, .between) := by
  rcases hm with rfl | ⟨text, rfl⟩
  · exact start_of_blank hb
  · have hquote : ¬(b = '"' ∧ text = "unicode".toList) := by
      rintro ⟨rfl, -⟩
      revert hb
      decide
    rw [advance_word, if_neg (by rw [isIdentifierPart_of_isBlank hb]; decide),
      if_neg hquote, start_of_blank hb]
    rfl

/-- A plain text has tokens of its own once it is settled. -/
theorem Plain.settles {s : String} (h : Plain s) :
    ∃ ts, Settles s.toList ts := by
  refine ⟨(scan .between s.toList).1 ++ (scan .between s.toList).2.finish, ?_⟩
  intro b hb
  unfold Reads
  rw [scan_append, scan_singleton,
    Mode.advance_of_blank (quiet_scan h (.inl rfl)) hb]

/-- No literal is complete with its first character. -/
theorem Mode.literals_start (c : Char) :
    (start c).1.filterMap Token.literal? = [] := by
  unfold start
  split
  · rfl
  split
  · rfl
  split
  · rfl
  split <;> rfl

/-- A plain character completes no literal. -/
theorem Mode.literals_advance {m : Mode} (hm : m.Quiet) {c : Char}
    (h : isPlain c = true) :
    (m.advance c).1.filterMap Token.literal? = [] := by
  rcases hm with rfl | ⟨text, rfl⟩
  · exact literals_start c
  · have hquote : ¬(c = '"' ∧ text = "unicode".toList) := by
      rintro ⟨rfl, -⟩
      cases h
    rw [advance_word]
    by_cases hpart : isIdentifierPart c = true
    · rw [if_pos hpart]
      rfl
    · rw [if_neg hpart, if_neg hquote]
      exact literals_start c

/-- No token of a plain text is a literal. -/
theorem literals_scan {s : List Char} (h : ∀ c ∈ s, isPlain c = true) :
    ∀ {m : Mode}, m.Quiet → (scan m s).1.filterMap Token.literal? = [] := by
  induction s with
  | nil => intro m hm; rfl
  | cons c s ih =>
      intro m hm
      have hc := h c (List.mem_cons_self ..)
      rw [scan_cons, List.filterMap_append, Mode.literals_advance hm hc,
        ih (fun c' hc' => h c' (List.mem_cons_of_mem _ hc'))
          (Mode.advance_of_plain hm hc).1]
      rfl

/-- There is no literal in a plain text. -/
theorem Plain.literalsOf {s : String} (h : Plain s) : literalsOf s = [] := by
  have hscan := literals_scan h (m := .between) (.inl rfl)
  have hquiet : (scan .between s.toList).2.Quiet := quiet_scan h (.inl rfl)
  unfold Solidity.literalsOf tokens
  rw [List.filterMap_append, hscan]
  rcases hquiet with hmode | ⟨text, hmode⟩
  · rw [hmode]
    rfl
  · rw [hmode]
    rfl

/-- A plain text that ends in a character of no word is complete. -/
theorem reads_of_plain {s : List Char} {c : Char}
    (h : ∀ x ∈ s ++ [c], isPlain x = true) (hc : isIdentifierPart c = false) :
    ∃ ts, Reads (s ++ [c]) ts := by
  have hquiet : (scan .between s).2.Quiet :=
    quiet_scan (fun x hx => h x (List.mem_append_left _ hx)) (.inl rfl)
  have hlast := (Mode.advance_of_plain hquiet
    (h c (List.mem_append_right _ (List.mem_singleton_self _)))).2 hc
  refine ⟨(scan .between (s ++ [c])).1, ?_⟩
  unfold Reads
  rw [scan_append, scan_singleton, hlast]

-- =============================================================== literals

/-- A character that neither ends a literal nor starts an escape. -/
def isInner (c : Char) : Bool := c != '"' && c != '\\'

/-- What cannot end a literal belongs to it. -/
theorem scan_inner (text : List Char) {s : List Char}
    (h : ∀ c ∈ s, isInner c = true) :
    scan (.literal text) s = ([], .literal (text ++ s)) := by
  induction s generalizing text with
  | nil => rw [List.append_nil, scan_nil]
  | cons c s ih =>
      have hc := h c (List.mem_cons_self ..)
      simp only [isInner, Bool.and_eq_true, bne_iff_ne, ne_eq] at hc
      rw [scan_cons, Mode.advance_literal, if_neg hc.1, if_neg hc.2,
        ih _ fun c' hc' => h c' (List.mem_cons_of_mem _ hc'),
        List.append_assoc]
      rfl

/-- Inner characters between quotes are one literal. -/
theorem reads_quoted {s : List Char} (h : ∀ c ∈ s, isInner c = true) :
    Reads ('"' :: s ++ ['"']) [.literal ('"' :: s ++ ['"'])] := by
  have hquote : scan .between ['"'] = ([], .literal ['"']) := by decide
  have hsplit : '"' :: s ++ ['"'] = ['"'] ++ s ++ ['"'] := rfl
  unfold Reads
  rw [hsplit, scan_append, scan_append, hquote, scan_inner _ h, scan_singleton]
  rfl

/-- Inside a literal, an escape belongs to it, whatever it stands for. -/
theorem scan_escape (text : List Char) (c : Char) {s : List Char}
    (h : ∀ x ∈ s, isInner x = true) :
    scan (.literal text) ('\\' :: c :: s)
      = ([], .literal (text ++ '\\' :: c :: s)) := by
  rw [scan_cons, scan_cons]
  show ([] ++ ([] ++ (scan (.literal (text ++ ['\\'] ++ [c])) s).1),
    (scan (.literal (text ++ ['\\'] ++ [c])) s).2) = _
  rw [scan_inner _ h]
  simp only [List.append_assoc, List.nil_append, List.cons_append]

theorem isInner_hexFixed (width n : Nat) :
    ∀ x ∈ Text.hexFixed width n, isInner x = true := by
  intro x hx
  obtain ⟨d, hd, rfl⟩ := Text.mem_hexFixed hx
  have hrange := Text.toNat_hexDigit d hd
  unfold isInner
  rw [Bool.and_eq_true, bne_iff_ne, bne_iff_ne]
  refine ⟨?_, ?_⟩ <;>
    · intro heq
      rw [heq] at hrange
      revert hrange
      decide

/-- An encoded character stays inside the literal. -/
theorem scan_encodeChar (text : List Char) (c : Char) :
    scan (.literal text) (Literal.encodeChar c)
      = ([], .literal (text ++ Literal.encodeChar c)) := by
  unfold Literal.encodeChar
  split
  · exact scan_escape text '"' (by simp)
  next hquote =>
  split
  · exact scan_escape text '\\' (by simp)
  next hslash =>
  split
  · exact scan_escape text 'n' (by simp)
  split
  · exact scan_escape text 'r' (by simp)
  split
  · exact scan_escape text 't' (by simp)
  split
  · exact scan_escape text 'x' (isInner_hexFixed 2 c.toNat)
  split
  · exact scan_escape text 'u' (isInner_hexFixed 4 c.toNat)
  · refine scan_inner text fun x hx => ?_
    rw [List.mem_singleton.1 hx]
    simp [isInner, hquote, hslash]

/-- An encoded string does not end the literal it stands in. -/
theorem scan_encodeBody (text s : List Char) :
    scan (.literal text) (Literal.encodeBody s)
      = ([], .literal (text ++ Literal.encodeBody s)) := by
  induction s generalizing text with
  | nil => rw [Literal.encodeBody_nil, List.append_nil, scan_nil]
  | cons c s ih =>
      rw [Literal.encodeBody_cons, scan_append, scan_encodeChar, ih,
        List.append_assoc]
      rfl

/-- A literal is one token, and complete. -/
theorem reads_encode (s : List Char) :
    Reads (Literal.encode s) [.literal (Literal.encode s)] := by
  have hmarker : scan .between (Literal.marker s ++ ['"'])
      = ([], .literal (Literal.marker s ++ ['"'])) := by
    unfold Literal.marker
    split <;> decide
  have hsplit : Literal.encode s
      = Literal.marker s ++ ['"'] ++ Literal.encodeBody s ++ ['"'] := by
    simp [Literal.encode]
  unfold Reads
  rw [hsplit, scan_append, scan_append, hmarker, scan_encodeBody,
    scan_singleton]
  rfl

-- =============================================================== comments

/-- A comment goes on to the end of its line. -/
theorem scan_comment (text : List Char) {s : List Char} (h : '\n' ∉ s) :
    scan (.comment text) s = ([], .comment (text ++ s)) := by
  induction s generalizing text with
  | nil => rw [List.append_nil, scan_nil]
  | cons c s ih =>
      rw [List.mem_cons, not_or] at h
      obtain ⟨hc, hs⟩ := h
      rw [scan_cons, Mode.advance_comment,
        if_neg fun heq => hc heq.symm, ih _ hs, List.append_assoc]
      rfl

/-- A comment is one token once its line ends. -/
theorem reads_comment {s : List Char} (h : '\n' ∉ s) :
    Reads ('/' :: '/' :: s ++ ['\n']) [.comment ('/' :: '/' :: s)] := by
  have hstart : scan .between ['/', '/']
      = ([], .comment ['/', '/']) := by decide
  have hsplit : '/' :: '/' :: s ++ ['\n'] = ['/', '/'] ++ s ++ ['\n'] := rfl
  unfold Reads
  rw [hsplit, scan_append, scan_append, hstart, scan_comment _ h,
    scan_singleton]
  rfl

-- ================================================================= words

/-- A word goes on as long as its characters are parts of identifiers. -/
theorem scan_word (text : List Char) {s : List Char}
    (h : ∀ c ∈ s, isIdentifierPart c = true) :
    scan (.word text) s = ([], .word (text ++ s)) := by
  induction s generalizing text with
  | nil => rw [List.append_nil, scan_nil]
  | cons c s ih =>
      rw [scan_cons, Mode.advance_word, if_pos (h c (List.mem_cons_self ..)),
        ih _ fun c' hc' => h c' (List.mem_cons_of_mem _ hc'),
        List.append_assoc]
      rfl

theorem Mode.start_of_isIdentifierPart {c : Char}
    (h : isIdentifierPart c = true) : start c = ([], .word [c]) := by
  have hblank : ¬Text.isBlank c = true := by
    intro hb
    rw [isIdentifierPart_of_isBlank hb] at h
    cases h
  have hslash : c ≠ '/' := by
    rintro rfl
    revert h
    decide
  have hquote : c ≠ '"' := by
    rintro rfl
    revert h
    decide
  rw [start, if_neg hblank, if_neg hslash, if_neg hquote, if_pos h]

/-- An identifier is one word. -/
theorem settles_identifier {name : String} (h : isIdentifier name = true) :
    Settles name.toList [.word name.toList] := by
  obtain ⟨hne, hall⟩ := all_isIdentifierPart h
  rw [List.all_eq_true] at hall
  intro b hb
  cases hs : name.toList with
  | nil => exact absurd hs hne
  | cons c s =>
      rw [hs] at hall
      have hstart := Mode.start_of_isIdentifierPart
          (hall c (List.mem_cons_self ..))
      have hscan : scan .between (c :: s) = ([], .word (c :: s)) := by
        rw [scan_cons]
        show ((Mode.start c).1 ++ (scan (Mode.start c).2 s).1,
          (scan (Mode.start c).2 s).2) = _
        rw [hstart, scan_word _ fun x hx => hall x (List.mem_cons_of_mem _ hx)]
        rfl
      unfold Reads
      rw [scan_append, hscan, scan_singleton,
        Mode.advance_of_blank (.inr ⟨_, rfl⟩) hb]
      rfl

end TokenForge.Solidity
