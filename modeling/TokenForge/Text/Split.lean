/-
Cutting a text at a character. `splitAt` cuts at every occurrence and keeps
the empty pieces, so joining the pieces gives the text back; `cutFirst` and
`cutLast?` cut once, and the separator stays at the head of the second part
or is dropped. `lines` cuts after every line feed and keeps it with its line.
-/
namespace TokenForge.Text

-- ======================================================= cutting everywhere

/-- The pieces of a text between the occurrences of a separator. There is
always one piece more than there are separators. -/
def splitAt (sep : Char) : List Char → List (List Char)
  | [] => [[]]
  | c :: rest =>
    if c = sep then [] :: splitAt sep rest
    else
      match splitAt sep rest with
      | [] => [[c]]
      | piece :: pieces => (c :: piece) :: pieces

theorem splitAt_nil (sep : Char) : splitAt sep [] = [[]] := rfl

theorem splitAt_sep (sep : Char) (rest : List Char) :
    splitAt sep (sep :: rest) = [] :: splitAt sep rest := by
  simp [splitAt]

/-- The lines of a text, each with the line feed that ends it. Only the last
line may lack one, and an empty text has no line. -/
def lines : List Char → List (List Char)
  | [] => []
  | c :: rest =>
    if c = '\n' then [c] :: lines rest
    else
      match lines rest with
      | [] => [[c]]
      | line :: more => (c :: line) :: more

/-- Nothing is lost between the lines. -/
theorem flatten_lines (s : List Char) : (lines s).flatten = s := by
  induction s with
  | nil => rfl
  | cons c rest ih =>
    unfold lines
    split
    · simp [ih]
    · split <;> simp_all

-- ============================================================ cutting once

/-- A text up to the first occurrence of a separator, and from it on. Without
the separator the second part is empty. -/
def cutFirst (sep : Char) (s : List Char) : List Char × List Char :=
  (s.takeWhile (· != sep), s.dropWhile (· != sep))

/-- The two parts are the text. -/
theorem cutFirst_append (sep : Char) (s : List Char) :
    (cutFirst sep s).1 ++ (cutFirst sep s).2 = s :=
  List.takeWhile_append_dropWhile

/-- What stands before and after the last occurrence of a separator. -/
def cutLast? (sep : Char) : List Char → Option (List Char × List Char)
  | [] => none
  | c :: rest =>
    match cutLast? sep rest with
    | some (before, after) => some (c :: before, after)
    | none => if c = sep then some ([], rest) else none

/-- The two parts and the separator between them are the text. -/
theorem eq_of_cutLast? {sep : Char} {s before after : List Char}
    (h : cutLast? sep s = some (before, after)) :
    s = before ++ sep :: after := by
  induction s generalizing before with
  | nil => simp [cutLast?] at h
  | cons c rest ih =>
    unfold cutLast? at h
    split at h
    · next b a hb =>
      cases h
      rw [ih hb]
      rfl
    · split at h
      · next hc =>
        cases h
        rw [hc]
        rfl
      · cases h

-- ========================================================== leading texts

/-- The rest of a text after a given beginning, if it begins with it. -/
def stripStart? : List Char → List Char → Option (List Char)
  | [], s => some s
  | _ :: _, [] => none
  | a :: lead, c :: s => if a = c then stripStart? lead s else none

theorem stripStart?_append (lead s : List Char) :
    stripStart? lead (lead ++ s) = some s := by
  induction lead with
  | nil => rfl
  | cons a lead ih => simp [stripStart?, ih]

theorem eq_of_stripStart? {lead s rest : List Char}
    (h : stripStart? lead s = some rest) :
    s = lead ++ rest := by
  induction lead generalizing s with
  | nil => cases s <;> simp_all [stripStart?]
  | cons a lead ih =>
    cases s with
    | nil => simp [stripStart?] at h
    | cons c s =>
      simp only [stripStart?] at h
      split at h
      · next hac => rw [hac, ih h]; rfl
      · cases h

theorem stripStart?_eq_some_iff {lead s rest : List Char} :
    stripStart? lead s = some rest ↔ s = lead ++ rest :=
  ⟨eq_of_stripStart?, fun h => h ▸ stripStart?_append lead rest⟩

/-- A text up to the first place where `mark` starts. -/
def takeUntil (mark : List Char) : List Char → List Char
  | [] => []
  | c :: rest =>
      if mark.isPrefixOf (c :: rest) then [] else c :: takeUntil mark rest

-- =========================================================== counting bytes

/-- The number of bytes of a text in UTF-8. -/
def byteLength : List Char → Nat
  | [] => 0
  | c :: s => c.utf8Size + byteLength s

theorem byteLength_nil : byteLength [] = 0 := rfl

theorem byteLength_cons (c : Char) (s : List Char) :
    byteLength (c :: s) = c.utf8Size + byteLength s := rfl

theorem byteLength_append (s t : List Char) :
    byteLength (s ++ t) = byteLength s + byteLength t := by
  induction s with
  | nil => simp [byteLength_nil]
  | cons c s ih => rw [List.cons_append, byteLength_cons, byteLength_cons, ih,
    Nat.add_assoc]

end TokenForge.Text
