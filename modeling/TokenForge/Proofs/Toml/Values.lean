/-
Values in front of a line end: keys, bare words, arrays and inline tables. Keys
and words are runs of characters or strings, so they end at the line end at the
latest.

The three readers of nested values call each other, and each call has one turn
less. Their lemmas are the fields of one structure (`ReadsOn`), one for each
reader, and the induction is on the turns (`readsOn`): each reader finds the
same on both texts if the readers with one turn less do. Trivia in front of an
item is passed over as before, because an item starts with a character.
-/
import TokenForge.Proofs.Toml.Strings

namespace TokenForge.Toml

variable {t : List Char}

-- ================================================================== keys

/-- A key that reads before the end of a line reads in
front of what follows. -/
theorem readKey_append (ht : AtLineEnd t) {key : String} {s r : List Char}
    (h : readKey s = some (key, r)) :
    readKey (s ++ t) = some (key, r ++ t) := by
  have hspan := span_append_of_head (t := t) (p := isBareKeyPart)
      (ht.head (by decide) (by decide))
  unfold readKey at h
  split at h
  next s =>
      obtain ⟨⟨text, rest⟩, htext, hres⟩ := Option.bind_eq_some_iff.1 h
      cases hres
      exact Option.bind_eq_some_iff.2 ⟨_, readQuoted_append htext, rfl⟩
  next s =>
      obtain ⟨⟨text, rest⟩, htext, hres⟩ := Option.bind_eq_some_iff.1 h
      cases hres
      exact Option.bind_eq_some_iff.2 ⟨_, readLiteral_append htext, rfl⟩
  next hquote hmark =>
      split at h
      next => cases h
      next text rest hbare hcut =>
          cases h
          cases s with
          | nil => exact (hbare (Prod.mk.inj hcut).1.symm).elim
          | cons c s =>
              unfold readKey
              split
              next heq =>
                exact absurd (congrArg (· :: s) (List.cons.inj heq).1)
                  (hquote s)
              next heq =>
                exact absurd (congrArg (· :: s) (List.cons.inj heq).1)
                  (hmark s)
              next =>
                  rw [hspan, hcut]
                  split
                  next heq => exact (hbare (Prod.mk.inj heq).1).elim
                  next heq =>
                      cases heq
                      rfl

/-- What follows the last key and its spaces is left, and it
starts with no dot. -/
theorem readPathFrom_append (ht : AtLineEnd t) {turns turns' : Nat}
    {path : List String} {s r : List Char} (hturns : turns ≤ turns')
    (h : readPathFrom turns s = some (path, r)) :
    readPathFrom turns' (s ++ t) = some (path, r ++ t) := by
  induction turns generalizing turns' s path with
  | zero => cases h
  | succ turns ih =>
      obtain ⟨turns', rfl⟩ : ∃ n, turns' = n + 1 := ⟨turns' - 1, by omega⟩
      unfold readPathFrom at h ⊢
      obtain ⟨⟨key, rest⟩, hkey, h⟩ := Option.bind_eq_some_iff.1 h
      rw [skipSpaces_append ht]
      refine Option.bind_eq_some_iff.2 ⟨_, readKey_append ht hkey, ?_⟩
      dsimp only at h ⊢
      rw [skipSpaces_append ht]
      split at h
      next rest' heq =>
          obtain ⟨⟨path', r'⟩, hpath, hres⟩ := Option.bind_eq_some_iff.1 h
          cases hres
          rw [heq]
          exact Option.bind_eq_some_iff.2 ⟨_, ih (by omega) hpath, rfl⟩
      next hdot =>
          cases h
          split
          next heq =>
              obtain ⟨rest', hrest, -⟩ :=
                ht.eq_cons_of_append heq (by decide) (by decide)
              exact (hdot rest' hrest).elim
          next => rfl

/-- So does a path of keys. -/
theorem readPath_append (ht : AtLineEnd t) {path : List String}
    {s r : List Char} (h : readPath s = some (path, r)) :
    readPath (s ++ t) = some (path, r ++ t) := by
  obtain ⟨⟨path', rest⟩, hpath, h⟩ := Option.bind_eq_some_iff.1 h
  have hlength : s.length + 1 ≤ (s ++ t).length + 1 := by
    rw [List.length_append]
    omega
  refine Option.bind_eq_some_iff.2
    ⟨_, readPathFrom_append ht hlength hpath, ?_⟩
  dsimp only at h ⊢
  split at h
  next hkeys =>
      cases h
      rw [if_pos hkeys]
  next => cases h

/-- What follows a sign is read on. -/
theorem afterChar_append {c : Char} {s r : List Char}
    (h : afterChar c s = some r) :
    afterChar c (s ++ t) = some (r ++ t) := by
  cases s with
  | nil => cases h
  | cons a s =>
      unfold afterChar at h ⊢
      rw [List.cons_append]
      dsimp only at h ⊢
      split at h
      next ha =>
          cases h
          rw [if_pos ha]
      next => cases h

theorem afterChar_starts {c : Char} (hc : c ≠ '\r') {s r : List Char}
    (h : afterChar c s = some r) : Starts s := by
  cases s with
  | nil => cases h
  | cons a s =>
      unfold afterChar at h
      dsimp only at h
      split at h
      next ha => exact ⟨a, s, rfl, ha ▸ hc⟩
      next => cases h

-- ================================================================== words

/-- A word ends with its line; a time goes on with a date
only after one space. -/
theorem cutWord_append (ht : AtLineEnd t) (s : List Char) :
    cutWord (s ++ t) = ((cutWord s).1, (cutWord s).2 ++ t) := by
  have hspan := span_append_of_head (t := t) (p := isWordPart)
      (ht.head (by decide) (by decide))
  unfold cutWord
  rw [hspan]
  rcases hcut : s.span isWordPart with ⟨word, rest⟩
  match rest with
  | [] =>
      obtain ⟨d, t', rfl, hd | hd⟩ := ht.cases <;> subst hd <;> rfl
  | [c] =>
      by_cases hc : c = ' '
      · subst hc
        obtain ⟨d, t', rfl, hd | hd⟩ := ht.cases <;> subst hd <;> simp
      · simp [hc]
  | c :: d :: rest =>
      by_cases hc : c = ' '
      · subst hc
        have htime := hspan (d :: rest)
        rw [List.cons_append] at htime
        by_cases hdate : (isDate word && d.isDigit) = true
        · simp only [List.cons_append, hdate, if_true, htime]
        · simp only [List.cons_append, hdate, Bool.false_eq_true, if_false]
      · simp [hc]

/-- So is a word that stands for a value. -/
theorem readWord_append (ht : AtLineEnd t) {v : Value} {s r : List Char}
    (h : readWord s = some (v, r)) : readWord (s ++ t) = some (v, r ++ t) := by
  unfold readWord at h ⊢
  rw [cutWord_append ht]
  rcases hcut : cutWord s with ⟨word, rest⟩
  rw [hcut] at h
  obtain ⟨w, hw, hres⟩ := Option.map_eq_some_iff.1 h
  cases hres
  exact Option.map_eq_some_iff.2 ⟨v, hw, rfl⟩

-- ========================================================== nested values

/-- So is a value in quotes. -/
theorem readText_append (ht : AtLineEnd t) {v : Value} {s r : List Char}
    (h : readText s = some (v, r)) : readText (s ++ t) = some (v, r ++ t) := by
  obtain ⟨⟨text, rest⟩, htext, hres⟩ := Option.bind_eq_some_iff.1 h
  cases hres
  exact Option.bind_eq_some_iff.2 ⟨_, readString_append ht htext, rfl⟩

/-- No word is empty. -/
theorem readWord_starts {v : Value} {s r : List Char}
    (h : readWord s = some (v, r)) :
    Starts s := by
  cases s with
  | nil => cases h
  | cons c s =>
      refine ⟨c, s, rfl, ?_⟩
      rintro rfl
      cases h

/-- A value starts with a character of its own, and not
with the end of a line. -/
theorem readValueFrom_starts {turns depth : Nat} {v : Value} {s r : List Char}
    (h : readValueFrom turns depth s = some (v, r)) : Starts s := by
  cases turns with
  | zero => cases h
  | succ turns =>
      unfold readValueFrom at h
      split at h
      next => exact ⟨_, _, rfl, by decide⟩
      next => exact ⟨_, _, rfl, by decide⟩
      next => exact ⟨_, _, rfl, by decide⟩
      next => exact ⟨_, _, rfl, by decide⟩
      next => exact readWord_starts h

theorem readItems_starts {turns depth : Nat} {vs : List Value}
    {s r : List Char} (h : readItems turns depth s = some (vs, r)) :
    Starts s := by
  cases turns with
  | zero => cases h
  | succ turns =>
      unfold readItems at h
      split at h
      next => exact ⟨_, _, rfl, by decide⟩
      next =>
          obtain ⟨⟨v, rest⟩, hv, -⟩ := Option.bind_eq_some_iff.1 h
          exact readValueFrom_starts hv

theorem readPath_starts {path : List String} {s r : List Char}
    (h : readPath s = some (path, r)) :
    Starts s := by
  cases s with
  | nil => cases h
  | cons c s =>
      refine ⟨c, s, rfl, ?_⟩
      rintro rfl
      cases h

/-- The fields of an inline table start so too. -/
theorem readFields_starts {turns depth : Nat} {es es' : Entries}
    {s r : List Char} (h : readFields turns depth s es = some (es', r)) :
    Starts s := by
  cases turns with
  | zero => cases h
  | succ turns =>
      unfold readFields at h
      split at h
      next => exact ⟨_, _, rfl, by decide⟩
      next =>
          obtain ⟨⟨path, rest⟩, hpath, -⟩ := Option.bind_eq_some_iff.1 h
          exact readPath_starts hpath

/-- With these turns and those, the readers of nested values read the same,
without a line end behind and with one. -/
structure ReadsOn (t : List Char) (turns turns' : Nat) : Prop where
  value : ∀ {depth s v r}, readValueFrom turns depth s = some (v, r) →
    readValueFrom turns' depth (s ++ t) = some (v, r ++ t)
  items : ∀ {depth s vs r}, readItems turns depth s = some (vs, r) →
    readItems turns' depth (s ++ t) = some (vs, r ++ t)
  fields : ∀ {depth s es es' r}, readFields turns depth s es = some (es', r) →
    readFields turns' depth (s ++ t) es = some (es', r ++ t)

/-- A value reads on if what it is made of does, at fewer turns. -/
theorem readValueFrom_succ (ht : AtLineEnd t) {turns turns' : Nat}
    (h : ReadsOn t turns turns') {depth : Nat} {s : List Char} {v : Value}
    {r : List Char} (hread : readValueFrom (turns + 1) depth s = some (v, r)) :
    readValueFrom (turns' + 1) depth (s ++ t) = some (v, r ++ t) := by
  unfold readValueFrom at hread
  split at hread
  next inner =>
      cases depth with
      | zero => cases hread
      | succ depth =>
          obtain ⟨⟨vs, rest⟩, hvs, hres⟩ := Option.bind_eq_some_iff.1 hread
          cases hres
          rw [List.cons_append]
          refine Option.bind_eq_some_iff.2 ⟨(vs, r ++ t), ?_, rfl⟩
          rw [skipTrivia_append ht (readItems_starts hvs)]
          exact h.items hvs
  next inner =>
      cases depth with
      | zero => cases hread
      | succ depth =>
          obtain ⟨⟨es, rest⟩, hes, hres⟩ := Option.bind_eq_some_iff.1 hread
          cases hres
          rw [List.cons_append]
          refine Option.bind_eq_some_iff.2 ⟨(es, r ++ t), ?_, rfl⟩
          rw [skipTrivia_append ht (readFields_starts hes)]
          exact h.fields hes
  next => exact readText_append ht hread
  next => exact readText_append ht hread
  next hbracket hbrace hquote hmark =>
      obtain ⟨c, s, rfl, -⟩ := readWord_starts hread
      unfold readValueFrom
      split
      next heq =>
        exact absurd (congrArg (· :: s) (List.cons.inj heq).1) (hbracket s)
      next heq =>
        exact absurd (congrArg (· :: s) (List.cons.inj heq).1) (hbrace s)
      next heq =>
        exact absurd (congrArg (· :: s) (List.cons.inj heq).1) (hquote s)
      next heq =>
        exact absurd (congrArg (· :: s) (List.cons.inj heq).1) (hmark s)
      next => exact readWord_append ht hread

/-- So do the items of an array. -/
theorem readItems_succ (ht : AtLineEnd t) {turns turns' : Nat}
    (h : ReadsOn t turns turns') {depth : Nat} {s : List Char}
    {vs : List Value} {r : List Char}
    (hread : readItems (turns + 1) depth s = some (vs, r)) :
    readItems (turns' + 1) depth (s ++ t) = some (vs, r ++ t) := by
  unfold readItems at hread
  split at hread
  next =>
      cases hread
      rfl
  next hbracket =>
      obtain ⟨⟨v, rest⟩, hv, hnext⟩ := Option.bind_eq_some_iff.1 hread
      obtain ⟨c, s, rfl, -⟩ := readValueFrom_starts hv
      unfold readItems
      split
      next heq =>
        exact absurd (congrArg (· :: s) (List.cons.inj heq).1) (hbracket s)
      next =>
          refine Option.bind_eq_some_iff.2 ⟨_, h.value hv, ?_⟩
          dsimp only at hnext ⊢
          split at hnext
          next rest' heq =>
              obtain ⟨⟨vs', r'⟩, hvs, hres⟩ := Option.bind_eq_some_iff.1 hnext
              cases hres
              rw [skipTrivia_append ht ⟨_, _, heq, by decide⟩, heq,
                List.cons_append]
              refine Option.bind_eq_some_iff.2 ⟨(vs', r' ++ t), ?_, rfl⟩
              rw [skipTrivia_append ht (readItems_starts hvs)]
              exact h.items hvs
          next rest' heq =>
              cases hnext
              rw [skipTrivia_append ht ⟨_, _, heq, by decide⟩, heq]
              rfl
          next => cases hnext

/-- So do the fields of an inline table. -/
theorem readFields_succ (ht : AtLineEnd t) {turns turns' : Nat}
    (h : ReadsOn t turns turns') {depth : Nat} {s : List Char}
    {es es' : Entries} {r : List Char}
    (hread : readFields (turns + 1) depth s es = some (es', r)) :
    readFields (turns' + 1) depth (s ++ t) es = some (es', r ++ t) := by
  unfold readFields at hread
  split at hread
  next =>
      cases hread
      rfl
  next hbrace =>
      obtain ⟨⟨path, rest⟩, hpath, hpaths⟩ := Option.bind_eq_some_iff.1 hread
      obtain ⟨rest', hsign, hvalue⟩ := Option.bind_eq_some_iff.1 hpaths
      obtain ⟨⟨v, rest''⟩, hv, hentries⟩ := Option.bind_eq_some_iff.1 hvalue
      obtain ⟨es'', hes, hnext⟩ := Option.bind_eq_some_iff.1 hentries
      obtain ⟨c, s, rfl, -⟩ := readPath_starts hpath
      unfold readFields
      split
      next heq =>
        exact absurd (congrArg (· :: s) (List.cons.inj heq).1) (hbrace s)
      next =>
          refine Option.bind_eq_some_iff.2 ⟨_, readPath_append ht hpath, ?_⟩
          dsimp only
          rw [skipTrivia_append ht (afterChar_starts (by decide) hsign)]
          refine Option.bind_eq_some_iff.2 ⟨_, afterChar_append hsign, ?_⟩
          rw [skipTrivia_append ht (readValueFrom_starts hv)]
          refine Option.bind_eq_some_iff.2 ⟨_, h.value hv, ?_⟩
          refine Option.bind_eq_some_iff.2 ⟨_, hes, ?_⟩
          dsimp only at hnext ⊢
          split at hnext
          next rest' heq =>
              rw [skipTrivia_append ht ⟨_, _, heq, by decide⟩, heq]
              show readFields turns' depth (skipTrivia (rest' ++ t)) es'' = _
              rw [skipTrivia_append ht (readFields_starts hnext)]
              exact h.fields hnext
          next rest' heq =>
              cases hnext
              rw [skipTrivia_append ht ⟨_, _, heq, by decide⟩, heq]
              rfl
          next => cases hnext

/-- Values, items and fields read on, by the turns they take. -/
theorem readsOn (ht : AtLineEnd t) {turns turns' : Nat}
    (hturns : turns ≤ turns') :
    ReadsOn t turns turns' := by
  induction turns generalizing turns' with
  | zero =>
      exact ⟨fun h => (by cases h), fun h => (by cases h),
        fun h => (by cases h)⟩
  | succ turns ih =>
      obtain ⟨turns', rfl⟩ : ∃ n, turns' = n + 1 := ⟨turns' - 1, by omega⟩
      have h := @ih turns' (by omega)
      exact ⟨readValueFrom_succ ht h, readItems_succ ht h,
        readFields_succ ht h⟩

/-- A value that reads up to the end of a line reads in
front of what follows. -/
theorem readValue_append (ht : AtLineEnd t) {s : List Char} {v : Value}
    {r : List Char} (h : readValue s = some (v, r)) :
    readValue (s ++ t) = some (v, r ++ t) := by
  refine (readsOn ht ?_).value h
  rw [List.length_append]
  omega

end TokenForge.Toml
