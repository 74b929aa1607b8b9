/-
A record depends on the values of its known keys alone. Two documents of lines
with different keys have the same outcome, down to the words of a report, if
one has the lines of the other in any order and with them only lines that say
nothing new (`Idle`): a key that no field has, or a field's default written
out where the field was absent.

Only the place of a report depends on more, so outcomes are compared without
it (`SameOutcome`). The argument is in three steps: what a document holds is
what its lines assign (`read_document`), decoding asks for known keys only
(`Decode.ofEntries_congr`), and validation looks at the document for the place
only (`sameOutcome_validate`). Reading a document also ends at a number that
64 bits do not hold, before or after the standard is known; no idle line holds
one, and the standard stays where it is (`readable_iff_of_idle`).
-/
import Mathlib
import TokenForge.Options.Validation
import TokenForge.Proofs.Options.Fields
import TokenForge.Proofs.Toml.Lines

namespace TokenForge

open Encode (fieldKeys)
open Toml (KeyLine Layout)

-- ================================================================ outcomes

/-- A report without the place that it marks. -/
def Diagnostic.unmarked : Diagnostic → Diagnostic
  | .unreadable path => .unreadable path
  | .notToml filename => .notToml filename
  | .notRecord filename detail _ => .notRecord filename detail none
  | .invalid filename message _ => .invalid filename message none
  | .invalidIdentifier filename key name reason _ =>
    .invalidIdentifier filename key name reason none

/-- The same record, or reports that differ in the places they mark at most. -/
def SameOutcome (a b : Except Diagnostic OptionRecord) : Prop :=
  a.mapError Diagnostic.unmarked = b.mapError Diagnostic.unmarked

namespace Document

/-- The outcome for a record that was decoded: validation looks at the document
for the place it marks only. -/
theorem sameOutcome_validate (r : OptionRecord)
    (text text' filename : String) :
    SameOutcome
      (match r.validate ⟨text, filename⟩ with
        | .error e => .error e
        | .ok () => .ok r)
      (match r.validate ⟨text', filename⟩ with
        | .error e => .error e
        | .ok () => .ok r) := by
  unfold OptionRecord.validate
  cases nameFault? r.name with
  | some fault => rfl
  | none =>
      cases licenseFault? r.common.license with
      | some fault => rfl
      | none => cases r.countsWithoutMinting <;> rfl

/-- The outcome depends on what is decoded. -/
theorem read_congr {text text' : String} {d d' : Toml.Document}
    (filename : String) (hread : Toml.read text.toList = some d)
    (hread' : Toml.read text'.toList = some d')
    (hdecode : Decode.ofEntries d.entries = Decode.ofEntries d'.entries) :
    SameOutcome (read ⟨text, filename⟩) (read ⟨text', filename⟩) := by
  unfold read OptionRecord.ofToml
  rw [hread, hread']
  dsimp only
  rw [hdecode]
  cases Decode.ofEntries d'.entries with
  | error refusal => cases refusal <;> rfl
  | ok r => exact sameOutcome_validate r text text' filename

end Document

-- ============================================================== idle lines

/-- A line that says nothing new: the numbers in its value are within
64 bits, and it stands under a key that no field has, or is what the
absent field is read as. -/
structure Idle (l : KeyLine) : Prop where
  readable : l.value.isReadable = true
  known : l.key ∈ fieldKeys → (l.key, l.value) ∈ Decode.defaultEntries

theorem Idle.of_unknown {l : KeyLine} (hkey : l.key ∉ fieldKeys)
    (hreadable : l.value.isReadable = true) : Idle l :=
  ⟨hreadable, fun h => absurd h hkey⟩

theorem Idle.of_default {l : KeyLine}
    (h : (l.key, l.value) ∈ Decode.defaultEntries) : Idle l := by
  have hvalues : ∀ e ∈ Decode.defaultEntries, e.2.isReadable = true := by
    decide
  exact ⟨hvalues _ h, fun _ => h⟩

section Extension

variable {ls ls' extra : List KeyLine}

/-- The keys of more lines in another order. -/
theorem nodup_keys_of_perm (hkeys : ((extra ++ ls).map (·.key)).Nodup)
    (hperm : ls'.Perm (extra ++ ls)) : (ls'.map (·.key)).Nodup :=
  ((hperm.map _).nodup_iff).2 hkeys

theorem keys_entries (ls : List KeyLine) :
    (ls.map KeyLine.entry).map Prod.fst = ls.map (·.key) :=
  List.map_map

/-- Under a known key idle lines leave what was there, or
write a default out. -/
theorem sameField_of_idle (hkeys : ((extra ++ ls).map (·.key)).Nodup)
    (hperm : ls'.Perm (extra ++ ls)) (hidle : ∀ l ∈ extra, Idle l) :
    ∀ key ∈ fieldKeys,
      Decode.SameField (ls.map KeyLine.entry) (ls'.map KeyLine.entry) key := by
  intro key hkey
  have hdistinct' : ((ls'.map KeyLine.entry).map Prod.fst).Nodup := by
    rw [keys_entries]
    exact nodup_keys_of_perm hkeys hperm
  have hboth : (ls'.map KeyLine.entry).lookup key
      = ((extra.map KeyLine.entry).lookup key).or
        ((ls.map KeyLine.entry).lookup key) := by
    rw [Toml.lookup_perm (hperm.map KeyLine.entry) hdistinct', List.map_append,
      List.lookup_append]
  unfold Decode.SameField
  rw [hboth]
  cases hextra : (extra.map KeyLine.entry).lookup key with
  | none => exact .inl rfl
  | some v =>
      rw [List.map_append, List.nodup_append] at hkeys
      have hmem : (key, v) ∈ extra.map KeyLine.entry := by
        rw [← keys_entries] at hkeys
        exact (Toml.lookup_eq_some_iff_mem hkeys.1 key v).1 hextra
      obtain ⟨l, hl, hentry⟩ := List.mem_map.1 hmem
      obtain ⟨rfl, rfl⟩ := Prod.mk.inj hentry
      have habsent : (ls.map KeyLine.entry).lookup l.key = none := by
        refine Toml.lookup_eq_none_of_not_mem fun hmem => ?_
        rw [keys_entries] at hmem
        exact hkeys.2.2 _ (List.mem_map_of_mem hl) _ hmem rfl
      have hdefault : Decode.defaultEntries.lookup l.key = some l.value :=
        (Toml.lookup_eq_some_iff_mem (by decide) _ _).2
          ((hidle l hl).known hkey)
      exact .inr ⟨habsent, by rw [hdefault]; rfl⟩

/-- What holds of all entries holds of those that were there and of the added
ones. -/
theorem forall_entries_iff (P : String × Toml.Value → Prop)
    (hperm : ls'.Perm (extra ++ ls)) :
    (∀ e ∈ Toml.sortEntries (ls'.map KeyLine.entry), P e)
      ↔ (∀ l ∈ extra, P l.entry)
        ∧ ∀ e ∈ Toml.sortEntries (ls.map KeyLine.entry), P e := by
  simp only [(Toml.sortEntries_perm _).mem_iff, List.forall_mem_map,
    hperm.mem_iff, List.forall_mem_append]

/-- Idle lines can be read, so they leave what can. -/
theorem readable_iff_of_idle (hperm : ls'.Perm (extra ++ ls))
    (hidle : ∀ l ∈ extra, Idle l) (C : String × Toml.Value → Prop) :
    (∀ e ∈ Toml.sortEntries (ls.map KeyLine.entry), C e →
      e.2.isReadable = true)
      ↔ ∀ e ∈ Toml.sortEntries (ls'.map KeyLine.entry),
        C e → e.2.isReadable = true := by
  rw [forall_entries_iff _ hperm]
  exact (and_iff_right fun l hl _ => (hidle l hl).readable).symm

/-- Idle lines among the lines of a document, and any order of them, leave the
outcome. -/
theorem Document.read_idle (filename : String) (y y' : Layout)
    (hkeys : ((extra ++ ls).map (·.key)).Nodup)
    (hperm : ls'.Perm (extra ++ ls)) (hidle : ∀ l ∈ extra, Idle l) :
    SameOutcome (read ⟨y.document ls, filename⟩)
      (read ⟨y'.document ls', filename⟩) := by
  have hkeys' : (ls'.map (·.key)).Nodup := nodup_keys_of_perm hkeys hperm
  have hfields := sameField_of_idle hkeys hperm hidle
  rw [List.map_append, List.nodup_append] at hkeys
  obtain ⟨d, hread, hentries⟩ := Toml.read_document y hkeys.2.1
  obtain ⟨d', hread', hentries'⟩ := Toml.read_document y' hkeys'
  have hsame : ∀ key ∈ fieldKeys,
      Decode.SameField d.entries d'.entries key := by
    intro key hkey
    unfold Decode.SameField
    rw [hentries, hentries',
      Toml.lookup_sortEntries (by rw [keys_entries]; exact hkeys.2.1),
      Toml.lookup_sortEntries (by rw [keys_entries]; exact hkeys')]
    exact hfields key hkey
  have hkind : d.entries.lookup "kind" = d'.entries.lookup "kind" :=
    (hsame "kind" (by decide)).lookup_eq (by rfl)
  refine read_congr filename hread hread' (Decode.ofEntries_congr hsame ?_ ?_)
  · rw [Bool.eq_iff_iff, Toml.entriesReadable_iff, Toml.entriesReadable_iff]
    rw [hentries, hentries'] at hkind ⊢
    simp only [Toml.mem_takeWhile_ne_iff (Toml.pairwise_sortEntries _), hkind,
      and_imp]
    exact readable_iff_of_idle hperm hidle _
  · rw [Bool.eq_iff_iff, Toml.entriesReadable_iff, Toml.entriesReadable_iff,
      hentries, hentries']
    simpa using readable_iff_of_idle hperm hidle fun _ => True

end Extension

-- ============================================================== known keys

/-- Reading lines with different keys has the same outcome after a permutation
of the lines, after one more line with a key that no field has, and after one
more line that writes the default of an absent field out. The document may be
laid out anew each time. The value under the key that no field has may be any
value of TOML, whose numbers 64 bits hold. -/
theorem Document.read_known_keys (filename : String) (y y' : Layout)
    (ls : List KeyLine) (hkeys : (ls.map (·.key)).Nodup) :
    (∀ ls' : List KeyLine, ls'.Perm ls →
        SameOutcome (read ⟨y.document ls, filename⟩)
          (read ⟨y'.document ls', filename⟩))
      ∧ (∀ (before after : List KeyLine) (l : KeyLine), ls = before ++ after →
        l.key ∉ ls.map (·.key) → l.key ∉ fieldKeys →
        l.value.isReadable = true →
        SameOutcome (read ⟨y.document ls, filename⟩)
          (read ⟨y'.document (before ++ l :: after), filename⟩))
      ∧ ∀ (before after : List KeyLine) (l : KeyLine), ls = before ++ after →
        l.key ∉ ls.map (·.key) → (l.key, l.value) ∈ Decode.defaultEntries →
        SameOutcome (read ⟨y.document ls, filename⟩)
          (read ⟨y'.document (before ++ l :: after), filename⟩) := by
  have hinsert : ∀ (before after : List KeyLine) (l : KeyLine),
      ls = before ++ after → l.key ∉ ls.map (·.key) → Idle l →
      SameOutcome (read ⟨y.document ls, filename⟩)
        (read ⟨y'.document (before ++ l :: after), filename⟩) := by
    rintro before after l rfl hnew hidle
    have hmore : (([l] ++ (before ++ after)).map (·.key)).Nodup :=
      List.nodup_cons.2 ⟨hnew, hkeys⟩
    exact read_idle filename y y' hmore List.perm_middle
      (List.forall_mem_singleton.2 hidle)
  refine ⟨fun ls' hperm => ?_,
    fun before after l hls hnew hkey hreadable => ?_,
    fun before after l hls hnew hdefault => ?_⟩
  · have hkeys' : ((([] : List KeyLine) ++ ls).map (·.key)).Nodup := hkeys
    exact read_idle filename y y' hkeys' hperm
      fun l hl => absurd hl List.not_mem_nil
  · exact hinsert before after l hls hnew (.of_unknown hkey hreadable)
  · exact hinsert before after l hls hnew (.of_default hdefault)

/-- The least that a record of a non-fungible token says. -/
def leastLines : List KeyLine :=
  [{ text := "# a token\n  kind = \"ERC721\"", key := "kind",
     value := .string "ERC721", lineEnd := .returnFeed, reads := by cbv },
    { text := "name = \"My\"", key := "name", value := .string "My",
      reads := by cbv },
    { text := "symbol=\"M\" # short", key := "symbol", value := .string "M",
      reads := by cbv }]

/-- A line with a key that no field has. Its value is what a date is handed on
as, but for a number where the date should be. -/
def noteLine : KeyLine :=
  { text := "note = [\n \x7b \"$__toml_private_datetime\" = 1 \x7d]",
    key := "note", value := .array [.table [(Decode.dateKey, .integer 1)]],
    reads := by cbv }

/-- A line that writes a default out. -/
def mintableLine : KeyLine :=
  { text := "mintable = false", key := "mintable", value := .boolean false,
    reads := by cbv }

/-- The report on a document that misses a field says which. -/
theorem Document.read_without_symbol :
    read ⟨Layout.document {} (leastLines.take 2), "solwiz.toml"⟩
      = .error (.notRecord "solwiz.toml" (Fault.missingField "symbol").message
          none) := by
  have hkeys : ((leastLines.take 2).map (·.key)).Nodup := by decide
  obtain ⟨d, hread, hentries⟩ := Toml.read_document {} hkeys
  have hdecode : Decode.ofEntries d.entries
      = .error (.fault (.missingField "symbol") .nowhere) := by
    rw [hentries, Toml.sortEntries, List.mergeSort_of_pairwise (by decide)]
    rfl
  unfold read OptionRecord.ofToml
  rw [hread]
  dsimp only
  rw [hdecode]
  rfl

/-- A document with all it needs, in another order and with a default written
out, and one without a symbol, whose fault stays the same with a note. -/
theorem Document.read_leastLines :
    (leastLines.map (·.key)).Nodup
      ∧ SameOutcome (read ⟨Layout.document {} leastLines, "solwiz.toml"⟩)
        (read ⟨Layout.document { final := false } leastLines.reverse,
          "solwiz.toml"⟩)
      ∧ SameOutcome
        (read ⟨Layout.document {} (leastLines.take 2), "solwiz.toml"⟩)
        (read ⟨Layout.document { final := false }
          (leastLines.take 1 ++ noteLine :: (leastLines.take 2).drop 1),
          "solwiz.toml"⟩)
      ∧ read ⟨Layout.document {} (leastLines.take 2), "solwiz.toml"⟩
        = .error
          (.notRecord "solwiz.toml" (Fault.missingField "symbol").message
            none)
      ∧ SameOutcome (read ⟨Layout.document {} leastLines, "solwiz.toml"⟩)
        (read ⟨Layout.document { final := false }
          (leastLines ++ [mintableLine]), "solwiz.toml"⟩) := by
  have hkeys : (leastLines.map (·.key)).Nodup := by decide
  have hfewer : ((leastLines.take 2).map (·.key)).Nodup := by decide
  obtain ⟨hperm, -, hdefault⟩ :=
    read_known_keys "solwiz.toml" {} { final := false } leastLines hkeys
  obtain ⟨-, hunknown, -⟩ :=
    read_known_keys "solwiz.toml" {} { final := false }
      (leastLines.take 2) hfewer
  refine ⟨hkeys, hperm _ (List.reverse_perm _), ?_, read_without_symbol, ?_⟩
  · exact hunknown (leastLines.take 1)
      ((leastLines.take 2).drop 1) noteLine rfl
      (by decide) (by decide) (by decide)
  · exact hdefault leastLines [] mintableLine (List.append_nil _).symm
      (by decide)
      (by simp [Decode.defaultEntries, mintableLine])

end TokenForge
