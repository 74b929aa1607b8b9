/-
A record survives being written down. Its document has one assignment for each
field, every value on one line: a string is read back character by character,
whatever it holds, since each character is written as itself or as an escape
that reads as that character (`readQuotedFrom_string`). So the table of the
document has the values of the fields, and decoding only looks values up
(`ofEntries_congr`), so it finds every one of them.
-/
import TokenForge.Options.Encode
import TokenForge.Options.Validation
import TokenForge.Proofs.Options.Fields
import TokenForge.Proofs.Text.Hex
import TokenForge.Proofs.Toml.Assignment

namespace TokenForge

namespace Encode

open Toml

-- ================================================================ strings

/-- A character is written as itself, or as an escape. -/
theorem stringChar_cases (c : Char) :
    (stringChar c = [c] ∧ c ≠ '"' ∧ c ≠ '\\' ∧ isPlain c = true)
      ∨ ∃ escape, stringChar c = '\\' :: escape
        ∧ ∀ rest, readEscape (escape ++ rest) = some (c, rest) := by
  unfold stringChar
  by_cases hquote : c = '"'
  · subst hquote
    exact .inr ⟨['"'], rfl, fun rest => rfl⟩
  by_cases hslash : c = '\\'
  · subst hslash
    exact .inr ⟨['\\'], rfl, fun rest => rfl⟩
  rw [if_neg hquote, if_neg hslash]
  by_cases hcontrol : c.toNat < 0x20 ∨ c.toNat = 0x7F
  · rw [if_pos hcontrol]
    refine .inr ⟨'u' :: Text.hexFixed 4 c.toNat, rfl, fun rest => ?_⟩
    have hwidth : c.toNat < 16 ^ 4 := by omega
    have hcode : readEscape.code 4 (Text.hexFixed 4 c.toNat ++ rest)
        = some (c, rest) := by
      unfold readEscape.code
      rw [Text.readHex_hexFixed hwidth]
      have hvalid : c.toNat.isValidChar := c.valid
      simp [scalar?, hvalid]
    exact hcode
  · rw [if_neg hcontrol]
    refine .inl ⟨rfl, hquote, hslash, ?_⟩
    rw [not_or] at hcontrol
    have hlow : 0x20 ≤ c.toNat := by omega
    simp [isPlain, hlow, hcontrol.2]

/-- What is written between quotes is read up to the closing one. -/
theorem readQuotedFrom_string (s rest : List Char) :
    ∀ turns, s.length < turns →
      readQuotedFrom turns (s.flatMap stringChar ++ '"' :: rest)
        = some (s, rest) := by
  induction s with
  | nil =>
      intro turns hturns
      obtain ⟨turns, rfl⟩ : ∃ n, turns = n + 1 :=
        ⟨turns - 1, by simp at hturns; omega⟩
      simp [readQuotedFrom]
  | cons c s ih =>
      intro turns hturns
      rw [List.length_cons] at hturns
      obtain ⟨turns, rfl⟩ : ∃ n, turns = n + 1 := ⟨turns - 1, by omega⟩
      have hrest := ih turns (by omega)
      rw [List.flatMap_cons, List.append_assoc]
      rcases stringChar_cases c
        with ⟨hself, hquote, hslash, hplain⟩ | ⟨escape, hescape, hread⟩
      · rw [hself, List.singleton_append, readQuotedFrom, if_neg hquote,
          if_neg hslash, if_pos hplain, hrest]
        rfl
      · rw [hescape, List.cons_append, readQuotedFrom, if_neg (by decide),
          if_pos rfl, hread]
        simp only [Option.bind_eq_bind, Option.bind_some, hrest]

theorem length_le_flatMap_stringChar (s : List Char) :
    s.length ≤ (s.flatMap stringChar).length := by
  induction s with
  | nil => exact Nat.le_refl _
  | cons c s ih =>
      have hc : 1 ≤ (stringChar c).length := by
        rcases stringChar_cases c with ⟨hself, -⟩ | ⟨escape, hescape, -⟩
        · rw [hself]
          exact Nat.le_refl 1
        · rw [hescape, List.length_cons]
          omega
      rw [List.flatMap_cons, List.length_append, List.length_cons]
      omega

/-- What stands after the opening quote does not open a string of several
lines: in an empty string the line's end follows the second quote. -/
theorem readString_string (s rest : List Char) :
    readString ('"' :: (s.flatMap stringChar ++ '"' :: '\n' :: rest))
      = some (s, '\n' :: rest) := by
  have hone : ∀ inner,
      s.flatMap stringChar ++ '"' :: '\n' :: rest
        ≠ '"' :: '"' :: inner := by
    intro inner heq
    cases s with
    | nil =>
        rw [List.flatMap_nil, List.nil_append] at heq
        exact absurd (List.cons.inj (List.cons.inj heq).2).1 (by decide)
    | cons c s =>
        rw [List.flatMap_cons, List.append_assoc] at heq
        rcases stringChar_cases c
          with ⟨hself, hquote, -, -⟩ | ⟨escape, hescape, -⟩
        · rw [hself] at heq
          exact hquote (List.cons.inj heq).1
        · rw [hescape] at heq
          exact absurd (List.cons.inj heq).1 (by decide)
  have hturns : s.length
      < (s.flatMap stringChar ++ '"' :: '\n' :: rest).length + 1 := by
    have hlength := length_le_flatMap_stringChar s
    rw [List.length_append]
    omega
  unfold readString
  split
  next heq => exact absurd (List.cons.inj heq).2 (hone _)
  next inner _ heq =>
      rw [← (List.cons.inj heq).2]
      exact readQuotedFrom_string s ('\n' :: rest) _ hturns
  next heq => exact absurd (List.cons.inj heq).1 (by decide)
  next heq => exact absurd (List.cons.inj heq).1 (by decide)
  next _ hother _ _ => exact absurd rfl (hother _)

/-- A string is read as itself. -/
theorem readsAs_string (s : String) :
    ReadsAs (string s).toList (.string s) := by
  have htext : (string s).toList
      = '"' :: (s.toList.flatMap stringChar ++ ['"']) := by
    unfold string
    rw [String.toList_ofList]
    rfl
  rw [htext]
  refine ⟨?_, List.cons_ne_nil _ _, fun rest => ?_⟩
  · intro c hc
    cases hc
    decide
  · have hread := readString_string s.toList rest
    rw [List.cons_append, List.append_assoc, List.singleton_append]
    unfold readValue readValueFrom
    show readText _ = _
    unfold readText
    rw [hread]
    simp only [Option.bind_eq_bind, Option.bind_some, String.ofList_toList]

/-- A word that ends with its line is read as its value. -/
theorem readsAs_word {word : List Char} {v : Toml.Value} (hne : word ≠ [])
    (hword : word.all isWordPart = true) (hvalue : wordValue? word = some v) :
    ReadsAs word v := by
  have hletters : ∀ c ∈ word, isWordPart c = true := List.all_eq_true.1 hword
  obtain ⟨c, tail, rfl⟩ := List.exists_cons_of_ne_nil hne
  have hc := hletters c (List.mem_cons_self ..)
  refine ⟨?_, hne, fun rest => ?_⟩
  · intro d hd
    cases hd
    exact not_isSpace_of_class hc (by decide) (by decide)
  · have hspan : (c :: tail ++ '\n' :: rest).span isWordPart
        = (c :: tail, '\n' :: rest) := by
      refine Text.span_append hletters fun d hd => ?_
      cases hd
      decide
    have hread : readWord (c :: tail ++ '\n' :: rest)
        = some (v, '\n' :: rest) := by
      unfold readWord cutWord
      rw [hspan]
      simp [hvalue]
    unfold readValue readValueFrom
    split
    next heq => exact absurd (List.cons.inj heq).1 (ne_of_class hc (by decide))
    next heq => exact absurd (List.cons.inj heq).1 (ne_of_class hc (by decide))
    next heq => exact absurd (List.cons.inj heq).1 (ne_of_class hc (by decide))
    next heq => exact absurd (List.cons.inj heq).1 (ne_of_class hc (by decide))
    next => exact hread

/-- A yes-or-no value is read as itself. -/
theorem readsAs_boolean (b : Bool) :
    ReadsAs (boolean b).toList (.boolean b) := by
  cases b with
  | false => exact readsAs_word (by decide) (by decide) rfl
  | true => exact readsAs_word (by decide) (by decide) rfl

-- ================================================================= fields

/-- A field with a string. -/
def textField (key s : String) : Field := ⟨key, string s, .string s⟩

/-- A yes-or-no field. -/
def flagField (key : String) (b : Bool) : Field := ⟨key, boolean b, .boolean b⟩

theorem isBareKey_of_fieldKeys : ∀ key ∈ fieldKeys, IsBareKey key.toList := by
  decide

/-- The common options with the values they are read as. -/
def commonTomlFields (o : CommonOptions) : List Field :=
  [textField "access" o.access.name]
    ++ (o.proxy?.toList.map fun p => textField "upgradeable" p.name)
    ++ [textField "license" o.license]

/-- The fields of a record with the values they are read as. -/
def tomlFields : OptionRecord → List Field
  | .erc721 o =>
      [textField "kind" Standard.erc721.name, textField "name" o.name,
        textField "symbol" o.symbol]
        ++ (o.baseUri?.toList.map fun uri => textField "base-uri" uri)
        ++ [flagField "enumerable" o.enumerable,
          flagField "uri-storage" o.uriStorage,
          flagField "burnable" o.burnable, flagField "pausable" o.pausable,
          flagField "mintable" o.mintable,
          flagField "incremental" o.incremental,
          flagField "open-sea" o.openSea]
        ++ commonTomlFields o.common
  | .erc1155 o =>
      [textField "kind" Standard.erc1155.name, textField "name" o.name,
        textField "uri" o.uri, flagField "burnable" o.burnable,
        flagField "pausable" o.pausable, flagField "mintable" o.mintable,
        flagField "supply" o.supply, flagField "updatable-uri" o.updatableUri]
        ++ commonTomlFields o.common

/-- The document of a record has the lines of its fields. -/
theorem toList_toToml (r : OptionRecord) :
    r.toToml.toList = (tomlFields r).flatMap Field.line := by
  have hfields : fields r = (tomlFields r).map fun f => (f.key, f.text) := by
    cases r <;>
      simp [fields, tomlFields, commonFields, commonTomlFields, textField,
        flagField, Function.comp_def]
  have hline : ∀ f : Field, (line (f.key, f.text)).toList = f.line := by
    intro f
    simp [line, Field.line]
  unfold OptionRecord.toToml
  rw [String.toList_join, hfields, List.map_map, List.flatMap_map]
  exact congrArg (List.flatMap · _) (funext hline)

/-- A field has a known key, and a string or a yes-or-no value that
is written as such. -/
theorem tomlFields_cases (r : OptionRecord) :
    ∀ f ∈ tomlFields r, f.key ∈ fieldKeys
    ∧ ((∃ s, f.text = string s ∧ f.value = .string s)
      ∨ ∃ b, f.text = boolean b ∧ f.value = .boolean b) := by
  cases r <;>
    simp [tomlFields, commonTomlFields, textField, flagField, fieldKeys,
      or_imp, forall_and, -Bool.exists_bool]

theorem reads_tomlFields (r : OptionRecord) : ∀ f ∈ tomlFields r, f.Reads := by
  intro f hf
  obtain ⟨hkey, ⟨s, htext, hvalue⟩ | ⟨b, htext, hvalue⟩⟩ :=
    tomlFields_cases r f hf
  · refine ⟨isBareKey_of_fieldKeys f.key hkey, ?_⟩
    rw [htext, hvalue]
    exact readsAs_string s
  · refine ⟨isBareKey_of_fieldKeys f.key hkey, ?_⟩
    rw [htext, hvalue]
    exact readsAs_boolean b

theorem readable_tomlFields (r : OptionRecord) :
    entriesReadable ((tomlFields r).map Field.entry) = true := by
  rw [entriesReadable_iff]
  intro e he
  obtain ⟨f, hf, rfl⟩ := List.mem_map.1 he
  show f.value.isReadable = true
  obtain ⟨-, ⟨s, -, hvalue⟩ | ⟨b, -, hvalue⟩⟩ := tomlFields_cases r f hf
  · rw [hvalue]
    rfl
  · rw [hvalue]
    rfl

theorem keys_tomlFields (r : OptionRecord) :
    ((tomlFields r).map (·.key)).Nodup := by
  cases r with
  | erc721 o =>
      cases huri : o.baseUri? <;> cases hproxy : o.common.proxy? <;>
        simp [tomlFields, commonTomlFields, textField, flagField, huri, hproxy]
  | erc1155 o =>
      cases hproxy : o.common.proxy? <;>
        simp [tomlFields, commonTomlFields, textField, flagField, hproxy]

end Encode

-- =============================================================== decoding

namespace Decode

open Encode

/-- The fields of a record make the record, whichever of them are there. -/
theorem ofEntries_tomlFields (r : OptionRecord) :
    ofEntries ((tomlFields r).map Toml.Field.entry) = .ok r := by
  cases r with
  | erc721 o =>
      obtain ⟨_, _, baseUri?, _, _, _, _, _, _, _, access, proxy?, _⟩ := o
      rcases baseUri? with _ | uri <;> cases access <;>
        rcases proxy? with _ | _ | _
      all_goals rfl
  | erc1155 o =>
      obtain ⟨_, _, _, _, _, _, _, access, proxy?, _⟩ := o
      cases access <;> rcases proxy? with _ | _ | _
      all_goals rfl

end Decode

-- ============================================================ the round trip

open Encode

namespace OptionRecord

/-- Decoding the document of a record gives the record. -/
theorem ofToml_toToml (r : OptionRecord) : ofToml r.toToml = .ok r := by
  have hkeys := keys_tomlFields r
  obtain ⟨d, hread, hentries⟩ := Toml.read_fields (reads_tomlFields r) hkeys
  have hdistinct :
      (((tomlFields r).map Toml.Field.entry).map Prod.fst).Nodup := by
    rw [List.map_map]
    exact hkeys
  have hfields := readable_tomlFields r
  have hreadable : Toml.entriesReadable d.entries = true := by
    rw [hentries, Toml.entriesReadable_sortEntries]
    exact hfields
  have hdecode : Decode.ofEntries d.entries = .ok r := by
    rw [← Decode.ofEntries_tomlFields r]
    refine Decode.ofEntries_congr (fun key _ => ?_) ?_ ?_
    · rw [hentries]
      exact .inl (Toml.lookup_sortEntries hdistinct key)
    · rw [Toml.entriesReadable_takeWhile hreadable,
        Toml.entriesReadable_takeWhile hfields]
    · rw [hreadable, hfields]
  unfold ofToml
  rw [toList_toToml, hread]
  dsimp only
  rw [hdecode]
  rfl

/-- Reading the document of a record gives the record if it is valid, and else
the report that validation makes of this document. -/
theorem read_toToml (r : OptionRecord) (filename : String) :
    Document.read ⟨r.toToml, filename⟩
      = (r.validate ⟨r.toToml, filename⟩).map fun _ => r := by
  unfold Document.read
  rw [ofToml_toToml]
  dsimp only
  cases r.validate ⟨r.toToml, filename⟩ with
  | error e => rfl
  | ok u => rfl

end OptionRecord

end TokenForge
