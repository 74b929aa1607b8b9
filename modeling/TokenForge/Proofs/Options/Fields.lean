/-
What decoding reads of a table. It looks up the keys of fields and nothing
else, and where a field has a default, the absent field is read as its
default written out. So two tables decode alike, to the same record or to the
same first fault, if they agree under every known key in this sense
(`SameField`): each of the readers of fields does (`flag_congr`,
`text?_congr`, `choice?_congr`), and the rounds of decoding ask them in the
same order for both. Beside the fields it only matters where a number ends
the reading (`ofEntries_congr`).
-/
import TokenForge.Options.Decode

namespace TokenForge

/-- The keys of the fields of all records. -/
def Encode.fieldKeys : List String :=
  ["kind", "name", "symbol", "uri", "base-uri", "enumerable", "uri-storage",
    "burnable", "pausable", "mintable", "incremental", "open-sea", "supply",
    "updatable-uri", "access", "upgradeable", "license"]

namespace Decode

open Encode (fieldKeys)

-- =============================================================== defaults

/-- The fields that may be absent with the values they are then read as. -/
def defaultEntries : Entries :=
  [("access", .string "ownable"), ("burnable", .boolean false),
    ("enumerable", .boolean false), ("incremental", .boolean false),
    ("license", .string "MIT"), ("mintable", .boolean false),
    ("open-sea", .boolean false), ("pausable", .boolean false),
    ("supply", .boolean false), ("updatable-uri", .boolean true),
    ("uri", .string ""), ("uri-storage", .boolean false)]

/-- Under a key there stands the same in both tables, or nothing in the first
one and the default in the second. -/
def SameField (es es' : Entries) (key : String) : Prop :=
  es.lookup key = es'.lookup key
    ∨ es.lookup key = none ∧ es'.lookup key = defaultEntries.lookup key

variable {es es' : Entries} {key : String}

/-- A field without a default is the same. -/
theorem SameField.lookup_eq (h : SameField es es' key)
    (hdefault : defaultEntries.lookup key = none) :
    es.lookup key = es'.lookup key := by
  rcases h with h | ⟨hnone, hwritten⟩
  · exact h
  · rw [hnone, hwritten, hdefault]

-- ================================================================= readers

/-- Entries with the same field, up to its default, give the same flag. -/
theorem flag_congr {b : Bool} (h : SameField es es' key)
    (hdefault : defaultEntries.lookup key = some (.boolean b)) :
    flag es key b = flag es' key b := by
  unfold flag
  rcases h with h | ⟨hnone, hwritten⟩
  · rw [h]
  · rw [hnone, hwritten, hdefault]

/-- They give the same text if it has no default. -/
theorem text?_congr (h : SameField es es' key)
    (hdefault : defaultEntries.lookup key = none) :
    text? es key = text? es' key := by
  unfold text?
  rw [h.lookup_eq hdefault]

/-- They give the same text, or the default. -/
theorem text?_getD_congr {s : String} (h : SameField es es' key)
    (hdefault : defaultEntries.lookup key = some (.string s)) :
    (text? es key).map (·.getD s) = (text? es' key).map (·.getD s) := by
  unfold text?
  rcases h with h | ⟨hnone, hwritten⟩
  · rw [h]
  · rw [hnone, hwritten, hdefault]
    rfl

section Choice

variable {α : Type} {known : List (String × α)}

theorem choice?_congr (h : SameField es es' key)
    (hdefault : defaultEntries.lookup key = none) :
    choice? es key known = choice? es' key known := by
  unfold choice?
  rw [h.lookup_eq hdefault]

/-- They give the same choice, or the default. -/
theorem choice?_getD_congr {name : String} {a : α} (h : SameField es es' key)
    (hdefault : defaultEntries.lookup key = some (.string name))
    (ha : choice known name = .ok a) :
    (choice? es key known).map (·.getD a)
      = (choice? es' key known).map (·.getD a) := by
  unfold choice?
  rcases h with h | ⟨hnone, hwritten⟩
  · rw [h]
  · rw [hnone, hwritten, hdefault]
    dsimp only
    rw [ha]
    rfl

end Choice

-- ================================================================== rounds

/-- The common options with the defaults put in at once. -/
theorem common_eq (es : Entries) :
    common es = (do
      let access ← (choice? es "access" accessNames).map (·.getD .ownable)
      let license ← (text? es "license").map (·.getD "MIT")
      let proxy? ← choice? es "upgradeable" proxyNames
      .ok { access, proxy?, license }) := by
  unfold common
  cases choice? es "access" accessNames with
  | error fault => rfl
  | ok access =>
      cases text? es "license" with
      | error fault => rfl
      | ok license => rfl

/-- What both tokens have is read from the fields. -/
theorem common_congr (h : ∀ key ∈ fieldKeys, SameField es es' key) :
    common es = common es' := by
  rw [common_eq, common_eq es',
    choice?_getD_congr (h "access" (by decide)) (by rfl) (by rfl),
    text?_getD_congr (h "license" (by decide)) (by rfl),
    choice?_congr (h "upgradeable" (by decide)) (by rfl)]

/-- So are the options of the one token. -/
theorem erc721_congr (h : ∀ key ∈ fieldKeys, SameField es es' key) :
    erc721 es = erc721 es' := by
  unfold erc721
  rw [text?_congr (h "base-uri" (by decide)) (by rfl),
    flag_congr (h "burnable" (by decide)) (by rfl),
    flag_congr (h "enumerable" (by decide)) (by rfl),
    flag_congr (h "incremental" (by decide)) (by rfl),
    flag_congr (h "mintable" (by decide)) (by rfl),
    text?_congr (h "name" (by decide)) (by rfl),
    flag_congr (h "open-sea" (by decide)) (by rfl),
    flag_congr (h "pausable" (by decide)) (by rfl),
    text?_congr (h "symbol" (by decide)) (by rfl),
    flag_congr (h "uri-storage" (by decide)) (by rfl),
    common_congr h]

/-- The options of a multi token with the default of the URI put in at once. -/
theorem erc1155_eq (es : Entries) :
    erc1155 es = (do
      let burnable ← flag es "burnable" false
      let mintable ← flag es "mintable" false
      let name ← text? es "name"
      let pausable ← flag es "pausable" false
      let supply ← flag es "supply" false
      let updatableUri ← flag es "updatable-uri" true
      let uri ← (text? es "uri").map (·.getD "")
      let name ← required "name" name
      let common ← common es
      .ok { name, uri, burnable, pausable, mintable, supply, updatableUri,
            common }) := by
  unfold erc1155
  cases text? es "uri" with
  | error fault => rfl
  | ok uri => rfl

/-- So are the options of the other. -/
theorem erc1155_congr (h : ∀ key ∈ fieldKeys, SameField es es' key) :
    erc1155 es = erc1155 es' := by
  rw [erc1155_eq, erc1155_eq es',
    flag_congr (h "burnable" (by decide)) (by rfl),
    flag_congr (h "mintable" (by decide)) (by rfl),
    text?_congr (h "name" (by decide)) (by rfl),
    flag_congr (h "pausable" (by decide)) (by rfl),
    flag_congr (h "supply" (by decide)) (by rfl),
    flag_congr (h "updatable-uri" (by decide)) (by rfl),
    text?_getD_congr (h "uri" (by decide)) (by rfl),
    common_congr h]

/-- Tables that agree under the known keys decode alike, if reading them ends
at a number in both or in neither, up to the standard and on the whole. -/
theorem ofEntries_congr (h : ∀ key ∈ fieldKeys, SameField es es' key)
    (hbefore : Toml.entriesReadable (es.takeWhile (·.1 != "kind"))
      = Toml.entriesReadable (es'.takeWhile (·.1 != "kind")))
    (hall : Toml.entriesReadable es = Toml.entriesReadable es') :
    ofEntries es = ofEntries es' := by
  have hoptions : options es = options es' := by
    funext standard
    unfold options
    rw [erc721_congr h, erc1155_congr h]
  unfold ofEntries
  rw [(h "kind" (by decide)).lookup_eq (by rfl), hoptions, hbefore, hall]

end Decode

end TokenForge
