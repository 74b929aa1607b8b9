/-
Which words may name a contract: one identifier of letters, digits, `_` and
`$`, and none of the words that Solidity keeps for itself. Both rules know
ASCII only, as Solidity's grammar does.
-/
namespace TokenForge.Solidity

-- ============================================================ the words

/-- The keywords and reserved words of Solidity. -/
def reservedWords : List String :=
  ["abstract", "address", "after", "alias", "anonymous", "apply", "as",
    "assembly", "auto", "bool", "break", "byte", "bytes", "calldata", "case",
    "catch", "constant", "constructor", "continue", "contract", "copyof",
    "default", "define", "delete", "do", "else", "emit", "enum", "error",
    "event", "external", "fallback", "false", "final", "for", "function", "if",
    "immutable", "implements", "import", "in", "indexed", "inline", "int",
    "interface", "internal", "is", "let", "library", "macro", "mapping",
    "match", "memory", "modifier", "mutable", "new", "null", "of", "override",
    "partial", "payable", "pragma", "private", "promise", "public", "pure",
    "receive", "reference", "relocatable", "return", "returns", "revert",
    "sealed", "sizeof", "static", "storage", "string", "struct", "super",
    "supports", "switch", "this", "throw", "true", "try", "type", "typedef",
    "typeof", "uint", "unchecked", "using", "var", "view", "virtual", "while"]

/-- Whether a name is a keyword or reserved word. -/
def isReserved (name : String) : Bool := reservedWords.contains name

-- ========================================================== identifiers

/-- Whether a character may begin an identifier. -/
def isIdentifierStart (c : Char) : Bool := c.isAlpha || c == '_' || c == '$'

/-- Whether a character may stand inside an identifier. -/
def isIdentifierPart (c : Char) : Bool := c.isAlphanum || c == '_' || c == '$'

/-- Whether a name reads as one identifier. -/
def isIdentifier (name : String) : Bool :=
  match name.toList with
  | [] => false
  | c :: rest => isIdentifierStart c && rest.all isIdentifierPart

theorem isIdentifierPart_of_isIdentifierStart {c : Char}
    (h : isIdentifierStart c = true) :
    isIdentifierPart c = true := by
  simp only [isIdentifierStart, isIdentifierPart, Char.isAlphanum,
    Bool.or_eq_true] at h ⊢
  exact h.imp_left fun h => h.imp_left Or.inl

/-- An identifier is not empty and is made of identifier characters. -/
theorem all_isIdentifierPart {name : String} (h : isIdentifier name = true) :
    name.toList ≠ [] ∧ name.toList.all isIdentifierPart = true := by
  unfold isIdentifier at h
  split at h
  · cases h
  · next c rest hs =>
    rw [Bool.and_eq_true] at h
    rw [hs]
    exact ⟨by simp, by simp [isIdentifierPart_of_isIdentifierStart h.1, h.2]⟩

end TokenForge.Solidity
