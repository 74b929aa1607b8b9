/-
Solidity string literals. `encode` writes any text on one line: quotes,
backslashes and control characters are escaped, and so are the characters
that an editor takes for a line end or that reorder what a reader sees. A
text with a character outside ASCII takes the `unicode` form, which keeps
the characters and stands for the same UTF-8 bytes.

`read` is the other direction, as a compiler reads a literal at the head of
a longer text: it gives the bytes and what follows the closing quote.
-/
import TokenForge.Text.Hex

namespace TokenForge.Solidity.Literal

open Text

-- ================================================= character classes

/-- Whether a character is in ASCII. -/
def isAscii (c : Char) : Bool := c.toNat < 0x80

/-- Whether a character is an ASCII control character. -/
def isAsciiControl (c : Char) : Bool := c.toNat < 0x20 || c.toNat == 0x7F

/-- Whether a character has the general category `Cc`: the ASCII controls and
their counterparts with the high bit. -/
def isControl (c : Char) : Bool :=
  isAsciiControl c || (0x80 ≤ c.toNat && c.toNat < 0xA0)

/-- Whether a character is the line or the paragraph separator. -/
def isLineSeparator (c : Char) : Bool := c.toNat == 0x2028 || c.toNat == 0x2029

/-- Whether a character embeds, overrides or isolates a writing direction, or
ends such a span. -/
def isBidiControl (c : Char) : Bool :=
  (0x202A ≤ c.toNat && c.toNat ≤ 0x202E)
    || (0x2066 ≤ c.toNat && c.toNat ≤ 0x2069)

-- ============================================================ writing

/-- One character inside the quotes. -/
def encodeChar (c : Char) : List Char :=
  if c = '"' then ['\\', '"']
  else if c = '\\' then ['\\', '\\']
  else if c = '\n' then ['\\', 'n']
  else if c = '\r' then ['\\', 'r']
  else if c = '\t' then ['\\', 't']
  else if isAsciiControl c then '\\' :: 'x' :: hexFixed 2 c.toNat
  else if isControl c || isLineSeparator c || isBidiControl c then
    '\\' :: 'u' :: hexFixed 4 c.toNat
  else [c]

/-- The characters between the quotes. -/
def encodeBody (s : List Char) : List Char := s.flatMap encodeChar

/-- The mark before the opening quote: none for a text in ASCII. -/
def marker (s : List Char) : List Char :=
  if s.all isAscii then [] else "unicode".toList

/-- A text as a literal. -/
def encode (s : List Char) : List Char :=
  marker s ++ '"' :: encodeBody s ++ ['"']

/-- A string as a literal. -/
def ofString (s : String) : String := String.ofList (encode s.toList)

theorem encodeBody_nil : encodeBody [] = [] := rfl

theorem encodeBody_cons (c : Char) (s : List Char) :
    encodeBody (c :: s) = encodeChar c ++ encodeBody s := rfl

theorem toList_ofString (s : String) :
    (ofString s).toList = encode s.toList := by
  simp [ofString]

-- ============================================================ reading

/-- The value of the escape whose letter and digits start a text, as bytes,
and what follows it. A two-digit escape is a byte, a four-digit one a
character. -/
def readEscape : List Char → Option (List UInt8 × List Char)
  | [] => none
  | c :: s =>
    if c = '"' ∨ c = '\\' then some ([c.toUInt8], s)
    else if c = 'n' then some ([0x0A], s)
    else if c = 'r' then some ([0x0D], s)
    else if c = 't' then some ([0x09], s)
    else if c = 'x' then (readHex 2 s).map fun (n, rest) => ([n.toUInt8], rest)
    else if c = 'u' then
      (readHex 4 s).map fun (n, rest) =>
        (String.utf8EncodeChar (Char.ofNat n), rest)
    else none

/-- The bytes up to the closing quote and what follows it. Each turn takes at
least one character, so the length of the text bounds the turns. -/
def readBody : Nat → List Char → Option (List UInt8 × List Char)
  | 0, _ => none
  | _ + 1, [] => none
  | turns + 1, c :: s =>
    if c = '"' then some ([], s)
    else if c = '\\' then do
      let (bytes, rest) ← readEscape s
      let (more, rest) ← readBody turns rest
      some (bytes ++ more, rest)
    else do
      let (more, rest) ← readBody turns s
      some (String.utf8EncodeChar c ++ more, rest)

/-- The bytes of the literal that starts a text, and what follows it. -/
def read (s : List Char) : Option (List UInt8 × List Char) :=
  match s with
  | '"' :: body => readBody (body.length + 1) body
  | 'u' :: 'n' :: 'i' :: 'c' :: 'o' :: 'd' :: 'e' :: '"' :: body =>
    readBody (body.length + 1) body
  | _ => none

end TokenForge.Solidity.Literal
