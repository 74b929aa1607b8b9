/-
TOML documents as data: what a document says, apart from how and where it
says it.
-/
import TokenForge.Text.Split

namespace TokenForge.Toml

/-- A floating-point number as written. -/
inductive FloatLiteral where
  /-- The digits times a power of ten. -/
  | finite (negative : Bool) (digits : Nat) (exponent : Int)
  | infinite (negative : Bool)
  | nan
  deriving DecidableEq, Repr

/-- A value. -/
inductive Value where
  | string (text : String)
  | integer (value : Int)
  | float (value : FloatLiteral)
  | boolean (value : Bool)
  /-- A date, a time or both; only its form matters here. -/
  | moment
  | array (items : List Value)
  /-- A table; its entries are in the order of their keys. -/
  | table (entries : List (String × Value))

/-- A stretch of a document, by the bytes that are left where it starts and
where it ends. A reader knows how much of the document is left, and nothing
before it. -/
structure Extent where
  startLeft : Nat
  endLeft : Nat
  deriving DecidableEq, Repr

/-- The stretch between two rests of one document. -/
def Extent.between (start rest : List Char) : Extent :=
  ⟨Text.byteLength start, Text.byteLength rest⟩

/-- The offset of a stretch in a document of `total` bytes. -/
def Extent.offset (total : Nat) (e : Extent) : Nat := total - e.startLeft

/-- The number of bytes of a stretch. -/
def Extent.length (e : Extent) : Nat := e.startLeft - e.endLeft

end TokenForge.Toml
