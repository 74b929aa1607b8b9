/-
Release numbers `X.Y.Z` of the contracts package, and the text they are
written in. Reading allows leading zeros and one leading plus sign in each
part; writing uses neither, so a release has one written form and many that
read as it.
-/
import TokenForge.Text.Split

namespace TokenForge

/-- A release number; each part is below 2^32. -/
structure Version where
  major : UInt32
  minor : UInt32
  patch : UInt32
  deriving DecidableEq, Repr

namespace Version

-- ======================================================== the releases

/-- The release of the contracts package that generated sources are written
against. -/
def bundled : Version := ⟨4, 3, 2⟩

/-- The release before any other. -/
def zero : Version := ⟨0, 0, 0⟩

-- ============================================================= writing

/-- The written form `X.Y.Z`. -/
def text (v : Version) : String :=
  toString v.major.toNat ++ "." ++ toString v.minor.toNat ++ "."
    ++ toString v.patch.toNat

/-- The written form between quotes, as a document stores it. -/
def quoted (v : Version) : String := "\"" ++ v.text ++ "\""

-- ============================================================= reading

/-- The three parts of a release number. -/
inductive Part where
  | major
  | minor
  | patch
  deriving DecidableEq, Repr

/-- Why a text is no release number. -/
inductive ParseError where
  /-- The text does not have three parts. -/
  | partCount (text : String)
  /-- A part is not a number below 2^32. -/
  | badPart (part : Part)
  deriving DecidableEq, Repr

/-- The wording of the error. -/
def ParseError.message : ParseError → String
  | .partCount text => "invalid version '" ++ text ++ "', expected 'X.Y.Z'"
  | .badPart .major => "invalid major"
  | .badPart .minor => "invalid minor"
  | .badPart .patch => "invalid patch"

/-- The value of a digit. -/
def digit? (c : Char) : Option Nat :=
  if c.isDigit then some (c.toNat - 48) else none

/-- The number written by digits; `acc` is what stands before them. -/
def digits? (acc : Nat) : List Char → Option Nat
  | [] => some acc
  | c :: rest => do digits? (acc * 10 + (← digit? c)) rest

/-- A part without its plus sign. -/
def unsigned : List Char → List Char
  | '+' :: rest => rest
  | s => s

/-- The value of a part: at most one plus sign, then one digit or more, and
less than 2^32. -/
def part? (s : List Char) : Option UInt32 :=
  if unsigned s = [] then none
  else
    match digits? 0 (unsigned s) with
    | some n => if n < UInt32.size then some n.toUInt32 else none
    | none => none

/-- Reads a release number; the first fault from the left is reported. -/
def parse (s : String) : Except ParseError Version :=
  match Text.splitAt '.' s.toList with
  | [a, b, c] => do
    let major ← (part? a).elim (.error (.badPart .major)) .ok
    let minor ← (part? b).elim (.error (.badPart .minor)) .ok
    let patch ← (part? c).elim (.error (.badPart .patch)) .ok
    .ok ⟨major, minor, patch⟩
  | _ => .error (.partCount s)

/-- Reads the form that `quoted` writes. -/
def parseQuoted? (s : String) : Option Version :=
  match s.toList with
  | '"' :: rest =>
    match rest.reverse with
    | '"' :: body => (parse (String.ofList body.reverse)).toOption
    | _ => none
  | _ => none

end Version

end TokenForge
