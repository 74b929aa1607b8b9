/-
The rules that a well-typed record may still break: its name must be able to
name a contract, its licence must be a plain licence expression, and counted
token numbers need minting. The first broken rule is reported, at the place
where the document assigns the field.
-/
import TokenForge.Options.Decode
import TokenForge.Options.Diagnostic
import TokenForge.Solidity.Identifier

namespace TokenForge

-- =================================================================== rules

/-- Why a name cannot name a contract. -/
inductive NameFault where
  | empty
  | reserved
  | notIdentifier
  deriving DecidableEq, Repr

/-- The wording of the reason. -/
def NameFault.message : NameFault → String
  | .empty => "name cannot be empty"
  | .reserved => "name is a Solidity reserved word"
  | .notIdentifier => "name is not a Solidity identifier"

/-- What keeps a name from naming a contract. -/
def nameFault? (name : String) : Option NameFault :=
  if name = "" then some .empty
  else if Solidity.isReserved name then some .reserved
  else if !Solidity.isIdentifier name then some .notIdentifier
  else none

/-- Why a text is no licence expression. -/
inductive LicenseFault where
  | empty
  | notExpression
  deriving DecidableEq, Repr

/-- The wording of the reason. -/
def LicenseFault.message : LicenseFault → String
  | .empty => "license cannot be empty"
  | .notExpression =>
    "license must be an SPDX expression (letters, digits, `.-+()` and spaces)"

/-- Whether a character may stand in a licence expression. -/
def isLicensePart (c : Char) : Bool :=
  c.isAlphanum || ".-+() ".toList.contains c

/-- What keeps a text from being a licence expression. -/
def licenseFault? (license : String) : Option LicenseFault :=
  if Text.trim license.toList = [] then some .empty
  else if !license.toList.all isLicensePart then some .notExpression
  else none

/-- Whether counted token numbers are asked for without minting. -/
def OptionRecord.countsWithoutMinting : OptionRecord → Bool
  | .erc721 o => o.incremental && !o.mintable
  | .erc1155 _ => false

/-- The wording of the reason. -/
def countingMessage : String := "`incremental` requires `mintable = true`"

-- ============================================================== validation

/-- Checks a record against the rules; a report speaks of the document. -/
def OptionRecord.validate (r : OptionRecord) (d : Document) :
    Except Diagnostic Unit :=
  match nameFault? r.name with
  | some fault => .error (d.invalidIdentifier r.name "name" fault.message)
  | none =>
    match licenseFault? r.common.license with
    | some fault => .error (d.invalid fault.message "license")
    | none =>
      if r.countsWithoutMinting then
        .error (d.invalid countingMessage "incremental")
      else .ok ()

/-- The report about a document that holds no record. -/
def Document.decodeDiagnostic (d : Document) : Decode.Failure → Diagnostic
  | .notToml => .notToml d.filename
  | .notRecord fault place? => .notRecord d.filename fault.message place?

/-- The valid record that a document holds. -/
def Document.read (d : Document) : Except Diagnostic OptionRecord :=
  match OptionRecord.ofToml d.text with
  | .error failure => .error (d.decodeDiagnostic failure)
  | .ok r =>
    match r.validate d with
    | .error e => .error e
    | .ok () => .ok r

end TokenForge
