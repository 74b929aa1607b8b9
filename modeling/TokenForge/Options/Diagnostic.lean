/-
What a user is told about an option record that cannot be used: a message, a
code, a hint, and the place in the document that it is about.
-/
import TokenForge.Options.Span

namespace TokenForge

/-- An option record as text, with the name it is known by. -/
structure Document where
  text : String
  filename : String
  deriving DecidableEq, Repr

/-- A report about an option record. -/
inductive Diagnostic where
  /-- The file could not be read as text. -/
  | unreadable (path : String)
  /-- The document is no TOML that can be read. -/
  | notToml (filename : String)
  /-- The document is TOML, but no option record. -/
  | notRecord (filename detail : String) (place? : Option Span)
  /-- The record breaks a rule. -/
  | invalid (filename message : String) (place? : Option Span)
  /-- The record has a name that cannot name a contract. -/
  | invalidIdentifier (filename key name reason : String)
      (place? : Option Span)
  deriving DecidableEq, Repr

namespace Diagnostic

-- ================================================================== parts

/-- The message. -/
def message : Diagnostic → String
  | .unreadable path => "failed to read '" ++ path ++ "'"
  | .notToml _ => "failed to parse option record"
  | .notRecord _ _ _ => "failed to parse option record"
  | .invalid _ message _ => message
  | .invalidIdentifier _ key name _ _ =>
      "invalid contract " ++ key ++ " '" ++ name ++ "'"

/-- The code, by which a user can look the report up. -/
def code? : Diagnostic → Option String
  | .unreadable _ => none
  | .notToml _ => some "solwiz::parse_error"
  | .notRecord _ _ _ => some "solwiz::parse_error"
  | .invalid _ _ _ => some "solwiz::validation_error"
  | .invalidIdentifier _ _ _ _ _ => some "solwiz::invalid_identifier"

/-- The hint. -/
def help? : Diagnostic → Option String
  | .unreadable _ => some "run 'solwiz init' to create an option record"
  | .invalidIdentifier _ _ _ reason _ =>
    some (reason ++ ". Use only letters, digits, '_' and '$', "
      ++ "starting with a letter, '_' or '$'.")
  | _ => none

/-- The name of the document, unless there is none. -/
def filename? : Diagnostic → Option String
  | .unreadable _ => none
  | .notToml filename => some filename
  | .notRecord filename _ _ => some filename
  | .invalid filename _ _ => some filename
  | .invalidIdentifier filename _ _ _ _ => some filename

/-- The text at the marked place. -/
def labelText : Diagnostic → String
  | .invalid _ message _ => message
  | .invalidIdentifier _ _ _ _ _ => "invalid identifier"
  | _ => "parse error here"

/-- The marked place. -/
def place? : Diagnostic → Option Span
  | .unreadable _ => none
  | .notToml _ => none
  | .notRecord _ _ place => place
  | .invalid _ _ place => place
  | .invalidIdentifier _ _ _ _ place => place

end Diagnostic

-- ================================================================ sources

namespace Document

/-- The report that the value of a key breaks a rule. -/
def invalid (d : Document) (message key : String) : Diagnostic :=
  .invalid d.filename message (Span.ofKey? d.text key)

/-- The report that the value of a key cannot name a contract. -/
def invalidIdentifier (d : Document) (name key reason : String) : Diagnostic :=
  .invalidIdentifier d.filename key name reason (Span.ofKey? d.text key)

end Document

end TokenForge
