/-
The arguments of an invocation. They are taken from left to right, and the
first mistake or request for help decides. An option's value may follow as an
argument of its own, after an equals sign, or right after a single letter; an
argument of its own must not look like an option. After `--` nothing is an
option.
-/
import TokenForge.Command.Basic
import TokenForge.Text.Split

namespace TokenForge

-- ================================================================ mistakes

/-- What is wrong with an invocation. -/
inductive UsageError where
  | missingCommand
  | unknownCommand (given : String)
  | unknownOption (given : String)
  | missingValue (option : String)
  | unexpectedValue (option : String)
  | repeatedOption (option : String)
  | emptyPath (option : String)
  | unexpectedArgument (given : String)
  | missingShell
  | unknownShell (given : String)
  deriving DecidableEq, Repr

/-- The wording of the mistake. -/
def UsageError.message : UsageError → String
  | .missingCommand => "a command is missing"
  | .unknownCommand given => "unknown command '" ++ given ++ "'"
  | .unknownOption given => "unknown option '" ++ given ++ "'"
  | .missingValue option => "option '--" ++ option ++ "' needs a value"
  | .unexpectedValue option => "option '--" ++ option ++ "' takes no value"
  | .repeatedOption option => "option '--" ++ option ++ "' is given twice"
  | .emptyPath option => "option '--" ++ option ++ "' needs a path"
  | .unexpectedArgument given => "unexpected argument '" ++ given ++ "'"
  | .missingShell => "a shell is missing"
  | .unknownShell given => "unknown shell '" ++ given ++ "'"

-- ================================================================= options

/-- What an option takes. -/
inductive OptionForm where
  /-- Nothing; it is set or not. -/
  | flag
  /-- Any text. -/
  | text
  /-- A path, which is not empty. -/
  | path
  deriving DecidableEq, Repr

/-- An option of a command. -/
structure OptionSpec where
  /-- The name after two dashes. -/
  long : String
  /-- The letter after one dash. -/
  short? : Option Char
  form : OptionForm
  deriving DecidableEq, Repr

/-- The options and arguments collected so far. -/
structure Settings where
  /-- The options with their values; a flag has the empty value. -/
  options : List (String × String)
  arguments : List String
  /-- The option whose value is the next argument. -/
  awaiting? : Option OptionSpec
  /-- Whether `--` was passed. -/
  pastOptions : Bool
  deriving DecidableEq, Repr

/-- Nothing collected yet. -/
def Settings.empty : Settings := ⟨[], [], none, false⟩

/-- The value of an option. -/
def Settings.value? (s : Settings) (option : String) : Option String :=
  s.options.lookup option

/-- Whether a flag is set. -/
def Settings.isSet (s : Settings) (option : String) : Bool :=
  (s.value? option).isSome

/-- What comes of looking at an argument. -/
inductive Scan where
  | go (settings : Settings)
  | help
  | stop (error : UsageError)
  deriving DecidableEq, Repr

namespace Settings

/-- Collects an option with its value. -/
def store (s : Settings) (o : OptionSpec) (value : String) : Scan :=
  if s.isSet o.long then .stop (.repeatedOption o.long)
  else if o.form = .path ∧ value = "" then .stop (.emptyPath o.long)
  else .go { s with options := s.options ++ [(o.long, value)],
                    awaiting? := none }

/-- Whether an argument looks like an option: a single dash does not. -/
def looksLikeOption (arg : String) : Bool :=
  match arg.toList with
  | '-' :: _ :: _ => true
  | _ => false

/-- An option by its name, with the value after the equals sign if any. -/
def long (specs : List OptionSpec) (s : Settings) (name : String)
    (value? : Option String) : Scan :=
  if name = "help" then
    if value?.isSome then .stop (.unexpectedValue name) else .help
  else
    match specs.find? fun o => o.long = name with
    | none => .stop (.unknownOption name)
    | some o =>
      match o.form, value? with
      | .flag, some _ => .stop (.unexpectedValue name)
      | .flag, none => s.store o ""
      | _, some value => s.store o value
      | _, none => .go { s with awaiting? := some o }

/-- An option by its letter, with what follows the letter. -/
def short (specs : List OptionSpec) (s : Settings) (letter : Char)
    (after : List Char) : Scan :=
  if letter = 'h' then .help
  else
    match specs.find? fun o => o.short? = some letter with
    | none => .stop (.unknownOption (String.singleton letter))
    | some o =>
      match after with
      | [] => .go { s with awaiting? := some o }
      | '=' :: value => s.store o (String.ofList value)
      | value => s.store o (String.ofList value)

/-- Looks at one argument. -/
def look (specs : List OptionSpec) (s : Settings) (arg : String) : Scan :=
  match s.awaiting? with
  | some o =>
      if looksLikeOption arg then .stop (.missingValue o.long)
      else s.store o arg
  | none =>
    if s.pastOptions then .go { s with arguments := s.arguments ++ [arg] }
    else
      match arg.toList with
      | ['-', '-'] => .go { s with pastOptions := true }
      | '-' :: '-' :: rest =>
        match Text.cutFirst '=' rest with
        | (name, []) => s.long specs (String.ofList name) none
        | (name, _ :: value) =>
            s.long specs (String.ofList name) (some (String.ofList value))
      | '-' :: letter :: after => s.short specs letter after
      | _ => .go { s with arguments := s.arguments ++ [arg] }

/-- Looks at all arguments of a command, each of which may
be refused at once. -/
def scan (specs : List OptionSpec) (accept : List String → Option UsageError) :
    Settings → List String → Scan
  | s, [] =>
    match s.awaiting? with
    | some o => .stop (.missingValue o.long)
    | none => .go s
  | s, arg :: rest =>
    match s.look specs arg with
    | .go s =>
      match accept s.arguments with
      | some e => .stop e
      | none => scan specs accept s rest
    | done => done

end Settings

-- ================================================================ commands

namespace Request

/-- Refuses every argument. -/
def noArguments : List String → Option UsageError
  | [] => none
  | arg :: _ => some (.unexpectedArgument arg)

/-- Accepts the name of one shell. -/
def oneShell : List String → Option UsageError
  | [] => none
  | shell :: rest =>
    if (Shell.ofName? shell).isNone then some (.unknownShell shell)
    else noArguments rest

/-- The options of the command that writes a starting record. -/
def startOptions : List OptionSpec :=
  [⟨"kind", some 'k', .text⟩, ⟨"output", some 'o', .path⟩,
    ⟨"force", none, .flag⟩]

/-- The options of the command that validates a record. -/
def checkOptions : List OptionSpec := [⟨"config", some 'c', .path⟩]

/-- The options of the command that writes sources. -/
def generateOptions : List OptionSpec :=
  [⟨"config", some 'c', .path⟩, ⟨"output", some 'o', .path⟩,
    ⟨"versioned", none, .flag⟩, ⟨"dry-run", none, .flag⟩]

/-- A path option, or the default record. -/
def recordPath (s : Settings) (option : String) : String :=
  (s.value? option).getD Command.defaultRecord

/-- The request that a command's name and scanned arguments make. -/
def ofScan (topic : String) (make : Settings → Except UsageError Command) :
    Scan → Except UsageError Request
  | .go s => (make s).map .run
  | .help => .ok (.help (some topic))
  | .stop e => .error e

/-- The command that completions are asked by. -/
def completionsOf (s : Settings) : Except UsageError Command :=
  match s.arguments with
  | shell :: _ =>
    match Shell.ofName? shell with
    | some shell => .ok (.completions shell)
    | none => .error (.unknownShell shell)
  | [] => .error .missingShell

/-- The names that an explanation can be asked for. -/
def topics : List String :=
  ["init", "check", "generate", "completions", "help"]

/-- The request for an explanation. -/
def helpOn : List String → Except UsageError Request
  | [] => .ok (.help none)
  | topic :: rest =>
    if !topics.contains topic then .error (.unknownCommand topic)
    else
      match rest with
      | [] => .ok (.help (some topic))
      | given :: _ => .error (.unknownCommand given)

/-- The request of a command's name and the arguments after it. -/
def ofCommand (name : String) (args : List String) :
    Except UsageError Request :=
  match name with
  | "init" =>
    ofScan name (fun s =>
        .ok (.start ((s.value? "kind").getD "ERC721") (recordPath s "output")
          (s.isSet "force")))
      (Settings.empty.scan startOptions noArguments args)
  | "check" =>
    ofScan name (fun s => .ok (.check (recordPath s "config")))
      (Settings.empty.scan checkOptions noArguments args)
  | "generate" =>
    ofScan name (fun s =>
        .ok (.generate (recordPath s "config") (s.value? "output")
          (s.isSet "versioned")
          (s.isSet "dry-run")))
      (Settings.empty.scan generateOptions noArguments args)
  | "completions" =>
    ofScan name completionsOf (Settings.empty.scan [] oneShell args)
  | "help" => helpOn args
  | _ => .error (.unknownCommand name)

/-- The request of all arguments. Before the command there are two options,
and each of them decides at once. -/
def parse : List String → Except UsageError Request
  | [] => .error .missingCommand
  | arg :: rest =>
    match arg.toList with
    | '-' :: 'V' :: _ => .ok .version
    | '-' :: 'h' :: _ => .ok (.help none)
    | '-' :: _ :: _ =>
      if arg = "--version" then .ok .version
      else if arg = "--help" then .ok (.help none)
      else .error (.unknownOption arg)
    | _ => ofCommand arg rest

end Request

end TokenForge
