/-
What the program does to files. Everything that a command does is decided
from the texts that it reads before anything is changed, and it writes one
file at most: the one that its output path leads to
(`outputPath?_of_action`). So no other file changes (`frame_invoke`),
whatever the workspace, and a run that fails changes none.

A dry run and the run itself print and write one text: both do what the
source of the record says, and the source does not depend on where it goes
(`generate_writes_dryRun`). A record that can be read has a source, as no
record runs into a conflict, and its name is one word, so that a run without
an output path leaves everything but one entry of the working directory
alone (`generate_here`).
-/
import TokenForge.Command.Outcome
import TokenForge.Proofs.Options.RoundTrip
import TokenForge.Proofs.Token.Injection
import TokenForge.Proofs.Workspace.Writing

namespace TokenForge

open Workspace

-- ============================================================ valid records

/-- Every record has a source. -/
theorem OptionRecord.source_ok (r : OptionRecord) (versioned : Bool) :
    ∃ source, r.source versioned = .ok source := by
  obtain ⟨c, -, hcontracts, hresolved⟩ := r.contracts_ok
  exact ⟨_, source_of_contracts versioned hcontracts hresolved⟩

namespace Document

variable {d : Document} {r : OptionRecord}

theorem isIdentifier_of_read (h : d.read = .ok r) :
    Solidity.isIdentifier r.name = true := by
  unfold read at h
  split at h
  · cases h
  next r' _ =>
    split at h
    · cases h
    next hvalid =>
      cases h
      exact (OptionRecord.contained_of_validate hvalid).name

theorem open_eq_ok_iff {texts : String → Option String} {path : String} :
    Document.open texts path = .ok (d, r)
      ↔ ∃ text, texts path = some text ∧ d = ⟨text, path⟩
        ∧ d.read = .ok r := by
  unfold Document.open load
  cases texts path with
  | none => exact iff_of_false nofun nofun
  | some text =>
      show (do let r ← (⟨text, path⟩ : Document).read; .ok (_, r)) = _ ↔ _
      constructor
      · intro h
        cases hread : (⟨text, path⟩ : Document).read with
        | error e =>
            rw [hread] at h
            cases h
        | ok r' =>
            rw [hread] at h
            cases h
            exact ⟨text, rfl, rfl, hread⟩
      · intro h
        obtain ⟨text', htext, rfl, hread⟩ := h
        cases htext
        rw [hread]
        rfl

/-- A valid record is read from a file that it was written to. -/
theorem open_toToml {w : Workspace} {path : String}
    (hfile : w.readBytes? path = some r.toToml.toUTF8)
    (hvalid : r.validate ⟨r.toToml, path⟩ = .ok ()) :
    Document.open w.readText? path = .ok (⟨r.toToml, path⟩, r) := by
  refine open_eq_ok_iff.2 ⟨r.toToml, readText?_of_bytes hfile, rfl, ?_⟩
  unfold read
  rw [OptionRecord.ofToml_toToml]
  dsimp only
  rw [hvalid]

/-- The name of a record that was opened is one word. -/
theorem isIdentifier_of_open {texts : String → Option String} {path : String}
    (h : Document.open texts path = .ok (d, r)) :
    Solidity.isIdentifier r.name = true := by
  obtain ⟨text, -, -, hread⟩ := open_eq_ok_iff.1 h
  exact isIdentifier_of_read hread

end Document

/-- A name without separators of paths, and without the dot that
an extension follows. -/
def OneSegment (name : String) : Prop :=
  ∀ c ∈ name.toList, c ≠ '/' ∧ c ≠ '\\' ∧ c ≠ '.'

theorem oneSegment_of_isIdentifier {name : String}
    (h : Solidity.isIdentifier name = true) :
    OneSegment name := by
  intro c hc
  have hpart := List.all_eq_true.1 (Solidity.all_isIdentifierPart h).2 c hc
  refine ⟨?_, ?_, ?_⟩
  all_goals
    intro heq
    rw [heq] at hpart
    revert hpart
    decide

/-- A file with that extension is named like no text with another end. -/
theorem sol_ne (name : String) {other : String}
    (h : other.toList.getLast? ≠ some 'l') :
    name ++ ".sol" ≠ other := by
  intro heq
  apply h
  rw [← heq, String.toList_append]
  exact List.mem_getLast?_append_of_mem_getLast? rfl

/-- The file of a contract stands for itself as a path. -/
theorem plainName_sol {name : String} (h : Solidity.isIdentifier name = true) :
    PlainName (name ++ ".sol") where
  whole := by
    intro hmem
    rw [String.toList_append] at hmem
    rcases List.mem_append.1 hmem with hmem | hmem
    · exact (oneSegment_of_isIdentifier h '/' hmem).1 rfl
    · revert hmem
      decide
  notStill := by
    unfold Path.isStill
    rw [beq_eq_false_iff_ne.2 (sol_ne name (by decide)), Bool.false_or]
    exact beq_eq_false_iff_ne.2 (sol_ne name (by decide))
  notUp := sol_ne name (by decide)

-- ================================================================ commands

namespace Command

variable {w : Workspace} {command : Command}

/-- The path that a command may write, given the texts of files. -/
def outputPath? (read : String → Option String) : Command → Option String
  | .start _ output _ => some output
  | .check _ => none
  | .generate config output? _ dryRun =>
    if dryRun then none
    else output?.or ((Document.open read config).toOption.map
      fun (_, r) => r.name ++ ".sol")
  | .completions _ => none

/-- Commands that have nothing to write in a workspace. -/
inductive Idle (w : Workspace) : Command → Prop where
  | check (config : String) : Idle w (.check config)
  | dryRun (config : String) (output? : Option String) (versioned : Bool) :
    Idle w (.generate config output? versioned true)
  /-- The record cannot be read, is none, or is not valid. -/
  | refused {command : Command} {config : String} {e : Diagnostic}
      (hrecord : command.recordPath? = some config)
    (hopen : Document.open w.readText? config = .error e) : Idle w command
  /-- There is something already that must not be replaced. -/
  | existing (kind : String) {output : String}
      (hthere : w.pathExists output = true) :
    Idle w (.start kind output false)
  | completions (shell : Shell) : Idle w (.completions shell)

/-- What is generated depends on the record that was opened,
and on no other file. -/
theorem action_generate_of_open {read : String → Option String}
    {config : String} {d : Document} {r : OptionRecord}
    (hopen : Document.open read config = .ok (d, r)) (output? : Option String)
    (versioned dryRun : Bool) :
    (Command.generate config output? versioned dryRun).action read
      = generating r output? dryRun (r.source versioned) := by
  simp only [action, hopen]

/-- A record that cannot be opened makes the command fail,
whatever its options. -/
theorem action_of_refused {read : String → Option String} {config : String}
    {e : Diagnostic} (hrecord : command.recordPath? = some config)
    (hopen : Document.open read config = .error e) :
    command.action read = .fail e.message := by
  cases command with
  | check config' =>
      cases hrecord
      simp only [action, hopen]
  | generate config' output? versioned dryRun =>
      cases hrecord
      simp only [action, hopen]
  | start kind output force => cases hrecord
  | completions shell => cases hrecord

/-- What a command writes goes to its output path. -/
theorem outputPath?_of_action {read : String → Option String}
    {file : OutputFile} {report : WriteResult → String}
    (h : command.action read = .write file report) :
    command.outputPath? read = some file.path := by
  cases command with
  | start kind output force =>
      cases h
      rfl
  | check config =>
      simp only [action] at h
      split at h
      · cases h
      next d r _ =>
        unfold showing at h
        split at h <;> cases h
  | generate config output? versioned dryRun =>
      simp only [action] at h
      split at h
      · cases h
      next d r hopen =>
        unfold generating at h
        split at h
        · cases h
        · split at h
          · cases h
          next hwrites =>
            cases h
            simp only [outputPath?, if_neg hwrites, hopen]
            cases output? with
            | some output => rfl
            | none => rfl
  | completions shell => cases h

/-- A command that is idle shows a text, fails, or finds
its file in the way. -/
theorem perform_of_idle (h : command.Idle w) :
    (w.perform (command.action w.readText?)).2 = w := by
  cases h with
  | check config =>
      simp only [action]
      split
      · rfl
      · unfold showing
        split <;> rfl
  | dryRun config output? versioned =>
      simp only [action]
      split
      · rfl
      · unfold generating
        split <;> rfl
  | refused hrecord hopen =>
      rw [action_of_refused hrecord hopen]
      rfl
  | existing kind hthere =>
      simp only [action, perform]
      rw [save_of_existing rfl hthere]
  | completions shell => rfl

end Command

-- ==================================================================== runs

variable {w : Workspace} {args : List String} {command : Command}

theorem Workspace.invoke_eq (w : Workspace)
    (hargs : Request.parse args = .ok (.run command)) :
    w.invoke args = w.perform (command.action w.readText?) := by
  unfold Workspace.invoke Request.actionOf
  rw [hargs]
  rfl

/-- Arguments that ask for no command are answered with a text. -/
theorem invoke_of_no_command
    (h : ∀ command, Request.parse args ≠ .ok (.run command)) :
    (w.invoke args).2 = w := by
  unfold Workspace.invoke Request.actionOf
  cases hparse : Request.parse args with
  | error e => rfl
  | ok request =>
      cases request with
      | run command => exact absurd hparse (h command)
      | version => rfl
      | help topic? => rfl

theorem Workspace.perform_write (w : Workspace) (file : OutputFile)
    (report : WriteResult → String) :
    w.perform (.write file report)
      = (.ofWrite file report (w.save file).2, (w.save file).1) := rfl

/-- A file that the action does not write keeps what it holds, and so does
every file if the action fails. -/
theorem Workspace.perform_others {w : Workspace} {a : Action} {p : Place}
    (h : (w.perform a).1.code ≠ 0 ∨ ∀ file report, a = .write file report →
      (w.perform a).2.place? file.path ≠ some p) :
    (w.perform a).2.fileAt? p = w.fileAt? p := by
  cases a with
  | «show» text => rfl
  | fail message => rfl
  | misuse message => rfl
  | write file report =>
      rw [perform_write] at h ⊢
      rcases w.save_cases file
        with ⟨hsave, -⟩ | ⟨w', hsave, hwritten⟩ | ⟨w', hsave, hmade⟩
      · rw [hsave]
      · rw [hsave] at h ⊢
        apply hwritten.others
        rcases h with hfails | hother
        · exact absurd rfl hfails
        · exact hother file report rfl
      · rw [hsave]
        exact hmade.fileAt? p

theorem frame_invoke (hargs : Request.parse args = .ok (.run command))
    {p : Place}
    (hother : ∀ path ∈ command.outputPath? w.readText?,
      (w.invoke args).2.place? path ≠ some p) :
    (w.invoke args).2.fileAt? p = w.fileAt? p := by
  rw [w.invoke_eq hargs] at hother ⊢
  apply perform_others
  right
  intro file report haction
  exact hother file.path (Command.outputPath?_of_action haction)

-- ========================================================== generated sources

variable {config : String} {d : Document} {r : OptionRecord}
  {output? : Option String} {versioned : Bool}

/-- A run on a record that can be read shows the source, or writes it where it
is told to, else into the file that is named after the contract. -/
theorem invoke_generate (hopen : Document.open w.readText? config = .ok (d, r))
    (output? : Option String) (versioned : Bool) :
    ∃ source, r.source versioned = .ok source
      ∧ (∀ args,
        Request.parse args
          = .ok (.run (.generate config output? versioned true)) →
        w.invoke args = (.success source, w))
      ∧ ∀ args,
        Request.parse args
          = .ok (.run (.generate config output? versioned false)) →
        ∃ report, w.invoke args = w.perform
          (.write ⟨output?.getD (r.name ++ ".sol"), source, .always⟩
            report) := by
  obtain ⟨source, hsource⟩ := r.source_ok versioned
  refine ⟨source, hsource, fun args hargs => ?_, fun args hargs => ?_⟩
  · rw [w.invoke_eq hargs, Command.action_generate_of_open hopen, hsource]
    rfl
  · rw [w.invoke_eq hargs, Command.action_generate_of_open hopen, hsource]
    exact ⟨_, rfl⟩

/-- A run that is refused says so, and does nothing. -/
theorem invoke_refused {e : Diagnostic}
    (hargs : Request.parse args = .ok (.run command))
    (hrecord : command.recordPath? = some config)
    (hopen : Document.open w.readText? config = .error e) :
    w.invoke args = (.failure e.message, w) := by
  rw [w.invoke_eq hargs, Command.action_of_refused hrecord hopen]
  rfl

/-- What a run that succeeds leaves under its output path is what a dry
run with the same options shows; and if the dry run fails, so does the
run, in the same way. -/
theorem generate_writes_dryRun {dryArgs : List String}
    (hargs : Request.parse args
      = .ok (.run (.generate config output? versioned false)))
    (hdry : Request.parse dryArgs
      = .ok (.run (.generate config output? versioned true))) :
    ((w.invoke dryArgs).1.code ≠ 0 → (w.invoke args).1 = (w.invoke dryArgs).1)
      ∧ ((w.invoke args).1.code = 0 →
        ∃ path ∈ (Command.generate config output? versioned false).outputPath?
          w.readText?,
          (w.invoke args).2.readBytes? path
            = some (w.invoke dryArgs).1.output.toUTF8) := by
  cases hopen : Document.open w.readText? config with
  | error e =>
      rw [invoke_refused hargs rfl hopen, invoke_refused hdry rfl hopen]
      exact ⟨fun _ => rfl, nofun⟩
  | ok opened =>
      obtain ⟨d, r⟩ := opened
      obtain ⟨source, -, hshown, hwritten⟩ :=
        invoke_generate hopen output? versioned
      obtain ⟨report, hrun⟩ := hwritten args hargs
      rw [hshown dryArgs hdry, hrun, perform_write]
      refine ⟨fun hcode => absurd rfl hcode,
        fun hcode => ⟨output?.getD (r.name ++ ".sol"), ?_, ?_⟩⟩
      · simp only [Command.outputPath?, hopen]
        cases output? <;> rfl
      · rcases w.save_cases
            ⟨output?.getD (r.name ++ ".sol"), source, .always⟩ with
          ⟨-, hrule, -⟩ | ⟨w', hsave, hunder⟩ | ⟨w', hsave, -⟩
        · cases hrule
        · rw [hsave]
          exact hunder.found
        · rw [hsave] at hcode
          cases hcode

/-- Without an output path, a run touches one place, and it succeeds exactly if
a file of that name can stand there. -/
theorem generate_here (hopen : Document.open w.readText? config = .ok (d, r))
    (hargs : Request.parse args
      = .ok (.run (.generate config none versioned false))) :
    (∀ p, p ≠ w.here ++ [r.name ++ ".sol"] →
      entry? (w.invoke args).2 p = w.entry? p)
      ∧ ((w.invoke args).1.code = 0 ↔ w.CanHold (r.name ++ ".sol")) := by
  have hname := plainName_sol (Document.isIdentifier_of_open hopen)
  obtain ⟨source, -, -, hwritten⟩ := invoke_generate hopen none versioned
  obtain ⟨report, hrun⟩ := hwritten args hargs
  rw [Option.getD_none] at hrun
  rw [hrun, perform_write, save_plain hname]
  by_cases hhold : w.CanHold (r.name ++ ".sol")
  · rw [if_pos hhold]
    exact ⟨fun p hp => entry?_put_other w hp _, fun _ => hhold, fun _ => rfl⟩
  · rw [if_neg hhold]
    exact ⟨fun p _ => rfl, nofun, fun h => absurd h hhold⟩

-- ============================================================== the theorem

/-- A run changes no file but the one that its output path leads to, and
if it fails it changes none. Nothing at all changes when the arguments are
not understood or only ask for help, in a check, in a dry run, when the
record cannot be read, is none or is not valid, and when a file that must
not be replaced is there.

What a run leaves under its output path is what a dry run with the same options
shows, and if that fails the run fails in the same way. Without an output path
the one place that is touched is in the working directory and named after the
contract, whose name holds no separator and no dot; and a valid record is
written there whenever a file of that name can stand there. -/
theorem invoke_writes_output_only (w : Workspace) (args : List String) :
    ((∀ command, Request.parse args ≠ .ok (.run command)) →
      (w.invoke args).2 = w)
      ∧ ∀ command, Request.parse args = .ok (.run command) →
        let run := w.invoke args
        (∀ p, (∀ path ∈ command.outputPath? w.readText?,
          run.2.place? path ≠ some p) →
            run.2.fileAt? p = w.fileAt? p)
          ∧ (run.1.code ≠ 0 → ∀ p, run.2.fileAt? p = w.fileAt? p)
          ∧ (command.Idle w → run.2 = w)
          ∧ (∀ config output? versioned,
            command = .generate config output? versioned false →
            ∀ dryArgs,
              Request.parse dryArgs
                = .ok (.run (.generate config output? versioned true)) →
              let dry := w.invoke dryArgs
              (dry.1.code ≠ 0 → run.1 = dry.1)
                ∧ (run.1.code = 0 → ∃ path ∈ command.outputPath? w.readText?,
                  run.2.readBytes? path = some dry.1.output.toUTF8))
          ∧ ∀ config versioned,
            command = .generate config none versioned false →
            ∀ d r, Document.open w.readText? config = .ok (d, r) →
              let file := r.name ++ ".sol"
              OneSegment r.name
                ∧ (∀ p, p ≠ w.here ++ [file] → entry? run.2 p = w.entry? p)
                ∧ (run.1.code = 0 ↔ w.CanHold file) := by
  refine ⟨invoke_of_no_command, fun command hargs => ?_⟩
  intro run
  have hrun : run = w.perform (command.action w.readText?) := w.invoke_eq hargs
  refine ⟨fun p hother => frame_invoke hargs hother, fun hfails p => ?_,
    fun hidle => ?_, ?_, ?_⟩
  · rw [hrun] at hfails ⊢
    exact perform_others (.inl hfails)
  · rw [hrun]
    exact Command.perform_of_idle hidle
  · intro config output? versioned hcommand dryArgs hdry
    subst hcommand
    exact generate_writes_dryRun hargs hdry
  · intro config versioned hcommand d r hopen
    subst hcommand
    have hname := Document.isIdentifier_of_open hopen
    exact ⟨oneSegment_of_isIdentifier hname, generate_here hopen hargs⟩

/-- A valid record beside a file that stays and one that is replaced. -/
theorem invoke_writes_token_only :
    let record := OptionRecord.erc1155 { name := "Token" }
    let notes : Place := ["home", "notes.txt"]
    let w : Workspace :=
      ⟨[(["home"], .directory), (notes, .file "keep me".toUTF8),
      (["home", "Token.sol"], .file "old".toUTF8),
      (["home", "solwiz.toml"], .file record.toToml.toUTF8)], ["home"]⟩
    Request.parse ["generate"]
      = .ok (.run (.generate "solwiz.toml" none false false))
      ∧ Request.parse ["generate", "--dry-run"]
        = .ok (.run (.generate "solwiz.toml" none false true))
      ∧ (w.invoke ["generate", "--dry-run"]).2 = w
      ∧ (w.invoke ["generate"]).1.code = 0
      ∧ (w.invoke ["generate"]).2.fileAt? notes = some "keep me".toUTF8
      ∧ (w.invoke ["generate"]).2.readBytes? "Token.sol"
        = some (w.invoke ["generate", "--dry-run"]).1.output.toUTF8 := by
  intro record notes w
  have hargs : Request.parse ["generate"]
      = .ok (.run (.generate "solwiz.toml" none false false)) := by
        decide +kernel
  have hdry : Request.parse ["generate", "--dry-run"]
      = .ok (.run (.generate "solwiz.toml" none false true)) := by
        decide +kernel
  have hvalid : ∀ d,
      (OptionRecord.erc1155 { name := "Token" }).validate d = .ok () := by
    intro d
    rfl
  have hfile : record.name ++ ".sol" = "Token.sol" := by decide +kernel
  have hopen : Document.open w.readText? "solwiz.toml"
      = .ok (⟨record.toToml, "solwiz.toml"⟩, record) := by
    have hplace : w.place? "solwiz.toml" = some ["home", "solwiz.toml"] := by
      decide +kernel
    apply Document.open_toToml
    · rw [readBytes?_eq, hplace]
      rfl
    · exact hvalid _
  obtain ⟨-, -, -, hshown, hplain⟩ :=
    (invoke_writes_output_only w ["generate"]).2 _ hargs
  obtain ⟨-, -, hidle, -⟩ :=
    (invoke_writes_output_only w ["generate", "--dry-run"]).2 _ hdry
  obtain ⟨-, hothers, hcode⟩ := hplain "solwiz.toml" false rfl _ record hopen
  have hhold : w.CanHold (record.name ++ ".sol") := by decide +kernel
  have hwritten : (w.invoke ["generate"]).1.code = 0 := hcode.2 hhold
  refine ⟨hargs, hdry, hidle (.dryRun _ _ _), hwritten, ?_, ?_⟩
  · have hnotes : notes ≠ w.here ++ [record.name ++ ".sol"] := by
      decide +kernel
    exact fileAt?_congr (hothers notes hnotes)
  · obtain ⟨path, hpath, hfound⟩ :=
      (hshown "solwiz.toml" none false rfl ["generate", "--dry-run"] hdry).2
        hwritten
    simp only [Command.outputPath?, hopen] at hpath
    cases hpath
    rw [← hfile]
    exact hfound

end TokenForge
