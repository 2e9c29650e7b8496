import Phrasebook.Console
import Phrasebook.Project

/-!
The command line: which command it asks for, and what the command does.
-/
namespace Phrasebook

structure ExtractArgs where
  request : Request := {}
  verbose : Bool := false
  apply : Bool := false
deriving DecidableEq, Repr

inductive Command where
  /-- No command at all. -/
  | overview
  | extract (args : ExtractArgs)
  | init
deriving DecidableEq, Repr

/-- Why a command line is not run. -/
inductive UsageFault where
  | help
  | version
  | unknownCommand
  | unknownArgument
  /-- An option without its value. -/
  | noValue
  /-- A flag with a value. -/
  | extraValue
  /-- An option given twice. -/
  | repeated
deriving DecidableEq, Repr

def UsageFault.code : UsageFault → Nat
  | .help | .version => 0
  | _ => 2

def UsageFault.message : UsageFault → String
  | .help => "Usage: glotmod [extract [--source-root PATH] [--translations-file PATH] [-v] "
      ++ "[--apply] | init | help]"
  | .version => "glotmod 0.1.0"
  | .unknownCommand => "error: unrecognized subcommand"
  | .unknownArgument => "error: unexpected argument found"
  | .noValue => "error: a value is required for an option"
  | .extraValue => "error: unexpected value for a flag"
  | .repeated => "error: an argument cannot be used multiple times"

/-! ### Arguments -/

/-- Options that take a value. -/
inductive ValueOption where
  | sourceRoot
  | translationsFile
deriving DecidableEq, Repr

def ValueOption.named? : String → Option ValueOption
  | "source-root" => some .sourceRoot
  | "translations-file" => some .translationsFile
  | _ => none

def ExtractArgs.given (a : ExtractArgs) : ValueOption → Option String
  | .sourceRoot => a.request.sourceRoot
  | .translationsFile => a.request.translationsFile

/-- An option is given at most once, and with a value. -/
def ExtractArgs.set (a : ExtractArgs) (o : ValueOption) (value : String) :
    Except UsageFault ExtractArgs :=
  if (a.given o).isSome then .error .repeated
  else if value == "" then .error .noValue
  else
    match o with
    | .sourceRoot => .ok { a with request := { a.request with sourceRoot := some value } }
    | .translationsFile =>
      .ok { a with request := { a.request with translationsFile := some value } }

def ExtractArgs.setVerbose (a : ExtractArgs) : Except UsageFault ExtractArgs :=
  if a.verbose then .error .repeated else .ok { a with verbose := true }

def ExtractArgs.setApply (a : ExtractArgs) : Except UsageFault ExtractArgs :=
  if a.apply then .error .repeated else .ok { a with apply := true }

/-- An option whose value has not come yet, or has just come. -/
inductive Pending where
  | none
  | open (option : ValueOption)
  | value (option : ValueOption) (value : String)
deriving DecidableEq, Repr

/-- Takes up the option that came before. -/
def ExtractArgs.settle (a : ExtractArgs) : Pending → Except UsageFault ExtractArgs
  | .none => .ok a
  | .open _ => .error .noValue
  | .value o value => a.set o value

/-- A name and, after an equals sign, a value. -/
def splitValue (cs : List Char) : String × Option String :=
  let name := cs.takeWhile (· != '=')
  (String.ofList name,
    if name.length < cs.length then some (String.ofList (cs.drop (name.length + 1))) else none)

/-- Flags of one letter in a row. -/
def shortFlags (a : ExtractArgs) : List Char → Except UsageFault ExtractArgs
  | [] => .ok a
  | 'v' :: rest => do shortFlags (← a.setVerbose) rest
  | 'h' :: _ => .error .help
  | _ :: _ => .error .unknownArgument

/-- The arguments of `extract`. An option that still waits for its value is forgotten when an
argument after it is not known. -/
def readExtract (a : ExtractArgs) (p : Pending) : List String → Except UsageFault ExtractArgs
  | [] => a.settle p
  | arg :: rest =>
    match arg.toList with
    | ['-', '-'] => if rest.isEmpty then a.settle p else .error .unknownArgument
    | '-' :: '-' :: long =>
      match splitValue long with
      | ("apply", none) => do readExtract (← (← a.settle p).setApply) .none rest
      | ("verbose", none) => do readExtract (← (← a.settle p).setVerbose) .none rest
      | ("help", none) => do
        let _ ← a.settle p
        .error .help
      | ("apply", some _) | ("verbose", some _) | ("help", some _) => .error .extraValue
      | (name, value) =>
        match ValueOption.named? name, value with
        | some o, none => do readExtract (← a.settle p) (.open o) rest
        | some o, some v => do readExtract (← (← a.settle p).set o v) .none rest
        | none, _ => .error .unknownArgument
    | '-' :: c :: short =>
      if c == 'v' || c == 'h' then do
        readExtract (← shortFlags (← a.settle p) (c :: short)) .none rest
      else .error .unknownArgument
    | _ =>
      match p with
      | .open o => readExtract a (.value o arg) rest
      | _ => .error .unknownArgument

/-- The arguments of `init`, which takes none. -/
def readInit : List String → Except UsageFault Command
  | [] | ["--"] => .ok .init
  | "--help" :: _ => .error .help
  | arg :: _ =>
    if arg.startsWith "-h" then .error .help
    else if arg.startsWith "--help=" then .error .extraValue
    else .error .unknownArgument

/-- Help for a command. -/
def readHelp : List String → UsageFault
  | [] | ["extract"] | ["init"] | ["help"] => .help
  | _ => .unknownCommand

def Command.read : List String → Except UsageFault Command
  | [] | ["--"] => .ok .overview
  | "extract" :: rest => (readExtract {} .none rest).map .extract
  | "init" :: rest => readInit rest
  | "help" :: rest => .error (readHelp rest)
  | "--help" :: _ => .error .help
  | "--version" :: _ => .error .version
  | "--" :: arg :: _ =>
    .error (if ["extract", "init", "help"].contains arg then .unknownArgument else .unknownCommand)
  | arg :: _ =>
    match arg.toList with
    | '-' :: '-' :: long =>
      match splitValue long with
      | ("help", some _) | ("version", some _) => .error .extraValue
      | _ => .error .unknownArgument
    | '-' :: 'h' :: _ => .error .help
    | '-' :: 'V' :: _ => .error .version
    | '-' :: _ :: _ => .error .unknownArgument
    | _ => .error .unknownCommand

/-! ### Commands -/

/-- What a command prints and leaves behind. -/
structure CommandResult where
  exit : ExitStatus
  stdout : String := ""
  stderr : String := ""
  tree : FileTree

def overviewText : String :=
  unlines ["A codemod that extracts hardcoded CJK text from JSX/TSX sources into translation keys",
    "", "Usage: glotmod [COMMAND]", "", "Commands:",
    "  extract  Replace CJK text with translation lookups and record it in the translation table",
    "  init     Initialize a new .glotmodrc.json configuration file",
    "  help     Print this message or the help of the given subcommand(s)", "", "Options:",
    "  -h, --help     Print help", "  -V, --version  Print version"]

def errorLine (message : String) : String := "Error: " ++ message

/-- Makes a settings file with all defaults. -/
def runInit (t : FileTree) : CommandResult :=
  if t.pathExists Settings.fileName then
    { exit := .failure, stderr := unlines [errorLine (Settings.fileName ++ " already exists")]
      tree := t }
  else
    match t.write Settings.fileName (Settings.toJson {}).print with
    | .ok tree =>
      { exit := .success, tree
        stdout := unlines [successMark ++ " Created " ++ Settings.fileName] }
    | .error cause =>
      { exit := .error, tree := t
        stderr := unlines
          [errorLine ("Failed to write " ++ Settings.fileName ++ ": " ++ cause.message)] }

def openingLines (o : Opened) (verbose : Bool) : List String :=
  (if verbose && !o.fromFile then
    ["Note: No " ++ Settings.fileName ++ " found, using default configuration"] else [])
  ++ o.log.filterMap (LogLine.shown verbose)
  ++ (if 0 < o.skipped then
    ["Warning: " ++ toString o.skipped ++ " path(s) skipped due to access errors"
      ++ (if verbose then "" else " (use -v for details)")] else [])

/-- Opens the project, runs over its files and prints what came of it. -/
def runExtract (t : FileTree) (a : ExtractArgs) : CommandResult :=
  let o := Project.open t a.request
  match o.project with
  | .error (.settings cause) =>
    { exit := .error, stderr := unlines [errorLine cause.message], tree := t }
  | .error fault =>
    { exit := .error, tree := t
      stderr := unlines (openingLines o a.verbose ++ [errorLine fault.message]) }
  | .ok project =>
    let (result, r) := project.run FileTree.disk t hashKeys () a.apply
    let lines := openingLines o a.verbose ++ r.log.filterMap (LogLine.shown a.verbose)
    match result with
    | .error fault =>
      { exit := .error, stderr := unlines (lines ++ [errorLine fault.message]), tree := r.stored }
    | .ok _ =>
      let summary : Summary := ⟨r.report, a.apply, project.settings.translationsFile⟩
      { exit := r.report.exitStatus a.apply
        stdout := unlines (summary.lines a.verbose)
        stderr := unlines lines
        tree := r.stored }

def Command.run (t : FileTree) : Command → CommandResult
  | .overview => { exit := .success, stdout := overviewText, tree := t }
  | .init => runInit t
  | .extract args => runExtract t args

end Phrasebook
