import ScriptFront.Document.Data
import ScriptFront.Document.Describe
import ScriptFront.Document.Outline
import ScriptFront.Extension.Standard
import ScriptFront.Settings.Reading

/-!
# The command line

Four commands work on script files one after the other: `check` says whether each parses, `tokens`
lists its tokens, `ast` shows its syntax tree as an outline or as structured data, and `fmt` writes
it in canonical form. A file that cannot be read or parsed is reported, and the others are still
worked on.

A run is a function of the arguments and of the contents of the files they name. What it leaves is
an exit code and two texts.

## What a run depends on

The program around this module reads files and writes texts and does nothing else, so all that a
user can observe is decided by `run`. A failure of one script does not stop the run: its message
goes to the errors, and the run ends with the code 1 after the other scripts. Only arguments or
settings that cannot be used end it at once, with the code 2.
-/

namespace ScriptFront.CommandLine

/-- What is done with each script. -/
inductive Command where
  /-- Say whether it parses. -/
  | check
  /-- List its tokens. -/
  | tokens
  /-- Show its syntax tree, as structured data if the flag is set. -/
  | ast (json : Bool)
  /-- Write it in canonical form. -/
  | fmt
deriving DecidableEq, Repr

/-- What the arguments say. -/
structure Invocation where
  /-- The command, if one was given. -/
  command : Option Command
  config : Option String
  /-- How far extensions may look ahead. -/
  lookahead : Option Nat
  /-- Whether the standard extensions are left out. -/
  noPlugins : Bool
  files : List String
deriving Repr

def Invocation.empty : Invocation := ⟨none, none, none, false, []⟩

def Command.ofName? : String → Option Command
  | "check" => some .check
  | "tokens" => some .tokens
  | "ast" => some (.ast false)
  | "fmt" => some .fmt
  | _ => none

/-- An argument that is no option: the command, or else a file. -/
def Invocation.addWord (i : Invocation) (word : String) : Except String Invocation :=
  match i.command with
  | some _ => .ok { i with files := i.files ++ [word] }
  | none =>
    match Command.ofName? word with
    | some command => .ok { i with command := some command }
    | none => .error s!"error: unrecognized subcommand '{word}'"

/-- The arguments with every option that holds its value behind an equals sign taken apart. Behind
a double dash there are no options. -/
def spread : List String → List String
  | [] => []
  | "--" :: rest => "--" :: rest
  | word :: rest =>
    let cs := word.toList
    match cs.dropWhile (· != '=') with
    | '=' :: value =>
      if "--".toList.isPrefixOf cs then
        String.ofList (cs.takeWhile (· != '=')) :: String.ofList value :: spread rest
      else word :: spread rest
    | _ => word :: spread rest

/-- What the arguments say, after what those before them said. -/
def parseArgs : List String → Invocation → Except String Invocation
  | [], i => if i.command.isSome then .ok i else .error "error: a subcommand is required"
  | "--" :: rest, i => rest.foldlM Invocation.addWord i
  | "--config" :: path :: rest, i => parseArgs rest { i with config := some path }
  | "--lookahead" :: k :: rest, i =>
    match Matching.natural? Settings.maxNatural k.toList with
    | some k => parseArgs rest { i with lookahead := some k }
    | none => .error s!"error: invalid value '{k}' for '--lookahead <K>'"
  | "--no-plugins" :: rest, i => parseArgs rest { i with noPlugins := true }
  | "--json" :: rest, i =>
    match i.command with
    | some (.ast _) => parseArgs rest { i with command := some (.ast true) }
    | _ => .error "error: unexpected argument '--json' found"
  | word :: rest, i =>
    match i.addWord word with
    | .ok i => parseArgs rest i
    | .error e => .error e

def invocation (args : List String) : Except String Invocation := parseArgs (spread args) .empty

/-- What a run leaves. -/
structure Outcome where
  code : Nat
  output : String
  errors : String
deriving DecidableEq, Repr

/-- The text of a file, or why it cannot be read: it is missing, or its bytes are no text. -/
def contents (bytes : Option ByteArray) : Except String String :=
  match bytes with
  | none => .error "No such file or directory (os error 2)"
  | some bytes =>
    match String.fromUTF8? bytes with
    | some text => .ok text
    | none => .error "stream did not contain valid UTF-8"

/-- The settings of a run. -/
def settings (i : Invocation) (read : String → Except String String) :
    Except String Settings := do
  let settings ← match i.config with
    | none => pure Settings.standard
    | some path =>
      match read path with
      | .error e => .error s!"{path}: {e}\n"
      | .ok text =>
        match Settings.ofText text with
        | .ok settings => pure settings
        | .error e => .error s!"{path}: {e.name}\n"
  return match i.lookahead with
    | none => settings
    | some k => settings.withLookahead k

def tokenLine (t : Token) : String :=
  s!"{t.position.line}:{t.position.column}\t{t.kind.name}\t{Document.plainText t.text}\n"

/-- The work on one script: what is written to standard output and to standard error, or a
failure. -/
def work (command : Command) (path : String) (f : Frontend) (text : String) :
    Except ScriptError (String × String) :=
  match command with
  | .tokens => (f.tokenize text).map fun tokens ↦ (String.join (tokens.map tokenLine), "")
  | .check =>
    (f.parse text).map fun p ↦
      ("", s!"{path}: valid ({p.statements.length} statement(s), " ++
        s!"{p.symbols.scopeCount} scope(s))\n")
  | .ast true => (f.parse text).map fun p ↦ (p.describe.data.render ++ "\n", "")
  | .ast false => (f.parse text).map fun p ↦ (p.describe.outline ++ "\n", "")
  | .fmt => (f.parse text).map fun p ↦ (p.text, "")

/-- The set-up for one script. -/
def frontend (settings : Settings) (noPlugins : Bool) (path : String) :
    Except ScriptError Frontend :=
  let f := Frontend.ofSettings { settings with file := some path }
  if noPlugins then .ok f else Standard.registerAll f

/-- Work on one script, after what was done before. -/
def step (command : Command) (noPlugins : Bool) (settings : Settings)
    (read : String → Except String String) (done : Outcome) (path : String) : Outcome :=
  match read path with
  | .error e => { done with code := 1, errors := done.errors ++ s!"{path}: {e}\n" }
  | .ok text =>
    match (frontend settings noPlugins path).bind fun f ↦ work command path f text with
    | .error e => { done with code := 1, errors := done.errors ++ s!"{path}: {e.message}\n" }
    | .ok (output, errors) =>
      { done with output := done.output ++ output, errors := done.errors ++ errors }

/-- Run on what the arguments say. -/
def execute (i : Invocation) (command : Command) (read : String → Except String String) :
    Outcome :=
  match settings i read with
  | .error e => ⟨2, "", e⟩
  | .ok settings =>
    if i.files.isEmpty then ⟨2, "", "Error: no files specified\n"⟩
    else i.files.foldl (step command i.noPlugins settings read) ⟨0, "", ""⟩

/-- Run with arguments and files. -/
def run (args : List String) (read : String → Except String String) : Outcome :=
  match invocation args with
  | .error e => ⟨2, "", e ++ "\n"⟩
  | .ok i =>
    match i.command with
    | none => ⟨2, "", ""⟩
    | some command => execute i command read

/-- The files that a run may read. -/
def paths (args : List String) : List String :=
  match invocation args with
  | .error _ => []
  | .ok i => i.config.toList ++ i.files

end ScriptFront.CommandLine
