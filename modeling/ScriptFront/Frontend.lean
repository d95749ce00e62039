import ScriptFront.Parse.Run

/-!
# The front end

Everything a host sets up once and uses for many scripts: settings, extensions, lexical rules, and
the modules and functions that scripts may use without declaring them.

Parsing is a function of this record and the text. A script cannot change the set-up: the names it
defines are kept in the table of its own program, which starts from the symbols of the host. The
same `Frontend` therefore parses one script after the other, each as if it were the first.

The bound on the length of a script is checked before anything is read. Every failure carries the
name of the script, if the settings give one.
-/

namespace ScriptFront

/-- A reusable set-up for parsing scripts. -/
structure Frontend where
  settings : Settings
  registry : Registry
  /-- Changes to the token stream. -/
  rules : SpellingRules
  /-- The symbols of the host, which every script starts with. -/
  host : SymbolTable

namespace Frontend

/-- A set-up with nothing but settings. -/
def ofSettings (settings : Settings) : Frontend := ⟨settings, .empty, .empty, .empty⟩

/-- The set-up without any choices. -/
def standard : Frontend := ofSettings .standard

instance : Inhabited Frontend := ⟨standard⟩

/-- Add an extension of the grammar. -/
def register (f : Frontend) (extension : Extension) : Except ScriptError Frontend :=
  match f.registry.register extension with
  | .ok registry => .ok { f with registry }
  | .error e => .error e

def registerLexical (f : Frontend) (extension : LexExtension) : Frontend :=
  { f with registry := f.registry.registerLexical extension }

/-- Let a name stand for a module of the host. -/
def defineModule (f : Frontend) (name : String) : Frontend :=
  { f with host := f.host.defineModule name }

/-- Let scripts call a function of the host. -/
def defineFunction (f : Frontend) (signature : Signature) : Frontend :=
  { f with host := f.host.defineFunction signature }

/-- How scripts are cut into tokens. -/
def dialect (f : Frontend) : Dialect :=
  { marker := f.settings.marker
    rules := f.rules
    extensions := f.registry.lexical
    maxNesting := f.settings.limits.maxInterpolationDepth }

/-- What stays the same while a script is parsed. -/
def context (f : Frontend) : ParseContext := ⟨f.settings.limits, f.registry⟩

/-- The name of the script, put into a failure. -/
def named {α : Type} (f : Frontend) : Except ScriptError α → Except ScriptError α
  | .ok a => .ok a
  | .error e => .error (e.inFile f.settings.file)

/-- The significant tokens of a text. -/
def tokenize (f : Frontend) (text : String) : Except ScriptError (List Token) :=
  f.named (Lexer.ofText f.dialect text).tokenize

/-- A window on the tokens of a text. -/
def window (f : Frontend) (text : String) : Except ScriptError (Window Lexer) :=
  Window.ofSource (Lexer.ofText f.dialect text) f.settings.lookahead

/-- Parse a script. -/
def parse (f : Frontend) (text : String) : Except ScriptError Program :=
  let max := f.settings.limits.maxScriptLength
  f.named <|
    if max < text.length then .error (.ofCause .start (.scriptTooLong text.length max))
    else match f.window text with
      | .error e => .error e
      | .ok window => Parse.parseProgram f.context window f.host

end Frontend

/-- The significant tokens of a text without rules and extensions. -/
def tokenize (text : String) : Except ScriptError (List Token) :=
  (Lexer.ofText (.plain Dialect.defaultMarker) text).tokenize

/-- Parse a script with nothing set up. -/
def parse (text : String) : Except ScriptError Program := Frontend.standard.parse text

end ScriptFront
