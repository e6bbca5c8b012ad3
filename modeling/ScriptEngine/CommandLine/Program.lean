import ScriptEngine.CommandLine.Help
import ScriptEngine.Engine.Repl
import ScriptEngine.Settings.File

/-!
# The program

What a command line does, as a dialogue with the host that ends in an exit code.
-/
namespace ScriptEngine

namespace Talk

/-- Asks about the surroundings. -/
def outer (q : OuterRequest) : Talk q.Answer := Dialogue.ask (Request.outer q)

def write (stream : Stream) (text : String) : Talk Unit := outer (.write stream text)

/-- The contents of a file that has to be text. -/
def readText (p : Path) : Talk (Except FileError String) := do
  let contents : Except FileError (List UInt8) ← outer (.readFile p)
  return do
    match Text.decode? (← contents) with
    | some s => .ok s
    | none => .error .notText

end Talk

namespace Settings

/-- Why settings cannot be had. -/
inductive LoadError where
  | unreadable (path : Path) (error : FileError)
  | malformed (path : Path)
deriving Repr

def LoadError.message : LoadError → String
  | unreadable p e => "reading configuration from " ++ p.text ++ ": " ++ e.message
  | malformed p => "parsing configuration " ++ p.text

/-- The messages from the failure down to its cause. -/
def LoadError.causes (e : LoadError) : List String :=
  match e with
  | unreadable _ error => [e.message, error.message]
  | malformed _ => [e.message]

/-- The settings in a file. -/
def ofFile (p : Path) : Talk (Except LoadError Settings) := do
  match ← Talk.readText p with
  | .error e => return .error (.unreadable p e)
  | .ok source =>
    match parse? source with
    | some s => return .ok s
    | none => return .error (.malformed p)

/-- The settings of the given file, of the first place that has some, or else the usual ones; and
the file they are from. -/
def load (home : Path) (explicit : Option Path) :
    Talk (Except LoadError (Settings × Option Path)) := do
  let found : Option Path ←
    match explicit with
    | some p => Dialogue.finished (some p)
    | none => Talk.outer (.firstFile (places home))
  match found with
  | none => return .ok (Settings.default, none)
  | some p => return (← ofFile p).map fun s => (s, some p)

end Settings

namespace CommandLine

/-- Puts something before a text, whose further lines are set in as far. -/
def setIn (lead text : String) : String :=
  lead ++ ("\n".pushn ' ' lead.length).intercalate (text.splitOn "\n")

/-- A failure of the program itself with what caused it; several causes are numbered. -/
def errorText (message : String) (causes : List String) : String :=
  let lines :=
    match causes with
    | [cause] => setIn "    " cause ++ "\n"
    | _ => String.join (causes.zipIdx.map fun (cause, i) =>
        setIn ("    " ++ toString i ++ ": ") cause ++ "\n")
  "Error: " ++ message ++ "\n" ++ (if causes.isEmpty then "" else "\nCaused by:\n" ++ lines)

def fail (message : String) (causes : List String) : Talk Int := do
  Talk.write .diagnostics (errorText message causes)
  return 1

/-- The exit code that a failure leads to. -/
def codeOf : Failure → Int
  | .exit code => code
  | _ => 1

/-- The exit code of a finished evaluation. -/
def endingCode : Ending Int → Int
  | .value code _ => code
  | .stopped .. => 1
  | .exhausted => 1

/-- Runs a script whose source was read. -/
def runScript (n : Nat) (path : Path) (args : List String) (source : String) : Eval Int := do
  runPrelude n
  Eval.update fun m => { m.setScriptPath path with args }
  match Grammar.parse source with
  | .error e =>
    Eval.report e.diagnostic
    return 1
  | .ok program =>
    match ← settled (interpret n program) with
    | .error f => return codeOf f
    | .ok () =>
      if ← Eval.read fun m => m.settings.runEventLoop then
        match ← settled (runLoop n) with
        | .error f => return codeOf f
        | .ok () => return 0
      else return 0

def startScript (n : Nat) (settings : Settings) (path : Path) (args : List String) : Talk Int := do
  match ← Talk.readText path with
  | .error e => fail ("failed to read " ++ path.text) [e.message]
  | .ok source =>
    let program : Eval Int := do
      let code ← runScript n path args source
      shutDown
      return code
    return endingCode (← program (.fresh settings))

def startRepl (n : Nat) (settings : Settings) : Talk Int := do
  let program : Eval (Except Failure Unit) := do
    runPrelude n
    let outcome ← settled (Repl.runOnInput n)
    shutDown
    return outcome
  match ← program (.fresh settings) with
  | .value (.ok ()) _ => return 0
  | .value (.error (.exit code)) _ => return code
  | .value (.error f) _ => fail "repl session failed" [f.message]
  | _ => return 1

def versionText : String := "fsk " ++ Library.version ++ "\n"

def misuseText : String :=
  "error: invalid arguments\n\nUsage: fsk [OPTIONS] [SCRIPT] [ARGS]...\n       fsk <COMMAND>\n\n" ++
  "For more information, try '--help'.\n"

/-- Does what the arguments ask for and returns the exit code. -/
def run (n : Nat) (home : Path) (args : List String) : Talk Int := do
  match parse args with
  | .help about =>
    Talk.write .output about.page.render
    return 0
  | .version =>
    Talk.write .output versionText
    return 0
  | .misuse =>
    Talk.write .diagnostics misuseText
    return 2
  | .start options mode =>
    match ← Settings.load home options.config with
    | .error e => fail "failed to load configuration" e.causes
    | .ok (settings, _) =>
      let settings := if options.noEventLoop then { settings with runEventLoop := false }
        else settings
      match mode with
      | .script path args => startScript n settings path args
      | .interactive => startRepl n settings

/-- The part of an exit code that a process passes on. -/
def processCode (code : Int) : Nat := (code.emod 256).toNat

end CommandLine

end ScriptEngine
