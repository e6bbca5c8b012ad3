import ScriptEngine.Files.Path

/-!
# Command-line arguments

The first word may be a command, if nothing stands before it. Options and a script follow, and then
the arguments of the script. Up to the first of these arguments the options of the program are still
seen; once there is a script, a word that looks like an option but is none is such an argument. From
the first argument on, and behind a divider, every word is taken as it is.
-/
namespace ScriptEngine.CommandLine

/-- What the program is asked to do. -/
inductive Mode where
  | script (path : Path) (args : List String)
  | interactive
deriving Repr

structure Options where
  config : Option Path
  noEventLoop : Bool
  trace : Bool
deriving Repr

def Options.none : Options := ⟨.none, false, false⟩

/-- The program as a whole, and its commands. -/
inductive Command where
  | program | run | repl | help
deriving DecidableEq, Repr

def Command.ofName? : String → Option Command
  | "run" => some .run
  | "repl" => some .repl
  | "help" => some .help
  | _ => none

inductive Invocation where
  | start (options : Options) (mode : Mode)
  | help (about : Command)
  | version
  | misuse
deriving Repr

/-- What has been read of a command line before the arguments of the script. -/
structure Reading where
  command : Command
  /-- Whether no command can follow any more. -/
  settled : Bool
  script : Option Path
  options : Options
deriving Repr

/-- What a word is. -/
inductive Word where
  | plain
  | divider
  /-- The value, if the word brings it along. -/
  | config (value : Option String)
  | noEventLoop
  | trace
  | help
  | version
  /-- An option that there is not, or one with a value that it does not take. -/
  | wrong
deriving DecidableEq, Repr

namespace Reading

/-- Nothing has been read. -/
def fresh : Reading := ⟨.program, false, none, .none⟩

/-- An option that is none goes to the script once there is one. -/
def unknown (r : Reading) : Word := if r.script.isSome then .plain else .wrong

/-- A name behind two hyphens, with the value behind an equals sign. -/
def longWord (r : Reading) (name : String) (value : Option String) : Word :=
  let flag (w : Word) : Word := if value.isSome then .wrong else w
  match name with
  | "config" => .config value
  | "no-event-loop" => flag .noEventLoop
  | "trace" => flag .trace
  | "help" => flag .help
  | "version" => if r.command = .program then flag .version else r.unknown
  | _ => r.unknown

/-- What a letter behind one hyphen asks for. Only the program as a whole has a version. -/
def letter? (r : Reading) (c : Char) : Option Word :=
  if c == 'h' then some .help
  else if c == 'V' && r.command = .program then some .version
  else none

/-- Letters behind one hyphen, of which the first decides. Once there is a script, one letter that
means nothing makes the word an argument. -/
def shortWord (r : Reading) (c : Char) (cs : List Char) : Word :=
  if r.script.isSome && (c :: cs).any (fun x => (r.letter? x).isNone) then .plain
  else (r.letter? c).getD .wrong

def word (r : Reading) (text : String) : Word :=
  match text.toList with
  | ['-', '-'] => .divider
  | '-' :: '-' :: cs =>
    let name := cs.takeWhile (· != '=')
    let value := if name.length < cs.length then some (cs.drop (name.length + 1)) else none
    r.longWord (String.ofList name) (value.map String.ofList)
  | '-' :: c :: cs => r.shortWord c cs
  | _ => .plain

/-- Takes a word as the script; the empty word is no path. -/
def withScript? (r : Reading) (text : String) : Option Reading :=
  if r.command = .repl || text.isEmpty then none
  else some { r with script := some ⟨text⟩, settled := true }

/-- An option that may be given once. -/
def withConfig? (r : Reading) (value : String) : Option Reading :=
  if r.options.config.isSome || value.isEmpty then none
  else some { r with options := { r.options with config := some ⟨value⟩ }, settled := true }

def withNoEventLoop? (r : Reading) : Option Reading :=
  if r.options.noEventLoop then none
  else some { r with options := { r.options with noEventLoop := true }, settled := true }

def withTrace? (r : Reading) : Option Reading :=
  if r.options.trace then none
  else some { r with options := { r.options with trace := true }, settled := true }

/-- What is meant when these words are left for the script. -/
def finish (r : Reading) (args : List String) : Invocation :=
  match r.script with
  | some path => .start r.options (.script path args)
  | none => if r.command = .run then .misuse else .start r.options .interactive

/-- Takes all words as they are. -/
def finishPlain (r : Reading) (words : List String) : Invocation :=
  match r.script, words with
  | none, text :: rest =>
    match r.withScript? text with
    | some r => r.finish rest
    | none => .misuse
  | _, _ => r.finish words

/-- The command that a word names, where one may stand. -/
def command? (r : Reading) (text : String) : Option Command :=
  if r.command = .program && !r.settled then Command.ofName? text else none

/-- What is asked for behind the command for help: the page of a command, or of the program. -/
def helpOn : List String → Invocation
  | [] => .help .program
  | [name] =>
    match Command.ofName? name with
    | some c => .help c
    | none => .misuse
  | _ => .misuse

/-- Reads the words that are left. -/
def parse (r : Reading) : List String → Invocation
  | [] => r.finish []
  | text :: rest =>
    let goOn (next : Option Reading) : Invocation :=
      match next with
      | some r => parse r rest
      | none => .misuse
    match r.command? text with
    | some .help => helpOn rest
    | some command => parse { r with command } rest
    | none =>
      match r.word text with
      | .plain =>
        if r.script.isSome then r.finish (text :: rest) else goOn (r.withScript? text)
      | .divider => r.finishPlain rest
      | .config (some value) => goOn (r.withConfig? value)
      | .config none =>
        match rest with
        | [] => .misuse
        | value :: rest =>
          match r.word value, r.withConfig? value with
          | .plain, some r => parse r rest
          | _, _ => .misuse
      | .noEventLoop => goOn r.withNoEventLoop?
      | .trace => goOn r.withTrace?
      | .help => .help r.command
      | .version => .version
      | .wrong => .misuse

end Reading

def parse (args : List String) : Invocation := Reading.fresh.parse args

end ScriptEngine.CommandLine
