import ScriptEngine.CommandLine.Arguments

/-!
# Help pages

Every command has a page: what it is for, how it is used, and what can stand behind it.
-/
namespace ScriptEngine.CommandLine

/-- Names with what is said about them, in two columns. -/
structure Listing where
  title : String
  rows : List (String × String)

structure Page where
  about : String
  /-- One line for each way of use. -/
  usage : List String
  listings : List Listing

namespace Listing

/-- The width of the first column. -/
def width (l : Listing) : Nat := l.rows.foldl (fun n row => max n row.1.length) 0

def render (l : Listing) : String :=
  l.title ++ ":\n" ++ String.join (l.rows.map fun (name, text) =>
    "  " ++ name ++ "".pushn ' ' (l.width + 2 - name.length) ++ text ++ "\n")

end Listing

namespace Page

/-- The ways of use stand below each other. -/
def render (p : Page) : String :=
  p.about ++ "\n\nUsage: " ++ "\n       ".intercalate p.usage ++ "\n" ++
    String.join (p.listings.map fun l => "\n" ++ l.render)

end Page

/-- What every command says about itself. -/
def Command.about : Command → String
  | .program => "FSK scripting language runtime"
  | .run => "Execute a script file"
  | .repl => "Start an interactive session"
  | .help => "Print this message or the help of the given subcommand(s)"

def commandListing : Listing where
  title := "Commands"
  rows := [("run", Command.run.about), ("repl", Command.repl.about), ("help", Command.help.about)]

def argumentRow : String × String := ("[ARGS]...", "Arguments passed through to the script")

/-- The options of the program, with those that a command adds. -/
def optionListing (more : List (String × String)) : Listing where
  title := "Options"
  rows :=
    [("    --config <CONFIG>", "Runtime configuration file (TOML)"),
     ("    --no-event-loop", "Do not pump timers and background completions after the script"),
     ("    --trace", "Raise the log level to debug"),
     ("-h, --help", "Print help")] ++ more

def Command.page (c : Command) : Page where
  about := c.about
  usage :=
    match c with
    | .program => ["fsk [OPTIONS] [SCRIPT] [ARGS]...", "fsk <COMMAND>"]
    | .run => ["fsk run [OPTIONS] <SCRIPT> [ARGS]..."]
    | .repl => ["fsk repl [OPTIONS]"]
    | .help => ["fsk help [COMMAND]..."]
  listings :=
    match c with
    | .program =>
      [commandListing,
       ⟨"Arguments",
        [("[SCRIPT]", "Script to run; shorthand for `fsk run <script>`"), argumentRow]⟩,
       optionListing [("-V, --version", "Print version")]]
    | .run =>
      [⟨"Arguments", [("<SCRIPT>", "Path to the script to execute"), argumentRow]⟩,
       optionListing []]
    | .repl => [optionListing []]
    | .help => [⟨"Arguments", [("[COMMAND]...", "Print help for the subcommand(s)")]⟩]

end ScriptEngine.CommandLine
