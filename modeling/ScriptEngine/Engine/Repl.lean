import ScriptEngine.Engine.Script
import ScriptEngine.Text.Blank

/-!
# Interactive sessions

Lines are collected until they parse. A last statement that is an expression is echoed.
-/
namespace ScriptEngine

/-- The lines that do not make a program yet. -/
structure Repl where
  pending : String
deriving DecidableEq, Repr

/-- What became of a line. -/
inductive LineOutcome where
  | needMore | evaluated | quit
deriving DecidableEq, Repr

namespace Repl

def empty : Repl := ⟨""⟩

def isPending (r : Repl) : Bool := !r.pending.isEmpty

def prompt (r : Repl) : String := if r.isPending then "...> " else "fsk> "

/-- Evaluates an expression and shows its value, unless it is nil. -/
def echo (ev : Evaluator) (e : Expr) : Eval Unit := do
  let v ← ev.eval e .global
  if !v.isNil then Eval.writeLine .output (← Eval.textOf v)

/-- Runs statements and echoes the last one. -/
def runAll (ev : Evaluator) : List Stmt → Eval Unit
  | [] => Eval.pure ()
  | [.expression e _] => echo ev e
  | s :: rest => do
    ev.exec s .global
    runAll ev rest

/-- Runs statements up to the first that fails, and then the event loop. -/
def runProgram (n : Nat) (program : Program) : Eval Unit := do
  isolated (runAll (.bounded n) program)
  runLoop n

/-- What a line does to the session: nothing, ask for more, or run a program. -/
inductive Reading where
  | quit
  | blank
  | incomplete (next : Repl)
  | invalid (error : ParseError)
  | complete (program : Program)

/-- Reads a line behind those that are pending. -/
def read (r : Repl) (line : String) : Reading :=
  let trimmed := String.ofList (Text.trim line.toList)
  if !r.isPending && trimmed == ".quit" then .quit
  else if !r.isPending && trimmed.isEmpty then .blank
  else
    let text := r.pending ++ line ++ "\n"
    match Grammar.parse text with
    | .ok program => .complete program
    | .error e =>
      match e with
      | .unexpectedEnd .. => .incomplete ⟨text⟩
      | _ => .invalid e

/-- Takes a line; the only failure is the end of the program. -/
def feed (n : Nat) (r : Repl) (line : String) : Eval (Except Failure LineOutcome × Repl) := do
  match r.read line with
  | .quit => return (.ok .quit, r)
  | .blank => return (.ok .evaluated, r)
  | .incomplete next => return (.ok .needMore, next)
  | .invalid e =>
    Eval.report e.diagnostic
    return (.ok .evaluated, empty)
  | .complete program =>
    match ← settled (runProgram n program) with
    | .ok () => return (.ok .evaluated, empty)
    | .error f => return (.error f, empty)

/-- Takes a line of a session and writes the next prompt; none when the session is over. -/
def turn (n : Nat) (r : Repl) (line : Except FileError String) : Eval (Option Repl) := do
  match line with
  | .error e => Eval.fail (.io e.message)
  | .ok line =>
    match ← feed n r line with
    | (.error f, _) => Eval.fail f
    | (.ok .quit, _) => return none
    | (.ok _, r) =>
      Eval.write .output r.prompt
      return some r

/-- The rest of a session over these lines. -/
def turns (n : Nat) : List (Except FileError String) → Repl → Eval Unit
  | [], _ => Eval.pure ()
  | line :: rest, r => do
    match ← turn n r line with
    | some r => turns n rest r
    | none => return

/-- A session over given lines. -/
def run (n : Nat) (lines : List (Except FileError String)) : Eval Unit := do
  Eval.write .output empty.prompt
  turns n lines empty

/-- A line without its line break. -/
def lineText (line : List Char) : List Char :=
  match line.reverse with
  | '\n' :: '\r' :: cs => cs.reverse
  | '\n' :: cs => cs.reverse
  | _ => line

/-- A session over the input of the program. -/
def runOnInput (n : Nat) : Eval Unit := do
  Eval.write .output empty.prompt
  Eval.iterate (fun r => do
    let line : Except FileError (Option String) ← Eval.askOuter .readLine
    match line with
    | .error e => turn n r (.error e)
    | .ok none => return none
    | .ok (some line) => turn n r (.ok (String.ofList (lineText line.toList)))) n empty

/-- The lines of an input, at most `n`. -/
def linesWithin : Nat → List UInt8 → List (Except FileError String)
  | 0, _ => []
  | n + 1, bytes =>
    if bytes.isEmpty then []
    else
      let (line, rest) := Http.takeLine bytes
      match Text.decodeFrom? .start line with
      | some cs => .ok (String.ofList (lineText cs)) :: linesWithin n rest
      | none => [.error .notText]

/-- The lines of an input, up to the first that is no text. -/
def linesOf (bytes : List UInt8) : List (Except FileError String) :=
  linesWithin bytes.length bytes

end Repl

end ScriptEngine
