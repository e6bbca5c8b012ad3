import ScriptEngine.Library.Arguments

/-!
# Numbers, time, input and the end of the program
-/
namespace ScriptEngine.Library

def version : String := "1.1.0"

/-- Seconds since the epoch, exact to the millisecond. -/
def clockSeconds (now : Nat) : Float := Number.ofDecimal (now / 1000000) 0 / 1000

/-- Whole seconds since the epoch. -/
def wholeSeconds (now : Nat) : Float := Number.ofDecimal (now / 1000000000) 0

/-- A duration in milliseconds; negative ones count as none. -/
def milliseconds (x : Float) : Nat := toNat x

/-- A line without the line breaks at its end. -/
def withoutLineBreak (line : String) : String :=
  String.ofList (line.toList.reverse.dropWhile fun c => c == '\n' || c == '\r').reverse

def toLong (x : Float) : Int :=
  Number.toIntWithin (-(Nat.pow 2 63 : Int)) (Nat.pow 2 63 - 1 : Int) x

def exitCode (x : Float) : Int :=
  Number.toIntWithin (-(Nat.pow 2 31 : Int)) (Nat.pow 2 31 - 1 : Int) x

/-- Writes the prompt and reads a line; nil at the end of the input. -/
def readInput (args : List Value) : Eval Value := do
  match args[0]? with
  | some v => Eval.write .output (← Eval.textOf v)
  | none => pure ()
  let line : Except FileError (Option String) ← Eval.askOuter .readLine
  match line with
  | .error e => Eval.fail (.io e.message)
  | .ok none => return .nil
  | .ok (some line) => return .text (withoutLineBreak line)

/-- A whole number between two bounds; the lower one if there is nothing to choose. -/
def randomBetween (low high : Int) : Eval Value := do
  if high ≤ low then return .number (Float.ofInt low)
  let n : Int ← Eval.askOuter (.random low high)
  return .number (Float.ofInt n)

def argumentText (given : List String) : Value → String
  | .number x => if 0 ≤ x then given.getD (toNat x) "" else ""
  | _ => ""

def now : Eval Nat := Eval.askOuter .now

def sleepFor (x : Float) : Eval Unit := Eval.ask (.sleep (milliseconds x))

def systemFunction (f : SystemFunction) (args : List Value) : Eval Value := do
  match f with
  | .clock => return .number (clockSeconds (← now))
  | .input => readInput args
  | .sqrt => answer ((numberArgument args 0 "sqrt").map fun x => .number x.sqrt)
  | .abs => answer ((numberArgument args 0 "abs").map fun x => .number x.abs)
  | .exit =>
    match argument args 0 with
    | .number x => Eval.fail (.exit (exitCode x))
    | _ => Eval.fail (.exit 0)
  | .sleep =>
    match argument args 0 with
    | .number x => sleepFor x
    | _ => pure ()
    return .ofNat 0
  | .pause =>
    sleepFor (← Eval.ofExcept (numberArgument args 0 "sleep"))
    return .bool true
  | .version => return .text version
  | .random =>
    let low ← Eval.ofExcept (numberArgument args 0 "random")
    let high ← Eval.ofExcept (numberArgument args 1 "random")
    randomBetween (toLong low) (toLong high)
  | .argCount => Eval.read fun m => .ofNat m.args.length
  | .arg => Eval.read fun m => .text (argumentText m.args (argument args 0))

end ScriptEngine.Library
