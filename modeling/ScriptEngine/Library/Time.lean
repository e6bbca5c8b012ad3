import ScriptEngine.Calendar.Format
import ScriptEngine.Library.System

/-!
# Dates and timers
-/
namespace ScriptEngine.Library

/-! Dates -/

def defaultPattern : String := "%Y-%m-%d %H:%M:%S"

/-- Seconds since the epoch in a pattern; nothing if they are out of range or no number. -/
def formatDate (args : List Value) : Except Failure String :=
  let format (x : Float) (pattern : String) : Except Failure String :=
    match Calendar.items? pattern.toList with
    | none => .error (.dateFormat pattern)
    | some items =>
      match Calendar.Moment.ofSeconds? (toLong x) with
      | some moment => .ok (Calendar.render moment items)
      | none => .ok ""
  match args with
  | [.number x] => format x defaultPattern
  | [.number x, .text pattern] => format x pattern
  | _ => .ok ""

def dateFunction (f : DateFunction) (args : List Value) : Eval Value := do
  match f with
  | .now => return .number (clockSeconds (← now))
  | .timestamp => return .number (wholeSeconds (← now))
  | .format => answer ((formatDate args).map Value.text)

/-! Timers -/

/-- Milliseconds as the clock counts. -/
def toNanoseconds (duration : Nat) : Nat := 1000000 * duration

/-- Arms a timer from now on and returns its number. -/
def schedule (callback : Value) (delay : Nat) (repeating : Bool) : Eval Nat := do
  let time ← now
  Eval.change fun m =>
    match m.loop.schedule time callback (toNanoseconds delay) repeating with
    | (id, loop) => (id, { m with loop })

def cancel (id : Nat) : Eval Bool := Eval.change fun m =>
  match m.loop.cancel id with
  | (cancelled, loop) => (cancelled, { m with loop })

/-- Arms a timer from a callback and a delay, which may be left out. -/
def scheduleArguments (args : List Value) (repeating : Bool) (name : String) : Eval Value := do
  let callback := argument args 0
  if !callback.isCallable then Eval.fail (.timerArguments name)
  else
    match (args[1]? : Option Value) with
    | none => return .ofNat (← schedule callback 0 repeating)
    | some (.number x) => return .ofNat (← schedule callback (milliseconds x) repeating)
    | some _ => Eval.fail (.timerArguments name)

def timerFunction (f : TimerFunction) (args : List Value) : Eval Value := do
  match f with
  | .setTimeout => scheduleArguments args false "setTimeout"
  | .setInterval => scheduleArguments args true "setInterval"
  | .clearTimeout | .clearInterval =>
    let id ← Eval.ofExcept (numberArgument args 0 "clearTimeout")
    if 0 ≤ id then discard (cancel (toNat id))
    return .nil

end ScriptEngine.Library
