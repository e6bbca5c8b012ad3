import ScriptEngine.Value.Heap

/-!
# Failures

What can go wrong while a program runs, how it is worded and coded, and the signals that leave a
computation early. Everything can be caught but the request to end the program.
-/
namespace ScriptEngine

/-- The two words that only make sense inside a loop. -/
inductive LoopWord where
  | breakWord | continueWord
deriving DecidableEq, Repr

def LoopWord.spelling : LoopWord → String
  | .breakWord => "break"
  | .continueWord => "continue"

inductive Failure where
  | undefinedVariable (name : String)
  | undefinedProperty (name : String)
  | type (message : String)
  | arity (expected : String) (got : Nat)
  | index (message : String)
  | constantAssignment (name : String)
  | uncaught (text : String)
  | topLevelReturn
  | strayLoopControl (word : LoopWord)
  | stackOverflow (limit : Nat)
  | io (message : String)
  | network (message : String)
  | module (message : String)
  | exit (code : Int)
deriving DecidableEq, Repr

/-- The stable codes of diagnostics. -/
inductive ErrorCode where
  | syntaxCode | moduleResolution | typeMismatch | lookup | arity | index | thrown | other
deriving DecidableEq, Repr

def ErrorCode.toText : ErrorCode → String
  | .syntaxCode => "E001"
  | .moduleResolution => "E002"
  | .typeMismatch => "E003"
  | .lookup => "E004"
  | .arity => "E005"
  | .index => "E006"
  | .thrown => "E007"
  | .other => "E008"

namespace Failure

def message : Failure → String
  | undefinedVariable name => "Undefined variable '" ++ name ++ "'."
  | undefinedProperty name => "Undefined property '" ++ name ++ "'."
  | type message => message
  | arity expected got => "Expected " ++ expected ++ " arguments but got " ++ toString got ++ "."
  | index message => message
  | constantAssignment name => "Cannot assign to constant '" ++ name ++ "'."
  | uncaught text => "Uncaught exception: " ++ text
  | topLevelReturn => "Cannot return from top-level code."
  | strayLoopControl word => "'" ++ word.spelling ++ "' used outside of a loop."
  | stackOverflow limit => "Stack overflow: call depth exceeded " ++ toString limit ++ "."
  | io message => "I/O error: " ++ message
  | network message => "Network error: " ++ message
  | module message => message
  | exit code => "exit(" ++ toString code ++ ")"

def code : Failure → ErrorCode
  | undefinedVariable _ | undefinedProperty _ => .lookup
  | type _ | constantAssignment _ => .typeMismatch
  | arity .. => .arity
  | index _ => .index
  | uncaught _ => .thrown
  | module _ => .moduleResolution
  | topLevelReturn | strayLoopControl _ | stackOverflow _ | io _ | network _ | exit _ => .other

/-- The end of the program passes every handler. -/
def isCatchable : Failure → Bool
  | exit _ => false
  | _ => true

/-! The failures that are told apart only by their wording. -/

def notCallable : Failure := type "Can only call functions and classes."

def pipeTarget : Failure := type "Pipe operator expects a function on the right."

def pipeArity : Failure := type "Pipe operator expects a function with 1 argument."

def superOutside : Failure := type "Cannot use 'super' outside of a subclass."

def parentNotClass : Failure := type "Superclass must be a class."

def importPath : Failure := type "Import path must be a string."

def spreadNotArray : Failure := type "Spread operator expects an array."

def negateOperand : Failure := type "Operand must be a number."

def numberOperands : Failure := type "Operands must be numbers."

def addOperands : Failure := type "Operands must be two numbers or include a string."

def noFields : Failure := type "Only instances have fields."

def noProperties (name kind : String) : Failure :=
  type ("Only instances, arrays and strings have properties; cannot read '" ++ name ++ "' of "
    ++ kind ++ ".")

def indexNotNumber : Failure := type "Index must be a number."

def outOfBounds : Failure := index "Index out of bounds."

def keyNotText : Failure := type "Index must be a string for objects."

def notIndexable : Failure := type "Only arrays, objects and strings can be indexed."

def notIndexAssignable : Failure := type "Only arrays and objects can have indexed assignments."

def notArrayPattern : Failure := type "Cannot destructure non-array value."

def notObjectPattern : Failure := type "Cannot destructure non-object value."

def hintMismatch (name expected found : String) : Failure :=
  type ("Type mismatch: '" ++ name ++ "' expects " ++ expected ++ " but got " ++ found ++ ".")

def textArgument (function : String) : Failure := type (function ++ " expects a string argument.")

def numberArgument (function : String) : Failure := type (function ++ " expects a number argument.")

def timerArguments (function : String) : Failure :=
  type (function ++ " expects (callback, delay_ms).")

def portRange : Failure := type "listen expects a port between 0 and 65535."

def handlerArgument : Failure := type "listen expects a handler function."

def jsonTooDeep : Failure :=
  type "JSON.stringify: value is nested too deeply or contains a cycle."

def dateFormat (pattern : String) : Failure :=
  type ("Date.format: invalid format '" ++ pattern ++ "'.")

def notArrayReceiver : Failure := type "Array method called on a non-array value."

def notTextReceiver : Failure := type "String method called on a non-string value."

end Failure

/-- Why an assignment to a name fails. -/
def Failure.ofAssignError (name : String) : AssignError → Failure
  | .undefined => .undefinedVariable name
  | .constant => .constantAssignment name

/-- What the host of a program is told about a failure. -/
structure Diagnostic where
  code : ErrorCode
  message : String
deriving DecidableEq, Repr

namespace Diagnostic

def toText (d : Diagnostic) : String := "[" ++ d.code.toText ++ "] " ++ d.message

def ofFailure (f : Failure) : Diagnostic := ⟨f.code, f.message⟩

end Diagnostic

/-- How a computation ends without a value. -/
inductive Signal where
  | returned (value : Value)
  | thrown (value : Value)
  | broke
  | continued
  | failed (failure : Failure)

/-- The failure that a signal amounts to when nothing takes it. -/
def Signal.toFailure (h : Heap) : Signal → Failure
  | .returned _ => .topLevelReturn
  | .thrown v => .uncaught (v.toText h)
  | .broke => .strayLoopControl .breakWord
  | .continued => .strayLoopControl .continueWord
  | .failed f => f

/-- Fails unless the count is accepted. -/
def Arity.check (a : Arity) (got : Nat) : Except Failure Unit :=
  if a.accepts got then .ok () else .error (.arity a.describe got)

end ScriptEngine
