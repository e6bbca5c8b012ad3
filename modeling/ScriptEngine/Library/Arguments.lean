import ScriptEngine.Machine.Eval

/-!
# Arguments of built-in functions

By the time a built-in function runs, the number of its arguments has been checked.
-/
namespace ScriptEngine.Library

/-- How a built-in function calls back. -/
abbrev Caller := Value → List Value → Eval Value

def argument (args : List Value) (i : Nat) : Value := args.getD i .nil

def textArgument (args : List Value) (i : Nat) (function : String) : Except Failure String :=
  match args[i]? with
  | some (.text s) => .ok s
  | _ => .error (.textArgument function)

def numberArgument (args : List Value) (i : Nat) (function : String) : Except Failure Float :=
  match args[i]? with
  | some (.number x) => .ok x
  | _ => .error (.numberArgument function)

/-- Bits of a number that counts or identifies something. -/
def wordSize : Nat := 64

def toNat (x : Float) : Nat := Number.toNatBelow wordSize x

/-- The number under which the host keeps what a handle stands for. -/
def handleId? (h : Heap) (receiver : Option Value) : Option Nat :=
  match receiver.map fun r => h.field r "id" with
  | some (.number x) => some (toNat x)
  | _ => none

/-- A failure that may come before a value that changes nothing. -/
def answer (x : Except Failure Value) : Eval Value := Eval.ofExcept x

end ScriptEngine.Library
