import ScriptEngine.Value.Failure

/-!
# Operators

Operators that only need the values of their operands.
-/
namespace ScriptEngine

/-- Arithmetic and order, which are for numbers. -/
def numericOp (op : BinaryOp) (x y : Float) : Value :=
  match op with
  | .add => .number (x + y)
  | .subtract => .number (x - y)
  | .multiply => .number (x * y)
  | .divide => .number (x / y)
  | .modulo => .number (Number.remainder x y)
  | .less => .bool (x < y)
  | .lessEqual => .bool (x ≤ y)
  | .greater => .bool (y < x)
  | .greaterEqual => .bool (y ≤ x)
  | .equal => .bool (x == y)
  | .notEqual => .bool (x != y)
  | .pipe => .nil

/-- The sum of two numbers; a text takes the text of anything. -/
def addValues (h : Heap) : Value → Value → Except Failure Value
  | .number x, .number y => .ok (.number (x + y))
  | .text s, v => .ok (.text (s ++ v.toText h))
  | v, .text s => .ok (.text (v.toText h ++ s))
  | _, _ => .error .addOperands

/-- The value of a binary operator other than a pipe. -/
def applyBinary (h : Heap) (op : BinaryOp) (left right : Value) : Except Failure Value :=
  match op with
  | .equal => .ok (.bool (left.equal h right))
  | .notEqual => .ok (.bool (!left.equal h right))
  | .add => addValues h left right
  | _ =>
    match left, right with
    | .number x, .number y => .ok (numericOp op x y)
    | _, _ => .error .numberOperands

def applyUnary : UnaryOp → Value → Except Failure Value
  | .not, v => .ok (.bool (!v.isTruthy))
  | .negate, .number x => .ok (.number (-x))
  | .negate, _ => .error .negateOperand

/-- Whether a logical operator leaves its right side out. -/
def LogicalOp.settledBy : LogicalOp → Value → Bool
  | .both, v => !v.isTruthy
  | .either, v => v.isTruthy
  | .coalesce, v => !v.isNil

/-- The kind of value that a type hint asks for; other hints ask for nothing. -/
def hintedType? : String → Option String
  | "int" | "number" | "float" => some "number"
  | "string" => some "string"
  | "bool" => some "bool"
  | _ => none

/-- Checks a value against the hint of the name it is meant for. -/
def checkHint (hint name : String) (v : Value) : Except Failure Unit :=
  match hintedType? hint with
  | none => .ok ()
  | some expected =>
    if v.typeName == expected then .ok ()
    else .error (.hintMismatch name expected v.typeName)

end ScriptEngine
