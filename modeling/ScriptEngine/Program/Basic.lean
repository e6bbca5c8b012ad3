import ScriptEngine.Number.Text
import ScriptEngine.Text.Position

/-!
# Programs

The trees that the grammar builds and evaluation walks. Every node keeps the place in the source
that messages about it name. A pattern takes a value apart: it names it, compares it with a
literal, or goes into the elements of an array or the fields of an object.
-/
namespace ScriptEngine
open Text (Position)

/-! Literals and patterns -/

/-- A value written down in a program. -/
inductive Literal where
  | number (value : Float)
  | text (content : String)
  | bool (value : Bool)
  | nil
deriving Repr

/-- A literal as messages show it. -/
def Literal.toText : Literal → String
  | .number x => Number.toText x
  | .text s => "\"" ++ s ++ "\""
  | .bool b => if b then "true" else "false"
  | .nil => "nil"

/-- Patterns of declarations, parameters and match arms. An array element marked true takes the
elements that are left. -/
inductive Pattern where
  | name (name : String)
  | literal (value : Literal)
  | array (elements : List (Pattern × Bool))
  | object (fields : List (String × Pattern))
deriving Repr

mutual

/-- The names that a pattern binds, in source order. -/
def Pattern.names : Pattern → List String
  | .name n => [n]
  | .literal _ => []
  | .array elements => Pattern.namesOfElements elements
  | .object fields => Pattern.namesOfFields fields

def Pattern.namesOfElements : List (Pattern × Bool) → List String
  | [] => []
  | (p, _) :: rest => p.names ++ Pattern.namesOfElements rest

def Pattern.namesOfFields : List (String × Pattern) → List String
  | [] => []
  | (_, p) :: rest => p.names ++ Pattern.namesOfFields rest

end

/-! Expressions and statements -/

inductive BinaryOp where
  | add | subtract | multiply | divide | modulo
  | equal | notEqual | less | lessEqual | greater | greaterEqual
  | pipe
deriving DecidableEq, Repr

def BinaryOp.spelling : BinaryOp → String
  | .add => "+" | .subtract => "-" | .multiply => "*" | .divide => "/" | .modulo => "%"
  | .equal => "==" | .notEqual => "!=" | .less => "<" | .lessEqual => "<=" | .greater => ">"
  | .greaterEqual => ">=" | .pipe => "|>"

/-- Operators that may leave their right side out. -/
inductive LogicalOp where
  | both | either | coalesce
deriving DecidableEq, Repr

inductive UnaryOp where
  | negate | not
deriving DecidableEq, Repr

mutual

inductive Expr where
  | literal (value : Literal) (position : Position)
  | name (name : String) (position : Position)
  | assign (name : String) (value : Expr) (position : Position)
  | binary (op : BinaryOp) (left right : Expr) (position : Position)
  | logical (op : LogicalOp) (left right : Expr) (position : Position)
  | unary (op : UnaryOp) (operand : Expr) (position : Position)
  | grouping (inner : Expr) (position : Position)
  | call (callee : Expr) (args : List Expr) (position : Position)
  | get (object : Expr) (name : String) (optional : Bool) (position : Position)
  | set (object : Expr) (name : String) (value : Expr) (position : Position)
  | index (object key : Expr) (position : Position)
  | indexSet (object key value : Expr) (position : Position)
  | this (position : Position)
  | super (method : String) (position : Position)
  | await (operand : Expr) (position : Position)
  | function (decl : Function)
  | array (elements : List (Expr × Bool)) (position : Position)
  | object (fields : List (String × Expr)) (position : Position)
  | template (parts : List (Sum String Expr)) (position : Position)

/-- `body` runs with the parameters bound from left to right; a parameter may have a default. -/
inductive Function where
  | mk (name : String) (params : List (Pattern × Option Expr)) (body : List Stmt)
      (isAsync : Bool) (returnType : Option String) (position : Position)

inductive Stmt where
  | expression (value : Expr) (position : Position)
  | print (value : Expr) (position : Position)
  | declare (pattern : Pattern) (hint : Option String) (init : Option Expr) (position : Position)
  | constant (pattern : Pattern) (init : Expr) (position : Position)
  | block (body : List Stmt) (position : Position)
  | branch (condition : Expr) (yes : Stmt) (no : Option Stmt) (position : Position)
  | loop (condition : Expr) (body : Stmt) (step : Option Expr) (position : Position)
  | function (decl : Function)
  | classDecl (name : String) (parent : Option Expr) (methods : List Function)
      (position : Position)
  | return (value : Option Expr) (position : Position)
  | throw (value : Expr) (position : Position)
  | attempt (body : Stmt) (name : String) (handler : Stmt) (position : Position)
  | select (value : Expr) (arms : List (Pattern × Stmt)) (position : Position)
  | load (path : Expr) (position : Position)
  | break (position : Position)
  | continue (position : Position)

end

namespace Function

def name : Function → String
  | mk name .. => name

def params : Function → List (Pattern × Option Expr)
  | mk _ params .. => params

def body : Function → List Stmt
  | mk _ _ body .. => body

def isAsync : Function → Bool
  | mk _ _ _ isAsync .. => isAsync

def returnType : Function → Option String
  | mk _ _ _ _ returnType _ => returnType

def position : Function → Position
  | mk _ _ _ _ _ position => position

/-- Parameters before the first default have to be given. -/
def minArgs (f : Function) : Nat := (f.params.takeWhile fun p => p.2.isNone).length

def maxArgs (f : Function) : Nat := f.params.length

end Function

def Stmt.position : Stmt → Position
  | .expression _ p | .print _ p | .declare _ _ _ p | .constant _ _ p | .block _ p
  | .branch _ _ _ p | .loop _ _ _ p | .classDecl _ _ _ p | .return _ p | .throw _ p
  | .attempt _ _ _ p | .select _ _ p | .load _ p | .break p | .continue p => p
  | .function f => f.position

def Expr.position : Expr → Position
  | .literal _ p | .name _ p | .assign _ _ p | .binary _ _ _ p | .logical _ _ _ p | .unary _ _ p
  | .grouping _ p | .call _ _ p | .get _ _ _ p | .set _ _ _ p | .index _ _ p | .indexSet _ _ _ p
  | .this p | .super _ p | .await _ p | .array _ p | .object _ p | .template _ p => p
  | .function f => f.position

/-- A parsed source text. -/
abbrev Program := List Stmt

end ScriptEngine
