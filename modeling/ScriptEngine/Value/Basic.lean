import ScriptEngine.Program.Basic
import ScriptEngine.Scope.Basic
import ScriptEngine.Value.Fields
import ScriptEngine.Value.Native

/-!
# Values

What expressions evaluate to. Arrays and instances are shared and changeable, so a value only refers
to them and the heap holds what they contain. Functions and classes never change; a number given
out when one is made tells it from every other.
-/
namespace ScriptEngine

/-- The place of an array on the heap. -/
structure ArrayRef where
  index : Nat
deriving DecidableEq, Repr, Inhabited

/-- The place of an instance on the heap. -/
structure InstanceRef where
  index : Nat
deriving DecidableEq, Repr, Inhabited

/-- A method of a class: a function and the scope it was declared in. -/
structure Method where
  decl : Function
  scope : ScopeRef

/-- A class with the class it extends, its own methods, the last declared first, and the built-in
methods of its instances. -/
inductive Class where
  | mk (id : Nat) (name : String) (parent : Option Class) (methods : List (String × Method))
      (natives : List Native)

inductive Value where
  | nil
  | bool (value : Bool)
  | number (value : Float)
  | text (content : String)
  | function (id : Nat) (decl : Function) (scope : ScopeRef)
  | native (id : Nat) (native : Native) (receiver : Option Value)
  | type (cls : Class)
  | object (ref : InstanceRef)
  | array (ref : ArrayRef)

instance : Inhabited Value := ⟨.nil⟩

namespace Class

def id : Class → Nat
  | mk id .. => id

def name : Class → String
  | mk _ name .. => name

/-- The method that instances use: the class's own, or else that of the nearest class above. -/
def method? (name : String) : Class → Option Method
  | mk _ _ parent methods _ =>
    match methods.lookup name with
    | some m => some m
    | none =>
      match parent with
      | none => none
      | some p => method? name p

/-- The built-in method that instances use. -/
def native? (name : String) : Class → Option Native
  | mk _ _ parent _ natives =>
    match Native.named? natives name with
    | some n => some n
    | none =>
      match parent with
      | none => none
      | some p => native? name p

end Class

def Function.arity (f : Function) : Arity := .range f.minArgs f.maxArgs

/-- Calling a class takes what its constructor takes. -/
def Class.arity (c : Class) : Arity :=
  match c.method? "init" with
  | some m => m.decl.arity
  | none => .exact 0

namespace Value

def ofLiteral : Literal → Value
  | .number x => number x
  | .text s => text s
  | .bool b => bool b
  | .nil => nil

def ofNat (n : Nat) : Value := number (Float.ofNat n)

/-- Only nil and false count as false. -/
def isTruthy : Value → Bool
  | nil => false
  | bool b => b
  | _ => true

def isNil : Value → Bool
  | nil => true
  | _ => false

def isCallable : Value → Bool
  | function .. | native .. | type _ => true
  | _ => false

def typeName : Value → String
  | nil => "nil"
  | bool _ => "bool"
  | number _ => "number"
  | text _ => "string"
  | type _ => "class"
  | function .. | native .. => "function"
  | object _ => "instance"
  | array _ => "array"

/-- The argument counts that a callable accepts. -/
def arity? : Value → Option Arity
  | function _ decl _ => some decl.arity
  | native _ n _ => some n.arity
  | type c => some c.arity
  | _ => none

end Value

end ScriptEngine
