import ScriptEngine.Value.Basic
import ScriptEngine.Text.Quoted

/-!
# The heap

Arrays and instances by their place. Showing and comparing values follows references, and may meet
an array again inside itself. Both keep track of the arrays they are in and give up below a fixed
depth, so they end on every heap.
-/
namespace ScriptEngine

/-- An object: its class and its fields. -/
structure Instance where
  cls : Class
  fields : Fields Value

structure Heap where
  arrays : Array (Array Value)
  instances : Array Instance

namespace Heap

def empty : Heap := ⟨#[], #[]⟩

/-- The elements of an array. -/
def array (h : Heap) (r : ArrayRef) : Array Value := h.arrays.getD r.index #[]

def instance? (h : Heap) (r : InstanceRef) : Option Instance := h.instances[r.index]?

def newArray (h : Heap) (items : Array Value) : ArrayRef × Heap :=
  (⟨h.arrays.size⟩, { h with arrays := h.arrays.push items })

def newInstance (h : Heap) (i : Instance) : InstanceRef × Heap :=
  (⟨h.instances.size⟩, { h with instances := h.instances.push i })

def modifyArray (h : Heap) (r : ArrayRef) (f : Array Value → Array Value) : Heap :=
  { h with arrays := h.arrays.modify r.index f }

def setField (h : Heap) (r : InstanceRef) (key : String) (value : Value) : Heap :=
  { h with instances := h.instances.modify r.index fun i =>
      { i with fields := i.fields.insert key value } }

/-- A field of an instance. -/
def field? (h : Heap) (r : InstanceRef) (key : String) : Option Value :=
  (h.instance? r).bind fun i => i.fields.get? key

/-- A field of a value; nil if it is no instance or has no such field. -/
def field (h : Heap) (v : Value) (key : String) : Value :=
  match v with
  | .object r => (h.field? r key).getD .nil
  | _ => .nil

end Heap

/-- How many arrays deep values are shown and compared. -/
def maxNesting : Nat := 256

/-- Numbers are shown without the sign of a negative zero. -/
def numberText (x : Float) : String := if x == 0 then "0" else Number.toText x

namespace Value

/-- The text of a value that is not an array. -/
def plainText (h : Heap) : Value → String
  | nil => "nil"
  | bool b => if b then "true" else "false"
  | number x => numberText x
  | text s => s
  | function _ decl _ => if decl.name.isEmpty then "<fn>" else "<fn " ++ decl.name ++ ">"
  | native _ n _ => "<native fn " ++ n.name ++ ">"
  | type c => c.name
  | object r => (((h.instance? r).map fun i => i.cls.name).getD "") ++ " instance"
  | array _ => "[...]"

/-- Text of a value inside the arrays of `path`, with room for `n` more. An array that is on the
path or finds no room is shown as an ellipsis. -/
def textWithin (h : Heap) : Nat → List ArrayRef → Value → String
  | n + 1, path, array r =>
    if path.contains r then "[...]"
    else "[" ++ ", ".intercalate ((h.array r).toList.map (textWithin h n (r :: path))) ++ "]"
  | _, _, v => v.plainText h

/-- The text of a value, as printing and joining show it. -/
def toText (h : Heap) (v : Value) : String := v.textWithin h maxNesting []

/-- Equality of values inside the pairs of arrays being compared, with room for `n` more. Pairs met
again count as equal, and nothing does that finds no room. -/
def equalWithin (h : Heap) : Nat → List (ArrayRef × ArrayRef) → Value → Value → Bool
  | _, _, nil, nil => true
  | _, _, bool a, bool b => a == b
  | _, _, number a, number b => a == b
  | _, _, text a, text b => a == b
  | n, active, array a, array b =>
    if a = b then true
    else if active.contains (a, b) then true
    else
      match n with
      | 0 => false
      | n + 1 =>
        (h.array a).size == (h.array b).size &&
          ((h.array a).toList.zip (h.array b).toList).all fun (x, y) =>
            equalWithin h n ((a, b) :: active) x y
  | _, _, object a, object b => a == b
  | _, _, function a _ _, function b _ _ => a == b
  | _, _, native a _ _, native b _ _ => a == b
  | _, _, type a, type b => a.id == b.id
  | _, _, _, _ => false

/-- Arrays are equal when their elements are; instances, functions and classes equal only
themselves. -/
def equal (h : Heap) (a b : Value) : Bool := equalWithin h maxNesting [] a b

end Value

/-- The text of a value for inspection: a string stands in quotes. -/
def Value.inspect (h : Heap) : Value → String
  | .text s => Text.quoted s
  | v => v.toText h

end ScriptEngine
