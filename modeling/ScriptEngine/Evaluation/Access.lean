import ScriptEngine.Machine.Eval

/-!
# Properties and indices

Fields hide methods, and methods come bound to the instance they are read from. Arrays and strings
have a length and built-in methods. Positions are whole numbers from zero.
-/
namespace ScriptEngine

/-- A built-in function as a value of its own. -/
def nativeValue (n : Native) (receiver : Option Value) : Eval Value := do
  return .native (← Eval.freshId) n receiver

/-- A function in a scope that binds the instance it was read from. -/
def bindMethod (method : Method) (receiver : Value) : Eval Value := do
  let scope ← Eval.childScope method.scope
  Eval.define scope "this" receiver false
  return .function (← Eval.freshId) method.decl scope

/-- A field of an instance, or else a method of its class. -/
def instanceProperty? (r : InstanceRef) (name : String) : Eval (Option Value) := do
  match ← Eval.read fun m => m.heap.instance? r with
  | none => return none
  | some i =>
    match i.fields.get? name with
    | some v => return some v
    | none =>
      match i.cls.method? name with
      | some method => return some (← bindMethod method (.object r))
      | none =>
        match i.cls.native? name with
        | some n => return some (← nativeValue n (some (.object r)))
        | none => return none

/-- One of the built-in methods, bound to its receiver. -/
def builtInMethod (methods : List Native) (receiver : Value) (name : String) : Eval Value :=
  match Native.named? methods name with
  | some n => nativeValue n (some receiver)
  | none => Eval.fail (.undefinedProperty name)

def property (object : Value) (name : String) : Eval Value := do
  match object with
  | .object r =>
    match ← instanceProperty? r name with
    | some v => return v
    | none => Eval.fail (.undefinedProperty name)
  | .array r =>
    if name == "length" then Eval.read fun m => .ofNat (m.heap.array r).size
    else builtInMethod Native.arrayMethods object name
  | .text s =>
    if name == "length" then return .ofNat s.length
    else builtInMethod Native.textMethods object name
  | other => Eval.fail (.noProperties name other.typeName)

/-- A position below `size`. -/
def positionWithin (size : Nat) : Value → Except Failure Nat
  | .number x =>
    match Number.Binary.ofFloat? x with
    | none => .error .outOfBounds
    | some b =>
      if b.isWhole && 0 ≤ b.truncate && b.truncate < size then .ok b.truncate.toNat
      else .error .outOfBounds
  | _ => .error .indexNotNumber

/-- What stands at an index. -/
def readIndex (h : Heap) (object key : Value) : Except Failure Value :=
  match object with
  | .array r => do return (h.array r).getD (← positionWithin (h.array r).size key) .nil
  | .text s => do
    match s.toList[← positionWithin s.length key]? with
    | some c => return .text (String.singleton c)
    | none => return .nil
  | .object r =>
    match key with
    | .text k => .ok ((h.field? r k).getD .nil)
    | _ => .error .keyNotText
  | _ => .error .notIndexable

/-- Puts a value at an index that is there; an object may get a new key. -/
def writeIndex (object key value : Value) : Eval Unit := do
  match object with
  | .array r =>
    let i ← Eval.bind (Eval.read fun m => positionWithin (m.heap.array r).size key) Eval.ofExcept
    Eval.update fun m => { m with heap := m.heap.modifyArray r fun a => a.set! i value }
  | .object r =>
    match key with
    | .text k => Eval.setField r k value
    | _ => Eval.fail .keyNotText
  | _ => Eval.fail .notIndexAssignable

end ScriptEngine
