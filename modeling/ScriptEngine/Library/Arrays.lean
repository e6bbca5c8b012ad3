import ScriptEngine.Library.Arguments

/-!
# Methods of arrays

Methods with a callback work on the elements that the array holds when they are called.
-/
namespace ScriptEngine.Library

/-- An offset into `size` elements; negative ones count from the end. -/
def clampOffset (x : Float) (size : Nat) : Nat :=
  if x < 0 then size - toNat (-x) else min (toNat x) size

/-- The elements between two offsets. -/
def slice (items : Array Value) (args : List Value) : Except Failure (Array Value) := do
  let first ← if args.isEmpty then .ok 0
    else (numberArgument args 0 "slice").map fun x => clampOffset x items.size
  let last ← if args.length < 2 then .ok items.size
    else (numberArgument args 1 "slice").map fun x => clampOffset x items.size
  return items.extract first last

/-- The texts of the elements with a separator between them. -/
def joined (h : Heap) (items : Array Value) (args : List Value) : Except Failure Value := do
  let separator ← if args.isEmpty then .ok "," else textArgument args 0 "join"
  return .text (separator.intercalate (items.toList.map (Value.toText h)))

/-- The position of the first element equal to a value. -/
def position? (h : Heap) (items : Array Value) (v : Value) : Option Nat :=
  items.findIdx? fun x => x.equal h v

/-- Calls with an element, and with its position too if the callback takes two arguments. -/
def callWithItem (call : Caller) (callback item : Value) (i : Nat) : Eval Value :=
  if callback.arity?.any fun a => a.accepts 2 then call callback [item, .ofNat i]
  else call callback [item]

def mapItems (call : Caller) (callback : Value) (items : Array Value) : Eval Value := do
  Eval.newArray (← Eval.mapList (fun (v, i) => callWithItem call callback v i) items.toList.zipIdx)

def filterItems (call : Caller) (callback : Value) (items : Array Value) : Eval Value := do
  let kept ← Eval.foldList (fun (kept : Array Value) (v, i) => do
    if (← callWithItem call callback v i).isTruthy then return kept.push v else return kept)
    items.toList.zipIdx #[]
  Eval.newArray kept

def visitItems (call : Caller) (callback : Value) (items : Array Value) : Eval Value := do
  Eval.forEach (fun (v, i) => do discard (callWithItem call callback v i)) items.toList.zipIdx
  return .nil

/-- Changes the elements and returns a value found in them before. -/
def changeItems (r : ArrayRef) (value : Array Value → Value)
    (f : Array Value → Array Value) : Eval Value := do
  let v ← Eval.read fun m => value (m.heap.array r)
  Eval.update fun m => { m with heap := m.heap.modifyArray r f }
  return v

def arrayMethod (call : Caller) (method : ArrayMethod) (receiver : Option Value)
    (args : List Value) : Eval Value := do
  match receiver with
  | some (.array r) =>
    let first := argument args 0
    match method with
    | .push => changeItems r (fun _ => first) fun a => a.push first
    | .pop => changeItems r (fun a => a.back?.getD .nil) fun a => a.pop
    | .pushFront => changeItems r (fun _ => first) fun a => #[first] ++ a
    | .popFront => changeItems r (fun a => a.getD 0 .nil) fun a => a.extract 1 a.size
    | .join => Eval.bind (Eval.read fun m => joined m.heap (m.heap.array r) args) answer
    | .includes => Eval.read fun m => .bool (position? m.heap (m.heap.array r) first).isSome
    | .indexOf => Eval.read fun m =>
        match position? m.heap (m.heap.array r) first with
        | some i => .ofNat i
        | none => .number (-1)
    | .slice =>
      let part ← Eval.bind (Eval.read fun m => slice (m.heap.array r) args) Eval.ofExcept
      Eval.newArray part
    | .map => Eval.bind (Eval.read fun m => m.heap.array r) (mapItems call first)
    | .filter => Eval.bind (Eval.read fun m => m.heap.array r) (filterItems call first)
    | .forEach => Eval.bind (Eval.read fun m => m.heap.array r) (visitItems call first)
  | _ => Eval.fail .notArrayReceiver

end ScriptEngine.Library
