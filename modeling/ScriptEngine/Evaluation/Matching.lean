import ScriptEngine.Machine.Eval

/-!
# Patterns at work

Testing whether a pattern fits a value, which changes nothing, and binding the names of a pattern to
the parts of a value. What is missing from an array or an object is bound as nil.
-/
namespace ScriptEngine

mutual

/-- Whether a match arm with this pattern is taken. A name fits everything. -/
def Pattern.fits (h : Heap) : Pattern → Value → Bool
  | .name _, _ => true
  | .literal l, v => (Value.ofLiteral l).equal h v
  | .array elements, v =>
    match v with
    | .array r => Pattern.elementsFit h elements (h.array r).toList
    | _ => false
  | .object fields, v =>
    match v with
    | .object r => Pattern.fieldsFit h fields r
    | _ => false

/-- Elements fit one by one; a last element that takes the rest fits any number of them. -/
def Pattern.elementsFit (h : Heap) : List (Pattern × Bool) → List Value → Bool
  | [], items => items.isEmpty
  | [(p, spread)], items =>
    if spread then true
    else
      match items with
      | [v] => p.fits h v
      | _ => false
  | (p, _) :: rest, items =>
    match items with
    | v :: items => p.fits h v && Pattern.elementsFit h rest items
    | [] => false

/-- Every named field has to be there and to fit. -/
def Pattern.fieldsFit (h : Heap) : List (String × Pattern) → InstanceRef → Bool
  | [], _ => true
  | (key, p) :: rest, r =>
    (match h.field? r key with
      | some v => p.fits h v
      | none => false) && Pattern.fieldsFit h rest r

end

mutual

/-- Binds the names of a pattern in a scope, from left to right. -/
def bindPattern (scope : ScopeRef) (constant : Bool) : Pattern → Value → Eval Unit
  | .name n, v => Eval.define scope n v constant
  | .literal _, _ => Eval.pure ()
  | .array elements, v =>
    match v with
    | .array r =>
      Eval.bind (Eval.read fun m => m.heap.array r) fun items =>
        bindElements scope constant items elements 0
    | _ => Eval.fail .notArrayPattern
  | .object fields, v =>
    match v with
    | .object r => bindFields scope constant r fields
    | _ => Eval.fail .notObjectPattern

/-- Binds the elements of an array pattern from position `i` on. -/
def bindElements (scope : ScopeRef) (constant : Bool) (items : Array Value) :
    List (Pattern × Bool) → Nat → Eval Unit
  | [], _ => Eval.pure ()
  | (p, spread) :: rest, i =>
    Eval.bind
      (if spread then Eval.newArray (items.extract i items.size)
      else Eval.pure (items.getD i .nil)) fun part =>
    Eval.bind (bindPattern scope constant p part) fun _ =>
      bindElements scope constant items rest (i + 1)

def bindFields (scope : ScopeRef) (constant : Bool) (r : InstanceRef) :
    List (String × Pattern) → Eval Unit
  | [] => Eval.pure ()
  | (key, p) :: rest =>
    Eval.bind (Eval.read fun m => m.heap.field (.object r) key) fun part =>
    Eval.bind (bindPattern scope constant p part) fun _ => bindFields scope constant r rest

end

end ScriptEngine
