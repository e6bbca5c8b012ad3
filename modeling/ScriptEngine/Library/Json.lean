import ScriptEngine.Json.Reader
import ScriptEngine.Library.Arguments

/-!
# JSON and values

Objects become instances and back. Values that JSON has no word for become null. A value that is
nested too deeply, which every one that contains itself is, has no JSON form.
-/
namespace ScriptEngine

/-- How many levels of arrays and instances, with the value inside, are written. -/
def Json.maxWriteDepth : Nat := 129

/-- The JSON form of a value with room for `n` levels. -/
def Value.toJsonWithin? (h : Heap) : Nat → Value → Option Json
  | 0, _ => none
  | n + 1, v =>
    match v with
    | .nil | .function .. | .native .. | .type _ => some .null
    | .bool b => some (.bool b)
    | .number x => some (.number x)
    | .text s => some (.text s)
    | .array r => ((h.array r).toList.mapM (toJsonWithin? h n)).map .array
    | .object r =>
      let fields : List (String × Value) := ((h.instance? r).map fun i => i.fields.entries).getD []
      (fields.mapM fun e => (toJsonWithin? h n e.2).map fun j => (e.1, j)).map .object

/-- The JSON form of a value. -/
def Value.toJson (h : Heap) (v : Value) : Except Failure Json :=
  match v.toJsonWithin? h Json.maxWriteDepth with
  | some j => .ok j
  | none => .error .jsonTooDeep

mutual

/-- Puts a JSON value on the heap; of members with one key the last counts. -/
def Json.toValue (cls : Class) (h : Heap) : Json → Value × Heap
  | .null => (.nil, h)
  | .bool b => (.bool b, h)
  | .number x => (.number x, h)
  | .text s => (.text s, h)
  | .array items =>
    match Json.toValues cls h items with
    | (values, h) =>
      match h.newArray values.toArray with
      | (r, h) => (.array r, h)
  | .object members =>
    match Json.toFields cls h members with
    | (entries, h) =>
      match h.newInstance ⟨cls, .ofList entries⟩ with
      | (r, h) => (.object r, h)

def Json.toValues (cls : Class) (h : Heap) : List Json → List Value × Heap
  | [] => ([], h)
  | j :: rest =>
    match j.toValue cls h with
    | (v, h) =>
      match Json.toValues cls h rest with
      | (values, h) => (v :: values, h)

def Json.toFields (cls : Class) (h : Heap) : List (String × Json) → List (String × Value) × Heap
  | [] => ([], h)
  | (key, j) :: rest =>
    match j.toValue cls h with
    | (v, h) =>
      match Json.toFields cls h rest with
      | (entries, h) => ((key, v) :: entries, h)

end

namespace Library

def jsonFunction (f : JsonFunction) (args : List Value) : Eval Value :=
  match f with
  | .parse =>
    match argument args 0 with
    | .text s =>
      match Json.parse? s with
      | some j => Eval.change fun m =>
          match j.toValue m.objectClass m.heap with
          | (v, heap) => (v, { m with heap })
      | none => Eval.pure .nil
    | _ => Eval.pure .nil
  | .stringify =>
    Eval.bind (Eval.read fun m => (argument args 0).toJson m.heap) fun j =>
      answer (j.map fun j => .text j.render)

end Library

end ScriptEngine
