import ScriptEngine.Machine.Basic

/-!
# Fresh machines

A machine before anything has run: the global scope holds the built-in functions, the class of
promises and the global objects, in that order.
-/
namespace ScriptEngine

/-- A number for a new function or class, and the machine that has given it out. -/
def Machine.withFreshId (m : Machine) : Nat × Machine :=
  (m.nextId, { m with nextId := m.nextId + 1 })

def Machine.defineGlobal (m : Machine) (name : String) (value : Value) : Machine :=
  { m with scopes := m.scopes.define .global name value false }

/-- Defines a built-in function under its name. -/
def Machine.addFunction (m : Machine) (n : Native) : Machine :=
  match m.withFreshId with
  | (id, m) => m.defineGlobal n.name (.native id n none)

/-- The functions of a global object as its fields. -/
def Machine.functionFields (m : Machine) : List Native → List (String × Value) × Machine
  | [] => ([], m)
  | n :: rest =>
    match m.withFreshId with
    | (id, m) =>
      match m.functionFields rest with
      | (fields, m) => ((n.name, .native id n none) :: fields, m)

/-- Defines an object whose fields are built-in functions. -/
def Machine.addObject (m : Machine) (object : String × List Native) : Machine :=
  match m.withFreshId with
  | (id, m) =>
    match m.functionFields object.2 with
    | (fields, m) =>
      match m.heap.newInstance ⟨.mk id object.1 none [] [], .ofList fields⟩ with
      | (r, heap) => { m with heap }.defineGlobal object.1 (.object r)

/-- The class of promises. -/
def Class.promise : Class := .mk 0 "Promise" none [] [.promise .onResolve, .promise .onReject]

/-- The class of objects that are written down. -/
def Class.plain : Class := .mk 1 "Object" none [] []

/-- A machine in which nothing is defined. -/
def Machine.bare (settings : Settings) : Machine where
  scopes := .root
  heap := .empty
  nextId := 2
  depth := 0
  settings
  loop := .empty
  promises := .empty
  promiseClass := .promise
  objectClass := .plain
  workers := .empty
  link := none
  servers := .empty
  importers := []
  args := []
  output := .host
  diagnostics := .host

def Machine.fresh (settings : Settings) : Machine :=
  let m := Native.globals.foldl Machine.addFunction (.bare settings)
  Native.globalObjects.foldl Machine.addObject (m.defineGlobal "Promise" (.type .promise))

end ScriptEngine
