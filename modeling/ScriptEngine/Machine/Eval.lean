import ScriptEngine.Machine.Basic
import ScriptEngine.Machine.Dialogue

/-!
# Evaluations

An evaluation takes a machine and talks to the host until it ends: with a value, with a signal that
leaves the computation, or, as the bound on its length is used up, with neither. Loops are bounded
by a number of rounds, so every evaluation is a finite tree.
-/
namespace ScriptEngine

/-- The ways an evaluation ends. -/
inductive Ending (α : Type) where
  | value (value : α) (machine : Machine)
  | stopped (signal : Signal) (machine : Machine)
  | exhausted

/-- What a program says to the host, up to its result. -/
abbrev Talk (ρ : Type) : Type := Dialogue Request.Answer ρ

def Eval (α : Type) : Type := Machine → Talk (Ending α)

namespace Eval

variable {α β : Type}

@[inline]
def pure (a : α) : Eval α := fun m => .finished (.value a m)

/-- Goes on from an ending with a value, and passes on the others. -/
@[inline]
def andThen (f : α → Eval β) : Ending α → Talk (Ending β)
  | .value a m => f a m
  | .stopped s m => .finished (.stopped s m)
  | .exhausted => .finished .exhausted

@[inline]
def bind (x : Eval α) (f : α → Eval β) : Eval β := fun m =>
  match x m with
  | .finished (.value a m) => f a m
  | .finished (.stopped s m) => .finished (.stopped s m)
  | .finished .exhausted => .finished .exhausted
  | .asking q next => .asking q fun a => (next a).bind (andThen f)

@[inline]
instance : Monad Eval where
  pure := pure
  bind := bind

instance : Inhabited (Eval α) := ⟨fun _ => .finished .exhausted⟩

/-- Reads something off the machine. -/
@[inline]
def read (f : Machine → α) : Eval α := fun m => .finished (.value (f m) m)

@[inline]
def update (f : Machine → Machine) : Eval Unit := fun m => .finished (.value () (f m))

/-- Changes the machine and returns something about the change. -/
@[inline]
def change (f : Machine → α × Machine) : Eval α := fun m =>
  match f m with
  | (a, m) => .finished (.value a m)

/-- Leaves the computation. -/
@[inline]
def stop (s : Signal) : Eval α := fun m => .finished (.stopped s m)

@[inline]
def fail (f : Failure) : Eval α := stop (.failed f)

/-- Out of bound. -/
def exhausted : Eval α := fun _ => .finished .exhausted

/-- Asks the host. -/
def ask (q : Request) : Eval q.Answer := fun m => .asking q fun a => .finished (.value a m)

/-- Asks about the surroundings. -/
def askOuter (q : OuterRequest) : Eval q.Answer := ask (.outer q)

@[inline]
def ofExcept : Except Failure α → Eval α
  | .ok a => pure a
  | .error f => fail f

/-- What a computation came to, as a value: a signal ends nothing here. -/
@[inline]
def attempt (x : Eval α) : Eval (Except Signal α) := fun m =>
  match x m with
  | .finished (.value a m) => .finished (.value (.ok a) m)
  | .finished (.stopped s m) => .finished (.value (.error s) m)
  | .finished .exhausted => .finished .exhausted
  | .asking q next => .asking q fun a => (next a).bind fun
    | .value a m => .finished (.value (.ok a) m)
    | .stopped s m => .finished (.value (.error s) m)
    | .exhausted => .finished .exhausted

/-- Repeats an action on its own results until it gives none, at most `n` times. -/
def iterate (body : β → Eval (Option β)) : Nat → β → Eval Unit
  | 0, _, _ => .finished .exhausted
  | n + 1, b, m =>
    match body b m with
    | .finished (.value (some b) m) => iterate body n b m
    | .finished (.value none m) => .finished (.value () m)
    | .finished (.stopped s m) => .finished (.stopped s m)
    | .finished .exhausted => .finished .exhausted
    | .asking q next => .asking q fun a => (next a).bind <| andThen fun
      | some b => iterate body n b
      | none => pure ()

/-- Repeats an action as long as it answers true, at most `n` times. -/
@[inline]
def repeatWhile (body : Eval Bool) (n : Nat) : Eval Unit :=
  iterate (fun _ => bind body fun again => pure (if again then some () else none)) n ()

/-- Runs through a list and carries a result along. -/
def foldList (f : β → α → Eval β) : List α → β → Eval β
  | [], b, m => .finished (.value b m)
  | a :: rest, b, m =>
    match f b a m with
    | .finished (.value b m) => foldList f rest b m
    | .finished (.stopped s m) => .finished (.stopped s m)
    | .finished .exhausted => .finished .exhausted
    | .asking q next => .asking q fun x => (next x).bind (andThen fun b => foldList f rest b)

/-- Does something with each element of a list in turn. -/
@[inline]
def forEach (f : α → Eval Unit) (xs : List α) : Eval Unit := foldList (fun _ a => f a) xs ()

/-- The results for the elements of a list, in order. -/
@[inline]
def mapList (f : α → Eval β) (xs : List α) : Eval (Array β) :=
  foldList (fun (out : Array β) a => bind (f a) fun b => pure (out.push b)) xs #[]

/-! What evaluations do to the machine -/

/-- A number that no function or class has. -/
def freshId : Eval Nat := change fun m => (m.nextId, { m with nextId := m.nextId + 1 })

/-- An empty scope inside another one. -/
def childScope (s : ScopeRef) : Eval ScopeRef := change fun m =>
  match m.scopes.child s with
  | (r, scopes) => (r, { m with scopes })

def define (s : ScopeRef) (name : String) (value : Value) (constant : Bool) : Eval Unit :=
  update fun m => { m with scopes := m.scopes.define s name value constant }

def lookup? (s : ScopeRef) (name : String) : Eval (Option Value) :=
  read fun m => m.scopes.get? s name

/-- The value of a name, which has to be defined. -/
def lookup (s : ScopeRef) (name : String) : Eval Value := do
  match ← lookup? s name with
  | some v => pure v
  | none => fail (.undefinedVariable name)

def assign (s : ScopeRef) (name : String) (value : Value) : Eval Unit := fun m =>
  match m.scopes.target s name with
  | .ok place => .finished (.value () { m with scopes := m.scopes.put place value })
  | .error e => .finished (.stopped (.failed (.ofAssignError name e)) m)

def newArray (items : Array Value) : Eval Value := change fun m =>
  match m.heap.newArray items with
  | (r, heap) => (.array r, { m with heap })

def newInstance (cls : Class) (fields : Fields Value) : Eval InstanceRef := change fun m =>
  match m.heap.newInstance ⟨cls, fields⟩ with
  | (r, heap) => (r, { m with heap })

def setField (r : InstanceRef) (key : String) (value : Value) : Eval Unit :=
  update fun m => { m with heap := m.heap.setField r key value }

/-- The text of a value. -/
def textOf (v : Value) : Eval String := read fun m => v.toText m.heap

/-- Writes to a stream, wherever it goes. -/
def write (stream : Stream) (text : String) : Eval Unit := fun m =>
  match stream with
  | .output =>
    match m.output with
    | .kept kept => .finished (.value () { m with output := .kept (kept ++ text) })
    | .host => askOuter (.write stream text) m
  | .diagnostics =>
    match m.diagnostics with
    | .kept kept => .finished (.value () { m with diagnostics := .kept (kept ++ text) })
    | .host => askOuter (.write stream text) m

def writeLine (stream : Stream) (line : String) : Eval Unit := write stream (line ++ "\n")

/-- Reports a failure on the diagnostic stream. -/
def report (d : Diagnostic) : Eval Unit := writeLine .diagnostics d.toText

end Eval

end ScriptEngine
