/-!
# Scopes

A scope is a frame of bindings inside another one. Frames live in a table and are referred to by
their place in it, so that closures share them. A frame keeps its bindings in the order in which
their names were first defined.
-/
namespace ScriptEngine

/-- A name with its value; constants cannot be assigned to. -/
structure Binding (α : Type) where
  name : String
  value : α
  constant : Bool
deriving DecidableEq, Repr

/-- The place of a frame in its table. -/
structure ScopeRef where
  index : Nat
deriving DecidableEq, Repr, Inhabited

/-- The bindings of one scope, and the scope around it. -/
structure Frame (α : Type) where
  bindings : Array (Binding α)
  parent : Option ScopeRef
deriving Repr

namespace Frame

variable {α : Type}

instance : Inhabited (Frame α) := ⟨⟨#[], none⟩⟩

/-- The place of a name among the bindings. -/
def slot? (f : Frame α) (name : String) : Option Nat := f.bindings.findIdx? fun b => b.name == name

def has (f : Frame α) (name : String) : Bool := (f.slot? name).isSome

def names (f : Frame α) : List String := f.bindings.toList.map Binding.name

/-- Defines a name: in the place it already has, or behind all others. -/
def define (f : Frame α) (name : String) (value : α) (constant : Bool) : Frame α :=
  match f.slot? name with
  | some i => { f with bindings := f.bindings.set! i ⟨name, value, constant⟩ }
  | none => { f with bindings := f.bindings.push ⟨name, value, constant⟩ }

/-- Changes the value at a place. -/
def update (f : Frame α) (i : Nat) (value : α) : Frame α :=
  { f with bindings := f.bindings.modify i fun b => { b with value } }

/-- Drops all bindings and keeps the scope around. -/
def clear (f : Frame α) : Frame α := { f with bindings := #[] }

end Frame

/-- All frames. -/
abbrev Scopes (α : Type) := Array (Frame α)

/-- Why an assignment is refused. -/
inductive AssignError where
  | undefined
  | constant
deriving DecidableEq, Repr

namespace Scopes

variable {α : Type}

/-- A table with one frame, which has no other around it. -/
def root : Scopes α := #[⟨#[], none⟩]

/-- Adds an empty frame inside `parent`. -/
def child (s : Scopes α) (parent : ScopeRef) : ScopeRef × Scopes α :=
  (⟨s.size⟩, s.push ⟨#[], some parent⟩)

def frame? (s : Scopes α) (r : ScopeRef) : Option (Frame α) := s[r.index]?

def parent? (s : Scopes α) (r : ScopeRef) : Option ScopeRef := (s.frame? r).bind Frame.parent

/-- The nearest binding of a name, looking outward through at most `n` frames: the scope that holds
it and its place there. -/
def placeWithin (s : Scopes α) (name : String) : Nat → ScopeRef → Option (ScopeRef × Nat)
  | 0, _ => none
  | n + 1, r =>
    match s[r.index]? with
    | none => none
    | some f =>
      match f.slot? name with
      | some i => some (r, i)
      | none =>
        match f.parent with
        | none => none
        | some p => placeWithin s name n p

/-- The nearest binding of a name. No chain has more frames than the table. -/
def place? (s : Scopes α) (r : ScopeRef) (name : String) : Option (ScopeRef × Nat) :=
  s.placeWithin name s.size r

/-- The binding at a place. -/
def binding? (s : Scopes α) (r : ScopeRef) (i : Nat) : Option (Binding α) :=
  (s.frame? r).bind fun f => f.bindings[i]?

/-- The value of a name as seen from a scope. -/
def get? (s : Scopes α) (r : ScopeRef) (name : String) : Option α :=
  match s.place? r name with
  | none => none
  | some (h, i) => (s.binding? h i).map Binding.value

/-- Defines a name in this very scope. -/
def define (s : Scopes α) (r : ScopeRef) (name : String) (value : α) (constant : Bool) : Scopes α :=
  s.modify r.index fun f => f.define name value constant

/-- The place that an assignment to a name changes: its nearest binding, unless that is a
constant. -/
def target (s : Scopes α) (r : ScopeRef) (name : String) : Except AssignError (ScopeRef × Nat) :=
  match s.place? r name with
  | none => .error .undefined
  | some (h, i) => if (s.binding? h i).any Binding.constant then .error .constant else .ok (h, i)

/-- Changes the value at a place. -/
def put (s : Scopes α) (place : ScopeRef × Nat) (value : α) : Scopes α :=
  s.modify place.1.index fun f => f.update place.2 value

/-- Changes the nearest binding of a name, unless it is a constant. -/
def assign (s : Scopes α) (r : ScopeRef) (name : String) (value : α) :
    Except AssignError (Scopes α) :=
  (s.target r name).map fun place => s.put place value

/-- Drops all bindings of this very scope. -/
def clear (s : Scopes α) (r : ScopeRef) : Scopes α := s.modify r.index Frame.clear

end Scopes

end ScriptEngine
