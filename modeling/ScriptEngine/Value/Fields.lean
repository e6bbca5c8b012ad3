/-!
# Fields of an object

Fields are kept in the order of their keys, which is the order of code points.
-/
namespace ScriptEngine

/-- Values under keys, in ascending order of the keys. -/
structure Fields (α : Type) where
  entries : List (String × α)
deriving Repr

namespace Fields

variable {α : Type}

def empty : Fields α := ⟨[]⟩

/-- Puts an entry in its place, or in the place of one with the same key. -/
def insertEntry (key : String) (value : α) : List (String × α) → List (String × α)
  | [] => [(key, value)]
  | (k, v) :: rest =>
    if key = k then (key, value) :: rest
    else if key < k then (key, value) :: (k, v) :: rest
    else (k, v) :: insertEntry key value rest

def insert (f : Fields α) (key : String) (value : α) : Fields α :=
  ⟨insertEntry key value f.entries⟩

def get? (f : Fields α) (key : String) : Option α := f.entries.lookup key

/-- The later of two entries with one key counts. -/
def ofList (entries : List (String × α)) : Fields α :=
  entries.foldl (fun f e => f.insert e.1 e.2) empty

def map {β : Type} (g : α → β) (f : Fields α) : Fields β := ⟨f.entries.map fun e => (e.1, g e.2)⟩

end Fields

end ScriptEngine
