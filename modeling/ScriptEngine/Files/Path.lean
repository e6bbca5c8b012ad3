/-!
# Paths

A path is kept as it was written. Two paths are the same when they have the same parts: repeated
slashes, inner dots and a slash at the end do not count, a dot at the front does.
-/
namespace ScriptEngine

/-- A path as written. -/
structure Path where
  text : String
deriving DecidableEq, Repr, Inhabited

namespace Path

/-- Splits at every slash. -/
def splitSlash (cs : List Char) : List (List Char) :=
  match cs with
  | [] => [[]]
  | c :: cs =>
    if c == '/' then [] :: splitSlash cs
    else
      match splitSlash cs with
      | [] => [[c]]
      | s :: rest => (c :: s) :: rest

/-- A path as the part before its segments, which is the root, a leading dot or nothing, and the
segments, empty ones and dots included. -/
structure Shape where
  base : List Char
  segments : List (List Char)

def shape (p : Path) : Shape :=
  match p.text.toList with
  | '/' :: cs => ⟨['/'], splitSlash cs⟩
  | ['.'] => ⟨['.'], []⟩
  | '.' :: '/' :: cs => ⟨['.'], [] :: splitSlash cs⟩
  | cs => ⟨[], splitSlash cs⟩

/-- Segments that take no part in what a path denotes. -/
def isIdle (segment : List Char) : Bool := segment.isEmpty || segment == ['.']

/-- The parts by which paths are compared. -/
def parts (p : Path) : List (List Char) :=
  let s := p.shape
  (if s.base.isEmpty then [] else [s.base]) ++ s.segments.filter fun x => !isIdle x

/-- Whether two paths have the same parts. -/
def same (p q : Path) : Bool := p.parts == q.parts

def isAbsolute (p : Path) : Bool := p.text.toList.head? == some '/'

/-- The text of a shape. -/
def Shape.toPath (s : Shape) : Path :=
  ⟨String.ofList (s.base ++ ['/'].intercalate s.segments)⟩

/-- The shape without idle segments at its end. -/
def Shape.trimmed (s : Shape) : Shape :=
  { s with segments := (s.segments.reverse.dropWhile isIdle).reverse }

/-- The name of the file or directory a path ends in, if it ends in one. -/
def fileName? (p : Path) : Option (List Char) :=
  match p.shape.trimmed.segments.getLast? with
  | some name => if name == ['.', '.'] then none else some name
  | none => none

/-- The path without its last part; none for a root and for the empty path. -/
def parent? (p : Path) : Option Path :=
  let s := p.shape.trimmed
  if s.segments.isEmpty then if s.base == ['.'] then some ⟨""⟩ else none
  else some ({ s with segments := s.segments.dropLast } : Shape).trimmed.toPath

/-- What follows the last dot of the file name; a dot at the front of the name does not count. -/
def extension? (p : Path) : Option (List Char) :=
  match p.fileName? with
  | none => none
  | some name =>
    let after := name.reverse.takeWhile (· != '.')
    if after.length + 1 < name.length then some after.reverse else none

/-- The path with an extension put behind its file name; the file name has none. -/
def addExtension (p : Path) (extension : String) : Path :=
  match p.fileName? with
  | none => p
  | some _ => ⟨p.shape.trimmed.toPath.text ++ "." ++ extension⟩

/-- The second path seen from the first. -/
def join (p q : Path) : Path :=
  if q.isAbsolute || p.text.isEmpty then q
  else if p.text.toList.getLast? == some '/' then ⟨p.text ++ q.text⟩
  else ⟨p.text ++ "/" ++ q.text⟩

end Path

end ScriptEngine
