import ScriptEngine.Files.Path
import ScriptEngine.Text.Utf8

/-!
# A tree of files

Directories and files under one root, with a working directory from which relative paths start.
Looking up a path goes through its segments one by one, and all but the last have to be directories.
-/
namespace ScriptEngine

inductive FileEntry where
  | directory
  | file (bytes : List UInt8)
deriving Repr

/-- Names from the root down. -/
abbrev Location := List String

structure FileTree where
  entries : List (Location × FileEntry)
  workingDirectory : Location
deriving Repr

/-- Why the contents of a file cannot be had. -/
inductive FileError where
  | notFound
  | isDirectory
  | notDirectory
  | notText
  | badName
  | nameTooLong
deriving DecidableEq, Repr

def FileError.message : FileError → String
  | .notFound => "No such file or directory (os error 2)"
  | .isDirectory => "Is a directory (os error 21)"
  | .notDirectory => "Not a directory (os error 20)"
  | .notText => "stream did not contain valid UTF-8"
  | .badName => "file name contained an unexpected NUL byte"
  | .nameTooLong => "File name too long (os error 36)"

namespace FileTree

/-- Only the working directory. -/
def empty : FileTree := ⟨[(["scratch"], .directory)], ["scratch"]⟩

def entry? (t : FileTree) (l : Location) : Option FileEntry :=
  if l.isEmpty then some .directory else t.entries.lookup l

/-- The most bytes that one name takes. -/
def maxName : Nat := 255

/-- Paths take fewer bytes than this. -/
def pathLimit : Nat := 4096

/-- Goes on from a location through path segments. -/
def walk (t : FileTree) : Location → List (List Char) → Except FileError Location
  | l, [] => .ok l
  | l, s :: rest =>
    match t.entry? l with
    | none => .error .notFound
    | some (.file _) => .error .notDirectory
    | some .directory =>
      if Path.isIdle s then walk t l rest
      else if s == ['.', '.'] then walk t l.dropLast rest
      else if maxName < (String.ofList s).utf8ByteSize then .error .nameTooLong
      else walk t (l ++ [String.ofList s]) rest

/-- The place that some characters lead to, whether or not something is there. -/
def place (t : FileTree) : List Char → Except FileError Location
  | [] => .error .notFound
  | '/' :: cs => t.walk [] (Path.splitSlash cs)
  | cs => t.walk t.workingDirectory (Path.splitSlash cs)

/-- The characters of a path that can be one: no path holds a null character, and none is too
long. -/
def spelling (p : Path) : Except FileError (List Char) :=
  if p.text.toList.contains '\x00' then .error .badName
  else if pathLimit ≤ p.text.utf8ByteSize then .error .nameTooLong
  else .ok p.text.toList

/-- The place that a path leads to, whether or not something is there. -/
def locate (t : FileTree) (p : Path) : Except FileError Location := (spelling p).bind t.place

def find? (t : FileTree) (p : Path) : Option FileEntry :=
  match t.locate p with
  | .ok l => t.entry? l
  | .error _ => none

def isFile (t : FileTree) (p : Path) : Bool := (t.find? p) matches some (.file _)

def isDirectory (t : FileTree) (p : Path) : Bool := (t.find? p) matches some .directory

def holds (t : FileTree) (p : Path) : Bool := (t.find? p).isSome

/-- The bytes of a file. -/
def read (t : FileTree) (p : Path) : Except FileError (List UInt8) :=
  match t.locate p with
  | .error e => .error e
  | .ok l =>
    match t.entry? l with
    | none => .error .notFound
    | some .directory => .error .isDirectory
    | some (.file bytes) => .ok bytes

/-- The contents of a file that has to be well-formed text. -/
def readText (t : FileTree) (p : Path) : Except FileError String := do
  match Text.decode? (← t.read p) with
  | some s => .ok s
  | none => .error .notText

/-- Puts an entry at a location. -/
def put (t : FileTree) (l : Location) (e : FileEntry) : FileTree :=
  { t with entries := t.entries.filter (fun x => x.1 != l) ++ [(l, e)] }

/-- Writes a file whose directory exists; tells whether it worked. -/
def write (t : FileTree) (p : Path) (change : List UInt8 → List UInt8) : Bool × FileTree :=
  match t.locate p with
  | .error _ => (false, t)
  | .ok l =>
    match t.entry? l with
    | some .directory => (false, t)
    | some (.file bytes) => (true, t.put l (.file (change bytes)))
    | none =>
      if p.text.toList.getLast? == some '/' || !(t.entry? l.dropLast matches some .directory) then
        (false, t)
      else (true, t.put l (.file (change [])))

/-- The names in a directory, in ascending order. -/
def list (t : FileTree) (p : Path) : List String :=
  match t.locate p with
  | .error _ => []
  | .ok l =>
    let inside := t.entries.filterMap fun x =>
      if x.1.length == l.length + 1 && x.1.dropLast == l then x.1.getLast? else none
    if t.entry? l matches some .directory then inside.mergeSort fun a b => decide (a ≤ b) else []

/-- Removes a file or an empty directory; tells whether it worked. -/
def delete (t : FileTree) (p : Path) : Bool × FileTree :=
  let removed (l : Location) : FileTree :=
    { t with entries := t.entries.filter fun x => x.1 != l }
  match t.locate p with
  | .error _ => (false, t)
  | .ok l =>
    match t.entry? l with
    | none => (false, t)
    | some (.file _) => (true, removed l)
    | some .directory =>
      let last := (Path.splitSlash p.text.toList).reverse.dropWhile List.isEmpty |>.head?
      let named := last.any fun s => !(s == ['.']) && !(s == ['.', '.'])
      if named && (t.list p).isEmpty && l != [] then (true, removed l) else (false, t)

/-- The place of a directory that is to be made; slashes at the end of a path do not count. -/
def locateNew (t : FileTree) (p : Path) : Except FileError Location :=
  (spelling p).bind fun cs =>
    match (cs.reverse.dropWhile (· == '/')).reverse with
    | [] => t.place cs
    | cs => t.place cs

/-- Makes one directory inside an existing one. -/
def makeOne (t : FileTree) (p : Path) : Except FileError FileTree :=
  match t.locateNew p with
  | .error e => .error e
  | .ok l =>
    match t.entry? l, t.entry? l.dropLast with
    | some _, _ => .error .isDirectory
    | none, some .directory => .ok (t.put l .directory)
    | none, some (.file _) => .error .notDirectory
    | none, none => .error .notFound

/-- Makes a directory and those above it that are missing, at most `n` of them. -/
def makeAllWithin : Nat → FileTree → Path → Bool × FileTree
  | 0, t, _ => (false, t)
  | n + 1, t, p =>
    if p.text.isEmpty then (true, t)
    else
      match t.makeOne p with
      | .ok made => (true, made)
      | .error .notFound =>
        match p.parent? with
        | none => (false, t)
        | some above =>
          match makeAllWithin n t above with
          | (false, t) => (false, t)
          | (true, t) =>
            match t.makeOne p with
            | .ok made => (true, made)
            | .error _ => (t.isDirectory p, t)
      | .error _ => (t.isDirectory p, t)

/-- Makes a directory and those above it that are missing; tells whether it worked. -/
def makeAll (t : FileTree) (p : Path) : Bool × FileTree :=
  makeAllWithin (p.text.length + 1) t p

/-- A tree with these files in the working directory; a path that ends in a slash is a directory. -/
def ofFiles (files : List (String × List UInt8)) : FileTree :=
  files.foldl (fun t (name, bytes) =>
    let p : Path := ⟨name⟩
    if name.toList.getLast? == some '/' then (t.makeAll p).2
    else
      let t := match p.parent? with
        | some above => (t.makeAll above).2
        | none => t
      (t.write p fun _ => bytes).2) empty

end FileTree

end ScriptEngine
