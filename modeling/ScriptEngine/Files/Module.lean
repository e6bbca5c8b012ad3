import ScriptEngine.Files.Tree
import ScriptEngine.Grammar.Parse
import ScriptEngine.Value.Failure

/-!
# Finding and loading modules

An import names a module. The places where it may be are tried in a fixed order, and a place that
was listed before is not listed again.
-/
namespace ScriptEngine

inductive ModuleError where
  | notFound (spec : String)
  | unreadable (path : Path) (error : FileError)
  | lexical (path : Path) (error : LexError)
  | grammatical (path : Path) (error : ParseError)
deriving Repr

namespace ModuleError

def message : ModuleError → String
  | notFound spec => "Could not open file: " ++ spec
  | unreadable p e => "Could not read " ++ p.text ++ ": " ++ e.message
  | lexical p e => p.text ++ ": " ++ e.message
  | grammatical p e => p.text ++ ": " ++ e.message

/-- For a host, text that is no program is a syntax error wherever it stands. -/
def code : ModuleError → ErrorCode
  | lexical .. | grammatical .. => .syntaxCode
  | notFound _ | unreadable .. => .moduleResolution

/-- Inside a program every failed import is a failure to resolve a module. -/
def toFailure (e : ModuleError) : Failure := .module e.message

end ModuleError

namespace Module

def extension : String := "fsk"

def packageDirectory : Path := ⟨"fsk_modules"⟩

def standardDirectory : Path := ⟨"std"⟩

def packageEntry : Path := ⟨"index.fsk"⟩

/-- Keeps the first of all entries that denote one path. -/
def dedup (paths : List Path) : List Path :=
  paths.foldl (fun kept p => if kept.any p.same then kept else kept ++ [p]) []

/-- Adds a search path that is not there yet. -/
def addSearchPath (paths : List Path) (p : Path) : List Path :=
  if paths.any p.same then paths else paths ++ [p]

/-- The names under which a specifier is tried: as written and, if it has no extension, with one. -/
def names (spec : Path) : List Path :=
  if spec.extension?.isNone then [spec, spec.addExtension extension] else [spec]

/-- The directories in which a relative specifier is tried. -/
def roots (searchPaths : List Path) (importer : Option Path) : List Path :=
  importer.toList ++ [⟨""⟩] ++ searchPaths ++ (importer.bind Path.parent?).toList

/-- The places tried in one directory. -/
def placesIn (spec : Path) (root : Path) : List Path :=
  (names spec).map root.join
    ++ (names spec).map (root.join packageDirectory).join
    ++ [((root.join packageDirectory).join spec).join packageEntry]
    ++ (names spec).map (root.join standardDirectory).join

/-- All places for a specifier in the order of their priority. -/
def places (searchPaths : List Path) (spec : Path) (importer : Option Path) : List Path :=
  if spec.isAbsolute then names spec
  else (roots searchPaths importer).flatMap (placesIn spec)

/-- The places that are tried, each once. -/
def candidates (searchPaths : List Path) (spec : String) (importer : Option Path) : List Path :=
  let spec : Path := ⟨spec⟩
  if spec.isAbsolute then places searchPaths spec importer
  else dedup (places searchPaths spec importer)

/-- The first candidate that is a file. -/
def resolve (isFile : Path → Bool) (searchPaths : List Path) (spec : String)
    (importer : Option Path) : Except ModuleError Path :=
  match (candidates searchPaths spec importer).find? isFile with
  | some p => .ok p
  | none => .error (.notFound spec)

/-- The program in a file's contents. -/
def parse (p : Path) (contents : Except FileError String) : Except ModuleError Program :=
  match contents with
  | .error e => .error (.unreadable p e)
  | .ok source =>
    match Token.scan source with
    | .error e => .error (.lexical p e)
    | .ok tokens => (Grammar.parseTokens tokens).mapError (.grammatical p)

end Module

end ScriptEngine
