import ScriptEngine.Host.Hub

/-!
# Sandboxes

Surroundings that are a value: a clock that only moves when it is looked at or waited for, a tree of
files, the bytes of an input and the texts of two streams. What a program does in a sandbox depends
on nothing else, and no connection leads out of it.
-/
namespace ScriptEngine

structure Sandbox where
  /-- Nanoseconds since the epoch. -/
  clock : Nat
  files : FileTree
  input : List UInt8
  output : String
  diagnostics : String
  seed : Nat

namespace Sandbox

/-- Every look at the clock takes this long. -/
def tick : Nat := 2000

/-- Some moment in 2025. -/
def startTime : Nat := 1750000000000000000

def ofFiles (files : FileTree) (input : List UInt8) : Sandbox :=
  ⟨startTime, files, input, "", "", 1⟩

/-- The next line of the input, with its line break. -/
def readLine (s : Sandbox) : Except FileError (Option String) × Sandbox :=
  match Http.takeLine s.input with
  | ([], _) => (.ok none, s)
  | (line, rest) =>
    match Text.decode? line with
    | some text => (.ok (some text), { s with input := rest })
    | none => (.error .notText, { s with input := rest })

/-- A number in a range, picked by stepping a fixed sequence. -/
def random (s : Sandbox) (low high : Int) : Int × Sandbox :=
  let seed := (s.seed * 6364136223846793005 + 1442695040888963407) % Nat.pow 2 64
  (low + ((seed / Nat.pow 2 20 : Nat) : Int) % (high - low + 1), { s with seed })

def write (s : Sandbox) : Stream → String → Sandbox
  | .output, text => { s with output := s.output ++ text }
  | .diagnostics, text => { s with diagnostics := s.diagnostics ++ text }

/-- Changes the files and tells whether it worked. -/
def changeFiles (s : Sandbox) (change : FileTree → Bool × FileTree) : Bool × Sandbox :=
  match change s.files with
  | (done, files) => (done, { s with files })

def answer (s : Sandbox) : (q : OuterRequest) → q.Answer × Sandbox
  | .write stream text => ((), s.write stream text)
  | .readLine => s.readLine
  | .now => (s.clock, { s with clock := s.clock + tick })
  | .waitUntil time => ((), { s with clock := max s.clock time })
  | .random low high => s.random low high
  | .readFile p => (s.files.read p, s)
  | .writeFile p contents append =>
    s.changeFiles fun t => t.write p fun bytes =>
      if append then bytes ++ Text.encode contents else Text.encode contents
  | .firstFile paths => (paths.find? s.files.isFile, s)
  | .holds p => (s.files.holds p, s)
  | .delete p => s.changeFiles fun t => t.delete p
  | .makeDirectory p => s.changeFiles fun t => t.makeAll p
  | .list p => (s.files.list p, s)

/-- Runs a dialogue in a sandbox. -/
def run {ρ : Type} (s : Sandbox) : Hub.Outer ρ → ρ × Sandbox
  | .finished r => (r, s)
  | .asking q next =>
    match s.answer q with
    | (a, s) => run s (next a)

end Sandbox

/-- A sandbox and the programs in it. -/
structure World where
  sandbox : Sandbox
  hub : Hub

namespace World

def ofFiles (files : FileTree) (input : List UInt8) : World := ⟨.ofFiles files input, .empty true⟩

/-- Lets a program talk until it ends; none if it waits for ever or the bound is reached. -/
def run {ρ : Type} (w : World) (bound : Nat) (talk : Talk ρ) : Option ρ × World :=
  match w.sandbox.run (w.hub.run bound talk) with
  | ((result, hub), sandbox) => (result, ⟨sandbox, hub⟩)

end World

end ScriptEngine
