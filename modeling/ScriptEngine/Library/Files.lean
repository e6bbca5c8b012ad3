import ScriptEngine.Library.Arguments

/-!
# Files

Contents are text; bytes that are none are replaced when they are read. What goes wrong outside the
program shows as false, nil or nothing.
-/
namespace ScriptEngine.Library

def readLossy (p : String) : Eval (Option String) := do
  let contents : Except FileError (List UInt8) ← Eval.askOuter (.readFile ⟨p⟩)
  match contents with
  | .ok bytes => return some (Text.decodeLossy bytes)
  | .error _ => return none

def writeText (p contents : String) (append : Bool) : Eval Value := do
  let done : Bool ← Eval.askOuter (.writeFile ⟨p⟩ contents append)
  return .bool done

/-- Writes if both arguments are texts. -/
def writeArguments (args : List Value) (append : Bool) : Eval Value :=
  match argument args 0, argument args 1 with
  | .text p, .text contents => writeText p contents append
  | _, _ => Eval.pure (.bool false)

/-- Does something with a path; other arguments give what is there for them. -/
def withPath (args : List Value) (otherwise : Eval Value) (f : Path → Eval Value) : Eval Value :=
  match argument args 0 with
  | .text p => f ⟨p⟩
  | _ => otherwise

/-- A question about a path that is answered by yes or no. -/
def askFlag (q : Path → OuterRequest) (h : ∀ p, (q p).Answer = Bool) (args : List Value) :
    Eval Value :=
  withPath args (Eval.pure (.bool false)) fun p =>
    Eval.bind (Eval.askOuter (q p)) fun a => Eval.pure (.bool (h p ▸ a))

def fileFunction (f : FileFunction) (args : List Value) : Eval Value := do
  match f with
  | .readFile =>
    let p ← Eval.ofExcept (textArgument args 0 "readFile")
    match ← readLossy p with
    | some s => return .text s
    | none => return .nil
  | .writeFile =>
    let p ← Eval.ofExcept (textArgument args 0 "writeFile")
    let contents ← Eval.ofExcept (textArgument args 1 "writeFile")
    writeText p contents false
  | .exists => askFlag .holds (fun _ => rfl) args
  | .readOrEmpty | .read =>
    withPath args (Eval.pure (.text "")) fun p => do return .text ((← readLossy p.text).getD "")
  | .write => writeArguments args false
  | .append => writeArguments args true
  | .delete => askFlag .delete (fun _ => rfl) args
  | .makeDirectory => askFlag .makeDirectory (fun _ => rfl) args
  | .list =>
    withPath args (Eval.newArray #[]) fun p => do
      let names : List String ← Eval.askOuter (.list p)
      Eval.newArray (names.map Value.text).toArray

end ScriptEngine.Library
