import ScriptEngine.Evaluation.Evaluator
import ScriptEngine.Evaluation.Matching
import ScriptEngine.Evaluation.Operators
import ScriptEngine.Library.Workers

/-!
# Statements

A module runs in the global scope each time it is imported. While it runs, imports are relative to
its directory.
-/
namespace ScriptEngine

/-! Imports -/

/-- The program in a file. -/
def loadModule (p : Path) : Eval (Except ModuleError Program) := do
  let contents : Except FileError (List UInt8) ← Eval.askOuter (.readFile p)
  return Module.parse p do
    match Text.decode? (← contents) with
    | some s => .ok s
    | none => .error .notText

/-- Makes imports relative to a directory for as long as something runs. -/
def importingFrom {α : Type} (directory : Path) (x : Eval α) : Eval (Except Signal α) := do
  Eval.update fun m => { m with importers := directory :: m.importers }
  let outcome ← Eval.attempt x
  Eval.update fun m => { m with importers := m.importers.tail }
  return outcome

def importModule (ev : Evaluator) (spec : String) : Eval Unit := do
  let p ← Library.resolve spec
  match ← loadModule p with
  | .error e => Eval.fail e.toFailure
  | .ok program =>
    match ← importingFrom (p.parent?.getD ⟨""⟩) (ev.execAll program .global) with
    | .ok () => return
    | .error signal => Eval.stop signal

/-! Loops, classes and handlers -/

/-- One round of a loop; tells whether another one may follow. -/
def loopRound (ev : Evaluator) (condition : Expr) (body : Stmt) (step : Option Expr)
    (scope : ScopeRef) : Eval Bool := do
  let next : Eval Bool := do
    match step with
    | some e => discard (ev.eval e scope)
    | none => pure ()
    return true
  if !(← ev.eval condition scope).isTruthy then return false
  match ← Eval.attempt (ev.exec body scope) with
  | .ok () | .error .continued => next
  | .error .broke => return false
  | .error signal => Eval.stop signal

/-- The class that a superclass expression has to evaluate to. -/
def parentClass (ev : Evaluator) (parent : Option Expr) (scope : ScopeRef) :
    Eval (Option Class) := do
  match parent with
  | none => return none
  | some e =>
    match ← ev.eval e scope with
    | .type cls => return some cls
    | _ => Eval.fail .parentNotClass

/-- The scope of the methods of a class: one that knows the class above, if there is one. -/
def methodScope (parent : Option Class) (scope : ScopeRef) : Eval ScopeRef := do
  match parent with
  | none => return scope
  | some cls =>
    let inner ← Eval.childScope scope
    Eval.define inner "super" (.type cls) false
    return inner

/-- Declares a class. Its name stands for nil until it is complete. -/
def declareClass (ev : Evaluator) (name : String) (parent : Option Expr) (methods : List Function)
    (scope : ScopeRef) : Eval Unit := do
  Eval.define scope name .nil false
  let parent ← parentClass ev parent scope
  let inner ← methodScope parent scope
  let methods := methods.reverse.map fun f => (f.name, (⟨f, inner⟩ : Method))
  Eval.define scope name (.type (.mk (← Eval.freshId) name parent methods [])) false

/-- Runs a handler in a scope that binds what was caught. -/
def runHandler (ev : Evaluator) (name : String) (caught : Value) (handler : Stmt)
    (scope : ScopeRef) : Eval Unit := do
  let inner ← Eval.childScope scope
  Eval.define inner name caught false
  ev.exec handler inner

/-- What a handler gets to see of a signal; none for signals that pass it. -/
def Signal.caught? : Signal → Option Value
  | .thrown v => some v
  | .failed f => if f.isCatchable then some (.text f.message) else none
  | _ => none

/-- The first arm whose pattern fits. -/
def chosenArm? (h : Heap) (v : Value) (arms : List (Pattern × Stmt)) : Option (Pattern × Stmt) :=
  arms.find? fun arm => arm.1.fits h v

/-- Executes a statement; loops have at most `rounds` rounds. -/
def execStep (rounds : Nat) (ev : Evaluator) (s : Stmt) (scope : ScopeRef) : Eval Unit := do
  match s with
  | .expression e _ => discard (ev.eval e scope)
  | .print e _ => Eval.writeLine .output (← Eval.textOf (← ev.eval e scope))
  | .declare p hint init _ =>
    match init with
    | none => bindPattern scope false p .nil
    | some e =>
      let v ← ev.eval e scope
      match hint, p with
      | some h, .name n => Eval.ofExcept (checkHint h n v)
      | _, _ => pure ()
      bindPattern scope false p v
  | .constant p init _ => bindPattern scope true p (← ev.eval init scope)
  | .block body _ => ev.execAll body (← Eval.childScope scope)
  | .branch condition yes no _ =>
    if (← ev.eval condition scope).isTruthy then ev.exec yes scope
    else
      match no with
      | some s => ev.exec s scope
      | none => pure ()
  | .loop condition body step _ =>
    Eval.repeatWhile (loopRound ev condition body step scope) rounds
  | .function decl => Eval.define scope decl.name (.function (← Eval.freshId) decl scope) false
  | .classDecl name parent methods _ => declareClass ev name parent methods scope
  | .return value _ =>
    match value with
    | some e => Eval.stop (.returned (← ev.eval e scope))
    | none => Eval.stop (.returned .nil)
  | .throw value _ => Eval.stop (.thrown (← ev.eval value scope))
  | .attempt body name handler _ =>
    match ← Eval.attempt (ev.exec body scope) with
    | .ok () => pure ()
    | .error signal =>
      match signal.caught? with
      | some v => runHandler ev name v handler scope
      | none => Eval.stop signal
  | .select value arms _ =>
    let v ← ev.eval value scope
    match ← Eval.read fun m => chosenArm? m.heap v arms with
    | none => pure ()
    | some (p, body) =>
      let inner ← Eval.childScope scope
      bindPattern inner false p v
      ev.exec body inner
  | .load path _ =>
    match ← ev.eval path scope with
    | .text spec => importModule ev spec
    | _ => Eval.fail .importPath
  | .break _ => Eval.stop .broke
  | .continue _ => Eval.stop .continued

end ScriptEngine
