import ScriptEngine.Evaluation.Bounded
import ScriptEngine.Proofs.Library.Discipline

/-!
# Evaluators and disciplines

If the parts of a construct are allowed by a discipline, so is the construct, unless it assigns to a
field or an element. Calls of functions and classes are allowed too.
-/
namespace ScriptEngine
open Eval

/-- Whether an expression assigns to a field or an element. -/
def Expr.assignsInto : Expr → Bool
  | .set .. | .indexSet .. => true
  | _ => false

/-- Everything an evaluator does is allowed. -/
structure Evaluator.Within (D : Discipline) (ev : Evaluator) : Prop where
  eval (e : Expr) (scope : ScopeRef) : D.Allows (ev.eval e scope)
  exec (s : Stmt) (scope : ScopeRef) : D.Allows (ev.exec s scope)
  call (callee : Value) (args : List Value) : D.Allows (ev.call callee args)

attribute [grind .] Evaluator.Within.eval Evaluator.Within.exec Evaluator.Within.call

variable {D : Discipline} {ev : Evaluator}

/-! Properties -/

@[grind .]
theorem nativeValue_allowed (n : Native) (receiver : Option Value) :
    D.Allows (nativeValue n receiver) := by
  unfold nativeValue
  grind

@[grind .]
theorem bindMethod_allowed (method : Method) (receiver : Value) :
    D.Allows (bindMethod method receiver) := by
  unfold bindMethod
  grind

@[grind .]
theorem instanceProperty?_allowed (r : InstanceRef) (name : String) :
    D.Allows (instanceProperty? r name) := by
  unfold instanceProperty?
  refine D.bind (D.read _) fun i => ?_
  cases i with
  | none => exact D.pure _
  | some i =>
    dsimp only
    split
    · exact D.pure _
    · split
      · exact D.bind (bindMethod_allowed _ _) fun _ => D.pure _
      · split
        · exact D.bind (nativeValue_allowed _ _) fun _ => D.pure _
        · exact D.pure _

@[grind .]
theorem builtInMethod_allowed (methods : List Native) (receiver : Value) (name : String) :
    D.Allows (builtInMethod methods receiver name) := by
  unfold builtInMethod
  grind

@[grind .]
theorem property_allowed (object : Value) (name : String) : D.Allows (property object name) := by
  unfold property
  grind

/-! Patterns -/

mutual

@[grind .]
theorem bindPattern_allowed (scope : ScopeRef) (constant : Bool) (p : Pattern) (v : Value) :
    D.Allows (bindPattern scope constant p v) := by
  cases p with
  | name n => exact Discipline.define scope n v constant
  | literal l => exact D.pure ()
  | array elements =>
    cases v with
    | array r =>
      exact D.bind (D.read _) fun items =>
        bindElements_allowed scope constant items elements 0
    | _ => exact Discipline.fail _
  | object fields =>
    cases v with
    | object r => exact bindFields_allowed scope constant r fields
    | _ => exact Discipline.fail _

theorem bindElements_allowed (scope : ScopeRef) (constant : Bool) (items : Array Value)
    (elements : List (Pattern × Bool)) (i : Nat) :
    D.Allows (bindElements scope constant items elements i) := by
  cases elements with
  | nil => exact D.pure ()
  | cons e rest =>
    obtain ⟨p, spread⟩ := e
    have hpart (part) : D.Allows (bindPattern scope constant p part) :=
      bindPattern_allowed scope constant p part
    have hrest : D.Allows (bindElements scope constant items rest (i + 1)) :=
      bindElements_allowed scope constant items rest (i + 1)
    unfold bindElements
    grind

theorem bindFields_allowed (scope : ScopeRef) (constant : Bool) (r : InstanceRef)
    (fields : List (String × Pattern)) : D.Allows (bindFields scope constant r fields) := by
  cases fields with
  | nil => exact D.pure ()
  | cons f rest =>
    obtain ⟨key, p⟩ := f
    exact D.bind (D.read _) fun part =>
      D.bind (bindPattern_allowed scope constant p part) fun _ =>
        bindFields_allowed scope constant r rest

end

section

variable (hev : ev.Within D)
include hev

/-! Expressions -/

@[grind .]
theorem pipe_allowed (argument function : Value) : D.Allows (pipe ev argument function) := by
  unfold pipe
  grind

omit hev in
@[grind .]
theorem superMethod_allowed (method : String) (scope : ScopeRef) :
    D.Allows (superMethod method scope) := by
  unfold superMethod
  grind

@[grind .]
theorem awaitValue_allowed (v : Value) : D.Allows (awaitValue ev v) := by
  unfold awaitValue
  grind

@[grind .]
theorem addElement_allowed (scope : ScopeRef) (items : Array Value) (element : Expr × Bool) :
    D.Allows (addElement ev scope items element) := by
  unfold addElement
  grind

@[grind .]
theorem addPart_allowed (scope : ScopeRef) (text : String) (part : Sum String Expr) :
    D.Allows (addPart ev scope text part) := by
  cases part with
  | inl chunk => exact D.pure _
  | inr e =>
    exact D.bind (hev.eval e scope) fun _ =>
      D.bind (Discipline.textOf _) fun _ => D.pure _

@[grind .]
theorem evalAll_allowed (exprs : List Expr) (scope : ScopeRef) :
    D.Allows (ev.evalAll exprs scope) :=
  Discipline.mapList (fun e => hev.eval e scope) exprs

@[grind .]
theorem execAll_allowed (body : List Stmt) (scope : ScopeRef) : D.Allows (ev.execAll body scope) :=
  Discipline.forEach (fun s => hev.exec s scope) body

/-- All expressions but assignments to fields and elements. -/
theorem evalStep_allowed {e : Expr} (h : e.assignsInto = false) (scope : ScopeRef) :
    D.Allows (evalStep ev e scope) := by
  unfold evalStep
  cases e with
  | set | indexSet => cases h
  | object fields p =>
    refine D.bind (Discipline.foldList (fun fs field => ?_) _ _) fun fields => ?_
    · exact D.bind (hev.eval _ _) fun _ => D.pure _
    · exact D.object fields fun _ => D.pure _
  | array elements p =>
    exact D.bind (Discipline.foldList (addElement_allowed hev scope) _ _) fun _ => D.newArray _
  | template parts p =>
    exact D.bind (Discipline.foldList (addPart_allowed hev scope) _ _) fun _ => D.pure _
  | _ => grind

/-! Calls -/

@[grind .]
theorem bindParams_allowed (scope : ScopeRef) (params : List (Pattern × Option Expr))
    (args : List Value) : D.Allows (bindParams ev scope params args) := by
  fun_induction bindParams ev scope params args with
  | case1 => exact D.pure ()
  | case2 p _ params v args ih =>
    exact D.bind (bindPattern_allowed scope false p v) fun _ => ih
  | case3 p default params ih =>
    exact D.bind (hev.eval default scope) fun v =>
      D.bind (bindPattern_allowed scope false p v) fun _ => ih
  | case4 p params ih => exact D.bind (bindPattern_allowed scope false p .nil) fun _ => ih

@[grind .]
theorem invoke_allowed (decl : Function) (closure : ScopeRef) (args : List Value) :
    D.Allows (invoke ev decl closure args) := by
  unfold invoke
  grind

omit hev in
@[grind .]
theorem callResult_allowed (outcome : Except Signal Unit) : D.Allows (callResult outcome) := by
  unfold callResult
  grind

omit hev in
@[grind .]
theorem counted_allowed {α : Type} {x : Eval α} (hx : D.Allows x) : D.Allows (counted x) :=
  D.bind (Discipline.update fun _ => .step _ _ _ _ _ _ (Nat.le_refl _)) fun _ =>
    D.bind (D.attempt hx) fun _ =>
      D.bind (Discipline.update fun _ => .step _ _ _ _ _ _ (Nat.le_refl _)) fun _ => D.pure _

@[grind .]
theorem callFunction_allowed (decl : Function) (closure : ScopeRef) (args : List Value) :
    D.Allows (callFunction ev decl closure args) := by
  unfold callFunction
  grind

@[grind .]
theorem instantiate_allowed (cls : Class) (args : List Value) :
    D.Allows (instantiate ev cls args) := by
  unfold instantiate
  refine D.bind (D.emptyInstance cls) fun r => ?_
  dsimp only
  cases cls.method? "init" with
  | none => exact D.pure _
  | some method => exact D.bind (bindMethod_allowed _ _) fun bound => by grind

/-! Imports -/

omit hev in
@[grind .]
theorem loadModule_allowed (p : Path) : D.Allows (loadModule p) :=
  D.bind (D.askOuter (.readFile p)) fun _ => D.pure _

omit hev in
@[grind .]
theorem importingFrom_allowed {α : Type} (directory : Path) {x : Eval α} (hx : D.Allows x) :
    D.Allows (importingFrom directory x) :=
  D.bind (Discipline.update fun _ => .step _ _ _ _ _ _ (Nat.le_refl _)) fun _ =>
    D.bind (D.attempt hx) fun _ =>
      D.bind (Discipline.update fun _ => .step _ _ _ _ _ _ (Nat.le_refl _)) fun _ => D.pure _

@[grind .]
theorem importModule_allowed (spec : String) : D.Allows (importModule ev spec) := by
  unfold importModule
  grind

/-! Statements -/

@[grind .]
theorem loopRound_allowed (condition : Expr) (body : Stmt) (step : Option Expr)
    (scope : ScopeRef) : D.Allows (loopRound ev condition body step scope) := by
  unfold loopRound
  grind

@[grind .]
theorem parentClass_allowed (parent : Option Expr) (scope : ScopeRef) :
    D.Allows (parentClass ev parent scope) := by
  unfold parentClass
  grind

omit hev in
@[grind .]
theorem methodScope_allowed (parent : Option Class) (scope : ScopeRef) :
    D.Allows (methodScope parent scope) := by
  unfold methodScope
  grind

@[grind .]
theorem declareClass_allowed (name : String) (parent : Option Expr) (methods : List Function)
    (scope : ScopeRef) : D.Allows (declareClass ev name parent methods scope) := by
  unfold declareClass
  grind

@[grind .]
theorem runHandler_allowed (name : String) (caught : Value) (handler : Stmt) (scope : ScopeRef) :
    D.Allows (runHandler ev name caught handler scope) := by
  unfold runHandler
  grind

theorem execStep_allowed (rounds : Nat) (s : Stmt) (scope : ScopeRef) :
    D.Allows (execStep rounds ev s scope) := by
  unfold execStep
  cases s <;> grind

end

end ScriptEngine
