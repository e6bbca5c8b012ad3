import ScriptEngine.Proofs.Evaluation.Conduct
import ScriptEngine.Proofs.Library.Quiet

/-!
# Evaluation reports nothing

Expressions, statements and calls are quiet if their parts are, so bounded evaluation is: failures
are reported by those who run it.
-/
namespace ScriptEngine
open Eval

/-- Everything an evaluator does is quiet. -/
structure Evaluator.Quiet (ev : Evaluator) : Prop where
  eval (e : Expr) (scope : ScopeRef) : Eval.Quiet (ev.eval e scope)
  exec (s : Stmt) (scope : ScopeRef) : Eval.Quiet (ev.exec s scope)
  call (callee : Value) (args : List Value) : Eval.Quiet (ev.call callee args)

attribute [grind .] Evaluator.Quiet.eval Evaluator.Quiet.exec Evaluator.Quiet.call

variable {ev : Evaluator}

/-! Properties -/

@[grind .]
theorem nativeValue_quiet (n : Native) (receiver : Option Value) :
    Quiet (nativeValue n receiver) := by
  unfold nativeValue
  grind

@[grind .]
theorem bindMethod_quiet (method : Method) (receiver : Value) :
    Quiet (bindMethod method receiver) := by
  unfold bindMethod
  grind

@[grind .]
theorem instanceProperty?_quiet (r : InstanceRef) (name : String) :
    Quiet (instanceProperty? r name) := by
  unfold instanceProperty?
  refine Quiet.bind (Quiet.read fun _ _ => rfl) fun i => ?_
  cases i with
  | none => exact Quiet.pure _
  | some i =>
    dsimp only
    split
    · exact Quiet.pure _
    · split
      · exact Quiet.bind (bindMethod_quiet _ _) fun _ => Quiet.pure _
      · split
        · exact Quiet.bind (nativeValue_quiet _ _) fun _ => Quiet.pure _
        · exact Quiet.pure _

@[grind .]
theorem builtInMethod_quiet (methods : List Native) (receiver : Value) (name : String) :
    Quiet (builtInMethod methods receiver name) := by
  unfold builtInMethod
  grind

@[grind .]
theorem property_quiet (object : Value) (name : String) : Quiet (property object name) := by
  unfold property
  grind

/-! Patterns -/

mutual

@[grind .]
theorem bindPattern_quiet (scope : ScopeRef) (constant : Bool) (p : Pattern) (v : Value) :
    Quiet (bindPattern scope constant p v) := by
  cases p with
  | name n => exact Quiet.define scope n v constant
  | literal l => exact Quiet.pure ()
  | array elements =>
    cases v with
    | array r =>
      exact Quiet.bind (Quiet.read fun _ _ => rfl) fun items =>
        bindElements_quiet scope constant items elements 0
    | _ => exact Quiet.fail _
  | object fields =>
    cases v with
    | object r => exact bindFields_quiet scope constant r fields
    | _ => exact Quiet.fail _

theorem bindElements_quiet (scope : ScopeRef) (constant : Bool) (items : Array Value)
    (elements : List (Pattern × Bool)) (i : Nat) :
    Quiet (bindElements scope constant items elements i) := by
  cases elements with
  | nil => exact Quiet.pure ()
  | cons e rest =>
    obtain ⟨p, spread⟩ := e
    have hpart (part) : Quiet (bindPattern scope constant p part) :=
      bindPattern_quiet scope constant p part
    have hrest : Quiet (bindElements scope constant items rest (i + 1)) :=
      bindElements_quiet scope constant items rest (i + 1)
    unfold bindElements
    grind

theorem bindFields_quiet (scope : ScopeRef) (constant : Bool) (r : InstanceRef)
    (fields : List (String × Pattern)) : Quiet (bindFields scope constant r fields) := by
  cases fields with
  | nil => exact Quiet.pure ()
  | cons f rest =>
    obtain ⟨key, p⟩ := f
    exact Quiet.bind (Quiet.read fun _ _ => rfl) fun part =>
      Quiet.bind (bindPattern_quiet scope constant p part) fun _ =>
        bindFields_quiet scope constant r rest

end

section

variable (hev : ev.Quiet)
include hev

/-! Expressions -/

@[grind .]
theorem pipe_quiet (argument function : Value) : Quiet (pipe ev argument function) := by
  unfold pipe
  grind

omit hev in
@[grind .]
theorem superMethod_quiet (method : String) (scope : ScopeRef) :
    Quiet (superMethod method scope) := by
  unfold superMethod
  grind

@[grind .]
theorem awaitValue_quiet (v : Value) : Quiet (awaitValue ev v) := by
  unfold awaitValue
  grind

@[grind .]
theorem addElement_quiet (scope : ScopeRef) (items : Array Value) (element : Expr × Bool) :
    Quiet (addElement ev scope items element) := by
  unfold addElement
  grind

@[grind .]
theorem addPart_quiet (scope : ScopeRef) (text : String) (part : Sum String Expr) :
    Quiet (addPart ev scope text part) := by
  cases part with
  | inl chunk => exact Quiet.pure _
  | inr e =>
    exact Quiet.bind (hev.eval e scope) fun _ =>
      Quiet.bind (Quiet.textOf _) fun _ => Quiet.pure _

@[grind .]
theorem evalAll_quiet (exprs : List Expr) (scope : ScopeRef) :
    Quiet (ev.evalAll exprs scope) :=
  Quiet.mapList (fun e => hev.eval e scope) exprs

@[grind .]
theorem execAll_quiet (body : List Stmt) (scope : ScopeRef) : Quiet (ev.execAll body scope) :=
  Quiet.forEach (fun s => hev.exec s scope) body

omit hev in
@[grind .]
theorem writeIndex_quiet (object key v : Value) : Quiet (writeIndex object key v) := by
  unfold writeIndex
  split
  next r =>
    have hposition : Quiet (Eval.read fun m => positionWithin (m.heap.array r).size key) :=
      Quiet.read fun _ _ => rfl
    exact Quiet.bind (Quiet.bind' hposition Quiet.ofExcept) fun _ => Quiet.update fun _ _ => rfl
  next => grind
  next => exact Quiet.fail _

theorem evalStep_quiet (e : Expr) (scope : ScopeRef) : Quiet (evalStep ev e scope) := by
  unfold evalStep
  cases e with
  | object fields p =>
    refine Quiet.bind (Quiet.foldList (fun fs field => ?_) _ _) fun fields => ?_
    · exact Quiet.bind (hev.eval _ _) fun _ => Quiet.pure _
    · refine Quiet.bind (Quiet.read fun _ _ => rfl) fun cls => ?_
      exact Quiet.bind (Quiet.newInstance cls fields) fun _ => Quiet.pure _
  | array elements p =>
    exact Quiet.bind (Quiet.foldList (addElement_quiet hev scope) _ _) fun _ => Quiet.newArray _
  | template parts p =>
    exact Quiet.bind (Quiet.foldList (addPart_quiet hev scope) _ _) fun _ => Quiet.pure _
  | binary op left right p =>
    refine Quiet.bind (hev.eval left scope) fun l => Quiet.bind (hev.eval right scope) fun r => ?_
    split
    · exact pipe_quiet hev l r
    · exact Quiet.bind' (Quiet.read fun _ _ => rfl) Quiet.ofExcept
  | index object key p =>
    refine Quiet.bind (hev.eval object scope) fun o => Quiet.bind (hev.eval key scope) fun k => ?_
    exact Quiet.bind' (Quiet.read fun _ _ => rfl) Quiet.ofExcept
  | _ => grind

/-! Calls -/

@[grind .]
theorem bindParams_quiet (scope : ScopeRef) (params : List (Pattern × Option Expr))
    (args : List Value) : Quiet (bindParams ev scope params args) := by
  fun_induction bindParams ev scope params args with
  | case1 => exact Quiet.pure ()
  | case2 p _ params v args ih =>
    exact Quiet.bind (bindPattern_quiet scope false p v) fun _ => ih
  | case3 p default params ih =>
    exact Quiet.bind (hev.eval default scope) fun v =>
      Quiet.bind (bindPattern_quiet scope false p v) fun _ => ih
  | case4 p params ih => exact Quiet.bind (bindPattern_quiet scope false p .nil) fun _ => ih

@[grind .]
theorem invoke_quiet (decl : Function) (closure : ScopeRef) (args : List Value) :
    Quiet (invoke ev decl closure args) := by
  unfold invoke
  grind

omit hev in
@[grind .]
theorem callResult_quiet (outcome : Except Signal Unit) : Quiet (callResult outcome) := by
  unfold callResult
  grind

omit hev in
@[grind .]
theorem counted_quiet {α : Type} {x : Eval α} (hx : Quiet x) : Quiet (counted x) :=
  Quiet.bind (Quiet.update fun _ _ => rfl) fun _ =>
    Quiet.bind (Quiet.attempt hx) fun _ =>
      Quiet.bind (Quiet.update fun _ _ => rfl) fun _ => Quiet.pure _

@[grind .]
theorem callFunction_quiet (decl : Function) (closure : ScopeRef) (args : List Value) :
    Quiet (callFunction ev decl closure args) := by
  unfold callFunction
  refine Quiet.bind (Quiet.read fun _ _ => rfl) fun x => ?_
  grind

@[grind .]
theorem instantiate_quiet (cls : Class) (args : List Value) :
    Quiet (instantiate ev cls args) := by
  unfold instantiate
  refine Quiet.bind (Quiet.newInstance cls .empty) fun r => ?_
  dsimp only
  cases cls.method? "init" with
  | none => exact Quiet.pure _
  | some method => exact Quiet.bind (bindMethod_quiet _ _) fun bound => by grind

/-! Imports -/

omit hev in
@[grind .]
theorem loadModule_quiet (p : Path) : Quiet (loadModule p) :=
  Quiet.bind (Quiet.askOuter (q := .readFile p) rfl) fun _ => Quiet.pure _

omit hev in
@[grind .]
theorem importingFrom_quiet {α : Type} (directory : Path) {x : Eval α} (hx : Quiet x) :
    Quiet (importingFrom directory x) :=
  Quiet.bind (Quiet.update fun _ _ => rfl) fun _ =>
    Quiet.bind (Quiet.attempt hx) fun _ =>
      Quiet.bind (Quiet.update fun _ _ => rfl) fun _ => Quiet.pure _

@[grind .]
theorem importModule_quiet (spec : String) : Quiet (importModule ev spec) := by
  unfold importModule
  grind

/-! Statements -/

@[grind .]
theorem loopRound_quiet (condition : Expr) (body : Stmt) (step : Option Expr)
    (scope : ScopeRef) : Quiet (loopRound ev condition body step scope) := by
  unfold loopRound
  grind

@[grind .]
theorem parentClass_quiet (parent : Option Expr) (scope : ScopeRef) :
    Quiet (parentClass ev parent scope) := by
  unfold parentClass
  grind

omit hev in
@[grind .]
theorem methodScope_quiet (parent : Option Class) (scope : ScopeRef) :
    Quiet (methodScope parent scope) := by
  unfold methodScope
  grind

@[grind .]
theorem declareClass_quiet (name : String) (parent : Option Expr) (methods : List Function)
    (scope : ScopeRef) : Quiet (declareClass ev name parent methods scope) := by
  unfold declareClass
  grind

@[grind .]
theorem runHandler_quiet (name : String) (caught : Value) (handler : Stmt) (scope : ScopeRef) :
    Quiet (runHandler ev name caught handler scope) := by
  unfold runHandler
  grind

theorem execStep_quiet (rounds : Nat) (s : Stmt) (scope : ScopeRef) :
    Quiet (execStep rounds ev s scope) := by
  unfold execStep
  cases s with
  | select value arms p =>
    refine Quiet.bind (hev.eval value scope) fun v => ?_
    exact Quiet.bind (Quiet.read fun _ _ => rfl) fun arm => by grind
  | _ => grind

theorem callStep_quiet (callee : Value) (args : List Value) :
    Quiet (callStep ev callee args) := by
  unfold callStep
  grind

end

/-- Bounded evaluation is quiet. -/
theorem bounded_quiet (n : Nat) : (Evaluator.bounded n).Quiet := by
  induction n with
  | zero =>
    exact ⟨fun _ _ => .exhausted, fun _ _ => .exhausted, fun _ _ => .exhausted⟩
  | succ n ih =>
    exact ⟨evalStep_quiet ih, execStep_quiet ih n, callStep_quiet ih⟩

end ScriptEngine
