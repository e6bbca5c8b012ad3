import ScriptEngine.Proofs.Evaluation.Discipline
import ScriptEngine.Proofs.Library.Discipline
import ScriptEngine.Proofs.Machine.Conduct

/-!
# What evaluators do

Built-in functions that have nothing to do with timers, workers and the network only ask the
surroundings and change the heap, apart from what their callbacks do. If those that deal with
timers, workers and the network keep to a course, so does everything an evaluator does.
-/
namespace ScriptEngine
open Eval

namespace Library

variable {C : Course} {call : Caller}

@[grind .]
theorem now_follows : Follows C now := Follows.askOuter .now

@[grind .]
theorem jsonFunction_follows (f : JsonFunction) (args : List Value) :
    Follows C (jsonFunction f args) := by
  unfold jsonFunction
  cases f with
  | parse =>
    dsimp only
    split
    · split
      · exact Follows.change fun _ => rfl
      · exact Follows.pure _
    · exact Follows.pure _
  | stringify => exact Follows.bind (Follows.read _) fun _ => Follows.ofExcept _

/-! Arrays -/
variable (hcall : ∀ callee args, Follows C (call callee args))
include hcall

@[grind .]
theorem arrayMethod_follows (method : ArrayMethod) (receiver : Option Value) (args : List Value) :
    Follows C (arrayMethod call method receiver args) := by
  have hchange (r value f) : Follows C (changeItems r value f) :=
    Follows.bind (Follows.read _) fun _ => Follows.bind (Follows.withHeap _) fun _ => Follows.pure _
  cases hmethod : method.changes with
  | false => exact arrayMethod_allowed (D := C.discipline) hcall hmethod receiver args
  | true =>
    unfold arrayMethod
    cases method <;> grind [ArrayMethod.changes]

/-! Promises -/
@[grind .]
theorem subscribe_follows (settlement : Settlement) (receiver : Option Value)
    (args : List Value) : Follows C (subscribe call settlement receiver args) := by
  unfold subscribe
  refine Follows.bind (Follows.read _) fun status => ?_
  dsimp only
  split
  · split
    · grind
    · split
      · refine Follows.bind (Follows.read _) fun queue => ?_
        split
        · exact Follows.bind (Follows.withHeap _) fun _ => Follows.pure _
        · grind
      · grind
  · grind

@[grind .]
theorem promiseMethod_follows (method : PromiseMethod) (receiver : Option Value)
    (args : List Value) : Follows C (promiseMethod call method receiver args) := by
  cases method with
  | onResolve | onReject => exact subscribe_follows hcall _ _ _

end Library

/-- What the built-in functions that deal with the host do. -/
structure Conduct (C : Course) : Prop where
  timer (f : TimerFunction) (args : List Value) : Follows C (Library.timerFunction f args)
  worker (f : WorkerFunction) (receiver : Option Value) (args : List Value) :
    Follows C (Library.workerFunction f receiver args)
  network (f : NetworkFunction) (receiver : Option Value) (args : List Value) :
    Follows C (Library.networkFunction f receiver args)

/-- All that an evaluator does. -/
structure Evaluator.Follows (C : Course) (ev : Evaluator) : Prop where
  eval (e : Expr) (scope : ScopeRef) : Eval.Follows C (ev.eval e scope)
  exec (s : Stmt) (scope : ScopeRef) : Eval.Follows C (ev.exec s scope)
  call (callee : Value) (args : List Value) : Eval.Follows C (ev.call callee args)

variable {C : Course} {ev : Evaluator}

theorem Evaluator.Follows.within (hev : ev.Follows C) : ev.Within C.discipline :=
  ⟨hev.eval, hev.exec, hev.call⟩

theorem callNative_follows (hC : Conduct C) {call : Library.Caller}
    (hcall : ∀ callee args, Follows C (call callee args)) (n : Native) (receiver : Option Value)
    (args : List Value) : Follows C (Library.callNative call n receiver args) := by
  cases n with
  | timer f => exact hC.timer f args
  | worker f => exact hC.worker f receiver args
  | network f => exact hC.network f receiver args
  | array f => exact Library.arrayMethod_follows hcall f receiver args
  | promise f => exact Library.promiseMethod_follows hcall f receiver args
  | json f => exact Library.jsonFunction_follows f args
  | text f => exact Library.textMethod_allowed (D := C.discipline) f receiver args
  | textFunction f => exact Library.textFunction_allowed (D := C.discipline) f args
  | system f => exact Library.systemFunction_allowed (D := C.discipline) f args
  | file f => exact Library.fileFunction_allowed (D := C.discipline) f args
  | date f => exact Library.dateFunction_allowed (D := C.discipline) f args

theorem writeIndex_follows (object key value : Value) :
    Follows C (writeIndex object key value) := by
  unfold writeIndex
  split
  · exact Follows.bind (Follows.bind (Follows.read _) Follows.ofExcept) fun i => Follows.withHeap _
  · grind
  · grind

section

variable (hev : ev.Follows C)
include hev

theorem evalStep_follows (e : Expr) (scope : ScopeRef) : Follows C (evalStep ev e scope) := by
  cases hassigns : e.assignsInto with
  | false => exact evalStep_allowed hev.within hassigns scope
  | true =>
    cases e with
    | set object name value p =>
      refine Follows.bind (hev.eval object scope) fun x => ?_
      cases x with
      | object r =>
        refine Follows.bind (hev.eval value scope) fun v => ?_
        exact Follows.bind (Follows.setField r name v) fun _ => Follows.pure v
      | _ => exact Follows.fail _
    | indexSet object key value p =>
      refine Follows.bind (hev.eval object scope) fun x => ?_
      refine Follows.bind (hev.eval key scope) fun k => ?_
      refine Follows.bind (hev.eval value scope) fun v => ?_
      exact Follows.bind (writeIndex_follows x k v) fun _ => Follows.pure v
    | _ => cases hassigns

/-- A call does what the function does, built in or not. -/
theorem callStep_follows (hC : Conduct C) (callee : Value) (args : List Value) :
    Follows C (callStep ev callee args) := by
  unfold callStep
  cases callee.arity? with
  | none => exact Follows.fail _
  | some arity =>
    refine Follows.bind (Follows.ofExcept _) fun _ => ?_
    cases callee with
    | function id decl scope => exact callFunction_allowed hev.within decl scope args
    | native id n receiver => exact callNative_follows hC hev.call n receiver args
    | type cls => exact instantiate_allowed hev.within cls args
    | _ => exact Follows.fail _

end

/-- Everything an evaluator does keeps to a course if the built-in functions do that deal with the
host. -/
theorem bounded_follows (hC : Conduct C) (n : Nat) : (Evaluator.bounded n).Follows C := by
  induction n with
  | zero =>
    exact ⟨fun _ _ => Follows.exhausted, fun _ _ => Follows.exhausted, fun _ _ => Follows.exhausted⟩
  | succ n ih =>
    exact ⟨evalStep_follows ih, execStep_allowed ih.within n, callStep_follows ih hC⟩

end ScriptEngine
