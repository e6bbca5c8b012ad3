import ScriptEngine.Proofs.Evaluation.Discipline
import ScriptEngine.Proofs.Library.Custody

/-!
# Evaluators and the custody of promises

An overseen evaluator upholds every property of machines that is in custody: expressions, statements
and calls touch the heap only as the property survives it, and what it does not survive is not done.
-/
namespace ScriptEngine
open Eval

/-- Whatever an evaluator does upholds a property. -/
structure Evaluator.Upholds (I : Machine → Prop) (ev : Evaluator) : Prop where
  eval (e : Expr) (scope : ScopeRef) : Eval.Upholds I (ev.eval e scope)
  exec (s : Stmt) (scope : ScopeRef) : Eval.Upholds I (ev.exec s scope)
  call (callee : Value) (args : List Value) : Eval.Upholds I (ev.call callee args)

variable {forbids : Deed → Machine → Bool} {I : Machine → Prop} {ev : Evaluator} {o : Oversight}
  {α : Type}

theorem Evaluator.Upholds.within (hev : ev.Upholds I) (hI : Custody forbids I) :
    ev.Within hI.discipline :=
  ⟨hev.eval, hev.exec, hev.call⟩

theorem minding_upholds {deed : Option Deed} {x : Eval α}
    (h : ∀ m, I m → (∀ d ∈ deed, o.forbids d m = false) → x.EndsIn I m) :
    Upholds I (o.minding deed x) := by
  cases deed with
  | none => exact fun m hm => h m hm nofun
  | some d =>
    exact Upholds.guarded fun m hm hquiet => h m hm fun _ hd => Option.mem_some.1 hd ▸ hquiet

theorem beginning_upholds {a : Evaluator.Activity} {x : Eval α} (hx : Upholds I x) :
    Upholds I (o.beginning a x) :=
  Upholds.guarded fun _ hm _ => hx hm

/-- Indices are assigned to where it is not forbidden. -/
theorem writeIndex_endsIn (hI : Custody forbids I) {m : Machine} (hm : I m) {object key : Value}
    (hallowed : ∀ deed ∈ Deed.ofIndex? object key, forbids deed m = false) (v : Value) :
    (writeIndex object key v).EndsIn I m := by
  unfold writeIndex
  split
  next r =>
    change EndsIn I (Eval.ofExcept (positionWithin (m.heap.array r).size key) >>= _) m
    exact EndsIn.ofExcept_bind hm fun i => hI.changeArray _ hm (hallowed _ rfl)
  next r =>
    split
    · exact hI.setField v hm (hallowed _ rfl)
    · exact hm
  next => exact hm

section

variable (hI : Custody o.forbids I) (hev : ev.Upholds I)
include hI hev

/-- What is assigned to is not forbidden. -/
theorem evalStep_upholds (e : Expr) (scope : ScopeRef) : Upholds I (o.evalStep ev e scope) := by
  cases hassigns : e.assignsInto with
  | false =>
    rw [Oversight.evalStep_eq hassigns]
    exact evalStep_allowed (hev.within hI) hassigns scope
  | true =>
    cases e with
    | set object name value p =>
      refine Upholds.bind (hev.eval object scope) fun x => ?_
      cases x with
      | object r =>
        refine Upholds.bind (hev.eval value scope) fun v => minding_upholds fun m hm hallowed => ?_
        exact hI.setField v hm (hallowed _ rfl)
      | _ => exact Upholds.fail _
    | indexSet object key value p =>
      refine Upholds.bind (hev.eval object scope) fun x => ?_
      refine Upholds.bind (hev.eval key scope) fun k => ?_
      refine Upholds.bind (hev.eval value scope) fun v => minding_upholds fun m hm hallowed => ?_
      exact (writeIndex_endsIn hI hm hallowed v).bind fun _ => Upholds.pure v
    | _ => cases hassigns

/-- What is called is not forbidden. -/
theorem callStep_upholds (callee : Value) (args : List Value) :
    Upholds I (o.callStep ev callee args) := by
  refine minding_upholds fun m hm hallowed => ?_
  unfold callStep
  cases callee.arity? with
  | none => exact hm
  | some arity =>
    refine EndsIn.ofExcept_bind hm fun _ => ?_
    cases callee with
    | function id decl scope => exact callFunction_allowed (hev.within hI) decl scope args hm
    | native id n receiver => exact Library.callNative_endsIn hI hev.call hm hallowed args
    | type cls => exact instantiate_allowed (hev.within hI) cls args hm
    | _ => exact hm

end

/-- Under oversight, an evaluator upholds every property that is in the custody of what is
forbidden. -/
theorem overseen_upholds (hI : Custody o.forbids I) (n : Nat) :
    (Evaluator.overseen o n).Upholds I := by
  induction n with
  | zero =>
    exact ⟨fun _ _ => Upholds.exhausted, fun _ _ => Upholds.exhausted, fun _ _ => Upholds.exhausted⟩
  | succ n ih =>
    exact
      { eval := fun e scope => beginning_upholds (evalStep_upholds hI ih e scope)
        exec := fun s scope => beginning_upholds (execStep_allowed (ih.within hI) n s scope)
        call := fun callee args => beginning_upholds (callStep_upholds hI ih callee args) }

end ScriptEngine
