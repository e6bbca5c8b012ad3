import ScriptEngine.Evaluation.Call
import ScriptEngine.Proofs.Evaluation.Statement
import ScriptEngine.Proofs.Library.Callbacks

/-!
# Calls keep a regime

A function call below the limit runs the body one level deeper and turns its ending into that of the
call. So a call keeps what the defaults and the body keep inside of it.
-/
namespace ScriptEngine
open Eval Regime

/-- The ending of a call whose body has ended like this: the level is given up, a returned value is
that of the call, and a loop word is a failure. -/
def Ending.afterCall : Ending Unit → Ending Value
  | .value () m => .value .nil { m with depth := m.depth - 1 }
  | .stopped (.returned v) m => .value v { m with depth := m.depth - 1 }
  | .stopped .broke m =>
    .stopped (.failed (.strayLoopControl .breakWord)) { m with depth := m.depth - 1 }
  | .stopped .continued m =>
    .stopped (.failed (.strayLoopControl .continueWord)) { m with depth := m.depth - 1 }
  | .stopped s m => .stopped s { m with depth := m.depth - 1 }
  | .exhausted => .exhausted

theorem callResult_counted_apply (x : Eval Unit) (m : Machine) :
    Eval.bind (counted x) callResult m =
      (x { m with depth := m.depth + 1 }).bind fun r => .finished r.afterCall := by
  unfold counted
  change Eval.bind (Eval.bind (Eval.attempt x) _) _ { m with depth := m.depth + 1 } = _
  rw [bind_apply, bind_apply, attempt_apply, Dialogue.bind_assoc, Dialogue.bind_assoc]
  refine congrArg _ (funext fun r => ?_)
  cases r with
  | value _ m => rfl
  | stopped s m => cases s <;> rfl
  | exhausted => rfl

/-- What a function call does. -/
theorem callFunction_apply (ev : Evaluator) (decl : Function) (closure : ScopeRef)
    (args : List Value) (m : Machine) :
    callFunction ev decl closure args m =
      if m.settings.maxCallDepth ≤ m.depth then
        .finished (.stopped (.failed (.stackOverflow m.settings.maxCallDepth)) m)
      else
        (invoke ev decl closure args { m with depth := m.depth + 1 }).bind fun r =>
          .finished r.afterCall := by
  rw [← callResult_counted_apply]
  change (if m.settings.maxCallDepth ≤ m.depth then Eval.fail _
    else Eval.bind (counted (invoke ev decl closure args)) callResult) m = _
  split
  · rfl
  · rfl

variable {ι : Type} {R : Regime ι} {i : ι} {ev ev' : Evaluator}

/-- The defaults and the body of a function keep a regime. -/
structure Regime.Runs (R : Regime ι) (i : ι) (ev ev' : Evaluator) (decl : Function) : Prop where
  defaults : ∀ p ∈ decl.params, ∀ e, p.2 = some e → ∀ scope,
    R.Evals i (ev.eval e scope) (ev'.eval e scope)
  body : ∀ s ∈ decl.body, ∀ scope, R.opens scope → R.Execs i (ev.exec s scope) (ev'.exec s scope)

theorem bindParams_gives {scope : ScopeRef} (hs : R.opens scope)
    {params : List (Pattern × Option Expr)} {args : List Value} (ha : ∀ v ∈ args, R.Sound v)
    (hd : ∀ p ∈ params, ∀ e, p.2 = some e → R.Evals i (ev.eval e scope) (ev'.eval e scope)) :
    R.Gives i (fun _ => True) (bindParams ev scope params args)
      (bindParams ev' scope params args) := by
  fun_induction bindParams ev scope params args with
  | case1 args =>
    rw [bindParams]
    exact Agree.pure trivial
  | case2 p d params v args ih =>
    rw [bindParams]
    refine Agree.bind (bindPattern_gives hs false p (ha v List.mem_cons_self)) fun _ _ => ?_
    exact ih (fun w hw => ha w (List.mem_cons_of_mem _ hw))
      fun q hq => hd q (List.mem_cons_of_mem _ hq)
  | case3 p default params ih =>
    rw [bindParams]
    refine Agree.bind (hd _ List.mem_cons_self default rfl) fun v hv => ?_
    refine Agree.bind (bindPattern_gives hs false p hv) fun _ _ => ?_
    exact ih ha fun q hq => hd q (List.mem_cons_of_mem _ hq)
  | case4 p params ih =>
    rw [bindParams]
    refine Agree.bind (bindPattern_gives hs false p trivial) fun _ _ => ?_
    exact ih ha fun q hq => hd q (List.mem_cons_of_mem _ hq)

theorem invoke_execs {decl : Function} (h : R.Runs i ev ev' decl) (closure : ScopeRef)
    {args : List Value} (ha : ∀ v ∈ args, R.Sound v) :
    R.Execs i (invoke ev decl closure args) (invoke ev' decl closure args) := by
  unfold invoke
  refine childScope_execs fun scope hs => ?_
  have hparams := bindParams_gives hs ha fun p hp e he => h.defaults p hp e he scope
  exact Agree.bind (execs_of_gives hparams) fun _ _ => execAll_execs fun s hmem =>
    h.body s hmem scope hs

/-- Only a throw or a failure leaves a call, whatever its body did. -/
theorem afterCall_within {x : Exhaustion} {j : ι} (hij : R.inner i j) {r : Ending Unit}
    (hr : r.Within x (R.Holds j) (fun _ => True) R.Passes) :
    r.afterCall.Within x (R.Holds i) R.Sound R.Leaves := by
  have hleave {m : Machine} (hm : R.Holds j m) : R.Holds i { m with depth := m.depth - 1 } :=
    ⟨R.leave hij hm.1, { hm.2 with }⟩
  cases r with
  | value _ m => exact ⟨trivial, hleave hr.2⟩
  | stopped s m =>
    cases s with
    | returned v => exact ⟨hr.1, hleave hr.2⟩
    | thrown v => exact ⟨hr.1, hleave hr.2⟩
    | _ => exact ⟨trivial, hleave hr.2⟩
  | exhausted => exact hr

theorem callFunction_evals {decl : Function} (h : ∀ j, R.inner i j → R.Runs j ev ev' decl)
    (closure : ScopeRef) {args : List Value} (ha : ∀ v ∈ args, R.Sound v) :
    R.Evals i (callFunction ev decl closure args) (callFunction ev' decl closure args) := by
  intro m hm
  rw [callFunction_apply, callFunction_apply]
  split
  · exact .finished ⟨trivial, hm⟩
  next hlimit =>
    obtain ⟨j, hij, hk⟩ := R.enter hm.1 (Nat.lt_of_not_le hlimit)
    have hinvoke := invoke_execs (h j hij) closure ha { m with depth := m.depth + 1 }
      ⟨hk, { hm.2 with }⟩
    exact hinvoke.bind (fun r hr => .finished (afterCall_within hij hr)) rfl

theorem instantiate_evals {cls : Class} (hc : cls.MadeOf R.code)
    (h : ∀ decl, R.code decl → ∀ j, R.inner i j → R.Runs j ev ev' decl) {args : List Value}
    (ha : ∀ v ∈ args, R.Sound v) :
    R.Evals i (instantiate ev cls args) (instantiate ev' cls args) := by
  unfold instantiate
  refine Agree.bind (newInstance_gives hc (by simp [Fields.empty])) fun r _ => ?_
  split
  next => exact Agree.pure trivial
  next method hmethod =>
    refine Agree.bind (bindMethod_evals (hc.method? hmethod) trivial) fun v hv => ?_
    split
    next id decl scope =>
      refine Agree.bind (Agree.discard (callFunction_evals (h decl hv) scope ha)) fun _ _ => ?_
      exact Agree.pure trivial
    next => exact Agree.pure trivial

/-- A call keeps what the code that it may run and the calls of built-in functions keep. -/
theorem callStep_evals {callee : Value} (hc : R.Sound callee) {args : List Value}
    (ha : ∀ v ∈ args, R.Sound v)
    (hfunction : ∀ decl, R.code decl → ∀ j, R.inner i j → R.Runs j ev ev' decl)
    (hnative : ∀ id n receiver, callee = .native id n receiver → R.Calls i ev.call ev'.call) :
    R.Evals i (callStep ev callee args) (callStep ev' callee args) := by
  unfold callStep
  split
  · exact fail_gives _
  · refine Agree.bind (ofExcept_gives (V := fun _ => True) fun _ _ => trivial) fun _ _ => ?_
    cases callee with
    | function id decl scope => exact callFunction_evals (hfunction decl hc) scope ha
    | native id n receiver =>
      refine Library.callNative_evals (hnative id n receiver rfl) n (fun v hv => ?_) ha
      subst hv
      exact hc
    | type cls => exact instantiate_evals hc hfunction ha
    | _ => exact fail_gives _

end ScriptEngine
