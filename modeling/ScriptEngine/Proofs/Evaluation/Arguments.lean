import ScriptEngine.Engine.Start
import ScriptEngine.Proofs.Evaluation.Classes
import ScriptEngine.Proofs.Evaluation.Destructuring

/-!
# Passing arguments

A function call with a count that it does not accept changes nothing. Otherwise the parameters are
bound one after the other in one fresh frame, each to the argument in its place, or else to its
default as the parameters before it have it, or else to nil, and the body runs in that frame.
-/
namespace ScriptEngine
open Eval

/-- What a parameter is bound to, given the argument in its place. -/
def passedValue (ev : Evaluator) (scope : ScopeRef) (default : Option Expr) :
    Option Value → Eval Value
  | some v => Eval.pure v
  | none =>
    match default with
    | some e => ev.eval e scope
    | none => Eval.pure .nil

section

variable (decl : Function) (ev : Evaluator) (scope : ScopeRef) (args : List Value)
  (start : Machine)

/-- The first parameters have been bound, beginning with this machine: how many, what was said
meanwhile, and the machine then. -/
inductive Function.Passed : Nat → List ((q : Request) × q.Answer) → Machine → Prop
  | nothing : Passed 0 [] start
  | next {i : Nat} {log log' : List ((q : Request) × q.Answer)} {m m₁ m₂ : Machine}
      {p : Pattern} {default : Option Expr} {v : Value} (before : Passed i log m)
      (hp : decl.params[i]? = some (p, default))
      (hv : (passedValue ev scope default args[i]? m).Run log' (.value v m₁))
      (hbind : bindPattern scope false p v m₁ = .finished (.value () m₂)) :
      Passed (i + 1) (log ++ log') m₂

/-- What a call says and how its body ends: after all parameters have been bound, or because one
parameter has no value or cannot take it apart. -/
inductive Function.Invoked : List ((q : Request) × q.Answer) → Ending Unit → Prop
  | body {log log' : List ((q : Request) × q.Answer)} {m : Machine} {r : Ending Unit}
      (before : decl.Passed ev scope args start decl.params.length log m)
      (hbody : (ev.execAll decl.body scope m).Run log' r) :
      Invoked (log ++ log') r
  | value {i : Nat} {log log' : List ((q : Request) × q.Answer)} {m : Machine}
      {p : Pattern} {default : Option Expr} {r : Ending Value}
      (before : decl.Passed ev scope args start i log m)
      (hp : decl.params[i]? = some (p, default))
      (hv : (passedValue ev scope default args[i]? m).Run log' r)
      (hr : ∀ v m₁, r ≠ .value v m₁) :
      Invoked (log ++ log') (r.giving ())
  | shape {i : Nat} {log log' : List ((q : Request) × q.Answer)} {m m₁ m₂ : Machine}
      {p : Pattern} {default : Option Expr} {v : Value} {s : Signal}
      (before : decl.Passed ev scope args start i log m)
      (hp : decl.params[i]? = some (p, default))
      (hv : (passedValue ev scope default args[i]? m).Run log' (.value v m₁))
      (hbind : bindPattern scope false p v m₁ = .finished (.stopped s m₂)) :
      Invoked (log ++ log') (.stopped s m₂)

end

variable {decl : Function} {ev : Evaluator} {scope : ScopeRef} {args : List Value}
  {start m : Machine}

theorem bindParams_cons (ev : Evaluator) (scope : ScopeRef) (p : Pattern) (default : Option Expr)
    (params : List (Pattern × Option Expr)) (args : List Value) :
    bindParams ev scope ((p, default) :: params) args =
      Eval.bind (passedValue ev scope default args.head?) fun v =>
        Eval.bind (bindPattern scope false p v) fun _ => bindParams ev scope params args.tail := by
  cases args with
  | cons v args =>
    rw [bindParams]
    rfl
  | nil =>
    cases default with
    | some e =>
      rw [bindParams]
      rfl
    | none =>
      rw [bindParams]
      rfl

/-- What is left of a call once the first parameters have been bound. -/
def Function.remaining (decl : Function) (ev : Evaluator) (scope : ScopeRef) (args : List Value)
    (i : Nat) : Eval Unit :=
  Eval.bind (bindParams ev scope (decl.params.drop i) (args.drop i)) fun _ =>
    ev.execAll decl.body scope

theorem remaining_of_param {i : Nat} {p : Pattern} {default : Option Expr}
    (hp : decl.params[i]? = some (p, default)) (m : Machine) :
    decl.remaining ev scope args i m =
      (passedValue ev scope default args[i]? m).bind (andThen fun v m₁ =>
        (bindPattern scope false p v m₁).bind (andThen fun _ =>
          decl.remaining ev scope args (i + 1))) := by
  obtain ⟨hi, hget⟩ := List.getElem?_eq_some_iff.1 hp
  rw [Function.remaining, List.drop_eq_getElem_cons hi, hget, bindParams_cons, List.head?_drop,
    List.tail_drop, bind_apply, bind_apply, Dialogue.bind_assoc]
  refine congrArg _ (funext fun r => ?_)
  cases r with
  | value v m₁ =>
    change (Eval.bind _ _ m₁).bind _ = _
    rw [bind_apply, Dialogue.bind_assoc]
    refine congrArg _ (funext fun r => ?_)
    cases r with
    | value _ m₂ => exact (bind_apply _ _ m₂).symm
    | _ => rfl
  | _ => rfl

theorem remaining_length (m : Machine) :
    decl.remaining ev scope args decl.params.length m = ev.execAll decl.body scope m := by
  rw [Function.remaining, List.drop_length, bindParams, bind_apply]
  rfl

theorem invoke_apply (ev : Evaluator) (decl : Function) (closure : ScopeRef) (args : List Value)
    (m : Machine) :
    invoke ev decl closure args m =
      decl.remaining ev ⟨m.scopes.size⟩ args 0 (m.opening closure) := rfl

variable {log log' : List ((q : Request) × q.Answer)} {r : Ending Unit}

/-- By induction on the number `k` of parameters that are left. -/
theorem Function.Passed.invoked {i k : Nat} (h : decl.Passed ev scope args start i log m)
    (hk : decl.params.length = i + k) (hrun : (decl.remaining ev scope args i m).Run log' r) :
    decl.Invoked ev scope args start (log ++ log') r := by
  induction k generalizing i log log' m with
  | zero =>
    obtain rfl : i = decl.params.length := hk.symm
    rw [remaining_length] at hrun
    exact .body h hrun
  | succ k ih =>
    have hp : decl.params[i]? = some (decl.params[i].1, decl.params[i].2) :=
      List.getElem?_eq_getElem (by omega)
    rw [remaining_of_param hp] at hrun
    obtain ⟨first, given, last, rfl, hfirst, hlast⟩ := Dialogue.run_bind.1 hrun
    cases given with
    | value v m₁ =>
      dsimp only [andThen] at hlast
      obtain ⟨m₂, hbind⟩ | ⟨s, m₂, hbind⟩ :=
        bindPattern_ends scope false decl.params[i].1 v m₁
      · rw [hbind] at hlast
        rw [← List.append_assoc]
        exact ih (.next h hp hfirst hbind) (by omega) hlast
      · rw [hbind] at hlast
        cases hlast
        rw [List.append_nil]
        exact .shape h hp hfirst hbind
    | stopped s m₁ =>
      cases hlast
      rw [List.append_nil]
      exact .value h hp hfirst nofun
    | exhausted =>
      cases hlast
      rw [List.append_nil]
      exact .value h hp hfirst nofun

theorem Function.Passed.remaining_run {i : Nat} (h : decl.Passed ev scope args start i log m)
    (hrun : (decl.remaining ev scope args i m).Run log' r) :
    (decl.remaining ev scope args 0 start).Run (log ++ log') r := by
  induction h generalizing log' with
  | nothing => exact hrun
  | next before hp hv hbind ih =>
    rw [List.append_assoc]
    refine ih ?_
    rw [remaining_of_param hp]
    refine Dialogue.run_bind.2 ⟨_, _, _, rfl, hv, ?_⟩
    dsimp only [andThen]
    rw [hbind]
    exact hrun

/-- The index of each parameter tells where its value comes from, whatever comes before. -/
theorem remaining_run_iff :
    (decl.remaining ev scope args 0 start).Run log r ↔ decl.Invoked ev scope args start log r := by
  constructor
  · intro h
    exact Function.Passed.invoked .nothing (Nat.zero_add _).symm h
  · intro h
    cases h with
    | body before hbody => exact before.remaining_run (by rwa [remaining_length])
    | @value _ _ _ _ _ _ r before hp hv hr =>
      refine before.remaining_run ?_
      rw [remaining_of_param hp]
      refine Dialogue.run_bind.2 ⟨_, r, [], (List.append_nil _).symm, hv, ?_⟩
      cases r with
      | value v m₁ => exact absurd rfl (hr v m₁)
      | stopped s m₁ => exact .finished _
      | exhausted => exact .finished _
    | shape before hp hv hbind =>
      refine before.remaining_run ?_
      rw [remaining_of_param hp]
      refine Dialogue.run_bind.2 ⟨_, _, [], (List.append_nil _).symm, hv, ?_⟩
      dsimp only [andThen]
      rw [hbind]
      exact .finished _

/-- A call of a function with fewer arguments than it has parameters before the first default, or
with more than it has parameters, fails and changes nothing. Any other call below the limit runs in
one fresh frame inside the closure: parameter by parameter, each bound to the argument in its place
or else to its default, evaluated then and there, or else to nil, and then the body. -/
theorem arguments_passed (n : Nat) (id : Nat) (decl : Function) (closure : ScopeRef)
    (args : List Value) (m : Machine) :
    let call := (Evaluator.bounded (n + 1)).call (.function id decl closure) args m
    (args.length < decl.minArgs ∨ decl.maxArgs < args.length →
      call = .finished (.stopped (.failed (.arity decl.arity.describe args.length)) m)) ∧
    (decl.minArgs ≤ args.length → args.length ≤ decl.maxArgs →
      m.depth < m.settings.maxCallDepth → ∀ log r, call.Run log r ↔
        ∃ r', decl.Invoked (.bounded n) ⟨m.scopes.size⟩ args
          ({ m with depth := m.depth + 1 }.opening closure) log r' ∧ r = r'.afterCall) := by
  have hcall : (Evaluator.bounded (n + 1)).call (.function id decl closure) args m =
      if decl.arity.accepts args.length then callFunction (.bounded n) decl closure args m
      else .finished (.stopped (.failed (.arity decl.arity.describe args.length)) m) := by
    change Eval.bind (Eval.ofExcept (decl.arity.check args.length)) _ m = _
    unfold Arity.check
    split <;> rfl
  have haccepts : decl.arity.accepts args.length =
      (decide (decl.minArgs ≤ args.length) && decide (args.length ≤ decl.maxArgs)) := rfl
  refine ⟨fun hcount => ?_, fun hmin hmax hdepth log r => ?_⟩
  · rw [hcall, if_neg]
    simp only [haccepts, Bool.and_eq_true, decide_eq_true_eq]
    omega
  · rw [hcall, if_pos (by simp [haccepts, hmin, hmax]), callFunction_apply,
      if_neg (Nat.not_le.2 hdepth), invoke_apply, Dialogue.run_bind]
    constructor
    · rintro ⟨first, r', last, rfl, hfirst, hlast⟩
      cases hlast
      rw [List.append_nil]
      exact ⟨r', remaining_run_iff.1 hfirst, rfl⟩
    · rintro ⟨r', hinvoked, rfl⟩
      exact ⟨log, r', [], (List.append_nil _).symm, remaining_run_iff.2 hinvoked, .finished _⟩

/-- The function `fn(a, [b] = [true], c) { return nil; }`. -/
def sparing : Function :=
  .mk "" [(.name "a", none),
      (.array [(.name "b", false)], some (.array [(.literal (.bool true) ⟨1, 14, 13⟩, false)]
        ⟨1, 13, 12⟩)),
      (.name "c", none)]
    [.return none ⟨1, 27, 26⟩] false none ⟨1, 1, 0⟩

theorem sparing_invoked :
    sparing.minArgs ≤ 1 ∧ 1 ≤ sparing.maxArgs ∧
    ∃ m' r', ((Evaluator.bounded 5).call (.function 7 sparing .global) [.nil]
        (.bare .default)).Run [] (.value .nil m') ∧
      sparing.Invoked (.bounded 4) ⟨1⟩ [.nil]
        ({ Machine.bare .default with depth := 1 }.opening .global) [] r' ∧
      .value .nil m' = r'.afterCall := by
  have hmin : sparing.minArgs ≤ 1 := by decide
  have hmax : 1 ≤ sparing.maxArgs := by decide
  have hdepth : (Machine.bare .default).depth < (Machine.bare .default).settings.maxCallDepth := by
    decide
  obtain ⟨m', hrun⟩ : ∃ m', ((Evaluator.bounded 5).call (.function 7 sparing .global) [.nil]
      (.bare .default)).Run [] (.value .nil m') := ⟨_, .finished _⟩
  obtain ⟨r', hinvoked, hr⟩ :=
    ((arguments_passed 4 7 sparing .global [.nil] (.bare .default)).2 hmin hmax hdepth [] _).1 hrun
  exact ⟨hmin, hmax, m', r', hrun, hinvoked, hr⟩

end ScriptEngine
