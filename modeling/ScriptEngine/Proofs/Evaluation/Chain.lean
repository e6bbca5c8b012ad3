import ScriptEngine.Proofs.Evaluation.Control

/-!
# Chains of built-in functions

Only calls of functions count towards the limit on call depth. A built-in function that is handed
another one as its callback calls it without counting, and so on down the chain. Evaluation with
chains of at most `k` built-in functions in a row is bounded evaluation in which the bound is not
used up by such chains. Both come to the same, each bound being covered by large enough ones of the
other kind.
-/
namespace ScriptEngine
open Eval Regime

def Value.isNative : Value → Bool
  | .native .. => true
  | _ => false

/-- Calls with up to `k` more built-in functions in a row; `deeper` stands for a call beyond
that. -/
def callChained (ev : Evaluator) (deeper : Eval Value) : Nat → Library.Caller
  | 0, callee, args => if callee.isNative then deeper else callStep ev callee args
  | k + 1, callee, args => callStep { ev with call := callChained ev deeper k } callee args

/-- Evaluation in which everything but chains of built-in functions is nested at most `n` deep, and
chains of them are at most `k` long. -/
def Evaluator.chained (k : Nat) (deeper : Eval Value) : Nat → Evaluator
  | 0 => .exhausted
  | n + 1 =>
    { eval := fun e scope => evalStep (chained k deeper n) e scope
      exec := fun s scope => execStep n (chained k deeper n) s scope
      call := callChained (chained k deeper n) deeper k }

variable {ι : Type} {R : Regime ι} {i : ι}

/-- Running the code of a function does not depend on how built-in functions call. -/
theorem Regime.Runs.withCalls {ev ev' : Evaluator} {decl : Function} (h : R.Runs i ev ev' decl)
    {call call' : Library.Caller} : R.Runs i { ev with call } { ev' with call := call' } decl :=
  ⟨h.defaults, h.body⟩

/-- Chains of calls agree if the functions that they call do and what is beyond them does. -/
theorem callChained_calls {ev ev' : Evaluator} {deeper deeper' : Eval Value}
    (hfunction : ∀ decl, R.code decl → ∀ j, R.inner i j → R.Runs j ev ev' decl)
    (hdeeper : R.Evals i deeper deeper') (k : Nat) :
    R.Calls i (callChained ev deeper k) (callChained ev' deeper' k) := by
  induction k with
  | zero =>
    intro callee args hc ha
    unfold callChained
    split
    · exact hdeeper
    next hnative =>
      exact callStep_evals hc ha hfunction fun _ _ _ h =>
        absurd (by simp [h, Value.isNative]) hnative
  | succ k ih =>
    intro callee args hc ha
    rw [callChained, callChained]
    exact callStep_evals hc ha (fun decl hd j hj => (hfunction decl hd j hj).withCalls)
      fun _ _ _ _ => ih

/-! What bounded and chained evaluation have in common -/

theorem exhausted_keeps (ev : Evaluator) : (Regime.free .leading).Keeps () .exhausted ev where
  eval _ _ _ _ := .exhausted rfl
  exec _ _ _ _ _ := .exhausted rfl
  block _ _ _ _ _ := .exhausted rfl
  call _ _ _ _ _ _ := .exhausted rfl

/-- One more level of nesting on both sides, with more rounds of loops on the second. -/
theorem Regime.Keeps.step {ev ev' : Evaluator} (h : (Regime.free .leading).Keeps () ev ev')
    {n n' : Nat} (hn : n ≤ n') {call call' : Library.Caller}
    (hcall : (Regime.free .leading).Calls () call call') :
    (Regime.free .leading).Keeps ()
      ⟨fun e scope => evalStep ev e scope, fun s scope => execStep n ev s scope, call⟩
      ⟨fun e scope => evalStep ev' e scope, fun s scope => execStep n' ev' s scope, call'⟩ := by
  have hexec (s : Stmt) (scope : ScopeRef) :
      (Regime.free .leading).Execs () (execStep n ev s scope) (execStep n' ev' s scope) := by
    refine execStep_execs trivial (fun e _ => h.eval e scope) (fun t _ _ hs => h.exec t hs)
      (fun _ _ => trivial) (fun _ => ⟨nofun, .inr ⟨rfl, hn⟩⟩) fun _ spec => ?_
    exact importModule_execs (free_imports .leading) spec fun _ _ s _ => h.exec s trivial
  refine ⟨fun e scope => ?_, fun s scope _ => hexec s scope,
    fun body p scope => hexec (.block body p) scope, hcall⟩
  exact evalStep_evals (fun p _ => h.eval p scope) h.call (fun _ _ => trivial) fun _ _ => trivial

/-- A larger bound leads a smaller one. -/
theorem bounded_mono {n n' : Nat} (hn : n ≤ n') :
    (Regime.free .leading).Keeps () (.bounded n) (.bounded n') := by
  induction n generalizing n' with
  | zero => exact exhausted_keeps _
  | succ n ih =>
    obtain ⟨n', rfl⟩ : ∃ l, n' = l + 1 := ⟨n' - 1, by omega⟩
    have hkeeps := ih (Nat.le_of_succ_le_succ hn)
    refine hkeeps.step (Nat.le_of_succ_le_succ hn) fun callee args hc ha => ?_
    exact callStep_evals hc ha (fun decl _ _ _ => hkeeps.runs decl) fun _ _ _ _ => hkeeps.call

section

variable (k : Nat) (deeper : Eval Value)

/-- Chains at least as long as the bound are never cut short by it. -/
theorem bounded_chained (n : Nat) :
    (n ≤ k → ∀ n', n ≤ n' → (Regime.free .leading).Keeps () (.bounded n) (.chained k deeper n')) ∧
    (∀ j n', n ≤ j → n ≤ n' + 1 → n ≤ k →
      (Regime.free .leading).Calls () (Evaluator.bounded n).call
        (callChained (.chained k deeper n') deeper j)) := by
  induction n with
  | zero => exact ⟨fun _ _ _ => exhausted_keeps _, fun _ _ _ _ _ _ _ _ _ _ _ => .exhausted rfl⟩
  | succ n ih =>
    have hcall (j n' : Nat) (hj : n + 1 ≤ j) (hn : n ≤ n') (hk : n + 1 ≤ k) :
        (Regime.free .leading).Calls () (Evaluator.bounded (n + 1)).call
          (callChained (.chained k deeper n') deeper j) := by
      obtain ⟨j, rfl⟩ : ∃ l, j = l + 1 := ⟨j - 1, by omega⟩
      have hkeeps := ih.1 (by omega) n' hn
      have hchain := ih.2 j n' (by omega) (by omega) (by omega)
      intro callee args hc ha
      rw [Evaluator.bounded, callChained]
      exact callStep_evals hc ha (fun decl _ _ _ => (hkeeps.runs decl).withCalls)
        fun _ _ _ _ => hchain
    refine ⟨fun hk n' hn => ?_, fun j n' hj hn hk => hcall j n' hj (by omega) hk⟩
    obtain ⟨n', rfl⟩ : ∃ l, n' = l + 1 := ⟨n' - 1, by omega⟩
    exact (ih.1 (by omega) n' (by omega)).step (by omega) (hcall k n' hk (by omega) hk)

/-- Bounded evaluation covers chains that end in exhaustion. -/
theorem chained_bounded (n n' : Nat) (hn : n * (k + 2) ≤ n') :
    (Regime.free .leading).Keeps () (.chained k Eval.exhausted n) (.bounded n') := by
  induction n generalizing n' with
  | zero => exact exhausted_keeps _
  | succ n ih =>
    have hcall (j b : Nat) (hb : n * (k + 2) + j ≤ b) : (Regime.free .leading).Calls ()
        (callChained (.chained k Eval.exhausted n) Eval.exhausted j)
        (fun callee args => callStep (.bounded b) callee args) := by
      induction j generalizing b with
      | zero =>
        intro callee args hc ha
        unfold callChained
        split
        · exact fun _ _ => .exhausted rfl
        next hnative =>
          exact callStep_evals hc ha (fun decl _ _ _ => (ih b hb).runs decl) fun _ _ _ h =>
            absurd (by simp [h, Value.isNative]) hnative
      | succ j ihj =>
        obtain ⟨b, rfl⟩ : ∃ l, b = l + 1 := ⟨b - 1, by omega⟩
        have hkeeps := ih (b + 1) (by omega)
        intro callee args hc ha
        rw [callChained]
        exact callStep_evals hc ha (fun decl _ _ _ => (hkeeps.runs decl).withCalls)
          fun _ _ _ _ => ihj b (by omega)
    have hroom : n * (k + 2) + k + 2 ≤ n' := by rw [Nat.succ_mul] at hn; omega
    obtain ⟨n', rfl⟩ : ∃ l, n' = l + 1 := ⟨n' - 1, by omega⟩
    have hle : n ≤ n * (k + 2) := Nat.le_mul_of_pos_right n (by omega)
    exact (ih n' (by omega)).step (by omega) (hcall k n' (by omega))

end

end ScriptEngine
