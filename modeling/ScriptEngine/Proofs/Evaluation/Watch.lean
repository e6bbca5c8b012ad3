import ScriptEngine.Evaluation.Bounded
import ScriptEngine.Proofs.Evaluation.Call

/-!
# Watching an evaluation

To say that something does or does not happen in the course of an evaluation, the evaluator is
watched: before each activity it begins it looks whether the activity is one of those in question,
and if so it stops with an alarm. A run that goes the same way for every alarm has not come across
any of them.
-/
namespace ScriptEngine
open Eval Regime

/-- The request and answer pairs of a dialogue on its way to a result. -/
inductive Dialogue.Run {κ : Type} {Answer : κ → Type} {ρ : Type} :
    Dialogue Answer ρ → List ((q : κ) × Answer q) → ρ → Prop
  | finished (r : ρ) : Run (.finished r) [] r
  | asking {q : κ} {next : Answer q → Dialogue Answer ρ} {log : List ((q : κ) × Answer q)} {r : ρ}
      (a : Answer q) (h : Run (next a) log r) : Run (.asking q next) (⟨q, a⟩ :: log) r

theorem Dialogue.Every.of_run {κ : Type} {Answer : κ → Type} {ρ : Type} {P : ρ → Prop}
    {d : Dialogue Answer ρ} {log : List ((q : κ) × Answer q)} {r : ρ} (h : d.Every P)
    (hr : d.Run log r) : P r := by
  induction hr with
  | finished r => exact h
  | asking a _ ih => exact ih (h a)

theorem Dialogue.every_mono {κ : Type} {Answer : κ → Type} {ρ : Type} {P Q : ρ → Prop}
    {d : Dialogue Answer ρ} (h : d.Every P) (hPQ : ∀ r, P r → Q r) : d.Every Q := by
  rw [← d.bind_finished]
  exact d.every_bind h hPQ

/-- A run through two dialogues in a row is a run of the one and then of the other. -/
theorem Dialogue.run_bind {κ : Type} {Answer : κ → Type} {ρ σ : Type} {d : Dialogue Answer ρ}
    {f : ρ → Dialogue Answer σ} {log : List ((q : κ) × Answer q)} {s : σ} :
    (d.bind f).Run log s ↔
      ∃ first r last, log = first ++ last ∧ d.Run first r ∧ (f r).Run last s := by
  constructor
  · intro h
    induction d generalizing log with
    | finished r => exact ⟨[], r, log, rfl, .finished r, h⟩
    | asking q next ih =>
      cases h with
      | asking a h =>
        obtain ⟨first, r, last, rfl, hfirst, hlast⟩ := ih a h
        exact ⟨⟨q, a⟩ :: first, r, last, rfl, .asking a hfirst, hlast⟩
  · rintro ⟨first, r, last, rfl, hfirst, hlast⟩
    induction hfirst with
    | finished r => exact hlast
    | asking a _ ih => exact .asking a (ih hlast)

/-- What evaluation begins, step by step. -/
inductive Evaluator.Activity where
  | eval (e : Expr) (scope : ScopeRef)
  | exec (s : Stmt) (scope : ScopeRef)
  | call (callee : Value) (args : List Value)

/-- Stops with an alarm on machines that are noticed. -/
def Eval.guarded {α : Type} (notice : Machine → Bool) (alarm : Failure) (x : Eval α) : Eval α :=
  fun m => if notice m then .finished (.stopped (.failed alarm) m) else x m

namespace Evaluator

/-- Bounded evaluation that stops with an alarm before every activity that is noticed. -/
def watched (notice : Evaluator.Activity → Machine → Bool) (alarm : Failure) : Nat → Evaluator
  | 0 => .exhausted
  | n + 1 =>
    { eval := fun e scope =>
        Eval.guarded (notice (.eval e scope)) alarm (evalStep (watched notice alarm n) e scope)
      exec := fun s scope =>
        Eval.guarded (notice (.exec s scope)) alarm (execStep n (watched notice alarm n) s scope)
      call := fun callee args =>
        Eval.guarded (notice (.call callee args)) alarm
          (callStep (watched notice alarm n) callee args) }

theorem watched_nothing (alarm : Failure) (n : Nat) :
    watched (fun _ _ => false) alarm n = bounded n := by
  induction n with
  | zero => rfl
  | succ n ih =>
    rw [watched, bounded, ih]
    rfl

end Evaluator

/-- No activity that is noticed begins, whatever the host answers. -/
def Eval.Never {α : Type} (notice : Evaluator.Activity → Machine → Bool) (n : Nat)
    (x : Evaluator → Eval α) (m : Machine) : Prop :=
  ∀ alarm, x (.watched notice alarm n) m = x (.bounded n) m

/-- A run of a bounded evaluation in which no activity that is noticed begins. -/
def Eval.RunsWithout {α : Type} (notice : Evaluator.Activity → Machine → Bool) (n : Nat)
    (x : Evaluator → Eval α) (m : Machine) (log : List ((q : Request) × q.Answer))
    (r : Ending α) : Prop :=
  (x (.bounded n) m).Run log r ∧ ∀ alarm, (x (.watched notice alarm n) m).Run log r

/-- The import statement, wherever it is executed. -/
def importing : Evaluator.Activity → Machine → Bool
  | .exec s _, _ => s.isImport
  | _, _ => false

variable {ι : Type} {R : Regime ι} {i : ι}

/-- All activities of two evaluators agree under a regime. -/
structure Regime.Keeps (R : Regime ι) (i : ι) (ev ev' : Evaluator) : Prop where
  eval (e : Expr) (scope : ScopeRef) : R.Evals i (ev.eval e scope) (ev'.eval e scope)
  exec (s : Stmt) {scope : ScopeRef} :
    R.opens scope → R.Execs i (ev.exec s scope) (ev'.exec s scope)
  block (body : List Stmt) (p : Text.Position) (scope : ScopeRef) :
    R.Execs i (ev.exec (.block body p) scope) (ev'.exec (.block body p) scope)
  call : R.Calls i ev.call ev'.call

theorem Regime.Keeps.runs {ev ev' : Evaluator} (h : R.Keeps i ev ev') (decl : Function) :
    R.Runs i ev ev' decl where
  defaults _ _ e _ scope := h.eval e scope
  body s _ _ hs := h.exec s hs

/-- Expressions and statements whose parts are of the same kind, whose functions are code that the
regime allows, and which only assign to names that it allows; the code consists of such ones. -/
structure Regime.Covers (R : Regime ι) (E : Expr → Prop) (S : Stmt → Prop) : Prop where
  exprParts {e : Expr} : E e → ∀ p ∈ e.parts, E p
  exprFunctions {e : Expr} : E e → ∀ f ∈ e.functions, R.code f
  assigned {e : Expr} : E e → ∀ n ∈ e.assigned, R.assigns n
  stmtExprs {s : Stmt} : S s → ∀ e ∈ s.exprs, E e
  stmtParts {s : Stmt} : S s → ∀ t ∈ s.parts, S t
  stmtFunctions {s : Stmt} : S s → ∀ f ∈ s.functions, R.code f
  defaults {f : Function} : R.code f → ∀ p ∈ f.params, ∀ e, p.2 = some e → E e
  body {f : Function} : R.code f → ∀ s ∈ f.body, S s

theorem Regime.covers_any (hcode : ∀ f, R.code f) (hassigns : ∀ n, R.assigns n) :
    R.Covers (fun _ => True) (fun _ => True) where
  exprParts _ _ _ := trivial
  exprFunctions _ f _ := hcode f
  assigned _ n _ := hassigns n
  stmtExprs _ _ _ := trivial
  stmtParts _ _ _ := trivial
  stmtFunctions _ f _ := hcode f
  defaults _ _ _ _ _ := trivial
  body _ _ _ := trivial

/-- All activities of two evaluators with such code agree under a regime. -/
structure Regime.KeepsOn (R : Regime ι) (E : Expr → Prop) (S : Stmt → Prop) (i : ι)
    (ev ev' : Evaluator) : Prop where
  eval (e : Expr) (scope : ScopeRef) : E e → R.Evals i (ev.eval e scope) (ev'.eval e scope)
  exec (s : Stmt) {scope : ScopeRef} :
    S s → R.opens scope → R.Execs i (ev.exec s scope) (ev'.exec s scope)
  block (body : List Stmt) (p : Text.Position) (scope : ScopeRef) : S (.block body p) →
    R.Execs i (ev.exec (.block body p) scope) (ev'.exec (.block body p) scope)
  call : R.Calls i ev.call ev'.call

theorem Regime.KeepsOn.runs {E : Expr → Prop} {S : Stmt → Prop} {ev ev' : Evaluator}
    (h : R.KeepsOn E S i ev ev') (hcovers : R.Covers E S) {decl : Function} (hdecl : R.code decl) :
    R.Runs i ev ev' decl where
  defaults p hp e he scope := h.eval e scope (hcovers.defaults hdecl p hp e he)
  body s hs _ hscope := h.exec s (hcovers.body hdecl s hs) hscope

/-- The code that an activity begins with is of some kind. -/
def Evaluator.Activity.Of (E : Expr → Prop) (S : Stmt → Prop) : Evaluator.Activity → Prop
  | .eval e _ => E e
  | .exec s _ => S s
  | .call .. => True

theorem guarded_agree {α : Type} {x : Exhaustion} {I : Machine → Prop} {V : α → Prop}
    {S : Signal → Prop} {notice notice' : Machine → Bool} {alarm : Failure} {y z : Eval α}
    (halarm : S (.failed alarm)) (hnotice : ∀ m, I m → notice m = notice' m)
    (h : (∀ m, notice m = true) ∨ Agree x I V S y z) :
    Agree x I V S (Eval.guarded notice alarm y) (Eval.guarded notice' alarm z) := by
  intro m hm
  unfold Eval.guarded
  rw [← hnotice m hm]
  split
  · exact .finished ⟨halarm, hm⟩
  next hquiet => exact h.elim (fun hall => absurd (hall m) hquiet) fun h => h m hm

section

variable {notice notice' : Evaluator.Activity → Machine → Bool} {alarm : Failure}

theorem exhausted_agree (hx : R.exhaustion = .shared) {α : Type} {V : α → Prop}
    {S : Signal → Prop} :
    Agree R.exhaustion (R.Holds i) V S Eval.exhausted Eval.exhausted :=
  fun _ _ => .finished (by simp [Ending.Within, hx])

/-- A regime is kept by the whole evaluator on code that it covers, if the two sides notice the same
and imports are either noticed or allowed by the regime and the code of modules covered. -/
theorem covered_keeps {E : Expr → Prop} {S : Stmt → Prop} (hx : R.exhaustion = .shared)
    (hcovers : R.Covers E S)
    (hnotice : ∀ i a m, a.Of E S → R.Holds i m → notice a m = notice' a m)
    (himport : ∀ s, S s → s.isImport → (∀ scope m, notice (.exec s scope) m = true) ∨
      (∃ inside, R.Imports inside) ∧ ∀ t : Stmt, t.InModule → S t)
    (n : Nat) (i : ι) : R.KeepsOn E S i (.watched notice alarm n) (.watched notice' alarm n) := by
  induction n generalizing i with
  | zero =>
    exact ⟨fun _ _ _ => exhausted_agree hx, fun _ _ _ _ => exhausted_agree hx,
      fun _ _ _ _ => exhausted_agree hx, fun _ _ _ _ => exhausted_agree hx⟩
  | succ n ih =>
    have hexec (s : Stmt) (hs : S s) {scope : ScopeRef} (hscope : R.opens scope) :
        (∀ m, notice (.exec s scope) m = true) ∨
          R.Execs i (execStep n (.watched notice alarm n) s scope)
            (execStep n (.watched notice' alarm n) s scope) := by
      have hstep (hmodule : s.isImport → ∀ spec, R.Execs i
          (importModule (.watched notice alarm n) spec)
          (importModule (.watched notice' alarm n) spec)) :
          R.Execs i (execStep n (.watched notice alarm n) s scope)
            (execStep n (.watched notice' alarm n) s scope) :=
        execStep_execs hscope (fun e he => (ih i).eval e scope (hcovers.stmtExprs hs e he))
          (fun t ht _ h => (ih i).exec t (hcovers.stmtParts hs t ht) h) (hcovers.stmtFunctions hs)
          (fun _ => ⟨by simp [hx], .inl rfl⟩) hmodule
      cases hload : s.isImport with
      | false => exact .inr (hstep fun h => absurd h (by simp [hload]))
      | true =>
        rcases himport s hs hload with hall | ⟨⟨inside, himports⟩, hparsed⟩
        · exact .inl fun m => hall scope m
        · refine .inr (hstep fun _ spec => importModule_execs himports spec fun j _ t ht => ?_)
          exact (ih j).exec t (hparsed t ht) himports.global
    refine ⟨fun e scope he => ?_, fun s scope hs hscope => ?_, fun body p scope hs => ?_,
      fun f args hf ha => ?_⟩
    · refine guarded_agree trivial (fun m => hnotice i _ m he) (.inr ?_)
      exact evalStep_evals (fun p hp => (ih i).eval p scope (hcovers.exprParts he p hp))
        (ih i).call (hcovers.exprFunctions he) (hcovers.assigned he)
    · exact guarded_agree trivial (fun m => hnotice i _ m hs) (hexec s hs hscope)
    · refine guarded_agree trivial (fun m => hnotice i _ m hs) (.inr ?_)
      exact block_execs fun s h inner hinner => (ih i).exec s (hcovers.stmtParts hs s h) hinner
    · refine guarded_agree trivial (fun m => hnotice i _ m trivial) (.inr ?_)
      exact callStep_evals hf ha (fun decl hdecl j _ => (ih j).runs hcovers hdecl)
        fun _ _ _ _ => (ih i).call

/-- A regime under which any code may run is kept by the whole evaluator, if the two sides notice
the same and imports are either noticed or allowed by the regime. -/
theorem watched_keeps (hx : R.exhaustion = .shared) (hcode : ∀ f, R.code f)
    (hassigns : ∀ n, R.assigns n)
    (hnotice : ∀ i a m, R.Holds i m → notice a m = notice' a m)
    (himport : (∃ inside, R.Imports inside) ∨
      ∀ s scope m, Stmt.isImport s = true → notice (.exec s scope) m = true)
    (n : Nat) (i : ι) : R.Keeps i (.watched notice alarm n) (.watched notice' alarm n) := by
  have h : R.KeepsOn (fun _ => True) (fun _ => True) i (.watched notice alarm n)
      (.watched notice' alarm n) := by
    refine covered_keeps hx (covers_any hcode hassigns) (fun i a m _ => hnotice i a m)
      (fun s _ hs => ?_) n i
    rcases himport with himports | hall
    · exact .inr ⟨himports, fun _ _ => trivial⟩
    · exact .inl fun scope m => hall s scope m hs
  exact ⟨fun e scope => h.eval e scope trivial, fun s _ => h.exec s trivial,
    fun body p scope => h.block body p scope trivial, h.call⟩

end

/-- Code without a kind of statement is made of such code. -/
theorem Regime.covers_lacking (x : Exhaustion) (kind : Stmt → Bool) :
    (Regime.ofCode x (Function.Lacks kind)).Covers (Expr.Lacks kind) (Stmt.Lacks kind) where
  exprParts := by rintro e ⟨hparts, -⟩; exact hparts
  exprFunctions := by rintro e ⟨-, hfunctions⟩; exact hfunctions
  assigned _ _ _ := trivial
  stmtExprs := by rintro s ⟨-, hexprs, -, -⟩; exact hexprs
  stmtParts := by rintro s ⟨-, -, hparts, -⟩; exact hparts
  stmtFunctions := by rintro s ⟨-, -, -, hfunctions⟩; exact hfunctions
  defaults := by rintro f ⟨hdefaults, -⟩; exact hdefaults
  body := by rintro f ⟨-, hbody⟩; exact hbody

/-- Where no code has an import, imports make no difference. -/
theorem importing_agree (alarm : Failure) (n : Nat) :
    (∀ e : Expr, e.Lacks Stmt.isImport → ∀ scope,
      (Regime.ofCode .shared (Function.Lacks Stmt.isImport)).Evals ()
        ((Evaluator.watched importing alarm n).eval e scope)
        ((Evaluator.bounded n).eval e scope)) ∧
    (∀ s : Stmt, s.Lacks Stmt.isImport → ∀ scope,
      (Regime.ofCode .shared (Function.Lacks Stmt.isImport)).Execs ()
        ((Evaluator.watched importing alarm n).exec s scope)
        ((Evaluator.bounded n).exec s scope)) ∧
    (Regime.ofCode .shared (Function.Lacks Stmt.isImport)).Calls ()
      (Evaluator.watched importing alarm n).call (Evaluator.bounded n).call := by
  have h : (Regime.ofCode .shared (Function.Lacks Stmt.isImport)).KeepsOn
      (Expr.Lacks Stmt.isImport) (Stmt.Lacks Stmt.isImport) () (.watched importing alarm n)
      (.watched (fun _ _ => false) alarm n) := by
    refine covered_keeps rfl (covers_lacking _ _) (fun _ a _ ha _ => ?_) (fun s hs hload => ?_) n ()
    · cases a with
      | exec s scope =>
        obtain ⟨hown, -⟩ := ha
        exact hown
      | _ => rfl
    · obtain ⟨hown, -⟩ := hs
      exact absurd (hown.symm.trans hload) nofun
  rw [Evaluator.watched_nothing] at h
  exact ⟨fun e he scope => h.eval e scope he, fun s hs scope => h.exec s hs trivial, h.call⟩

/-- Bounded evaluation keeps every regime under which any code may run and modules may be
imported. -/
theorem bounded_keeps (hx : R.exhaustion = .shared) (hcode : ∀ f, R.code f)
    (hassigns : ∀ n, R.assigns n) {inside : ι → ι → Prop} (himports : R.Imports inside)
    (n : Nat) (i : ι) :
    R.Keeps i (.bounded n) (.bounded n) := by
  rw [← Evaluator.watched_nothing (.exit 0) n]
  exact watched_keeps hx hcode hassigns (fun _ _ _ _ => rfl) (.inl ⟨inside, himports⟩) n i

end ScriptEngine
