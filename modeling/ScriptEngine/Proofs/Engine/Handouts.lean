import ScriptEngine.Proofs.Engine.Serving
import ScriptEngine.Proofs.Machine.Quiet

/-!
# What the event loop hands out

A run of the event loop is a row of turns. In each of them it finds nothing to do, and stops or
waits, or it hands out a timer or a task, which then returns, fails and is reported, or ends the
program.
-/
namespace ScriptEngine
open Eval

/-- What the event loop hands out. -/
inductive Handout where
  | timer (t : Timer Value)
  | task (t : Task)

namespace Handout

def eval (ev : Evaluator) : Handout → Eval Unit
  | timer t => fireTimer ev t
  | task t => runTask ev t

def ready : Handout → EventLoop.Ready Value Task
  | timer t => .timer t
  | task t => .task t

end Handout

/-- Something that was handed out, and the failure it ended in, if any. -/
abbrev Outcome : Type := Handout × Option Failure

/-- What becomes of a callback or task whose failure is only reported. -/
inductive Isolated (x : Eval Unit) (m : Machine) :
    List Exchange → Option Failure → Ending Unit → Prop
  | returned {log : List Exchange} {m' : Machine} (h : (x m).Run log (.value () m')) :
      Isolated x m log none (.value () m')
  | reported {log said : List Exchange} {s : Signal} {m₁ m' : Machine}
      (h : (x m).Run log (.stopped s m₁)) (hf : (s.toFailure m₁.heap).isCatchable)
      (hr : (Eval.report (.ofFailure (s.toFailure m₁.heap)) m₁).Run said (.value () m')) :
      Isolated x m (log ++ said) (some (s.toFailure m₁.heap)) (.value () m')
  | ended {log : List Exchange} {s : Signal} {code : Int} {m' : Machine}
      (h : (x m).Run log (.stopped s m')) (hs : s.toFailure m'.heap = .exit code) :
      Isolated x m log (some (.exit code)) (.stopped (.failed (.exit code)) m')
  | exhausted {log : List Exchange} (h : (x m).Run log .exhausted) :
      Isolated x m log none .exhausted

/-- Runs of the event loop with a bound on the number of turns, and what is handed out in them, in
order. -/
inductive Pumps (ev : Evaluator) :
    Nat → Machine → List Exchange → List Outcome → Ending Unit → Prop
  | bound (m : Machine) : Pumps ev 0 m [] [] .exhausted
  | idle {k : Nat} {m m' : Machine} {log : List Exchange}
      (h : (nextReady m).Run log (.value .idle m')) : Pumps ev (k + 1) m log [] (.value () m')
  | wait {k : Nat} {m m₁ : Machine} {deadline : Option Nat} {log last : List Exchange}
      {xs : List Outcome} {e : Ending Unit} (h : (nextReady m).Run log (.value (.wait deadline) m₁))
      (rest : Pumps ev k m₁ last xs e) :
      Pumps ev (k + 1) m (log ++ ⟨.rest deadline, ()⟩ :: last) xs e
  | handed {k : Nat} {m m₁ m₂ : Machine} {x : Handout} {f : Option Failure}
      {log mid last : List Exchange} {xs : List Outcome} {e : Ending Unit}
      (h : (nextReady m).Run log (.value x.ready m₁))
      (hx : Isolated (x.eval ev) m₁ mid f (.value () m₂)) (rest : Pumps ev k m₂ last xs e) :
      Pumps ev (k + 1) m (log ++ (mid ++ last)) ((x, f) :: xs) e
  | ended {k : Nat} {m m₁ m' : Machine} {x : Handout} {f : Option Failure} {s : Signal}
      {log mid : List Exchange} (h : (nextReady m).Run log (.value x.ready m₁))
      (hx : Isolated (x.eval ev) m₁ mid f (.stopped s m')) :
      Pumps ev (k + 1) m (log ++ mid) [(x, f)] (.stopped s m')
  | cut {k : Nat} {m m₁ : Machine} {x : Handout} {f : Option Failure} {log mid : List Exchange}
      (h : (nextReady m).Run log (.value x.ready m₁))
      (hx : Isolated (x.eval ev) m₁ mid f .exhausted) :
      Pumps ev (k + 1) m (log ++ mid) [(x, f)] .exhausted

/-! Runs as the definitions have them -/

variable {ev : Evaluator} {m : Machine} {log : List Exchange}

theorem Failure.exit_of_not_isCatchable {f : Failure} (h : f.isCatchable = false) :
    ∃ code, f = .exit code := by
  cases f with
  | exit code => exact ⟨code, rfl⟩
  | _ => cases h

theorem isolated_run {x : Eval Unit} {e : Ending Unit} :
    (isolated x m).Run log e ↔ ∃ f, Isolated x m log f e := by
  constructor
  · intro h
    obtain ⟨first, r, last, rfl, hfirst, hlast⟩ := run_bind.1 h
    obtain ⟨r, hx, rfl⟩ := run_attempt.1 hfirst
    cases r with
    | value u m' =>
      cases hlast
      rw [List.append_nil]
      exact ⟨none, .returned hx⟩
    | stopped s m₁ =>
      change (reportOrEnd (s.toFailure m₁.heap) m₁).Run last e at hlast
      unfold reportOrEnd at hlast
      split at hlast
      next hf =>
        obtain ⟨-, rfl⟩ := report_run.1 hlast
        exact ⟨_, .reported hx hf hlast⟩
      next hf =>
        obtain ⟨code, hcode⟩ := Failure.exit_of_not_isCatchable (eq_false_of_ne_true hf)
        rw [hcode] at hlast
        cases hlast
        rw [List.append_nil]
        exact ⟨_, .ended hx hcode⟩
    | exhausted =>
      cases hlast
      rw [List.append_nil]
      exact ⟨none, .exhausted hx⟩
  · rintro ⟨f, h⟩
    cases h with
    | returned h =>
      rw [← List.append_nil log]
      exact run_andThen (run_attempt.2 ⟨_, h, rfl⟩) (.finished _)
    | @reported log said s m₁ m' h hf hr =>
      refine run_andThen (run_attempt.2 ⟨_, h, rfl⟩) ?_
      change (reportOrEnd (s.toFailure m₁.heap) m₁).Run said _
      rwa [reportOrEnd, if_pos hf]
    | @ended _ s code m' h hs =>
      rw [← List.append_nil log]
      refine run_andThen (run_attempt.2 ⟨_, h, rfl⟩) ?_
      change (reportOrEnd (s.toFailure m'.heap) m').Run [] _
      rw [hs]
      exact .finished _
    | exhausted h =>
      exact run_bind.2 ⟨log, .exhausted, [], (List.append_nil log).symm, run_attempt.2 ⟨_, h, rfl⟩,
        .finished _⟩

/-- A loop with a body is a round and then, if there is to be another one, the loop. -/
theorem Eval.run_repeatWhile {body : Eval Bool} {k : Nat} {e : Ending Unit} :
    (Eval.repeatWhile body (k + 1) m).Run log e ↔
      ∃ first r last, log = first ++ last ∧ (body m).Run first r ∧
        (andThen (fun again => if again then Eval.repeatWhile body k else Eval.pure ()) r).Run
          last e := by
  have hround : Eval.repeatWhile body (k + 1) m = (body m).bind
      (andThen fun again => if again then Eval.repeatWhile body k else Eval.pure ()) := by
    unfold Eval.repeatWhile
    rw [iterate_succ, bind_apply, Dialogue.bind_assoc]
    refine congrArg _ (funext fun r => ?_)
    cases r with
    | value again m₁ => cases again <;> rfl
    | stopped | exhausted => rfl
  rw [hround, Dialogue.run_bind]

/-- A turn in which something is handed out is the run of it, and another turn follows if it ends
like that. -/
theorem loopTurn_handed {x : Handout} {m₁ : Machine} {mid : List Exchange} {r : Ending Unit}
    {r' : Ending Bool} (h : (nextReady m).Run log (.value x.ready m₁))
    (hx : (isolated (x.eval ev) m₁).Run mid r)
    (hr : (andThen (fun _ => Eval.pure true) r).Run [] r') :
    (loopTurn ev m).Run (log ++ mid) r' := by
  refine run_andThen h ?_
  have hgo : ((isolated (x.eval ev) >>= fun _ => Eval.pure true) m₁).Run mid r' :=
    run_bind.2 ⟨mid, r, [], (List.append_nil mid).symm, hx, hr⟩
  cases x <;> exact hgo

/-- Runs of the loop are rows of turns. -/
theorem pumps_run {k : Nat} {e : Ending Unit} :
    (Eval.repeatWhile (loopTurn ev) k m).Run log e ↔ ∃ xs, Pumps ev k m log xs e := by
  constructor
  · intro h
    induction k generalizing m log with
    | zero =>
      cases h
      exact ⟨[], .bound m⟩
    | succ k ih =>
      obtain ⟨first, r, last, rfl, hbody, hlast⟩ := run_repeatWhile.1 h
      obtain ⟨start, e₁, mid, rfl, hready, hmid⟩ := run_bind.1 hbody
      obtain ⟨time, found, hstart, rfl⟩ := nextReady_run hready
      generalize ((found.foldl EventLoop.receive m.loop).poll time).1 = ready at hready hmid
      generalize { m with loop := ((found.foldl EventLoop.receive m.loop).poll time).2 } = m₁
        at hready hmid
      have hhanded (x : Handout) (hx : ready = x.ready)
          (hgo : ((isolated (x.eval ev) >>= fun _ => Eval.pure true) m₁).Run mid r) :
          ∃ xs, Pumps ev (k + 1) m (start ++ mid ++ last) xs e := by
        subst hx
        obtain ⟨mid, e₂, _, rfl, hx, hend⟩ := run_bind.1 hgo
        obtain ⟨f, hx⟩ := isolated_run.1 hx
        cases e₂ with
        | value u m₂ =>
          cases hend
          obtain ⟨xs, rest⟩ := ih hlast
          rw [List.append_nil, List.append_assoc]
          exact ⟨_, .handed hready hx rest⟩
        | stopped s m₂ =>
          cases hend
          cases hlast
          simp only [List.append_nil]
          exact ⟨_, .ended hready hx⟩
        | exhausted =>
          cases hend
          cases hlast
          simp only [List.append_nil]
          exact ⟨_, .cut hready hx⟩
      cases ready with
      | timer t => exact hhanded (.timer t) rfl hmid
      | task t => exact hhanded (.task t) rfl hmid
      | idle =>
        cases hmid
        cases hlast
        simp only [List.append_nil]
        exact ⟨[], .idle hready⟩
      | wait deadline =>
        cases hmid with
        | asking a hmid =>
          cases hmid
          obtain ⟨xs, rest⟩ := ih hlast
          rw [List.append_assoc]
          exact ⟨xs, .wait hready rest⟩
  · rintro ⟨xs, h⟩
    induction h with
    | bound m => exact .finished _
    | @idle k m m' log h =>
      have hbody : (loopTurn ev m).Run (log ++ []) (.value false m') := run_andThen h (.finished _)
      rw [List.append_nil] at hbody
      exact run_repeatWhile.2 ⟨log, _, [], (List.append_nil log).symm, hbody, .finished _⟩
    | wait h _ ih =>
      rw [List.append_cons]
      exact run_repeatWhile.2 ⟨_, .value true _, _, rfl,
        run_andThen h (.asking _ (.finished _)), ih⟩
    | handed h hx _ ih =>
      rw [← List.append_assoc]
      exact run_repeatWhile.2 ⟨_, .value true _, _, rfl,
        loopTurn_handed h (isolated_run.2 ⟨_, hx⟩) (.finished _), ih⟩
    | ended h hx =>
      exact run_repeatWhile.2 ⟨_, .stopped _ _, [], (List.append_nil _).symm,
        loopTurn_handed h (isolated_run.2 ⟨_, hx⟩) (.finished _), .finished _⟩
    | cut h hx =>
      exact run_repeatWhile.2 ⟨_, .exhausted, [], (List.append_nil _).symm,
        loopTurn_handed h (isolated_run.2 ⟨_, hx⟩) (.finished _), .finished _⟩

end ScriptEngine
