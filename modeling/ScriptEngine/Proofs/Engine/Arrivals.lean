import ScriptEngine.Proofs.Engine.Lifetime

/-!
# What becomes of the requests that arrive

When a host hands out no requests itself, the loop takes up those that arrive, one after the other.
At the end of the program they have been answered, except for those that are still queued: only what
was handed to a handler is dropped.
-/
namespace ScriptEngine
open Eval Desk

namespace Desk

variable {es : List Event}

/-- Responses that are called for go to requests that were taken up. -/
theorem owed_taken (h : List Event) : (owed h).map Reply.connection ⊆ taken h := by
  induction h with
  | nil => exact List.nil_subset _
  | cons e h ih =>
    cases e with
    | dispatched request reference c =>
      have hfirst : (((firstAttempt request h).map (·.reply c)).toList.map Reply.connection) ⊆
          [c] := by
        cases firstAttempt request h <;> simp [Attempt.reply]
      rw [owed, List.map_append]
      exact List.append_subset.2 ⟨fun _ hc => List.mem_cons.2 (.inl (by simpa using hfirst hc)),
        fun _ hc => List.mem_cons_of_mem c (ih hc)⟩
    | refused reference c => exact List.cons_subset_cons c ih
    | opened | closed | arrived | handed | tried => exact ih

/-- So do those that are written, when nothing is held at first. -/
theorem Run.reply_taken {t : ServerTable} {q : List ConnectionRef} {d : Desk} {rs : List Reply}
    {r : Reply} (h : Run ⟨t, q⟩ es rs d) (ht : t.Sound) (hnone : t.held = []) (hr : r ∈ rs) :
    r.connection ∈ taken es := by
  have hmem := (h.replies_perm ht).subset hr
  simp only [owedHeld, hnone, List.filterMap_nil, List.nil_append] at hmem
  exact owed_taken es (List.mem_map_of_mem hmem)

end Desk

/-- An occasion on which no request is handed out. -/
abbrev Errand : Type := {o : Occasion // o.connection? = none}

/-- A host leads a program from errand to errand, whatever way each of them ends, and drops it. -/
def lifetime (n : Nat) (errands : List Errand) : Eval Unit := do
  Eval.forEach (fun o => do discard (Eval.attempt (o.val.eval n))) errands
  shutDown

namespace Desk

/-- The account of a program up to its end: that of its life, and what its end drops. -/
inductive FullAccount (call : Library.Caller) (m₀ : Machine) :
    List Exchange → List Event → Machine → Prop
  | dropped {m₁ m₂ : Machine} {log last : List Exchange} {es : List Event}
      (h : Account call m₀ log es m₁) (hdrop : (shutDown m₁).Run last (.value () m₂)) :
      FullAccount call m₀ (log ++ last) (es ++ drops m₁) m₂

end Desk

/-- A program that comes to its end has an account in which requests are taken up as they leave the
queue. -/
theorem lifetime_account {n : Nat} {errands : List Errand} {m₀ m : Machine} {log : List Exchange}
    (hservers : m₀.servers = .empty) (hrun : (lifetime n errands m₀).Run log (.value () m)) :
    ∃ es, FullAccount (Evaluator.bounded n).call m₀ log es m ∧ Prompt es ∧
      m.servers.held = [] ∧ Serves ⟨.empty, m₀.desk.queue⟩ log es m.desk := by
  have herrands := Follows.forEach (C := course (Evaluator.bounded n).call)
    (f := fun o : Errand => do discard (Eval.attempt (o.val.eval n)))
    (fun o => Follows.discard (Follows.attempt (Occasion.follows n o.property))) errands
  obtain ⟨first, e, last, rfl, hfirst, hlast⟩ := run_bind.1 hrun
  cases e with
  | value u m₁ =>
    obtain ⟨es, h, hprompt⟩ := herrands hfirst m₁ rfl
    obtain ⟨m₂, heq, hheld, hserves⟩ := h.drop hservers hlast
    cases heq
    have hdrops : Prompt (drops m₁) := by
      refine .quiet fun e he => ?_
      rcases List.mem_append.1 he with he | he
      · obtain ⟨s, -, rfl⟩ := List.mem_map.1 he
        exact ⟨rfl, rfl⟩
      · obtain ⟨r, -, rfl⟩ := List.mem_map.1 he
        exact ⟨rfl, rfl⟩
    exact ⟨_, .dropped h hlast, hprompt.append hdrops, hheld, hserves⟩
  | stopped | exhausted => cases hlast

/-! Loops that end by themselves -/

theorem iterate_returns {β : Type} {body : β → Eval (Option β)} {n : Nat} {b : β} {m m' : Machine}
    {log : List Exchange} (h : (Eval.iterate body n b m).Run log (.value () m')) :
    ∃ b' m₁ last, (body b' m₁).Run last (.value none m') := by
  induction n generalizing b m log with
  | zero => cases h
  | succ n ih =>
    rw [iterate_succ] at h
    obtain ⟨first, e, last, rfl, hfirst, hlast⟩ := Dialogue.run_bind.1 h
    cases e with
    | value o m₁ =>
      cases o with
      | some b' => exact ih hlast
      | none =>
        cases hlast
        exact ⟨b, m, first, hfirst⟩
    | stopped | exhausted => cases hlast

theorem poll_idle {l l' : EventLoop Value Task} {now : Nat} (h : l.poll now = (.idle, l')) :
    l'.tasks = [] := by
  unfold EventLoop.poll at h
  split at h
  · cases h
  · split at h
    · cases h
    next htasks =>
      split at h
      · cases h
        exact htasks
      · cases h

/-- The loop does not stop while something is queued, unless the program ends early. -/
theorem loopTurn_stops {ev : Evaluator} {m m' : Machine} {log : List Exchange}
    (h : (loopTurn ev m).Run log (.value false m')) : m'.desk.queue = [] := by
  obtain ⟨first, e, last, rfl, hfirst, hlast⟩ := run_bind.1 h
  have hgoes {x : Eval Unit} {m₁ : Machine} :
      ¬ ((x >>= fun _ => Pure.pure true) m₁).Run last (.value false m') := by
    intro h
    obtain ⟨_, e, _, _, _, hend⟩ := run_bind.1 h
    cases e <;> cases hend
  obtain ⟨time, found, rfl, rfl⟩ := nextReady_run hfirst
  cases hready : ((found.foldl EventLoop.receive m.loop).poll time).1 with
  | timer | task | wait =>
    rw [Eval.andThen, hready] at hlast
    exact absurd hlast hgoes
  | idle =>
    rw [Eval.andThen, hready] at hlast
    cases hlast
    exact congrArg (List.filterMap Task.connection?) (poll_idle (Prod.ext hready rfl))

theorem runLoop_stops {n : Nat} {m m' : Machine} {log : List Exchange}
    (h : (runLoop n m).Run log (.value () m')) : m'.desk.queue = [] := by
  obtain ⟨b, m₁, last, hlast⟩ := iterate_returns h
  obtain ⟨first, e, last, rfl, hfirst, hlast⟩ := run_bind.1 hlast
  cases e with
  | value again m₂ =>
    cases again with
    | true => cases hlast
    | false =>
      cases hlast
      exact loopTurn_stops hfirst
  | stopped | exhausted => cases hlast

/-- What a program that has come to its end has done with the requests that have arrived: those that
are not queued any more have been taken up and answered, each once and after it had arrived. -/
theorem lifetime_arrivals {n : Nat} {errands : List Errand} {m₀ m : Machine} {log : List Exchange}
    (hservers : m₀.servers = .empty) (hqueue : m₀.desk.queue = [])
    (hrun : (lifetime n errands m₀).Run log (.value () m)) :
    ∃ h, FullAccount (Evaluator.bounded n).call m₀ log h m ∧ Exact h (repliesIn log) ∧
      arrivalsIn log = taken h ++ m.desk.queue ∧
      ∀ first e last r, log = first ++ e :: last → e.reply? = some r →
        r.connection ∈ arrivalsIn first := by
  obtain ⟨h, haccount, hprompt, hheld, hserves⟩ := lifetime_account hservers hrun
  rw [hqueue] at hserves
  refine ⟨h, haccount, hserves.run.exact hheld, ?_, fun first e last r heq hr => ?_⟩
  · have hall := hserves.run.queue
    rwa [List.nil_append, hserves.arrivals, hprompt.handed] at hall
  · have hsplit : log = (first ++ [e]) ++ last := heq.trans (List.append_cons ..)
    obtain ⟨past, later, d, rfl, hpast, harrived⟩ := hserves.cut hsplit
    have htaken : r.connection ∈ taken past := by
      refine hpast.reply_taken ServerTable.sound_empty rfl ?_
      rw [repliesIn_append]
      exact List.mem_append_right _ (List.mem_filterMap.2 ⟨e, List.mem_singleton_self e, hr⟩)
    have hhanded := List.mem_append_left d.queue (hprompt.before rfl htaken)
    rw [← hpast.queue, List.nil_append, harrived, arrivalsIn_append] at hhanded
    have hnone : arrivalsIn [e] = [] := by
      obtain ⟨q, a⟩ := e
      cases q with
      | arrivals => cases hr
      | _ => rfl
    rwa [hnone, List.append_nil] at hhanded

end ScriptEngine
