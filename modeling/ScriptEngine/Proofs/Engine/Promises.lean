import Mathlib.Logic.Relation
import ScriptEngine.Engine.Loop
import ScriptEngine.Engine.Start
import ScriptEngine.Proofs.Evaluation.Custody
import ScriptEngine.Proofs.Library.PromiseSteps
import ScriptEngine.Proofs.Machine.Conduct

/-!
# The life of a promise

A host makes and settles promises, has code evaluated and functions called, the methods of promises
among them, and turns the event loop, in whatever order. As long as scripts do not meddle, a promise
is pending while its ticket is registered, and then settled for good.
-/
namespace ScriptEngine
open Eval Library

/-- What a host has a program do. -/
inductive Turn where
  | newPromise
  | settle (ticket : Nat) (outcome : Fetched)
  | eval (e : Expr) (scope : ScopeRef)
  | exec (s : Stmt) (scope : ScopeRef)
  | call (callee : Value) (args : List Value)
  | timer (t : Timer Value)
  | task (t : Task)
  | loop

/-- A turn, by an evaluator. -/
def Turn.run (ev : Evaluator) : Turn → Eval Unit
  | newPromise => discard Library.newPromise
  | settle ticket outcome => Library.settle ev.call ticket outcome
  | eval e scope => discard (ev.eval e scope)
  | exec s scope => ev.exec s scope
  | call callee args => discard (ev.call callee args)
  | timer t => fireTimer ev t
  | task t => runTask ev t
  | loop => discard (loopTurn ev)

namespace Machine

/-- What may come next on a machine: the host changes something that has nothing to do with
promises, or a turn comes to the next machine without meddling, so that it makes no difference which
alarm there would be. The turn may be over then, or at the beginning of any of its activities. -/
inductive Next (m m' : Machine) : Prop
  | beside (h : m.Beside m')
  | turn (t : Turn) (n : Nat) (ends : Evaluator.Activity → Machine → Bool) (log : List Exchange)
      (r : Ending Unit)
      (h : ∀ alarm, (t.run (.overseen ⟨meddling, alarm, ends⟩ n) m).Run log r)
      (hm' : m' ∈ r.machine?)

/-- What may come later on a machine. -/
def Later : Machine → Machine → Prop := Relation.ReflTransGen Next

end Machine

/-! Turns and what is in custody -/

section

variable {forbids : Deed → Machine → Bool} {I : Machine → Prop} {ev : Evaluator}

theorem Ending.Leaves.of_machine? {α : Type} {r : Ending α} (h : r.Leaves I) {m : Machine}
    (hm : m ∈ r.machine?) : I m := by
  cases r with
  | value a m' | stopped s m' =>
    cases hm
    exact h
  | exhausted => cases hm

variable (hI : Custody forbids I)
include hI

theorem reportOrEnd_upholds (f : Failure) : Upholds I (reportOrEnd f) := by
  unfold reportOrEnd
  split
  · exact Discipline.report (D := hI.discipline) _
  · exact Upholds.fail _

theorem isolated_upholds {x : Eval Unit} (hx : Upholds I x) : Upholds I (isolated x) := by
  refine Upholds.bind (Upholds.attempt hx) fun outcome => ?_
  cases outcome with
  | ok => exact Upholds.pure _
  | error signal => exact Upholds.bind (Upholds.read _) (reportOrEnd_upholds hI)

theorem nextReady_upholds : Upholds I nextReady := by
  refine Upholds.bind now_upholds fun time => ?_
  refine Upholds.bind (Upholds.ask .arrivals) fun arrivals => ?_
  exact hI.change fun _ => ⟨rfl, rfl, rfl, rfl, Nat.le_refl _⟩

variable (hev : ev.Upholds I)
include hev

theorem runTask_upholds (t : Task) : Upholds I (runTask ev t) := by
  cases t with
  | settle ticket outcome => exact settle_upholds hI hev.call ticket outcome
  | dispatch listener request connection => exact dispatch_upholds hI hev.call _ _ _
  | callGlobal name args =>
    exact Upholds.bind (Upholds.lookup? _ _) fun _ => Upholds.discard (hev.call _ _)
  | evaluate e => exact Upholds.discard (hev.eval e .global)

theorem fireTimer_upholds (t : Timer Value) : Upholds I (fireTimer ev t) := by
  refine Upholds.bind (Upholds.attempt (hev.call _ _)) fun outcome => ?_
  refine Upholds.bind now_upholds fun time => ?_
  refine Upholds.bind (hI.update fun _ => ⟨rfl, rfl, rfl, rfl, Nat.le_refl _⟩) fun _ => ?_
  cases outcome with
  | ok => exact Upholds.pure _
  | error signal => exact Upholds.stop signal

theorem loopTurn_upholds : Upholds I (loopTurn ev) := by
  refine Upholds.bind (nextReady_upholds hI) fun ready => ?_
  cases ready with
  | timer t =>
    exact Upholds.bind (isolated_upholds hI (fireTimer_upholds hI hev t)) fun _ => Upholds.pure _
  | task t =>
    exact Upholds.bind (isolated_upholds hI (runTask_upholds hI hev t)) fun _ => Upholds.pure _
  | idle => exact Upholds.pure _
  | wait deadline => exact Upholds.bind (Upholds.ask (.rest deadline)) fun _ => Upholds.pure _

/-- Every turn upholds what is in custody. -/
theorem Turn.upholds (t : Turn) : Upholds I (t.run ev) := by
  cases t with
  | newPromise => exact Upholds.discard (newPromise_upholds hI)
  | settle ticket outcome => exact settle_upholds hI hev.call ticket outcome
  | eval e scope => exact Upholds.discard (hev.eval e scope)
  | exec s scope => exact hev.exec s scope
  | call callee args => exact Upholds.discard (hev.call callee args)
  | timer t => exact fireTimer_upholds hI hev t
  | task t => exact runTask_upholds hI hev t
  | loop => exact Upholds.discard (loopTurn_upholds hI hev)

end

/-! Turns without meddling are turns of the program -/

section

variable {α β : Type} {code : Int}

theorem settle_runsOrExits {call call' : Caller}
    (hcall : ∀ callee args, RunsOrExits code (call callee args) (call' callee args)) (ticket : Nat)
    (outcome : Fetched) :
    RunsOrExits code (settle call ticket outcome) (settle call' ticket outcome) := by
  unfold settle
  refine .bind (.refl _) fun promise => ?_
  cases promise with
  | none => exact .refl _
  | some promise =>
    refine .bind (.refl _) fun _ => .bind (.refl _) fun _ => .bind (.refl _) fun _ => ?_
    refine .bind (.refl _) fun _ => .bind (.refl _) fun _ => .bind (.refl _) fun _ => ?_
    refine .bind (.refl _) fun _ => .bind (.refl _) fun _ => ?_
    exact .forEach (fun callback => (hcall callback _).discard) _

/-- An exit is passed on, whatever is done before that. -/
theorem exits_behind {x : Eval α} (hx : ∀ m, (x m).Every fun r => ∃ a m', r = .value a m')
    ⦃m : Machine⦄ ⦃log : List Exchange⦄ ⦃r : Ending β⦄
    (hrun : (Eval.bind x (fun _ => Eval.stop (.failed (.exit code))) m).Run log r) :
    ∃ m', r = .exited code m' := by
  rw [bind_apply] at hrun
  obtain ⟨first, r', last, rfl, hfirst, hlast⟩ := Dialogue.run_bind.1 hrun
  obtain ⟨a, m', rfl⟩ := (hx m).of_run hfirst
  cases hlast
  exact ⟨m', rfl⟩

theorem respond_returns (id status : Nat) (body : String) (m : Machine) :
    (respond id status body m).Every fun r => ∃ a m', r = .value a m' := by
  unfold respond
  change (Eval.bind (Eval.change _) _ m).Every _
  rw [bind_apply, Eval.change, Dialogue.finished_bind, Eval.andThen]
  cases (m.servers.take id).1 with
  | none => exact ⟨_, _, rfl⟩
  | some c => exact fun _ => ⟨_, _, rfl⟩

theorem handle_runsOrExits {call call' : Caller}
    (hcall : ∀ callee args, RunsOrExits code (call callee args) (call' callee args))
    (handler : Value) (request : Http.Request) (id : Nat) :
    RunsOrExits code (handle call handler request id) (handle call' handler request id) := by
  unfold handle
  refine .bind (.refl _) fun _ => .bind (.refl _) fun _ => .attempt (hcall _ _) ?_
  refine exits_behind fun m => ?_
  change (Eval.bind (respond id 500 _) (fun _ => Eval.pure ()) m).Every _
  rw [bind_apply]
  refine Dialogue.every_bind _ (respond_returns id 500 _ m) fun r hr => ?_
  obtain ⟨a, m', rfl⟩ := hr
  exact ⟨_, _, rfl⟩

theorem dispatch_runsOrExits {call call' : Caller}
    (hcall : ∀ callee args, RunsOrExits code (call callee args) (call' callee args))
    (reference : ListenerRef) (request : Http.Request) (connection : ConnectionRef) :
    RunsOrExits code (dispatch call reference request connection)
      (dispatch call' reference request connection) := by
  unfold dispatch
  refine .bind (.refl _) fun handler => ?_
  cases handler with
  | none => exact .refl _
  | some handler => exact .bind (.refl _) fun id => handle_runsOrExits hcall handler request id

theorem isolated_runsOrExits {x y : Eval Unit} (h : RunsOrExits code x y) :
    RunsOrExits code (isolated x) (isolated y) := by
  unfold isolated
  refine .attempt h fun m log r hrun => ?_
  cases hrun
  exact ⟨m, rfl⟩

section

variable {ev ev' : Evaluator}
  (heval : ∀ e scope, RunsOrExits code (ev.eval e scope) (ev'.eval e scope))
  (hcall : ∀ callee args, RunsOrExits code (ev.call callee args) (ev'.call callee args))
include hcall

theorem fireTimer_runsOrExits (t : Timer Value) :
    RunsOrExits code (fireTimer ev t) (fireTimer ev' t) := by
  unfold fireTimer
  refine .attempt (hcall _ _) fun m log r hrun => ?_
  cases hrun with
  | asking time hrun =>
    cases hrun
    exact ⟨_, rfl⟩

include heval

theorem runTask_runsOrExits (t : Task) : RunsOrExits code (runTask ev t) (runTask ev' t) := by
  cases t with
  | settle ticket outcome => exact settle_runsOrExits hcall ticket outcome
  | dispatch reference request connection =>
    exact dispatch_runsOrExits hcall reference request connection
  | callGlobal name args =>
    unfold runTask
    exact .bind (.refl _) fun callee => (hcall (callee.getD .nil) args).discard
  | evaluate e => exact (heval e .global).discard

theorem loopTurn_runsOrExits : RunsOrExits code (loopTurn ev) (loopTurn ev') := by
  unfold loopTurn
  refine .bind (.refl _) fun ready => ?_
  cases ready with
  | timer t => exact .bind (isolated_runsOrExits (fireTimer_runsOrExits hcall t)) fun _ => .refl _
  | task t =>
    exact .bind (isolated_runsOrExits (runTask_runsOrExits heval hcall t)) fun _ => .refl _
  | idle | wait => exact .refl _

theorem Turn.runsOrExits (hexec : ∀ s scope, RunsOrExits code (ev.exec s scope) (ev'.exec s scope))
    (t : Turn) : RunsOrExits code (t.run ev) (t.run ev') := by
  cases t with
  | newPromise => exact .refl _
  | settle ticket outcome => exact settle_runsOrExits hcall ticket outcome
  | eval e scope => exact (heval e scope).discard
  | exec s scope => exact hexec s scope
  | call callee args => exact (hcall callee args).discard
  | timer t => exact fireTimer_runsOrExits hcall t
  | task t => exact runTask_runsOrExits heval hcall t
  | loop => exact (loopTurn_runsOrExits heval hcall).discard

end

end

/-- A turn without meddling that is not ended on the way is a turn of the program: what it comes to
under oversight, the program comes to by itself. -/
theorem Turn.run_of_overseen {t : Turn} {n : Nat} {m m' : Machine} {log : List Exchange}
    {r : Ending Unit}
    (h : ∀ alarm, (t.run (.overseen ⟨meddling, alarm, fun _ _ => false⟩ n) m).Run log r)
    (hm' : m' ∈ r.machine?) : (t.run (.bounded n) m).Run log r := by
  have hruns (code : Int) :
      r = .exhausted ∨ (∃ m₁, r = .exited code m₁) ∨ (t.run (.bounded n) m).Run log r := by
    obtain ⟨heval, hexec, hcall⟩ :=
      overseen_runs (o := ⟨meddling, .exit code, fun _ _ => false⟩) rfl (fun _ _ => rfl) n
    exact t.runsOrExits heval hcall hexec (h (.exit code))
  -- An alarm with one code is not an alarm with another.
  obtain rfl | ⟨m₀, rfl⟩ | hrun := hruns 0
  · cases hm'
  · obtain hbound | ⟨m₁, hexit⟩ | hrun := hruns 1
    · cases hbound
    · cases hexit
    · exact hrun
  · exact hrun

namespace Machine

variable {m m' : Machine}

theorem Next.upholds {I : Machine → Prop} (hI : Custody meddling I) (h : m.Next m') (hm : I m) :
    I m' := by
  cases h with
  | beside h => exact hI.beside hm h
  | turn t n ends log r h hm' =>
    -- Any alarm will do, as there is none.
    have hrun := h (.exit 0)
    have hI' : Custody (Oversight.mk meddling (.exit 0) ends).forbids I := hI
    exact ((t.upholds hI' (overseen_upholds hI' n) hm).of_run hrun).of_machine? hm'

/-- Order is kept for ever, and what is known of promises too. -/
theorem Later.grows (h : m.Later m') (hm : m.InOrder) : m'.InOrder ∧ m.Grows m' := by
  have hI := custody_inOrder m hm
  induction h with
  | refl => exact ⟨hm, .refl m⟩
  | tail _ hnext ih => exact hnext.upholds hI ih

theorem later_promised (m : Machine) : m.Later (promised m) := by
  refine .single (.turn .newPromise 0 (fun _ _ => false) [] (.value () (promised m)) ?_ rfl)
  intro alarm
  change (Eval.bind newPromise (fun _ => Eval.pure ()) m).Run _ _
  rw [bind_apply, newPromise_eq]
  exact .finished _

/-- A promise that nobody waits for is settled in a turn that calls nothing. -/
theorem later_settling {ticket : Nat} {promise : InstanceRef} {queue : ArrayRef} (outcome : Fetched)
    (hticket : m.promises.pending.lookup ticket = some promise)
    (hqueue : m.heap.field? promise (settlementOf outcome).queue = some (.array queue))
    (hnone : m.heap.array queue = #[]) : m.Later (m.settling ticket promise outcome queue) := by
  refine .single (.turn (.settle ticket outcome) 0 (fun _ _ => false) [] (.value () _) ?_ rfl)
  intro alarm
  change (settle _ ticket outcome m).Run _ _
  rw [settle_eq hticket hqueue, hnone]
  exact .finished _

/-! Fresh machines -/

theorem InOrder.beside (hm : m.InOrder) (h : m.Beside m') : m'.InOrder :=
  (h.advances hm).inOrder hm

theorem bare_inOrder (settings : Settings) : (bare settings).InOrder where
  classes := by simp [bare, Class.promise, Class.plain, Class.id]
  numbered h := by cases h
  single h := by cases h
  registered h := by
    obtain ⟨ticket, h⟩ := h
    cases h
  unregistered h := by cases h
  apart h := by cases h

theorem functionFields_beside (m : Machine) (fs : List Native) :
    m.Beside (m.functionFields fs).2 := by
  induction fs generalizing m with
  | nil => exact ⟨rfl, rfl, rfl, rfl, Nat.le_refl _⟩
  | cons f rest ih =>
    obtain ⟨hheap, hpromises, hpromise, hobject, hid⟩ := ih m.withFreshId.2
    exact ⟨hheap, hpromises, hpromise, hobject, (Nat.le_succ _).trans hid⟩

theorem InOrder.addObject (hm : m.InOrder) (object : String × List Native) :
    (m.addObject object).InOrder := by
  have hnumbered : m.withFreshId.2.InOrder := hm.beside ⟨rfl, rfl, rfl, rfl, Nat.le_succ _⟩
  have hfields := functionFields_beside m.withFreshId.2 object.2
  have hm' := hnumbered.beside hfields
  have hclass : (Class.mk m.nextId object.1 none [] []).id ≠
      (m.withFreshId.2.functionFields object.2).2.promiseClass.id := by
    rw [hfields.promiseClass]
    exact hm.classes.1.ne'
  exact ((advances_newInstance hm' (.inr hclass)).inOrder hm').beside
    ⟨rfl, rfl, rfl, rfl, Nat.le_refl _⟩

theorem fresh_inOrder (settings : Settings) : (fresh settings).InOrder := by
  have hglobals : (Native.globals.foldl addFunction (bare settings)).InOrder :=
    List.foldlRecOn _ _ (bare_inOrder settings) fun m hm _ _ =>
      hm.beside ⟨rfl, rfl, rfl, rfl, Nat.le_succ _⟩
  exact List.foldlRecOn _ _ (hglobals.beside ⟨rfl, rfl, rfl, rfl, Nat.le_refl _⟩)
    fun m hm object _ => hm.addObject object

/-! What becomes of a promise -/

/-- A ticket is registered for a promise, which is pending. -/
structure Awaited (m : Machine) (ticket : Nat) (promise : InstanceRef) : Prop where
  ticket : m.promises.pending.lookup ticket = some promise
  pending : m.Pending promise

theorem InOrder.awaited {ticket : Nat} {promise : InstanceRef} (hm : m.InOrder)
    (h : m.promises.pending.lookup ticket = some promise) : m.Awaited ticket promise :=
  ⟨h, (hm.registered (.of_lookup h)).2⟩

theorem Concluded.settled {ticket : Nat} {promise : InstanceRef} {outcome : Fetched}
    (h : m.Concluded promise outcome) (hticket : m.promises.pending.lookup ticket = none) :
    Library.Settled m ticket promise outcome where
  ticket := hticket
  status := h.status
  value := h.value
  queues kind := by
    obtain ⟨a, ha, hitems⟩ := h.queues kind
    exact ⟨a, ha, Heap.array_of_getElem? hitems⟩

theorem settled_settling {ticket : Nat} {promise : InstanceRef} {outcome : Fetched}
    {queue : ArrayRef} (hp : (m.heap.instance? promise).isSome) :
    Library.Settled (m.settling ticket promise outcome queue) ticket promise outcome :=
  (concluded_settling hp).settled ((lookup_settling ticket).trans (if_pos rfl))

end Machine

/-- A callback is called at once if it is for the way in which the promise is settled, and never if
it is for the other. -/
theorem Library.Settled.promiseMethod {m : Machine} {ticket : Nat} {promise : InstanceRef}
    {outcome : Fetched} (h : Settled m ticket promise outcome) (call : Caller)
    (method : PromiseMethod) (callback : Value) :
    Library.promiseMethod call method (some (.object promise)) [callback] m =
      if kindOf method = settlementOf outcome then
        (do discard (call callback [settledValue outcome]); return .object promise : Eval Value) m
      else .finished (.value (.object promise) m) := by
  have hstatus : m.heap.field (.object promise) "status" =
      .text (settlementOf outcome).status := by
    rw [Heap.field, h.status, Option.getD_some]
  have hvalue : m.heap.field (.object promise) "value" = settledValue outcome := by
    rw [Heap.field, h.value, Option.getD_some]
  have hsubscribe (kind : Settlement) :
      Library.subscribe call kind (some (.object promise)) [callback] m =
        if kind = settlementOf outcome then
          (do discard (call callback [settledValue outcome]); return .object promise : Eval Value) m
        else .finished (.value (.object promise) m) := by
    unfold Library.subscribe
    rw [Eval.read_bind, Option.getD_some, hstatus]
    by_cases hkind : kind = settlementOf outcome
    · rw [if_pos hkind, hkind]
      simp only [beq_self_eq_true, if_true]
      rw [Eval.read_bind, hvalue]
      rfl
    · have hother : ((settlementOf outcome).status == kind.status) = false :=
        beq_false_of_ne fun heq => hkind (Settlement.status_injective heq).symm
      have hpending : ((settlementOf outcome).status == pendingStatus) = false :=
        beq_false_of_ne (Settlement.status_ne_pending _)
      rw [if_neg hkind]
      simp only [hother, hpending]
      rfl
  cases method with
  | onResolve => exact hsubscribe .resolved
  | onReject => exact hsubscribe .rejected

/-- What holds of promises on a machine that may come up, as long as scripts do not meddle with
them.

* A promise can be made at any time. It is pending, and its ticket is the next one.
* Tickets are never reused: the last one only grows, and a ticket that has been handed out is never
  registered for anything that it was not registered for before.
* A ticket is registered for a promise exactly while the promise is pending: at any later time it
  either still is, or the ticket is spent and the promise is settled one way. Then the promise has
  this status and this value and no callbacks at any time after that.
* Settling by a ticket that is registered settles the promise and calls the callbacks of the one
  queue; settling by any other changes nothing.
* A method of a settled promise calls its callback at once and only once with the value, or not at
  all if the promise is settled the other way. -/
theorem promises_leave_pending_once {settings : Settings} {m : Machine}
    (h : (Machine.fresh settings).Later m) :
    (∃ promise m', newPromise m = .finished (.value (m.promises.lastTicket + 1, promise) m') ∧
      m.Later m' ∧ m'.promises.lastTicket = m.promises.lastTicket + 1 ∧
      m'.Awaited (m.promises.lastTicket + 1) promise) ∧
    (∀ m', m.Later m' → m.promises.lastTicket ≤ m'.promises.lastTicket ∧
      ∀ ticket ≤ m.promises.lastTicket, ∀ promise,
        m'.promises.pending.lookup ticket = some promise →
          m.promises.pending.lookup ticket = some promise) ∧
    (∀ ticket promise, m.promises.pending.lookup ticket = some promise →
      ticket ≤ m.promises.lastTicket ∧ ∀ m', m.Later m' → m'.Awaited ticket promise ∨
        ∃ outcome, ∀ m'', m'.Later m'' → Settled m'' ticket promise outcome) ∧
    (∀ ticket promise, m.promises.pending.lookup ticket = some promise → ∀ call outcome,
      ∃ queue m', m.heap.field? promise (settlementOf outcome).queue = some (.array queue) ∧
        Settled m' ticket promise outcome ∧
        settle call ticket outcome m =
          callEach call (settledValue outcome) (m.heap.array queue).toList m') ∧
    (∀ ticket, m.promises.pending.lookup ticket = none → ∀ call outcome,
      settle call ticket outcome m = .finished (.value () m)) ∧
    (∀ ticket promise outcome, Settled m ticket promise outcome → ∀ call method callback,
      promiseMethod call method (some (.object promise)) [callback] m =
        if kindOf method = settlementOf outcome then
          (do discard (call callback [settledValue outcome]); return .object promise : Eval Value) m
        else .finished (.value (.object promise) m)) := by
  obtain ⟨hm, -⟩ := h.grows (Machine.fresh_inOrder settings)
  refine ⟨⟨⟨m.heap.instances.size⟩, promised m, newPromise_eq m, ?_, rfl, ?_⟩, fun m' hlater => ?_,
    fun ticket promise hticket => ⟨hm.numbered hticket, fun m' hlater => ?_⟩,
    fun ticket promise hticket call outcome => ?_,
    fun ticket hticket _ => settle_unregistered hticket,
    fun ticket promise outcome hsettled => hsettled.promiseMethod⟩
  · exact Machine.later_promised m
  · exact ((Machine.advances_promised hm).inOrder hm).awaited
      ((hm.lookup_promised _).trans (if_pos rfl))
  · obtain ⟨-, hgrows⟩ := hlater.grows hm
    exact ⟨hgrows.lastTicket, fun ticket hle promise => hgrows.old hle⟩
  · obtain ⟨hm', hgrows⟩ := hlater.grows hm
    rcases hgrows.registered hticket with hkept | ⟨hnone, hp, outcome, hconcluded⟩
    · exact .inl (hm'.awaited hkept)
    · refine .inr ⟨outcome, fun m'' hlater' => ?_⟩
      obtain ⟨-, hgrows'⟩ := hlater'.grows hm'
      refine (hgrows'.concluded hp hconcluded).2.settled ?_
      by_contra hsome
      obtain ⟨other, hother⟩ := Option.ne_none_iff_exists'.1 hsome
      have hold := hgrows'.old ((hm.numbered hticket).trans hgrows.lastTicket) hother
      exact absurd (hold.symm.trans hnone) nofun
  · obtain ⟨queue, items, hqueue, -⟩ :=
      (hm.awaited hticket).pending.queues (settlementOf outcome)
    exact ⟨queue, m.settling ticket promise outcome queue, hqueue,
      Machine.settled_settling (Heap.isSome_instance?_of_field? hqueue),
      settle_eq hticket hqueue call⟩

/-- The first promise of a program is settled when the reply is there. A late reply changes nothing,
and whoever asks then is told at once. -/
theorem first_promise_settled_once : ∃ promise m m', (Machine.fresh .default).Later m ∧
    m.Awaited 1 promise ∧ m.Later m' ∧ Settled m' 1 promise (.ok "body") ∧
    settle (Evaluator.bounded 1).call 1 (.error "late") m' = .finished (.value () m') ∧
    ∀ call callback, promiseMethod call .onResolve (some (.object promise)) [callback] m' =
      (do discard (call callback [.text "body"]); return .object promise : Eval Value) m' := by
  have hmade := Machine.later_promised (.fresh .default)
  have hticket : (promised (.fresh .default)).promises.pending.lookup 1 =
      some ⟨(Machine.fresh .default).heap.instances.size⟩ := rfl
  have hqueue := field?_promised_queue (.fresh .default) .resolved
  have hsettled := Machine.later_settling (.ok "body") hticket hqueue
    (Heap.array_of_getElem? (getElem?_promised_queue _ .resolved))
  obtain ⟨-, -, hregistered, -⟩ := promises_leave_pending_once hmade
  obtain ⟨-, -, -, -, hspent, hmethod⟩ := promises_leave_pending_once (hmade.trans hsettled)
  have hdone : Settled ((promised (.fresh .default)).settling 1 _ (.ok "body")
      (nextQueue (Machine.fresh .default).heap .resolved)) 1 _ (.ok "body") :=
    Machine.settled_settling (Heap.isSome_instance?_of_field? hqueue)
  refine ⟨_, _, _, hmade, ?_, hsettled, hdone, hspent 1 hdone.ticket _ _, fun call callback => ?_⟩
  · refine ((hregistered 1 _ hticket).2 _ .refl).resolve_right fun ⟨outcome, hgone⟩ => ?_
    exact absurd ((hgone _ .refl).ticket.symm.trans hticket) nofun
  · exact hmethod 1 _ _ hdone call .onResolve callback

end ScriptEngine
