import ScriptEngine.Engine.Loop
import ScriptEngine.Proofs.Library.Serving

/-!
# What the event loop does to requests

The loop queues the requests that have arrived and hands them out one by one. Programs, timers,
tasks and turns of the loop all have accounts, every account is a run of the program's desk, and
the end of the program, which lets go of everything, continues it.
-/
namespace ScriptEngine
open Eval Desk

variable {call : Library.Caller} {ev : Evaluator}

/-! Tasks -/

theorem takeCallbacks_follows {C : Course} (queue : Option Value) :
    Follows C (Library.takeCallbacks queue) := by
  unfold Library.takeCallbacks
  split
  · exact Follows.bind (Follows.read _) fun _ =>
      Follows.bind (Follows.withHeap _) fun _ => Follows.pure _
  · exact Follows.pure _

theorem settle_follows {call' : Library.Caller}
    (hcall : ∀ callee args, Follows (course call) (call' callee args)) (ticket : Nat)
    (outcome : Fetched) : Follows (course call) (Library.settle call' ticket outcome) := by
  have htake : Follows (course call) (Library.takePromise ticket) := follows_change fun _ => rfl
  unfold Library.settle
  refine Follows.bind htake fun promise => ?_
  cases promise with
  | none => exact Follows.pure _
  | some promise =>
    have hcalls (callbacks : List Value) (value : Value) : Follows (course call)
        (Eval.forEach (fun callback => do discard (call' callback [value])) callbacks) :=
      Follows.forEach (fun callback => Follows.discard (hcall _ _)) callbacks
    dsimp only
    split
    all_goals
      refine Follows.bind (Follows.setField _ _ _) fun _ => ?_
      refine Follows.bind (Follows.setField _ _ _) fun _ => ?_
      refine Follows.bind (Follows.read _) fun queue => ?_
      refine Follows.bind (takeCallbacks_follows queue) fun callbacks => ?_
      refine Follows.bind (Follows.newArray _) fun _ => ?_
      refine Follows.bind (Follows.setField _ _ _) fun _ => ?_
      refine Follows.bind (Follows.newArray _) fun _ => ?_
      exact Follows.bind (Follows.setField _ _ _) fun _ => hcalls callbacks _

/-- Tasks other than requests. -/
theorem runTask_follows (hev : ev.Follows (course call)) {t : Task} (ht : t.connection? = none) :
    Follows (course call) (runTask ev t) := by
  cases t with
  | settle ticket outcome => exact settle_follows hev.call ticket outcome
  | dispatch => cases ht
  | callGlobal name args =>
    exact Follows.bind (Follows.lookup? _ _) fun _ => Follows.discard (hev.call _ _)
  | evaluate e => exact Follows.discard (hev.eval e .global)

theorem reportOrEnd_follows {C : Course} (f : Failure) : Follows C (reportOrEnd f) := by
  unfold reportOrEnd
  grind

theorem isolated_follows {C : Course} {x : Eval Unit} (hx : Follows C x) :
    Follows C (isolated x) := by
  refine Follows.bind (Follows.attempt hx) fun outcome => ?_
  cases outcome with
  | ok => exact Follows.pure _
  | error signal => exact Follows.bind (Follows.read _) reportOrEnd_follows

theorem rearm_tasks (l : EventLoop Value Task) (now : Nat) (t : Timer Value) :
    (l.rearm now t).tasks = l.tasks := by
  unfold EventLoop.rearm
  split
  · rfl
  · split <;> rfl

theorem fireTimer_follows (hev : ev.Follows (course call)) (t : Timer Value) :
    Follows (course call) (fireTimer ev t) := by
  refine Follows.bind (Follows.attempt (hev.call _ _)) fun outcome => ?_
  refine Follows.bind Library.now_follows fun time => ?_
  refine Follows.bind (follows_update fun m => ?_) fun _ => ?_
  · exact congrArg (Desk.mk m.servers) (by rw [rearm_tasks])
  · cases outcome with
    | ok => exact Follows.pure _
    | error signal => exact Follows.stop signal

/-! The loop -/

/-- Polling takes a request off the queue when it hands one out. -/
theorem poll_connections (l : EventLoop Value Task) (now : Nat) :
    l.tasks.filterMap Task.connection? =
      (l.poll now).1.connections ++ (l.poll now).2.tasks.filterMap Task.connection? := by
  unfold EventLoop.poll
  split
  · rfl
  · split
    next t tasks htasks =>
      rw [htasks, List.filterMap_cons]
      cases ht : t.connection? <;> simp [EventLoop.Ready.connections, ht]
    next htasks => split <;> rfl

/-- What has arrived is queued in order. -/
theorem receive_connections (found : List Arrival) (l : EventLoop Value Task) :
    (found.foldl EventLoop.receive l).tasks.filterMap Task.connection? =
      l.tasks.filterMap Task.connection? ++ found.filterMap Arrival.connection? := by
  induction found generalizing l with
  | nil => simp
  | cons a found ih =>
    rw [List.foldl_cons, ih]
    cases a with
    | request l request c =>
      simp [EventLoop.receive, EventLoop.post, Task.connection?, Arrival.connection?]
    | fetched | posted =>
      simp only [EventLoop.receive, EventLoop.complete, EventLoop.post, List.filterMap_append,
        List.append_assoc]
      rfl

theorem run_arrived (t : ServerTable) (q found : List ConnectionRef) :
    Run ⟨t, q⟩ (found.map .arrived) [] ⟨t, q ++ found⟩ := by
  induction found generalizing q with
  | nil => simpa using Run.refl _
  | cons c found ih => simpa using Run.step (.arrived c) (ih (q ++ [c]))

theorem run_handed (t : ServerTable) (found q : List ConnectionRef) :
    Run ⟨t, found ++ q⟩ (found.map .handed) [] ⟨t, q⟩ := by
  induction found with
  | nil => exact Run.refl _
  | cons c found ih => simpa using Run.step (.handed c) ih

theorem arrived_handed (found : List ConnectionRef) : arrived (found.map .handed) = [] := by
  induction found with
  | nil => rfl
  | cons c found ih => exact ih

theorem arrived_map (found : List ConnectionRef) : arrived (found.map .arrived) = found := by
  induction found with
  | nil => rfl
  | cons c found ih => exact congrArg (c :: ·) ih

theorem nextReady_run {m : Machine} {log : List Exchange}
    {r : Ending (EventLoop.Ready Value Task)} (h : (nextReady m).Run log r) : ∃ time found,
      log = [⟨.outer .now, time⟩, ⟨.arrivals, found⟩] ∧
      r = .value ((found.foldl EventLoop.receive m.loop).poll time).1
        { m with loop := ((found.foldl EventLoop.receive m.loop).poll time).2 } := by
  cases h with
  | asking time h =>
    cases h with
    | asking found h =>
      cases h
      exact ⟨time, found, rfl, rfl⟩

/-- What is queued in a turn is what has arrived, and what is handed out leaves the queue. -/
theorem nextReady_account {m : Machine} {log : List Exchange}
    {r : Ending (EventLoop.Ready Value Task)} (h : (nextReady m).Run log r) :
    ∃ ready m', r = .value ready m' ∧ Account call m log
      ((arrivalsIn log).map .arrived ++ ready.connections.map .handed) m' := by
  obtain ⟨time, found, rfl, rfl⟩ := nextReady_run h
  exact ⟨_, _, rfl, .polled h⟩

theorem prompt_arrived (found : List ConnectionRef) : Prompt (found.map .arrived) := by
  refine .quiet fun e he => ?_
  obtain ⟨c, -, rfl⟩ := List.mem_map.1 he
  exact ⟨rfl, rfl⟩

theorem loopTurn_follows (hev : ev.Follows (course ev.call)) :
    Follows (course ev.call) (loopTurn ev) := by
  intro m log r hrun m' hm'
  obtain ⟨first, e, last, rfl, hfirst, hlast⟩ := run_bind.1 hrun
  obtain ⟨ready, m₁, rfl, hpolled⟩ := nextReady_account hfirst
  have harrived := prompt_arrived (arrivalsIn first)
  have hrest {x : Eval Bool} (hx : Follows (course ev.call) x) (hnone : ready.connections = [])
      (hrun : (x m₁).Run last r) : (course ev.call).leads m (first ++ last) m' := by
    obtain ⟨es, h, hprompt⟩ := hx hrun m' hm'
    rw [hnone, List.map_nil, List.append_nil] at hpolled
    exact ⟨_, hpolled.append h, harrived.append hprompt⟩
  cases ready with
  | timer t =>
    exact hrest (Follows.bind (isolated_follows (fireTimer_follows hev t)) fun _ => Follows.pure _)
      rfl hlast
  | idle => exact hrest (Follows.pure _) rfl hlast
  | wait deadline =>
    exact hrest (Follows.bind (follows_ask (fun _ => rfl) fun _ => rfl) fun _ => Follows.pure _)
      rfl hlast
  | task t =>
    cases hc : t.connection? with
    | none =>
      have htask := isolated_follows (runTask_follows hev hc)
      refine hrest (Follows.bind htask fun _ => Follows.pure _) ?_ hlast
      simp [EventLoop.Ready.connections, hc]
    | some c =>
      cases t with
      | settle | callGlobal | evaluate => cases hc
      | dispatch reference request c' =>
        obtain rfl := Option.some.inj hc
        obtain ⟨taking, e, rest, rfl, htaking, hend⟩ := run_bind.1 hlast
        have hover : rest = [] ∧ m' ∈ e.machine? := by
          cases e with
          | value | stopped =>
            cases hend
            exact ⟨rfl, hm'⟩
          | exhausted =>
            cases hend
            cases hm'
        obtain ⟨dispatching, e', m₂, reporting, rfl, he', hm₂, hreport⟩ :=
          Follows.after_attempt (C := course ev.call) (fun outcome => by
            cases outcome with
            | ok => exact Follows.pure _
            | error signal => exact Follows.bind (Follows.read _) reportOrEnd_follows)
            htaking hover.2
        obtain ⟨e, es, h, htaken, hprompt⟩ := Library.dispatch_account hev.call he' hm₂
        obtain ⟨fs, h', hprompt'⟩ := hreport
        rw [hover.1, List.append_nil]
        refine ⟨_, hpolled.append (h.append h'), ?_⟩
        -- A request is handed out and taken up at once.
        have hturn := (Prompt.turn htaken).append (hprompt.append hprompt')
        rw [List.append_assoc]
        exact harrived.append hturn

theorem runLoop_follows (n : Nat) :
    Follows (course (Evaluator.bounded n).call) (runLoop n) :=
  Follows.repeatWhile (loopTurn_follows (bounded_follows (Desk.conduct _) n)) n

theorem interpret_follows (n : Nat) (program : Program) :
    Follows (course call) (interpret n program) := by
  have hev := bounded_follows (Desk.conduct call) n
  refine Follows.forEach (fun s => ?_) program
  refine Follows.bind (Follows.attempt (hev.exec s .global)) fun o => ?_
  cases o with
  | ok => exact Follows.pure _
  | error signal =>
    refine Follows.bind (Follows.read _) fun f => ?_
    grind

/-! Accounts as runs of the desk -/

namespace Desk

variable {d d₁ d₂ : Desk} {es fs : List Event} {log first last : List Exchange}

/-- The desk goes on with this history while the log is written. -/
structure Serves (d : Desk) (log : List Exchange) (es : List Event) (d' : Desk) : Prop where
  run : Run d es (repliesIn log) d'
  arrivals : arrived es = arrivalsIn log
  /-- After each exchange the history has come as far as the log. -/
  cut {first last : List Exchange} : log = first ++ last → ∃ past later d₁,
    es = past ++ later ∧ Run d past (repliesIn first) d₁ ∧ arrived past = arrivalsIn first

theorem Serves.trans (h : Serves d first es d₁) (h' : Serves d₁ last fs d₂) :
    Serves d (first ++ last) (es ++ fs) d₂ where
  run := by
    rw [repliesIn_append]
    exact h.run.trans h'.run
  arrivals := by rw [arrivalsIn_append, arrived_append, h.arrivals, h'.arrivals]
  cut heq := by
    rcases List.append_eq_append_iff.1 heq with ⟨mid, rfl, rfl⟩ | ⟨mid, rfl, rfl⟩
    · obtain ⟨past, later, d₃, rfl, hrun, harrived⟩ := h'.cut rfl
      refine ⟨es ++ past, later, d₃, (List.append_assoc ..).symm, ?_, ?_⟩
      · rw [repliesIn_append]
        exact h.run.trans hrun
      · rw [arrivalsIn_append, arrived_append, h.arrivals, harrived]
    · obtain ⟨past, later, d₃, rfl, hrun, harrived⟩ := h.cut rfl
      exact ⟨past, later ++ fs, d₃, List.append_assoc .., hrun, harrived⟩

/-- Nothing happens to the desk. -/
theorem Serves.rest (d : Desk) (hreplies : repliesIn log = [])
    (harrivals : arrivalsIn log = []) : Serves d log [] d where
  run := hreplies ▸ .refl d
  arrivals := harrivals.symm
  cut heq := by
    rw [heq, repliesIn_append] at hreplies
    rw [heq, arrivalsIn_append] at harrivals
    refine ⟨[], [], d, rfl, ?_, (List.append_eq_nil_iff.1 harrivals).1.symm⟩
    rw [(List.append_eq_nil_iff.1 hreplies).1]
    exact .refl d

/-- What happens at one exchange, or between two of them. -/
theorem Serves.atOnce (h : Run d es (repliesIn log) d₁) (harrived : arrived es = arrivalsIn log)
    (hlog : log.length ≤ 1) : Serves d log es d₁ where
  run := h
  arrivals := harrived
  cut {first last} heq := by
    cases first with
    | nil => exact ⟨[], es, d, rfl, .refl d, rfl⟩
    | cons x first =>
      obtain rfl : last = [] := by
        apply List.eq_nil_of_length_eq_zero
        simp only [heq, List.length_append, List.length_cons] at hlog
        omega
      obtain rfl : log = x :: first := by simpa using heq
      exact ⟨es, [], d₁, (List.append_nil es).symm, h, harrived⟩

theorem Serves.single {e : Event} (h : Step d e (repliesIn log) d₁)
    (harrived : arrived [e] = arrivalsIn log) (hlog : log.length ≤ 1) : Serves d log [e] d₁ :=
  .atOnce (.single h) harrived hlog

/-- Something happens first, at which nothing is said. -/
theorem Serves.after {e : Event} (h' : Serves d₁ log es d₂) (h : Step d e [] d₁)
    (harrived : arrived [e] = []) : Serves d log (e :: es) d₂ := by
  have hfirst : Serves d [] [e] d₁ := .single h harrived (Nat.zero_le _)
  exact hfirst.trans h'

/-- Polling queues what has arrived and may take a request off the queue. -/
theorem nextReady_serves {ready : EventLoop.Ready Value Task} {m m' : Machine}
    (h : (nextReady m).Run log (.value ready m')) :
    Serves m.desk log ((arrivalsIn log).map .arrived ++ ready.connections.map .handed)
      m'.desk := by
  obtain ⟨time, found, rfl, heq⟩ := nextReady_run h
  cases heq
  have hqueue : m.loop.tasks.filterMap Task.connection? ++
      found.filterMap Arrival.connection? = _ :=
    (receive_connections found m.loop).symm.trans (poll_connections _ time)
  have hrun := run_arrived m.servers (m.loop.tasks.filterMap Task.connection?)
    (found.filterMap Arrival.connection?)
  rw [hqueue] at hrun
  have harrivals : arrivalsIn [⟨.outer .now, time⟩, ⟨.arrivals, found⟩] =
      found.filterMap Arrival.connection? := arrivalsIn_singleton ⟨.arrivals, found⟩
  have htime : Serves m.desk [⟨.outer .now, time⟩] [] m.desk := .rest _ rfl rfl
  have harrived (ready : EventLoop.Ready Value Task) :
      arrived ((found.filterMap Arrival.connection?).map .arrived ++
        ready.connections.map .handed) = arrivalsIn [⟨.arrivals, found⟩] := by
    rw [arrived_append, arrived_map, arrived_handed, List.append_nil]
    exact (arrivalsIn_singleton ⟨.arrivals, found⟩).symm
  rw [harrivals]
  exact htime.trans (.atOnce (hrun.trans (run_handed m.servers _ _)) (harrived _)
    (Nat.le_refl _))

/-- Answering is an attempt to answer. -/
theorem respond_serves (a : Attempt) {id : Nat} {answered : Bool} {m m' : Machine}
    (h : (Library.respond id a.status a.body m).Run log (.value answered m')) :
    Serves m.desk log [.tried a id answered] m'.desk := by
  obtain ⟨heq, hreplies, harrivals, hlog⟩ := Library.respond_run h
  cases heq
  refine .single ?_ harrivals.symm hlog
  rw [hreplies]
  exact .tried a id

/-- An account is a run of the desk. -/
theorem Account.serves {m m' : Machine} (h : Account call m log es m') :
    Serves m.desk log es m'.desk := by
  induction h with
  | rest hdesk hreplies harrivals =>
    rw [hdesk]
    exact .rest _ hreplies harrivals
  | append _ _ ih ih' => exact ih.trans ih'
  | @opened port actual reference handler v m m' hrun =>
    obtain ⟨_, _, -, heq⟩ | ⟨_, _, _, _, hlog, heq, hdesk⟩ := Library.listen_run hrun
    · cases heq
    · cases hlog
      cases heq
      rw [hdesk]
      exact .single (.opened ⟨handler, reference, .new⟩) rfl (Nat.le_refl _)
  | closed hid hrun =>
    obtain ⟨_, heq, hdesk, hreplies, harrivals, hlog⟩ := Library.closeServer_run hid hrun
    obtain ⟨hclosed, rfl⟩ := Ending.value.inj heq
    obtain ⟨l, hl⟩ := Option.isSome_iff_exists.1 (Value.bool.inj hclosed).symm
    rw [hdesk]
    refine .single ?_ harrivals.symm hlog
    rw [hreplies]
    exact .closed hl
  | sent hid hrun =>
    obtain ⟨_, _, heq, hrespond⟩ := Library.sendReply_run hid hrun
    cases heq
    exact respond_serves (.send _ _) hrespond
  | polled hrun => exact nextReady_serves hrun
  | refused c hgone => exact .single (.refused c hgone) rfl (Nat.le_refl _)
  | handled hhandler hdesk _ _ _ ih =>
    rw [hdesk] at ih
    exact ih.after (.dispatched _ hhandler) rfl
  | failed hhandler hdesk _ _ _ hfailure ih =>
    rw [hdesk] at ih
    exact (ih.trans (respond_serves .failure hfailure)).after (.dispatched _ hhandler) rfl

end Desk

/-! The end -/

/-- What the end of a program does at its desk: servers are closed and requests are dropped. -/
def Desk.drops (m : Machine) : List Event :=
  m.servers.listeners.map (fun s => .closed s.1) ++
    m.servers.held.map fun r => .tried .drop r.1 true

/-- A loop over a list whose rounds return, from one condition on what is left to the next. -/
theorem forEach_serves {α : Type} {f : α → Eval Unit} {g : α → Event}
    {P : List α → Machine → Prop}
    (hf : ∀ {a rest m log r}, P (a :: rest) m → (f a m).Run log r →
      ∃ m', r = .value () m' ∧ P rest m' ∧ Serves m.desk log [g a] m'.desk)
    {xs : List α} {m : Machine} {log : List Exchange} {r : Ending Unit} (hm : P xs m)
    (h : (Eval.forEach f xs m).Run log r) :
    ∃ m', r = .value () m' ∧ P [] m' ∧ Serves m.desk log (xs.map g) m'.desk := by
  induction xs generalizing m log r with
  | nil =>
    cases h
    exact ⟨m, rfl, hm, .rest _ rfl rfl⟩
  | cons a xs ih =>
    rw [Eval.forEach, foldList_cons] at h
    obtain ⟨first, e, last, rfl, hfirst, hlast⟩ := Dialogue.run_bind.1 h
    obtain ⟨m₁, rfl, hm₁, hserves⟩ := hf hm hfirst
    obtain ⟨m', rfl, hm', hserves'⟩ := ih hm₁ hlast
    exact ⟨m', rfl, hm', hserves.trans hserves'⟩

theorem run_discard {α : Type} {x : Eval α} {m : Machine} {log : List Exchange} {r : Ending Unit}
    (h : (Functor.discard x m).Run log r) : ∃ e, (x m).Run log e ∧
      ∀ a m', e = .value a m' → r = .value () m' := by
  obtain ⟨first, e, last, rfl, hfirst, hlast⟩ := run_bind.1 h
  cases e with
  | value a m' =>
    cases hlast
    rw [List.append_nil]
    exact ⟨_, hfirst, fun _ _ heq => by cases heq; rfl⟩
  | stopped | exhausted =>
    cases hlast
    rw [List.append_nil]
    exact ⟨_, hfirst, fun _ _ heq => by cases heq⟩

/-- The first of several numbers is found, and taking it out leaves the others. -/
theorem lookup_first {α : Type} {xs : List (Nat × α)} {k : Nat} {ks : List Nat}
    (h : xs.map Prod.fst = k :: ks) (hnodup : (k :: ks).Nodup) :
    (xs.lookup k).isSome = true ∧ (xs.filter fun x => x.1 != k).map Prod.fst = ks := by
  cases xs with
  | nil => cases h
  | cons x xs =>
    obtain ⟨rfl, rfl⟩ := List.cons.inj h
    refine ⟨by simp, ?_⟩
    have hothers : xs.filter (fun y => y.1 != x.1) = xs := by
      refine List.filter_eq_self.2 fun y hy => bne_iff_ne.2 fun heq => ?_
      exact (List.nodup_cons.1 hnodup).1 (heq ▸ List.mem_map_of_mem hy)
    rw [List.filter_cons_of_neg (by simp), hothers]

theorem closeLinks_serves {links : List LinkRef} {m : Machine} {log : List Exchange}
    {r : Ending Unit} (h : (Eval.forEach Library.closeLink links m).Run log r) :
    r = .value () m ∧ Serves m.desk log [] m.desk := by
  induction links generalizing log r with
  | nil =>
    cases h
    exact ⟨rfl, .rest _ rfl rfl⟩
  | cons l links ih =>
    rw [Eval.forEach, foldList_cons] at h
    obtain ⟨first, e, last, rfl, hfirst, hlast⟩ := Dialogue.run_bind.1 h
    cases hfirst with
    | asking _ hfirst =>
      cases hfirst
      obtain ⟨rfl, hserves⟩ := ih hlast
      exact ⟨rfl, .trans (.rest _ rfl rfl) hserves⟩

/-- Servers are closed one after the other. -/
theorem stopServers_serves {m : Machine} {log : List Exchange} {r : Ending Unit}
    (h : (Eval.forEach (fun id => do discard (Library.stopServer id))
      (m.servers.listeners.map Prod.fst) m).Run log r) (hsound : m.servers.Sound) :
    ∃ m', r = .value () m' ∧ m'.servers.held = m.servers.held ∧
      Serves m.desk log (m.servers.listeners.map fun s => .closed s.1) m'.desk := by
  obtain ⟨m', rfl, ⟨-, -, hheld⟩, hserves⟩ := forEach_serves (g := .closed)
    (P := fun ids m' => m'.servers.listeners.map Prod.fst = ids ∧ ids.Nodup ∧
      m'.servers.held = m.servers.held)
    (fun {id rest m₁ log r} ⟨hids, hnodup, hheld⟩ h => by
      obtain ⟨e, he, hr⟩ := run_discard h
      obtain ⟨m₂, rfl, hdesk, hreplies, harrivals, hlog⟩ := Library.stopServer_run he
      obtain ⟨hlookup, hrest⟩ := lookup_first hids hnodup
      obtain ⟨l, hl⟩ := Option.isSome_iff_exists.1 hlookup
      have hservers : m₂.servers = (m₁.servers.remove id).2 := congrArg Desk.servers hdesk
      refine ⟨m₂, hr _ _ rfl, ⟨?_, hnodup.of_cons, ?_⟩, ?_⟩
      · rw [hservers]
        exact hrest
      · rw [hservers]
        exact hheld
      · rw [hdesk]
        refine .single ?_ harrivals.symm hlog
        rw [hreplies]
        exact .closed hl)
    ⟨rfl, hsound.listeners_nodup, rfl⟩ h
  rw [List.map_map] at hserves
  exact ⟨m', rfl, hheld, hserves⟩

/-- Requests are dropped one after the other. -/
theorem dropRequests_serves {m : Machine} {log : List Exchange} {r : Ending Unit}
    (h : (Eval.forEach (fun id => do discard (Library.respond id 500 shutDown.droppedBody))
      (m.servers.held.map Prod.fst) m).Run log r) (hnodup : (m.servers.held.map Prod.fst).Nodup) :
    ∃ m', r = .value () m' ∧ m'.servers.held = [] ∧
      Serves m.desk log (m.servers.held.map fun r => .tried .drop r.1 true) m'.desk := by
  obtain ⟨m', rfl, ⟨hnone, -⟩, hserves⟩ := forEach_serves
    (g := fun id => .tried .drop id true)
    (P := fun ids m' => m'.servers.held.map Prod.fst = ids ∧ ids.Nodup)
    (fun {id rest m₁ log r} ⟨hids, hnodup⟩ h => by
      obtain ⟨e, he, hr⟩ := run_discard h
      obtain ⟨hanswered, hrest⟩ := lookup_first hids hnodup
      obtain ⟨rfl, -⟩ := Library.respond_run he
      refine ⟨_, hr _ _ rfl, ⟨hrest, hnodup.of_cons⟩, ?_⟩
      have hserves := respond_serves .drop he
      rwa [show (m₁.servers.take id).1.isSome = true from hanswered] at hserves)
    ⟨rfl, hnodup⟩ h
  rw [List.map_map] at hserves
  exact ⟨m', rfl, List.map_eq_nil_iff.1 hnone, hserves⟩

/-- The end of a program lets go of all it holds. -/
theorem shutDown_serves {m : Machine} {log : List Exchange} {r : Ending Unit}
    (hsound : m.servers.Sound) (h : (shutDown m).Run log r) :
    ∃ m', r = .value () m' ∧ m'.servers.held = [] ∧ Serves m.desk log (drops m) m'.desk := by
  obtain ⟨links, _, log₁, rfl, h₁, h⟩ := run_bind.1 h
  cases h₁
  obtain ⟨_, _, log₂, rfl, hlinks, h⟩ := run_bind.1 h
  obtain ⟨rfl, hserves₁⟩ := closeLinks_serves hlinks
  rw [Eval.andThen, read_bind] at h
  obtain ⟨_, _, log₃, rfl, hservers, h⟩ := run_bind.1 h
  obtain ⟨m₂, rfl, hheld, hserves₂⟩ := stopServers_serves hservers hsound
  rw [Eval.andThen, read_bind] at h
  obtain ⟨m₃, rfl, hnone, hserves₃⟩ := dropRequests_serves h (hheld ▸ hsound.held_nodup)
  rw [hheld] at hserves₃
  exact ⟨m₃, rfl, hnone, hserves₁.trans (hserves₂.trans hserves₃)⟩

end ScriptEngine
