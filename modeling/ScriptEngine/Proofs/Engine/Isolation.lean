import ScriptEngine.Proofs.Concurrency.LoopRun
import ScriptEngine.Proofs.Engine.Handouts
import ScriptEngine.Proofs.Evaluation.Quiet

/-!
# Failing callbacks

A timer or task that fails costs one line on the diagnostic stream and nothing else: callbacks and
the loop do not depend on that stream, so the loop goes on as if there had been no failure.
-/
namespace ScriptEngine
open Eval

/-! What the loop does apart from its reports -/

variable {ev : Evaluator}

theorem nextReady_quiet : Quiet nextReady := by
  unfold nextReady
  refine Quiet.bind (Quiet.askOuter rfl) fun time => ?_
  exact Quiet.bind (Quiet.ask rfl) fun arrivals => Quiet.change fun _ _ => rfl

theorem nextReady_apart {m m₁ : Machine} {log : List Exchange}
    {ready : EventLoop.Ready Value Task} (h : (nextReady m).Run log (.value ready m₁)) :
    reportsIn log = [] ∧ m₁.diagnostics = m.diagnostics ∧ ∀ d,
      (nextReady { m with diagnostics := d }).Run log
        (.value ready { m₁ with diagnostics := d }) := by
  obtain ⟨hnone, hsame, hrun⟩ := nextReady_quiet.run h
  exact ⟨hnone, hsame m₁ rfl, hrun⟩

theorem fireTimer_quiet (hev : ev.Quiet) (t : Timer Value) : Quiet (fireTimer ev t) := by
  unfold fireTimer
  refine Quiet.bind (Quiet.attempt (hev.call _ _)) fun outcome => ?_
  refine Quiet.bind (Quiet.askOuter rfl) fun time => ?_
  refine Quiet.bind (Quiet.update fun _ _ => rfl) fun _ => ?_
  cases outcome with
  | ok v => exact Quiet.pure ()
  | error s => exact Quiet.stop s

theorem runTask_quiet (hev : ev.Quiet) (t : Task) : Quiet (runTask ev t) := by
  cases t with
  | settle ticket outcome => exact Library.settle_quiet hev.call ticket outcome
  | dispatch listener request connection =>
    exact Library.dispatch_quiet hev.call listener request connection
  | callGlobal name args =>
    exact Quiet.bind (Quiet.lookup? _ _) fun callee => Quiet.discard (hev.call _ _)
  | evaluate e => exact Quiet.discard (hev.eval e .global)

theorem Handout.eval_quiet (hev : ev.Quiet) (x : Handout) : Quiet (x.eval ev) := by
  cases x with
  | timer t => exact fireTimer_quiet hev t
  | task t => exact runTask_quiet hev t

/-! Reports -/

/-- The lines that report how something ended: one if it failed, unless that is the end of the
program. -/
def reportLines (f : Option Failure) : List String :=
  (f.toList.filter Failure.isCatchable).map Failure.line

theorem reportLines_none : reportLines none = [] := rfl

theorem reportLines_exit (code : Int) : reportLines (some (.exit code)) = [] := rfl

theorem reportLines_some {f : Failure} (hf : f.isCatchable) : reportLines (some f) = [f.line] := by
  simp [reportLines, hf]

/-- The reports of all that was handed out. -/
def reportsOf (xs : List Outcome) : List String := xs.flatMap fun x => reportLines x.2

theorem reportsOf_nil : reportsOf [] = [] := rfl

theorem reportsOf_cons (x : Outcome) (xs : List Outcome) :
    reportsOf (x :: xs) = reportLines x.2 ++ reportsOf xs := rfl

theorem reportsOf_single (x : Outcome) : reportsOf [x] = reportLines x.2 := List.append_nil _

namespace Sink

@[simp]
theorem passedOn_nil (d : Sink) : d.passedOn [] = [] := by
  cases d <;> rfl

theorem passedOn_append (d : Sink) (lines more : List String) :
    d.passedOn (lines ++ more) = d.passedOn lines ++ d.passedOn more := by
  cases d <;> rfl

@[simp]
theorem keeping_nil (d : Sink) : d.keeping [] = d := by
  cases d <;> simp [keeping]

theorem keeping_append (d : Sink) (lines more : List String) :
    d.keeping (lines ++ more) = (d.keeping lines).keeping more := by
  cases d <;> simp [keeping, String.join_append, String.append_assoc]

@[simp]
theorem passedOn_keeping (d : Sink) (lines more : List String) :
    (d.keeping lines).passedOn more = d.passedOn more := by
  cases d <;> rfl

end Sink

theorem reportsIn_written (lines : List String) :
    reportsIn (lines.map fun line => ⟨.outer (.write .diagnostics line), ()⟩) = lines := by
  induction lines with
  | nil => rfl
  | cons line lines ih => exact congrArg (line :: ·) ih

variable {x : Eval Unit} {m : Machine} {log : List Exchange} {f : Option Failure}
  {e : Ending Unit}

/-- Of a callback that is quiet, only the report of its failure is seen. -/
theorem Isolated.reports (hx : Quiet x) (h : Isolated x m log f e) :
    reportsIn log = m.diagnostics.passedOn (reportLines f) ∧
      ∀ m' ∈ e.machine?, m'.diagnostics = m.diagnostics.keeping (reportLines f) := by
  cases h with
  | returned h | exhausted h =>
    obtain ⟨hnone, hsame, -⟩ := hx.run h
    exact ⟨hnone.trans (Sink.passedOn_nil _).symm,
      fun m' hm' => (hsame m' hm').trans (Sink.keeping_nil _).symm⟩
  | @reported log said s m₁ m' h hf hr =>
    obtain ⟨hnone, hsame, -⟩ := hx.run h
    obtain ⟨rfl, hm'⟩ := report_run.1 hr
    cases hm'
    rw [reportsIn_append, hnone, reportsIn_written, reportLines_some hf, ← hsame m₁ rfl]
    exact ⟨rfl, fun m' hm' => by cases hm'; rfl⟩
  | ended h hs =>
    obtain ⟨hnone, hsame, -⟩ := hx.run h
    exact ⟨hnone.trans (Sink.passedOn_nil _).symm,
      fun m' hm' => (hsame m' (by cases hm'; rfl)).trans (Sink.keeping_nil _).symm⟩

/-- It does the same wherever the diagnostic stream goes, as long as the host gets the same. -/
theorem Isolated.diagnosing (hx : Quiet x) (h : Isolated x m log f e) {d : Sink}
    (hd : ∀ lines, d.passedOn lines = m.diagnostics.passedOn lines) :
    Isolated x { m with diagnostics := d } log f
      (e.diagnosing (d.keeping (reportLines f))) := by
  cases h with
  | returned h =>
    rw [reportLines_none, Sink.keeping_nil]
    exact .returned ((hx.run h).2.2 d)
  | exhausted h => exact .exhausted ((hx.run h).2.2 d)
  | @reported log said s m₁ m' h hf hr =>
    obtain ⟨-, hsame, hrun⟩ := hx.run h
    obtain ⟨rfl, hm'⟩ := report_run.1 hr
    cases hm'
    have hfails : (x { m with diagnostics := d }).Run log
        (.stopped s { m₁ with diagnostics := d }) := hrun d
    have hreported := Isolated.reported hfails hf (report_run.2 ⟨rfl, rfl⟩)
    -- The report is the same exchange, if the host gets it at all.
    rw [hd] at hreported
    rw [reportLines_some hf, hsame m₁ rfl]
    exact hreported
  | @ended _ s code m' h hs =>
    have hfails : (x { m with diagnostics := d }).Run log
        (.stopped s { m' with diagnostics := d }) := (hx.run h).2.2 d
    rw [reportLines_exit, Sink.keeping_nil]
    exact .ended hfails hs

namespace Pumps

variable {k : Nat} {xs : List Outcome}

/-- A run of the loop ends like this, if it ends. -/
theorem ends (h : Pumps ev k m log xs e) :
    e = .exhausted ∨ (∃ m', e = .value () m') ∨
      ∃ code m', e = .stopped (.failed (.exit code)) m' := by
  induction h with
  | bound | cut => exact .inl rfl
  | idle => exact .inr (.inl ⟨_, rfl⟩)
  | wait _ _ ih | handed _ _ _ ih => exact ih
  | ended _ hx =>
    cases hx
    exact .inr (.inr ⟨_, _, rfl⟩)

/-- The reports of a run are those of what was handed out in it. -/
theorem reports (hev : ev.Quiet) (h : Pumps ev k m log xs e) :
    reportsIn log = m.diagnostics.passedOn (reportsOf xs) ∧
      ∀ m' ∈ e.machine?, m'.diagnostics = m.diagnostics.keeping (reportsOf xs) := by
  induction h with
  | bound m => exact ⟨(Sink.passedOn_nil _).symm, nofun⟩
  | idle h =>
    obtain ⟨hnone, hsame, -⟩ := nextReady_apart h
    refine ⟨hnone.trans (Sink.passedOn_nil _).symm, fun m' hm' => ?_⟩
    cases hm'
    exact hsame.trans (Sink.keeping_nil _).symm
  | @wait k m m₁ deadline log last xs e h _ ih =>
    obtain ⟨hnone, hsame, -⟩ := nextReady_apart h
    have hrest : reportsIn (log ++ ⟨.rest deadline, ()⟩ :: last) = reportsIn last := by
      rw [reportsIn_append, hnone]
      rfl
    rw [hrest, ← hsame]
    exact ih
  | @handed k m m₁ m₂ x f log mid last xs e h hx _ ih =>
    obtain ⟨hnone, hsame, -⟩ := nextReady_apart h
    obtain ⟨hmid, hkept⟩ := hx.reports (x.eval_quiet hev)
    obtain ⟨hlast, hend⟩ := ih
    rw [hkept m₂ rfl] at hlast hend
    rw [← hsame, reportsOf_cons]
    constructor
    · rw [reportsIn_append, reportsIn_append, hnone, hmid, hlast, Sink.passedOn_keeping,
        Sink.passedOn_append, List.nil_append]
    · rwa [Sink.keeping_append]
  | @ended k m m₁ m' x f s log mid h hx =>
    obtain ⟨hnone, hsame, -⟩ := nextReady_apart h
    obtain ⟨hmid, hkept⟩ := hx.reports (x.eval_quiet hev)
    rw [reportsIn_append, hnone, ← hsame, reportsOf_single]
    exact ⟨hmid, fun m hm => hkept m (by cases hm; rfl)⟩
  | @cut k m m₁ x f log mid h hx =>
    obtain ⟨hnone, hsame, -⟩ := nextReady_apart h
    obtain ⟨hmid, -⟩ := hx.reports (x.eval_quiet hev)
    rw [reportsIn_append, hnone, ← hsame, reportsOf_single]
    exact ⟨hmid, nofun⟩

/-- The loop hands out the same wherever the diagnostic stream goes, as long as the host gets the
same. -/
theorem diagnosing (hev : ev.Quiet) (h : Pumps ev k m log xs e) {d : Sink}
    (hd : ∀ lines, d.passedOn lines = m.diagnostics.passedOn lines) :
    Pumps ev k { m with diagnostics := d } log xs (e.diagnosing (d.keeping (reportsOf xs))) := by
  -- Over all streams at once, since each report on the way leaves another one.
  induction h generalizing d with
  | bound m => exact .bound _
  | idle h =>
    rw [reportsOf_nil, Sink.keeping_nil]
    exact .idle ((nextReady_apart h).2.2 d)
  | wait h _ ih =>
    obtain ⟨-, hsame, hrun⟩ := nextReady_apart h
    rw [← hsame] at hd
    exact .wait (hrun d) (ih hd)
  | @handed k m m₁ m₂ x f log mid last xs e h hx _ ih =>
    obtain ⟨-, hsame, hrun⟩ := nextReady_apart h
    rw [← hsame] at hd
    obtain ⟨-, hkept⟩ := hx.reports (x.eval_quiet hev)
    have hgo := hx.diagnosing (x.eval_quiet hev) hd
    rw [reportsOf_cons, Sink.keeping_append]
    refine .handed (hrun d) hgo (ih fun lines => ?_)
    rw [hkept m₂ rfl, Sink.passedOn_keeping, Sink.passedOn_keeping, hd]
  | @ended k m m₁ m' x f s log mid h hx =>
    obtain ⟨-, hsame, hrun⟩ := nextReady_apart h
    rw [← hsame] at hd
    rw [reportsOf_single]
    exact .ended (hrun d) (hx.diagnosing (x.eval_quiet hev) hd)
  | @cut k m m₁ x f log mid h hx =>
    obtain ⟨-, hsame, hrun⟩ := nextReady_apart h
    rw [← hsame] at hd
    exact .cut (hrun d) (hx.diagnosing (x.eval_quiet hev) hd)

end Pumps

/-! Timers -/

/-- A timer that fails is armed as one that returns. -/
theorem fireTimer_stopped {t : Timer Value} {s : Signal} {m₁ : Machine}
    (h : (fireTimer ev t m).Run log (.stopped s m₁)) : ∃ first time m₀,
      log = first ++ [⟨.outer .now, time⟩] ∧ (ev.call t.callback [] m).Run first (.stopped s m₀) ∧
        m₁ = { m₀ with loop := m₀.loop.rearm time t } := by
  obtain ⟨first, r, last, rfl, hfirst, hlast⟩ := run_bind.1 h
  obtain ⟨r, hcall, rfl⟩ := run_attempt.1 hfirst
  cases r with
  | exhausted => cases hlast
  | value v m₀ =>
    cases hlast with
    | asking time hlast => cases hlast
  | stopped s m₀ =>
    cases hlast with
    | asking time hlast =>
      cases hlast
      exact ⟨first, time, m₀, rfl, hcall, rfl⟩

theorem fireTimer_returned {t : Timer Value} {v : Value} {m₀ : Machine} {first : List Exchange}
    (h : (ev.call t.callback [] m).Run first (.value v m₀)) (time : Nat) :
    (fireTimer ev t m).Run (first ++ [⟨.outer .now, time⟩])
      (.value () { m₀ with loop := m₀.loop.rearm time t }) :=
  run_andThen (run_attempt.2 ⟨_, h, rfl⟩) (.asking _ (.finished _))

/-- A timer that is handed out is not cancelled. -/
theorem EventLoop.poll_timer {κ τ : Type} {l l' : EventLoop κ τ} {now : Nat} {t : Timer κ}
    (h : l.poll now = (.timer t, l')) : t.id ∉ l'.cancelled := by
  obtain ⟨t', ht', hexpire⟩ | ⟨hnone, -⟩ := expire_of_poll h
  · obtain rfl := Ready.timer.inj ht'
    obtain ⟨_, hfires⟩ := expire_induct (P := fun _ => True) (fun _ _ _ _ _ _ => trivial) trivial
      hexpire
    obtain ⟨_, -, -, hcancelled, -⟩ := hfires t rfl
    exact hcancelled
  · exact absurd rfl (hnone t)

theorem nextReady_timer {t : Timer Value} {m₁ : Machine}
    (h : (nextReady m).Run log (.value (.timer t) m₁)) : t.id ∉ m₁.loop.cancelled := by
  obtain ⟨time, found, -, heq⟩ := nextReady_run h
  obtain ⟨hready, rfl⟩ := Ending.value.inj heq
  exact EventLoop.poll_timer (Prod.ext hready.symm rfl)

/-- Failing callbacks are isolated. A run of the loop is a row of turns; if it ends, it returns or
the program exits. The diagnostic stream gets one line for each timer or task that has failed
otherwise, in order, and nothing else. When a callback fails, its timer, unless it was cancelled
meanwhile, is armed again if it repeats, and in any case is left as if the callback had returned.
What is handed out after a failure, for whatever the host answers, is what would be handed out after
a return that leaves the same machine. -/
theorem failures_isolated (n : Nat) :
    (∀ m log e, (runLoop n m).Run log e ↔ ∃ xs, Pumps (.bounded n) n m log xs e) ∧
    (∀ k m log xs e, Pumps (.bounded n) k m log xs e →
      (e = .exhausted ∨ (∃ m', e = .value () m') ∨
        ∃ code m', e = .stopped (.failed (.exit code)) m') ∧
      reportsIn log = m.diagnostics.passedOn (reportsOf xs) ∧
      ∀ m' ∈ e.machine?, m'.diagnostics = m.diagnostics.keeping (reportsOf xs)) ∧
    (∀ m log t m₁, (nextReady m).Run log (.value (.timer t) m₁) → t.id ∉ m₁.loop.cancelled) ∧
    (∀ t m log s m₁, (fireTimer (.bounded n) t m).Run log (.stopped s m₁) →
      ∃ first time m₀, log = first ++ [⟨.outer .now, time⟩] ∧
        ((Evaluator.bounded n).call t.callback [] m).Run first (.stopped s m₀) ∧
        (∀ i, t.interval = some i → t.id ∉ m₀.loop.cancelled →
          m₁ = { m₀ with loop := m₀.loop.arm (time + i) t }) ∧
        ∀ ev v, (ev.call t.callback [] m).Run first (.value v m₀) →
          (fireTimer ev t m).Run log (.value () m₁)) ∧
    ∀ (x : Handout) m log f m₂, Isolated (x.eval (.bounded n)) m log (some f) (.value () m₂) →
      ∃ first said m₁, ∃ s : Signal, log = first ++ said ∧
        (x.eval (.bounded n) m).Run first (.stopped s m₁) ∧ f = s.toFailure m₁.heap ∧
        f.isCatchable ∧ reportsIn first = [] ∧ reportsIn said = m.diagnostics.passedOn [f.line] ∧
        m₂ = { m₁ with diagnostics := m.diagnostics.keeping [f.line] } ∧
        ∀ k last xs, (∃ e, Pumps (.bounded n) k m₂ last xs e) ↔
          ∃ e, Pumps (.bounded n) k m₁ last xs e := by
  have hev := bounded_quiet n
  refine ⟨fun m log e => pumps_run, fun k m log xs e h => ⟨h.ends, h.reports hev⟩,
    fun m log t m₁ => nextReady_timer, ?_, ?_⟩
  · intro t m log s m₁ h
    obtain ⟨first, time, m₀, rfl, hcall, rfl⟩ := fireTimer_stopped h
    refine ⟨first, time, m₀, rfl, hcall, fun i hi hc => ?_, fun ev v hv => ?_⟩
    · simp [EventLoop.rearm, hc, hi]
    · exact fireTimer_returned hv time
  · intro x m log f m₂ h
    cases h with
    | @reported first said s m₁ _ h hf hr =>
      obtain ⟨hfirst, hsame, -⟩ := (x.eval_quiet hev).run h
      obtain ⟨rfl, hm₂⟩ := report_run.1 hr
      cases hm₂
      rw [hsame m₁ rfl]
      refine ⟨first, _, m₁, s, rfl, h, rfl, hf, hfirst, reportsIn_written _, rfl,
        fun k last xs => ⟨?_, ?_⟩⟩
      · rintro ⟨e, hp⟩
        have hback := hp.diagnosing hev (d := m₁.diagnostics) fun lines => by
          rw [Sink.passedOn_keeping, hsame m₁ rfl]
        exact ⟨_, hback⟩
      · rintro ⟨e, hp⟩
        have hon := hp.diagnosing hev (d := m.diagnostics.keeping [(s.toFailure m₁.heap).line])
          fun lines => by rw [Sink.passedOn_keeping, hsame m₁ rfl]
        exact ⟨_, hon⟩

/-- A timer that repeats, and fails whenever it fires. -/
def nagging : Timer Value := ⟨1, .nil, some 5⟩

/-- The expression `nil()`. -/
def nilCall : Expr := .call (.literal .nil ⟨1, 1, 0⟩) [] ⟨1, 4, 3⟩

/-- A program with a task that fails. -/
def troubled : Machine :=
  { Machine.bare .default with
    loop := EventLoop.empty.post (.evaluate nilCall)
    diagnostics := .kept "" }

/-- The host hands out nothing at time zero. -/
def lull : List Exchange := [⟨.outer .now, (0 : Nat)⟩, ⟨.arrivals, ([] : List Arrival)⟩]

theorem troubled_pumps : ∃ log m', Pumps (.bounded 2) 2 troubled log
    [(.task (.evaluate nilCall), some .notCallable)] (.value () m') := by
  have hready : (nextReady troubled).Run lull (.value (.task (.evaluate nilCall))
      { troubled with loop := .empty }) :=
    .asking _ (.asking _ (.finished _))
  have hfails : (runTask (.bounded 2) (.evaluate nilCall) { troubled with loop := .empty }).Run []
      (.stopped (.failed .notCallable) { troubled with loop := .empty }) :=
    .finished _
  have hidle (d : Sink) : (nextReady { troubled with loop := .empty, diagnostics := d }).Run lull
      (.value .idle { troubled with loop := .empty, diagnostics := d }) :=
    .asking _ (.asking _ (.finished _))
  exact ⟨_, _, .handed hready (.reported hfails rfl (report_run.2 ⟨rfl, rfl⟩)) (.idle (hidle _))⟩

/-- The failure is reported, and the loop returns. The timer goes on. -/
theorem troubled_isolated :
    (∃ log m', (runLoop 2 troubled).Run log (.value () m') ∧
      m'.diagnostics = Sink.keeping [Failure.notCallable.line] (.kept "")) ∧
    (∃ log m₁, (fireTimer (.bounded 2) nagging troubled).Run log
        (.stopped (.failed .notCallable) m₁) ∧ m₁.loop = troubled.loop.arm 5 nagging) ∧
    ∃ m₁ m₂, m₂.diagnostics = Sink.keeping [Failure.notCallable.line] (.kept "") ∧
      m₂.loop = troubled.loop.arm 5 nagging ∧ ∀ k last xs,
        (∃ e, Pumps (.bounded 2) k m₂ last xs e) ↔ ∃ e, Pumps (.bounded 2) k m₁ last xs e := by
  obtain ⟨hruns, hpumps, -, hfires, hisolated⟩ := failures_isolated 2
  have hfires' : (fireTimer (.bounded 2) nagging troubled).Run [⟨.outer .now, (0 : Nat)⟩]
      (.stopped (.failed .notCallable) { troubled with loop := troubled.loop.rearm 0 nagging }) :=
    .asking _ (.finished _)
  obtain ⟨first, time, m₀, hlog, hcall, harmed, -⟩ := hfires _ _ _ _ _ hfires'
  have hsplit : [] ++ [(⟨.outer .now, (0 : Nat)⟩ : Exchange)] =
      first ++ [⟨.outer .now, time⟩] := hlog
  obtain ⟨rfl, htime⟩ := List.append_inj' hsplit rfl
  cases htime
  cases hcall
  have hloop := congrArg Machine.loop (harmed 5 rfl List.not_mem_nil)
  refine ⟨?_, ⟨_, _, hfires', hloop⟩, ?_⟩
  · obtain ⟨log, m', hpump⟩ := troubled_pumps
    exact ⟨log, m', (hruns _ _ _).2 ⟨_, hpump⟩, (hpumps _ _ _ _ _ hpump).2.2 m' rfl⟩
  · obtain ⟨_, _, m₁, _, _, _, _, _, _, _, hm₂, hsame⟩ :=
      hisolated (.timer nagging) _ _ _ _ (.reported hfires' rfl (report_run.2 ⟨rfl, rfl⟩))
    refine ⟨m₁, _, ?_, ?_, hsame⟩
    · rfl
    · exact hloop

end ScriptEngine
