import ScriptEngine.Concurrency.EventLoop

/-!
# Runs of the event loop

The driver asks for the next thing to do over and over. Asking has two parts: due timers are looked
at first, without a lock, and then tasks and idleness under one. A timer that was handed out is
firing until it is armed again. Each step below is one such part, one operation of a callback, or
one section of another thread, and steps follow each other in any order that the driver admits.
Nothing is assumed about the clock.
-/
namespace ScriptEngine.EventLoop

variable {κ τ : Type}

/-- The part of asking that looks at due timers. -/
def expire (l : EventLoop κ τ) (now : Nat) : Option (Timer κ) × EventLoop κ τ :=
  match takeDue now l.entries l.cancelled with
  | (due, entries, cancelled) => (due, { l with entries, cancelled })

/-- The part of asking that looks at tasks and idleness. -/
def look (l : EventLoop κ τ) : Ready κ τ × EventLoop κ τ :=
  match l.tasks with
  | t :: tasks => (.task t, { l with tasks })
  | [] =>
    if l.live.isEmpty && l.outstanding == 0 then (.idle, { l with entries := [], cancelled := [] })
    else (.wait (l.entries.head?.map TimerEntry.deadline), l)

theorem poll_eq (l : EventLoop κ τ) (now : Nat) :
    l.poll now =
      match l.expire now with
      | (some t, l) => (.timer t, l)
      | (none, l) => l.look := by
  unfold poll expire look
  rcases takeDue now l.entries l.cancelled with ⟨_ | t, entries, cancelled⟩
  · cases l.tasks with
    | nil => rfl
    | cons t tasks => rfl
  · rfl

/-- What the second part of asking comes to. -/
theorem look_cases {l l' : EventLoop κ τ} {ready : Ready κ τ} (h : l.look = (ready, l')) :
    (∃ t tasks, ready = .task t ∧ l.tasks = t :: tasks ∧ l' = { l with tasks }) ∨
    (ready = .idle ∧ l.tasks = [] ∧ l.live = [] ∧ l.outstanding = 0 ∧
      l' = { l with entries := [], cancelled := [] }) ∨
    (∃ deadline, ready = .wait deadline ∧ l' = l) := by
  unfold look at h
  split at h
  next t tasks htasks =>
    cases h
    exact .inl ⟨t, tasks, rfl, htasks, rfl⟩
  next htasks =>
    split at h
    next hquiet =>
      cases h
      simp only [Bool.and_eq_true, List.isEmpty_iff, beq_iff_eq] at hquiet
      exact .inr (.inl ⟨rfl, htasks, hquiet.1, hquiet.2, rfl⟩)
    next =>
      cases h
      exact .inr (.inr ⟨_, rfl, rfl⟩)

theorem look_task {l l' : EventLoop κ τ} {t : τ} (h : l.look = (.task t, l')) :
    ∃ tasks, l.tasks = t :: tasks ∧ l' = { l with tasks } := by
  simpa using look_cases h

theorem look_idle {l l' : EventLoop κ τ} (h : l.look = (.idle, l')) :
    l.tasks = [] ∧ l.live = [] ∧ l.outstanding = 0 ∧
      l' = { l with entries := [], cancelled := [] } := by
  simpa using look_cases h

theorem look_wait {l l' : EventLoop κ τ} {deadline : Option Nat}
    (h : l.look = (.wait deadline, l')) : l' = l := by
  simpa using look_cases h

/-- Asking hands out the timer that the first part has found, and no other. -/
theorem expire_of_poll {l l' : EventLoop κ τ} {now : Nat} {ready : Ready κ τ}
    (h : l.poll now = (ready, l')) :
    (∃ t, ready = .timer t ∧ l.expire now = (some t, l')) ∨
      (∀ t, ready ≠ .timer t) ∧ ∃ l₁, l.expire now = (none, l₁) := by
  rw [poll_eq] at h
  rcases hexpire : l.expire now with ⟨_ | t, l₁⟩
  · rw [hexpire] at h
    refine .inr ⟨fun t ht => ?_, l₁, rfl⟩
    simpa [ht] using look_cases h
  · rw [hexpire] at h
    obtain ⟨rfl, rfl⟩ := Prod.mk.inj h
    exact .inl ⟨t, rfl, rfl⟩

/-- What happens on the loop. Units of background work are told apart by numbers. -/
inductive Event (κ τ : Type) where
  | scheduled (id now delay : Nat) (repeating : Bool)
  | cancelled (id : Nat) (answer : Bool)
  /-- The timer is handed out. -/
  | fired (timer : Timer κ) (now : Nat)
  /-- The callback of the timer has returned. -/
  | rearmed (timer : Timer κ) (now : Nat)
  /-- No timer is due. -/
  | passed
  /-- The task is handed out. -/
  | took (task : τ)
  | waited
  | idle
  | begun (work : Nat)
  | posted (task : τ)
  | completed (work : Nat) (task : τ)
  | ended (work : Nat)

/-- What the driver is at. -/
inductive Phase (κ : Type) where
  /-- Between two askings. -/
  | between
  /-- Between the two parts of one asking. -/
  | asking
  /-- The callback of a timer runs. -/
  | firing (timer : Timer κ)

structure Driver (κ τ : Type) where
  loop : EventLoop κ τ
  phase : Phase κ

/-- One step, and what happens in it. -/
inductive Step : Driver κ τ → Event κ τ → Driver κ τ → Prop
  | schedule {l : EventLoop κ τ} {p : Phase κ} (now : Nat) (callback : κ) (delay : Nat)
      (repeating : Bool) :
      Step ⟨l, p⟩ (.scheduled (l.schedule now callback delay repeating).1 now delay repeating)
        ⟨(l.schedule now callback delay repeating).2, p⟩
  | cancel {l : EventLoop κ τ} {p : Phase κ} (id : Nat) :
      Step ⟨l, p⟩ (.cancelled id (l.cancel id).1) ⟨(l.cancel id).2, p⟩
  | fire {l l' : EventLoop κ τ} {t : Timer κ} (now : Nat) (h : l.expire now = (some t, l')) :
      Step ⟨l, .between⟩ (.fired t now) ⟨l', .firing t⟩
  | rearm {l : EventLoop κ τ} {t : Timer κ} (now : Nat) :
      Step ⟨l, .firing t⟩ (.rearmed t now) ⟨l.rearm now t, .between⟩
  | pass {l l' : EventLoop κ τ} (now : Nat) (h : l.expire now = (none, l')) :
      Step ⟨l, .between⟩ .passed ⟨l', .asking⟩
  | take {l l' : EventLoop κ τ} {t : τ} (h : l.look = (.task t, l')) :
      Step ⟨l, .asking⟩ (.took t) ⟨l', .between⟩
  | wait {l l' : EventLoop κ τ} {deadline : Option Nat} (h : l.look = (.wait deadline, l')) :
      Step ⟨l, .asking⟩ .waited ⟨l', .between⟩
  | idle {l l' : EventLoop κ τ} (h : l.look = (.idle, l')) :
      Step ⟨l, .asking⟩ .idle ⟨l', .between⟩
  | beginWork {l : EventLoop κ τ} {p : Phase κ} (work : Nat) :
      Step ⟨l, p⟩ (.begun work) ⟨l.beginWork, p⟩
  | post {l : EventLoop κ τ} {p : Phase κ} (task : τ) :
      Step ⟨l, p⟩ (.posted task) ⟨l.post task, p⟩
  | complete {l : EventLoop κ τ} {p : Phase κ} (work : Nat) (task : τ) :
      Step ⟨l, p⟩ (.completed work task) ⟨l.complete task, p⟩
  | endWork {l : EventLoop κ τ} {p : Phase κ} (work : Nat) :
      Step ⟨l, p⟩ (.ended work) ⟨l.endWork, p⟩

/-- Runs from the empty loop, with all that happened, the latest first. -/
inductive Run : List (Event κ τ) → Driver κ τ → Prop
  | start : Run [] ⟨.empty, .between⟩
  | step {h : List (Event κ τ)} {s s' : Driver κ τ} {e : Event κ τ} (r : Run h s)
      (next : Step s e s') : Run (e :: h) s'

/-- Asking in one go is a step or two of a run. -/
theorem Run.poll {h : List (Event κ τ)} {l : EventLoop κ τ} (r : Run h ⟨l, .between⟩) (now : Nat) :
    match l.poll now with
    | (.timer t, l') => Run (.fired t now :: h) ⟨l', .firing t⟩
    | (.task t, l') => Run (.took t :: .passed :: h) ⟨l', .between⟩
    | (.idle, l') => Run (.idle :: .passed :: h) ⟨l', .between⟩
    | (.wait _, l') => Run (.waited :: .passed :: h) ⟨l', .between⟩ := by
  rw [poll_eq]
  rcases hexpire : l.expire now with ⟨_ | t, l₁⟩
  · have r₁ := r.step (.pass now hexpire)
    simp only
    rcases hlook : l₁.look with ⟨ready, l₂⟩
    cases ready with
    | timer t =>
      obtain ⟨_, _, hready, _⟩ | ⟨hready, _⟩ | ⟨_, hready, _⟩ := look_cases hlook <;> cases hready
    | task t => exact r₁.step (.take hlook)
    | idle => exact r₁.step (.idle hlook)
    | wait deadline => exact r₁.step (.wait hlook)
  · exact r.step (.fire now hexpire)

/-- A run up to any of its events is a run, and the event is a step from there. -/
theorem Run.before {h : List (Event κ τ)} {s : Driver κ τ} (r : Run h s) {e : Event κ τ}
    {past : List (Event κ τ)} (hp : e :: past <:+ h) :
    ∃ s₁ s₂, Run past s₁ ∧ Step s₁ e s₂ ∧ Run (e :: past) s₂ := by
  induction r with
  | start => simp at hp
  | @step h s s' e' r next ih =>
    rcases List.suffix_cons_iff.1 hp with heq | hp
    · obtain ⟨rfl, rfl⟩ := List.cons.inj heq
      exact ⟨s, s', r, next, r.step next⟩
    · exact ih hp

/-- Whatever a look at due timers drops, it drops from the front, and for being cancelled. -/
theorem expire_induct {P : EventLoop κ τ → Prop} {l l' : EventLoop κ τ} {now : Nat}
    {due : Option (Timer κ)}
    (drop : ∀ (l : EventLoop κ τ) (e : TimerEntry κ) (rest : List (TimerEntry κ)),
      l.entries = e :: rest → e.timer.id ∈ l.cancelled → P l →
        P { l with entries := rest, cancelled := l.cancelled.erase e.timer.id })
    (hl : P l) (h : l.expire now = (due, l')) :
    (due = none → P l') ∧
      ∀ t, due = some t → ∃ e : TimerEntry κ, e.timer = t ∧ e.deadline ≤ now ∧
        t.id ∉ l'.cancelled ∧ P { l' with entries := e :: l'.entries } := by
  obtain ⟨entries, live, cancelled, nextId, nextOrder, tasks, outstanding⟩ := l
  induction entries generalizing cancelled with
  | nil =>
    obtain ⟨rfl, rfl⟩ := Prod.mk.inj h
    exact ⟨fun _ => hl, nofun⟩
  | cons e rest ih =>
    simp only [expire, takeDue] at h
    by_cases hdue : e.deadline ≤ now
    · by_cases hcancelled : e.timer.id ∈ cancelled
      · simp only [hdue, List.contains_iff_mem, hcancelled, if_true] at h
        exact ih _ (drop _ e rest rfl hcancelled hl) h
      · simp only [hdue, List.contains_iff_mem, hcancelled, if_true, if_false] at h
        obtain ⟨rfl, rfl⟩ := Prod.mk.inj h
        refine ⟨nofun, fun t ht => ?_⟩
        obtain rfl := Option.some.inj ht
        exact ⟨e, rfl, hdue, hcancelled, hl⟩
    · simp only [hdue, if_false] at h
      obtain ⟨rfl, rfl⟩ := Prod.mk.inj h
      exact ⟨fun _ => hl, nofun⟩

end ScriptEngine.EventLoop
