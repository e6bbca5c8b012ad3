import ScriptEngine.Proofs.Concurrency.Timers

/-!
# Tasks and background work in every run of the loop

Other threads post tasks and complete units of work at any moment. Tasks are handed out in the order
they were queued, and the counter of outstanding work is the number of units that were begun and are
neither completed nor ended. So an idle loop has nothing left to hand out, and no reply is still to
come.
-/
namespace ScriptEngine.EventLoop

variable {κ τ : Type}

namespace Event

/-- The task that an event puts into the queue. -/
def queued? : Event κ τ → Option τ
  | posted task | completed _ task => some task
  | _ => none

/-- The task that an event hands out. -/
def handedOut? : Event κ τ → Option τ
  | took task => some task
  | _ => none

def begun? : Event κ τ → Option Nat
  | begun work => some work
  | _ => none

/-- The unit of work that an event completes or ends. -/
def finished? : Event κ τ → Option Nat
  | completed work _ | ended work => some work
  | _ => none

/-- A unit of work is completed or ended only after it was begun, and only once. -/
def Lawful (past : List (Event κ τ)) (e : Event κ τ) : Prop :=
  ∀ work ∈ e.finished?, .begun work ∈ past ∧ ∀ e ∈ past, e.finished? ≠ some work

end Event

/-- The tasks queued so far, the first one first. -/
def queued (h : List (Event κ τ)) : List τ := (h.filterMap Event.queued?).reverse

/-- The tasks handed out so far, the first one first. -/
def handedOut (h : List (Event κ τ)) : List τ := (h.filterMap Event.handedOut?).reverse

/-- Every unit of work that was begun is followed by at most one completion or end, and there are no
others. -/
def Disciplined : List (Event κ τ) → Prop
  | [] => True
  | e :: past => e.Lawful past ∧ Disciplined past

theorem expire_frame {l l' : EventLoop κ τ} {now : Nat} {due : Option (Timer κ)}
    (h : l.expire now = (due, l')) : l'.tasks = l.tasks ∧ l'.outstanding = l.outstanding := by
  obtain ⟨-, rfl⟩ := Prod.mk.inj h
  exact ⟨rfl, rfl⟩

theorem cancel_frame (l : EventLoop κ τ) (id : Nat) :
    (l.cancel id).2.tasks = l.tasks ∧ (l.cancel id).2.outstanding = l.outstanding := by
  unfold cancel
  split <;> exact ⟨rfl, rfl⟩

theorem rearm_frame (l : EventLoop κ τ) (now : Nat) (t : Timer κ) :
    (l.rearm now t).tasks = l.tasks ∧ (l.rearm now t).outstanding = l.outstanding := by
  unfold rearm
  split
  · exact ⟨rfl, rfl⟩
  · split <;> exact ⟨rfl, rfl⟩

/-- A step puts the task of its event at the end of the queue, or takes it from the front. -/
theorem Step.tasks {s s' : Driver κ τ} {e : Event κ τ} (hs : Step s e s') :
    s.loop.tasks ++ e.queued?.toList = e.handedOut?.toList ++ s'.loop.tasks := by
  cases hs with
  | schedule | beginWork | endWork => exact List.append_nil _
  | post | complete => rfl
  | @cancel l _ id => simp [Event.queued?, Event.handedOut?, (cancel_frame l id).1]
  | @rearm l t now => simp [Event.queued?, Event.handedOut?, (rearm_frame l now t).1]
  | fire _ hexpire => simp [Event.queued?, Event.handedOut?, (expire_frame hexpire).1]
  | pass _ hexpire => simp [Event.queued?, Event.handedOut?, (expire_frame hexpire).1]
  | take hlook =>
    obtain ⟨tasks, htasks, rfl⟩ := look_task hlook
    simp [Event.queued?, Event.handedOut?, htasks]
  | wait hlook =>
    obtain rfl := look_wait hlook
    exact List.append_nil _
  | idle hlook =>
    obtain ⟨-, -, -, rfl⟩ := look_idle hlook
    exact List.append_nil _

/-- What was queued is what was handed out, in the same order, and what is still in the queue. -/
theorem Run.queued_eq {h : List (Event κ τ)} {s : Driver κ τ} (r : Run h s) :
    queued h = handedOut h ++ s.loop.tasks := by
  induction r with
  | start => rfl
  | @step h s s' e _ next ih =>
    have hqueued : queued (e :: h) = queued h ++ e.queued?.toList := by
      cases he : e.queued? <;> simp [queued, he]
    have hhanded : handedOut (e :: h) = handedOut h ++ e.handedOut?.toList := by
      cases he : e.handedOut? <;> simp [handedOut, he]
    rw [hqueued, hhanded, ih, List.append_assoc, next.tasks, List.append_assoc]

/-- The units of work that were begun are those that are open and those that were completed or
ended. -/
def Accounts (h : List (Event κ τ)) (outstanding : Nat) : Prop :=
  ∃ unfinished : List Nat, unfinished.length = outstanding ∧
    (h.filterMap Event.begun?).Perm (unfinished ++ h.filterMap Event.finished?)

namespace Accounts

variable {h : List (Event κ τ)} {n work : Nat}

theorem begin (ha : Accounts h n) : Accounts (.begun work :: h) (n + 1) := by
  obtain ⟨unfinished, hlength, hperm⟩ := ha
  exact ⟨work :: unfinished, congrArg (· + 1) hlength, hperm.cons work⟩

/-- One of the open units is completed or ended. -/
theorem finish (ha : Accounts h n) {e : Event κ τ} (he : e.Lawful h)
    (hfinished : e.finished? = some work) (hbegun : e.begun? = none) :
    Accounts (e :: h) (n - 1) := by
  obtain ⟨unfinished, hlength, hperm⟩ := ha
  obtain ⟨hbegan, hfirst⟩ := he work hfinished
  have hmem : work ∈ unfinished ++ h.filterMap Event.finished? :=
    hperm.mem_iff.1 (List.mem_filterMap.2 ⟨_, hbegan, rfl⟩)
  have hopen : work ∈ unfinished := by
    rcases List.mem_append.1 hmem with hmem | hmem
    · exact hmem
    · obtain ⟨e', hmem, he'⟩ := List.mem_filterMap.1 hmem
      exact absurd he' (hfirst e' hmem)
  refine ⟨unfinished.erase work, ?_, ?_⟩
  · rw [List.length_erase_of_mem hopen, hlength]
  · rw [List.filterMap_cons, hbegun, List.filterMap_cons, hfinished]
    have hmove := (List.perm_cons_erase hopen).append_right (h.filterMap Event.finished?)
    exact hperm.trans (hmove.trans List.perm_middle.symm)

theorem other (ha : Accounts h n) {e : Event κ τ} (hbegun : e.begun? = none)
    (hfinished : e.finished? = none) : Accounts (e :: h) n := by
  obtain ⟨unfinished, hlength, hperm⟩ := ha
  refine ⟨unfinished, hlength, ?_⟩
  rw [List.filterMap_cons, hbegun, List.filterMap_cons, hfinished]
  exact hperm

end Accounts

theorem Step.accounts {h : List (Event κ τ)} {s s' : Driver κ τ} {e : Event κ τ}
    (hs : Step s e s') (he : e.Lawful h) (ha : Accounts h s.loop.outstanding) :
    Accounts (e :: h) s'.loop.outstanding := by
  cases hs with
  | beginWork => exact ha.begin
  | complete | endWork => exact ha.finish he rfl rfl
  | schedule | post => exact ha.other rfl rfl
  | @cancel l _ id => exact (cancel_frame l id).2 ▸ ha.other rfl rfl
  | @rearm l t now => exact (rearm_frame l now t).2 ▸ ha.other rfl rfl
  | fire _ hexpire => exact (expire_frame hexpire).2 ▸ ha.other rfl rfl
  | pass _ hexpire => exact (expire_frame hexpire).2 ▸ ha.other rfl rfl
  | take hlook =>
    obtain ⟨tasks, -, rfl⟩ := look_task hlook
    exact ha.other rfl rfl
  | wait hlook =>
    obtain rfl := look_wait hlook
    exact ha.other rfl rfl
  | idle hlook =>
    obtain ⟨-, -, -, rfl⟩ := look_idle hlook
    exact ha.other rfl rfl

theorem Run.accounts {h : List (Event κ τ)} {s : Driver κ τ} (r : Run h s) (hd : Disciplined h) :
    Accounts h s.loop.outstanding := by
  induction r with
  | start => exact ⟨[], rfl, .nil⟩
  | step _ next ih => exact next.accounts hd.1 (ih hd.2)

/-- With no work outstanding every unit that was begun is over, and its reply was queued. -/
theorem Accounts.over {h : List (Event κ τ)} (ha : Accounts h 0) {work : Nat}
    (hw : .begun work ∈ h) : .ended work ∈ h ∨ ∃ task, .completed work task ∈ h := by
  obtain ⟨unfinished, hlength, hperm⟩ := ha
  obtain rfl := List.length_eq_zero_iff.1 hlength
  have hover := hperm.mem_iff.1 (List.mem_filterMap.2 ⟨_, hw, rfl⟩)
  obtain ⟨e, hmem, he⟩ := List.mem_filterMap.1 hover
  clear hover
  cases e with
  | completed w task =>
    obtain rfl : w = work := Option.some.inj he
    exact .inr ⟨task, hmem⟩
  | ended w =>
    obtain rfl : w = work := Option.some.inj he
    exact .inl hmem
  | _ => cases he

theorem mem_queued {h : List (Event κ τ)} {work : Nat} {task : τ} (hc : .completed work task ∈ h) :
    task ∈ queued h :=
  List.mem_reverse.2 (List.mem_filterMap.2 ⟨_, hc, rfl⟩)

theorem took_mem {h : List (Event κ τ)} {task : τ} (ht : task ∈ handedOut h) : .took task ∈ h := by
  obtain ⟨e, hmem, he⟩ := List.mem_filterMap.1 (List.mem_reverse.1 ht)
  cases e with
  | took t =>
    obtain rfl : t = task := Option.some.inj he
    exact hmem
  | _ => cases he

/-- Tasks are handed out in the order they were queued, each once. When the loop is idle no timer is
pending, all that was queued has been handed out, and every unit of work is over: it ended without a
reply, or was completed and its reply has been handed out. -/
theorem idle_sound {h : List (Event κ τ)} {s : Driver κ τ} (r : Run h s) (hd : Disciplined h) :
    queued h = handedOut h ++ s.loop.tasks ∧
    ∀ s', Step s .idle s' →
      s'.loop.live = [] ∧ (∀ id, isPending id h = false) ∧
      s'.loop.tasks = [] ∧ queued h = handedOut h ∧
      ∀ work, .begun work ∈ h →
        .ended work ∈ h ∨ ∃ task, .completed work task ∈ h ∧ .took task ∈ h := by
  refine ⟨r.queued_eq, fun s' hs => ?_⟩
  cases hs with
  | idle hlook =>
    obtain ⟨htasks, hlive, houtstanding, rfl⟩ := look_idle hlook
    have hall : queued h = handedOut h := by
      have hqueued := r.queued_eq
      rwa [htasks, List.append_nil] at hqueued
    refine ⟨hlive, fun id => ?_, htasks, hall, fun work hw => ?_⟩
    · have hpending : ¬ isPending id h := by
        rw [← r.tracked.live, hlive]
        exact List.not_mem_nil
      simpa using hpending
    · have haccounts : Accounts h 0 := houtstanding ▸ r.accounts hd
      rcases haccounts.over hw with hended | ⟨task, hcompleted⟩
      · exact .inl hended
      · exact .inr ⟨task, hcompleted, took_mem (hall ▸ mem_queued hcompleted)⟩

/-- A reply that comes in between the two parts of one asking. -/
def lateReply : List (Event Unit String) :=
  [.passed, .took "reply", .completed 0 "reply", .passed, .begun 0]

theorem lateReply_run : ∃ s s', Run lateReply s ∧ Step s .idle s' := by
  have r₀ : Run ([] : List (Event Unit String)) _ := .start
  have r₁ := (r₀.step (.beginWork 0)).step (.pass 3 rfl)
  have r₂ := (r₁.step (.complete 0 "reply")).step (.take rfl)
  exact ⟨_, _, r₂.step (.pass 4 rfl), .idle rfl⟩

/-- The loop is idle after that reply was handed out, and not before. -/
theorem lateReply_sound : ∃ s s', Run lateReply s ∧ Disciplined lateReply ∧ Step s .idle s' ∧
    s'.loop.tasks = [] ∧ queued lateReply = handedOut lateReply ∧
    (.ended 0 ∈ lateReply ∨ ∃ task, .completed 0 task ∈ lateReply ∧ .took task ∈ lateReply) := by
  obtain ⟨s, s', r, hidle⟩ := lateReply_run
  have hd : Disciplined lateReply := by
    simp [lateReply, Disciplined, Event.Lawful, Event.finished?]
  obtain ⟨-, -, htasks, hall, hwork⟩ := (idle_sound r hd).2 s' hidle
  exact ⟨s, s', r, hd, hidle, htasks, hall, hwork 0 (by simp [lateReply])⟩

end ScriptEngine.EventLoop
