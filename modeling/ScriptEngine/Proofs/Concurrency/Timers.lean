import Mathlib.Data.List.Nodup
import ScriptEngine.Proofs.Concurrency.LoopRun

/-!
# Timers in every run of the loop

An armed timer lives in three places: its entry, the list of live timers and, once it is cancelled,
the list of cancelled ones. `Tracked` says how the three come from what has happened so far. Every
step keeps it, and it answers what a cancellation stops, how often and how early a timer is handed
out, and what is left when the loop goes idle.
-/
namespace ScriptEngine.EventLoop

variable {κ τ : Type}

namespace Event

def schedules (id : Nat) : Event κ τ → Bool
  | scheduled i _ _ _ => i == id
  | _ => false

/-- Schedules a timer that does not repeat. -/
def schedulesOnce (id : Nat) : Event κ τ → Bool
  | scheduled i _ _ repeating => i == id && !repeating
  | _ => false

/-- Cancels a timer and says so. -/
def cancels (id : Nat) : Event κ τ → Bool
  | cancelled i answer => i == id && answer
  | _ => false

def fires (id : Nat) : Event κ τ → Bool
  | fired t _ => t.id == id
  | _ => false

def rearms (id : Nat) : Event κ τ → Bool
  | rearmed t _ => t.id == id
  | _ => false

/-- The deadline for which an event arms a timer. -/
def deadline? (id : Nat) : Event κ τ → Option Nat
  | scheduled i now delay _ => if i = id then some (now + delay) else none
  | rearmed t now => if t.id = id then t.interval.map (now + ·) else none
  | _ => none

end Event

/-- The deadline for which a timer was armed last. -/
def lastDeadline? (id : Nat) (h : List (Event κ τ)) : Option Nat :=
  h.findSome? (Event.deadline? id)

/-- Scheduled, not cancelled, and not over: a timer that fires once is over when its callback has
returned. -/
def isPending (id : Nat) (h : List (Event κ τ)) : Bool :=
  h.any (Event.schedules id) && !h.any (Event.cancels id) &&
    !(h.any (Event.schedulesOnce id) && h.any (Event.rearms id))

/-- The timer whose callback runs. -/
def Phase.timer? : Phase κ → Option (Timer κ)
  | firing t => some t
  | _ => none

/-- The timers that are armed or firing. -/
def Driver.held (s : Driver κ τ) : List (Timer κ) :=
  s.phase.timer?.toList ++ s.loop.entries.map TimerEntry.timer

/-- The timer that an event is about. -/
def Event.subject? : Event κ τ → Option Nat
  | scheduled id _ _ _ | cancelled id _ => some id
  | fired t _ | rearmed t _ => some t.id
  | _ => none

/-- An event says nothing about a timer. -/
structure Event.Apart (id : Nat) (e : Event κ τ) : Prop where
  schedules : e.schedules id = false
  schedulesOnce : e.schedulesOnce id = false
  cancels : e.cancels id = false
  fires : e.fires id = false
  rearms : e.rearms id = false
  deadline : e.deadline? id = none

theorem Event.apart {e : Event κ τ} {id : Nat} (h : e.subject? ≠ some id) : e.Apart id := by
  cases e with
  | scheduled i | cancelled i =>
    have hne : i ≠ id := fun heq => h (congrArg some heq)
    constructor <;>
      simp [schedules, schedulesOnce, cancels, fires, rearms, deadline?, hne]
  | fired t | rearmed t =>
    have hne : t.id ≠ id := fun heq => h (congrArg some heq)
    constructor <;>
      simp [schedules, schedulesOnce, cancels, fires, rearms, deadline?, hne]
  | _ => exact ⟨rfl, rfl, rfl, rfl, rfl, rfl⟩

/-- A timer that is armed or firing, as the history tells it. -/
structure Follows (h : List (Event κ τ)) (cancelled : List Nat) (t : Timer κ) : Prop where
  known : h.any (Event.schedules t.id)
  once : h.any (Event.schedulesOnce t.id) = t.interval.isNone
  unfinished : t.interval = none → h.any (Event.rearms t.id) = false
  marked : h.any (Event.cancels t.id) → t.id ∈ cancelled

/-- An armed timer, as the history tells it. -/
structure Armed (h : List (Event κ τ)) (e : TimerEntry κ) : Prop where
  deadline : lastDeadline? e.timer.id h = some e.deadline
  unfired : e.timer.interval = none → h.any (Event.fires e.timer.id) = false

/-- How the timers of a driver come from what has happened. -/
structure Tracked (h : List (Event κ τ)) (s : Driver κ τ) : Prop where
  nodup : (s.held.map Timer.id).Nodup
  held : ∀ t ∈ s.held, Follows h s.loop.cancelled t
  armed : ∀ e ∈ s.loop.entries, Armed h e
  firing : ∀ t ∈ s.phase.timer?, h.any (Event.fires t.id)
  cancelled : ∀ id ∈ s.loop.cancelled, h.any (Event.cancels id)
  live : ∀ id, id ∈ s.loop.live ↔ isPending id h
  live_nodup : s.loop.live.Nodup
  fresh : ∀ id, h.any (Event.schedules id) → id < s.loop.nextId
  scheduled : ∀ id, h.any (Event.fires id) ∨ h.any (Event.cancels id) → h.any (Event.schedules id)
  fired : ∀ id, h.any (Event.rearms id) → h.any (Event.fires id)
  atMostOnce : ∀ id, h.any (Event.schedulesOnce id) → h.countP (Event.fires id) ≤ 1

namespace Event.Apart

variable {h : List (Event κ τ)} {e : Event κ τ} {id : Nat}

theorem isPending (ha : e.Apart id) :
    EventLoop.isPending id (e :: h) = EventLoop.isPending id h := by
  simp [EventLoop.isPending, ha.schedules, ha.schedulesOnce, ha.cancels, ha.rearms]

theorem follows {t : Timer κ} {cancelled : List Nat} (ha : e.Apart t.id)
    (hf : Follows h cancelled t) : Follows (e :: h) cancelled t := by
  constructor <;>
    simp only [List.any_cons, ha.schedules, ha.schedulesOnce, ha.rearms, ha.cancels, Bool.false_or]
  · exact hf.known
  · exact hf.once
  · exact hf.unfinished
  · exact hf.marked

theorem armed {entry : TimerEntry κ} (ha : e.Apart entry.timer.id) (hf : Armed h entry) :
    Armed (e :: h) entry := by
  constructor
  · rw [lastDeadline?, List.findSome?_cons, ha.deadline]
    exact hf.deadline
  · rw [List.any_cons, ha.fires, Bool.false_or]
    exact hf.unfired

end Event.Apart

theorem insertEntry_perm (e : TimerEntry κ) (entries : List (TimerEntry κ)) :
    (insertEntry e entries).Perm (e :: entries) := by
  induction entries with
  | nil => exact .refl _
  | cons x rest ih =>
    rw [insertEntry]
    split
    · exact (ih.cons x).trans (.swap e x rest)
    · exact .refl _

theorem held_arm (l : EventLoop κ τ) (p : Phase κ) (deadline : Nat) (t : Timer κ) :
    (⟨l.arm deadline t, p⟩ : Driver κ τ).held.Perm (t :: (⟨l, p⟩ : Driver κ τ).held) := by
  have hperm := (insertEntry_perm ⟨deadline, l.nextOrder, t⟩ l.entries).map TimerEntry.timer
  exact (hperm.append_left p.timer?.toList).trans List.perm_middle

theorem any_schedules_of_once {h : List (Event κ τ)} {id : Nat}
    (ho : h.any (Event.schedulesOnce id)) : h.any (Event.schedules id) := by
  obtain ⟨e, hmem, he⟩ := List.any_eq_true.1 ho
  refine List.any_eq_true.2 ⟨e, hmem, ?_⟩
  cases e with
  | scheduled i now delay repeating => exact (Bool.and_eq_true_iff.1 he).1
  | _ => cases he

namespace Tracked

variable {h : List (Event κ τ)} {s : Driver κ τ} {l : EventLoop κ τ} {p : Phase κ}

theorem start : Tracked ([] : List (Event κ τ)) ⟨.empty, .between⟩ := by
  constructor <;> simp [Driver.held, Phase.timer?, EventLoop.empty, isPending]

/-- A number that was not given out has no past. -/
theorem unseen (ht : Tracked h s) {id : Nat} (hid : s.loop.nextId ≤ id) :
    h.any (Event.schedules id) = false ∧ h.any (Event.schedulesOnce id) = false ∧
      h.any (Event.cancels id) = false ∧ h.any (Event.fires id) = false ∧
      h.any (Event.rearms id) = false := by
  have hnot : ¬ h.any (Event.schedules id) := fun hs => absurd (ht.fresh id hs) (Nat.not_lt.2 hid)
  have hfires : ¬ h.any (Event.fires id) := fun hf => hnot (ht.scheduled id (.inl hf))
  refine ⟨by simpa using hnot, ?_, ?_, by simpa using hfires, ?_⟩
  · simpa using fun ho => hnot (any_schedules_of_once ho)
  · simpa using fun hc => hnot (ht.scheduled id (.inr hc))
  · simpa using fun hr => hfires (ht.fired id hr)

/-- What concerns no timer. -/
theorem quiet (ht : Tracked h ⟨l, p⟩) {e : Event κ τ} (hapart : ∀ id, e.Apart id) (p' : Phase κ)
    (hp : p'.timer? = p.timer?) (tasks : List τ) (outstanding : Nat) :
    Tracked (e :: h) ⟨{ l with tasks, outstanding }, p'⟩ := by
  have hheld : (⟨{ l with tasks, outstanding }, p'⟩ : Driver κ τ).held =
      (⟨l, p⟩ : Driver κ τ).held := by
    simp [Driver.held, hp]
  have hsame : Tracked h ⟨{ l with tasks, outstanding }, p'⟩ :=
    { ht with
      nodup := hheld ▸ ht.nodup
      held := hheld ▸ ht.held
      firing := hp ▸ ht.firing }
  constructor
  · exact hsame.nodup
  · exact fun t hmem => (hapart t.id).follows (hsame.held t hmem)
  · exact fun entry hmem => (hapart _).armed (hsame.armed entry hmem)
  · simpa [(hapart _).fires] using hsame.firing
  · simpa [(hapart _).cancels] using hsame.cancelled
  · simpa [(hapart _).isPending] using hsame.live
  · exact hsame.live_nodup
  · simpa [(hapart _).schedules] using hsame.fresh
  · simpa [(hapart _).schedules, (hapart _).fires, (hapart _).cancels] using hsame.scheduled
  · simpa [(hapart _).rearms, (hapart _).fires] using hsame.fired
  · simpa [(hapart _).schedulesOnce, (hapart _).fires] using hsame.atMostOnce

/-- A cancelled timer at the front is forgotten. -/
theorem drop (ht : Tracked h ⟨l, p⟩) {e : TimerEntry κ} {rest : List (TimerEntry κ)}
    (hl : l.entries = e :: rest) :
    Tracked h ⟨{ l with entries := rest, cancelled := l.cancelled.erase e.timer.id }, p⟩ := by
  have hnodup := ht.nodup
  have hheld : (⟨l, p⟩ : Driver κ τ).held =
      p.timer?.toList ++ e.timer :: rest.map TimerEntry.timer := by
    simp [Driver.held, hl]
  have hsub : ∀ t ∈ p.timer?.toList ++ rest.map TimerEntry.timer,
      t ∈ (⟨l, p⟩ : Driver κ τ).held ∧ t.id ≠ e.timer.id := by
    rw [hheld] at hnodup ⊢
    grind
  exact
    { ht with
      nodup := by
        rw [hheld] at hnodup
        exact hnodup.sublist (List.Sublist.map _ (.append (.refl _) (List.sublist_cons_self ..)))
      held := fun t hmem =>
        { ht.held t (hsub t hmem).1 with
          marked := fun hc =>
            (List.mem_erase_of_ne (hsub t hmem).2).2 ((ht.held t (hsub t hmem).1).marked hc) }
      armed := fun e' hmem => ht.armed e' (hl ▸ List.mem_cons_of_mem e hmem)
      cancelled := fun id hmem => ht.cancelled id (List.mem_of_mem_erase hmem) }

/-- The timer at the front is handed out. -/
theorem fire {e : TimerEntry κ} (ht : Tracked h ⟨{ l with entries := e :: l.entries }, .between⟩)
    (now : Nat) : Tracked (.fired e.timer now :: h) ⟨l, .firing e.timer⟩ := by
  have hfollows := ht.held e.timer (by simp [Driver.held])
  have hother : ∀ e' ∈ l.entries, e.timer.id ≠ e'.timer.id := by
    have hnodup : (e.timer.id :: (l.entries.map TimerEntry.timer).map Timer.id).Nodup := ht.nodup
    grind
  have hapart {id : Nat} (hne : e.timer.id ≠ id) : (.fired e.timer now : Event κ τ).Apart id :=
    Event.apart fun heq => hne (Option.some.inj heq)
  exact
    { ht with
      held := fun t hmem => { ht.held t hmem with }
      armed := fun e' hmem =>
        (hapart (hother e' hmem)).armed (ht.armed e' (List.mem_cons_of_mem e hmem))
      firing := by simp [Phase.timer?, Event.fires]
      scheduled := fun id hid => by
        by_cases heq : e.timer.id = id
        · exact heq ▸ hfollows.known
        · rw [List.any_cons, (hapart heq).fires, Bool.false_or] at hid
          exact ht.scheduled id hid
      fired := fun id hr => by rw [List.any_cons, ht.fired id hr, Bool.or_true]
      atMostOnce := fun id hid => by
        by_cases heq : e.timer.id = id
        · subst heq
          have honce : e.timer.interval.isNone = true := hfollows.once ▸ hid
          have hunfired := (ht.armed e (List.mem_cons_self ..)).unfired
            (Option.isNone_iff_eq_none.1 honce)
          have hzero : h.countP (Event.fires e.timer.id) = 0 :=
            List.countP_eq_zero.2 (by simpa using hunfired)
          rw [List.countP_cons, hzero]
          split <;> omega
        · rw [List.countP_cons, (hapart heq).fires]
          exact ht.atMostOnce id hid }

/-- An idle loop has nothing to keep. -/
theorem clear (ht : Tracked h ⟨l, .asking⟩) :
    Tracked (.idle :: h) ⟨{ l with entries := [], cancelled := [] }, .between⟩ :=
  { ht with
    nodup := List.nodup_nil
    held := nofun
    armed := nofun
    firing := nofun
    cancelled := nofun }

theorem schedule (ht : Tracked h ⟨l, p⟩) (now : Nat) (callback : κ) (delay : Nat)
    (repeating : Bool) :
    Tracked (.scheduled l.nextId now delay repeating :: h)
      ⟨(l.schedule now callback delay repeating).2, p⟩ := by
  obtain ⟨hschedules, honce, hcancels, hfires, hrearms⟩ := ht.unseen (Nat.le_refl l.nextId)
  have hapart {id : Nat} (hne : l.nextId ≠ id) :
      (.scheduled l.nextId now delay repeating : Event κ τ).Apart id :=
    Event.apart fun heq => hne (Option.some.inj heq)
  have hheld : ∀ t ∈ (⟨l, p⟩ : Driver κ τ).held, l.nextId ≠ t.id := fun t hmem =>
    Nat.ne_of_gt (ht.fresh t.id (ht.held t hmem).known)
  have hperm : (⟨(l.schedule now callback delay repeating).2, p⟩ : Driver κ τ).held.Perm
      (⟨l.nextId, callback, if repeating then some delay else none⟩ ::
        (⟨l, p⟩ : Driver κ τ).held) := held_arm _ p _ _
  constructor
  · rw [(hperm.map Timer.id).nodup_iff]
    refine List.nodup_cons.2 ⟨fun hmem => ?_, ht.nodup⟩
    obtain ⟨t, hmem, heq⟩ := List.mem_map.1 hmem
    exact hheld t hmem heq.symm
  · intro t hmem
    rcases List.mem_cons.1 (hperm.mem_iff.1 hmem) with rfl | hmem
    · constructor
      · simp [Event.schedules]
      · cases repeating <;> simp [Event.schedulesOnce, honce]
      · exact fun _ => hrearms
      · exact fun hc => absurd (hcancels.symm.trans hc) (by simp)
    · exact (hapart (hheld t hmem)).follows (ht.held t hmem)
  · intro e hmem
    rcases List.mem_cons.1 ((insertEntry_perm _ _).mem_iff.1 hmem) with rfl | hmem
    · exact ⟨by simp [lastDeadline?, Event.deadline?], fun _ => hfires⟩
    · refine (hapart (hheld e.timer ?_)).armed (ht.armed e hmem)
      exact List.mem_append_right _ (List.mem_map_of_mem hmem)
  · exact ht.firing
  · exact ht.cancelled
  · intro id
    have hlive : id ∈ (l.schedule now callback delay repeating).2.live ↔
        id ∈ l.live ∨ id = l.nextId := by
      simp [EventLoop.schedule, EventLoop.arm]
    rw [hlive, ht.live]
    by_cases heq : l.nextId = id
    · subst heq
      simp [isPending, Event.schedules, Event.cancels, Event.rearms, hcancels, hrearms]
    · rw [(hapart heq).isPending]
      simp [Ne.symm heq]
  · have hfresh : l.nextId ∉ l.live := by
      simp [ht.live, isPending, hschedules]
    exact List.nodup_append.2 ⟨ht.live_nodup, List.nodup_singleton _, by grind⟩
  · intro id hid
    by_cases heq : l.nextId = id
    · exact heq ▸ Nat.lt_succ_self _
    · rw [List.any_cons, (hapart heq).schedules, Bool.false_or] at hid
      exact Nat.lt_succ_of_lt (ht.fresh id hid)
  · intro id hid
    rw [List.any_cons, ht.scheduled id hid, Bool.or_true]
  · exact ht.fired
  · intro id hid
    by_cases heq : l.nextId = id
    · subst heq
      have hzero : h.countP (Event.fires l.nextId) = 0 :=
        List.countP_eq_zero.2 (by simpa using hfires)
      rw [List.countP_cons, hzero]
      exact Nat.zero_le 1
    · rw [List.any_cons, (hapart heq).schedulesOnce, Bool.false_or] at hid
      exact ht.atMostOnce id hid

theorem cancel (ht : Tracked h ⟨l, p⟩) (id : Nat) :
    Tracked (.cancelled id (l.cancel id).1 :: h) ⟨(l.cancel id).2, p⟩ := by
  by_cases hmem : id ∈ l.live
  · have hcancel : l.cancel id =
        (true, { l with live := l.live.erase id, cancelled := l.cancelled ++ [id] }) := by
      simp [EventLoop.cancel, hmem]
    have hapart {i : Nat} (hne : id ≠ i) : (.cancelled id true : Event κ τ).Apart i :=
      Event.apart fun heq => hne (Option.some.inj heq)
    rw [hcancel]
    exact
      { ht with
        held := fun t ht' =>
          { ht.held t ht' with
            marked := fun hc => by
              by_cases heq : id = t.id
              · simp [heq]
              · rw [List.any_cons, (hapart heq).cancels, Bool.false_or] at hc
                exact List.mem_append_left _ ((ht.held t ht').marked hc) }
        armed := fun e he => { ht.armed e he with }
        cancelled := fun i hi => by
          rcases List.mem_append.1 hi with hi | hi
          · rw [List.any_cons, ht.cancelled i hi, Bool.or_true]
          · simp [Event.cancels, List.mem_singleton.1 hi]
        live := fun i => by
          by_cases heq : id = i
          · subst heq
            simp [isPending, Event.cancels, ht.live_nodup.not_mem_erase]
          · rw [List.mem_erase_of_ne (Ne.symm heq), (hapart heq).isPending]
            exact ht.live i
        live_nodup := ht.live_nodup.erase id
        scheduled := fun i hi => by
          by_cases heq : id = i
          · subst heq
            have hpending := (ht.live id).1 hmem
            simp only [isPending, Bool.and_eq_true] at hpending
            exact hpending.1.1
          · rw [List.any_cons, List.any_cons, (hapart heq).fires, (hapart heq).cancels] at hi
            exact ht.scheduled i hi }
  · have hcancel : l.cancel id = (false, l) := by simp [EventLoop.cancel, hmem]
    rw [hcancel]
    refine ht.quiet (fun i => ?_) p rfl l.tasks l.outstanding
    exact ⟨rfl, rfl, Bool.and_false _, rfl, rfl, rfl⟩

theorem rearm {t : Timer κ} (ht : Tracked h ⟨l, .firing t⟩) (now : Nat) :
    Tracked (.rearmed t now :: h) ⟨l.rearm now t, .between⟩ := by
  have hapart {i : Nat} (hne : t.id ≠ i) : (.rearmed t now : Event κ τ).Apart i :=
    Event.apart fun heq => hne (Option.some.inj heq)
  obtain ⟨hnot, hnodup⟩ : t.id ∉ (l.entries.map TimerEntry.timer).map Timer.id ∧
      ((l.entries.map TimerEntry.timer).map Timer.id).Nodup := List.nodup_cons.1 ht.nodup
  have hother : ∀ t' ∈ l.entries.map TimerEntry.timer, t.id ≠ t'.id := fun t' hmem heq =>
    hnot (heq ▸ List.mem_map_of_mem hmem)
  have hfollows := ht.held t (List.mem_cons_self ..)
  have hheld : ∀ t' ∈ l.entries.map TimerEntry.timer,
      Follows (.rearmed t now :: h) l.cancelled t' := fun t' hmem =>
    (hapart (hother t' hmem)).follows (ht.held t' (List.mem_cons_of_mem t hmem))
  have harmed : ∀ e ∈ l.entries, Armed (.rearmed t now :: h) e := fun e hmem =>
    (hapart (hother e.timer (List.mem_map_of_mem hmem))).armed (ht.armed e hmem)
  have hfired : ∀ id, List.any (.rearmed t now :: h) (Event.rearms id) →
      List.any (.rearmed t now :: h) (Event.fires id) := by
    intro id hid
    by_cases heq : t.id = id
    · exact heq ▸ ht.firing t rfl
    · rw [List.any_cons, (hapart heq).rearms, Bool.false_or] at hid
      exact ht.fired id hid
  have hlive (hsame : isPending t.id (.rearmed t now :: h) = isPending t.id h) (id : Nat) :
      id ∈ l.live ↔ isPending id (.rearmed t now :: h) := by
    by_cases heq : t.id = id
    · rw [← heq, hsame]
      exact ht.live t.id
    · rw [(hapart heq).isPending]
      exact ht.live id
  unfold EventLoop.rearm
  split
  next hc =>
    have hcancelled := ht.cancelled t.id (List.contains_iff_mem.1 hc)
    exact
      { ht with
        nodup := hnodup
        held := fun t' hmem =>
          { hheld t' hmem with
            marked := fun hc' =>
              (List.mem_erase_of_ne (hother t' hmem).symm).2 ((hheld t' hmem).marked hc') }
        armed := harmed
        firing := nofun
        cancelled := fun id hmem => ht.cancelled id (List.mem_of_mem_erase hmem)
        live := hlive (by simp [isPending, hcancelled])
        fired := hfired }
  next hc =>
    split
    next interval hi =>
      have hperm : (⟨l.arm (now + interval) t, .between⟩ : Driver κ τ).held.Perm
          (t :: l.entries.map TimerEntry.timer) := held_arm l .between _ t
      have honce : h.any (Event.schedulesOnce t.id) = false := by rw [hfollows.once, hi]; rfl
      exact
        { ht with
          nodup := (hperm.map Timer.id).nodup_iff.2 ht.nodup
          held := fun t' hmem => by
            rcases List.mem_cons.1 (hperm.mem_iff.1 hmem) with rfl | hmem
            · exact { hfollows with unfinished := by simp [hi] }
            · exact hheld t' hmem
          armed := fun e hmem => by
            rcases List.mem_cons.1 ((insertEntry_perm _ _).mem_iff.1 hmem) with rfl | hmem
            · exact ⟨by simp [lastDeadline?, Event.deadline?, hi], by simp [hi]⟩
            · exact harmed e hmem
          firing := nofun
          live := hlive (by
            simp [isPending, Event.schedules, Event.cancels, Event.schedulesOnce, honce])
          fired := hfired }
    next hnone =>
      have honce : h.any (Event.schedulesOnce t.id) = true := by rw [hfollows.once, hnone]; rfl
      exact
        { ht with
          nodup := hnodup
          held := hheld
          armed := harmed
          firing := nofun
          live := fun id => by
            by_cases heq : t.id = id
            · subst heq
              simp [isPending, Event.rearms, Event.schedulesOnce, honce,
                ht.live_nodup.not_mem_erase]
            · rw [List.mem_erase_of_ne (Ne.symm heq), (hapart heq).isPending]
              exact ht.live id
          live_nodup := ht.live_nodup.erase t.id
          fired := hfired }

end Tracked

/-- Every step keeps track of the timers. -/
theorem Step.tracked {h : List (Event κ τ)} {s s' : Driver κ τ} {e : Event κ τ}
    (hs : Step s e s') (ht : Tracked h s) : Tracked (e :: h) s' := by
  have hapart (e : Event κ τ) (he : e.subject? = none) (id : Nat) : e.Apart id :=
    Event.apart (by simp [he])
  cases hs with
  | schedule now callback delay repeating => exact ht.schedule now callback delay repeating
  | cancel id => exact ht.cancel id
  | fire now hexpire =>
    obtain ⟨e, rfl, -, -, hfront⟩ :=
      (expire_induct (fun _ _ _ hl _ ht => Tracked.drop ht hl) ht hexpire).2 _ rfl
    exact hfront.fire now
  | rearm now => exact ht.rearm now
  | pass now hexpire =>
    have hrest := (expire_induct (P := fun l => Tracked h ⟨l, .between⟩)
      (fun _ _ _ hl _ ht => Tracked.drop ht hl) ht hexpire).1 rfl
    exact hrest.quiet (hapart .passed rfl) .asking rfl _ _
  | @take _ _ t hlook =>
    obtain ⟨tasks, -, rfl⟩ := look_task hlook
    exact ht.quiet (hapart (.took t) rfl) .between rfl _ _
  | wait hlook =>
    obtain rfl := look_wait hlook
    exact ht.quiet (hapart .waited rfl) .between rfl _ _
  | idle hlook =>
    obtain ⟨-, -, -, rfl⟩ := look_idle hlook
    exact ht.clear
  | beginWork | post | complete | endWork => exact ht.quiet (hapart _ rfl) _ rfl _ _

theorem Run.tracked {h : List (Event κ τ)} {s : Driver κ τ} (r : Run h s) : Tracked h s := by
  induction r with
  | start => exact .start
  | step _ next ih => exact next.tracked ih

section

variable {h : List (Event κ τ)} {id : Nat}

theorem any_schedules : h.any (Event.schedules id) ↔
    ∃ now delay repeating, Event.scheduled id now delay repeating ∈ h := by
  simp only [List.any_eq_true]
  constructor
  · rintro ⟨e, hmem, he⟩
    cases e with
    | scheduled i now delay repeating => exact ⟨now, delay, repeating, beq_iff_eq.1 he ▸ hmem⟩
    | _ => cases he
  · rintro ⟨now, delay, repeating, hmem⟩
    exact ⟨_, hmem, beq_self_eq_true id⟩

theorem any_schedulesOnce : h.any (Event.schedulesOnce id) ↔
    ∃ now delay, Event.scheduled id now delay false ∈ h := by
  simp only [List.any_eq_true]
  constructor
  · rintro ⟨e, hmem, he⟩
    cases e with
    | scheduled i now delay repeating =>
      simp only [Event.schedulesOnce, Bool.and_eq_true, beq_iff_eq, Bool.not_eq_true'] at he
      obtain ⟨rfl, rfl⟩ := he
      exact ⟨now, delay, hmem⟩
    | _ => cases he
  · rintro ⟨now, delay, hmem⟩
    exact ⟨_, hmem, by simp [Event.schedulesOnce]⟩

theorem any_cancels : h.any (Event.cancels id) ↔ Event.cancelled id true ∈ h := by
  simp only [List.any_eq_true]
  constructor
  · rintro ⟨e, hmem, he⟩
    cases e with
    | cancelled i answer =>
      simp only [Event.cancels, Bool.and_eq_true, beq_iff_eq] at he
      obtain ⟨rfl, rfl⟩ := he
      exact hmem
    | _ => cases he
  · intro hmem
    exact ⟨_, hmem, by simp [Event.cancels]⟩

theorem any_fires : h.any (Event.fires id) ↔ ∃ t now, Event.fired t now ∈ h ∧ t.id = id := by
  simp only [List.any_eq_true]
  constructor
  · rintro ⟨e, hmem, he⟩
    cases e with
    | fired t now => exact ⟨t, now, hmem, beq_iff_eq.1 he⟩
    | _ => cases he
  · rintro ⟨t, now, hmem, rfl⟩
    exact ⟨_, hmem, beq_self_eq_true t.id⟩

theorem any_rearms : h.any (Event.rearms id) ↔ ∃ t now, Event.rearmed t now ∈ h ∧ t.id = id := by
  simp only [List.any_eq_true]
  constructor
  · rintro ⟨e, hmem, he⟩
    cases e with
    | rearmed t now => exact ⟨t, now, hmem, beq_iff_eq.1 he⟩
    | _ => cases he
  · rintro ⟨t, now, hmem, rfl⟩
    exact ⟨_, hmem, beq_self_eq_true t.id⟩

end

/-- A timer that is handed out is one whose deadline has come and that was not cancelled. -/
theorem Step.fired_due {past : List (Event κ τ)} {s s' : Driver κ τ} {t : Timer κ} {now : Nat}
    (hs : Step s (.fired t now) s') (ht : Tracked past s) :
    past.any (Event.cancels t.id) = false ∧ ∃ d ≤ now, lastDeadline? t.id past = some d := by
  cases hs with
  | fire now hexpire =>
    obtain ⟨e, rfl, hdue, hnot, hfront⟩ :=
      (expire_induct (fun _ _ _ hl _ ht => Tracked.drop ht hl) ht hexpire).2 _ rfl
    have hfollows := hfront.held e.timer (by simp [Driver.held])
    refine ⟨?_, e.deadline, hdue, (hfront.armed e (List.mem_cons_self ..)).deadline⟩
    simpa using fun hc => hnot (hfollows.marked hc)

/-- When the loop is idle every timer has been handed out or cancelled. -/
theorem Step.idle_over {past : List (Event κ τ)} {s s' : Driver κ τ} (hs : Step s .idle s')
    (ht : Tracked past s) {id : Nat} (hid : past.any (Event.schedules id)) :
    past.any (Event.fires id) ∨ past.any (Event.cancels id) := by
  cases hs with
  | idle hlook =>
    obtain ⟨-, hlive, -, -⟩ := look_idle hlook
    have hpending : ¬ isPending id past := by
      rw [← ht.live, hlive]
      exact List.not_mem_nil
    simp only [isPending, hid, Bool.true_and, Bool.and_eq_true, Bool.not_eq_true'] at hpending
    by_cases hc : past.any (Event.cancels id)
    · exact .inr hc
    · refine .inl (ht.fired id ?_)
      grind

theorem isPending_iff {id : Nat} {h : List (Event κ τ)} : isPending id h ↔
    (∃ now delay repeating, Event.scheduled id now delay repeating ∈ h) ∧
      Event.cancelled id true ∉ h ∧
      ¬ ((∃ now delay, Event.scheduled id now delay false ∈ h) ∧
        ∃ t now, Event.rearmed t now ∈ h ∧ t.id = id) := by
  rw [← any_schedules, ← any_cancels, ← any_schedulesOnce, ← any_rearms, isPending]
  simp only [Bool.and_eq_true, Bool.not_eq_true', Bool.not_eq_true, and_assoc, not_and]
  cases h.any (Event.schedulesOnce id) <;> simp

/-- In every run, whatever the clock reads: a timer is not handed out after it was cancelled; one
that is scheduled to fire once is handed out at most once; none is handed out before the deadline
for which it was armed last; when the loop is idle every timer was handed out or cancelled; and a
cancellation succeeds exactly if the timer was scheduled, was not cancelled before, and is not one
that fires once and whose callback has returned. -/
theorem timers_safe {h : List (Event κ τ)} {s : Driver κ τ} (r : Run h s) :
    (∀ t now past, .fired t now :: past <:+ h → .cancelled t.id true ∉ past) ∧
    (∀ id now delay, .scheduled id now delay false ∈ h → h.countP (Event.fires id) ≤ 1) ∧
    (∀ t now past, .fired t now :: past <:+ h →
      ∃ deadline ≤ now, lastDeadline? t.id past = some deadline) ∧
    (∀ past, .idle :: past <:+ h → ∀ id now delay repeating,
      .scheduled id now delay repeating ∈ past →
        (∃ t time, .fired t time ∈ past ∧ t.id = id) ∨ .cancelled id true ∈ past) ∧
    (∀ id answer past, .cancelled id answer :: past <:+ h → (answer = true ↔
      (∃ now delay repeating, .scheduled id now delay repeating ∈ past) ∧
      .cancelled id true ∉ past ∧
      ¬ ((∃ now delay, .scheduled id now delay false ∈ past) ∧
        ∃ t now, .rearmed t now ∈ past ∧ t.id = id))) := by
  refine ⟨?_, ?_, ?_, ?_, ?_⟩
  · intro t now past hpast
    obtain ⟨s₁, s₂, r₁, hstep, -⟩ := r.before hpast
    rw [← any_cancels, (hstep.fired_due r₁.tracked).1]
    exact Bool.false_ne_true
  · intro id now delay hmem
    exact r.tracked.atMostOnce id (any_schedulesOnce.2 ⟨now, delay, hmem⟩)
  · intro t now past hpast
    obtain ⟨s₁, s₂, r₁, hstep, -⟩ := r.before hpast
    exact (hstep.fired_due r₁.tracked).2
  · intro past hpast id now delay repeating hmem
    obtain ⟨s₁, s₂, r₁, hstep, -⟩ := r.before hpast
    rw [← any_fires, ← any_cancels]
    exact hstep.idle_over r₁.tracked (any_schedules.2 ⟨now, delay, repeating, hmem⟩)
  · intro id answer past hpast
    obtain ⟨s₁, s₂, r₁, hstep, -⟩ := r.before hpast
    rw [← isPending_iff]
    cases hstep with
    | @cancel l =>
    rw [← r₁.tracked.live]
    by_cases hmem : id ∈ l.live <;> simp [cancel, hmem]

/-- A repeating timer that is cancelled by its own callback, beside one that fires once. -/
def selfCancelled : List (Event Unit Unit) :=
  [.idle, .passed, .rearmed ⟨2, (), none⟩ 9, .fired ⟨2, (), none⟩ 8, .cancelled 1 false,
    .rearmed ⟨1, (), some 5⟩ 6, .cancelled 1 true, .fired ⟨1, (), some 5⟩ 5,
    .scheduled 2 1 7 false, .scheduled 1 0 5 true]

theorem selfCancelled_run : ∃ s, Run selfCancelled s := by
  have r₀ : Run ([] : List (Event Unit Unit)) _ := .start
  have r₁ := r₀.step (.schedule 0 () 5 true)
  have r₂ := r₁.step (.schedule 1 () 7 false)
  have r₃ := (r₂.step (.fire 5 rfl)).step (.cancel 1)
  have r₄ := (r₃.step (.rearm 6)).step (.cancel 1)
  have r₅ := (r₄.step (.fire 8 rfl)).step (.rearm 9)
  exact ⟨_, (r₅.step (.pass 9 rfl)).step (.idle rfl)⟩

/-- Neither timer of that run is handed out twice, the second one not before its deadline, and both
are over when the loop is idle. -/
theorem selfCancelled_safe : ∃ s, Run selfCancelled s ∧
    selfCancelled.countP (Event.fires 2) ≤ 1 ∧
    (∃ deadline ≤ 8, lastDeadline? 2 (selfCancelled.drop 4) = some deadline) ∧
    ((∃ t time, .fired t time ∈ selfCancelled.drop 1 ∧ t.id = 1) ∨
      .cancelled 1 true ∈ selfCancelled.drop 1) := by
  obtain ⟨s, r⟩ := selfCancelled_run
  obtain ⟨-, honce, hdue, hidle, -⟩ := timers_safe r
  refine ⟨s, r, honce 2 1 7 (by simp [selfCancelled]), ?_, ?_⟩
  · exact hdue ⟨2, (), none⟩ 8 _ (List.drop_suffix 3 selfCancelled)
  · exact hidle _ (List.suffix_refl selfCancelled) 1 0 5 true (by simp)

end ScriptEngine.EventLoop
