import ScriptEngine.Concurrency.ListenerControl
import ScriptEngine.Proofs.Concurrency.Completions
import Mathlib.Logic.Function.Basic

/-!
# Outstanding work of fetches and listeners

The program begins a unit of work for each fetch and for each listener. A thread of its own
completes the fetch. The unit of a listener is given back by the program when it closes the
listener, alone or with all others, or by the thread that accepts connections, which leaves when it
is told to: each first looks whether the other one was there before, and lowers the counter in a
later step. The steps of the program, of all these threads and of the loop follow each other in any
order.
-/
namespace ScriptEngine

/-- The two sides of a listener. -/
inductive Side where
  | program | thread
deriving DecidableEq

theorem Side.forall_iff {p : Side → Prop} : (∀ side, p side) ↔ p .program ∧ p .thread :=
  ⟨fun h => ⟨h .program, h .thread⟩, fun h side => side.casesOn h.1 h.2⟩

/-- How far one side is. -/
inductive Stage where
  | absent
  /-- The unit is begun, and the thread is not started yet. -/
  | opening
  | serving
  /-- About to look whether it is the first to give the unit back. -/
  | claiming
  /-- It was the first, and will lower the counter. -/
  | ending
  | over
deriving DecidableEq

/-- How often a side is about to lower the counter. -/
def Stage.ends (s : Stage) : Nat := if s = .ending then 1 else 0

/-- A listener as both sides know it. -/
structure Listening where
  control : ListenerControl
  stage : Side → Stage

namespace Listening

def new : Listening := ⟨.new, fun _ => .absent⟩

/-- One side has come to a stage. -/
def reach (l : Listening) (side : Side) (stage : Stage) : Listening :=
  { l with stage := Function.update l.stage side stage }

/-- What becomes of the unit of a listener. -/
inductive Event where
  | begun
  | released
  | aside
deriving DecidableEq

/-- One step of one side. -/
inductive Step : Listening → Event → Listening → Prop
  | begin {l : Listening} (h : l.stage .program = .absent) :
      Step l .begun (l.reach .program .opening)
  | serve {l : Listening} (h : l.stage .program = .opening) :
      Step l .aside ((l.reach .program .serving).reach .thread .serving)
  /-- The thread cannot be started. -/
  | giveUp {l : Listening} (h : l.stage .program = .opening) :
      Step l .aside (l.reach .program .claiming)
  /-- The program closes the listener, by itself or with all others. -/
  | stop {l : Listening} (h : l.stage .program = .serving) :
      Step l .aside { l.reach .program .claiming with control := l.control.stop }
  /-- The thread sees that it is to stop. -/
  | leave {l : Listening} (h : l.stage .thread = .serving) (hstopped : l.control.stopped = true) :
      Step l .aside (l.reach .thread .claiming)
  | claim {l : Listening} (side : Side) (h : l.stage side = .claiming) :
      Step l .aside
        { l.reach side (if l.control.claim.1 then .ending else .over) with
          control := l.control.claim.2 }
  | release {l : Listening} (side : Side) (h : l.stage side = .ending) :
      Step l .released (l.reach side .over)

/-- What holds of a listener for which the counter was lowered `n` times. -/
structure Follows (n : Nat) (l : Listening) : Prop where
  /-- The flag is raised by the side that lowers the counter, now or soon. -/
  once : n + (l.stage .program).ends + (l.stage .thread).ends = l.control.released.toNat
  raised : ∀ side, l.stage side = .ending ∨ l.stage side = .over → l.control.released = true
  begun : l.control.released = true → l.stage .program ≠ .absent ∧ l.stage .program ≠ .opening
  started : l.stage .program = .absent ∨ l.stage .program = .opening → l.stage .thread = .absent

theorem follows_new : Follows 0 new := by
  refine ⟨rfl, fun side h => ?_, nofun, fun _ => rfl⟩
  rcases h with h | h <;> cases h

theorem Step.follows {l l' : Listening} {e : Event} {n : Nat} (hs : Step l e l')
    (hl : Follows n l) : Follows (if e = .released then n + 1 else n) l' := by
  obtain ⟨once, raised, begun, started⟩ := hl
  rw [Side.forall_iff] at raised
  cases hs with
  | begin h | serve h | giveUp h | leave h hstopped =>
    constructor <;> simp_all [reach, Stage.ends, Side.forall_iff]
  | stop h =>
    constructor <;> simp_all [reach, Stage.ends, Side.forall_iff, ListenerControl.stop]
  | claim side h =>
    -- Whoever finds the flag down raises it, and the other side finds it raised.
    cases hr : l.control.released <;> cases side <;> constructor <;>
      simp_all [reach, Stage.ends, ListenerControl.claim]
  | release side h =>
    cases side <;> constructor <;> simp_all [reach, Stage.ends]

theorem Step.begins {l l' : Listening} {e : Event} (hs : Step l e l') :
    l'.stage .program = .absent ↔ l.stage .program = .absent ∧ e ≠ .begun := by
  cases hs with
  | begin h | serve h | giveUp h | stop h => simp [reach, h]
  | leave => simp [reach]
  | claim side h | release side h => cases side <;> simp_all [reach, apply_ite (· = Stage.absent)]

/-- A side lowers the counter once at most, and not before it was raised. -/
theorem Follows.release {l l' : Listening} {n : Nat} (hl : Follows n l)
    (hs : Step l .released l') : n = 0 ∧ l.stage .program ≠ .absent := by
  cases hs with
  | release side h =>
    have hraised := hl.raised side (.inl h)
    have honce := hl.once
    refine ⟨?_, (hl.begun hraised).1⟩
    cases side <;> simp [h, hraised, Stage.ends] at honce <;> omega

end Listening

/-- The loop, and what the program and its threads know about the work behind it. Units of work are
told apart by numbers, and a listener has the number of its unit. -/
structure Works (κ τ : Type) where
  driver : EventLoop.Driver κ τ
  lastUnit : Nat
  /-- Fetches whose thread has not completed them. -/
  fetches : List Nat
  listeners : Nat → Listening

namespace Works

variable {κ τ : Type}

def start : Works κ τ := ⟨⟨.empty, .between⟩, 0, [], fun _ => .new⟩

/-- What happens to the outstanding work. -/
inductive Event (κ τ : Type) where
  | fetched (unit : Nat)
  | replied (unit : Nat) (task : τ)
  | listened (server : Nat)
  /-- The counter is lowered for the unit of a listener. -/
  | released (server : Nat)
  /-- One side of a listener does something that the loop does not notice. -/
  | aside (server : Nat)
  /-- The loop does something that has nothing to do with outstanding work. -/
  | loop (event : EventLoop.Event κ τ) (hbegun : event.begun? = none)
      (hfinished : event.finished? = none)

namespace Event

/-- What the loop notices. -/
def onLoop? : Event κ τ → Option (EventLoop.Event κ τ)
  | fetched unit | listened unit => some (.begun unit)
  | replied unit task => some (.completed unit task)
  | released unit => some (.ended unit)
  | aside _ => none
  | loop e _ _ => some e

def fetched? : Event κ τ → Option Nat
  | fetched unit => some unit
  | _ => none

def replied? : Event κ τ → Option Nat
  | replied unit _ => some unit
  | _ => none

def listened? : Event κ τ → Option Nat
  | listened server => some server
  | _ => none

def released? : Event κ τ → Option Nat
  | released server => some server
  | _ => none

/-- Whether the counter of outstanding work is lowered. -/
def Lowers (e : Event κ τ) : Prop := e.replied?.isSome ∨ e.released?.isSome

end Event

/-- The fetches that were begun, the latest first. -/
def fetched (h : List (Event κ τ)) : List Nat := h.filterMap Event.fetched?

def replied (h : List (Event κ τ)) : List Nat := h.filterMap Event.replied?

def listened (h : List (Event κ τ)) : List Nat := h.filterMap Event.listened?

/-- The listeners for whose unit the counter was lowered, once for each time. -/
def released (h : List (Event κ τ)) : List Nat := h.filterMap Event.released?

/-- The fetches that were begun and not yet completed. -/
def inFlight (h : List (Event κ τ)) : List Nat := (fetched h).filter (· ∉ replied h)

/-- The listeners whose unit has not been given back. -/
def unreleased (h : List (Event κ τ)) : List Nat := (listened h).filter (· ∉ released h)

/-- One step of the program, of a thread, or of the loop. -/
inductive Step : Works κ τ → Event κ τ → Works κ τ → Prop
  | fetch {s : Works κ τ} {d : EventLoop.Driver κ τ}
      (hd : EventLoop.Step s.driver (.begun (s.lastUnit + 1)) d) :
      Step s (.fetched (s.lastUnit + 1))
        { s with
          driver := d, lastUnit := s.lastUnit + 1, fetches := (s.lastUnit + 1) :: s.fetches }
  | reply {s : Works κ τ} {d : EventLoop.Driver κ τ} {unit : Nat} {task : τ}
      (hu : unit ∈ s.fetches) (hd : EventLoop.Step s.driver (.completed unit task) d) :
      Step s (.replied unit task) { s with driver := d, fetches := s.fetches.erase unit }
  | listen {s : Works κ τ} {d : EventLoop.Driver κ τ} {l : Listening}
      (hl : (s.listeners (s.lastUnit + 1)).Step .begun l)
      (hd : EventLoop.Step s.driver (.begun (s.lastUnit + 1)) d) :
      Step s (.listened (s.lastUnit + 1))
        { s with
          driver := d, lastUnit := s.lastUnit + 1
          listeners := Function.update s.listeners (s.lastUnit + 1) l }
  | aside {s : Works κ τ} {u : Nat} {l : Listening} (hl : (s.listeners u).Step .aside l) :
      Step s (.aside u) { s with listeners := Function.update s.listeners u l }
  | release {s : Works κ τ} {d : EventLoop.Driver κ τ} {u : Nat} {l : Listening}
      (hl : (s.listeners u).Step .released l) (hd : EventLoop.Step s.driver (.ended u) d) :
      Step s (.released u) { s with driver := d, listeners := Function.update s.listeners u l }
  | loop {s : Works κ τ} {d : EventLoop.Driver κ τ} {e : EventLoop.Event κ τ}
      (hbegun : e.begun? = none) (hfinished : e.finished? = none)
      (hd : EventLoop.Step s.driver e d) :
      Step s (.loop e hbegun hfinished) { s with driver := d }

/-- Runs from a loop without any work, with all that happened, the latest first. -/
inductive Run : List (Event κ τ) → Works κ τ → Prop
  | start : Run [] start
  | step {h : List (Event κ τ)} {s s' : Works κ τ} {e : Event κ τ} (r : Run h s)
      (next : Step s e s') : Run (e :: h) s'

/-- What holds of the fetches and listeners after everything that happened. -/
structure Follows (h : List (Event κ τ)) (s : Works κ τ) : Prop where
  /-- Units are numbered as they are begun. -/
  bounded : ∀ u ∈ fetched h ++ listened h, u ≤ s.lastUnit
  nodup : (fetched h ++ listened h).Nodup
  fetches : (fetched h).Perm (s.fetches ++ replied h)
  begun : ∀ u, (s.listeners u).stage .program = .absent ↔ u ∉ listened h
  listeners : ∀ u, (s.listeners u).Follows ((released h).count u)

theorem Follows.fresh {h : List (Event κ τ)} {s : Works κ τ} (hf : Follows h s) :
    s.lastUnit + 1 ∉ fetched h ++ listened h :=
  fun hmem => absurd (hf.bounded _ hmem) (Nat.not_succ_le_self _)

section

variable {h : List (Event κ τ)} {s : Works κ τ} {server : Nat} {e : Listening.Event} {l : Listening}

theorem Follows.begun_update (hf : Follows h s) (hl : (s.listeners server).Step e l) (u : Nat) :
    (Function.update s.listeners server l u).stage .program = .absent ↔
      u ∉ listened h ∧ ¬ (u = server ∧ e = .begun) := by
  by_cases hu : u = server
  · subst hu
    simp [hl.begins, hf.begun]
  · simp [hu, hf.begun]

theorem Follows.listeners_update (hf : Follows h s) (hl : (s.listeners server).Step e l)
    (he : e ≠ .released) (u : Nat) :
    (Function.update s.listeners server l u).Follows ((released h).count u) := by
  by_cases hu : u = server
  · subst hu
    simpa [he] using hl.follows (hf.listeners u)
  · simpa [hu] using hf.listeners u

theorem Follows.listeners_release (hf : Follows h s) (hl : (s.listeners server).Step .released l)
    (u : Nat) :
    (Function.update s.listeners server l u).Follows ((server :: released h).count u) := by
  by_cases hu : u = server
  · subst hu
    simpa using hl.follows (hf.listeners u)
  · simpa [hu, Ne.symm hu, List.count_cons] using hf.listeners u

end

theorem Follows.step {h : List (Event κ τ)} {s s' : Works κ τ} {e : Event κ τ} (hf : Follows h s)
    (hs : Step s e s') : Follows (e :: h) s' := by
  have hbounded (u : Nat) (hu : u ∈ (s.lastUnit + 1) :: (fetched h ++ listened h)) :
      u ≤ s.lastUnit + 1 := by
    rcases List.mem_cons.1 hu with rfl | hu
    · exact Nat.le_refl _
    · exact Nat.le_succ_of_le (hf.bounded u hu)
  have hnodup : ((s.lastUnit + 1) :: (fetched h ++ listened h)).Nodup := hf.nodup.cons hf.fresh
  cases hs with
  | fetch => exact ⟨hbounded, hnodup, hf.fetches.cons _, hf.begun, hf.listeners⟩
  | reply hu =>
    refine ⟨hf.bounded, hf.nodup, hf.fetches.trans ?_, hf.begun, hf.listeners⟩
    exact ((List.perm_cons_erase hu).append_right _).trans List.perm_middle.symm
  | listen hl =>
    have hperm : (fetched h ++ (s.lastUnit + 1) :: listened h).Perm
        ((s.lastUnit + 1) :: (fetched h ++ listened h)) := List.perm_middle
    refine ⟨fun u hu => hbounded u (hperm.mem_iff.1 hu), hperm.nodup_iff.2 hnodup, hf.fetches,
      fun u => (hf.begun_update hl u).trans ?_, hf.listeners_update hl nofun⟩
    simp [listened, Event.listened?, and_comm]
  | aside hl =>
    refine ⟨hf.bounded, hf.nodup, hf.fetches, fun u => (hf.begun_update hl u).trans ?_,
      hf.listeners_update hl nofun⟩
    simp [listened, Event.listened?]
  | release hl =>
    refine ⟨hf.bounded, hf.nodup, hf.fetches, fun u => (hf.begun_update hl u).trans ?_,
      hf.listeners_release hl⟩
    simp [listened, Event.listened?]
  | loop => exact ⟨hf.bounded, hf.nodup, hf.fetches, hf.begun, hf.listeners⟩

theorem Run.follows {h : List (Event κ τ)} {s : Works κ τ} (r : Run h s) : Follows h s := by
  induction r with
  | start =>
    exact ⟨nofun, .nil, .nil, fun _ => ⟨fun _ => nofun, fun _ => rfl⟩,
      fun _ => Listening.follows_new⟩
  | step _ next ih => exact ih.step next

/-! The counter -/

section

variable {h : List (Event κ τ)} {s : Works κ τ}

theorem Follows.replied_nodup (hf : Follows h s) : (replied h).Nodup :=
  (List.nodup_append.1 (hf.fetches.nodup_iff.1 (List.nodup_append.1 hf.nodup).1)).2.1

theorem Follows.replied_subset (hf : Follows h s) : replied h ⊆ fetched h :=
  fun _ hu => hf.fetches.mem_iff.2 (List.mem_append_right _ hu)

theorem Follows.count_released_le (hf : Follows h s) (u : Nat) : (released h).count u ≤ 1 := by
  have honce := (hf.listeners u).once
  have hflag := Bool.toNat_le (s.listeners u).control.released
  omega

/-- The program is done with a listener, and the other side will not lower the counter any more. -/
theorem Follows.count_released (hf : Follows h s) {u : Nat}
    (hprogram : (s.listeners u).stage .program = .over)
    (hthread : (s.listeners u).stage .thread ≠ .ending) : (released h).count u = 1 := by
  have hraised := (hf.listeners u).raised .program (.inr hprogram)
  have honce := (hf.listeners u).once
  simpa [hprogram, hthread, hraised, Stage.ends] using honce

theorem Follows.released_nodup (hf : Follows h s) : (released h).Nodup :=
  List.nodup_iff_count_le_one.2 hf.count_released_le

theorem Follows.released_subset (hf : Follows h s) : released h ⊆ listened h := by
  intro u hu
  have hcount := List.count_pos_iff.2 hu
  have hraised : (s.listeners u).control.released = true := by
    have honce := (hf.listeners u).once
    cases hr : (s.listeners u).control.released <;> simp [hr] at honce ⊢
    omega
  by_contra hmem
  exact ((hf.listeners u).begun hraised).1 ((hf.begun u).2 hmem)

end

/-- Taking some of the elements of a list away leaves the others. -/
theorem length_filter_notMem {xs ys : List Nat} (hxs : xs.Nodup) (hys : ys.Nodup) (h : ys ⊆ xs) :
    (xs.filter (· ∉ ys)).length + ys.length = xs.length := by
  have hperm : (xs.filter (· ∈ ys)).Perm ys :=
    (List.perm_ext_iff_of_nodup (hxs.filter _) hys).2 fun u => by
      simpa using fun hu => h hu
  have hsplit := xs.length_eq_length_filter_add (· ∈ ys)
  rw [hperm.length_eq] at hsplit
  simp only [decide_not]
  omega

/-! On the loop -/

/-- What the loop notices of all that happened. -/
def onLoop (h : List (Event κ τ)) : List (EventLoop.Event κ τ) := h.filterMap Event.onLoop?

theorem begun_onLoop (h : List (Event κ τ)) :
    ((onLoop h).filterMap EventLoop.Event.begun?).Perm (fetched h ++ listened h) := by
  induction h with
  | nil => exact .nil
  | cons e h ih =>
    cases e with
    | fetched u => exact ih.cons u
    | listened u => exact (ih.cons u).trans List.perm_middle.symm
    | loop e hbegun =>
      change ((e :: onLoop h).filterMap EventLoop.Event.begun?).Perm (fetched h ++ listened h)
      rwa [List.filterMap_cons_none hbegun]
    | _ => exact ih

theorem finished_onLoop (h : List (Event κ τ)) :
    ((onLoop h).filterMap EventLoop.Event.finished?).Perm (replied h ++ released h) := by
  induction h with
  | nil => exact .nil
  | cons e h ih =>
    cases e with
    | replied u => exact ih.cons u
    | released u => exact (ih.cons u).trans List.perm_middle.symm
    | loop e _ hfinished =>
      change ((e :: onLoop h).filterMap EventLoop.Event.finished?).Perm (replied h ++ released h)
      rwa [List.filterMap_cons_none hfinished]
    | _ => exact ih

theorem Run.onLoop {h : List (Event κ τ)} {s : Works κ τ} (r : Run h s) :
    EventLoop.Run (onLoop h) s.driver := by
  induction r with
  | start => exact .start
  | step _ next ih =>
    cases next with
    | aside => exact ih
    | fetch hd | listen _ hd | reply _ hd | release _ hd | loop _ _ hd => exact ih.step hd

/-- A unit that is begun and not over may end. -/
theorem lawful_of {h : List (Event κ τ)} {e : EventLoop.Event κ τ} {u : Nat}
    (he : e.finished? = some u) (hbegun : u ∈ fetched h ++ listened h)
    (hfinished : u ∉ replied h ++ released h) : e.Lawful (onLoop h) := by
  intro work hwork
  obtain rfl : u = work := Option.some.inj (he.symm.trans hwork)
  constructor
  · obtain ⟨e', hmem, he'⟩ := List.mem_filterMap.1 ((begun_onLoop h).mem_iff.2 hbegun)
    cases e' with
    | begun w =>
      obtain rfl : w = u := Option.some.inj he'
      exact hmem
    | _ => cases he'
  · intro e' hmem he'
    exact hfinished ((finished_onLoop h).mem_iff.1 (List.mem_filterMap.2 ⟨e', hmem, he'⟩))

theorem Follows.disjoint {h : List (Event κ τ)} {s : Works κ τ} (hf : Follows h s) {u : Nat}
    (hfetched : u ∈ fetched h) : u ∉ listened h :=
  fun hlistened => (List.nodup_append.1 hf.nodup).2.2 u hfetched u hlistened rfl

theorem Step.lawful {h : List (Event κ τ)} {s s' : Works κ τ} {e : Event κ τ} (hs : Step s e s')
    (hf : Follows h s) : ∀ e' ∈ e.onLoop?, e'.Lawful (onLoop h) := by
  rintro e' he'
  cases hs with
  | fetch | listen =>
    cases he'
    exact nofun
  | aside => cases he'
  | loop _ hfinished =>
    cases he'
    simp [EventLoop.Event.Lawful, hfinished]
  | @reply _ unit _ hu =>
    cases he'
    have hfetched : unit ∈ fetched h := hf.fetches.mem_iff.2 (List.mem_append_left _ hu)
    refine lawful_of rfl (List.mem_append_left _ hfetched) fun hmem => ?_
    rcases List.mem_append.1 hmem with hreplied | hreleased
    · have hnodup := hf.fetches.nodup_iff.1 (List.nodup_append.1 hf.nodup).1
      exact (List.nodup_append.1 hnodup).2.2 unit hu unit hreplied rfl
    · exact hf.disjoint hfetched (hf.released_subset hreleased)
  | @release _ server _ hl =>
    cases he'
    obtain ⟨hnone, hpresent⟩ := (hf.listeners server).release hl
    have hlistened : server ∈ listened h :=
      Classical.not_not.1 fun hmem => hpresent ((hf.begun server).2 hmem)
    refine lawful_of rfl (List.mem_append_right _ hlistened) fun hmem => ?_
    rcases List.mem_append.1 hmem with hreplied | hreleased
    · exact hf.disjoint (hf.replied_subset hreplied) hlistened
    · exact List.count_eq_zero.1 hnone hreleased

/-- On the loop each unit of work ends at most once, and not before it was begun. -/
theorem Run.disciplined {h : List (Event κ τ)} {s : Works κ τ} (r : Run h s) :
    EventLoop.Disciplined (Works.onLoop h) := by
  induction r with
  | start => trivial
  | @step h s s' e r next ih =>
    have hlawful := next.lawful r.follows
    cases he : e.onLoop? with
    | none => simpa [Works.onLoop, he] using ih
    | some e' => simpa [Works.onLoop, he] using ⟨hlawful e' he, ih⟩

/-- What was begun is what is outstanding and what is over. -/
theorem Run.counted {h : List (Event κ τ)} {s : Works κ τ} (r : Run h s) :
    (fetched h).length + (listened h).length =
      s.driver.loop.outstanding + (replied h).length + (released h).length := by
  obtain ⟨unfinished, hlength, hperm⟩ := r.onLoop.accounts r.disciplined
  have hbegun := (begun_onLoop h).length_eq
  have hfinished := (finished_onLoop h).length_eq
  have htotal := hperm.length_eq
  simp only [List.length_append] at hbegun hfinished htotal
  omega

/-- The outstanding work is that of the fetches in flight and of the listeners whose unit has not
been given back. -/
theorem Run.outstanding_eq {h : List (Event κ τ)} {s : Works κ τ} (r : Run h s) :
    s.driver.loop.outstanding = (inFlight h).length + (unreleased h).length := by
  have hf := r.follows
  obtain ⟨hfetched, hlistened, -⟩ := List.nodup_append.1 hf.nodup
  have hreplies := length_filter_notMem hfetched hf.replied_nodup hf.replied_subset
  have hreleases := length_filter_notMem hlistened hf.released_nodup hf.released_subset
  have hcounted := r.counted
  unfold inFlight unreleased
  omega

/-- The counter is not zero when it is lowered. -/
theorem Run.outstanding_pos {h : List (Event κ τ)} {s s' : Works κ τ} {e : Event κ τ}
    (r : Run h s) (hs : Step s e s') (he : e.Lowers) : 0 < s.driver.loop.outstanding := by
  have hbefore := r.counted
  have hafter := (r.step hs).counted
  cases hs with
  | fetch | listen | aside | loop => simp [Event.Lowers, Event.replied?, Event.released?] at he
  | @reply d =>
    have hover : (fetched h).length + (listened h).length =
      d.loop.outstanding + ((replied h).length + 1) + (released h).length := hafter
    omega
  | @release d =>
    have hover : (fetched h).length + (listened h).length =
      d.loop.outstanding + (replied h).length + ((released h).length + 1) := hafter
    omega

/-- However the program, the threads of its fetches and listeners, and the loop take turns: the
outstanding work is that of the fetches in flight and of the listeners whose unit has not been given
back. The unit of a listener is given back once at most; when the program has closed the listener
and the other side is not just about to do it, that has happened, whichever side was first. The
counter is never lowered when it is zero. -/
theorem outstanding_exact {h : List (Event κ τ)} {s : Works κ τ} (r : Run h s) :
    s.driver.loop.outstanding = (inFlight h).length + (unreleased h).length ∧
    (∀ u, (released h).count u ≤ 1) ∧
    (∀ u, (s.listeners u).stage .program = .over → (s.listeners u).stage .thread ≠ .ending →
      (released h).count u = 1) ∧
    ∀ e s', Step s e s' → e.Lowers → 0 < s.driver.loop.outstanding := by
  have hf := r.follows
  exact ⟨r.outstanding_eq, hf.count_released_le, fun _ => hf.count_released,
    fun _ _ => r.outstanding_pos⟩

/-- A listener that is told to stop while a fetch is in flight; its thread is first to give the unit
back, and the program comes too late. -/
def raced : List (Event Unit String) :=
  [.aside 2, .released 2, .aside 2, .aside 2, .aside 2, .aside 2, .listened 2, .fetched 1]

theorem raced_run : ∃ s, Run raced s ∧ (s.listeners 2).stage .program = .over ∧
    (s.listeners 2).stage .thread = .over := by
  have r₁ : Run [.listened 2, .fetched 1] (_ : Works Unit String) :=
    (Run.start.step (.fetch (.beginWork 1))).step (.listen (.begin rfl) (.beginWork 2))
  have r₂ := (r₁.step (.aside (u := 2) (.serve rfl))).step (.aside (u := 2) (.stop rfl))
  have r₃ := (r₂.step (.aside (u := 2) (.leave rfl rfl))).step
    (.aside (u := 2) (.claim .thread rfl))
  have r₄ := (r₃.step (.release (u := 2) (.release .thread rfl) (.endWork 2))).step
    (.aside (u := 2) (.claim .program rfl))
  exact ⟨_, r₄, rfl, rfl⟩

/-- The unit of the listener is given back once, and that of the fetch stays. -/
theorem raced_exact : ∃ s, Run raced s ∧ s.driver.loop.outstanding = 1 ∧ inFlight raced = [1] ∧
    unreleased raced = [] ∧ (released raced).count 2 = 1 := by
  obtain ⟨s, r, hprogram, hthread⟩ := raced_run
  obtain ⟨hcount, -, honce, -⟩ := outstanding_exact r
  exact ⟨s, r, hcount, rfl, rfl, honce 2 hprogram (by simp [hthread])⟩

/-- When the program has closed all listeners and no thread is about to do its part, only fetches
keep the loop going. -/
theorem all_released {h : List (Event κ τ)} {s : Works κ τ} (r : Run h s)
    (hclosed : ∀ u ∈ listened h,
      (s.listeners u).stage .program = .over ∧ (s.listeners u).stage .thread ≠ .ending) :
    s.driver.loop.outstanding = (inFlight h).length := by
  have hnone : unreleased h = [] := by
    refine List.filter_eq_nil_iff.2 fun u hu => ?_
    have hcount := r.follows.count_released (hclosed u hu).1 (hclosed u hu).2
    simpa using List.count_pos_iff.1 (hcount ▸ Nat.one_pos)
  simpa [hnone] using r.outstanding_eq

/-- An idle loop has no fetch in flight, and every listener's unit has been given back. -/
theorem idle_over {h : List (Event κ τ)} {s : Works κ τ} {d : EventLoop.Driver κ τ} (r : Run h s)
    (hd : EventLoop.Step s.driver .idle d) : inFlight h = [] ∧ unreleased h = [] := by
  have hcount := r.outstanding_eq
  generalize s.driver = driver at hd hcount
  cases hd with
  | idle hlook =>
    obtain ⟨-, -, houtstanding, -⟩ := EventLoop.look_idle hlook
    rw [houtstanding] at hcount
    simp only [← List.length_eq_zero_iff]
    omega

end Works

end ScriptEngine
