import ScriptEngine.Concurrency.Waiting
import Mathlib.Logic.Function.Basic

/-!
# Channels under every interleaving

Any number of threads share one channel. What a thread does while it holds the lock is one step, and
the steps of different threads follow each other in any order. A thread that has to wait stays in
its call and may look again after whatever the others did, so waiting is a step that changes
nothing. What went in and what came out is read off the replies alone.
-/
namespace ScriptEngine.Channel

variable {ι α : Type}

/-- All that a call which returns can do. -/
theorem tryCall_cases {c c' : Channel α} {call : ChannelCall α} {reply : ChannelReply α}
    (h : c.tryCall call = some (reply, c')) :
    (∃ x, call = .push x ∧ reply = .refused x ∧ c.closed = true ∧ c' = c) ∨
    (∃ x, call = .push x ∧ reply = .stored ∧ c.closed = false ∧ c.items.length < c.capacity ∧
      c' = { c with items := c.items ++ [x] }) ∨
    (∃ x rest, call = .pop ∧ reply = .popped (some x) ∧ c.items = x :: rest ∧
      c' = { c with items := rest }) ∨
    (call = .pop ∧ reply = .popped none ∧ c.closed = true ∧ c.items = [] ∧ c' = c) := by
  cases call with
  | push x =>
    simp only [tryCall, push] at h
    by_cases hclosed : c.closed = true
    · rw [if_pos hclosed] at h
      obtain ⟨rfl, rfl⟩ := Prod.mk.inj (Option.some.inj h)
      exact .inl ⟨x, rfl, rfl, hclosed, rfl⟩
    · by_cases hroom : c.items.length < c.capacity
      · rw [if_neg hclosed, if_pos hroom] at h
        obtain ⟨rfl, rfl⟩ := Prod.mk.inj (Option.some.inj h)
        exact .inr (.inl ⟨x, rfl, rfl, eq_false_of_ne_true hclosed, hroom, rfl⟩)
      · simp [hclosed, hroom] at h
  | pop =>
    simp only [tryCall, pop] at h
    cases hitems : c.items with
    | cons x rest =>
      simp only [hitems] at h
      obtain ⟨rfl, rfl⟩ := Prod.mk.inj (Option.some.inj h)
      exact .inr (.inr (.inl ⟨x, rest, rfl, rfl, rfl, rfl⟩))
    | nil =>
      by_cases hclosed : c.closed = true
      · simp only [hitems, if_pos hclosed] at h
        obtain ⟨rfl, rfl⟩ := Prod.mk.inj (Option.some.inj h)
        exact .inr (.inr (.inr ⟨rfl, rfl, hclosed, rfl, rfl⟩))
      · simp [hitems, hclosed] at h

/-- A push waits for room, and only as long as the channel is open. -/
theorem tryCall_push_eq_none {c : Channel α} {x : α} :
    c.tryCall (.push x) = none ↔ c.closed = false ∧ c.capacity ≤ c.items.length := by
  unfold tryCall push
  by_cases hclosed : c.closed = true
  · simp [hclosed]
  · by_cases hroom : c.items.length < c.capacity
    · simp [hclosed, hroom]
    · simp [hclosed, hroom, Nat.not_lt.1 hroom]

theorem tryPop_eq (c : Channel α) :
    c.tryPop = (c.items.head?, { c with items := c.items.tail }) := by
  obtain ⟨capacity, items, closed⟩ := c
  cases items <;> rfl

/-- What happens on a shared channel. -/
inductive Event (ι α : Type) where
  /-- The thread begins a call. -/
  | called (thread : ι) (call : ChannelCall α)
  /-- The thread looks and has to wait. -/
  | waited (thread : ι) (call : ChannelCall α)
  /-- The call of the thread returns. -/
  | replied (thread : ι) (call : ChannelCall α) (reply : ChannelReply α)
  | tried (thread : ι) (item : Option α)
  | drained (thread : ι) (items : List α)
  | closed (thread : ι)

namespace Event

/-- The items that go into the channel. -/
def stored : Event ι α → List α
  | replied _ (.push x) .stored => [x]
  | _ => []

/-- The items that come out of the channel. -/
def removed : Event ι α → List α
  | replied _ .pop (.popped item) | tried _ item => item.toList
  | drained _ items => items
  | _ => []

def closes : Event ι α → Bool
  | closed _ => true
  | _ => false

end Event

/-- The items pushed with success so far, the first one first. -/
def stored (h : List (Event ι α)) : List α := h.reverse.flatMap Event.stored

/-- The items that were taken so far, the first one first. -/
def removed (h : List (Event ι α)) : List α := h.reverse.flatMap Event.removed

theorem stored_cons (e : Event ι α) (h : List (Event ι α)) :
    stored (e :: h) = stored h ++ e.stored := by
  simp [stored]

theorem removed_cons (e : Event ι α) (h : List (Event ι α)) :
    removed (e :: h) = removed h ++ e.removed := by
  simp [removed]

theorem any_closes {h : List (Event ι α)} : h.any Event.closes ↔ ∃ t, .closed t ∈ h := by
  constructor
  · intro hany
    obtain ⟨e, hmem, he⟩ := List.any_eq_true.1 hany
    cases e with
    | closed t => exact ⟨t, hmem⟩
    | _ => cases he
  · rintro ⟨t, hmem⟩
    exact List.any_eq_true.2 ⟨_, hmem, rfl⟩

/-- What an event has to do with the channel before and after it. -/
structure Effect (c : Channel α) (e : Event ι α) (c' : Channel α) : Prop where
  /-- Items go in at the end and come out at the front. -/
  items : c.items ++ e.stored = e.removed ++ c'.items
  room : e.stored = [] ∨ c'.items.length ≤ c.capacity
  capacity : c'.capacity = c.capacity
  closed : c'.closed = (c.closed || e.closes)

/-- What holds of the channel after everything that happened. -/
structure Follows (capacity : Nat) (h : List (Event ι α)) (c : Channel α) : Prop where
  capacity : c.capacity = max capacity 1
  room : c.items.length ≤ c.capacity
  items : removed h ++ c.items = stored h
  closed : c.closed = h.any Event.closes

theorem Follows.step {capacity : Nat} {h : List (Event ι α)} {e : Event ι α} {c c' : Channel α}
    (hc : Follows capacity h c) (he : Effect c e c') : Follows capacity (e :: h) c' := by
  refine ⟨he.capacity.trans hc.capacity, ?_, ?_, ?_⟩
  · rw [he.capacity]
    rcases he.room with hnothing | hroom
    · have hitems : c.items = e.removed ++ c'.items := by
        rw [← he.items, hnothing, List.append_nil]
      have hroom := hc.room
      rw [hitems, List.length_append] at hroom
      exact Nat.le_trans (Nat.le_add_left _ _) hroom
    · exact hroom
  · calc removed (e :: h) ++ c'.items
        = removed h ++ (e.removed ++ c'.items) := by rw [removed_cons, List.append_assoc]
      _ = (removed h ++ c.items) ++ e.stored := by rw [← he.items, List.append_assoc]
      _ = stored (e :: h) := by rw [hc.items, stored_cons]
  · rw [he.closed, hc.closed, List.any_cons, Bool.or_comm]

/-- A channel and the call that each thread is in, if any. -/
structure Shared (ι α : Type) where
  channel : Channel α
  pending : ι → Option (ChannelCall α)

variable [DecidableEq ι]

/-- One step of one thread, and what happens in it. -/
inductive Step : Shared ι α → Event ι α → Shared ι α → Prop
  | call {s : Shared ι α} {t : ι} (call : ChannelCall α) (h : s.pending t = none) :
      Step s (.called t call) { s with pending := Function.update s.pending t (some call) }
  | wait {s : Shared ι α} {t : ι} {call : ChannelCall α} (h : s.pending t = some call)
      (hc : s.channel.tryCall call = none) : Step s (.waited t call) s
  | reply {s : Shared ι α} {t : ι} {call : ChannelCall α} {reply : ChannelReply α} {c : Channel α}
      (h : s.pending t = some call) (hc : s.channel.tryCall call = some (reply, c)) :
      Step s (.replied t call reply) ⟨c, Function.update s.pending t none⟩
  | tryPop {s : Shared ι α} {t : ι} (h : s.pending t = none) :
      Step s (.tried t s.channel.tryPop.1) { s with channel := s.channel.tryPop.2 }
  | drain {s : Shared ι α} {t : ι} (h : s.pending t = none) :
      Step s (.drained t s.channel.drain.1) { s with channel := s.channel.drain.2 }
  | close {s : Shared ι α} {t : ι} (h : s.pending t = none) :
      Step s (.closed t) { s with channel := s.channel.close }

/-- Runs on a new channel with no thread in a call, with all that happened, the latest first. -/
inductive Run (capacity : Nat) : List (Event ι α) → Shared ι α → Prop
  | start : Run capacity [] ⟨.empty capacity, fun _ => none⟩
  | step {h : List (Event ι α)} {s s' : Shared ι α} {e : Event ι α} (r : Run capacity h s)
      (next : Step s e s') : Run capacity (e :: h) s'

theorem Step.effect {s s' : Shared ι α} {e : Event ι α} (hs : Step s e s') :
    Effect s.channel e s'.channel := by
  cases hs with
  | call | wait => exact ⟨List.append_nil _, .inl rfl, rfl, (Bool.or_false _).symm⟩
  | close => exact ⟨List.append_nil _, .inl rfl, rfl, (Bool.or_true _).symm⟩
  | drain => exact ⟨rfl, .inl rfl, rfl, (Bool.or_false _).symm⟩
  | tryPop =>
    have hitems : s.channel.items = s.channel.items.head?.toList ++ s.channel.items.tail := by
      cases s.channel.items <;> rfl
    rw [tryPop_eq]
    exact ⟨(List.append_nil _).trans hitems, .inl rfl, rfl, (Bool.or_false _).symm⟩
  | reply _ hc =>
    obtain ⟨x, rfl, rfl, -, rfl⟩ | ⟨x, rfl, rfl, -, hroom, rfl⟩ | ⟨x, rest, rfl, rfl, hitems, rfl⟩ |
      ⟨rfl, rfl, -, -, rfl⟩ := tryCall_cases hc
    · exact ⟨List.append_nil _, .inl rfl, rfl, (Bool.or_false _).symm⟩
    · have hlength : (s.channel.items ++ [x]).length ≤ s.channel.capacity := by
        rw [List.length_append]
        exact hroom
      exact ⟨rfl, .inr hlength, rfl, (Bool.or_false _).symm⟩
    · exact ⟨(List.append_nil _).trans hitems, .inl rfl, rfl, (Bool.or_false _).symm⟩
    · exact ⟨List.append_nil _, .inl rfl, rfl, (Bool.or_false _).symm⟩

theorem Run.follows {capacity : Nat} {h : List (Event ι α)} {s : Shared ι α}
    (r : Run capacity h s) : Follows capacity h s.channel := by
  induction r with
  | start => exact ⟨rfl, Nat.zero_le _, rfl, rfl⟩
  | step _ next ih => exact ih.step next.effect

/-- A push that returns was refused by a closed channel, which it leaves as it is, or put its item
at the end of an open one. -/
theorem Step.push_replied {s s' : Shared ι α} {t : ι} {x : α} {reply : ChannelReply α}
    (hs : Step s (.replied t (.push x) reply) s') :
    (s.channel.closed = true ∧ reply = .refused x ∧ s'.channel = s.channel) ∨
    (s.channel.closed = false ∧ reply = .stored ∧
      s'.channel.items = s.channel.items ++ [x]) := by
  cases hs with
  | reply _ hc =>
    obtain ⟨_, ⟨⟩, rfl, hclosed, rfl⟩ | ⟨_, ⟨⟩, rfl, hclosed, -, rfl⟩ | ⟨_, _, ⟨⟩, _⟩ | ⟨⟨⟩, _⟩ :=
      tryCall_cases hc
    · exact .inl ⟨hclosed, rfl, rfl⟩
    · exact .inr ⟨hclosed, rfl, rfl⟩

theorem Step.push_waited {s s' : Shared ι α} {t : ι} {x : α}
    (hs : Step s (.waited t (.push x)) s') : s.channel.closed = false ∧ s' = s := by
  cases hs with
  | wait _ hc => exact ⟨(tryCall_push_eq_none.1 hc).1, rfl⟩

theorem Step.pop_replied_none {s s' : Shared ι α} {t : ι}
    (hs : Step s (.replied t .pop (.popped none)) s') :
    s.channel.closed = true ∧ s.channel.items = [] := by
  cases hs with
  | reply _ hc =>
    obtain ⟨_, ⟨⟩, _⟩ | ⟨_, ⟨⟩, _⟩ | ⟨_, _, -, ⟨⟩, _⟩ | ⟨-, -, hclosed, hitems, -⟩ :=
      tryCall_cases hc
    exact ⟨hclosed, hitems⟩

/-- However the threads take turns: the channel never holds more items than it has room for; what
was taken and what is still inside are the items pushed with success, in that order. A push that
returns gives its own item back if the channel is closed and stores it if not, and it never waits
on a closed channel; no push goes through once the channel was closed. A pop comes back with
nothing only from a closed and empty channel. -/
theorem bounded_fifo {capacity : Nat} {h : List (Event ι α)} {s : Shared ι α}
    (r : Run capacity h s) :
    s.channel.items.length ≤ max capacity 1 ∧
    removed h ++ s.channel.items = stored h ∧
    (∀ t x reply s', Step s (.replied t (.push x) reply) s' →
      (s.channel.closed = true ∧ reply = .refused x ∧ s'.channel = s.channel) ∨
      (s.channel.closed = false ∧ reply = .stored ∧
        s'.channel.items = s.channel.items ++ [x])) ∧
    (∀ t x s', Step s (.waited t (.push x)) s' → s.channel.closed = false ∧ s' = s) ∧
    (∀ t x s', (∃ u, .closed u ∈ h) → ¬ Step s (.replied t (.push x) .stored) s') ∧
    ∀ t s', Step s (.replied t .pop (.popped none)) s' →
      s.channel.closed = true ∧ s.channel.items = [] := by
  have hf := r.follows
  refine ⟨hf.capacity ▸ hf.room, hf.items, fun t x reply s' => Step.push_replied,
    fun t x s' => Step.push_waited, fun t x s' hu hs => ?_, fun t s' => Step.pop_replied_none⟩
  have hclosed : s.channel.closed = true := hf.closed.trans (any_closes.2 hu)
  obtain ⟨-, ⟨⟩, -⟩ | ⟨hopen, -, -⟩ := hs.push_replied
  exact absurd (hclosed.symm.trans hopen) nofun

/-- Room for one item; a second push waits until the first item is taken, a third one until the
channel is closed. -/
def crowded : List (Event Nat String) :=
  [.replied 0 .pop (.popped "b"), .called 0 .pop, .replied 3 (.push "c") (.refused "c"),
   .closed 0, .waited 3 (.push "c"), .called 3 (.push "c"), .replied 2 (.push "b") .stored,
   .replied 0 .pop (.popped "a"), .waited 2 (.push "b"), .called 0 .pop,
   .called 2 (.push "b"), .replied 1 (.push "a") .stored, .called 1 (.push "a")]

theorem crowded_run : ∃ s, Run 0 crowded s := by
  have r₀ : Run 0 ([] : List (Event Nat String)) _ := .start
  have r₁ := (r₀.step (.call (t := 1) (.push "a") rfl)).step (.reply (t := 1) rfl rfl)
  have r₂ := (r₁.step (.call (t := 2) (.push "b") rfl)).step (.call (t := 0) .pop rfl)
  have r₃ := (r₂.step (.wait (t := 2) rfl rfl)).step (.reply (t := 0) rfl rfl)
  have r₄ := (r₃.step (.reply (t := 2) rfl rfl)).step (.call (t := 3) (.push "c") rfl)
  have r₅ := (r₄.step (.wait (t := 3) rfl rfl)).step (.close (t := 0) rfl)
  have r₆ := (r₅.step (.reply (t := 3) rfl rfl)).step (.call (t := 0) .pop rfl)
  exact ⟨_, r₆.step (.reply (t := 0) rfl rfl)⟩

/-- The items come out in the order in which they went in, the refused one never does, and a fourth
push would be refused as well. -/
theorem crowded_in_order : ∃ s, Run 0 crowded s ∧ s.channel.items.length ≤ 1 ∧
    removed crowded ++ s.channel.items = stored crowded ∧ stored crowded = ["a", "b"] ∧
    .closed 0 ∈ crowded ∧ ∀ t x s', ¬ Step s (.replied t (.push x) .stored) s' := by
  obtain ⟨s, r⟩ := crowded_run
  have hclosed : Event.closed 0 ∈ crowded := by simp [crowded]
  obtain ⟨hroom, hitems, -, -, hrefused, -⟩ := bounded_fifo r
  exact ⟨s, r, hroom, hitems, rfl, hclosed, fun t x s' => hrefused t x s' ⟨0, hclosed⟩⟩

end ScriptEngine.Channel
