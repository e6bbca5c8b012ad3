import ScriptEngine.Proofs.Concurrency.Interleaving
import Mathlib.Data.Finset.Card

/-!
# Sleeping and waking

A call that has to wait goes to sleep until it is notified, a pop on one condition and a push on
another. An item that is stored or taken notifies one sleeper, if there is one; taking all items and
closing notify all of them. A notified call looks again when it gets the lock, and others may have
come first. What is claimed here is that no notice is lost: while a call still sleeps, enough others
have been notified to use up all that it could wait for.
-/
namespace ScriptEngine

/-- What a call may wait for. -/
inductive Condition where
  | notEmpty | notFull
deriving DecidableEq

def ChannelCall.waitsFor {α : Type} : ChannelCall α → Condition
  | .push _ => .notFull
  | .pop => .notEmpty

/-- How many calls that wait for a condition could return. -/
def Condition.available {α : Type} (c : Channel α) : Condition → Nat
  | notEmpty => c.items.length
  | notFull => c.capacity - c.items.length

/-- How many sleepers are notified. -/
inductive Notice where
  | nobody | one | all
deriving DecidableEq

/-- The threads that wait for a condition. -/
structure Waiters (ι : Type) where
  asleep : Finset ι
  /-- Woken up, and not yet run. -/
  notified : Finset ι
deriving DecidableEq

namespace Channel

variable {ι α : Type}

namespace Event

def thread : Event ι α → ι
  | called t _ | waited t _ | replied t _ _ | tried t _ | drained t _ | closed t => t

/-- Who among those waiting for a condition is notified. -/
def notice : Event ι α → Condition → Notice
  | replied _ (.push _) .stored, .notEmpty => .one
  | replied _ .pop (.popped (some _)), .notFull | tried _ (some _), .notFull => .one
  | drained _ (_ :: _), .notFull | closed _, _ => .all
  | _, _ => .nobody

end Event

/-- A shared channel with the threads that wait for its conditions. -/
structure Monitor (ι α : Type) where
  shared : Shared ι α
  waiters : Condition → Waiters ι

variable [DecidableEq ι]

/-- The acting thread goes to sleep when its call has to wait, and no longer waits when its call
returns. -/
def Event.moves (c : Condition) (w : Waiters ι) : Event ι α → Waiters ι
  | waited t call => if call.waitsFor = c then ⟨insert t w.asleep, w.notified.erase t⟩ else w
  | replied t _ _ => { w with notified := w.notified.erase t }
  | _ => w

/-- What a notice does to those who wait. -/
inductive Notified : Notice → Waiters ι → Waiters ι → Prop
  | nobody (w : Waiters ι) : Notified .nobody w w
  | noOne {w : Waiters ι} (h : w.asleep = ∅) : Notified .one w w
  | one {w : Waiters ι} {t : ι} (h : t ∈ w.asleep) :
      Notified .one w ⟨w.asleep.erase t, insert t w.notified⟩
  | all (w : Waiters ι) : Notified .all w ⟨∅, w.asleep ∪ w.notified⟩

namespace Monitor

/-- One step of a thread that does not sleep. -/
structure Step (m : Monitor ι α) (e : Event ι α) (m' : Monitor ι α) : Prop where
  awake : ∀ c, e.thread ∉ (m.waiters c).asleep
  shared : Channel.Step m.shared e m'.shared
  waiters : ∀ c, Notified (e.notice c) (e.moves c (m.waiters c)) (m'.waiters c)

/-- Runs on a new channel on which nobody waits, with all that happened, the latest first. -/
inductive Run (capacity : Nat) : List (Event ι α) → Monitor ι α → Prop
  | start : Run capacity [] ⟨⟨.empty capacity, fun _ => none⟩, fun _ => ⟨∅, ∅⟩⟩
  | step {h : List (Event ι α)} {m m' : Monitor ι α} {e : Event ι α} (r : Run capacity h m)
      (next : Step m e m') : Run capacity (e :: h) m'

/-- A thread in a call that can go on when it gets the lock. -/
def Runnable (m : Monitor ι α) (t : ι) : Prop :=
  m.shared.pending t ≠ none ∧ ∀ c, t ∉ (m.waiters c).asleep

/-- Sleeping and waking takes nothing from what holds under every interleaving. -/
theorem Run.interleaving {capacity : Nat} {h : List (Event ι α)} {m : Monitor ι α}
    (r : Run capacity h m) : Channel.Run capacity h m.shared := by
  induction r with
  | start => exact .start
  | step _ next ih => exact ih.step next.shared

end Monitor

/-! Notices -/

namespace Notified

variable {n : Notice} {w w' : Waiters ι}

theorem subset (h : Notified n w w') :
    w'.asleep ⊆ w.asleep ∧ w'.asleep ∪ w'.notified ⊆ w.asleep ∪ w.notified := by
  cases h with
  | nobody | noOne => exact ⟨Finset.Subset.refl _, Finset.Subset.refl _⟩
  | @one _ t ht =>
    refine ⟨Finset.erase_subset _ _, fun u hu => ?_⟩
    simp only [Finset.mem_union, Finset.mem_erase, Finset.mem_insert] at hu ⊢
    rcases hu with ⟨-, hu⟩ | rfl | hu
    · exact .inl hu
    · exact .inl ht
    · exact .inr hu
  | all => simp

theorem disjoint (h : Notified n w w') (hw : Disjoint w.asleep w.notified) :
    Disjoint w'.asleep w'.notified := by
  cases h with
  | nobody | noOne => exact hw
  | @one _ t ht =>
    have hrest : Disjoint (w.asleep.erase t) w.notified :=
      hw.mono_left (Finset.erase_subset t w.asleep)
    exact Finset.disjoint_insert_right.2 ⟨Finset.notMem_erase t w.asleep, hrest⟩
  | all => exact Finset.disjoint_empty_left _

theorem of_nobody (h : Notified .nobody w w') : w' = w := by
  cases h
  rfl

theorem asleep_of_all (h : Notified .all w w') : w'.asleep = ∅ := by
  cases h
  rfl

/-- If somebody sleeps on after a notice to one, another was woken up. -/
theorem card_of_one (h : Notified .one w w') (hw : Disjoint w.asleep w.notified)
    (hasleep : w'.asleep.Nonempty) :
    w.asleep.Nonempty ∧ w'.notified.card = w.notified.card + 1 := by
  cases h with
  | noOne hnone => simp [hnone] at hasleep
  | one ht => exact ⟨⟨_, ht⟩, Finset.card_insert_of_notMem (Finset.disjoint_left.1 hw ht)⟩

end Notified

/-! What one step preserves -/

theorem Event.moves_disjoint {c : Condition} {w : Waiters ι} (e : Event ι α)
    (hw : Disjoint w.asleep w.notified) :
    Disjoint (e.moves c w).asleep (e.moves c w).notified := by
  cases e with
  | waited t call =>
    simp only [moves]
    by_cases hfor : call.waitsFor = c
    · rw [if_pos hfor]
      exact Finset.disjoint_insert_left.2
        ⟨Finset.notMem_erase t _, hw.mono_right (Finset.erase_subset t _)⟩
    · rw [if_neg hfor]
      exact hw
  | replied t => exact hw.mono_right (Finset.erase_subset t _)
  | _ => exact hw

/-- A call that has to wait finds nothing of what it waits for. -/
theorem available_of_waits {c : Channel α} {call : ChannelCall α} (h : c.tryCall call = none) :
    c.closed = false ∧ call.waitsFor.available c = 0 := by
  cases call with
  | push x =>
    obtain ⟨hclosed, hfull⟩ := tryCall_push_eq_none.1 h
    exact ⟨hclosed, Nat.sub_eq_zero_of_le hfull⟩
  | pop =>
    obtain ⟨capacity, items, closed⟩ := c
    cases items <;> cases closed <;> simp_all [tryCall, pop, ChannelCall.waitsFor,
      Condition.available]

/-- While a thread sleeps, the channel is open and as many are notified as could return. -/
def Counted (c : Condition) (ch : Channel α) (w : Waiters ι) : Prop :=
  w.asleep.Nonempty → ch.closed = false ∧ c.available ch ≤ w.notified.card

namespace Counted

variable {c : Condition} {ch ch' : Channel α} {w w' : Waiters ι} {t : ι}

omit [DecidableEq ι] in
theorem mono (h : Counted c ch w) (hclosed : ch'.closed = ch.closed)
    (hless : c.available ch' ≤ c.available ch) : Counted c ch' w := by
  intro hasleep
  obtain ⟨hopen, hcount⟩ := h hasleep
  exact ⟨hclosed.trans hopen, hless.trans hcount⟩

/-- One more place or item comes with a notice to one. -/
theorem one (h : Counted c ch w) (hw : Disjoint w.asleep w.notified) (hn : Notified .one w w')
    (hclosed : ch'.closed = ch.closed) (hmore : c.available ch' ≤ c.available ch + 1) :
    Counted c ch' w' := by
  intro hasleep
  obtain ⟨hbefore, hcard⟩ := hn.card_of_one hw hasleep
  obtain ⟨hopen, hcount⟩ := h hbefore
  exact ⟨hclosed.trans hopen, by omega⟩

/-- A call that returns has used up one of what it waited for. -/
theorem erase (h : Counted c ch w) (hclosed : ch'.closed = ch.closed)
    (hless : c.available ch' ≤ c.available ch - 1) :
    Counted c ch' { w with notified := w.notified.erase t } := by
  intro hasleep
  obtain ⟨hopen, hcount⟩ := h hasleep
  have hcard : w.notified.card - 1 ≤ (w.notified.erase t).card := Finset.pred_card_le_card_erase
  exact ⟨hclosed.trans hopen, by simp only; omega⟩

theorem all (hn : Notified .all w w') : Counted c ch w' := by
  intro hasleep
  simp [hn.asleep_of_all] at hasleep

theorem wait {call : ChannelCall α} (h : Counted c ch w) (hwait : ch.tryCall call = none) :
    Counted c ch ((Event.waited t call).moves c w) := by
  by_cases hfor : call.waitsFor = c
  · obtain ⟨hopen, hnothing⟩ := available_of_waits hwait
    intro _
    rw [hfor] at hnothing
    exact ⟨hopen, hnothing ▸ Nat.zero_le _⟩
  · simpa only [Event.moves, if_neg hfor] using h

theorem push {x : α} (h : Counted c ch w) (hw : Disjoint w.asleep w.notified)
    (ht : c = .notEmpty → t ∉ w.notified)
    (hn : Notified ((Event.replied t (.push x) .stored).notice c)
      ((Event.replied t (.push x) .stored).moves c w) w') :
    Counted c { ch with items := ch.items ++ [x] } w' := by
  cases c with
  | notEmpty =>
    simp only [Event.moves, Finset.erase_eq_of_notMem (ht rfl)] at hn
    exact h.one hw hn rfl (by simp [Condition.available])
  | notFull =>
    rw [hn.of_nobody]
    exact h.erase rfl (by simp [Condition.available]; omega)

theorem pop {x : α} {rest : List α} (h : Counted c ch w) (hw : Disjoint w.asleep w.notified)
    (ht : c = .notFull → t ∉ w.notified) (hitems : ch.items = x :: rest)
    (hn : Notified ((Event.replied t .pop (.popped (some x))).notice c)
      ((Event.replied t .pop (.popped (some x))).moves c w) w') :
    Counted c { ch with items := rest } w' := by
  cases c with
  | notEmpty =>
    rw [hn.of_nobody]
    exact h.erase rfl (by simp [Condition.available, hitems])
  | notFull =>
    simp only [Event.moves, Finset.erase_eq_of_notMem (ht rfl)] at hn
    exact h.one hw hn rfl (by simp [Condition.available, hitems]; omega)

theorem tryPop (h : Counted c ch w) (hw : Disjoint w.asleep w.notified)
    (hn : Notified ((Event.tried t ch.tryPop.1).notice c) w w') : Counted c ch.tryPop.2 w' := by
  rw [tryPop_eq] at hn ⊢
  cases hitems : ch.items with
  | nil =>
    simp only [hitems, List.head?_nil] at hn
    rw [hn.of_nobody]
    exact h.mono rfl (by cases c <;> simp [Condition.available, hitems])
  | cons x rest =>
    simp only [hitems, List.head?_cons] at hn
    cases c with
    | notEmpty =>
      rw [hn.of_nobody]
      exact h.mono rfl (by simp [Condition.available, hitems])
    | notFull => exact h.one hw hn rfl (by simp [Condition.available, hitems]; omega)

theorem drain (h : Counted c ch w)
    (hn : Notified ((Event.drained t ch.drain.1).notice c) w w') : Counted c ch.drain.2 w' := by
  cases hitems : ch.items with
  | nil =>
    simp only [Channel.drain, hitems] at hn
    rw [hn.of_nobody]
    exact h.mono rfl (by cases c <;> simp [Channel.drain, Condition.available, hitems])
  | cons x rest =>
    simp only [Channel.drain, hitems] at hn
    cases c with
    | notEmpty =>
      rw [hn.of_nobody]
      exact h.mono rfl (by simp [Channel.drain, Condition.available])
    | notFull => exact all hn

end Counted

namespace Monitor

/-- Of the threads that wait for a condition: they are in a call that waits for it, none is both
asleep and notified, and none sleeps while it could return. -/
structure Kept (m : Monitor ι α) (c : Condition) : Prop where
  apart : Disjoint (m.waiters c).asleep (m.waiters c).notified
  inCall : ∀ t ∈ (m.waiters c).asleep ∪ (m.waiters c).notified,
    ∃ call, m.shared.pending t = some call ∧ call.waitsFor = c
  counted : Counted c m.shared.channel (m.waiters c)

variable {m m' : Monitor ι α} {e : Event ι α} {c : Condition}

theorem Kept.not_notified {t : ι} {call : ChannelCall α} (k : Kept m c)
    (h : m.shared.pending t = some call) (hfor : call.waitsFor ≠ c) :
    t ∉ (m.waiters c).notified := by
  intro ht
  obtain ⟨call', h', hfor'⟩ := k.inCall t (Finset.mem_union_right _ ht)
  obtain rfl : call = call' := Option.some.inj (h.symm.trans h')
  exact hfor hfor'

theorem Step.inCall (next : Step m e m') (k : Kept m c) :
    ∀ t ∈ (m'.waiters c).asleep ∪ (m'.waiters c).notified,
      ∃ call, m'.shared.pending t = some call ∧ call.waitsFor = c := by
  intro u hu
  replace hu := (next.waiters c).subset.2 hu
  obtain ⟨s, w⟩ := m
  obtain ⟨s', w'⟩ := m'
  have hawake := next.awake c
  cases next.shared with
  | tryPop | drain | close => exact k.inCall u hu
  | @call t call hnone =>
    obtain ⟨call', hcall', hfor⟩ := k.inCall u hu
    have hne : u ≠ t := by
      rintro rfl
      exact absurd (hnone.symm.trans hcall') nofun
    exact ⟨call', by simpa [hne] using hcall', hfor⟩
  | @wait t call hcall =>
    by_cases hfor : call.waitsFor = c
    · by_cases hut : u = t
      · exact ⟨call, hut ▸ hcall, hfor⟩
      · exact k.inCall u (by simpa [Event.moves, hfor, hut] using hu)
    · exact k.inCall u (by simpa [Event.moves, hfor] using hu)
  | @reply t =>
    have hne : u ≠ t := by
      rintro rfl
      simp [Event.moves] at hu
      exact hawake hu
    obtain ⟨call', hcall', hfor⟩ := k.inCall u (by simpa [Event.moves, hne] using hu)
    exact ⟨call', by simpa [hne] using hcall', hfor⟩

theorem Step.counted (next : Step m e m') (k : Kept m c) :
    Counted c m'.shared.channel (m'.waiters c) := by
  obtain ⟨s, w⟩ := m
  obtain ⟨s', w'⟩ := m'
  have hn := next.waiters c
  cases next.shared with
  | call =>
    have hw : w' c = w c := hn.of_nobody
    change Counted c s.channel (w' c)
    rw [hw]
    exact k.counted
  | @wait t call _ hwait =>
    have hw : w' c = (Event.waited t call).moves c (w c) := hn.of_nobody
    change Counted c s.channel (w' c)
    rw [hw]
    exact k.counted.wait hwait
  | tryPop => exact k.counted.tryPop k.apart hn
  | drain => exact k.counted.drain hn
  | close => exact .all hn
  | @reply t _ _ _ hcall hreply =>
    obtain ⟨x, rfl, rfl, hclosed, rfl⟩ | ⟨x, rfl, rfl, -, -, rfl⟩ |
      ⟨x, rest, rfl, rfl, hitems, rfl⟩ | ⟨rfl, rfl, hclosed, -, rfl⟩ := tryCall_cases hreply
    · intro hasleep
      obtain ⟨hopen, -⟩ := k.counted (hasleep.mono hn.subset.1)
      exact absurd (hopen.symm.trans hclosed) nofun
    · exact k.counted.push k.apart (fun hc => k.not_notified hcall (hc ▸ nofun)) hn
    · exact k.counted.pop k.apart (fun hc => k.not_notified hcall (hc ▸ nofun)) hitems hn
    · intro hasleep
      obtain ⟨hopen, -⟩ := k.counted (hasleep.mono hn.subset.1)
      exact absurd (hopen.symm.trans hclosed) nofun

theorem Kept.step (k : Kept m c) (next : Step m e m') : Kept m' c where
  apart := (next.waiters c).disjoint (e.moves_disjoint k.apart)
  inCall := next.inCall k
  counted := next.counted k

theorem Run.kept {capacity : Nat} {h : List (Event ι α)} (r : Run capacity h m) (c : Condition) :
    Kept m c := by
  induction r with
  | start => exact ⟨Finset.disjoint_empty_left _, by simp, by simp [Counted]⟩
  | step _ next ih => exact ih.step next

theorem Kept.nothing_available (k : ∀ c, Kept m c) (hstuck : ∀ t, ¬ m.Runnable t)
    (hasleep : (m.waiters c).asleep.Nonempty) :
    m.shared.channel.closed = false ∧ c.available m.shared.channel = 0 := by
  have hnobody : (m.waiters c).notified = ∅ := by
    ext t
    simp only [Finset.notMem_empty, iff_false]
    intro ht
    obtain ⟨call, hcall, hfor⟩ := (k c).inCall t (Finset.mem_union_right _ ht)
    -- A notified thread is in its call and sleeps on neither condition.
    refine hstuck t ⟨by simp [hcall], fun c' ht' => ?_⟩
    by_cases hc : c' = c
    · subst hc
      exact Finset.disjoint_left.1 (k c').apart ht' ht
    · obtain ⟨call', hcall', hfor'⟩ := (k c').inCall t (Finset.mem_union_left _ ht')
      obtain rfl : call = call' := Option.some.inj (hcall.symm.trans hcall')
      exact hc (hfor'.symm.trans hfor)
  obtain ⟨hopen, hcount⟩ := (k c).counted hasleep
  rw [hnobody, Finset.card_empty] at hcount
  exact ⟨hopen, Nat.le_zero.1 hcount⟩

/-- However the threads take turns and whichever sleepers the notices wake up: threads that sleep or
were notified are in a call that waits. While a pop sleeps, the channel is open and at least as many
other pops as it has items have been notified and have yet to run, and while a push sleeps, it is
open and at least as many other pushes as it has free places have been. So if no thread can go on, a
sleeping pop means an open and empty channel and a sleeping push an open and full one. -/
theorem no_lost_wakeup {capacity : Nat} {h : List (Event ι α)} (r : Run capacity h m) :
    (∀ c, ∀ t ∈ (m.waiters c).asleep ∪ (m.waiters c).notified,
      ∃ call, m.shared.pending t = some call ∧ call.waitsFor = c) ∧
    (∀ t ∈ (m.waiters .notEmpty).asleep, m.shared.channel.closed = false ∧
      m.shared.channel.items.length ≤ (m.waiters .notEmpty).notified.card) ∧
    (∀ t ∈ (m.waiters .notFull).asleep, m.shared.channel.closed = false ∧
      max capacity 1 - m.shared.channel.items.length ≤ (m.waiters .notFull).notified.card) ∧
    ((∀ t, ¬ m.Runnable t) →
      (∀ t ∈ (m.waiters .notEmpty).asleep,
        m.shared.channel.closed = false ∧ m.shared.channel.items = []) ∧
      ∀ t ∈ (m.waiters .notFull).asleep,
        m.shared.channel.closed = false ∧ m.shared.channel.items.length = max capacity 1) := by
  have hf := r.interleaving.follows
  refine ⟨fun c => (r.kept c).inCall, fun t ht => (r.kept .notEmpty).counted ⟨t, ht⟩,
    fun t ht => ?_, fun hstuck => ⟨fun t ht => ?_, fun t ht => ?_⟩⟩
  · rw [← hf.capacity]
    exact (r.kept .notFull).counted ⟨t, ht⟩
  · obtain ⟨hopen, hnothing⟩ := Kept.nothing_available r.kept hstuck ⟨t, ht⟩
    exact ⟨hopen, List.eq_nil_of_length_eq_zero hnothing⟩
  · obtain ⟨hopen, hnothing⟩ := Kept.nothing_available r.kept hstuck ⟨t, ht⟩
    have hroom := hf.room
    simp only [Condition.available] at hnothing
    exact ⟨hopen, by rw [← hf.capacity]; omega⟩

theorem Step.quiet {s : Shared ι α} {w : Condition → Waiters ι}
    (hawake : ∀ c, e.thread ∉ (m.waiters c).asleep) (hs : Channel.Step m.shared e s)
    (hnobody : ∀ c, e.notice c = .nobody) (hw : ∀ c, e.moves c (m.waiters c) = w c) :
    Step m e ⟨s, w⟩ := by
  refine ⟨hawake, hs, fun c => ?_⟩
  rw [hnobody, hw]
  exact .nobody (w c)

/-- Two pops go to sleep. -/
def lull : List (Event Nat String) :=
  [.waited 2 .pop, .called 2 .pop, .waited 1 .pop, .called 1 .pop]

def lulled : Condition → Waiters Nat
  | .notEmpty => ⟨{2, 1}, ∅⟩
  | .notFull => ⟨∅, ∅⟩

/-- A push notifies one of them. -/
def stir : List (Event Nat String) :=
  .replied 0 (.push "a") .stored :: .called 0 (.push "a") :: lull

def stirred : Condition → Waiters Nat
  | .notEmpty => ⟨Finset.erase {2, 1} 1, {1}⟩
  | .notFull => ⟨∅, ∅⟩

theorem lull_run : ∃ pending, Run 1 lull ⟨⟨.empty 1, pending⟩, lulled⟩ ∧ pending 0 = none ∧
    ∀ t, pending t ≠ none → t = 1 ∨ t = 2 := by
  let napping : Condition → Waiters Nat
    | .notEmpty => ⟨{1}, ∅⟩
    | .notFull => ⟨∅, ∅⟩
  have r₀ : Run 1 ([] : List (Event Nat String)) _ := .start
  have r₁ := r₀.step (.quiet (w := fun _ => ⟨∅, ∅⟩) (fun c => by cases c <;> decide)
    (.call (t := 1) .pop rfl) (fun _ => rfl) fun _ => rfl)
  have r₂ := r₁.step (.quiet (w := napping) (fun c => by cases c <;> decide)
    (.wait (t := 1) rfl rfl) (fun _ => rfl) fun c => by cases c <;> rfl)
  have r₃ := r₂.step (.quiet (w := napping) (fun c => by cases c <;> decide)
    (.call (t := 2) .pop rfl) (fun _ => rfl) fun _ => rfl)
  have r₄ := r₃.step (.quiet (w := lulled) (fun c => by cases c <;> decide)
    (.wait (t := 2) rfl rfl) (fun _ => rfl) fun c => by cases c <;> rfl)
  refine ⟨_, r₄, rfl, fun t ht => ?_⟩
  by_contra hne
  obtain ⟨h1, h2⟩ := not_or.1 hne
  simp [h1, h2] at ht

theorem stir_run : ∃ pending,
    Run 1 stir ⟨⟨⟨1, ["a"], false⟩, pending⟩, stirred⟩ := by
  obtain ⟨pending, r, hidle, -⟩ := lull_run
  have hcalling : ∀ c, Event.thread (.called 0 (.push "a")) ∉ (lulled c).asleep :=
    fun c => by cases c <;> decide
  have r₁ := r.step (.quiet (w := lulled) hcalling (.call (t := 0) (.push "a") hidle) (fun _ => rfl)
    fun _ => rfl)
  have hstored : Channel.Step ⟨.empty 1, Function.update pending 0 (some (.push "a"))⟩
      (.replied 0 (.push "a") .stored) _ := .reply (by simp) rfl
  have hawake : ∀ c, Event.thread (.replied 0 (.push "a") .stored) ∉ (lulled c).asleep :=
    fun c => by cases c <;> decide
  have hnotified : ∀ c, Notified ((Event.replied 0 (.push "a") .stored).notice c)
      ((Event.replied 0 (.push "a") .stored).moves c (lulled c)) (stirred c) := by
    intro c
    cases c with
    | notEmpty => exact .one (w := ⟨{2, 1}, ∅⟩) (by decide)
    | notFull => exact .nobody ⟨∅, ∅⟩
  exact ⟨_, r₁.step ⟨hawake, hstored, hnotified⟩⟩

/-- While both sleep there is nothing to take; then one sleeps on next to one item, which the other
was woken up for. -/
theorem stirred_not_lost :
    (∃ m, Run 1 lull m ∧ 1 ∈ (m.waiters .notEmpty).asleep ∧ (∀ t, ¬ m.Runnable t) ∧
      m.shared.channel.closed = false ∧ m.shared.channel.items = []) ∧
    ∃ m, Run 1 stir m ∧ 2 ∈ (m.waiters .notEmpty).asleep ∧ m.shared.channel.closed = false ∧
      m.shared.channel.items.length = 1 ∧
      m.shared.channel.items.length ≤ (m.waiters .notEmpty).notified.card := by
  constructor
  · obtain ⟨pending, r, -, hcalls⟩ := lull_run
    have hstuck : ∀ t, ¬ Runnable ⟨⟨Channel.empty 1, pending⟩, lulled⟩ t := by
      rintro t ⟨hcall, hawake⟩
      have ht := hawake .notEmpty
      rcases hcalls t hcall with rfl | rfl
      · exact ht (Finset.mem_insert_of_mem (Finset.mem_singleton_self 1))
      · exact ht (Finset.mem_insert_self 2 {1})
    have hasleep : 1 ∈ (lulled .notEmpty).asleep := by decide
    obtain ⟨hopen, hitems⟩ := ((no_lost_wakeup r).2.2.2 hstuck).1 1 hasleep
    exact ⟨_, r, hasleep, hstuck, hopen, hitems⟩
  · obtain ⟨pending, r⟩ := stir_run
    have hasleep : 2 ∈ (stirred .notEmpty).asleep := by decide
    obtain ⟨hopen, hcount⟩ := (no_lost_wakeup r).2.1 2 hasleep
    exact ⟨_, r, hasleep, hopen, rfl, hcount⟩

end Monitor

end ScriptEngine.Channel
