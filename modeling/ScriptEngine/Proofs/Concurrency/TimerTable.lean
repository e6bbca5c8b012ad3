import Mathlib.Data.Set.Card
import ScriptEngine.Proofs.Concurrency.DeadlineOrder

/-!
# The timer table

Entries, live timers and cancelled ones are three tables that are changed at different moments, and
the timer that is firing has no entry. Together with it the entries are the timers that are held.
`Claimed` says that the other two tables name none but these. With what is known of the timers from
their history it follows that each timer that is held is either live or cancelled, and that the live
ones are those that are pending.
-/
namespace ScriptEngine.EventLoop

variable {κ τ : Type}

/-- What is live or cancelled is held, no timer is cancelled twice, and no two entries come from the
same arming. -/
structure Claimed (s : Driver κ τ) : Prop where
  held : ∀ id, id ∈ s.loop.live ∨ id ∈ s.loop.cancelled → id ∈ s.held.map Timer.id
  once : s.loop.cancelled.Nodup
  orders : (s.loop.entries.map TimerEntry.order).Nodup

/-- A live timer is not a cancelled one. -/
theorem Tracked.not_cancelled {h : List (Event κ τ)} {s : Driver κ τ} (ht : Tracked h s) {id : Nat}
    (hlive : id ∈ s.loop.live) : id ∉ s.loop.cancelled := by
  intro hcancelled
  have hpending := (ht.live id).1 hlive
  rw [isPending, ht.cancelled id hcancelled] at hpending
  simp at hpending

/-- A timer that is held is live or cancelled. -/
theorem Tracked.live_or_cancelled {h : List (Event κ τ)} {s : Driver κ τ} (ht : Tracked h s)
    {t : Timer κ} (hheld : t ∈ s.held) : t.id ∈ s.loop.live ∨ t.id ∈ s.loop.cancelled := by
  have hfollows := ht.held t hheld
  by_cases hcancels : h.any (Event.cancels t.id)
  · exact .inr (hfollows.marked hcancels)
  · refine .inl ((ht.live t.id).2 ?_)
    have hover : (h.any (Event.schedulesOnce t.id) && h.any (Event.rearms t.id)) = false := by
      rw [hfollows.once]
      cases hi : t.interval with
      | none => rw [hfollows.unfinished hi, Bool.and_false]
      | some interval => rfl
    rw [isPending, hfollows.known, hover, Bool.eq_false_iff.2 hcancels]
    rfl

namespace Claimed

variable {h : List (Event κ τ)} {l : EventLoop κ τ} {p : Phase κ}

theorem start : Claimed (⟨.empty, .between⟩ : Driver κ τ) := by
  constructor <;> simp [EventLoop.empty]

/-- Tasks and work do not count, and of the phase only the timer that is firing. -/
theorem quiet (hc : Claimed ⟨l, p⟩) (p' : Phase κ) (hp : p'.timer? = p.timer?) (tasks : List τ)
    (outstanding : Nat) : Claimed ⟨{ l with tasks, outstanding }, p'⟩ where
  held := by simpa only [Driver.held, hp] using hc.held
  once := hc.once
  orders := hc.orders

/-- A timer that is armed may be claimed from then on. -/
theorem arm {t : Timer κ}
    (hheld : ∀ id, id ∈ l.live ∨ id ∈ l.cancelled →
      id = t.id ∨ id ∈ (⟨l, p⟩ : Driver κ τ).held.map Timer.id)
    (honce : l.cancelled.Nodup) (horders : (l.entries.map TimerEntry.order).Nodup)
    (hbelow : ∀ e ∈ l.entries, e.order < l.nextOrder) (deadline : Nat) :
    Claimed ⟨l.arm deadline t, p⟩ where
  held id hid := by
    rw [((held_arm l p deadline t).map Timer.id).mem_iff, List.map_cons, List.mem_cons]
    exact hheld id hid
  once := honce
  orders := by
    have hperm := (insertEntry_perm ⟨deadline, l.nextOrder, t⟩ l.entries).map TimerEntry.order
    refine hperm.nodup_iff.2 (List.nodup_cons.2 ⟨fun hmem => ?_, horders⟩)
    obtain ⟨e, he, heq⟩ := List.mem_map.1 hmem
    exact absurd heq (Nat.ne_of_lt (hbelow e he))

theorem cancel (hc : Claimed ⟨l, p⟩) (ht : Tracked h ⟨l, p⟩) (id : Nat) :
    Claimed ⟨(l.cancel id).2, p⟩ := by
  unfold EventLoop.cancel
  split
  next hlive =>
    have hlive : id ∈ l.live := List.contains_iff_mem.1 hlive
    refine ⟨fun i hi => hc.held i ?_, ?_, hc.orders⟩
    · rcases hi with hi | hi
      · exact .inl (List.mem_of_mem_erase hi)
      · rcases List.mem_append.1 hi with hi | hi
        · exact .inr hi
        · exact .inl (List.mem_singleton.1 hi ▸ hlive)
    · refine List.nodup_append.2 ⟨hc.once, List.nodup_singleton id, fun i hi j hj => ?_⟩
      rintro rfl
      exact ht.not_cancelled hlive (List.mem_singleton.1 hj ▸ hi)
  next => exact hc

/-- A cancelled timer at the front is claimed no longer. -/
theorem drop (hc : Claimed ⟨l, p⟩) (ht : Tracked h ⟨l, p⟩) {e : TimerEntry κ}
    {rest : List (TimerEntry κ)} (hl : l.entries = e :: rest)
    (hcancelled : e.timer.id ∈ l.cancelled) :
    Claimed ⟨{ l with entries := rest, cancelled := l.cancelled.erase e.timer.id }, p⟩ where
  held id hid := by
    have hne : id ≠ e.timer.id := by
      rintro rfl
      rcases hid with hid | hid
      · exact ht.not_cancelled hid hcancelled
      · exact hc.once.not_mem_erase hid
    have hmem := hc.held id (hid.imp_right List.mem_of_mem_erase)
    simpa [Driver.held, hl, hne] using hmem
  once := hc.once.erase _
  orders := (List.nodup_cons.1 (hl ▸ hc.orders)).2

/-- The timer at the front is handed out. -/
theorem fire {e : TimerEntry κ} (hc : Claimed ⟨{ l with entries := e :: l.entries }, .between⟩) :
    Claimed ⟨l, .firing e.timer⟩ where
  held := hc.held
  once := hc.once
  orders := (List.nodup_cons.1 hc.orders).2

theorem rearm {t : Timer κ} (hc : Claimed ⟨l, .firing t⟩) (ht : Tracked h ⟨l, .firing t⟩)
    (ho : Ordered l) (now : Nat) : Claimed ⟨l.rearm now t, .between⟩ := by
  have hheld : ∀ id, id ∈ l.live ∨ id ∈ l.cancelled →
      id = t.id ∨ id ∈ (⟨l, .between⟩ : Driver κ τ).held.map Timer.id := fun id hid =>
    List.mem_cons.1 (hc.held id hid)
  unfold EventLoop.rearm
  split
  next hcancelled =>
    refine ⟨fun id hid => ?_, hc.once.erase _, hc.orders⟩
    refine (hheld id (hid.imp_right List.mem_of_mem_erase)).resolve_left ?_
    rintro rfl
    rcases hid with hid | hid
    · exact ht.not_cancelled hid (List.contains_iff_mem.1 hcancelled)
    · exact hc.once.not_mem_erase hid
  next hcancelled =>
    split
    next => exact arm hheld hc.once hc.orders ho.below _
    next =>
      refine ⟨fun id hid => ?_, hc.once, hc.orders⟩
      refine (hheld id (hid.imp_left List.mem_of_mem_erase)).resolve_left ?_
      rintro rfl
      rcases hid with hid | hid
      · exact ht.live_nodup.not_mem_erase hid
      · exact hcancelled (List.contains_iff_mem.2 hid)

end Claimed

theorem Step.claimed {h : List (Event κ τ)} {s s' : Driver κ τ} {e : Event κ τ} (hs : Step s e s')
    (ht : Tracked h s) (ho : Ordered s.loop) (hc : Claimed s) : Claimed s' := by
  -- A look drops cancelled entries one by one, and each time both invariants are needed again.
  have hdrop (l : EventLoop κ τ) (e : TimerEntry κ) (rest : List (TimerEntry κ))
      (hl : l.entries = e :: rest) (hcancelled : e.timer.id ∈ l.cancelled)
      (hboth : Tracked h ⟨l, .between⟩ ∧ Claimed ⟨l, .between⟩) :
      Tracked h ⟨{ l with entries := rest, cancelled := l.cancelled.erase e.timer.id }, .between⟩ ∧
        Claimed ⟨{ l with entries := rest, cancelled := l.cancelled.erase e.timer.id }, .between⟩ :=
    ⟨hboth.1.drop hl, hboth.2.drop hboth.1 hl hcancelled⟩
  cases hs with
  | @schedule l p now callback delay repeating =>
    refine Claimed.arm (l := { l with live := l.live ++ [l.nextId], nextId := l.nextId + 1 })
      (fun id hid => ?_) hc.once hc.orders ho.below _
    rcases hid with hid | hid
    · rcases List.mem_append.1 hid with hid | hid
      · exact .inr (hc.held id (.inl hid))
      · exact .inl (List.mem_singleton.1 hid)
    · exact .inr (hc.held id (.inr hid))
  | cancel id => exact hc.cancel ht id
  | fire now hexpire =>
    obtain ⟨e, rfl, -, -, -, hfront⟩ := (expire_induct hdrop ⟨ht, hc⟩ hexpire).2 _ rfl
    exact hfront.fire
  | rearm now => exact hc.rearm ht ho now
  | pass now hexpire =>
    exact ((expire_induct hdrop ⟨ht, hc⟩ hexpire).1 rfl).2.quiet .asking rfl _ _
  | take hlook =>
    obtain ⟨tasks, -, rfl⟩ := look_task hlook
    exact hc.quiet .between rfl _ _
  | wait hlook =>
    obtain rfl := look_wait hlook
    exact hc.quiet .between rfl _ _
  | idle hlook =>
    obtain ⟨-, hlive, -, rfl⟩ := look_idle hlook
    exact ⟨by simp [hlive], List.nodup_nil, List.nodup_nil⟩
  | beginWork | post | complete | endWork => exact hc.quiet _ rfl _ _

theorem Run.claimed {h : List (Event κ τ)} {s : Driver κ τ} (r : Run h s) : Claimed s := by
  induction r with
  | start => exact .start
  | step r next ih => exact next.claimed r.tracked r.ordered ih

theorem Driver.mem_held_ids {s : Driver κ τ} {id : Nat} : id ∈ s.held.map Timer.id ↔
    (∃ t ∈ s.phase.timer?, t.id = id) ∨ ∃ e ∈ s.loop.entries, e.timer.id = id := by
  simp [Driver.held]

/-- In every state of every run: no number is twice among the live timers or twice among the
cancelled ones, and none is among both; each of them was given out. The number of an entry is that
of no other entry, and is either live or cancelled. A number that is live or cancelled has an entry
or is that of the timer that is firing, never both; so a cancelled timer is forgotten when its entry
is gone. No two entries come from the same arming. The pending timers that the loop counts are those
that were scheduled, were not cancelled, and are not over. -/
theorem timer_tables_consistent {h : List (Event κ τ)} {s : Driver κ τ} (r : Run h s) :
    s.loop.live.Nodup ∧ s.loop.cancelled.Nodup ∧ s.loop.live.Disjoint s.loop.cancelled ∧
    (∀ id, id ∈ s.loop.live ∨ id ∈ s.loop.cancelled → id < s.loop.nextId) ∧
    (s.loop.entries.map fun e => e.timer.id).Nodup ∧
    (∀ e ∈ s.loop.entries, Xor (e.timer.id ∈ s.loop.live) (e.timer.id ∈ s.loop.cancelled)) ∧
    (∀ id, id ∈ s.loop.live ∨ id ∈ s.loop.cancelled →
      Xor (∃ e ∈ s.loop.entries, e.timer.id = id) (∃ t ∈ s.phase.timer?, t.id = id)) ∧
    (s.loop.entries.map TimerEntry.order).Nodup ∧
    Set.encard {id | (∃ now delay repeating, .scheduled id now delay repeating ∈ h) ∧
      .cancelled id true ∉ h ∧
      ¬ ((∃ now delay, .scheduled id now delay false ∈ h) ∧
        ∃ t now, .rearmed t now ∈ h ∧ t.id = id)} = s.loop.pendingTimers := by
  have ht := r.tracked
  have hc := r.claimed
  have hapart (id : Nat) (hentry : ∃ e ∈ s.loop.entries, e.timer.id = id)
      (hfiring : ∃ t ∈ s.phase.timer?, t.id = id) : False := by
    obtain ⟨e, he, rfl⟩ := hentry
    obtain ⟨t, hphase, hid⟩ := hfiring
    have hnodup := ht.nodup
    rw [Driver.held, List.map_append, List.nodup_append] at hnodup
    refine hnodup.2.2 t.id (List.mem_map_of_mem (Option.mem_toList.2 hphase)) e.timer.id ?_ hid
    exact List.mem_map_of_mem (List.mem_map_of_mem he)
  refine ⟨ht.live_nodup, hc.once, fun _ => ht.not_cancelled, ?_, ht.ids_nodup, fun e he => ?_,
    fun id hid => ?_, hc.orders, ?_⟩
  · intro id hid
    obtain ⟨t, hheld, rfl⟩ := List.mem_map.1 (hc.held id hid)
    exact ht.fresh t.id (ht.held t hheld).known
  · have hheld : e.timer ∈ s.held := List.mem_append_right _ (List.mem_map_of_mem he)
    rcases ht.live_or_cancelled hheld with hlive | hcancelled
    · exact .inl ⟨hlive, ht.not_cancelled hlive⟩
    · exact .inr ⟨hcancelled, fun hlive => ht.not_cancelled hlive hcancelled⟩
  · rcases Driver.mem_held_ids.1 (hc.held id hid) with hfiring | hentry
    · exact .inr ⟨hfiring, fun hentry => hapart id hentry hfiring⟩
    · exact .inl ⟨hentry, hapart id hentry⟩
  · have hpending : {id | id ∈ s.loop.live} = (s.loop.live.toFinset : Set Nat) := by
      ext id
      simp
    simp only [← isPending_iff, ← ht.live]
    rw [hpending, Set.encard_coe_eq_coe_finsetCard, List.toFinset_card_of_nodup ht.live_nodup]
    rfl

/-- The first timer was cancelled by its own callback, which still runs, the third one before. -/
def halted : List (Event Unit Unit) :=
  [.cancelled 1 true, .fired ⟨1, (), some 5⟩ 5, .cancelled 3 true, .scheduled 3 2 9 true,
    .scheduled 2 1 7 false, .scheduled 1 0 5 true]

theorem halted_run : ∃ s, Run halted s ∧ s.phase = .firing ⟨1, (), some 5⟩ ∧
    s.loop.entries = [⟨8, 1, ⟨2, (), none⟩⟩, ⟨11, 2, ⟨3, (), some 9⟩⟩] ∧ s.loop.live = [2] ∧
    s.loop.cancelled = [3, 1] := by
  have r₀ : Run ([] : List (Event Unit Unit)) _ := .start
  have r₁ := (r₀.step (.schedule 0 () 5 true)).step (.schedule 1 () 7 false)
  have r₂ := (r₁.step (.schedule 2 () 9 true)).step (.cancel 3)
  exact ⟨_, (r₂.step (.fire 5 rfl)).step (.cancel 1), rfl, rfl, rfl, rfl⟩

/-- The second timer is pending and no other, the entry of the third one is cancelled, and the
first one has none while it fires. -/
theorem halted_consistent : ∃ s, Run halted s ∧ s.loop.pendingTimers = 1 ∧
    Xor (3 ∈ s.loop.live) (3 ∈ s.loop.cancelled) ∧
    Xor (∃ e ∈ s.loop.entries, e.timer.id = 1) (∃ t ∈ s.phase.timer?, t.id = 1) := by
  obtain ⟨s, r, hphase, hentries, hlive, hcancelled⟩ := halted_run
  obtain ⟨-, -, -, -, -, hentry, hclaimed, -, -⟩ := timer_tables_consistent r
  refine ⟨s, r, by rw [EventLoop.pendingTimers, hlive]; rfl, ?_, ?_⟩
  · exact hentry ⟨11, 2, ⟨3, (), some 9⟩⟩ (by simp [hentries])
  · exact hclaimed 1 (.inr (by simp [hcancelled]))

end ScriptEngine.EventLoop
