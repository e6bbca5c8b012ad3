import ScriptEngine.Proofs.Concurrency.Timers

/-!
# The order in which timers fire

Entries stand in the order of their deadlines, and in the order of their arming where deadlines are
equal. A look at due timers takes them from the front, so the one it hands out comes before all
that are left and not cancelled. A timer that fires once is armed once, and stays armed until it is
handed out or cancelled. So of two such timers the one that is due later is never handed out first.
-/
namespace ScriptEngine

theorem TimerEntry.before_iff {κ : Type} {a b : TimerEntry κ} :
    a.before b ↔ a.deadline < b.deadline ∨ a.deadline = b.deadline ∧ a.order < b.order := by
  simp [TimerEntry.before]

namespace EventLoop

variable {κ τ : Type}

/-- The entries are sorted, and were armed in the order of their numbers, but for timers that
repeat. -/
structure Ordered (l : EventLoop κ τ) : Prop where
  sorted : l.entries.Pairwise fun a b => a.before b
  below : ∀ e ∈ l.entries, e.order < l.nextOrder
  inTurn : ∀ a ∈ l.entries, ∀ b ∈ l.entries, a.timer.interval = none → b.timer.interval = none →
    a.timer.id < b.timer.id → a.order < b.order

theorem pairwise_insertEntry {e : TimerEntry κ} {entries : List (TimerEntry κ)}
    (hsorted : entries.Pairwise fun a b => a.before b) (hlast : ∀ x ∈ entries, x.order < e.order) :
    (insertEntry e entries).Pairwise fun a b => a.before b := by
  induction entries with
  | nil => exact List.pairwise_singleton ..
  | cons x rest ih =>
    obtain ⟨hx, hrest⟩ := List.pairwise_cons.1 hsorted
    obtain ⟨hxe, hlast⟩ := List.forall_mem_cons.1 hlast
    rw [insertEntry]
    split
    next hbefore =>
      refine List.pairwise_cons.2 ⟨fun y hy => ?_, ih hrest hlast⟩
      rcases List.mem_cons.1 ((insertEntry_perm e rest).mem_iff.1 hy) with rfl | hy
      · exact hbefore
      · exact hx y hy
    next hnot =>
      have hex : e.deadline < x.deadline := by
        rw [TimerEntry.before_iff] at hnot
        omega
      refine List.pairwise_cons.2 ⟨fun y hy => ?_, hsorted⟩
      rw [TimerEntry.before_iff]
      rcases List.mem_cons.1 hy with rfl | hy
      · exact .inl hex
      · have hxy := TimerEntry.before_iff.1 (hx y hy)
        omega

theorem mem_arm {l : EventLoop κ τ} {deadline : Nat} {t : Timer κ} {e : TimerEntry κ} :
    e ∈ (l.arm deadline t).entries ↔ e = ⟨deadline, l.nextOrder, t⟩ ∨ e ∈ l.entries :=
  (insertEntry_perm _ _).mem_iff.trans List.mem_cons

namespace Ordered

variable {l : EventLoop κ τ}

theorem arm (ho : Ordered l) {t : Timer κ}
    (hlast : t.interval = none → ∀ e ∈ l.entries, e.timer.id < t.id) (deadline : Nat) :
    Ordered (l.arm deadline t) := by
  refine ⟨pairwise_insertEntry ho.sorted ho.below, fun e he => ?_, fun a ha b hb => ?_⟩
  · rcases mem_arm.1 he with rfl | he
    · exact Nat.lt_succ_self _
    · exact Nat.lt_succ_of_lt (ho.below e he)
  · intro honce honce' hid
    rcases mem_arm.1 ha with rfl | ha <;> rcases mem_arm.1 hb with rfl | hb
    · exact absurd hid (Nat.lt_irrefl _)
    · exact absurd (hlast honce b hb) (Nat.lt_asymm hid)
    · exact ho.below a ha
    · exact ho.inTurn a ha b hb honce honce' hid

/-- Entries may be dropped. -/
theorem sublist (ho : Ordered l) {l' : EventLoop κ τ} (hl : l'.entries.Sublist l.entries)
    (horder : l'.nextOrder = l.nextOrder) : Ordered l' where
  sorted := ho.sorted.sublist hl
  below e he := horder ▸ ho.below e (hl.subset he)
  inTurn a ha b hb := ho.inTurn a (hl.subset ha) b (hl.subset hb)

end Ordered

/-- What a look at due timers passes over is cancelled. It stops at the first entry that is not
cancelled, and hands that one out if it is due. -/
theorem expire_spec {l l' : EventLoop κ τ} {now : Nat} {due : Option (Timer κ)}
    (hids : (l.entries.map fun e => e.timer.id).Nodup) (h : l.expire now = (due, l')) :
    l'.nextOrder = l.nextOrder ∧
    ∃ dropped, (∀ e ∈ dropped, e.timer.id ∈ l.cancelled) ∧
      match due with
      | some t => ∃ e, l.entries = dropped ++ e :: l'.entries ∧ e.timer = t ∧ e.deadline ≤ now ∧
          t.id ∉ l.cancelled
      | none => l.entries = dropped ++ l'.entries ∧ ∀ e ∈ l'.entries.head?, now < e.deadline := by
  obtain ⟨entries, live, cancelled, nextId, nextOrder, tasks, outstanding⟩ := l
  induction entries generalizing cancelled with
  | nil =>
    obtain ⟨rfl, rfl⟩ := Prod.mk.inj h
    exact ⟨rfl, [], nofun, rfl, nofun⟩
  | cons e rest ih =>
    obtain ⟨hnew, hids⟩ := List.nodup_cons.1 hids
    simp only [expire, takeDue] at h
    by_cases hdue : e.deadline ≤ now
    · by_cases hcancelled : e.timer.id ∈ cancelled
      · simp only [hdue, List.contains_iff_mem, hcancelled, if_true] at h
        obtain ⟨horder, dropped, hdropped, hrest⟩ := ih _ hids h
        refine ⟨horder, e :: dropped, ?_, ?_⟩
        · exact List.forall_mem_cons.2
            ⟨hcancelled, fun d hd => List.mem_of_mem_erase (hdropped d hd)⟩
        · cases due with
          | none => exact ⟨congrArg (e :: ·) hrest.1, hrest.2⟩
          | some t =>
            obtain ⟨e', hentries : rest = _, rfl, hdue', hnot⟩ := hrest
            have hne : e'.timer.id ≠ e.timer.id := fun heq =>
              hnew (List.mem_map.2 ⟨e', by simp [hentries], heq⟩)
            exact ⟨e', congrArg (e :: ·) hentries, rfl, hdue',
              fun hmem => hnot ((List.mem_erase_of_ne hne).2 hmem)⟩
      · simp only [hdue, List.contains_iff_mem, hcancelled, if_true, if_false] at h
        obtain ⟨rfl, rfl⟩ := Prod.mk.inj h
        exact ⟨rfl, [], nofun, e, rfl, rfl, hdue, hcancelled⟩
    · simp only [hdue, if_false] at h
      obtain ⟨rfl, rfl⟩ := Prod.mk.inj h
      refine ⟨rfl, [], nofun, rfl, fun x hx => ?_⟩
      obtain rfl := Option.some.inj hx
      exact Nat.lt_of_not_le hdue

theorem Tracked.ids_nodup {h : List (Event κ τ)} {s : Driver κ τ} (ht : Tracked h s) :
    (s.loop.entries.map fun e => e.timer.id).Nodup := by
  have hsub : (s.loop.entries.map fun e => e.timer.id).Sublist (s.held.map Timer.id) := by
    rw [Driver.held, List.map_append, List.map_map]
    exact List.sublist_append_right ..
  exact ht.nodup.sublist hsub

/-- Numbers are given out in order, so an entry has a smaller one than a timer that is new. -/
theorem Tracked.id_lt {h : List (Event κ τ)} {s : Driver κ τ} (ht : Tracked h s)
    {e : TimerEntry κ} (he : e ∈ s.loop.entries) : e.timer.id < s.loop.nextId := by
  have hheld : e.timer ∈ s.held := List.mem_append_right _ (List.mem_map_of_mem he)
  exact ht.fresh _ (ht.held _ hheld).known

theorem Step.ordered {h : List (Event κ τ)} {s s' : Driver κ τ} {e : Event κ τ} (hs : Step s e s')
    (ht : Tracked h s) (ho : Ordered s.loop) : Ordered s'.loop := by
  cases hs with
  | @schedule l p now callback delay repeating =>
    have hl : Ordered { l with live := l.live ++ [l.nextId], nextId := l.nextId + 1 } :=
      ho.sublist (.refl _) rfl
    exact hl.arm (fun _ e he => ht.id_lt he) _
  | @cancel l _ id =>
    unfold EventLoop.cancel
    split <;> exact ho.sublist (.refl _) rfl
  | fire now hexpire =>
    obtain ⟨horder, dropped, -, e, hentries, -⟩ := expire_spec ht.ids_nodup hexpire
    refine ho.sublist ?_ horder
    rw [hentries]
    exact (List.sublist_cons_self ..).trans (List.sublist_append_right ..)
  | pass now hexpire =>
    obtain ⟨horder, dropped, -, hentries, -⟩ := expire_spec ht.ids_nodup hexpire
    refine ho.sublist ?_ horder
    rw [hentries]
    exact List.sublist_append_right ..
  | @rearm l t now =>
    unfold EventLoop.rearm
    split
    · exact ho.sublist (.refl _) rfl
    · split
      next interval hi => exact ho.arm (by simp [hi]) _
      next => exact ho.sublist (.refl _) rfl
  | take hlook =>
    obtain ⟨tasks, -, rfl⟩ := look_task hlook
    exact ho.sublist (.refl _) rfl
  | wait hlook =>
    obtain rfl := look_wait hlook
    exact ho
  | idle hlook =>
    obtain ⟨-, -, -, rfl⟩ := look_idle hlook
    exact ho.sublist (List.nil_sublist _) rfl
  | beginWork | post | complete | endWork => exact ho.sublist (.refl _) rfl

theorem Run.ordered {h : List (Event κ τ)} {s : Driver κ τ} (r : Run h s) : Ordered s.loop := by
  induction r with
  | start => exact ⟨.nil, nofun, nofun⟩
  | step r next ih => exact next.ordered r.tracked ih

/-- A timer that fires once and was neither cancelled nor handed out is armed, for the deadline that
it was scheduled for. -/
def Awaited (h : List (Event κ τ)) (l : EventLoop κ τ) : Prop :=
  ∀ id now delay, .scheduled id now delay false ∈ h → h.any (Event.cancels id) = false →
    h.any (Event.fires id) = false →
      ∃ e ∈ l.entries, e.timer.id = id ∧ e.timer.interval = none ∧ e.deadline = now + delay

/-- Entries that are still wanted are kept, and one comes with every timer that is scheduled. -/
theorem Awaited.extend {h : List (Event κ τ)} {l l' : EventLoop κ τ} {event : Event κ τ}
    (ha : Awaited h l)
    (hkeep : ∀ e ∈ l.entries, List.any (event :: h) (Event.cancels e.timer.id) = false →
      List.any (event :: h) (Event.fires e.timer.id) = false → e ∈ l'.entries)
    (hnew : ∀ id now delay, event = .scheduled id now delay false →
      ∃ e ∈ l'.entries, e.timer.id = id ∧ e.timer.interval = none ∧ e.deadline = now + delay) :
    Awaited (event :: h) l' := by
  intro id now delay hmem hcancels hfires
  rcases List.mem_cons.1 hmem with heq | hmem
  · exact hnew id now delay heq.symm
  · have hcancels' := (Bool.or_eq_false_iff.1 hcancels).2
    have hfires' := (Bool.or_eq_false_iff.1 hfires).2
    obtain ⟨e, he, rfl, honce, hdeadline⟩ := ha id now delay hmem hcancels' hfires'
    exact ⟨e, hkeep e he hcancels hfires, rfl, honce, hdeadline⟩

theorem Awaited.keep {h : List (Event κ τ)} {l l' : EventLoop κ τ} {event : Event κ τ}
    (ha : Awaited h l) (hother : ∀ id, event.schedulesOnce id = false)
    (hkeep : ∀ e ∈ l.entries, List.any (event :: h) (Event.cancels e.timer.id) = false →
      List.any (event :: h) (Event.fires e.timer.id) = false → e ∈ l'.entries) :
    Awaited (event :: h) l' := by
  refine ha.extend hkeep ?_
  rintro id now delay rfl
  simp [Event.schedulesOnce] at hother

theorem Step.awaited {h : List (Event κ τ)} {s s' : Driver κ τ} {e : Event κ τ} (hs : Step s e s')
    (ht : Tracked h s) (ha : Awaited h s.loop) : Awaited (e :: h) s'.loop := by
  cases hs with
  | @schedule l p now callback delay repeating =>
    refine ha.extend (fun e he _ _ => mem_arm.2 (.inr he)) ?_
    rintro id now' delay' heq
    obtain ⟨rfl, rfl, rfl, rfl⟩ := Event.scheduled.inj heq
    exact ⟨_, mem_arm.2 (.inl rfl), rfl, rfl, rfl⟩
  | @cancel l _ id =>
    refine ha.keep (fun _ => rfl) fun e he _ _ => ?_
    unfold EventLoop.cancel
    split <;> exact he
  | @fire l l' t now hexpire =>
    obtain ⟨-, dropped, hdropped, fired, hentries, rfl, -⟩ := expire_spec ht.ids_nodup hexpire
    refine ha.keep (fun _ => rfl) fun e he hcancels hfires => ?_
    rw [hentries, List.mem_append, List.mem_cons] at he
    rcases he with he | rfl | he
    · have hcancelled := ht.cancelled _ (hdropped e he)
      simp [hcancelled] at hcancels
    · simp [Event.fires] at hfires
    · exact he
  | pass now hexpire =>
    obtain ⟨-, dropped, hdropped, hentries, -⟩ := expire_spec ht.ids_nodup hexpire
    refine ha.keep (fun _ => rfl) fun e he hcancels _ => ?_
    rw [hentries, List.mem_append] at he
    rcases he with he | he
    · have hcancelled := ht.cancelled _ (hdropped e he)
      simp [hcancelled] at hcancels
    · exact he
  | @rearm l t now =>
    refine ha.keep (fun _ => rfl) fun e he _ _ => ?_
    unfold EventLoop.rearm
    split
    · exact he
    · split
      · exact mem_arm.2 (.inr he)
      · exact he
  | take hlook =>
    obtain ⟨tasks, -, rfl⟩ := look_task hlook
    exact ha.keep (fun _ => rfl) fun e he _ _ => he
  | wait hlook =>
    obtain rfl := look_wait hlook
    exact ha.keep (fun _ => rfl) fun e he _ _ => he
  | idle hlook =>
    obtain ⟨-, hlive, -, rfl⟩ := look_idle hlook
    refine ha.keep (fun _ => rfl) fun e he hcancels hfires => ?_
    have hknown := (ht.held e.timer (List.mem_append_right _ (List.mem_map_of_mem he))).known
    have hrearms : ¬ h.any (Event.rearms e.timer.id) := fun hr => by
      simp [ht.fired _ hr] at hfires
    have hpending : isPending e.timer.id h := by
      simp_all [isPending]
    rw [← ht.live, hlive] at hpending
    exact absurd hpending List.not_mem_nil
  | beginWork | post | complete | endWork => exact ha.keep (fun _ => rfl) fun e he _ _ => he

theorem Run.awaited {h : List (Event κ τ)} {s : Driver κ τ} (r : Run h s) : Awaited h s.loop := by
  induction r with
  | start => exact nofun
  | step r next ih => exact next.awaited r.tracked ih

namespace Ordered

variable {l l' : EventLoop κ τ} {now : Nat}

/-- The timer that a look hands out comes before all others that are not cancelled. -/
theorem first (ho : Ordered l) (hids : (l.entries.map fun e => e.timer.id).Nodup) {t : Timer κ}
    (h : l.expire now = (some t, l')) :
    ∃ e ∈ l.entries, e.timer = t ∧ e.deadline ≤ now ∧ t.id ∉ l.cancelled ∧
      ∀ e' ∈ l.entries, e'.timer.id ∉ l.cancelled → e' ≠ e → e.before e' := by
  obtain ⟨-, dropped, hdropped, e, hentries, rfl, hdue, hnot⟩ := expire_spec hids h
  refine ⟨e, by simp [hentries], rfl, hdue, hnot, fun e' he' hwanted hne => ?_⟩
  have hsorted := ho.sorted
  rw [hentries] at he' hsorted
  rcases List.mem_append.1 he' with he' | he'
  · exact absurd (hdropped e' he') hwanted
  · exact (List.pairwise_cons.1 (List.pairwise_append.1 hsorted).2.1).1 e'
      ((List.mem_cons.1 he').resolve_left hne)

/-- A look that hands out no timer leaves none that is due, but for cancelled ones. -/
theorem none_due (ho : Ordered l) (hids : (l.entries.map fun e => e.timer.id).Nodup)
    (h : l.expire now = (none, l')) {e : TimerEntry κ} (he : e ∈ l.entries)
    (hwanted : e.timer.id ∉ l.cancelled) : now < e.deadline := by
  obtain ⟨-, dropped, hdropped, hentries, hhead⟩ := expire_spec hids h
  have hsorted := ho.sorted
  rw [hentries] at he hsorted
  have hrest := (List.mem_append.1 he).resolve_left fun he => hwanted (hdropped e he)
  have hsorted := (List.pairwise_append.1 hsorted).2.1
  cases hl : l'.entries with
  | nil => simp [hl] at hrest
  | cons x rest =>
    rw [hl] at hrest hhead hsorted
    have hx : now < x.deadline := hhead x rfl
    rcases List.mem_cons.1 hrest with rfl | hrest
    · exact hx
    · have hbefore := TimerEntry.before_iff.1 ((List.pairwise_cons.1 hsorted).1 e hrest)
      omega

end Ordered

/-- Timers get their numbers in the order in which they are scheduled. -/
theorem Run.id_lt {h : List (Event κ τ)} {s : Driver κ τ} (r : Run h s)
    {i j nowᵢ nowⱼ delayᵢ delayⱼ : Nat} {repeatingᵢ repeatingⱼ : Bool}
    (hij : [.scheduled j nowⱼ delayⱼ repeatingⱼ, .scheduled i nowᵢ delayᵢ repeatingᵢ].Sublist h) :
    i < j := by
  induction r with
  | start => cases hij
  | @step h s s' e r next ih =>
    cases hij with
    | cons _ hij => exact ih hij
    | cons_cons _ hi =>
      cases next with
      | schedule =>
        exact r.tracked.fresh i (any_schedules.2 ⟨_, _, _, List.singleton_sublist.1 hi⟩)

/-- A timer is not handed out before another one that fires once, is due earlier and was neither
cancelled nor handed out. -/
theorem Step.in_turn {past : List (Event κ τ)} {s s' : Driver κ τ} {t : Timer κ} {now : Nat}
    (hs : Step s (.fired t now) s') (r : Run past s) {i nowᵢ nowⱼ delayᵢ delayⱼ : Nat}
    (hi : .scheduled i nowᵢ delayᵢ false ∈ past) (hj : .scheduled t.id nowⱼ delayⱼ false ∈ past)
    (hcancels : past.any (Event.cancels i) = false)
    (hearlier : nowᵢ + delayᵢ < nowⱼ + delayⱼ ∨ nowᵢ + delayᵢ = nowⱼ + delayⱼ ∧ i < t.id) :
    past.any (Event.fires i) := by
  have ht := r.tracked
  have hunfired : past.any (Event.fires t.id) = false := by
    have honce := (hs.tracked ht).atMostOnce t.id
      (any_schedulesOnce.2 ⟨_, _, List.mem_cons_of_mem _ hj⟩)
    rw [List.countP_cons_of_pos (by simp [Event.fires])] at honce
    have hzero := List.countP_eq_zero.1 (Nat.le_zero.1 (Nat.le_of_succ_le_succ honce))
    simpa using hzero
  by_contra hfires
  obtain ⟨eᵢ, hmemᵢ, rfl, honceᵢ, hdeadlineᵢ⟩ :=
    r.awaited i nowᵢ delayᵢ hi hcancels (Bool.eq_false_iff.2 hfires)
  obtain ⟨eⱼ, hmemⱼ, hidⱼ, honceⱼ, hdeadlineⱼ⟩ :=
    r.awaited t.id nowⱼ delayⱼ hj (hs.fired_due ht).1 hunfired
  cases hs with
  | @fire l _ _ _ hexpire =>
    obtain ⟨e, hmem, rfl, -, -, hfirst⟩ := r.ordered.first ht.ids_nodup hexpire
    obtain rfl : eⱼ = e := List.inj_on_of_nodup_map ht.ids_nodup hmemⱼ hmem hidⱼ
    have hwanted : eᵢ.timer.id ∉ l.cancelled := fun hc =>
      Bool.false_ne_true (hcancels.symm.trans (ht.cancelled _ hc))
    have hne : eᵢ ≠ eⱼ := by
      rintro rfl
      omega
    have hbefore := TimerEntry.before_iff.1 (hfirst eᵢ hmemᵢ hwanted hne)
    rcases hearlier with hlt | ⟨heq, hid⟩
    · omega
    · have horder := r.ordered.inTurn eᵢ hmemᵢ eⱼ hmemⱼ honceᵢ honceⱼ hid
      omega

/-- A timer that is handed out is due, and comes before all other entries that are not cancelled,
by its deadline and then by the order of arming. When something else is handed out, or nothing, no
entry that is not cancelled is due. So of two timers that fire once the one that is due later, or
was scheduled later to be due at the same time, is handed out only after the other one was handed
out or cancelled. -/
theorem fires_in_deadline_order {h : List (Event κ τ)} {s : Driver κ τ} (r : Run h s) :
    (∀ now t l, s.loop.poll now = (.timer t, l) →
      ∃ e ∈ s.loop.entries, e.timer = t ∧ e.deadline ≤ now ∧ t.id ∉ s.loop.cancelled ∧
        ∀ e' ∈ s.loop.entries, e'.timer.id ∉ s.loop.cancelled → e' ≠ e → e.before e') ∧
    (∀ now ready l, s.loop.poll now = (ready, l) → (∀ t, ready ≠ .timer t) →
      ∀ e ∈ s.loop.entries, e.timer.id ∉ s.loop.cancelled → now < e.deadline) ∧
    (∀ t now past, .fired t now :: past <:+ h → ∀ i nowᵢ delayᵢ nowⱼ delayⱼ,
      .scheduled i nowᵢ delayᵢ false ∈ past → .scheduled t.id nowⱼ delayⱼ false ∈ past →
      .cancelled i true ∉ past →
      (nowᵢ + delayᵢ < nowⱼ + delayⱼ ∨ nowᵢ + delayᵢ = nowⱼ + delayⱼ ∧
        [.scheduled t.id nowⱼ delayⱼ false, .scheduled i nowᵢ delayᵢ false].Sublist past) →
      ∃ t' time, .fired t' time ∈ past ∧ t'.id = i) := by
  refine ⟨fun now t l hpoll => ?_, fun now ready l hpoll hready e => ?_, ?_⟩
  · obtain ⟨t', ht', hexpire⟩ | ⟨hnone, -⟩ := expire_of_poll hpoll
    · obtain rfl := Ready.timer.inj ht'
      exact r.ordered.first r.tracked.ids_nodup hexpire
    · exact absurd rfl (hnone t)
  · obtain ⟨t, rfl, -⟩ | ⟨-, l₁, hexpire⟩ := expire_of_poll hpoll
    · exact absurd rfl (hready t)
    · exact r.ordered.none_due r.tracked.ids_nodup hexpire
  · intro t now past hpast i nowᵢ delayᵢ nowⱼ delayⱼ hi hj hcancels hearlier
    obtain ⟨s₁, s₂, r₁, hstep, -⟩ := r.before hpast
    rw [← any_cancels, Bool.not_eq_true] at hcancels
    rw [← any_fires]
    exact hstep.in_turn r₁ hi hj hcancels (hearlier.imp_right (And.imp_right r₁.id_lt))

/-- Two timers that are due at the same time, and one that is due earlier but is cancelled. -/
def tied : List (Event Unit Unit) :=
  [.fired ⟨2, (), none⟩ 9, .rearmed ⟨1, (), none⟩ 8, .fired ⟨1, (), none⟩ 8, .cancelled 3 true,
    .scheduled 3 3 1 false, .scheduled 2 2 5 false, .scheduled 1 0 7 false]

theorem tied_run : ∃ s, Run tied s := by
  have r₀ : Run ([] : List (Event Unit Unit)) _ := .start
  have r₁ := (r₀.step (.schedule 0 () 7 false)).step (.schedule 2 () 5 false)
  have r₂ := (r₁.step (.schedule 3 () 1 false)).step (.cancel 3)
  have r₃ := (r₂.step (.fire 8 rfl)).step (.rearm 8)
  exact ⟨_, r₃.step (.fire 9 rfl)⟩

/-- The one that was scheduled first has been handed out when the second one is. -/
theorem tied_in_order : ∃ s, Run tied s ∧
    ∃ t time, .fired t time ∈ tied.drop 1 ∧ t.id = 1 := by
  obtain ⟨s, r⟩ := tied_run
  obtain ⟨-, -, horder⟩ := fires_in_deadline_order r
  refine ⟨s, r, horder ⟨2, (), none⟩ 9 _ (List.suffix_refl tied) 1 0 7 2 5 ?_ ?_ ?_ ?_⟩
  · simp
  · simp
  · simp
  · exact .inr ⟨rfl, (List.sublist_append_right [_, _, _, _] _)⟩

end EventLoop

end ScriptEngine
