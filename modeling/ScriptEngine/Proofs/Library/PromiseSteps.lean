import ScriptEngine.Proofs.Library.Promises

/-!
# What happens to promises

The steps that a machine's promises go through: those that leave them alone, the registration of a
callback, and the making and the settling of a promise. Each keeps the promises in order, so that
order is in custody.
-/
namespace ScriptEngine.Machine
open Library

variable {m m' : Machine} {promise : InstanceRef} {outcome : Fetched}

/-! Steps that leave promises alone -/

/-- Promises that are on the machine before a step keep their fields, and unless they are pending
their queues; others that are there after it are blank. -/
theorem Advances.spare (hm : m.InOrder) (hb : ({ m with heap := m'.heap } : Machine).Beside m')
    (kept : ∀ r, m.IsPromise r → m'.IsPromise r ∧
      ∀ key ∈ promiseFields, m'.heap.field? r key = m.heap.field? r key)
    (new : ∀ r, m'.IsPromise r → m.IsPromise r ∨ m'.Blank r)
    (present : m.heap.arrays.size ≤ m'.heap.arrays.size)
    (queues : ∀ r, m.IsPromise r → ¬m.IsRegistered r → ∀ (kind : Settlement) a items,
      m.heap.field? r kind.queue = some (.array a) →
      m.heap.arrays[a.index]? = some items → m'.heap.arrays[a.index]? = some items) :
    Advances none m m' where
  promiseClass := hb.promiseClass
  objectClass := hb.objectClass
  nextId := hb.nextId
  lastTicket := by rw [hb.promises]
  tickets hticket := .inl (by rwa [hb.promises] at hticket)
  isPromise h := (kept _ h).1
  becomes {r} hr := by
    have hregistered : m'.IsRegistered r ↔ m.IsRegistered r := by
      rw [IsRegistered, hb.promises, IsRegistered]
    by_cases h : m.IsPromise r
    · refine .same h (kept r h).2 (fun ticket => by rw [hb.promises]) ?_ (queues r h)
      intro kind a items _ hitems
      have hlt := (Array.getElem?_eq_some_iff.1 hitems).1
      exact ⟨_, Array.getElem?_eq_getElem (hlt.trans_le present)⟩
    · exact .blank h (fun hreg => h (hm.registered (hregistered.1 hreg)).1)
        ((new r hr).resolve_left h)

theorem Beside.advances (h : m.Beside m') (hm : m.InOrder) : Advances none m m' := by
  have hpromise (r : InstanceRef) : m'.IsPromise r ↔ m.IsPromise r := by
    rw [IsPromise, h.heap, h.promiseClass, IsPromise]
  refine .spare hm ⟨rfl, h.promises, h.promiseClass, h.objectClass, h.nextId⟩
    (fun r hr => ⟨(hpromise r).2 hr, fun key _ => by rw [h.heap]⟩)
    (fun r hr => .inl ((hpromise r).1 hr))
    (by rw [h.heap]) fun r _ _ kind a items _ hitems => by rwa [h.heap]

theorem advances_newArray (hm : m.InOrder) (items : Array Value) :
    Advances none m { m with heap := (m.heap.newArray items).2 } := by
  refine .spare hm ⟨rfl, rfl, rfl, rfl, Nat.le_refl _⟩ (fun r hr => ⟨hr, fun _ _ => rfl⟩)
    (fun r hr => .inl hr) (by simp [Heap.newArray]) fun r _ _ kind a items' _ hitems => ?_
  exact Heap.getElem?_newArray items hitems

theorem advances_newInstance (hm : m.InOrder) {cls : Class} {fields : Fields Value}
    (h : fields = .empty ∨ cls.id ≠ m.promiseClass.id) :
    Advances none m { m with heap := (m.heap.newInstance ⟨cls, fields⟩).2 } := by
  refine .spare hm ⟨rfl, rfl, rfl, rfl, Nat.le_refl _⟩ (fun r hr => ?_) (fun r hr => ?_)
    (Nat.le_refl _) fun r _ _ kind a items _ hitems => hitems
  · have hne := Heap.ne_of_classId? hr
    exact ⟨(congrArg (Option.map _) (Heap.instance?_newInstance_of_ne _ hne)).trans hr,
      fun key _ => congrArg (Option.bind · _) (Heap.instance?_newInstance_of_ne _ hne)⟩
  · by_cases hne : r = ⟨m.heap.instances.size⟩
    · subst hne
      have hcls : cls.id = m.promiseClass.id := by
        simpa [IsPromise, Heap.classId?, Heap.instance?, Heap.newInstance] using hr
      obtain rfl := h.resolve_right fun hother => hother hcls
      refine .inr fun key _ => ?_
      simp [Heap.field?, Heap.instance?, Heap.newInstance, Fields.get?, Fields.empty]
    · exact .inl ((congrArg (Option.map _) (Heap.instance?_newInstance_of_ne _ hne)).symm.trans hr)

theorem advances_setField (hm : m.InOrder) {r : InstanceRef} {key : String} (v : Value)
    (h : meddling (.setField r key) m = false) :
    Advances none m { m with heap := m.heap.setField r key v } := by
  refine .spare hm ⟨rfl, rfl, rfl, rfl, Nat.le_refl _⟩ (fun r' hr' => ?_) (fun r' hr' => ?_)
    (Nat.le_refl _) fun _ _ _ _ _ _ _ hitems => hitems
  · refine ⟨(Heap.classId?_setField ..).trans hr', fun k hk => ?_⟩
    refine Heap.field?_setField_of_ne _ _ _ ?_
    rintro ⟨rfl, rfl⟩
    simp [meddling, hr', hk] at h
  · exact .inl ((Heap.classId?_setField ..).symm.trans hr')

/-- The array of a promise is known as such. -/
theorem isCallbackArray_of_queue (hp : m.IsPromise promise) {kind : Settlement} {a : ArrayRef}
    (ha : m.heap.field? promise kind.queue = some (.array a)) : m.isCallbackArray a = true := by
  have hkeeps : m.keepsCallbacks promise kind a = true := by simp [keepsCallbacks, ha]
  refine List.any_eq_true.2 ⟨promise.index, List.mem_range.2 (Heap.lt_of_classId? hp), ?_⟩
  cases kind <;> simp [hp, hkeeps]

theorem advances_modifyArray (hm : m.InOrder) {a : ArrayRef} (f : Array Value → Array Value)
    (h : ∀ r, m.IsPromise r → ¬m.IsRegistered r → ∀ kind : Settlement,
      m.heap.field? r kind.queue ≠ some (.array a)) :
    Advances none m { m with heap := m.heap.modifyArray a f } := by
  refine .spare hm ⟨rfl, rfl, rfl, rfl, Nat.le_refl _⟩ (fun r hr => ⟨hr, fun _ _ => rfl⟩)
    (fun r hr => .inl hr) (by simp [Heap.modifyArray]) fun r hr hnot kind b items hb hitems => ?_
  refine (Heap.getElem?_modifyArray_of_ne _ ?_).trans hitems
  rintro rfl
  exact h r hr hnot kind hb

theorem advances_changeArray (hm : m.InOrder) {a : ArrayRef} (f : Array Value → Array Value)
    (h : meddling (.changeArray a) m = false) :
    Advances none m { m with heap := m.heap.modifyArray a f } := by
  refine advances_modifyArray hm f fun r hr _ kind hfield => ?_
  exact absurd (isCallbackArray_of_queue hr hfield) (by simpa [meddling] using h)

/-- A callback goes into the queue of a pending promise, or into an array that is no queue. -/
theorem advances_register (hm : m.InOrder) {r : InstanceRef} {kind : Settlement} {a : ArrayRef}
    (callback : Value) (h : meddling (.subscribe r kind) m = false)
    (hstatus : m.heap.field? r "status" = some (.text pendingStatus))
    (hqueue : m.heap.field? r kind.queue = some (.array a)) :
    Advances none m { m with heap := m.heap.modifyArray a fun items => items.push callback } := by
  refine advances_modifyArray hm _ fun r' hr' hnot kind' hfield => ?_
  by_cases hr : m.IsPromise r
  · obtain ⟨rfl, -⟩ := hm.apart hr hr' hqueue hfield
    rcases hm.unregistered hr hnot with hblank | ⟨outcome, hconcluded⟩
    · simp [hblank _ kind.queue_mem] at hqueue
    · have hboth := hstatus.symm.trans hconcluded.status
      simp [(settlementOf outcome).status_ne_pending.symm] at hboth
  · have hknown := isCallbackArray_of_queue hr' hfield
    simp [meddling, hr, hqueue, hknown] at h

/-! Making and settling a promise -/

theorem lookup_filter_bne {α : Type} (xs : List (Nat × α)) (k k' : Nat) :
    (xs.filter fun e => e.1 != k).lookup k' = if k' = k then none else xs.lookup k' := by
  induction xs with
  | nil => simp
  | cons e rest ih =>
    obtain ⟨i, a⟩ := e
    by_cases hi : i = k
    · rw [List.filter_cons_of_neg (by simp [hi]), ih, lookup_cons_ite, hi]
      split <;> rfl
    · rw [List.filter_cons_of_pos (by simp [hi]), lookup_cons_ite, lookup_cons_ite, ih]
      grind

/-- The next ticket has not been registered. -/
theorem InOrder.next_unregistered (hm : m.InOrder) :
    m.promises.pending.lookup (m.promises.lastTicket + 1) = none := by
  by_contra hsome
  obtain ⟨p, hp⟩ := Option.ne_none_iff_exists'.1 hsome
  exact absurd (hm.numbered hp) (Nat.not_succ_le_self _)

theorem InOrder.lookup_promised (hm : m.InOrder) (ticket : Nat) :
    (promised m).promises.pending.lookup ticket =
      if ticket = m.promises.lastTicket + 1 then some ⟨m.heap.instances.size⟩
      else m.promises.pending.lookup ticket := by
  rw [promised, List.lookup_append, lookup_cons_ite]
  split
  next h => rw [h, hm.next_unregistered, Option.none_or]
  next => simp

theorem isPromise_promised : (promised m).IsPromise ⟨m.heap.instances.size⟩ := by
  simp [IsPromise, promised, Heap.classId?, Heap.instance?]

theorem pending_promised : (promised m).Pending ⟨m.heap.instances.size⟩ where
  status := field?_promised_status m
  value := by
    simp [promised, Heap.field?, Heap.instance?, pendingFields, Fields.ofList, Fields.get?_insert,
      Settlement.queue]
  queues kind := ⟨_, #[], field?_promised_queue m kind, getElem?_promised_queue m kind⟩

/-- Instances that were there before a promise is made. -/
theorem instance?_promised_of_ne {r : InstanceRef} (hr : r ≠ ⟨m.heap.instances.size⟩) :
    (promised m).heap.instance? r = m.heap.instance? r :=
  Heap.instance?_newInstance_of_ne _ hr

theorem getElem?_promised {j : Nat} {items : Array Value} (hj : m.heap.arrays[j]? = some items) :
    (promised m).heap.arrays[j]? = some items :=
  Heap.getElem?_newArray #[] (Heap.getElem?_newArray #[] hj)

theorem advances_promised (hm : m.InOrder) :
    Advances (some ⟨m.heap.instances.size⟩) m (promised m) := by
  have hnew : ¬m.IsPromise ⟨m.heap.instances.size⟩ := fun h => Heap.ne_of_classId? h rfl
  have hclass {r : InstanceRef} (hr : r ≠ ⟨m.heap.instances.size⟩) :
      (promised m).IsPromise r ↔ m.IsPromise r := by
    rw [IsPromise, Heap.classId?, instance?_promised_of_ne hr]
    rfl
  refine ⟨rfl, rfl, Nat.le_refl _, Nat.le_succ _, fun {ticket p} hticket => ?_,
    fun hr => (hclass (Heap.ne_of_classId? hr)).2 hr, fun {r} hr => ?_⟩
  · rw [hm.lookup_promised] at hticket
    split at hticket
    next h =>
      cases hticket
      exact .inr ⟨by omega, h, hnew, isPromise_promised⟩
    next => exact .inl hticket
  · by_cases hr' : r = ⟨m.heap.instances.size⟩
    · subst hr'
      exact .made hnew rfl ⟨_, (hm.lookup_promised _).trans (if_pos rfl)⟩ pending_promised
        (field?_promised_queue m)
    · refine .same ((hclass hr').1 hr) (fun key _ => ?_) (fun ticket => ?_) ?_ ?_
      · rw [Heap.field?, instance?_promised_of_ne hr', Heap.field?]
      · rw [hm.lookup_promised]
        split
        next h => simp [h, hm.next_unregistered, Ne.symm hr']
        next => rfl
      · exact fun _ a items _ hitems => ⟨items, getElem?_promised hitems⟩
      · exact fun _ _ a items _ hitems => getElem?_promised hitems

/-! Settling a promise -/

section

variable {ticket : Nat} {queue : ArrayRef}

theorem classId?_settledHeap (h : Heap) (kind : Settlement) (value : Value) (r : InstanceRef) :
    (settledHeap h promise kind value queue).classId? r = h.classId? r := by
  simp only [settledHeap, Heap.classId?_setField, Heap.classId?_newArray,
    Heap.classId?_modifyArray]

/-- Other promises keep their fields. -/
theorem field?_settledHeap_of_ne (h : Heap) (kind : Settlement) (value : Value) {r : InstanceRef}
    (hr : r ≠ promise) (key : String) :
    (settledHeap h promise kind value queue).field? r key = h.field? r key := by
  have hset (h : Heap) (k : String) (v : Value) :
      (h.setField promise k v).field? r key = h.field? r key :=
    Heap.field?_setField_of_ne _ _ _ fun hsame => hr hsame.1
  simp only [settledHeap, hset, Heap.field?_newArray, Heap.field?_modifyArray]

/-- The queue that was taken is empty, and other arrays are as they were. -/
theorem getElem?_settledHeap {h : Heap} (kind : Settlement) (value : Value) {a : ArrayRef}
    {items : Array Value} (ha : h.arrays[a.index]? = some items) :
    (settledHeap h promise kind value queue).arrays[a.index]? =
      some (if a = queue then #[] else items) := by
  have hlt := (Array.getElem?_eq_some_iff.1 ha).1
  have hsame : queue.index = a.index ↔ a = queue :=
    ⟨fun heq => congrArg ArrayRef.mk heq.symm, fun heq => heq ▸ rfl⟩
  rw [arrays_settledHeap, Array.getElem?_push_lt (by simp; omega), Array.getElem_push_lt (by simpa),
    Array.getElem_modify, ← (Array.getElem?_eq_some_iff.1 ha).2]
  simp only [hsame]

theorem field?_settledHeap_queue {h : Heap} (hp : (h.instance? promise).isSome) (kind : Settlement)
    (value : Value) (kind' : Settlement) :
    (settledHeap h promise kind value queue).field? promise kind'.queue =
      some (.array (nextQueue h kind')) := by
  cases kind' <;> simp [field?_settledHeap hp, Settlement.queue]

theorem concluded_settling (hp : (m.heap.instance? promise).isSome) :
    (m.settling ticket promise outcome queue).Concluded promise outcome where
  status := by simp [settling, field?_settledHeap hp, Settlement.queue]
  value := by simp [settling, field?_settledHeap hp, Settlement.queue]
  queues kind := ⟨_, field?_settledHeap_queue hp _ _ kind, getElem?_settledHeap_nextQueue ..⟩

theorem lookup_settling (ticket' : Nat) :
    (m.settling ticket promise outcome queue).promises.pending.lookup ticket' =
      if ticket' = ticket then none else m.promises.pending.lookup ticket' :=
  lookup_filter_bne ..

/-- No ticket is left of a promise that is settled. -/
theorem InOrder.not_registered_settling (hm : m.InOrder)
    (hticket : m.promises.pending.lookup ticket = some promise) :
    ¬(m.settling ticket promise outcome queue).IsRegistered promise := by
  rintro ⟨ticket', h⟩
  rw [lookup_settling] at h
  split at h
  · exact absurd h nofun
  next hne => exact hne (hm.single h hticket)

theorem advances_settling (hm : m.InOrder)
    (hticket : m.promises.pending.lookup ticket = some promise)
    (hqueue : m.heap.field? promise (settlementOf outcome).queue = some (.array queue)) :
    Advances (some promise) m (m.settling ticket promise outcome queue) := by
  have hinstance := Heap.isSome_instance?_of_field? hqueue
  have hclass (r : InstanceRef) :
      (m.settling ticket promise outcome queue).IsPromise r ↔ m.IsPromise r := by
    rw [IsPromise, settling, classId?_settledHeap, IsPromise]
  obtain ⟨hp, -⟩ := hm.registered (.of_lookup hticket)
  refine ⟨rfl, rfl, Nat.le_refl _, Nat.le_refl _, fun {ticket' p} h => .inl ?_,
    (hclass _).2, fun {r} hr => ?_⟩
  · rw [lookup_settling] at h
    split at h
    · exact absurd h nofun
    · exact h
  · by_cases hr' : r = promise
    · subst hr'
      exact .concluded (.of_lookup hticket) rfl (hm.not_registered_settling hticket)
        (concluded_settling hinstance) (field?_settledHeap_queue hinstance _ _)
    · refine .same ((hclass r).1 hr) (fun key _ => field?_settledHeap_of_ne _ _ _ hr' key)
        (fun ticket' => ?_) (fun _ a items _ hitems => ⟨_, getElem?_settledHeap _ _ hitems⟩)
        fun _ kind a items ha hitems => ?_
      · rw [lookup_settling]
        split
        next h => simp [h, hticket, Ne.symm hr']
        next => rfl
      · have hne : a ≠ queue := by
          rintro rfl
          exact hr' (hm.apart ((hclass r).1 hr) hp ha hqueue).1
        exact (getElem?_settledHeap _ _ hitems).trans (by rw [if_neg hne])

end

/-! Order and growth together -/

/-- Whatever happens to a machine in good order, as long as scripts do not meddle, leaves a later
one in good order. -/
theorem custody_inOrder (start : Machine) (hstart : start.InOrder) :
    Custody meddling fun m => m.InOrder ∧ start.Grows m := by
  have hnext {x : Option InstanceRef} {m m' : Machine} (hm : m.InOrder ∧ start.Grows m)
      (h : Advances x m m') : m'.InOrder ∧ start.Grows m' :=
    ⟨h.inOrder hm.1, hm.2.trans hstart (h.grows hm.1)⟩
  refine
    { beside := fun hm h => hnext hm (h.advances hm.1)
      classes := fun hm => hm.1.classes
      newArray := fun items hm => hnext hm (advances_newArray hm.1 items)
      newInstance := fun hm h => hnext hm (advances_newInstance hm.1 h)
      setField := fun v hm h => hnext hm (advances_setField hm.1 v h)
      changeArray := fun f hm h => hnext hm (advances_changeArray hm.1 f h)
      newPromise := fun hm => hnext hm (advances_promised hm.1)
      register := fun callback hm h hstatus hqueue =>
        hnext hm (advances_register hm.1 callback h hstatus hqueue)
      settle := fun outcome hm hticket => ?_ }
  obtain ⟨queue, items, hqueue, -⟩ :=
    (hm.1.registered (.of_lookup hticket)).2.queues (settlementOf outcome)
  exact ⟨queue, hqueue, hnext hm (advances_settling hm.1 hticket hqueue)⟩

end ScriptEngine.Machine
