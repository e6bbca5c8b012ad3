import ScriptEngine.Proofs.Library.Custody

/-!
# Promises in good order

On a machine in good order a ticket is registered for every promise that is pending and for no
other, and no two promises share an array of callbacks. Whatever happens to a machine, as long as
scripts do not meddle with promises, keeps the order; and from one machine to a later one a promise
is either left alone, made, or settled for good.
-/
namespace ScriptEngine
open Library

namespace Library

/-- The fields that a promise is made with. -/
def promiseFields : List String :=
  ["status", "value", Settlement.resolved.queue, Settlement.rejected.queue]

theorem Settlement.status_ne_pending (kind : Settlement) : kind.status ≠ pendingStatus := by
  cases kind <;> decide

theorem Settlement.status_injective : Function.Injective Settlement.status := by
  intro kind kind' h
  cases kind <;> cases kind' <;> simp_all [Settlement.status]

theorem Settlement.queue_mem (kind : Settlement) : kind.queue ∈ promiseFields := by
  cases kind <;> decide

end Library

namespace Machine

/-- The instance is one of the class of promises itself. -/
def IsPromise (m : Machine) (r : InstanceRef) : Prop :=
  m.heap.classId? r = some m.promiseClass.id

instance (m : Machine) (r : InstanceRef) : Decidable (m.IsPromise r) :=
  inferInstanceAs (Decidable (_ = _))

/-- Whether the callbacks of this kind are kept in this array. -/
def keepsCallbacks (m : Machine) (r : InstanceRef) (kind : Settlement) (a : ArrayRef) : Bool :=
  match m.heap.field? r kind.queue with
  | some (.array b) => b = a
  | _ => false

/-- Whether a promise keeps callbacks in this array. -/
def isCallbackArray (m : Machine) (a : ArrayRef) : Bool :=
  (List.range m.heap.instances.size).any fun i =>
    decide (m.IsPromise ⟨i⟩) &&
      (m.keepsCallbacks ⟨i⟩ .resolved a || m.keepsCallbacks ⟨i⟩ .rejected a)

end Machine

/-- What scripts are not to do to promises: to assign to their fields, or to change the arrays in
which they keep callbacks. A method of promises does so if it is called on something else that has
got hold of such an array. -/
def meddling : Deed → Machine → Bool
  | .setField r key, m => decide (m.IsPromise r) && promiseFields.contains key
  | .changeArray a, m => m.isCallbackArray a
  | .subscribe r kind, m =>
    !decide (m.IsPromise r) &&
      match m.heap.field? r kind.queue with
      | some (.array a) => m.isCallbackArray a
      | _ => false

namespace Machine

/-- An instance that has none of the fields of a promise, as a script makes it by calling the
class. -/
def Blank (m : Machine) (r : InstanceRef) : Prop :=
  ∀ key ∈ promiseFields, m.heap.field? r key = none

structure Pending (m : Machine) (promise : InstanceRef) : Prop where
  status : m.heap.field? promise "status" = some (.text pendingStatus)
  value : m.heap.field? promise "value" = some .nil
  queues (kind : Settlement) : ∃ a items,
    m.heap.field? promise kind.queue = some (.array a) ∧ m.heap.arrays[a.index]? = some items

/-- A promise that has been settled, and whose queues are empty. -/
structure Concluded (m : Machine) (promise : InstanceRef) (outcome : Fetched) : Prop where
  status : m.heap.field? promise "status" = some (.text (settlementOf outcome).status)
  value : m.heap.field? promise "value" = some (settledValue outcome)
  queues (kind : Settlement) : ∃ a,
    m.heap.field? promise kind.queue = some (.array a) ∧ m.heap.arrays[a.index]? = some #[]

/-- A ticket is registered for the instance. -/
def IsRegistered (m : Machine) (r : InstanceRef) : Prop :=
  ∃ ticket, m.promises.pending.lookup ticket = some r

structure InOrder (m : Machine) : Prop where
  classes : m.promiseClass.id < m.nextId ∧ m.objectClass.id ≠ m.promiseClass.id
  numbered {ticket : Nat} {promise : InstanceRef} :
    m.promises.pending.lookup ticket = some promise → ticket ≤ m.promises.lastTicket
  single {ticket ticket' : Nat} {promise : InstanceRef} :
    m.promises.pending.lookup ticket = some promise →
    m.promises.pending.lookup ticket' = some promise → ticket = ticket'
  registered {promise : InstanceRef} :
    m.IsRegistered promise → m.IsPromise promise ∧ m.Pending promise
  unregistered {promise : InstanceRef} :
    m.IsPromise promise → ¬m.IsRegistered promise →
      m.Blank promise ∨ ∃ outcome, m.Concluded promise outcome
  apart {promise promise' : InstanceRef} {kind kind' : Settlement} {a : ArrayRef} :
    m.IsPromise promise → m.IsPromise promise' →
    m.heap.field? promise kind.queue = some (.array a) →
    m.heap.field? promise' kind'.queue = some (.array a) → promise = promise' ∧ kind = kind'

/-- What a later machine has kept of the promises of an earlier one. -/
structure Grows (m m' : Machine) : Prop where
  promiseClass : m'.promiseClass = m.promiseClass
  lastTicket : m.promises.lastTicket ≤ m'.promises.lastTicket
  old {ticket : Nat} {promise : InstanceRef} : ticket ≤ m.promises.lastTicket →
    m'.promises.pending.lookup ticket = some promise →
      m.promises.pending.lookup ticket = some promise
  registered {ticket : Nat} {promise : InstanceRef} :
    m.promises.pending.lookup ticket = some promise →
      m'.promises.pending.lookup ticket = some promise ∨
      m'.promises.pending.lookup ticket = none ∧ m'.IsPromise promise ∧
        ∃ outcome, m'.Concluded promise outcome
  concluded {promise : InstanceRef} {outcome : Fetched} :
    m.IsPromise promise → m.Concluded promise outcome →
      m'.IsPromise promise ∧ m'.Concluded promise outcome

/-- What an instance of the class of promises was on the machine before. At most one is made or
settled at a time; it gets new queues. -/
inductive Becomes (x : Option InstanceRef) (m m' : Machine) (r : InstanceRef) : Prop
  | same (h : m.IsPromise r)
      (fields : ∀ key ∈ promiseFields, m'.heap.field? r key = m.heap.field? r key)
      (tickets : ∀ ticket, m'.promises.pending.lookup ticket = some r ↔
        m.promises.pending.lookup ticket = some r)
      (present : ∀ (kind : Settlement) a items, m.heap.field? r kind.queue = some (.array a) →
        m.heap.arrays[a.index]? = some items → ∃ items', m'.heap.arrays[a.index]? = some items')
      (queues : ¬m.IsRegistered r → ∀ (kind : Settlement) a items,
        m.heap.field? r kind.queue = some (.array a) →
        m.heap.arrays[a.index]? = some items → m'.heap.arrays[a.index]? = some items)
  | blank (h : ¬m.IsPromise r) (hr : ¬m'.IsRegistered r) (fields : m'.Blank r)
  | made (h : ¬m.IsPromise r) (hx : x = some r) (hr : m'.IsRegistered r) (hpending : m'.Pending r)
      (queues : ∀ kind : Settlement,
        m'.heap.field? r kind.queue = some (.array (nextQueue m.heap kind)))
  | concluded {outcome : Fetched} (h : m.IsRegistered r) (hx : x = some r)
      (hr : ¬m'.IsRegistered r) (hconcluded : m'.Concluded r outcome)
      (queues : ∀ kind : Settlement,
        m'.heap.field? r kind.queue = some (.array (nextQueue m.heap kind)))

/-- What one step does to the promises of a machine. -/
structure Advances (x : Option InstanceRef) (m m' : Machine) : Prop where
  promiseClass : m'.promiseClass = m.promiseClass
  objectClass : m'.objectClass = m.objectClass
  nextId : m.nextId ≤ m'.nextId
  lastTicket : m.promises.lastTicket ≤ m'.promises.lastTicket
  tickets {ticket : Nat} {promise : InstanceRef} :
    m'.promises.pending.lookup ticket = some promise →
      m.promises.pending.lookup ticket = some promise ∨
      m.promises.lastTicket < ticket ∧ ticket = m'.promises.lastTicket ∧
        ¬m.IsPromise promise ∧ m'.IsPromise promise
  isPromise {r : InstanceRef} : m.IsPromise r → m'.IsPromise r
  becomes {r : InstanceRef} : m'.IsPromise r → Becomes x m m' r

variable {m m' m'' : Machine} {x : Option InstanceRef} {promise : InstanceRef} {outcome : Fetched}

theorem Pending.not_concluded (h : m.Pending promise) : ¬m.Concluded promise outcome := by
  intro hc
  have hstatus := h.status.symm.trans hc.status
  simp [(settlementOf outcome).status_ne_pending.symm] at hstatus

theorem IsRegistered.of_lookup {ticket : Nat}
    (h : m.promises.pending.lookup ticket = some promise) : m.IsRegistered promise :=
  ⟨ticket, h⟩

/-! One machine -/

namespace InOrder

variable (h : m.InOrder)
include h

/-- The arrays in which promises keep callbacks are on the heap. -/
theorem queue_present (hp : m.IsPromise promise) {kind : Settlement} {a : ArrayRef}
    (ha : m.heap.field? promise kind.queue = some (.array a)) :
    ∃ items, m.heap.arrays[a.index]? = some items := by
  have hfound {b : ArrayRef} {items : Array Value}
      (hb : m.heap.field? promise kind.queue = some (.array b))
      (hitems : m.heap.arrays[b.index]? = some items) :
      ∃ items, m.heap.arrays[a.index]? = some items := by
    obtain rfl : a = b := by simpa [ha] using hb
    exact ⟨items, hitems⟩
  by_cases hr : m.IsRegistered promise
  · obtain ⟨b, items, hb, hitems⟩ := (h.registered hr).2.queues kind
    exact hfound hb hitems
  · rcases h.unregistered hp hr with hblank | ⟨outcome, hconcluded⟩
    · simp [hblank _ kind.queue_mem] at ha
    · obtain ⟨b, hb, hitems⟩ := hconcluded.queues kind
      exact hfound hb hitems

theorem queue_lt (hp : m.IsPromise promise) {kind : Settlement} {a : ArrayRef}
    (ha : m.heap.field? promise kind.queue = some (.array a)) :
    a.index < m.heap.arrays.size := by
  obtain ⟨items, hitems⟩ := h.queue_present hp ha
  exact (Array.getElem?_eq_some_iff.1 hitems).1

theorem not_registered_of_concluded (hc : m.Concluded promise outcome) :
    ¬m.IsRegistered promise :=
  fun hr => (h.registered hr).2.not_concluded hc

end InOrder

/-! From one machine to the next -/

theorem Becomes.pending (h : Becomes x m m' promise) (hm : m.InOrder)
    (hr : m'.IsRegistered promise) : m'.Pending promise := by
  cases h with
  | same hp fields tickets present queues =>
    obtain ⟨ticket, hticket⟩ := hr
    obtain ⟨-, hstatus, hvalue, hqueues⟩ := hm.registered ⟨ticket, (tickets ticket).1 hticket⟩
    refine ⟨?_, ?_, fun kind => ?_⟩
    · rw [fields _ (by decide), hstatus]
    · rw [fields _ (by decide), hvalue]
    · obtain ⟨a, items, ha, hitems⟩ := hqueues kind
      obtain ⟨items', hitems'⟩ := present kind a items ha hitems
      exact ⟨a, items', (fields _ kind.queue_mem).trans ha, hitems'⟩
  | blank _ hnot _ => exact absurd hr hnot
  | made _ _ _ hpending _ => exact hpending
  | concluded _ _ hnot _ _ => exact absurd hr hnot

/-- What is settled stays so, with the same outcome. -/
theorem Becomes.concluded_of (h : Becomes x m m' promise) (hm : m.InOrder)
    (hp : m.IsPromise promise) (hc : m.Concluded promise outcome) :
    m'.Concluded promise outcome := by
  have hnot := hm.not_registered_of_concluded hc
  cases h with
  | same _ fields _ _ queues =>
    refine ⟨?_, ?_, fun kind => ?_⟩
    · rw [fields _ (by decide), hc.status]
    · rw [fields _ (by decide), hc.value]
    · obtain ⟨a, ha, hitems⟩ := hc.queues kind
      exact ⟨a, (fields _ kind.queue_mem).trans ha, queues hnot kind a _ ha hitems⟩
  | blank hnew _ _ => exact absurd hp hnew
  | made hnew _ _ _ _ => exact absurd hp hnew
  | concluded hr _ _ _ _ => exact absurd hr hnot

theorem Becomes.settled (h : Becomes x m m' promise) (hm : m.InOrder)
    (hr : ¬m'.IsRegistered promise) :
    m'.Blank promise ∨ ∃ outcome, m'.Concluded promise outcome := by
  have hkept (outcome : Fetched) (hp : m.IsPromise promise) (hc : m.Concluded promise outcome) :=
    h.concluded_of hm hp hc
  cases h with
  | same hp fields tickets _ _ =>
    have hnot : ¬m.IsRegistered promise := fun ⟨ticket, hticket⟩ =>
      hr ⟨ticket, (tickets ticket).2 hticket⟩
    rcases hm.unregistered hp hnot with hblank | ⟨outcome, hconcluded⟩
    · exact .inl fun key hkey => (fields key hkey).trans (hblank key hkey)
    · exact .inr ⟨outcome, hkept outcome hp hconcluded⟩
  | blank _ _ fields => exact .inl fields
  | made _ _ hreg _ _ => exact absurd hreg hr
  | concluded _ _ _ hconcluded _ => exact .inr ⟨_, hconcluded⟩

/-- The array of a queue is that of the promise before, or the next one for the promise in
question. -/
theorem Becomes.queue (h : Becomes x m m' promise) {kind : Settlement} {a : ArrayRef}
    (ha : m'.heap.field? promise kind.queue = some (.array a)) :
    (m.IsPromise promise ∧ m.heap.field? promise kind.queue = some (.array a)) ∨
      (x = some promise ∧ a = nextQueue m.heap kind) := by
  cases h with
  | same hp fields _ _ _ => exact .inl ⟨hp, (fields _ kind.queue_mem).symm.trans ha⟩
  | blank _ _ fields => simp [fields _ kind.queue_mem] at ha
  | made _ hx _ _ queues | concluded _ hx _ _ queues =>
    exact .inr ⟨hx, by simpa [queues kind, eq_comm] using ha⟩

theorem size_le_nextQueue (h : Heap) (kind : Settlement) :
    h.arrays.size ≤ (nextQueue h kind).index := by
  cases kind <;> simp [nextQueue]

theorem nextQueue_injective (h : Heap) : Function.Injective (nextQueue h) := by
  intro kind kind' heq
  cases kind <;> cases kind' <;> simp_all [nextQueue]

namespace Advances

variable (h : Advances x m m') (hm : m.InOrder)
include h hm

theorem isPromise_of_registered (hr : m'.IsRegistered promise) : m'.IsPromise promise := by
  obtain ⟨ticket, hticket⟩ := hr
  rcases h.tickets hticket with hold | ⟨-, -, -, hp⟩
  · exact h.isPromise (hm.registered ⟨ticket, hold⟩).1
  · exact hp

theorem numbered {ticket : Nat} (hticket : m'.promises.pending.lookup ticket = some promise) :
    ticket ≤ m'.promises.lastTicket := by
  rcases h.tickets hticket with hold | ⟨-, rfl, -, -⟩
  · exact (hm.numbered hold).trans h.lastTicket
  · exact Nat.le_refl _

theorem single {ticket ticket' : Nat} (ht : m'.promises.pending.lookup ticket = some promise)
    (ht' : m'.promises.pending.lookup ticket' = some promise) : ticket = ticket' := by
  rcases h.tickets ht with hold | ⟨-, hnew, hp, -⟩ <;>
    rcases h.tickets ht' with hold' | ⟨-, hnew', hp', -⟩
  · exact hm.single hold hold'
  · exact absurd (hm.registered ⟨_, hold⟩).1 hp'
  · exact absurd (hm.registered ⟨_, hold'⟩).1 hp
  · exact hnew.trans hnew'.symm

theorem apart {promise promise' : InstanceRef} {kind kind' : Settlement} {a : ArrayRef}
    (hp : m'.IsPromise promise) (hp' : m'.IsPromise promise')
    (ha : m'.heap.field? promise kind.queue = some (.array a))
    (ha' : m'.heap.field? promise' kind'.queue = some (.array a)) :
    promise = promise' ∧ kind = kind' := by
  rcases (h.becomes hp).queue ha with ⟨hold, hfield⟩ | ⟨hx, hnext⟩ <;>
    rcases (h.becomes hp').queue ha' with ⟨hold', hfield'⟩ | ⟨hx', hnext'⟩
  · exact hm.apart hold hold' hfield hfield'
  · have hlt := hm.queue_lt hold hfield
    rw [hnext'] at hlt
    exact absurd hlt (size_le_nextQueue m.heap kind').not_gt
  · have hlt := hm.queue_lt hold' hfield'
    rw [hnext] at hlt
    exact absurd hlt (size_le_nextQueue m.heap kind).not_gt
  · exact ⟨Option.some.inj (hx.symm.trans hx'),
      nextQueue_injective m.heap (hnext.symm.trans hnext')⟩

/-- Every step keeps the order. -/
theorem inOrder : m'.InOrder where
  classes := by
    rw [h.promiseClass, h.objectClass]
    exact ⟨hm.classes.1.trans_le h.nextId, hm.classes.2⟩
  numbered := h.numbered hm
  single := h.single hm
  registered hr :=
    have hp := h.isPromise_of_registered hm hr
    ⟨hp, (h.becomes hp).pending hm hr⟩
  unregistered hp hr := (h.becomes hp).settled hm hr
  apart := h.apart hm

theorem registered {ticket : Nat} (hticket : m.promises.pending.lookup ticket = some promise) :
    m'.promises.pending.lookup ticket = some promise ∨
      m'.promises.pending.lookup ticket = none ∧ m'.IsPromise promise ∧
        ∃ outcome, m'.Concluded promise outcome := by
  obtain ⟨hold, -⟩ := hm.registered ⟨ticket, hticket⟩
  have hp := h.isPromise hold
  cases h.becomes hp with
  | same _ _ tickets _ _ => exact .inl ((tickets ticket).2 hticket)
  | blank hnew _ _ => exact absurd hold hnew
  | made hnew _ _ _ _ => exact absurd hold hnew
  | concluded _ _ hnot hconcluded _ =>
    refine .inr ⟨?_, hp, _, hconcluded⟩
    -- Nothing else has got the ticket.
    by_contra hsome
    obtain ⟨other, hother⟩ := Option.ne_none_iff_exists'.1 hsome
    rcases h.tickets hother with hkept | ⟨hlt, -⟩
    · obtain rfl : promise = other := Option.some.inj (hticket.symm.trans hkept)
      exact hnot ⟨ticket, hother⟩
    · exact absurd (hm.numbered hticket) hlt.not_ge

theorem grows : m.Grows m' where
  promiseClass := h.promiseClass
  lastTicket := h.lastTicket
  old hle hticket := (h.tickets hticket).resolve_right fun hnew => absurd hle hnew.1.not_ge
  registered := h.registered hm
  concluded hp hc :=
    have hp' := h.isPromise hp
    ⟨hp', (h.becomes hp').concluded_of hm hp hc⟩

end Advances

theorem Grows.refl (m : Machine) : m.Grows m :=
  ⟨rfl, Nat.le_refl _, fun _ h => h, .inl, fun hp hc => ⟨hp, hc⟩⟩

theorem Grows.trans (hm : m.InOrder) (h : m.Grows m') (h' : m'.Grows m'') : m.Grows m'' where
  promiseClass := h'.promiseClass.trans h.promiseClass
  lastTicket := h.lastTicket.trans h'.lastTicket
  old hle hticket := h.old hle (h'.old (hle.trans h.lastTicket) hticket)
  registered {ticket promise} hticket := by
    rcases h.registered hticket with hkept | ⟨hnone, hp, outcome, hc⟩
    · exact h'.registered hkept
    · obtain ⟨hp'', hc''⟩ := h'.concluded hp hc
      refine .inr ⟨?_, hp'', outcome, hc''⟩
      by_contra hsome
      obtain ⟨other, hother⟩ := Option.ne_none_iff_exists'.1 hsome
      have hold := h'.old ((hm.numbered hticket).trans h.lastTicket) hother
      exact absurd (hold.symm.trans hnone) nofun
  concluded hp hc :=
    have ⟨hp', hc'⟩ := h.concluded hp hc
    h'.concluded hp' hc'

end Machine

end ScriptEngine
