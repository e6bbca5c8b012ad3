import Mathlib.Data.List.Basic
import ScriptEngine.Engine.Script

/-!
# Requests and their responses

A desk is a program's servers together with the connections whose requests are queued for them. A
history of a desk says which servers were opened and closed, which requests were handed to a handler
or turned away, and who tried to answer them. It determines what is written to the connections.
-/
namespace ScriptEngine

/-- What a program writes to a connection. -/
structure Reply where
  connection : ConnectionRef
  status : Nat
  body : String
deriving DecidableEq, Repr

/-- Who answers a held request: the script, the failure of its handler, or the end of the
program. -/
inductive Attempt where
  | send (status : Nat) (body : String)
  | failure
  | drop
deriving DecidableEq, Repr

namespace Attempt

def status : Attempt → Nat
  | send status _ => status
  | failure | drop => 500

def body : Attempt → String
  | send _ body => body
  | failure => Http.reason 500
  | drop => shutDown.droppedBody

def reply (a : Attempt) (c : ConnectionRef) : Reply := ⟨c, a.status, a.body⟩

end Attempt

/-- What becomes of a request whose server is gone. -/
def Reply.notFound (c : ConnectionRef) : Reply := ⟨c, 404, Http.reason 404⟩

structure Desk where
  servers : ServerTable
  queue : List ConnectionRef

namespace Desk

inductive Event where
  | opened (server : Nat) (reference : ListenerRef)
  | closed (server : Nat)
  /-- A request is queued. -/
  | arrived (connection : ConnectionRef)
  /-- A request leaves the queue. -/
  | handed (connection : ConnectionRef)
  | dispatched (request : Nat) (reference : ListenerRef) (connection : ConnectionRef)
  | refused (reference : ListenerRef) (connection : ConnectionRef)
  | tried (attempt : Attempt) (request : Nat) (answered : Bool)
deriving DecidableEq, Repr

/-- One step of a desk, with what is written to connections. -/
inductive Step : Desk → Event → List Reply → Desk → Prop
  | opened {t : ServerTable} {q : List ConnectionRef} (l : Listener) :
      Step ⟨t, q⟩ (.opened (t.insert l).1 l.reference) [] ⟨(t.insert l).2, q⟩
  | closed {t : ServerTable} {q : List ConnectionRef} {server : Nat} {l : Listener}
      (h : t.listeners.lookup server = some l) :
      Step ⟨t, q⟩ (.closed server) [] ⟨(t.remove server).2, q⟩
  | arrived {t : ServerTable} {q : List ConnectionRef} (c : ConnectionRef) :
      Step ⟨t, q⟩ (.arrived c) [] ⟨t, q ++ [c]⟩
  | handed {t : ServerTable} {q : List ConnectionRef} (c : ConnectionRef) :
      Step ⟨t, c :: q⟩ (.handed c) [] ⟨t, q⟩
  | dispatched {t : ServerTable} {q : List ConnectionRef} {reference : ListenerRef}
      {handler : Value} (c : ConnectionRef) (h : t.handler? reference = some handler) :
      Step ⟨t, q⟩ (.dispatched (t.hold c).1 reference c) [] ⟨(t.hold c).2, q⟩
  | refused {t : ServerTable} {q : List ConnectionRef} {reference : ListenerRef}
      (c : ConnectionRef) (h : t.handler? reference = none) :
      Step ⟨t, q⟩ (.refused reference c) [.notFound c] ⟨t, q⟩
  | tried {t : ServerTable} {q : List ConnectionRef} (a : Attempt) (request : Nat) :
      Step ⟨t, q⟩ (.tried a request (t.take request).1.isSome)
        ((t.take request).1.toList.map a.reply) ⟨(t.take request).2, q⟩

/-- Steps in a row: what happened in order, and what was written in order. -/
inductive Run : Desk → List Event → List Reply → Desk → Prop
  | refl (d : Desk) : Run d [] [] d
  | step {d d₁ d₂ : Desk} {e : Event} {es : List Event} {first last : List Reply}
      (next : Step d e first d₁) (r : Run d₁ es last d₂) : Run d (e :: es) (first ++ last) d₂

theorem Run.single {d d' : Desk} {e : Event} {rs : List Reply} (h : Step d e rs d') :
    Run d [e] rs d' := by
  simpa using Run.step h (.refl d')

theorem Run.trans {d d₁ d₂ : Desk} {es fs : List Event} {first last : List Reply}
    (r : Run d es first d₁) (r' : Run d₁ fs last d₂) : Run d (es ++ fs) (first ++ last) d₂ := by
  induction r with
  | refl => exact r'
  | step next _ ih =>
    rw [List.append_assoc]
    exact .step next (ih r')

/-- A run can be stopped anywhere. -/
theorem Run.split {d d₂ : Desk} {past later : List Event} {rs : List Reply}
    (r : Run d (past ++ later) rs d₂) : ∃ first last d₁,
      rs = first ++ last ∧ Run d past first d₁ ∧ Run d₁ later last d₂ := by
  induction past generalizing d rs with
  | nil => exact ⟨[], rs, d, rfl, .refl d, r⟩
  | cons e past ih =>
    cases r with
    | step next r =>
      obtain ⟨first, last, d₁, rfl, rpast, rlater⟩ := ih r
      exact ⟨_, last, d₁, by rw [List.append_assoc], .step next rpast, rlater⟩

/-! Histories -/

/-- The attempt of an event on a request. -/
def Event.attempt? (request : Nat) : Event → Option Attempt
  | .tried a r _ => if r = request then some a else none
  | _ => none

/-- The first attempt to answer a request. -/
def firstAttempt (request : Nat) (h : List Event) : Option Attempt :=
  h.findSome? (Event.attempt? request)

/-- The responses that a history calls for: to every request that was handed to a handler that of
the first attempt to answer it, and to those that were turned away that there is no server. -/
def owed : List Event → List Reply
  | [] => []
  | .dispatched request _ c :: later =>
    ((firstAttempt request later).map (·.reply c)).toList ++ owed later
  | .refused _ c :: later => .notFound c :: owed later
  | .opened .. :: later | .closed .. :: later | .arrived .. :: later | .handed .. :: later
  | .tried .. :: later => owed later

/-- A request waits for an answer at the end of a history. -/
def Waits (h : List Event) (request : Nat) (c : ConnectionRef) : Prop :=
  ∃ past reference later, h = past ++ .dispatched request reference c :: later ∧
    firstAttempt request later = none

/-- The connections whose requests the program has taken up. -/
def Event.taken? : Event → Option ConnectionRef
  | .dispatched _ _ c | .refused _ c => some c
  | _ => none

def Event.arrived? : Event → Option ConnectionRef
  | .arrived c => some c
  | _ => none

def Event.handed? : Event → Option ConnectionRef
  | .handed c => some c
  | _ => none

theorem Event.handed?_of_taken? {e : Event} {c : ConnectionRef} (h : e.taken? = some c) :
    e.handed? = none := by
  cases e with
  | handed => cases h
  | _ => rfl

def taken (h : List Event) : List ConnectionRef := h.filterMap Event.taken?

def arrived (h : List Event) : List ConnectionRef := h.filterMap Event.arrived?

def handed (h : List Event) : List ConnectionRef := h.filterMap Event.handed?

theorem arrived_append (es fs : List Event) : arrived (es ++ fs) = arrived es ++ arrived fs :=
  List.filterMap_append

theorem handed_append (es fs : List Event) : handed (es ++ fs) = handed es ++ handed fs :=
  List.filterMap_append

theorem taken_append (es fs : List Event) : taken (es ++ fs) = taken es ++ taken fs :=
  List.filterMap_append

section

variable {es fs : List Event}

/-- Requests are taken up as they leave the queue, and no others are. -/
structure Prompt (es : List Event) : Prop where
  handed : handed es = taken es
  before {past later : List Event} : es = past ++ later → taken past ⊆ Desk.handed past

theorem Prompt.nil : Prompt [] where
  handed := rfl
  before heq := by simp [(List.append_eq_nil_iff.1 heq.symm).1, taken]

theorem Prompt.append (h : Prompt es) (h' : Prompt fs) : Prompt (es ++ fs) where
  handed := by rw [handed_append, taken_append, h.handed, h'.handed]
  before heq := by
    rcases List.append_eq_append_iff.1 heq with ⟨mid, rfl, rfl⟩ | ⟨mid, rfl, rfl⟩
    · rw [taken_append, handed_append, h.handed]
      exact List.append_subset.2 ⟨List.subset_append_left _ _,
        fun c hc => List.mem_append_right _ (h'.before rfl hc)⟩
    · exact h.before rfl

/-- Events by which no request is taken up or leaves the queue. -/
theorem Prompt.single {e : Event} (hhanded : e.handed? = none) (htaken : e.taken? = none) :
    Prompt [e] where
  handed := by simp [Desk.handed, taken, hhanded, htaken]
  before {past later} heq := by
    have hnone : taken (past ++ later) = [] := by simp [← heq, taken, htaken]
    rw [taken_append, List.append_eq_nil_iff] at hnone
    simp [hnone.1]

theorem Prompt.turn {c : ConnectionRef} {e : Event} (h : e.taken? = some c) :
    Prompt [.handed c, e] where
  handed := by
    have hhanded : Desk.handed [e] = [] := List.filterMap_cons_none (Event.handed?_of_taken? h)
    have htaken : taken [e] = [c] := List.filterMap_cons_some h
    exact (congrArg (c :: ·) hhanded).trans htaken.symm
  before {past later} heq := by
    have htaken : taken [.handed c, e] = [c] := List.filterMap_cons_some h
    cases past with
    | nil => exact List.nil_subset _
    | cons e' past =>
      obtain ⟨rfl, hlater⟩ := List.cons.inj heq
      rw [heq, taken_append] at htaken
      intro c' hc'
      have hmem := List.mem_append_left (taken later) hc'
      rw [htaken, List.mem_singleton] at hmem
      exact hmem ▸ List.mem_cons_self

/-- Events of which none takes a request up or off the queue. -/
theorem Prompt.quiet (h : ∀ e ∈ es, e.handed? = none ∧ e.taken? = none) : Prompt es := by
  induction es with
  | nil => exact .nil
  | cons e es ih =>
    obtain ⟨he, hes⟩ := List.forall_mem_cons.1 h
    exact (Prompt.single he.1 he.2).append (ih hes)

end

@[simp]
theorem firstAttempt_cons (request : Nat) (e : Event) (h : List Event) :
    firstAttempt request (e :: h) = (e.attempt? request).or (firstAttempt request h) := by
  unfold firstAttempt
  rw [List.findSome?_cons]
  cases e.attempt? request <;> rfl

end Desk

/-! Tables -/

/-- What stands under a number comes out first, and the rest stays. -/
theorem perm_lookup_filter {α : Type} {xs : List (Nat × α)} (h : (xs.map Prod.fst).Nodup)
    (k : Nat) : xs.Perm ((xs.lookup k).toList.map (k, ·) ++ xs.filter fun x => x.1 != k) := by
  cases hk : xs.lookup k with
  | none =>
    have hall : xs.filter (fun x => x.1 != k) = xs :=
      List.filter_eq_self.2 fun x hx => bne_comm.trans (List.lookup_eq_none_iff.1 hk x hx)
    simp [hall]
  | some a =>
    obtain ⟨first, last, rfl, hfirst⟩ := List.lookup_eq_some_iff.1 hk
    have hfirst' : first.filter (fun x => x.1 != k) = first :=
      List.filter_eq_self.2 fun x hx => bne_comm.trans (hfirst x hx)
    have hlast : last.filter (fun x => x.1 != k) = last := by
      refine List.filter_eq_self.2 fun x hx => ?_
      rw [List.map_append, List.map_cons, List.nodup_append, List.nodup_cons] at h
      have hnotMem := h.2.1.1
      simpa using fun hxk : x.1 = k => hnotMem (List.mem_map.2 ⟨x, hx, hxk⟩)
    simp [hfirst', hlast]

namespace ServerTable

/-- Numbers are used once. -/
structure Sound (t : ServerTable) : Prop where
  held_nodup : (t.held.map Prod.fst).Nodup
  held_le : ∀ r ∈ t.held, r.1 ≤ t.lastRequest
  listeners_nodup : (t.listeners.map Prod.fst).Nodup
  listeners_le : ∀ s ∈ t.listeners, s.1 ≤ t.lastServer

variable {t : ServerTable}

theorem sound_empty : Sound .empty := ⟨.nil, nofun, .nil, nofun⟩

/-- A number above all others is new. -/
theorem nodup_append_new {α : Type} {xs : List (Nat × α)} {n : Nat} (a : α)
    (h : (xs.map Prod.fst).Nodup) (hle : ∀ x ∈ xs, x.1 ≤ n) :
    ((xs ++ [(n + 1, a)]).map Prod.fst).Nodup ∧ ∀ x ∈ xs ++ [(n + 1, a)], x.1 ≤ n + 1 := by
  constructor
  · rw [List.map_append, List.nodup_append]
    refine ⟨h, by simp, fun i hi j hj => ?_⟩
    obtain ⟨x, hx, rfl⟩ := List.mem_map.1 hi
    have hxn := hle x hx
    simp only [List.map_cons, List.map_nil, List.mem_singleton] at hj
    omega
  · intro x hx
    rcases List.mem_append.1 hx with hx | hx
    · exact Nat.le_succ_of_le (hle x hx)
    · exact (List.mem_singleton.1 hx) ▸ Nat.le_refl _

theorem Sound.insert (h : t.Sound) (l : Listener) : (t.insert l).2.Sound := by
  obtain ⟨hnodup, hle⟩ := nodup_append_new l h.listeners_nodup h.listeners_le
  exact ⟨h.held_nodup, h.held_le, hnodup, hle⟩

theorem Sound.remove (h : t.Sound) (server : Nat) : (t.remove server).2.Sound :=
  ⟨h.held_nodup, h.held_le, h.listeners_nodup.sublist (List.filter_sublist.map _),
    fun s hs => h.listeners_le s (List.mem_of_mem_filter hs)⟩

theorem Sound.hold (h : t.Sound) (c : ConnectionRef) : (t.hold c).2.Sound := by
  obtain ⟨hnodup, hle⟩ := nodup_append_new c h.held_nodup h.held_le
  exact ⟨hnodup, hle, h.listeners_nodup, h.listeners_le⟩

theorem Sound.take (h : t.Sound) (request : Nat) : (t.take request).2.Sound :=
  ⟨h.held_nodup.sublist (List.filter_sublist.map _),
    fun r hr => h.held_le r (List.mem_of_mem_filter hr), h.listeners_nodup, h.listeners_le⟩

end ServerTable

namespace Desk

variable {d d' : Desk} {e : Event} {es : List Event} {rs : List Reply}

theorem Step.sound (s : Step d e rs d') (h : d.servers.Sound) : d'.servers.Sound := by
  cases s with
  | opened l => exact h.insert l
  | closed => exact h.remove _
  | arrived | handed | refused => exact h
  | dispatched c => exact h.hold c
  | tried a request => exact h.take request

theorem Run.sound (r : Run d es rs d') (h : d.servers.Sound) : d'.servers.Sound := by
  induction r with
  | refl => exact h
  | step next _ ih => exact ih (next.sound h)

/-! Requests -/

/-- The responses that are called for to the requests that are held already. -/
def owedHeld (held : List (Nat × ConnectionRef)) (h : List Event) : List Reply :=
  held.filterMap fun r => (firstAttempt r.1 h).map (·.reply r.2)

/-- One step writes what is called for by it and leaves the rest to what comes later. -/
theorem Step.replies_perm (s : Step d e rs d') (hd : d.servers.Sound) (later : List Event) :
    (owedHeld d.servers.held (e :: later) ++ owed (e :: later)).Perm
      (rs ++ (owedHeld d'.servers.held later ++ owed later)) := by
  have hskip (held : List (Nat × ConnectionRef)) (he : ∀ request, e.attempt? request = none) :
      owedHeld held (e :: later) = owedHeld held later := by simp [owedHeld, he]
  cases s with
  | opened | closed | arrived | handed =>
    rw [hskip _ fun _ => rfl]
    exact .refl _
  | refused c =>
    rw [hskip _ fun _ => rfl]
    exact List.perm_middle
  | @dispatched t _ _ _ c =>
    rw [hskip _ fun _ => rfl]
    have hheld : owedHeld (t.hold c).2.held later = owedHeld t.held later ++
        ((firstAttempt (t.hold c).1 later).map (·.reply c)).toList := by
      unfold owedHeld ServerTable.hold
      rw [List.filterMap_append]
      cases hfirst : firstAttempt (t.lastRequest + 1) later <;> simp [hfirst]
    rw [hheld, List.append_assoc]
    exact .refl _
  | @tried t _ a request =>
    have hperm := perm_lookup_filter hd.held_nodup request
    have htaken : owedHeld ((t.held.lookup request).toList.map (request, ·))
        (.tried a request (t.take request).1.isSome :: later) =
        (t.held.lookup request).toList.map a.reply := by
      cases t.held.lookup request <;> simp [owedHeld, Event.attempt?]
    have hothers : owedHeld (t.held.filter fun r => r.1 != request)
        (.tried a request (t.take request).1.isSome :: later) =
        owedHeld (t.take request).2.held later := by
      refine List.filterMap_congr fun r hr => ?_
      have hne : r.1 ≠ request := by simpa using (List.mem_filter.1 hr).2
      simp [Event.attempt?, hne.symm]
    have hsplit := hperm.filterMap fun r : Nat × ConnectionRef =>
      (firstAttempt r.1 (.tried a request (t.take request).1.isSome :: later)).map (·.reply r.2)
    rw [List.filterMap_append] at hsplit
    have htotal : (owedHeld t.held (.tried a request (t.take request).1.isSome :: later)).Perm
        ((t.held.lookup request).toList.map a.reply ++ owedHeld (t.take request).2.held later) := by
      rw [← htaken, ← hothers]
      exact hsplit
    rw [← List.append_assoc]
    exact htotal.append_right _

/-- What is written is what the history calls for, up to order. -/
theorem Run.replies_perm (r : Run d es rs d') (hd : d.servers.Sound) :
    rs.Perm (owedHeld d.servers.held es ++ owed es) := by
  induction r with
  | refl => simp [owedHeld, firstAttempt, owed]
  | step next _ ih =>
    exact ((ih (next.sound hd)).append_left _).trans (next.replies_perm hd _).symm

/-- Requests that are held have been held from the start or were handed to a handler, and nobody has
tried to answer them. -/
theorem Run.held_iff (r : Run d es rs d') {request : Nat} {c : ConnectionRef} :
    (request, c) ∈ d'.servers.held ↔
      ((request, c) ∈ d.servers.held ∧ firstAttempt request es = none) ∨ Waits es request c := by
  induction r with
  | refl => simp [firstAttempt, Waits]
  | @step d d₁ d₂ e es first last next _ ih =>
    rw [ih]
    have hwaits : Waits (e :: es) request c ↔
        (∃ reference, e = .dispatched request reference c) ∧ firstAttempt request es = none ∨
          Waits es request c := by
      constructor
      · rintro ⟨_ | ⟨e', past⟩, reference, later, heq, hnone⟩
        · obtain ⟨rfl, rfl⟩ := List.cons.inj heq
          exact .inl ⟨⟨reference, rfl⟩, hnone⟩
        · obtain ⟨rfl, rfl⟩ := List.cons.inj heq
          exact .inr ⟨past, reference, later, rfl, hnone⟩
      · rintro (⟨⟨reference, rfl⟩, hnone⟩ | ⟨past, reference, later, rfl, hnone⟩)
        · exact ⟨[], reference, es, rfl, hnone⟩
        · exact ⟨e :: past, reference, later, rfl, hnone⟩
    rw [hwaits, firstAttempt_cons]
    cases next with
    | opened | closed | arrived | handed | refused =>
      simp [Event.attempt?, ServerTable.insert, ServerTable.remove]
    | dispatched =>
      simp [Event.attempt?, ServerTable.hold, or_and_right, or_assoc, eq_comm]
    | tried a number =>
      by_cases hnumber : number = request
      · simp [Event.attempt?, ServerTable.take, hnumber]
      · simp [Event.attempt?, ServerTable.take, hnumber, Ne.symm hnumber]

/-- An attempt succeeds when the request waits. -/
theorem Run.tried_iff {past later : List Event} {a : Attempt} {request : Nat} {answered : Bool}
    (r : Run d (past ++ .tried a request answered :: later) rs d') (hd : d.servers.held = []) :
    answered = true ↔ ∃ c, Waits past request c := by
  obtain ⟨first, last, d₁, -, rpast, rlater⟩ := r.split
  have hheld (c : ConnectionRef) : (request, c) ∈ d₁.servers.held ↔ Waits past request c := by
    simp [rpast.held_iff, hd]
  cases rlater with
  | step next _ =>
    cases next with
    | tried =>
      change (List.lookup _ _).isSome = true ↔ _
      rw [List.lookup_isSome_iff]
      simp [← hheld]

/-- When nothing is held any more, somebody has tried to answer each request. -/
theorem Run.attempted (r : Run d es rs d') (hd' : d'.servers.held = []) {past later : List Event}
    {request : Nat} {reference : ListenerRef} {c : ConnectionRef}
    (h : es = past ++ .dispatched request reference c :: later) :
    ∃ a, firstAttempt request later = some a := by
  rw [← Option.ne_none_iff_exists']
  intro hnone
  have hheld : (request, c) ∈ d'.servers.held :=
    r.held_iff.2 (.inr ⟨past, reference, later, h, hnone⟩)
  simp [hd'] at hheld

/-! Servers -/

theorem Run.opened_gt (r : Run d es rs d') {server : Nat} {reference : ListenerRef}
    (h : .opened server reference ∈ es) : d.servers.lastServer < server := by
  induction r with
  | refl => cases h
  | step next _ ih =>
    rcases List.mem_cons.1 h with rfl | h
    · cases next with
      | opened => exact Nat.lt_succ_self _
    · have hlater := ih h
      cases next with
      | opened => exact Nat.lt_of_succ_lt hlater
      | closed | arrived | handed | dispatched | refused | tried => exact hlater

/-- A server is open after a run if it was before, or was opened, and has not been closed. -/
theorem Run.open_iff (r : Run d es rs d') (hd : d.servers.Sound) {server : Nat}
    {reference : ListenerRef} :
    (∃ l, (server, l) ∈ d'.servers.listeners ∧ l.reference = reference) ↔
      ((∃ l, (server, l) ∈ d.servers.listeners ∧ l.reference = reference) ∨
        .opened server reference ∈ es) ∧ .closed server ∉ es := by
  induction r with
  | refl => simp
  | @step d d₁ d₂ e es first last next r ih =>
    rw [ih (next.sound hd)]
    cases next with
    | arrived | handed | dispatched | refused | tried => simp [ServerTable.hold, ServerTable.take]
    | @opened t q l =>
      have hmem : (∃ l', (server, l') ∈ (t.insert l).2.listeners ∧ l'.reference = reference) ↔
          (∃ l', (server, l') ∈ t.listeners ∧ l'.reference = reference) ∨
            server = (t.insert l).1 ∧ l.reference = reference := by
        simp [ServerTable.insert, or_and_right, exists_or, and_assoc]
      have hevent : Event.opened server reference ∈ .opened (t.insert l).1 l.reference :: es ↔
          server = (t.insert l).1 ∧ l.reference = reference ∨ .opened server reference ∈ es := by
        simp [eq_comm]
      simp only [hmem, hevent, or_assoc, List.mem_cons, reduceCtorEq, false_or]
    | @closed t q number l h =>
      by_cases hnumber : number = server
      · subst hnumber
        obtain ⟨s, hs, hkey⟩ := List.lookup_isSome_iff.1 (Option.isSome_of_eq_some h)
        have hle : number ≤ t.lastServer := eq_of_beq hkey ▸ hd.listeners_le s hs
        have hnever : Event.opened number reference ∉ es :=
          fun hmem => absurd (r.opened_gt hmem) (Nat.not_lt.2 hle)
        simp [ServerTable.remove, hnever]
      · simp [ServerTable.remove, Ne.symm hnumber]

theorem handler?_eq_none_iff {t : ServerTable} {reference : ListenerRef} :
    t.handler? reference = none ↔ ∀ s ∈ t.listeners, s.2.reference ≠ reference := by
  simp [ServerTable.handler?]

/-- A request goes to a handler when a server that was opened under its reference is still open. -/
theorem Run.dispatched_open {past later : List Event} {request : Nat} {reference : ListenerRef}
    {c : ConnectionRef} (r : Run d (past ++ .dispatched request reference c :: later) rs d')
    (hd : d.servers.Sound) (hnone : d.servers.listeners = []) :
    ∃ server, .opened server reference ∈ past ∧ .closed server ∉ past := by
  obtain ⟨first, last, d₁, -, rpast, rlater⟩ := r.split
  cases rlater with
  | step next _ =>
    cases next with
    | @dispatched t _ _ _ c h =>
      have hsome : t.handler? reference ≠ none := by simp [h]
      rw [Ne, handler?_eq_none_iff] at hsome
      push Not at hsome
      obtain ⟨⟨server, l⟩, hmem, hreference⟩ := hsome
      have hserver := (rpast.open_iff hd).1 ⟨l, hmem, hreference⟩
      simp only [hnone, List.not_mem_nil, false_and, exists_false, false_or] at hserver
      exact ⟨server, hserver⟩

/-- A request is turned away when all servers that were opened under its reference are closed. -/
theorem Run.refused_closed {past later : List Event} {reference : ListenerRef} {c : ConnectionRef}
    (r : Run d (past ++ .refused reference c :: later) rs d') (hd : d.servers.Sound) {server : Nat}
    (hopened : .opened server reference ∈ past) : .closed server ∈ past := by
  obtain ⟨first, last, d₁, -, rpast, rlater⟩ := r.split
  cases rlater with
  | step next _ =>
    cases next with
    | refused c h =>
      by_contra hclosed
      obtain ⟨l, hmem, hreference⟩ := (rpast.open_iff hd).2 ⟨.inr hopened, hclosed⟩
      exact handler?_eq_none_iff.1 h _ hmem hreference

/-- Requests leave the queue in the order in which they came. -/
theorem Run.queue (r : Run d es rs d') : d.queue ++ arrived es = handed es ++ d'.queue := by
  induction r with
  | refl => simp [arrived, handed]
  | @step d d₁ d₂ e es first last next _ ih =>
    cases next with
    | arrived c => exact (List.append_cons ..).trans ih
    | handed c => exact congrArg (c :: ·) ih
    | opened | closed | dispatched | refused | tried => exact ih

/-- The responses that are called for go to the requests that were taken up. -/
theorem owed_connections {h : List Event}
    (hall : ∀ past request reference c later,
      h = past ++ .dispatched request reference c :: later →
        ∃ a, firstAttempt request later = some a) :
    (owed h).map Reply.connection = taken h := by
  induction h with
  | nil => rfl
  | cons e h ih =>
    have hrest := ih fun past request reference c later heq =>
      hall (e :: past) request reference c later (by rw [heq, List.cons_append])
    cases e with
    | dispatched request reference c =>
      obtain ⟨a, ha⟩ := hall [] request reference c h rfl
      simp [owed, ha, hrest, taken, Event.taken?, Attempt.reply]
    | refused reference c => simp [owed, hrest, taken, Event.taken?, Reply.notFound]
    | opened | closed | arrived | handed | tried => exact hrest

/-- All that can be said of a desk where nothing is held any more, from its history and from what
was written. -/
structure Exact (h : List Event) (rs : List Reply) : Prop where
  /-- Each request that was taken up got one response. -/
  once : (rs.map Reply.connection).Perm (taken h)
  /-- It is the one that the history calls for. -/
  replies : rs.Perm (owed h)
  /-- Somebody has tried to answer each request that was handed to a handler. -/
  attempted {past later : List Event} {request : Nat} {reference : ListenerRef}
    {c : ConnectionRef} : h = past ++ .dispatched request reference c :: later →
      ∃ a, firstAttempt request later = some a
  /-- An attempt that answers is the first one since the request was handed to its handler. -/
  answered {past later : List Event} {a : Attempt} {request : Nat} {answer : Bool} :
    h = past ++ .tried a request answer :: later → (answer = true ↔ ∃ c, Waits past request c)
  /-- A request that was handed to a handler found a server open. -/
  served {past later : List Event} {request : Nat} {reference : ListenerRef}
    {c : ConnectionRef} : h = past ++ .dispatched request reference c :: later →
      ∃ server, .opened server reference ∈ past ∧ .closed server ∉ past
  /-- A request that was turned away came when its server had been closed. -/
  missed {past later : List Event} {reference : ListenerRef} {c : ConnectionRef} :
    h = past ++ .refused reference c :: later →
      ∀ server, .opened server reference ∈ past → .closed server ∈ past

theorem Run.exact {q : List ConnectionRef} (r : Run ⟨.empty, q⟩ es rs d')
    (hd' : d'.servers.held = []) : Exact es rs := by
  have hsound : (⟨.empty, q⟩ : Desk).servers.Sound := ServerTable.sound_empty
  have hreplies : rs.Perm (owed es) := r.replies_perm hsound
  have hattempted (past : List Event) (request : Nat) (reference : ListenerRef)
      (c : ConnectionRef) (later : List Event)
      (h : es = past ++ .dispatched request reference c :: later) :
      ∃ a, firstAttempt request later = some a := r.attempted hd' h
  constructor
  case once => exact owed_connections hattempted ▸ hreplies.map _
  case replies => exact hreplies
  case attempted => exact hattempted _ _ _ _ _
  case answered =>
    rintro past later a request answer rfl
    exact r.tried_iff rfl
  case served =>
    rintro past later request reference c rfl
    exact r.dispatched_open hsound rfl
  case missed =>
    rintro past later reference c rfl server hopened
    exact r.refused_closed hsound hopened

end Desk

end ScriptEngine
