import Mathlib.Data.List.Chain
import Mathlib.Data.List.Forall2
import ScriptEngine.Engine.Start
import ScriptEngine.Proofs.Evaluation.Watch

/-!
# Callbacks on the elements of an array

A callback can do anything to the array whose elements it is called with. The methods with a
callback are not concerned by that: what they call it with was read off the heap before the first
call.
-/
namespace ScriptEngine.Library

/-- What a callback is called with for an element: its place too, if it takes two arguments. -/
def itemArgs (callback : Value) (item : Value × Nat) : List Value :=
  if callback.arity?.any fun a => a.accepts 2 then [item.1, .ofNat item.2] else [item.1]

/-- A call of the callback that was made: with what, on which machine it began, and how it ended. -/
structure ItemCall where
  args : List Value
  start : Machine
  ending : Ending Value

/-- What calls in succession come to: a result of each of them, or how the last one failed. -/
inductive Gathered where
  | results (values : List Value) (machine : Machine)
  | failure (ending : Ending Value)

namespace Gathered

/-- One more result before the others. -/
def cons (v : Value) : Gathered → Gathered
  | results vs m => results (v :: vs) m
  | failure e => failure e

/-- The ending of a method that makes something of the results; a failure stays as it is. -/
def ending (make : List Value → Machine → Value × Machine) : Gathered → Ending Value
  | results vs m => .value (make vs m).1 (make vs m).2
  | failure e => e

end Gathered

/-- The calls of a callback with elements and their places, one after the other from a machine on:
each begins where the one before it returned, and after one that does not return there is no
other. -/
inductive InSuccession (call : Caller) (callback : Value) : List (Value × Nat) → Machine →
    List ItemCall → List ((q : Request) × q.Answer) → Gathered → Prop
  | done (m : Machine) : InSuccession call callback [] m [] [] (.results [] m)
  | returned {item : Value × Nat} {items : List (Value × Nat)} {m m' : Machine} {v : Value}
      {calls : List ItemCall} {log later : List ((q : Request) × q.Answer)} {r : Gathered}
      (h : (call callback (itemArgs callback item) m).Run log (.value v m'))
      (hitems : InSuccession call callback items m' calls later r) :
      InSuccession call callback (item :: items) m
        (⟨itemArgs callback item, m, .value v m'⟩ :: calls) (log ++ later) (r.cons v)
  | failed {item : Value × Nat} {items : List (Value × Nat)} {m : Machine}
      {log : List ((q : Request) × q.Answer)} {e : Ending Value}
      (h : (call callback (itemArgs callback item) m).Run log e) (he : ∀ v m', e ≠ .value v m') :
      InSuccession call callback (item :: items) m [⟨itemArgs callback item, m, e⟩] log (.failure e)

namespace InSuccession

variable {call : Caller} {callback : Value} {items : List (Value × Nat)} {m : Machine}
  {calls : List ItemCall} {log : List ((q : Request) × q.Answer)} {r : Gathered}

/-- The elements come in their order, each at most once. -/
theorem args_in_order (h : InSuccession call callback items m calls log r) :
    calls.map ItemCall.args <+: items.map (itemArgs callback) := by
  induction h with
  | done => exact List.prefix_rfl
  | returned _ _ ih => exact List.cons_prefix_cons.2 ⟨rfl, ih⟩
  | failed => exact List.cons_prefix_cons.2 ⟨rfl, List.nil_prefix⟩

/-- Every call is one of the callback, begins where the one before it returned, and all but the last
return. -/
theorem linked (h : InSuccession call callback items m calls log r) :
    (∀ c ∈ calls, ∃ log, (call callback c.args c.start).Run log c.ending) ∧
      (∀ c ∈ calls.head?, c.start = m) ∧
      calls.IsChain fun c d => ∃ v, c.ending = .value v d.start := by
  induction h with
  | done => simp
  | @returned item items m m' v calls log later r h hitems ih =>
    obtain ⟨hruns, hhead, hchain⟩ := ih
    refine ⟨List.forall_mem_cons.2 ⟨⟨log, h⟩, hruns⟩, by simp, List.isChain_cons.2 ⟨?_, hchain⟩⟩
    intro d hd
    exact ⟨v, by rw [hhead d hd]⟩
  | @failed item items m log e h he =>
    exact ⟨List.forall_mem_singleton.2 ⟨log, h⟩, by simp, .singleton _⟩

/-- Either there is a call for every element, and each returns its result, or the last call is the
only one that fails. -/
theorem results_or_failure (h : InSuccession call callback items m calls log r) :
    (∃ vs m', r = .results vs m' ∧ calls.map ItemCall.args = items.map (itemArgs callback) ∧
        List.Forall₂ (fun c v => ∃ m', c.ending = .value v m') calls vs) ∨
      ∃ last ∈ calls.getLast?, (∀ v m', last.ending ≠ .value v m') ∧ r = .failure last.ending := by
  induction h with
  | done m => exact .inl ⟨[], m, rfl, rfl, .nil⟩
  | @returned item items m m' v calls log later r h hitems ih =>
    rcases ih with ⟨vs, m'', rfl, hargs, hresults⟩ | ⟨last, hlast, hfails, rfl⟩
    · refine .inl ⟨v :: vs, m'', rfl, ?_, .cons ⟨m', rfl⟩ hresults⟩
      rw [List.map_cons, List.map_cons, hargs]
    · exact .inr ⟨last, by simp_all [List.getLast?_cons], hfails, rfl⟩
  | @failed item items m log e h he => exact .inr ⟨_, rfl, he, rfl⟩

end InSuccession

/-! The methods run through the elements -/

theorem callWithItem_eq (call : Caller) (callback item : Value) (i : Nat) :
    callWithItem call callback item i = call callback (itemArgs callback (item, i)) := by
  unfold callWithItem itemArgs
  split <;> rfl

/-- A loop over elements with their places that calls a callback with each and carries something
along. -/
def runThrough {β : Type} (call : Caller) (callback : Value) (next : β → Value → Value → β)
    (items : List (Value × Nat)) (b : β) : Eval β :=
  Eval.foldList (fun b item => Eval.bind (call callback (itemArgs callback item)) fun v =>
    Eval.pure (next b item.1 v)) items b

variable {β : Type} {call : Caller} {callback : Value} {next : β → Value → Value → β}

theorem runThrough_cons (item : Value × Nat) (items : List (Value × Nat)) (b : β)
    (m : Machine) (f : β → Eval Value) :
    Eval.bind (runThrough call callback next (item :: items) b) f m =
      (call callback (itemArgs callback item) m).bind (Eval.andThen fun v =>
        Eval.bind (runThrough call callback next items (next b item.1 v)) f) := by
  rw [Eval.bind_apply, runThrough, Eval.foldList_cons, Eval.bind_apply, Dialogue.bind_assoc,
    Dialogue.bind_assoc]
  refine congrArg _ (funext fun e => ?_)
  cases e with
  | value v m' => exact (Eval.bind_apply _ f m').symm
  | stopped s m' => rfl
  | exhausted => rfl

/-- A run of such a loop is a succession of calls. The results count together with the elements. -/
theorem runThrough_run {make : β → Machine → Value × Machine} {items : List (Value × Nat)} {b : β}
    {m : Machine} {log : List ((q : Request) × q.Answer)} {e : Ending Value} :
    (Eval.bind (runThrough call callback next items b) (fun b => Eval.change (make b)) m).Run
        log e ↔
      ∃ calls r, InSuccession call callback items m calls log r ∧
        e = r.ending fun vs => make
          (((items.map Prod.fst).zip vs).foldl (fun b p => next b p.1 p.2) b) := by
  induction items generalizing b m log with
  | nil =>
    constructor
    · intro h
      cases h
      exact ⟨[], _, .done m, rfl⟩
    · rintro ⟨calls, r, hcalls, rfl⟩
      cases hcalls
      exact .finished _
  | cons item items ih =>
    rw [runThrough_cons, Dialogue.run_bind]
    constructor
    · rintro ⟨first, ending, later, rfl, hfirst, hlater⟩
      cases ending with
      | value v m' =>
        obtain ⟨calls, r, hcalls, rfl⟩ := ih.1 hlater
        exact ⟨_, _, .returned hfirst hcalls, by cases r <;> rfl⟩
      | stopped s m' =>
        cases hlater
        exact ⟨_, _, by simpa using .failed hfirst nofun, rfl⟩
      | exhausted =>
        cases hlater
        exact ⟨_, _, by simpa using .failed hfirst nofun, rfl⟩
    · rintro ⟨calls, r, hcalls, rfl⟩
      cases hcalls with
      | @returned _ _ _ m' v _ first later r h hitems =>
        exact ⟨first, .value v m', later, rfl, h, ih.2 ⟨_, _, hitems, by cases r <;> rfl⟩⟩
      | @failed _ _ _ _ ending h he =>
        refine ⟨log, ending, [], by simp, h, ?_⟩
        cases ending with
        | value v m' => exact absurd rfl (he v m')
        | stopped s m' => exact .finished _
        | exhausted => exact .finished _

/-- A new array of these elements, and the machine with it. -/
def newArrayOf (vs : List Value) (m : Machine) : Value × Machine :=
  (.array (m.heap.newArray vs.toArray).1, { m with heap := (m.heap.newArray vs.toArray).2 })

/-- The elements whose results are truthy. -/
def chosen (items vs : List Value) : List Value :=
  ((items.zip vs).filter fun p => p.2.isTruthy).map Prod.fst

theorem mapItems_eq (call : Caller) (callback : Value) (items : Array Value) :
    mapItems call callback items =
      Eval.bind (runThrough call callback (fun out _ v => out.push v) items.toList.zipIdx #[])
        fun out => Eval.change (newArrayOf out.toList) := by
  unfold mapItems Eval.mapList
  simp only [callWithItem_eq]
  rfl

theorem filterItems_eq (call : Caller) (callback : Value) (items : Array Value) :
    filterItems call callback items =
      Eval.bind (runThrough call callback
        (fun kept item v => if v.isTruthy then kept.push item else kept) items.toList.zipIdx #[])
        fun kept => Eval.change (newArrayOf kept.toList) := by
  have hnext (v item : Value) (kept : Array Value) :
      (if v.isTruthy then Eval.pure (kept.push item) else Eval.pure kept) =
        Eval.pure (if v.isTruthy then kept.push item else kept) :=
    (apply_ite Eval.pure _ _ _).symm
  unfold filterItems runThrough
  simp only [callWithItem_eq, ← hnext]
  rfl

theorem visitItems_eq (call : Caller) (callback : Value) (items : Array Value) :
    visitItems call callback items =
      Eval.bind (runThrough call callback (fun _ _ _ => ()) items.toList.zipIdx ())
        fun _ => Eval.change fun m => (.nil, m) := by
  unfold visitItems Eval.forEach
  simp only [callWithItem_eq]
  rfl

theorem foldl_push_results {items vs : List Value} (h : vs.length ≤ items.length) :
    (items.zip vs).foldl (fun out p => out.push p.2) (#[] : Array Value) = vs.toArray := by
  rw [List.foldl_push_eq_append, Array.empty_append, List.map_snd_zip h]

theorem foldl_push_chosen (items vs : List Value) :
    (items.zip vs).foldl (fun kept p => if p.2.isTruthy then kept.push p.1 else kept)
      (#[] : Array Value) = (chosen items vs).toArray := by
  rw [← List.foldl_filter, List.foldl_push_eq_append, Array.empty_append, chosen]

/-- There are as many results as elements. -/
theorem InSuccession.length_results {items : List (Value × Nat)} {m m' : Machine}
    {calls : List ItemCall} {log : List ((q : Request) × q.Answer)} {vs : List Value}
    (h : InSuccession call callback items m calls log (.results vs m')) :
    vs.length = items.length := by
  rcases h.results_or_failure with ⟨_, _, ⟨⟩, hargs, hresults⟩ | ⟨_, _, _, ⟨⟩⟩
  have hlength : calls.length = items.length := by
    simpa only [List.length_map] using congrArg List.length hargs
  rw [← hresults.length_eq, hlength]

/-- With whatever a callback does, `map`, `filter` and `forEach` call it with the elements that the
array held when the method was called, in order and each once, until a call fails, and then end the
way it does. If none fails, `map` gives a new array of the results and `filter` one of the elements
with a truthy result. -/
theorem callbacks_on_snapshot (call : Caller) (r : ArrayRef) (args : List Value) (m : Machine)
    (log : List ((q : Request) × q.Answer)) (e : Ending Value) :
    ((arrayMethod call .map (some (.array r)) args m).Run log e ↔
      ∃ calls g, InSuccession call (argument args 0) (m.heap.array r).toList.zipIdx m calls log g ∧
        e = g.ending newArrayOf) ∧
    ((arrayMethod call .filter (some (.array r)) args m).Run log e ↔
      ∃ calls g, InSuccession call (argument args 0) (m.heap.array r).toList.zipIdx m calls log g ∧
        e = g.ending fun vs => newArrayOf (chosen (m.heap.array r).toList vs)) ∧
    ((arrayMethod call .forEach (some (.array r)) args m).Run log e ↔
      ∃ calls g, InSuccession call (argument args 0) (m.heap.array r).toList.zipIdx m calls log g ∧
        e = g.ending fun _ m' => (.nil, m')) ∧
    ∀ calls g,
      InSuccession call (argument args 0) (m.heap.array r).toList.zipIdx m calls log g →
      calls.map ItemCall.args <+:
        (m.heap.array r).toList.zipIdx.map (itemArgs (argument args 0)) ∧
      (∀ c ∈ calls, ∃ log, (call (argument args 0) c.args c.start).Run log c.ending) ∧
      (∀ c ∈ calls.head?, c.start = m) ∧
      (calls.IsChain fun c d => ∃ v, c.ending = .value v d.start) ∧
      ((∃ vs m', g = .results vs m' ∧ vs.length = (m.heap.array r).size ∧
          calls.map ItemCall.args =
            (m.heap.array r).toList.zipIdx.map (itemArgs (argument args 0)) ∧
          List.Forall₂ (fun c v => ∃ m', c.ending = .value v m') calls vs) ∨
        ∃ last ∈ calls.getLast?, (∀ v m', last.ending ≠ .value v m') ∧
          g = .failure last.ending) := by
  have hitems : (m.heap.array r).toList.zipIdx.map Prod.fst = (m.heap.array r).toList :=
    List.zipIdx_map_fst 0 _
  refine ⟨?_, ?_, ?_, fun calls g h => ?_⟩
  · have hmethod : arrayMethod call .map (some (.array r)) args m =
        mapItems call (argument args 0) (m.heap.array r) m := rfl
    rw [hmethod, mapItems_eq, runThrough_run, hitems]
    refine exists_congr fun calls => exists_congr fun g => and_congr_right fun h => ?_
    cases g with
    | failure e => rfl
    | results vs m' =>
      have hlength := h.length_results
      rw [List.length_zipIdx] at hlength
      rw [Gathered.ending, Gathered.ending, foldl_push_results hlength.le]
  · have hmethod : arrayMethod call .filter (some (.array r)) args m =
        filterItems call (argument args 0) (m.heap.array r) m := rfl
    rw [hmethod, filterItems_eq, runThrough_run, hitems]
    simp only [foldl_push_chosen]
  · have hmethod : arrayMethod call .forEach (some (.array r)) args m =
        visitItems call (argument args 0) (m.heap.array r) m := rfl
    rw [hmethod, visitItems_eq, runThrough_run]
  · obtain ⟨hruns, hhead, hchain⟩ := h.linked
    refine ⟨h.args_in_order, hruns, hhead, hchain, ?_⟩
    rcases h.results_or_failure with ⟨vs, m', rfl, hargs, hresults⟩ | hfailure
    · refine .inl ⟨vs, m', rfl, ?_, hargs, hresults⟩
      simpa using h.length_results
    · exact .inr hfailure

/-- Takes the last element off an array with each call, and returns what it is called with. -/
def shrinking : Caller := fun _ args m =>
  .finished (.value (argument args 0) { m with heap := m.heap.modifyArray ⟨0⟩ Array.pop })

def twoItems : Machine :=
  { Machine.fresh .default with heap := ⟨#[#[.bool false, .text "x"]], #[]⟩ }

theorem shrinking_array_is_mapped :
    (∃ m, (arrayMethod shrinking .map (some (.array ⟨0⟩)) [] twoItems).Run []
        (.value (.array ⟨1⟩) m) ∧ m.heap = ⟨#[#[], #[.bool false, .text "x"]], #[]⟩) ∧
      ∃ m, (arrayMethod shrinking .filter (some (.array ⟨0⟩)) [] twoItems).Run []
        (.value (.array ⟨1⟩) m) ∧ m.heap = ⟨#[#[], #[.text "x"]], #[]⟩ := by
  have hcalls : InSuccession shrinking (argument [] 0) (twoItems.heap.array ⟨0⟩).toList.zipIdx
      twoItems _ _ _ := .returned (.finished _) (.returned (.finished _) (.done _))
  obtain ⟨hmap, -⟩ := callbacks_on_snapshot shrinking ⟨0⟩ [] twoItems [] _
  obtain ⟨-, hfilter, -⟩ := callbacks_on_snapshot shrinking ⟨0⟩ [] twoItems [] _
  exact ⟨⟨_, hmap.2 ⟨_, _, hcalls, rfl⟩, rfl⟩, ⟨_, hfilter.2 ⟨_, _, hcalls, rfl⟩, rfl⟩⟩

end ScriptEngine.Library
