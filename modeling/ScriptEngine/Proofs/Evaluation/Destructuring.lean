import ScriptEngine.Evaluation.Matching
import ScriptEngine.Proofs.Machine.Agreement
import ScriptEngine.Proofs.Scope.Definitions

/-!
# Taking values apart

A pattern selects parts of a value, one for each of its sub-patterns. Selecting is told apart here
from what is done with the parts: whether one has the form that its sub-pattern takes apart, and
which name it gets. Binding a pattern comes to going through the parts in source order, up to the
first one that does not suit.
-/
namespace ScriptEngine
open Eval

/-- A heap with further arrays, and nothing else changed. -/
structure Heap.AddsArrays (h h' : Heap) : Prop where
  instances : h'.instances = h.instances
  arrays : ∃ new, h'.arrays = h.arrays ++ new

namespace Heap.AddsArrays

variable {h h' h'' : Heap}

theorem refl (h : Heap) : h.AddsArrays h := ⟨rfl, #[], by simp⟩

theorem trans (hab : h.AddsArrays h') (hbc : h'.AddsArrays h'') : h.AddsArrays h'' := by
  obtain ⟨new, hnew⟩ := hab.arrays
  obtain ⟨new', hnew'⟩ := hbc.arrays
  exact ⟨hbc.instances.trans hab.instances, new ++ new', by rw [hnew', hnew, Array.append_assoc]⟩

theorem newArray (h : Heap) (items : Array Value) : h.AddsArrays (h.newArray items).2 :=
  ⟨rfl, #[items], rfl⟩

theorem size_le (hab : h.AddsArrays h') : h.arrays.size ≤ h'.arrays.size := by
  obtain ⟨new, hnew⟩ := hab.arrays
  simp [hnew]

/-- The arrays that were there are as they were. -/
theorem array (hab : h.AddsArrays h') {r : ArrayRef} (hr : r.index < h.arrays.size) :
    h'.array r = h.array r := by
  obtain ⟨new, hnew⟩ := hab.arrays
  simp [Heap.array, Array.getD_eq_getD_getElem?, hnew, Array.getElem?_append, hr]

theorem field? (hab : h.AddsArrays h') (r : InstanceRef) (key : String) :
    h'.field? r key = h.field? r key := by
  rw [Heap.field?, Heap.field?, Heap.instance?, Heap.instance?, hab.instances]

end Heap.AddsArrays

/-! Selecting -/

/-- A sub-pattern with the part of the value that it meets, the heap at that moment, and whether it
stands inside an element that takes the rest. -/
structure Meeting where
  pattern : Pattern
  part : Value
  heap : Heap
  inRest : Bool

/-- The part of an array that belongs to the element at a place: what is there, or nil if nothing
is, or a new array of all elements from there on. -/
def Heap.part (h : Heap) (items : Array Value) (spread : Bool) (i : Nat) : Value × Heap :=
  if spread then
    let (r, h) := h.newArray (items.extract i items.size)
    (.array r, h)
  else (items.getD i .nil, h)

mutual

/-- The sub-patterns inside a pattern that meets this value, in source order, and the heap with the
new arrays. A pattern that does not suit its part has no parts to select. -/
def Pattern.inside (inRest : Bool) : Pattern → Value → Heap → List Meeting × Heap
  | .name _, _, h => ([], h)
  | .literal _, _, h => ([], h)
  | .array elements, v, h =>
    match v with
    | .array r => Pattern.elementsMeet inRest (h.array r) elements 0 h
    | _ => ([], h)
  | .object fields, v, h =>
    match v with
    | .object r => Pattern.fieldsMeet inRest r fields h
    | _ => ([], h)

def Pattern.elementsMeet (inRest : Bool) (items : Array Value) :
    List (Pattern × Bool) → Nat → Heap → List Meeting × Heap
  | [], _, h => ([], h)
  | (p, spread) :: rest, i, h =>
    let part := h.part items spread i
    let inside := p.inside (inRest || spread) part.1 part.2
    let others := Pattern.elementsMeet inRest items rest (i + 1) inside.2
    (⟨p, part.1, part.2, inRest || spread⟩ :: (inside.1 ++ others.1), others.2)

/-- A key that is missing selects nil. -/
def Pattern.fieldsMeet (inRest : Bool) (r : InstanceRef) :
    List (String × Pattern) → Heap → List Meeting × Heap
  | [], h => ([], h)
  | (key, p) :: rest, h =>
    let part := (h.field? r key).getD .nil
    let inside := p.inside inRest part h
    let others := Pattern.fieldsMeet inRest r rest inside.2
    (⟨p, part, h, inRest⟩ :: (inside.1 ++ others.1), others.2)

end

/-- All sub-patterns of a pattern, itself included, each with the part that it meets. -/
def Pattern.meetings (p : Pattern) (v : Value) (h : Heap) : List Meeting :=
  ⟨p, v, h, false⟩ :: (p.inside false v h).1

/-- The heap with the new arrays that a pattern selects. -/
def Pattern.selected (p : Pattern) (v : Value) (h : Heap) : Heap := (p.inside false v h).2

namespace Meeting

/-- Array patterns take arrays apart, and object patterns instances. -/
def suits (e : Meeting) : Bool :=
  match e.pattern, e.part with
  | .array _, .array _ => true
  | .array _, _ => false
  | .object _, .object _ => true
  | .object _, _ => false
  | _, _ => true

/-- How a part that does not suit is refused. -/
def refusal (e : Meeting) : Failure :=
  match e.pattern with
  | .object _ => .notObjectPattern
  | _ => .notArrayPattern

/-- The name that a part gets. -/
def binding? (e : Meeting) : Option (String × Value) :=
  match e.pattern with
  | .name n => some (n, e.part)
  | _ => none

/-- The names among sub-patterns, with their parts. -/
def bindings (met : List Meeting) : List (String × Value) := met.filterMap binding?

theorem bindings_append (met met' : List Meeting) :
    bindings (met ++ met') = bindings met ++ bindings met' :=
  List.filterMap_append

theorem bindings_cons (e : Meeting) (rest : List Meeting) :
    bindings (e :: rest) = e.binding?.toList ++ bindings rest := by
  rw [bindings, List.filterMap_cons]
  cases e.binding? <;> rfl

end Meeting

theorem Heap.part_addsArrays (h : Heap) (items : Array Value) (spread : Bool) (i : Nat) :
    h.AddsArrays (h.part items spread i).2 := by
  cases spread with
  | false => exact .refl h
  | true => exact .newArray h _

mutual

theorem Pattern.inside_addsArrays (inRest : Bool) : ∀ (p : Pattern) (v : Value) (h : Heap),
    h.AddsArrays (p.inside inRest v h).2
  | .name _, _, h => by
    rw [Pattern.inside]
    exact .refl h
  | .literal _, _, h => by
    rw [Pattern.inside]
    exact .refl h
  | .array elements, v, h => by
    unfold Pattern.inside
    split
    · exact Pattern.elementsMeet_addsArrays inRest _ elements 0 h
    · exact .refl h
  | .object fields, v, h => by
    unfold Pattern.inside
    split
    · exact Pattern.fieldsMeet_addsArrays inRest _ fields h
    · exact .refl h

theorem Pattern.elementsMeet_addsArrays (inRest : Bool) (items : Array Value) :
    ∀ (elements : List (Pattern × Bool)) (i : Nat) (h : Heap),
      h.AddsArrays (Pattern.elementsMeet inRest items elements i h).2
  | [], _, h => by
    rw [Pattern.elementsMeet]
    exact .refl h
  | (p, spread) :: rest, i, h => by
    rw [Pattern.elementsMeet]
    exact (h.part_addsArrays items spread i).trans
      ((Pattern.inside_addsArrays _ p _ _).trans
        (Pattern.elementsMeet_addsArrays inRest items rest (i + 1) _))

theorem Pattern.fieldsMeet_addsArrays (inRest : Bool) (r : InstanceRef) :
    ∀ (fields : List (String × Pattern)) (h : Heap),
      h.AddsArrays (Pattern.fieldsMeet inRest r fields h).2
  | [], h => by
    rw [Pattern.fieldsMeet]
    exact .refl h
  | (key, p) :: rest, h => by
    rw [Pattern.fieldsMeet]
    exact (Pattern.inside_addsArrays _ p _ _).trans (Pattern.fieldsMeet_addsArrays inRest r rest _)

end

/-! Binding -/

namespace Machine

/-- The machine after names have been defined in a scope. -/
def naming (m : Machine) (scope : ScopeRef) (constant : Bool) (bs : List (String × Value)) :
    Machine :=
  { m with scopes := m.scopes.defineAll scope constant bs }

/-- The machine with a fresh frame inside a scope. -/
def opening (m : Machine) (scope : ScopeRef) : Machine :=
  { m with scopes := (m.scopes.child scope).2 }

/-- What going through sub-patterns and their parts comes to: names are defined on the way, and the
first part that does not suit is refused. -/
def meet (scope : ScopeRef) (constant : Bool) : List Meeting → Heap → Machine → Ending Unit
  | [], heap, m => .value () { m with heap }
  | e :: rest, heap, m =>
    if e.suits then (m.naming scope constant e.binding?.toList).meet scope constant rest heap
    else .stopped (.failed e.refusal) { m with heap := e.heap }

end Machine

variable {scope : ScopeRef} {constant : Bool} {m : Machine} {met met' : List Meeting}
  {heap heap' : Heap}

namespace Machine

/-- Each part is met on a heap of its own. -/
theorem meet_withHeap (h : Heap) :
    ({ m with heap := h } : Machine).meet scope constant met heap =
      m.meet scope constant met heap := by
  induction met generalizing m with
  | nil => rfl
  | cons e rest ih =>
    rw [meet, meet]
    split
    · exact ih (m := m.naming scope constant e.binding?.toList)
    · rfl

theorem meet_cons_of_suits {e : Meeting} (he : e.suits) (hname : e.binding? = none) :
    m.meet scope constant (e :: met) heap = m.meet scope constant met heap := by
  rw [meet, if_pos he, hname]
  rfl

theorem meet_append_value {m' : Machine} (h : m.meet scope constant met heap = .value () m') :
    m.meet scope constant (met ++ met') heap' = m'.meet scope constant met' heap' := by
  induction met generalizing m with
  | nil =>
    cases h
    rw [List.nil_append]
    exact (meet_withHeap heap).symm
  | cons e rest ih =>
    rw [meet] at h
    rw [List.cons_append, meet]
    split at h
    next he =>
      rw [if_pos he]
      exact ih h
    next => cases h

/-- Where all parts suit, the heap is the one that was selected. -/
theorem heap_of_meet {m' : Machine} (h : m.meet scope constant met heap = .value () m') :
    m'.heap = heap := by
  induction met generalizing m with
  | nil =>
    cases h
    rfl
  | cons e rest ih =>
    rw [meet] at h
    split at h
    · exact ih h
    · cases h

theorem meet_ne_exhausted : m.meet scope constant met heap ≠ .exhausted := by
  induction met generalizing m with
  | nil => nofun
  | cons e rest ih =>
    rw [meet]
    split
    · exact ih
    · nofun

theorem meet_append_stopped {s : Signal} {m' : Machine}
    (h : m.meet scope constant met heap = .stopped s m') :
    m.meet scope constant (met ++ met') heap' = .stopped s m' := by
  induction met generalizing m with
  | nil => cases h
  | cons e rest ih =>
    rw [meet] at h
    rw [List.cons_append, meet]
    split at h
    next he =>
      rw [if_pos he]
      exact ih h
    next he =>
      rw [if_neg he]
      exact h

end Machine

/-- Evaluations that go through sub-patterns and their parts, and say nothing meanwhile. -/
def Eval.Meets (x : Eval Unit) (scope : ScopeRef) (constant : Bool) (m : Machine)
    (met : List Meeting) (heap : Heap) : Prop :=
  x m = .finished (m.meet scope constant met heap)

namespace Eval.Meets

theorem nothing : (Eval.pure ()).Meets scope constant m [] m.heap := rfl

theorem cons {x : Eval Unit} {e : Meeting} (he : e.suits) (hname : e.binding? = none)
    (hx : x.Meets scope constant m met heap) : x.Meets scope constant m (e :: met) heap := by
  rw [Eval.Meets, Machine.meet_cons_of_suits he hname]
  exact hx

/-- A part that does not suit ends everything. -/
theorem refuse {e : Meeting} (he : e.suits = false) (hheap : e.heap = m.heap) :
    (Eval.fail e.refusal).Meets scope constant m (e :: met) heap := by
  rw [Eval.Meets, Machine.meet, if_neg (by simp [he]), hheap]
  rfl

/-- What follows goes on with the names defined so far and the arrays made so far. -/
theorem append {x y : Eval Unit} (hx : x.Meets scope constant m met heap)
    (hy : ∀ m', m'.heap = heap → y.Meets scope constant m' met' heap') :
    (Eval.bind x fun _ => y).Meets scope constant m (met ++ met') heap' := by
  rw [Eval.Meets, bind_apply, hx]
  cases hends : m.meet scope constant met heap with
  | value _ m' =>
    rw [Machine.meet_append_value hends]
    exact hy m' (Machine.heap_of_meet hends)
  | stopped s m' =>
    rw [Machine.meet_append_stopped hends]
    rfl
  | exhausted => exact absurd hends Machine.meet_ne_exhausted

/-- Arrays that are made first belong to what follows. -/
theorem after {x y : Eval Unit} {h : Heap} (hxy : x m = y { m with heap := h })
    (hy : y.Meets scope constant { m with heap := h } met heap) :
    x.Meets scope constant m met heap := by
  rw [Eval.Meets, hxy, hy, Machine.meet_withHeap]

end Eval.Meets

/-- Selecting an element is all that happens to the machine. -/
theorem part_apply (items : Array Value) (spread : Bool) (i : Nat) (m : Machine) :
    (if spread then Eval.newArray (items.extract i items.size)
      else Eval.pure (items.getD i .nil)) m =
      .finished (.value (m.heap.part items spread i).1
        { m with heap := (m.heap.part items spread i).2 }) := by
  cases spread <;> rfl

mutual

theorem bindPattern_meets (scope : ScopeRef) (constant inRest : Bool) :
    ∀ (p : Pattern) (v : Value) (m : Machine),
      (bindPattern scope constant p v).Meets scope constant m
        (⟨p, v, m.heap, inRest⟩ :: (p.inside inRest v m.heap).1) (p.inside inRest v m.heap).2
  | .name n, v, m => by
    rw [bindPattern, Pattern.inside]
    rfl
  | .literal l, v, m => by
    rw [bindPattern, Pattern.inside]
    exact .cons rfl rfl .nothing
  | .array elements, v, m => by
    unfold bindPattern Pattern.inside
    split
    next r => exact .cons rfl rfl (bindElements_meets scope constant inRest _ elements 0 m)
    next hne =>
      refine .refuse (e := ⟨.array elements, v, m.heap, inRest⟩) ?_ rfl
      cases v with
      | array r => exact absurd rfl (hne r)
      | _ => rfl
  | .object fields, v, m => by
    unfold bindPattern Pattern.inside
    split
    next r => exact .cons rfl rfl (bindFields_meets scope constant inRest r fields m)
    next hne =>
      refine .refuse (e := ⟨.object fields, v, m.heap, inRest⟩) ?_ rfl
      cases v with
      | object r => exact absurd rfl (hne r)
      | _ => rfl

theorem bindElements_meets (scope : ScopeRef) (constant inRest : Bool) (items : Array Value) :
    ∀ (elements : List (Pattern × Bool)) (i : Nat) (m : Machine),
      (bindElements scope constant items elements i).Meets scope constant m
        (Pattern.elementsMeet inRest items elements i m.heap).1
        (Pattern.elementsMeet inRest items elements i m.heap).2
  | [], _, m => by
    rw [bindElements, Pattern.elementsMeet]
    exact .nothing
  | (p, spread) :: rest, i, m => by
    -- Selecting may make an array first, and binding goes on from there.
    have hselect := part_apply items spread i m
    rw [bindElements, Pattern.elementsMeet]
    generalize m.heap.part items spread i = part at hselect
    refine .after (h := part.2) (y := Eval.bind (bindPattern scope constant p part.1) fun _ =>
      bindElements scope constant items rest (i + 1)) ?_ ?_
    · rw [bind_apply, hselect]
      rfl
    · have hhere := bindPattern_meets scope constant (inRest || spread) p part.1
        { m with heap := part.2 }
      refine hhere.append fun m' hm' => ?_
      rw [← hm']
      exact bindElements_meets scope constant inRest items rest (i + 1) m'

theorem bindFields_meets (scope : ScopeRef) (constant inRest : Bool) (r : InstanceRef) :
    ∀ (fields : List (String × Pattern)) (m : Machine),
      (bindFields scope constant r fields).Meets scope constant m
        (Pattern.fieldsMeet inRest r fields m.heap).1
        (Pattern.fieldsMeet inRest r fields m.heap).2
  | [], m => by
    rw [bindFields, Pattern.fieldsMeet]
    exact .nothing
  | (key, p) :: rest, m => by
    rw [bindFields, Pattern.fieldsMeet]
    refine .after (h := m.heap) (y := Eval.bind (bindPattern scope constant p
      ((m.heap.field? r key).getD .nil)) fun _ => bindFields scope constant r rest) rfl ?_
    refine (bindPattern_meets scope constant inRest p _ m).append fun m' hm' => ?_
    rw [← hm']
    exact bindFields_meets scope constant inRest r rest m'

end

/-! What binding comes to -/

namespace Machine

theorem meet_of_suits (heap : Heap) (h : ∀ e ∈ met, e.suits) :
    m.meet scope constant met heap =
      .value () { m.naming scope constant (Meeting.bindings met) with heap } := by
  induction met generalizing m with
  | nil => rfl
  | cons e rest ih =>
    rw [meet, if_pos (h e List.mem_cons_self), ih fun e he => h e (List.mem_cons_of_mem _ he),
      Meeting.bindings_cons]
    simp only [naming, Scopes.defineAll_append]

/-- Only the names before the part that does not suit are defined. -/
theorem meet_of_refused {e : Meeting} (h : ∀ b ∈ met, b.suits) (he : e.suits = false) :
    m.meet scope constant (met ++ e :: met') heap =
      .stopped (.failed e.refusal)
        { m.naming scope constant (Meeting.bindings met) with heap := e.heap } := by
  rw [meet_append_value (meet_of_suits heap h), meet, if_neg (by simp [he])]

end Machine

mutual

/-- Where all parts suit, no name is missed. -/
theorem Pattern.names_inside (inRest : Bool) : ∀ (p : Pattern) (v : Value) (h : Heap),
    (∀ e ∈ ⟨p, v, h, inRest⟩ :: (p.inside inRest v h).1, e.suits) →
    (Meeting.bindings (⟨p, v, h, inRest⟩ :: (p.inside inRest v h).1)).map Prod.fst = p.names
  | .name n, v, h, _ => by
    rw [Pattern.inside]
    rfl
  | .literal l, v, h, _ => by
    rw [Pattern.inside]
    rfl
  | .array elements, v, h, hall => by
    have hhere := hall _ List.mem_cons_self
    cases v with
    | array r =>
      rw [Pattern.inside] at hall ⊢
      exact Pattern.names_elementsMeet inRest _ elements 0 h
        fun e he => hall e (List.mem_cons_of_mem _ he)
    | _ => cases hhere
  | .object fields, v, h, hall => by
    have hhere := hall _ List.mem_cons_self
    cases v with
    | object r =>
      rw [Pattern.inside] at hall ⊢
      exact Pattern.names_fieldsMeet inRest r fields h
        fun e he => hall e (List.mem_cons_of_mem _ he)
    | _ => cases hhere

theorem Pattern.names_elementsMeet (inRest : Bool) (items : Array Value) :
    ∀ (elements : List (Pattern × Bool)) (i : Nat) (h : Heap),
      (∀ e ∈ (Pattern.elementsMeet inRest items elements i h).1, e.suits) →
      (Meeting.bindings (Pattern.elementsMeet inRest items elements i h).1).map Prod.fst =
        Pattern.namesOfElements elements
  | [], _, _, _ => by
    rw [Pattern.elementsMeet]
    rfl
  | (p, spread) :: rest, i, h, hall => by
    rw [Pattern.elementsMeet, ← List.cons_append] at hall ⊢
    rw [List.forall_mem_append] at hall
    rw [Meeting.bindings_append, List.map_append, Pattern.namesOfElements,
      Pattern.names_inside _ p _ _ hall.1, Pattern.names_elementsMeet inRest items rest _ _ hall.2]

theorem Pattern.names_fieldsMeet (inRest : Bool) (r : InstanceRef) :
    ∀ (fields : List (String × Pattern)) (h : Heap),
      (∀ e ∈ (Pattern.fieldsMeet inRest r fields h).1, e.suits) →
      (Meeting.bindings (Pattern.fieldsMeet inRest r fields h).1).map Prod.fst =
        Pattern.namesOfFields fields
  | [], _, _ => by
    rw [Pattern.fieldsMeet]
    rfl
  | (key, p) :: rest, h, hall => by
    rw [Pattern.fieldsMeet, ← List.cons_append] at hall ⊢
    rw [List.forall_mem_append] at hall
    rw [Meeting.bindings_append, List.map_append, Pattern.namesOfFields,
      Pattern.names_inside inRest p _ _ hall.1, Pattern.names_fieldsMeet inRest r rest _ hall.2]

end

variable {p : Pattern} {v : Value}

theorem bindPattern_apply (scope : ScopeRef) (constant : Bool) (p : Pattern) (v : Value)
    (m : Machine) :
    bindPattern scope constant p v m =
      .finished (m.meet scope constant (p.meetings v m.heap) (p.selected v m.heap)) :=
  bindPattern_meets scope constant false p v m

/-- Binding always comes to an end at once. -/
theorem bindPattern_ends (scope : ScopeRef) (constant : Bool) (p : Pattern) (v : Value)
    (m : Machine) :
    (∃ m', bindPattern scope constant p v m = .finished (.value () m')) ∨
      ∃ s m', bindPattern scope constant p v m = .finished (.stopped s m') := by
  rw [bindPattern_apply]
  cases hmeet : m.meet scope constant (p.meetings v m.heap) (p.selected v m.heap) with
  | value _ m' => exact .inl ⟨m', rfl⟩
  | stopped s m' => exact .inr ⟨s, m', rfl⟩
  | exhausted => exact absurd hmeet Machine.meet_ne_exhausted

theorem bindPattern_of_suits (scope : ScopeRef) (constant : Bool)
    (h : ∀ e ∈ p.meetings v m.heap, e.suits) :
    bindPattern scope constant p v m = .finished (.value ()
      { m.naming scope constant (Meeting.bindings (p.meetings v m.heap)) with
        heap := p.selected v m.heap }) := by
  rw [bindPattern_apply, Machine.meet_of_suits _ h]

theorem bindPattern_of_refused (scope : ScopeRef) (constant : Bool)
    {before after : List Meeting} {e : Meeting}
    (hmet : p.meetings v m.heap = before ++ e :: after) (h : ∀ b ∈ before, b.suits)
    (he : e.suits = false) :
    bindPattern scope constant p v m = .finished (.stopped (.failed e.refusal)
      { m.naming scope constant (Meeting.bindings before) with heap := e.heap }) := by
  rw [bindPattern_apply, hmet, Machine.meet_of_refused h he]

/-- Among sub-patterns there is a first one whose part does not suit, unless all do. -/
theorem Meeting.suits_or_first (met : List Meeting) :
    (∀ e ∈ met, e.suits) ∨ ∃ before e after, met = before ++ e :: after ∧
      (∀ b ∈ before, b.suits) ∧ e.suits = false := by
  cases hfind : met.find? (!·.suits) with
  | none => exact .inl fun e he => by simpa using List.find?_eq_none.1 hfind e he
  | some e =>
    obtain ⟨he, before, after, hmet, hbefore⟩ := List.find?_eq_some_iff_append.1 hfind
    exact .inr ⟨before, e, after, hmet, by simpa using hbefore, by simpa using he⟩

/-- A frame in which names have been defined one after the other: a name is where its first
definition puts it, with the value of the last one. -/
structure Frame.Defines (f f' : Frame Value) (constant : Bool) (bs : List (String × Value)) :
    Prop where
  parent : f'.parent = f.parent
  names : f'.names = (bs.map Prod.fst).foldl Frame.addName f.names
  binding? (name : String) : f'.binding? name =
    match bs.reverse.lookup name with
    | some v => some ⟨name, v, constant⟩
    | none => f.binding? name

/-- A machine in which names have been defined in a scope, and arrays have been made, and nothing
else has happened. -/
structure Machine.Binds (m m' : Machine) (scope : ScopeRef) (constant : Bool)
    (bs : List (String × Value)) : Prop where
  machine : m' = { m with scopes := m'.scopes, heap := m'.heap }
  scopes : m'.scopes = m.scopes.defineAll scope constant bs
  frame (f : Frame Value) : m.scopes.frame? scope = some f →
    ∃ f', m'.scopes.frame? scope = some f' ∧ f.Defines f' constant bs
  frames (r : ScopeRef) : r ≠ scope → m'.scopes.frame? r = m.scopes.frame? r
  heap : m.heap.AddsArrays m'.heap

theorem Machine.naming_binds (scope : ScopeRef) (constant : Bool) (bs : List (String × Value))
    (h : m.heap.AddsArrays heap) :
    m.Binds { m.naming scope constant bs with heap } scope constant bs where
  machine := rfl
  scopes := rfl
  frame f hf := by
    refine ⟨f.defineAll constant bs, ?_, f.parent_defineAll constant bs,
      f.names_defineAll constant bs, fun name => ?_⟩
    · change (m.scopes.defineAll scope constant bs).frame? scope = _
      rw [Scopes.frame?_defineAll, if_pos rfl, hf]
      rfl
    · rw [Frame.binding?_defineAll]
      cases bs.reverse.lookup name <;> rfl
  frames r hr := by
    change (m.scopes.defineAll scope constant bs).frame? r = _
    rw [Scopes.frame?_defineAll, if_neg hr]
  heap := h

/-- Binding a pattern succeeds just if all parts suit. -/
theorem bindPattern_value_iff (scope : ScopeRef) (constant : Bool) (p : Pattern) (v : Value)
    (m : Machine) :
    (∃ m', bindPattern scope constant p v m = .finished (.value () m')) ↔
      ∀ e ∈ p.meetings v m.heap, e.suits := by
  refine ⟨fun ⟨m', hbind⟩ => ?_, fun h => ⟨_, bindPattern_of_suits scope constant h⟩⟩
  refine (Meeting.suits_or_first _).resolve_right ?_
  rintro ⟨before, e, after, hmet, hbefore, he⟩
  rw [bindPattern_of_refused scope constant hmet hbefore he] at hbind
  cases hbind

theorem bindPattern_binds (scope : ScopeRef) (constant : Bool)
    (h : ∀ e ∈ p.meetings v m.heap, e.suits) :
    ∃ m', bindPattern scope constant p v m = .finished (.value () m') ∧
      (Meeting.bindings (p.meetings v m.heap)).map Prod.fst = p.names ∧
      m.Binds m' scope constant (Meeting.bindings (p.meetings v m.heap)) ∧
      m'.heap = p.selected v m.heap :=
  ⟨_, bindPattern_of_suits scope constant h, Pattern.names_inside false p v m.heap h,
    Machine.naming_binds scope constant _ (Pattern.inside_addsArrays false p v m.heap), rfl⟩

/-- Binding a pattern succeeds just if all parts suit, and then it defines the names of the pattern
with their parts, in source order, and changes nothing else. Otherwise the first part that does not
suit is refused. -/
theorem binding_takes_apart (scope : ScopeRef) (constant : Bool) (p : Pattern) (v : Value)
    (m : Machine) :
    let met := p.meetings v m.heap
    let bs := Meeting.bindings met
    ((∃ m', bindPattern scope constant p v m = .finished (.value () m')) ↔ ∀ e ∈ met, e.suits) ∧
    ((∃ m', bindPattern scope constant p v m = .finished (.value () m') ∧
        bs.map Prod.fst = p.names ∧ m.Binds m' scope constant bs ∧
        m'.heap = p.selected v m.heap) ∨
      ∃ before e after m', met = before ++ e :: after ∧ (∀ b ∈ before, b.suits) ∧
        e.suits = false ∧
        bindPattern scope constant p v m = .finished (.stopped (.failed e.refusal) m')) := by
  refine ⟨bindPattern_value_iff scope constant p v m, ?_⟩
  rcases Meeting.suits_or_first (p.meetings v m.heap) with
    h | ⟨before, e, after, hmet, hbefore, he⟩
  · exact .inl (bindPattern_binds scope constant h)
  · exact .inr ⟨before, e, after, _, hmet, hbefore, he,
      bindPattern_of_refused scope constant hmet hbefore he⟩

/-- What is missing is nil, the rest is a new array, and the second `a` counts. -/
example :
    Meeting.bindings ((Pattern.array
      [(.name "a", false), (.name "b", false), (.name "a", true)]).meetings
        (.array ⟨0⟩) ⟨#[#[.bool true]], #[]⟩) =
      [("a", .bool true), ("b", .nil), ("a", .array ⟨1⟩)] := rfl

end ScriptEngine
