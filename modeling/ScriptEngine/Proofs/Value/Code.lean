import ScriptEngine.Library.Json
import ScriptEngine.Machine.Basic

/-!
# Where code is kept

Functions and the methods of classes carry code, and values carry functions and classes. A machine
is made of code of some kind when all values it keeps in scopes and on the heap are. Every operation
on scopes and heaps keeps this as long as it only puts in what is made of such code.
-/
namespace ScriptEngine

variable {code : Function → Prop}

/-- All methods of a class, inherited ones included, are code of this kind. -/
def Class.MadeOf (code : Function → Prop) : Class → Prop
  | .mk _ _ parent methods _ =>
    (∀ e ∈ methods, code e.2.decl) ∧
      match parent with
      | none => True
      | some c => c.MadeOf code

/-- All code that a value can run is of this kind. -/
def Value.MadeOf (code : Function → Prop) : Value → Prop
  | .function _ decl _ => code decl
  | .native _ _ receiver =>
    match receiver with
    | none => True
    | some v => v.MadeOf code
  | .type cls => cls.MadeOf code
  | _ => True

structure Instance.MadeOf (code : Function → Prop) (i : Instance) : Prop where
  cls : i.cls.MadeOf code
  fields : ∀ e ∈ i.fields.entries, e.2.MadeOf code

structure Heap.MadeOf (code : Function → Prop) (h : Heap) : Prop where
  arrays : ∀ a ∈ h.arrays, ∀ v ∈ a, v.MadeOf code
  instances : ∀ i ∈ h.instances, i.MadeOf code

def Scopes.MadeOf (code : Function → Prop) (s : Scopes Value) : Prop :=
  ∀ f ∈ s, ∀ b ∈ f.bindings, b.value.MadeOf code

structure Machine.MadeOf (code : Function → Prop) (m : Machine) : Prop where
  scopes : m.scopes.MadeOf code
  heap : m.heap.MadeOf code
  promiseClass : m.promiseClass.MadeOf code
  objectClass : m.objectClass.MadeOf code

/-! Any code will do where nothing is asked of it. -/

theorem Class.madeOf_any : ∀ c : Class, c.MadeOf fun _ => True
  | .mk _ _ none _ _ => ⟨fun _ _ => trivial, trivial⟩
  | .mk _ _ (some c) _ _ => ⟨fun _ _ => trivial, c.madeOf_any⟩

theorem Value.madeOf_any : ∀ v : Value, v.MadeOf fun _ => True
  | .nil | .bool _ | .number _ | .text _ | .object _ | .array _ => trivial
  | .function .. => trivial
  | .native _ _ none => trivial
  | .native _ _ (some v) => v.madeOf_any
  | .type c => c.madeOf_any

theorem Machine.madeOf_any (m : Machine) : m.MadeOf fun _ => True where
  scopes _ _ b _ := b.value.madeOf_any
  heap := ⟨fun _ _ v _ => v.madeOf_any, fun i _ => ⟨i.cls.madeOf_any, fun e _ => e.2.madeOf_any⟩⟩
  promiseClass := m.promiseClass.madeOf_any
  objectClass := m.objectClass.madeOf_any

/-! Classes and plain values -/

theorem Class.MadeOf.method? {c : Class} (h : c.MadeOf code) {name : String} {method : Method}
    (hm : c.method? name = some method) : code method.decl := by
  match c with
  | .mk _ _ parent methods _ =>
    unfold Class.method? at hm
    unfold Class.MadeOf at h
    obtain ⟨hmethods, hparent⟩ := h
    split at hm
    next found hfound =>
      cases hm
      obtain ⟨front, back, rfl, -⟩ := List.lookup_eq_some_iff.1 hfound
      exact hmethods (name, method) (by simp)
    next =>
      split at hm
      next => cases hm
      next p => exact Class.MadeOf.method? (c := p) hparent hm

theorem Class.madeOf_mk {id : Nat} {name : String} {parent : Option Class}
    {methods : List (String × Method)} {natives : List Native}
    (hm : ∀ e ∈ methods, code e.2.decl) (hp : ∀ c, parent = some c → c.MadeOf code) :
    (Class.mk id name parent methods natives).MadeOf code := by
  unfold Class.MadeOf
  cases parent with
  | none => exact ⟨hm, trivial⟩
  | some c => exact ⟨hm, hp c rfl⟩

theorem Value.madeOf_ofLiteral (l : Literal) : (Value.ofLiteral l).MadeOf code := by
  cases l <;> trivial

theorem Value.madeOf_text? (s : Option String) : ((s.map Value.text).getD .nil).MadeOf code := by
  cases s <;> trivial

/-! Fields -/

theorem Fields.mem_insertEntry {α : Type} {key : String} {value : α} {l : List (String × α)}
    {e : String × α} (h : e ∈ Fields.insertEntry key value l) : e = (key, value) ∨ e ∈ l := by
  induction l with
  | nil => simpa [insertEntry] using h
  | cons head rest ih =>
    obtain ⟨k, v⟩ := head
    rw [insertEntry] at h
    split at h
    · exact (List.mem_cons.1 h).imp_right (List.mem_cons_of_mem _)
    · split at h
      · exact List.mem_cons.1 h
      · rcases List.mem_cons.1 h with rfl | h
        · exact .inr List.mem_cons_self
        · exact (ih h).imp_right (List.mem_cons_of_mem _)

theorem Fields.madeOf_insert {f : Fields Value} (h : ∀ e ∈ f.entries, e.2.MadeOf code)
    {key : String} {value : Value} (hv : value.MadeOf code) :
    ∀ e ∈ (f.insert key value).entries, e.2.MadeOf code := by
  intro e he
  rcases Fields.mem_insertEntry he with rfl | he
  · exact hv
  · exact h e he

theorem Fields.madeOf_ofList {entries : List (String × Value)}
    (h : ∀ e ∈ entries, e.2.MadeOf code) :
    ∀ e ∈ (Fields.ofList entries).entries, e.2.MadeOf code := by
  suffices hfold : ∀ f : Fields Value, (∀ e ∈ f.entries, e.2.MadeOf code) →
      ∀ e ∈ (entries.foldl (fun f e => f.insert e.1 e.2) f).entries, e.2.MadeOf code from
    hfold .empty (by simp [Fields.empty])
  induction entries with
  | nil => exact fun f hf => hf
  | cons e rest ih =>
    intro f hf
    refine ih (fun e he => h e (List.mem_cons_of_mem _ he)) _ ?_
    exact Fields.madeOf_insert hf (h e List.mem_cons_self)

theorem Fields.madeOf_get? {f : Fields Value} (h : ∀ e ∈ f.entries, e.2.MadeOf code)
    {key : String} {v : Value} (hv : f.get? key = some v) : v.MadeOf code := by
  obtain ⟨front, back, hf, -⟩ := List.lookup_eq_some_iff.1 hv
  exact h (key, v) (by simp [hf])

/-! The heap -/

namespace Heap.MadeOf

variable {h : Heap}

theorem array (hh : h.MadeOf code) (r : ArrayRef) : ∀ v ∈ h.array r, v.MadeOf code := by
  intro v hv
  rw [Heap.array, Array.getD_eq_getD_getElem?] at hv
  cases ha : h.arrays[r.index]? with
  | none => simp [ha] at hv
  | some a => exact hh.arrays a (Array.mem_of_getElem? ha) v (by simpa [ha] using hv)

theorem getD (hh : h.MadeOf code) (r : ArrayRef) (i : Nat) :
    ((h.array r).getD i .nil).MadeOf code := by
  rw [Array.getD_eq_getD_getElem?]
  cases hv : (h.array r)[i]? with
  | none => trivial
  | some v => exact hh.array r v (Array.mem_of_getElem? hv)

theorem instance? (hh : h.MadeOf code) {r : InstanceRef} {i : Instance}
    (hi : h.instance? r = some i) : i.MadeOf code :=
  hh.instances i (Array.mem_of_getElem? hi)

theorem field? (hh : h.MadeOf code) {r : InstanceRef} {key : String} {v : Value}
    (hv : h.field? r key = some v) : v.MadeOf code := by
  obtain ⟨i, hi, hv⟩ := Option.bind_eq_some_iff.1 hv
  exact Fields.madeOf_get? (hh.instance? hi).fields hv

theorem field (hh : h.MadeOf code) (v : Value) (key : String) : (h.field v key).MadeOf code := by
  cases v with
  | object r =>
    cases hf : h.field? r key with
    | none => simp [Heap.field, hf, Value.MadeOf]
    | some w => simpa [Heap.field, hf] using hh.field? hf
  | _ => trivial

theorem newArray (hh : h.MadeOf code) {items : Array Value} (hi : ∀ v ∈ items, v.MadeOf code) :
    (h.newArray items).2.MadeOf code where
  arrays := by
    intro a ha
    rcases Array.mem_push.1 ha with ha | rfl
    · exact hh.arrays a ha
    · exact hi
  instances := hh.instances

theorem newInstance (hh : h.MadeOf code) {i : Instance} (hi : i.MadeOf code) :
    (h.newInstance i).2.MadeOf code where
  arrays := hh.arrays
  instances := by
    intro j hj
    rcases Array.mem_push.1 hj with hj | rfl
    · exact hh.instances j hj
    · exact hi

theorem modifyArray (hh : h.MadeOf code) {r : ArrayRef} {f : Array Value → Array Value}
    (hf : ∀ a : Array Value, (∀ v ∈ a, v.MadeOf code) → ∀ v ∈ f a, v.MadeOf code) :
    (h.modifyArray r f).MadeOf code where
  arrays := by
    intro a ha
    obtain ⟨i, hi, rfl⟩ := Array.mem_iff_getElem.1 ha
    simp only [Heap.modifyArray, Array.size_modify] at hi
    simp only [Heap.modifyArray, Array.getElem_modify]
    have hmem := hh.arrays h.arrays[i] (Array.getElem_mem hi)
    split
    · exact hf _ hmem
    · exact hmem
  instances := hh.instances

theorem setField (hh : h.MadeOf code) {r : InstanceRef} {key : String} {value : Value}
    (hv : value.MadeOf code) : (h.setField r key value).MadeOf code where
  arrays := hh.arrays
  instances := by
    intro j hj
    obtain ⟨i, hi, rfl⟩ := Array.mem_iff_getElem.1 hj
    simp only [Heap.setField, Array.size_modify] at hi
    simp only [Heap.setField, Array.getElem_modify]
    have hmem := hh.instances h.instances[i] (Array.getElem_mem hi)
    split
    · exact ⟨hmem.cls, Fields.madeOf_insert hmem.fields hv⟩
    · exact hmem

end Heap.MadeOf

/-! Scopes -/

theorem Frame.madeOf_define {f : Frame Value} (h : ∀ b ∈ f.bindings, b.value.MadeOf code)
    {name : String} {v : Value} {constant : Bool} (hv : v.MadeOf code) :
    ∀ b ∈ (f.define name v constant).bindings, b.value.MadeOf code := by
  unfold Frame.define
  split
  · intro b hb
    rcases Array.mem_or_eq_of_mem_setIfInBounds hb with hb | rfl
    · exact h b hb
    · exact hv
  · intro b hb
    rcases Array.mem_push.1 hb with hb | rfl
    · exact h b hb
    · exact hv

theorem Frame.madeOf_update {f : Frame Value} (h : ∀ b ∈ f.bindings, b.value.MadeOf code)
    {i : Nat} {v : Value} (hv : v.MadeOf code) :
    ∀ b ∈ (f.update i v).bindings, b.value.MadeOf code := by
  intro b hb
  obtain ⟨j, hj, rfl⟩ := Array.mem_iff_getElem.1 hb
  simp only [Frame.update, Array.size_modify] at hj
  simp only [Frame.update, Array.getElem_modify]
  split
  · exact hv
  · exact h _ (Array.getElem_mem hj)

namespace Scopes.MadeOf

variable {s : Scopes Value}

theorem get? (hs : s.MadeOf code) {r : ScopeRef} {name : String} {v : Value}
    (hv : s.get? r name = some v) : v.MadeOf code := by
  unfold Scopes.get? at hv
  split at hv
  · cases hv
  · obtain ⟨b, hb, rfl⟩ := Option.map_eq_some_iff.1 hv
    obtain ⟨f, hf, hb⟩ := Option.bind_eq_some_iff.1 hb
    exact hs f (Array.mem_of_getElem? hf) b (Array.mem_of_getElem? hb)

theorem child (hs : s.MadeOf code) (r : ScopeRef) : Scopes.MadeOf code (s.child r).2 := by
  intro f hf
  rcases Array.mem_push.1 hf with hf | rfl
  · exact hs f hf
  · simp

theorem modify (hs : s.MadeOf code) {i : Nat} {g : Frame Value → Frame Value}
    (hg : ∀ f : Frame Value, (∀ b ∈ f.bindings, b.value.MadeOf code) →
      ∀ b ∈ (g f).bindings, b.value.MadeOf code) : Scopes.MadeOf code (s.modify i g) := by
  intro f hf
  obtain ⟨j, hj, rfl⟩ := Array.mem_iff_getElem.1 hf
  rw [Array.size_modify] at hj
  rw [Array.getElem_modify]
  have hmem := hs s[j] (Array.getElem_mem hj)
  split
  · exact hg _ hmem
  · exact hmem

theorem define (hs : s.MadeOf code) {r : ScopeRef} {name : String} {v : Value} {constant : Bool}
    (hv : v.MadeOf code) : (s.define r name v constant).MadeOf code :=
  hs.modify fun _ hf => Frame.madeOf_define hf hv

theorem put (hs : s.MadeOf code) {place : ScopeRef × Nat} {v : Value} (hv : v.MadeOf code) :
    (s.put place v).MadeOf code :=
  hs.modify fun _ hf => Frame.madeOf_update hf hv

end Scopes.MadeOf

/-! Values read from JSON hold no code. -/

mutual

theorem Json.toValue_madeOf {cls : Class} (hc : cls.MadeOf code) {h : Heap} (hh : h.MadeOf code) :
    ∀ j : Json, (j.toValue cls h).1.MadeOf code ∧ (j.toValue cls h).2.MadeOf code
  | .null | .bool _ | .number _ | .text _ => ⟨trivial, hh⟩
  | .array items => by
    have ih := Json.toValues_madeOf hc hh items
    rw [Json.toValue]
    exact ⟨trivial, ih.2.newArray (by simpa using ih.1)⟩
  | .object members => by
    have ih := Json.toFields_madeOf hc hh members
    rw [Json.toValue]
    exact ⟨trivial, ih.2.newInstance ⟨hc, Fields.madeOf_ofList ih.1⟩⟩

theorem Json.toValues_madeOf {cls : Class} (hc : cls.MadeOf code) {h : Heap} (hh : h.MadeOf code) :
    ∀ items : List Json, (∀ v ∈ (Json.toValues cls h items).1, v.MadeOf code) ∧
      (Json.toValues cls h items).2.MadeOf code
  | [] => ⟨by simp [Json.toValues], hh⟩
  | j :: rest => by
    have ih := Json.toValue_madeOf hc hh j
    have ihs := Json.toValues_madeOf hc ih.2 rest
    rw [Json.toValues]
    exact ⟨List.forall_mem_cons.2 ⟨ih.1, ihs.1⟩, ihs.2⟩

theorem Json.toFields_madeOf {cls : Class} (hc : cls.MadeOf code) {h : Heap} (hh : h.MadeOf code) :
    ∀ members : List (String × Json), (∀ e ∈ (Json.toFields cls h members).1, e.2.MadeOf code) ∧
      (Json.toFields cls h members).2.MadeOf code
  | [] => ⟨by simp [Json.toFields], hh⟩
  | (key, j) :: rest => by
    have ih := Json.toValue_madeOf hc hh j
    have ihs := Json.toFields_madeOf hc ih.2 rest
    rw [Json.toFields]
    exact ⟨List.forall_mem_cons.2 ⟨ih.1, ihs.1⟩, ihs.2⟩

end

end ScriptEngine
