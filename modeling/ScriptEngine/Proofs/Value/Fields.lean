import ScriptEngine.Value.Heap

/-!
# Fields of instances after a change

A field that is set has its new value and the others keep theirs. Nothing that happens to arrays
concerns them.
-/
namespace ScriptEngine

/-- What is found under a key behind one more entry. -/
theorem lookup_cons_ite {κ α : Type} [BEq κ] [LawfulBEq κ] [DecidableEq κ] (key k : κ) (a : α)
    (rest : List (κ × α)) :
    List.lookup k ((key, a) :: rest) = if k = key then some a else List.lookup k rest := by
  by_cases h : k = key
  · simp [h]
  · simp [List.lookup_cons, h, beq_false_of_ne h]

theorem Fields.get?_insert {α : Type} (f : Fields α) (key k : String) (value : α) :
    (f.insert key value).get? k = if k = key then some value else f.get? k := by
  obtain ⟨entries⟩ := f
  simp only [insert, get?]
  fun_induction insertEntry key value entries <;> grind [lookup_cons_ite]

namespace Heap

variable (h : Heap) (r : InstanceRef) (key k : String) (value : Value)

@[simp]
theorem isSome_instance?_setField :
    ((h.setField r key value).instance? r).isSome = (h.instance? r).isSome := by
  simp [setField, instance?, Array.getElem?_modify]

theorem isSome_instance?_of_field? {h : Heap} {r : InstanceRef} {k : String} {value : Value}
    (hk : h.field? r k = some value) : (h.instance? r).isSome := by
  rw [field?] at hk
  cases hr : h.instance? r <;> simp [hr] at hk ⊢

/-- A field of an instance after one of its fields is set. -/
theorem field?_setField {h : Heap} {r : InstanceRef} (hr : (h.instance? r).isSome) :
    (h.setField r key value).field? r k = if k = key then some value else h.field? r k := by
  obtain ⟨i, hi⟩ := Option.isSome_iff_exists.1 hr
  unfold instance? at hi
  simp [setField, field?, instance?, Array.getElem?_modify, hi, Fields.get?_insert]

/-- Other fields, of this instance or of another one, are not concerned. -/
theorem field?_setField_of_ne {h : Heap} {r r' : InstanceRef} (hne : ¬(r' = r ∧ k = key)) :
    (h.setField r key value).field? r' k = h.field? r' k := by
  obtain ⟨i⟩ := r
  obtain ⟨j⟩ := r'
  simp only [field?, instance?, setField, Array.getElem?_modify]
  split
  next hij =>
    subst hij
    have hk : k ≠ key := fun hk => hne ⟨rfl, hk⟩
    cases h.instances[i]? <;> simp [Fields.get?_insert, hk]
  next => rfl

@[simp]
theorem field?_modifyArray (a : ArrayRef) (f : Array Value → Array Value) :
    (h.modifyArray a f).field? r k = h.field? r k := rfl

@[simp]
theorem instance?_modifyArray (a : ArrayRef) (f : Array Value → Array Value) :
    (h.modifyArray a f).instance? r = h.instance? r := rfl

@[simp]
theorem field?_newArray (items : Array Value) : (h.newArray items).2.field? r k = h.field? r k :=
  rfl

@[simp]
theorem instance?_newArray (items : Array Value) :
    (h.newArray items).2.instance? r = h.instance? r := rfl

/-- The number of the class of an instance. -/
def classId? (h : Heap) (r : InstanceRef) : Option Nat := (h.instance? r).map fun i => i.cls.id

@[simp]
theorem classId?_setField (r' : InstanceRef) :
    (h.setField r key value).classId? r' = h.classId? r' := by
  simp only [classId?, setField, instance?, Array.getElem?_modify]
  split <;> simp [Function.comp_def]

@[simp]
theorem classId?_modifyArray (a : ArrayRef) (f : Array Value → Array Value) :
    (h.modifyArray a f).classId? r = h.classId? r := rfl

@[simp]
theorem classId?_newArray (items : Array Value) :
    (h.newArray items).2.classId? r = h.classId? r := rfl

theorem lt_of_classId? {h : Heap} {r : InstanceRef} {id : Nat} (hr : h.classId? r = some id) :
    r.index < h.instances.size := by
  obtain ⟨i, hi, -⟩ := Option.map_eq_some_iff.1 hr
  exact (Array.getElem?_eq_some_iff.1 hi).1

/-- An instance that is there is not the next one. -/
theorem ne_of_classId? {h : Heap} {r : InstanceRef} {id : Nat} (hr : h.classId? r = some id) :
    r ≠ ⟨h.instances.size⟩ := by
  rintro rfl
  exact absurd (lt_of_classId? hr) (Nat.lt_irrefl _)

theorem instance?_newInstance_of_ne {h : Heap} {r : InstanceRef} (i : Instance)
    (hr : r ≠ ⟨h.instances.size⟩) : (h.newInstance i).2.instance? r = h.instance? r := by
  have hne : r.index ≠ h.instances.size := fun heq => hr (congrArg InstanceRef.mk heq)
  simp [newInstance, instance?, Array.getElem?_push, hne]

theorem array_of_getElem? {h : Heap} {a : ArrayRef} {items : Array Value}
    (ha : h.arrays[a.index]? = some items) : h.array a = items := by
  rw [array, Array.getD_eq_getD_getElem?, ha, Option.getD_some]

theorem getElem?_newArray {h : Heap} {j : Nat} {items' : Array Value} (items : Array Value)
    (hj : h.arrays[j]? = some items') : (h.newArray items).2.arrays[j]? = some items' := by
  have hlt := (Array.getElem?_eq_some_iff.1 hj).1
  simp [newArray, Array.getElem?_push, Nat.ne_of_lt hlt, hj]

theorem getElem?_modifyArray_of_ne {h : Heap} {a b : ArrayRef} (f : Array Value → Array Value)
    (hne : b ≠ a) : (h.modifyArray a f).arrays[b.index]? = h.arrays[b.index]? := by
  have hne' : a.index ≠ b.index := fun heq => hne (congrArg ArrayRef.mk heq.symm)
  simp [modifyArray, Array.getElem?_modify, hne']

end Heap

end ScriptEngine
