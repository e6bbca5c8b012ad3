import Mathlib.Data.List.Basic
import ScriptEngine.Proofs.Scope.Definitions

/-!
# Frames with an index

A frame can be kept together with an index, which tells at once at which place a name stands. The
index and the bindings are written side by side, so they have to be kept in step: a name is in the
index exactly if it has a binding, and it has only one. Then looking into the index and searching
the bindings come to the same, and so does everything that is done to a table of such frames.
-/
namespace ScriptEngine

variable {α : Type}

/-- The bindings of one scope, an index of their names, and the scope around it. -/
structure IndexedFrame (α : Type) where
  slots : Std.HashMap String Nat
  bindings : Array (Binding α)
  parent : Option ScopeRef

namespace IndexedFrame

/-- The frame without its index. -/
def plain (f : IndexedFrame α) : Frame α := ⟨f.bindings, f.parent⟩

/-- Changes the binding at the place that the index tells, or adds one to both. -/
def define (f : IndexedFrame α) (name : String) (value : α) (constant : Bool) : IndexedFrame α :=
  match f.slots[name]? with
  | some i =>
    { f with bindings := f.bindings.modify i fun b : Binding α => { b with value, constant } }
  | none =>
    { f with
      slots := f.slots.insert name f.bindings.size
      bindings := f.bindings.push ⟨name, value, constant⟩ }

/-- Changes the value at a place. -/
def update (f : IndexedFrame α) (i : Nat) (value : α) : IndexedFrame α :=
  { f with bindings := f.bindings.modify i fun b : Binding α => { b with value } }

/-- Drops all bindings and empties the index. -/
def clear (f : IndexedFrame α) : IndexedFrame α := { f with slots := ∅, bindings := #[] }

/-- The index has every name that is bound, at its place, and nothing else. -/
def InStep (f : IndexedFrame α) : Prop :=
  ∀ name i, f.slots[name]? = some i ↔ ∃ b : Binding α, f.bindings[i]? = some b ∧ b.name = name

end IndexedFrame

namespace IndexedFrame.InStep

variable {f : IndexedFrame α}

theorem empty (parent : Option ScopeRef) : (⟨∅, #[], parent⟩ : IndexedFrame α).InStep := by
  intro name i
  simp

/-- No name has two places. -/
theorem names_nodup (hf : f.InStep) : f.plain.names.Nodup := by
  have hname {i : Nat} {name : String} (hi : f.plain.names[i]? = some name) :
      f.slots[name]? = some i := by
    rw [hf]
    simpa [Frame.names, plain] using hi
  rw [List.nodup_iff_getElem?_ne_getElem?]
  intro i j hij hj hsame
  have hplace := List.getElem?_eq_getElem hj
  have heq := (hname (hsame.trans hplace)).symm.trans (hname hplace)
  exact Nat.ne_of_lt hij (Option.some.inj heq)

/-- The index tells what a search finds. -/
theorem slots_eq (hf : f.InStep) (name : String) : f.slots[name]? = f.plain.slot? name := by
  have hfound {i : Nat} (hi : f.plain.slot? name = some i) : f.slots[name]? = some i :=
    (hf name i).2 (Frame.binding_of_slot? hi)
  cases hslot : f.plain.slot? name with
  | some i => exact hfound hslot
  | none =>
    refine Option.eq_none_iff_forall_ne_some.2 fun i hi => ?_
    obtain ⟨b, hb, rfl⟩ := (hf name i).1 hi
    refine Frame.slot?_eq_none_iff.1 hslot (List.mem_map_of_mem ?_)
    exact Array.mem_toList_iff.2 (Array.mem_of_getElem? hb)

/-- Both ways to define a name come to the same. -/
theorem plain_define (hf : f.InStep) (name : String) (v : α) (constant : Bool) :
    (f.define name v constant).plain = f.plain.define name v constant := by
  unfold define Frame.define
  rw [hf.slots_eq]
  cases hslot : f.plain.slot? name with
  | none => rfl
  | some i =>
    obtain ⟨b, hb : f.bindings[i]? = some b, rfl⟩ := Frame.binding_of_slot? hslot
    have hbindings : (f.bindings.modify i fun b : Binding α => { b with value := v, constant }) =
        f.bindings.set! i ⟨b.name, v, constant⟩ := by
      refine Array.ext_getElem? fun j => ?_
      rw [Array.getElem?_modify, Array.set!_eq_setIfInBounds, Array.getElem?_setIfInBounds]
      by_cases hj : i = j
      · subst hj
        obtain ⟨hi, hbi⟩ := Array.getElem?_eq_some_iff.1 hb
        simp [hi, hbi]
      · simp [hj]
    simp only [plain, hbindings]

/-- A binding may change as long as it keeps its name. -/
theorem modify (hf : f.InStep) (i : Nat) {change : Binding α → Binding α}
    (hname : ∀ b, (change b).name = b.name) :
    ({ f with bindings := f.bindings.modify i change } : IndexedFrame α).InStep := by
  intro name j
  rw [hf name j, Array.getElem?_modify]
  by_cases hij : i = j
  · cases f.bindings[j]? <;> simp [hij, hname]
  · simp [hij]

theorem define (hf : f.InStep) (name : String) (v : α) (constant : Bool) :
    (f.define name v constant).InStep := by
  unfold IndexedFrame.define
  split
  next i _ => exact hf.modify i fun _ => rfl
  next hnone =>
    have hnew (j : Nat) (b : Binding α) (hb : f.bindings[j]? = some b) : b.name ≠ name := by
      rintro rfl
      rw [(hf b.name j).2 ⟨b, hb, rfl⟩] at hnone
      cases hnone
    intro other j
    rw [Std.HashMap.getElem?_insert, Array.getElem?_push]
    by_cases hname : name = other <;> by_cases hj : j = f.bindings.size
    · simp [hname, hj]
    · subst hname
      simpa [hj, Ne.symm hj] using hnew j
    · simp [hname, hj, hf other]
    · simp [hname, hj, hf other]

theorem update (hf : f.InStep) (i : Nat) (v : α) : (f.update i v).InStep :=
  hf.modify i fun _ => rfl

end IndexedFrame.InStep

namespace Scopes

/-- What can be done to one of the scopes of a table. -/
inductive Action (α : Type) where
  | child
  | define (name : String) (value : α) (constant : Bool)
  | assign (name : String) (value : α)
  | clear

/-- An assignment that is refused changes nothing. -/
def act (s : Scopes α) (r : ScopeRef) : Action α → Scopes α
  | .child => (s.child r).2
  | .define name v constant => s.define r name v constant
  | .assign name v =>
    match s.assign r name v with
    | .ok t => t
    | .error _ => s
  | .clear => s.clear r

end Scopes

/-- All frames, each with its index. -/
abbrev IndexedScopes (α : Type) := Array (IndexedFrame α)

namespace IndexedScopes

def root : IndexedScopes α := #[⟨∅, #[], none⟩]

def frame? (s : IndexedScopes α) (r : ScopeRef) : Option (IndexedFrame α) := s[r.index]?

/-- The nearest binding of a name, looking into the indices outward. -/
def placeWithin (s : IndexedScopes α) (name : String) : Nat → ScopeRef → Option (ScopeRef × Nat)
  | 0, _ => none
  | n + 1, r =>
    match s.frame? r with
    | none => none
    | some f =>
      match f.slots[name]? with
      | some i => some (r, i)
      | none =>
        match f.parent with
        | none => none
        | some p => placeWithin s name n p

def place? (s : IndexedScopes α) (r : ScopeRef) (name : String) : Option (ScopeRef × Nat) :=
  s.placeWithin name s.size r

def binding? (s : IndexedScopes α) (r : ScopeRef) (i : Nat) : Option (Binding α) :=
  (s.frame? r).bind fun f => f.bindings[i]?

def get? (s : IndexedScopes α) (r : ScopeRef) (name : String) : Option α :=
  match s.place? r name with
  | none => none
  | some (h, i) => (s.binding? h i).map Binding.value

/-- Changes the nearest binding of a name, unless it is a constant, and tells whether it did. -/
def assign (s : IndexedScopes α) (r : ScopeRef) (name : String) (value : α) :
    Except AssignError Unit × IndexedScopes α :=
  match s.place? r name with
  | none => (.error .undefined, s)
  | some (h, i) =>
    if (s.binding? h i).any Binding.constant then (.error .constant, s)
    else (.ok (), s.modify h.index fun f => f.update i value)

def act (s : IndexedScopes α) (r : ScopeRef) : Scopes.Action α → IndexedScopes α
  | .child => s.push ⟨∅, #[], some r⟩
  | .define name v constant => s.modify r.index fun f => f.define name v constant
  | .assign name v => (s.assign r name v).2
  | .clear => s.modify r.index IndexedFrame.clear

/-- The table without its indices. -/
def plain (s : IndexedScopes α) : Scopes α := s.map IndexedFrame.plain

/-- All indices of the table are in step. -/
def InStep (s : IndexedScopes α) : Prop := ∀ r f, s.frame? r = some f → f.InStep

variable {s : IndexedScopes α}

theorem plain_root : (root : IndexedScopes α).plain = Scopes.root := by
  simp [root, plain, IndexedFrame.plain, Scopes.root]

theorem frame?_plain (s : IndexedScopes α) (r : ScopeRef) :
    s.plain.frame? r = (s.frame? r).map IndexedFrame.plain :=
  Array.getElem?_map

theorem binding?_plain (s : IndexedScopes α) (r : ScopeRef) (i : Nat) :
    s.plain.binding? r i = s.binding? r i := by
  rw [Scopes.binding?, binding?, frame?_plain]
  cases s.frame? r <;> rfl

theorem plain_modify {i : Nat} {change : IndexedFrame α → IndexedFrame α}
    {change' : Frame α → Frame α}
    (h : ∀ f, s[i]? = some f → (change f).plain = change' f.plain) :
    plain (s.modify i change) = Array.modify s.plain i change' := by
  refine Array.ext_getElem? fun j => ?_
  simp only [plain, Array.getElem?_map, Array.getElem?_modify]
  split
  next hij =>
    subst hij
    cases hf : s[i]? with
    | none => rfl
    | some f => exact congrArg some (h f hf)
  next => rfl

namespace InStep

theorem push (hs : s.InStep) (parent : Option ScopeRef) :
    InStep (s.push (⟨∅, #[], parent⟩ : IndexedFrame α)) := by
  intro r f hf
  rw [frame?, Array.getElem?_push] at hf
  split at hf
  · obtain rfl := Option.some.inj hf
    exact .empty parent
  · exact hs r f hf

theorem root : InStep (IndexedScopes.root : IndexedScopes α) := by
  have hnone : InStep (#[] : IndexedScopes α) := fun r f hf => by simp [frame?] at hf
  exact hnone.push none

theorem modify (hs : s.InStep) {i : Nat} {change : IndexedFrame α → IndexedFrame α}
    (h : ∀ f, f.InStep → (change f).InStep) : InStep (s.modify i change) := by
  intro r f hf
  rw [frame?, Array.getElem?_modify] at hf
  split at hf
  next hi =>
    obtain ⟨g, hg, rfl⟩ := Option.map_eq_some_iff.1 hf
    exact h g (hs r g hg)
  next => exact hs r f hf

theorem placeWithin_plain (hs : s.InStep) (name : String) (n : Nat) (r : ScopeRef) :
    s.placeWithin name n r = s.plain.placeWithin name n r := by
  induction n generalizing r with
  | zero => rfl
  | succ n ih =>
    have hframe : s.plain[r.index]? = (s.frame? r).map IndexedFrame.plain := Array.getElem?_map
    rw [placeWithin, Scopes.placeWithin, hframe]
    cases hf : s.frame? r with
    | none => rfl
    | some f =>
      simp only [Option.map_some, (hs r f hf).slots_eq, ih]
      rfl

theorem place?_plain (hs : s.InStep) (r : ScopeRef) (name : String) :
    s.place? r name = s.plain.place? r name := by
  rw [place?, hs.placeWithin_plain, Scopes.place?, plain, Array.size_map]

/-- Names have the same values with an index and without. -/
theorem get?_plain (hs : s.InStep) (r : ScopeRef) (name : String) :
    s.get? r name = s.plain.get? r name := by
  unfold get? Scopes.get?
  rw [hs.place?_plain]
  cases s.plain.place? r name with
  | none => rfl
  | some place => exact congrArg (Option.map Binding.value) (binding?_plain ..).symm

/-- An assignment is refused for the same reason as without an index, and then nothing has changed;
or it comes to the same. -/
theorem assign_plain (hs : s.InStep) (r : ScopeRef) (name : String) (v : α) :
    match s.plain.assign r name v with
    | .error e => s.assign r name v = (.error e, s)
    | .ok t => ∃ s', s.assign r name v = (.ok (), s') ∧ s'.InStep ∧ s'.plain = t := by
  unfold Scopes.assign Scopes.target IndexedScopes.assign
  rw [hs.place?_plain]
  cases s.plain.place? r name with
  | none => rfl
  | some place =>
    simp only [binding?_plain]
    cases (s.binding? place.1 place.2).any Binding.constant with
    | true => rfl
    | false => exact ⟨_, rfl, hs.modify fun _ hf => hf.update _ v, plain_modify fun _ _ => rfl⟩

/-- Whatever is done to a scope comes to the same, and leaves the indices in step. -/
theorem act (hs : s.InStep) (r : ScopeRef) (a : Scopes.Action α) :
    (s.act r a).InStep ∧ (s.act r a).plain = s.plain.act r a := by
  cases a with
  | child => exact ⟨hs.push (some r), Array.map_push⟩
  | define name v constant =>
    have hplain : plain (Array.modify s r.index fun f => f.define name v constant) =
        s.plain.define r name v constant :=
      plain_modify fun f hf => (hs r f hf).plain_define name v constant
    exact ⟨hs.modify fun _ hf => hf.define name v constant, hplain⟩
  | assign name v =>
    have hassign := hs.assign_plain r name v
    unfold IndexedScopes.act Scopes.act
    split at hassign
    next e hresult => simpa [hresult, hassign] using hs
    next t hresult =>
      obtain ⟨s', hs', hstep, hplain⟩ := hassign
      simp only [hresult, hs']
      exact ⟨hstep, hplain⟩
  | clear => exact ⟨hs.modify fun f _ => .empty f.parent, plain_modify fun _ _ => rfl⟩

end InStep

end IndexedScopes

end ScriptEngine
