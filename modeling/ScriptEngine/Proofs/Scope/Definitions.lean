import ScriptEngine.Proofs.Scope.Outward

/-!
# Definitions in a row

A frame is an ordered map: a definition replaces the binding of its name in its place, or comes
behind all others, and no other name notices. So of several definitions of one name the first one
decides on the place and the last one on the value.
-/
namespace ScriptEngine

variable {α : Type}

namespace Frame

variable {f : Frame α} {name : String}

/-- The binding of a name in this very frame. -/
def binding? (f : Frame α) (name : String) : Option (Binding α) :=
  (f.slot? name).bind fun i => f.bindings[i]?

theorem slot?_eq_findIdx? (f : Frame α) (name : String) :
    f.slot? name = f.names.findIdx? (· == name) := by
  obtain ⟨⟨bindings⟩, parent⟩ := f
  rw [names, List.findIdx?_map, slot?, List.findIdx?_toArray]
  rfl

/-- A name that was defined is found in its frame, with what it was defined as. -/
theorem slot?_define (f : Frame α) (name : String) (v : α) (constant : Bool) :
    ∃ i, (f.define name v constant).slot? name = some i ∧
      (f.define name v constant).bindings[i]? = some ⟨name, v, constant⟩ := by
  cases hslot : f.slot? name with
  | some i =>
    obtain ⟨hi, -, hbefore⟩ := Array.findIdx?_eq_some_iff_getElem.1 hslot
    have hdefine : f.define name v constant =
        { f with bindings := f.bindings.setIfInBounds i ⟨name, v, constant⟩ } := by
      simp [define, hslot]
    rw [hdefine]
    refine ⟨i, Array.findIdx?_eq_some_iff_getElem.2 ⟨by simpa using hi, by simp, ?_⟩, by simp [hi]⟩
    intro j hj
    rw [Array.getElem_setIfInBounds_ne (Nat.lt_trans hj hi) (Nat.ne_of_gt hj)]
    exact hbefore j hj
  | none =>
    have hnone := Array.findIdx?_eq_none_iff.1 hslot
    have hdefine : f.define name v constant =
        { f with bindings := f.bindings.push ⟨name, v, constant⟩ } := by
      simp [define, hslot]
    rw [hdefine]
    refine ⟨f.bindings.size, Array.findIdx?_eq_some_iff_getElem.2 ⟨by simp, by simp, ?_⟩, by simp⟩
    intro j hj
    rw [Array.getElem_push_lt hj]
    exact Bool.not_eq_true _ ▸ hnone f.bindings[j] (Array.getElem_mem hj)

theorem slot?_define_of_ne {other : String} (h : other ≠ name) (v : α) (constant : Bool) :
    (f.define name v constant).slot? other = f.slot? other := by
  rw [slot?_eq_findIdx?, slot?_eq_findIdx?, names_define]
  split
  · rfl
  · rw [List.findIdx?_append]
    simp [h.symm]

/-- A definition gives its name the binding, and all other names keep theirs. -/
theorem binding?_define (f : Frame α) (name other : String) (v : α) (constant : Bool) :
    (f.define name v constant).binding? other =
      if other = name then some ⟨name, v, constant⟩ else f.binding? other := by
  split
  next h =>
    subst h
    obtain ⟨i, hslot, hbinding⟩ := slot?_define f other v constant
    simp [binding?, hslot, hbinding]
  next h =>
    rw [binding?, binding?, slot?_define_of_ne h]
    cases hslot : f.slot? other with
    | none => rfl
    | some i =>
      obtain ⟨hi, hname, -⟩ := Array.findIdx?_eq_some_iff_getElem.1 hslot
      change (f.define name v constant).bindings[i]? = f.bindings[i]?
      unfold define
      split
      next j hj =>
        obtain ⟨hlt, hname', -⟩ := Array.findIdx?_eq_some_iff_getElem.1 hj
        have hne : j ≠ i := by
          rintro rfl
          exact h ((eq_of_beq hname).symm.trans (eq_of_beq hname'))
        simp [hne]
      next => simp [Array.getElem?_push, Nat.ne_of_lt hi]

/-- Defines names one after the other. -/
def defineAll (f : Frame α) (constant : Bool) (bs : List (String × α)) : Frame α :=
  bs.foldl (fun f b => f.define b.1 b.2 constant) f

theorem parent_defineAll (f : Frame α) (constant : Bool) (bs : List (String × α)) :
    (f.defineAll constant bs).parent = f.parent := by
  induction bs generalizing f with
  | nil => rfl
  | cons b rest ih => exact (ih _).trans (parent_define ..)

/-- Names that come behind others unless they are among them. -/
def addName (names : List String) (name : String) : List String :=
  if name ∈ names then names else names ++ [name]

theorem mem_foldl_addName (name : String) (added names : List String) :
    name ∈ added.foldl addName names ↔ name ∈ names ∨ name ∈ added := by
  induction added generalizing names with
  | nil => simp
  | cons n rest ih =>
    have hadd : name ∈ addName names n ↔ name ∈ names ∨ name = n := by
      unfold addName
      split
      next hmem => exact ⟨.inl, fun h => h.elim id fun heq => heq ▸ hmem⟩
      next => simp
    rw [List.foldl_cons, ih, hadd, List.mem_cons, or_assoc]

/-- A name has its place from its first definition. -/
theorem names_defineAll (f : Frame α) (constant : Bool) (bs : List (String × α)) :
    (f.defineAll constant bs).names = (bs.map Prod.fst).foldl addName f.names := by
  induction bs generalizing f with
  | nil => rfl
  | cons b rest ih => rw [defineAll, List.foldl_cons, ← defineAll, ih, names_define]; rfl

theorem lookup_reverse_cons (name : String) (b : String × α) (rest : List (String × α)) :
    (b :: rest).reverse.lookup name =
      (rest.reverse.lookup name).or (if name = b.1 then some b.2 else none) := by
  rw [List.reverse_cons, List.lookup_append, List.lookup_cons, List.lookup_nil]
  by_cases h : name = b.1
  · simp [h]
  · simp [h, beq_false_of_ne h]

/-- A name has its value from its last definition. -/
theorem binding?_defineAll (f : Frame α) (constant : Bool) (bs : List (String × α))
    (name : String) :
    (f.defineAll constant bs).binding? name =
      match bs.reverse.lookup name with
      | some v => some ⟨name, v, constant⟩
      | none => f.binding? name := by
  induction bs generalizing f with
  | nil => rfl
  | cons b rest ih =>
    rw [defineAll, List.foldl_cons, ← defineAll, ih, lookup_reverse_cons, binding?_define]
    cases rest.reverse.lookup name with
    | some v => rfl
    | none => by_cases h : name = b.1 <;> simp [h]

end Frame

namespace Scopes

variable {s : Scopes α} {r : ScopeRef}

/-- Defines names in one scope, one after the other. -/
def defineAll (s : Scopes α) (r : ScopeRef) (constant : Bool) (bs : List (String × α)) : Scopes α :=
  bs.foldl (fun s b => s.define r b.1 b.2 constant) s

theorem defineAll_append (s : Scopes α) (r : ScopeRef) (constant : Bool)
    (bs bs' : List (String × α)) :
    s.defineAll r constant (bs ++ bs') = (s.defineAll r constant bs).defineAll r constant bs' :=
  List.foldl_append

theorem frame?_child (s : Scopes α) (r : ScopeRef) :
    Scopes.frame? (s.child r).2 ⟨s.size⟩ = some ⟨#[], some r⟩ := by
  simp [frame?, child]

theorem frame?_modify (s : Scopes α) (r r' : ScopeRef) (change : Frame α → Frame α) :
    Scopes.frame? (s.modify r.index change) r' =
      if r' = r then (s.frame? r).map change else s.frame? r' := by
  rw [frame?, Array.getElem?_modify]
  by_cases h : r' = r
  · simp [h, frame?]
  · have hne : r.index ≠ r'.index := fun heq => h (by cases r; cases r'; cases heq; rfl)
    simp [h, hne, frame?]

theorem frame?_define (s : Scopes α) (r r' : ScopeRef) (name : String) (v : α) (constant : Bool) :
    (s.define r name v constant).frame? r' =
      if r' = r then (s.frame? r).map fun f => f.define name v constant else s.frame? r' :=
  frame?_modify s r r' _

/-- A scope sees what was defined in it. -/
theorem get?_define (hr : r.index < s.size) (name : String) (v : α) (constant : Bool) :
    (s.define r name v constant).get? r name = some v := by
  obtain ⟨i, hslot, hbinding⟩ := Frame.slot?_define s[r.index] name v constant
  have hframe : (s.define r name v constant).frame? r =
      some (s[r.index].define name v constant) := by
    rw [frame?_define, if_pos rfl, frame?, Array.getElem?_eq_getElem hr]
    rfl
  exact get?_of_slot hframe hslot hbinding

/-- Only the frame of the scope changes, and that as a frame does. -/
theorem frame?_defineAll (s : Scopes α) (r r' : ScopeRef) (constant : Bool)
    (bs : List (String × α)) :
    (s.defineAll r constant bs).frame? r' =
      if r' = r then (s.frame? r).map fun f => f.defineAll constant bs else s.frame? r' := by
  induction bs generalizing s with
  | nil => by_cases h : r' = r <;> simp [defineAll, Frame.defineAll, h]
  | cons b rest ih =>
    rw [defineAll, List.foldl_cons, ← defineAll, ih, frame?_define, frame?_define]
    by_cases h : r' = r
    · simp [h, Frame.defineAll, Function.comp_def]
    · simp [h]

end Scopes

end ScriptEngine
