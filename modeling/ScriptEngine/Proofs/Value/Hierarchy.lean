import ScriptEngine.Machine.Basic
import ScriptEngine.Proofs.Scope.Outward

/-!
# Hierarchies of classes

A class stands at the end of a chain of classes, each the parent of the one before it. Instances use
what the nearest class of the chain has under a name. The methods of a class that extends another
one live in a scope that binds the parent, and a method is bound to an instance by a frame inside
the scope of the method.
-/
namespace ScriptEngine

namespace Class

def parent : Class → Option Class
  | mk _ _ parent .. => parent

/-- The methods that the class itself declares, the last declared first. -/
def methods : Class → List (String × Method)
  | mk _ _ _ methods _ => methods

/-- The built-in methods that the class itself has. -/
def natives : Class → List Native
  | mk _ _ _ _ natives => natives

/-- The class, its parent, the parent of that one and so on. -/
def chain : Class → List Class
  | c@(mk _ _ parent _ _) =>
    c ::
      match parent with
      | none => []
      | some p => chain p

/-- The nearest class that declares a method of this name, with the last one it declares. -/
def nearest? (name : String) (c : Class) : Option (Class × Method) :=
  c.chain.findSome? fun d => (d.methods.lookup name).map (d, ·)

/-- The built-in method of this name of the nearest class that has one. -/
def nearestNative? (name : String) (c : Class) : Option Native :=
  c.chain.findSome? fun d => Native.named? d.natives name

section

variable (id : Nat) (name : String) (parent : Option Class) (methods : List (String × Method))
  (natives : List Native)

@[simp]
theorem parent_mk : (mk id name parent methods natives).parent = parent := rfl

@[simp]
theorem methods_mk : (mk id name parent methods natives).methods = methods := rfl

@[simp]
theorem natives_mk : (mk id name parent methods natives).natives = natives := rfl

@[simp]
theorem chain_mk :
    (mk id name parent methods natives).chain =
      mk id name parent methods natives :: parent.elim [] chain := by
  cases parent <;> simp [chain]

end

/-- Instances use the nearest method of a name. -/
theorem method?_eq_nearest? (name : String) : ∀ c : Class,
    c.method? name = (c.nearest? name).map Prod.snd
  | mk _ _ parent methods _ => by
    unfold method?
    rw [nearest?, chain_mk, List.findSome?_cons, methods_mk]
    cases h : methods.lookup name with
    | some m => rfl
    | none =>
      cases parent with
      | none => rfl
      | some p => exact method?_eq_nearest? name p

/-- Instances use the nearest built-in method of a name. -/
theorem native?_eq_nearestNative? (name : String) : ∀ c : Class,
    c.native? name = c.nearestNative? name
  | mk _ _ parent _ natives => by
    unfold native?
    rw [nearestNative?, chain_mk, List.findSome?_cons, natives_mk]
    cases h : Native.named? natives name with
    | some n => rfl
    | none =>
      cases parent with
      | none => rfl
      | some p => exact native?_eq_nearestNative? name p

end Class

/-- The last function of a name among the methods that a class body lists. -/
theorem lookup_declared_iff (decls : List Function) (scope : ScopeRef) {name : String}
    {method : Method} :
    (decls.reverse.map fun f => (f.name, (⟨f, scope⟩ : Method))).lookup name = some method ↔
      ∃ before decl after, decls = before ++ decl :: after ∧ decl.name = name ∧
        (∀ f ∈ after, f.name ≠ name) ∧ method = ⟨decl, scope⟩ := by
  constructor
  · intro h
    obtain ⟨front, back, hsplit, hfront⟩ := List.lookup_eq_some_iff.1 h
    obtain ⟨after, rest, hdecls, rfl, hrest⟩ := List.map_eq_append_iff.1 hsplit
    obtain ⟨decl, before, rfl, hdecl, rfl⟩ := List.map_eq_cons_iff.1 hrest
    cases hdecl
    have hsplit : decls = before.reverse ++ decl :: after.reverse := by
      simpa using congrArg List.reverse hdecls
    refine ⟨before.reverse, decl, after.reverse, hsplit, rfl, fun f hf hname => ?_, rfl⟩
    have hne := hfront _ (List.mem_map_of_mem (List.mem_reverse.1 hf))
    simp [hname] at hne
  · rintro ⟨before, decl, after, rfl, rfl, hafter, rfl⟩
    refine List.lookup_eq_some_iff.2 ⟨after.reverse.map fun f => (f.name, ⟨f, scope⟩),
      before.reverse.map fun f => (f.name, ⟨f, scope⟩), by simp, fun e he => ?_⟩
    obtain ⟨f, hf, rfl⟩ := List.mem_map.1 he
    simpa using Ne.symm (hafter f (List.mem_reverse.1 hf))

namespace Scopes

/-- The scope of the methods of a class that extends another one: a frame that binds the other class
and nothing else. -/
structure KnowsSuper (s : Scopes Value) (q : ScopeRef) (parent : Class) : Prop where
  inner : q ≠ .global
  frame : ∃ outer, s.frame? q = some ⟨#[⟨"super", .type parent, false⟩], outer⟩

/-- A frame that binds the value that a method has been read from, and nothing else, inside the
scope of the method. -/
structure Binds (s : Scopes Value) (b : ScopeRef) (this : Value) (q : ScopeRef) : Prop where
  inner : b ≠ .global
  frame : s.frame? b = some ⟨#[⟨"this", this, false⟩], some q⟩

/-- A scope in the body of a method that has been bound by a frame, in which the method has not been
given other values for its receiver and the class above. -/
abbrev InMethod (s : Scopes Value) (b r : ScopeRef) : Prop := s.Inside ["this", "super"] b r

/-- A scope for statements: none of the frames of methods, which bind `this` or `super`. -/
def Receptive (s : Scopes Value) (r : ScopeRef) : Prop :=
  ∀ f, s.frame? r = some f → f.slot? "this" = none ∧ f.slot? "super" = none

variable {s t : Scopes Value} {b q r : ScopeRef} {v : Value} {p : Class}

theorem KnowsSuper.get? (h : s.KnowsSuper q p) : s.get? q "super" = some (.type p) := by
  obtain ⟨outer, hf⟩ := h.frame
  exact get?_of_slot hf (i := 0) (by simp [Frame.slot?]) rfl

theorem Binds.this (h : s.Binds b v q) (hr : s.InMethod b r) : s.get? r "this" = some v := by
  rw [hr.get?_eq (by simp)]
  exact get?_of_slot h.frame (i := 0) (by simp [Frame.slot?]) rfl

/-- A method sees the class above through the scope that it was declared in. -/
theorem Binds.super (h : s.Binds b v q) (hr : s.InMethod b r) :
    s.get? r "super" = s.get? q "super" := by
  rw [hr.get?_eq (by simp)]
  exact get?_outer h.frame (by simp [Frame.slot?]) rfl

/-- What has been set up for methods is still there. -/
structure KeepsMethods (s t : Scopes Value) : Prop where
  binds : ∀ {b v q}, s.Binds b v q → t.Binds b v q
  knows : ∀ {q p}, s.KnowsSuper q p → t.KnowsSuper q p

theorem KeepsMethods.of_frames
    (h : ∀ r name v outer, r ≠ .global → name = "this" ∨ name = "super" →
      s.frame? r = some ⟨#[⟨name, v, false⟩], outer⟩ →
      t.frame? r = some ⟨#[⟨name, v, false⟩], outer⟩) : s.KeepsMethods t where
  binds hb := ⟨hb.inner, h _ _ _ _ hb.inner (.inl rfl) hb.frame⟩
  knows hq := ⟨hq.inner, hq.frame.imp fun _ hf => h _ _ _ _ hq.inner (.inr rfl) hf⟩

theorem KeepsMethods.trans {u : Scopes Value} (h : s.KeepsMethods t) (h' : t.KeepsMethods u) :
    s.KeepsMethods u :=
  ⟨fun hb => h'.binds (h.binds hb), fun hq => h'.knows (h.knows hq)⟩

theorem KeepsMethods.push (s : Scopes Value) (g : Frame Value) :
    s.KeepsMethods (s.push g) :=
  .of_frames fun _ _ _ _ _ _ hf => frame?_push g hf

end Scopes

/-- A class as a declaration leaves it, and its ancestors likewise: the scope of its methods binds
its parent, if it has one. -/
def Class.Declared (s : Scopes Value) (c : Class) : Prop :=
  ∀ d ∈ c.chain, ∀ p, d.parent = some p → ∀ e ∈ d.methods, s.KnowsSuper e.2.scope p

namespace Class

variable {s t : Scopes Value} {c d : Class} {name : String} {method : Method}

theorem Declared.mono (h : c.Declared s) (hst : s.KeepsMethods t) : c.Declared t :=
  fun d hd p hp e he => hst.knows (h d hd p hp e he)

/-- The chain of an ancestor is the end of the chain. -/
theorem chain_suffix_of_mem : ∀ {c : Class}, d ∈ c.chain → d.chain <:+ c.chain
  | mk id name parent methods natives, h => by
    rw [chain_mk] at h
    rcases List.mem_cons.1 h with rfl | h
    · exact List.suffix_refl _
    · cases parent with
      | none => cases h
      | some p =>
        have hp : d.chain <:+ p.chain := chain_suffix_of_mem h
        exact hp.trans (by simp)

theorem parent_mem_chain {p : Class} (hp : d.parent = some p) : p.chain <:+ d.chain := by
  cases d with
  | mk id name parent methods natives =>
    obtain rfl : parent = some p := hp
    simp

/-- The ancestors of a class that has been declared have been declared. -/
theorem Declared.parent {p : Class} (h : c.Declared s) (hd : d ∈ c.chain)
    (hp : d.parent = some p) : p.Declared s :=
  fun e he => h e ((chain_suffix_of_mem hd).subset ((parent_mem_chain hp).subset he))

theorem mem_chain_of_nearest? (h : c.nearest? name = some (d, method)) :
    d ∈ c.chain ∧ (name, method) ∈ d.methods := by
  obtain ⟨e, he, hmethod⟩ := List.exists_of_findSome?_eq_some h
  obtain ⟨m, hm, heq⟩ := Option.map_eq_some_iff.1 hmethod
  cases heq
  obtain ⟨front, back, hsplit, -⟩ := List.lookup_eq_some_iff.1 hm
  exact ⟨he, hsplit ▸ List.mem_append_right _ List.mem_cons_self⟩

end Class

end ScriptEngine
