import Mathlib.Data.Fintype.Card
import ScriptEngine.Scope.Basic

/-!
# Looking outward

A name is looked for in a frame and then in the frames around it. The number of frames that a
successful search passes is determined by where it begins, so it meets no frame twice and needs no
more steps than there are frames: the bound on the search never cuts one off.
-/
namespace ScriptEngine

variable {α : Type}

namespace Frame

variable {f : Frame α} {name : String}

/-! The names of a frame -/

theorem slot?_eq_none_iff : f.slot? name = none ↔ name ∉ f.names := by
  simp [slot?, names, Array.findIdx?_eq_none_iff]

theorem mem_names_of_slot? {i : Nat} (h : f.slot? name = some i) : name ∈ f.names := by
  by_contra hnone
  rw [slot?_eq_none_iff.2 hnone] at h
  cases h

theorem binding_of_slot? {i : Nat} (h : f.slot? name = some i) :
    ∃ b : Binding α, f.bindings[i]? = some b ∧ b.name = name := by
  obtain ⟨hi, hname, -⟩ := Array.findIdx?_eq_some_iff_getElem.1 h
  exact ⟨f.bindings[i], Array.getElem?_eq_getElem hi, eq_of_beq hname⟩

@[simp]
theorem slot?_empty (parent : Option ScopeRef) (name : String) :
    (⟨#[], parent⟩ : Frame α).slot? name = none := by
  simp [slot?]

/-- A name that is new comes behind the others. -/
theorem names_define (f : Frame α) (name : String) (v : α) (constant : Bool) :
    (f.define name v constant).names =
      if name ∈ f.names then f.names else f.names ++ [name] := by
  unfold define
  cases hslot : f.slot? name with
  | some i =>
    obtain ⟨hi, hname, -⟩ := Array.findIdx?_eq_some_iff_getElem.1 hslot
    rw [if_pos (mem_names_of_slot? hslot)]
    refine List.ext_getElem? fun k => ?_
    by_cases hk : i = k
    · subst hk
      simp [names, hi, eq_of_beq hname]
    · simp [names, hk]
  | none =>
    rw [if_neg (slot?_eq_none_iff.1 hslot)]
    simp [names]

theorem names_update (f : Frame α) (i : Nat) (v : α) : (f.update i v).names = f.names := by
  refine List.ext_getElem? fun k => ?_
  simp only [names, update, Array.toList_modify, List.getElem?_map, List.getElem?_modify]
  cases f.bindings.toList[k]? with
  | none => rfl
  | some b => by_cases hk : i = k <;> simp [hk]

@[simp]
theorem parent_define (f : Frame α) (name : String) (v : α) (constant : Bool) :
    (f.define name v constant).parent = f.parent := by
  unfold define
  split <;> rfl

end Frame

namespace Scopes

variable {s : Scopes α} {name : String}

/-- The nearest binding of a name as seen from a scope, `k` frames outward. -/
inductive Finds (s : Scopes α) (name : String) : Nat → ScopeRef → ScopeRef × Nat → Prop
  | here {r : ScopeRef} {f : Frame α} {i : Nat} (hf : s.frame? r = some f)
      (hi : f.slot? name = some i) : Finds s name 0 r (r, i)
  | outer {r p : ScopeRef} {f : Frame α} {k : Nat} {place : ScopeRef × Nat}
      (hf : s.frame? r = some f) (hi : f.slot? name = none) (hp : f.parent = some p)
      (h : Finds s name k p place) : Finds s name (k + 1) r place

theorem placeWithin_eq_some_iff {n : Nat} {r : ScopeRef} {place : ScopeRef × Nat} :
    s.placeWithin name n r = some place ↔ ∃ k < n, s.Finds name k r place := by
  induction n generalizing r with
  | zero => simp [placeWithin]
  | succ n ih =>
    constructor
    · intro h
      rw [placeWithin] at h
      split at h
      next => cases h
      next f hf =>
        split at h
        next i hi =>
          cases h
          exact ⟨0, by omega, .here hf hi⟩
        next hi =>
          split at h
          next => cases h
          next p hp =>
            obtain ⟨k, hk, hfinds⟩ := ih.1 h
            exact ⟨k + 1, by omega, .outer hf hi hp hfinds⟩
    · rintro ⟨k, hk, hfinds⟩
      have hframe {f : Frame α} (hf : s.frame? r = some f) : s[r.index]? = some f := hf
      cases hfinds with
      | here hf hi => simp [placeWithin, hframe hf, hi]
      | outer hf hi hp h =>
        have := ih.2 ⟨_, by omega, h⟩
        simpa [placeWithin, hframe hf, hi, hp] using this

/-- A search ends in a frame that binds the name, and otherwise goes on around it. -/
theorem finds_iff {r : ScopeRef} {f : Frame α} {k : Nat} {place : ScopeRef × Nat}
    (hf : s.frame? r = some f) :
    s.Finds name k r place ↔
      (∃ i, f.slot? name = some i ∧ k = 0 ∧ place = (r, i)) ∨
        f.slot? name = none ∧ ∃ p l, f.parent = some p ∧ k = l + 1 ∧ s.Finds name l p place := by
  constructor
  · intro h
    cases h with
    | here hf' hi =>
      obtain rfl := Option.some.inj (hf.symm.trans hf')
      exact .inl ⟨_, hi, rfl, rfl⟩
    | outer hf' hi hp h =>
      obtain rfl := Option.some.inj (hf.symm.trans hf')
      exact .inr ⟨hi, _, _, hp, rfl, h⟩
  · rintro (⟨i, hi, rfl, rfl⟩ | ⟨hi, p, l, hp, rfl, h⟩)
    · exact .here hf hi
    · exact .outer hf hi hp h

namespace Finds

theorem steps_unique {k l : Nat} {r : ScopeRef} {place place' : ScopeRef × Nat}
    (h : s.Finds name k r place) (h' : s.Finds name l r place') : k = l := by
  induction h generalizing l place' with
  | here hf hi =>
    rcases (finds_iff hf).1 h' with ⟨_, -, rfl, -⟩ | ⟨hnone, -⟩
    · rfl
    · simp [hi] at hnone
  | outer hf hi hp _ ih =>
    rcases (finds_iff hf).1 h' with ⟨_, hi', -⟩ | ⟨-, p', l, hp', rfl, h'⟩
    · simp [hi] at hi'
    · obtain rfl := Option.some.inj (hp.symm.trans hp')
      rw [ih h']

/-- A search passes a frame for every smaller number of steps. -/
theorem exists_passed {k : Nat} {r : ScopeRef} {place : ScopeRef × Nat}
    (h : s.Finds name k r place) (j : Nat) (hj : j ≤ k) : ∃ r', s.Finds name j r' place := by
  induction h with
  | @here r f i hf hi =>
    obtain rfl := Nat.le_zero.1 hj
    exact ⟨r, .here hf hi⟩
  | @outer r p f k place hf hi hp h ih =>
    rcases Nat.le_succ_iff.1 hj with hj | rfl
    · exact ih hj
    · exact ⟨r, .outer hf hi hp h⟩

theorem index_lt {k : Nat} {r : ScopeRef} {place : ScopeRef × Nat}
    (h : s.Finds name k r place) : r.index < s.size := by
  cases h with
  | here hf | outer hf => exact (Array.getElem?_eq_some_iff.1 hf).1

/-- The frames that a search passes are all different, as each is a different number of steps away
from its end. -/
theorem steps_lt {k : Nat} {r : ScopeRef} {place : ScopeRef × Nat}
    (h : s.Finds name k r place) : k < s.size := by
  choose passed hpassed using fun j : Fin (k + 1) => h.exists_passed j.1 (by omega)
  have hinj : Function.Injective fun j => (⟨(passed j).index, (hpassed j).index_lt⟩ :
      Fin s.size) := by
    intro i j hij
    have hsame : passed i = passed j := congrArg ScopeRef.mk (congrArg Fin.val hij)
    exact Fin.ext ((hpassed i).steps_unique (hsame ▸ hpassed j))
  simpa [Nat.succ_le_iff] using Fintype.card_le_of_injective _ hinj

end Finds

theorem place?_eq_some_iff {r : ScopeRef} {place : ScopeRef × Nat} :
    s.place? r name = some place ↔ ∃ k, s.Finds name k r place := by
  rw [place?, placeWithin_eq_some_iff]
  exact ⟨fun ⟨k, _, h⟩ => ⟨k, h⟩, fun ⟨k, h⟩ => ⟨k, h.steps_lt, h⟩⟩

/-- The frame that a search ends at binds the name. -/
theorem exists_frame_of_place? {r : ScopeRef} {place : ScopeRef × Nat}
    (h : s.place? r name = some place) :
    ∃ f, s.frame? place.1 = some f ∧ f.slot? name = some place.2 := by
  obtain ⟨k, hfinds⟩ := place?_eq_some_iff.1 h
  clear h
  induction hfinds with
  | here hf hi => exact ⟨_, hf, hi⟩
  | outer _ _ _ _ ih => exact ih

variable {r p : ScopeRef} {f : Frame α}

/-- A name that a frame binds is found there. -/
theorem place?_of_slot {i : Nat} (hf : s.frame? r = some f) (hi : f.slot? name = some i) :
    s.place? r name = some (r, i) :=
  place?_eq_some_iff.2 ⟨0, .here hf hi⟩

/-- A name that a frame does not bind is the one of the scope around it. -/
theorem place?_outer (hf : s.frame? r = some f) (hi : f.slot? name = none)
    (hp : f.parent = some p) : s.place? r name = s.place? p name := by
  refine Option.ext fun place => ?_
  rw [place?_eq_some_iff, place?_eq_some_iff]
  constructor
  · rintro ⟨k, h⟩
    rcases (finds_iff hf).1 h with ⟨_, hi', -⟩ | ⟨-, p', l, hp', rfl, h⟩
    · simp [hi] at hi'
    · obtain rfl := Option.some.inj (hp.symm.trans hp')
      exact ⟨l, h⟩
  · rintro ⟨k, h⟩
    exact ⟨k + 1, .outer hf hi hp h⟩

theorem get?_of_slot {i : Nat} {b : Binding α} (hf : s.frame? r = some f)
    (hi : f.slot? name = some i) (hb : f.bindings[i]? = some b) : s.get? r name = some b.value := by
  simp [get?, place?_of_slot hf hi, binding?, hf, hb]

theorem get?_outer (hf : s.frame? r = some f) (hi : f.slot? name = none) (hp : f.parent = some p) :
    s.get? r name = s.get? p name := by
  rw [get?, get?, place?_outer hf hi hp]

/-- A name that the outermost frame does not bind is not seen from there. -/
theorem place?_outermost (hf : s.frame? r = some f) (hi : f.slot? name = none)
    (hp : f.parent = none) : s.place? r name = none := by
  refine Option.eq_none_iff_forall_ne_some.2 fun place h => ?_
  obtain ⟨k, h⟩ := place?_eq_some_iff.1 h
  rcases (finds_iff hf).1 h with ⟨_, hi', -⟩ | ⟨-, p, _, hp', -⟩
  · simp [hi] at hi'
  · simp [hp] at hp'

theorem get?_outermost (hf : s.frame? r = some f) (hi : f.slot? name = none)
    (hp : f.parent = none) : s.get? r name = none := by
  rw [get?, place?_outermost hf hi hp]

/-- A scope lies inside another one, with no frame up to that one that binds one of some names. -/
inductive Inside (names : List String) (s : Scopes α) (b : ScopeRef) : ScopeRef → Prop
  | here : Inside names s b b
  | within {r p : ScopeRef} {f : Frame α} (hf : s.frame? r = some f)
      (hnames : ∀ name ∈ names, f.slot? name = none) (hp : f.parent = some p)
      (h : Inside names s b p) : Inside names s b r

/-- Names that no frame in between binds are seen as from the scope that lies around. -/
theorem Inside.get?_eq {names : List String} {b : ScopeRef} (h : s.Inside names b r)
    (hname : name ∈ names) : s.get? r name = s.get? b name := by
  induction h with
  | here => rfl
  | within hf hnames hp _ ih => rw [get?_outer hf (hnames name hname) hp, ih]

/-- A further frame leaves the others in place. -/
theorem frame?_push (g : Frame α) (h : s.frame? r = some f) :
    Scopes.frame? (s.push g) r = some f := by
  have hr := (Array.getElem?_eq_some_iff.1 h).1
  simpa [frame?, Array.getElem?_push, Nat.ne_of_lt hr] using h

theorem frame?_push_new (s : Scopes α) (g : Frame α) :
    Scopes.frame? (s.push g) ⟨s.size⟩ = some g := by
  simp [frame?]

/-- Defining a name in a fresh frame. -/
theorem define_child (s : Scopes α) (p : ScopeRef) (name : String) (v : α) (constant : Bool) :
    Scopes.define (s.child p).2 (s.child p).1 name v constant =
      s.push ⟨#[⟨name, v, constant⟩], some p⟩ := by
  refine Array.ext_getElem? fun k => ?_
  simp only [define, child, Array.getElem?_modify, Array.getElem?_push]
  by_cases hk : k = s.size
  · simp [hk, Frame.define]
  · simp [hk, Ne.symm hk]

/-- More frames make no difference to those that are there. -/
theorem Inside.mono {names : List String} {t : Scopes α} {b : ScopeRef} (h : s.Inside names b r)
    (hframes : ∀ r f, s.frame? r = some f → t.frame? r = some f) : t.Inside names b r := by
  induction h with
  | here => exact .here
  | within hf hnames hp _ ih => exact .within (hframes _ _ hf) hnames hp ih

/-- A fresh scope inside one that lies inside lies inside, too. -/
theorem Inside.child {names : List String} {b : ScopeRef} (h : s.Inside names b r) :
    Scopes.Inside names (s.child r).2 b ⟨s.size⟩ :=
  .within (frame?_push_new s _) (fun _ _ => Frame.slot?_empty ..) rfl
    (h.mono fun _ _ hf => frame?_push _ hf)

/-- Changes of frames that bind none of the names anew leave a scope where it is. -/
theorem Inside.modify {names : List String} {b : ScopeRef} (h : s.Inside names b r) (i : Nat)
    {change : Frame α → Frame α} (hparent : ∀ f, (change f).parent = f.parent)
    (hslot : ∀ f, ∀ name ∈ names, f.slot? name = none → (change f).slot? name = none) :
    Scopes.Inside names (s.modify i change) b r := by
  induction h with
  | here => exact .here
  | @within r p f hf hnames hp _ ih =>
    have hf' : Scopes.frame? (s.modify i change) r =
        some (if i = r.index then change f else f) := by
      rw [frame?] at hf ⊢
      rw [Array.getElem?_modify, hf]
      split <;> rfl
    refine .within hf' (fun name hname => ?_) ?_ ih
    · split
      · exact hslot f name hname (hnames name hname)
      · exact hnames name hname
    · split
      · exact (hparent f).trans hp
      · exact hp

/-- A scope stays inside when another name is defined anywhere. -/
theorem Inside.define {names : List String} {b : ScopeRef} (h : s.Inside names b r)
    (hname : name ∉ names) (place : ScopeRef) (v : α) (constant : Bool) :
    (s.define place name v constant).Inside names b r := by
  refine h.modify _ (fun f => f.parent_define ..) fun f other hother hnone => ?_
  have hne : other ≠ name := ne_of_mem_of_not_mem hother hname
  rw [Frame.slot?_eq_none_iff] at hnone ⊢
  rw [Frame.names_define]
  split
  · exact hnone
  · simp [hnone, hne]

/-- A scope stays inside whatever is assigned. -/
theorem Inside.put {names : List String} {b : ScopeRef} (h : s.Inside names b r)
    (place : ScopeRef × Nat) (v : α) : (s.put place v).Inside names b r := by
  refine h.modify _ (fun _ => rfl) fun f other _ hnone => ?_
  rwa [Frame.slot?_eq_none_iff, Frame.names_update, ← Frame.slot?_eq_none_iff]

end Scopes

end ScriptEngine
