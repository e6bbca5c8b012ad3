import ScriptEngine.Proofs.Scope.Indexed

/-!
# Trees of scopes

A table that has grown from one scope is a tree: every scope but the first lies inside an older
one, so its chain outward ends. Each frame is an ordered map, whose names stand in the order in
which they were first defined since it was cleared last. A name is looked for along the chain, and
an assignment changes the value that is found first, or is refused and changes nothing.
-/
namespace ScriptEngine

variable {α : Type}

/-- The table that actions have led to from a single scope, each on a scope that was there, the
latest first. -/
inductive Scopes.Reached : List (ScopeRef × Action α) → Scopes α → Prop
  | root : Reached [] root
  | act {past : List (ScopeRef × Action α)} {s : Scopes α} {r : ScopeRef} (hs : Reached past s)
      (hr : r.index < s.size) (a : Action α) : Reached ((r, a) :: past) (s.act r a)

/-- The indexed table that actions have led to. -/
def IndexedScopes.after : List (ScopeRef × Scopes.Action α) → IndexedScopes α
  | [] => root
  | (r, a) :: past => (after past).act r a

/-- The names that were defined in a scope since it was cleared last, in that order. -/
def definedSince (r : ScopeRef) : List (ScopeRef × Scopes.Action α) → List String
  | [] => []
  | (r', .define name _ _) :: past =>
    if r' = r then definedSince r past ++ [name] else definedSince r past
  | (r', .clear) :: past => if r' = r then [] else definedSince r past
  | (_, .child) :: past | (_, .assign _ _) :: past => definedSince r past

namespace Frame

variable {f : Frame α} {name : String}

theorem slot?_update (f : Frame α) (i : Nat) (v : α) (name : String) :
    (f.update i v).slot? name = f.slot? name := by
  rw [slot?_eq_findIdx?, slot?_eq_findIdx?, names_update]

theorem binding?_eq_none_iff : f.binding? name = none ↔ name ∉ f.names := by
  rw [← slot?_eq_none_iff, binding?]
  cases hi : f.slot? name with
  | none => simp
  | some i =>
    obtain ⟨b, hb, -⟩ := binding_of_slot? hi
    simp [hb]

/-- A new value at the place of a name is one for that name and no other. -/
theorem binding?_update {i : Nat} (hi : f.slot? name = some i) (v : α) (other : String) :
    (f.update i v).binding? other =
      if other = name then (f.binding? other).map fun b => { b with value := v }
      else f.binding? other := by
  rw [binding?, binding?, slot?_update]
  cases hslot : f.slot? other with
  | none => simp
  | some j =>
    change (f.bindings.modify i fun b : Binding α => { b with value := v })[j]? =
      if other = name then f.bindings[j]?.map fun b => { b with value := v } else f.bindings[j]?
    rw [Array.getElem?_modify]
    by_cases hname : other = name
    · subst hname
      obtain rfl := Option.some.inj (hi.symm.trans hslot)
      simp
    · have hne : i ≠ j := by
        rintro rfl
        obtain ⟨b, hb, rfl⟩ := binding_of_slot? hi
        obtain ⟨c, hc, rfl⟩ := binding_of_slot? hslot
        obtain rfl := Option.some.inj (hb.symm.trans hc)
        exact hname rfl
      simp [hname, hne]

end Frame

theorem eraseDups_concat (names : List String) (name : String) :
    (names ++ [name]).eraseDups =
      if name ∈ names.eraseDups then names.eraseDups else names.eraseDups ++ [name] := by
  rw [List.eraseDups_append]
  by_cases h : name ∈ names <;> simp [List.removeAll, List.eraseDups_cons, h]

namespace Scopes

variable {s : Scopes α} {r : ScopeRef} {name : String}

/-- The scopes from one outward, up to one that has no other around it. -/
inductive Chain (s : Scopes α) : ScopeRef → List ScopeRef → Prop
  | outermost {r : ScopeRef} {f : Frame α} (hf : s.frame? r = some f) (hp : f.parent = none) :
      Chain s r [r]
  | within {r p : ScopeRef} {f : Frame α} {rs : List ScopeRef} (hf : s.frame? r = some f)
      (hp : f.parent = some p) (h : Chain s p rs) : Chain s r (r :: rs)

/-- The first of some scopes that binds a name, with the binding. -/
def nearest? (s : Scopes α) (rs : List ScopeRef) (name : String) :
    Option (ScopeRef × Binding α) :=
  rs.findSome? fun r => ((s.frame? r).bind fun f => f.binding? name).map fun b => (r, b)

/-- The second table differs from the first one in the value of one name in one frame. -/
structure Revalued (s t : Scopes α) (r : ScopeRef) (name : String) (v : α) : Prop where
  size : t.size = s.size
  frame (r' : ScopeRef) (f : Frame α) : s.frame? r' = some f →
    ∃ g, t.frame? r' = some g ∧ g.parent = f.parent ∧ g.names = f.names ∧
      ∀ other, g.binding? other =
        if r' = r ∧ other = name then (f.binding? other).map fun b => { b with value := v }
        else f.binding? other

/-- What every tree of scopes keeps. -/
structure Grown (past : List (ScopeRef × Action α)) (s : Scopes α) : Prop where
  outward : ∀ r f p, s.frame? r = some f → f.parent = some p → p.index < r.index
  names : ∀ r f, s.frame? r = some f → f.names = (definedSince r past).eraseDups
  unborn : ∀ r, s.size ≤ r.index → definedSince r past = []

theorem assign_of_none (h : s.place? r name = none) (v : α) :
    s.assign r name v = .error .undefined := by
  rw [assign, target, h]
  rfl

/-- An assignment goes to the place that a search finds, unless a constant stands there. -/
theorem assign_of_place {q : ScopeRef} {f : Frame α} {i : Nat} {b : Binding α}
    (h : s.place? r name = some (q, i)) (hf : s.frame? q = some f) (hb : f.bindings[i]? = some b)
    (v : α) :
    s.assign r name v = if b.constant then .error .constant else .ok (s.put (q, i) v) := by
  have hbinding : s.binding? q i = some b := by rw [binding?, hf]; exact hb
  rw [assign, target, h]
  simp only [hbinding, Option.any_some]
  split <;> rfl

namespace Grown

variable {past : List (ScopeRef × Action α)}

theorem root : Grown [] (root : Scopes α) := by
  have hframe {r : ScopeRef} {f : Frame α} (hf : Scopes.root.frame? r = some f) :
      f = ⟨#[], none⟩ := by
    simpa [Scopes.root] using Array.mem_of_getElem? hf
  refine ⟨fun r f p hf hp => ?_, fun r f hf => ?_, fun _ _ => rfl⟩
  · simp [hframe hf] at hp
  · simp [hframe hf, Frame.names, definedSince]

theorem child (hs : Grown past s) (hr : r.index < s.size) :
    Grown ((r, .child) :: past) (s.child r).2 := by
  have hframe {r' : ScopeRef} {f : Frame α} (hf : Scopes.frame? (s.child r).2 r' = some f) :
      s.frame? r' = some f ∨ r'.index = s.size ∧ f = ⟨#[], some r⟩ := by
    rw [frame?, Scopes.child, Array.getElem?_push] at hf
    split at hf
    next hnew => exact .inr ⟨hnew, (Option.some.inj hf).symm⟩
    next => exact .inl hf
  have hsize : (s.child r).2.size = s.size + 1 := Array.size_push ..
  refine ⟨fun r' f p hf hp => ?_, fun r' f hf => ?_, fun r' hr' => ?_⟩
  · rcases hframe hf with hf | ⟨hnew, rfl⟩
    · exact hs.outward r' f p hf hp
    · obtain rfl := Option.some.inj hp
      rwa [hnew]
  · rcases hframe hf with hf | ⟨hnew, rfl⟩
    · exact hs.names r' f hf
    · rw [definedSince, hs.unborn r' (Nat.le_of_eq hnew.symm)]
      rfl
  · exact hs.unborn r' (by omega)

/-- One frame changes and keeps the scope around it. -/
theorem modify (hs : Grown past s) {q : ScopeRef} (hq : q.index < s.size) {a : Action α}
    {change : Frame α → Frame α} (hparent : ∀ f, (change f).parent = f.parent)
    (hnames : ∀ f, f.names = (definedSince q past).eraseDups →
      (change f).names = (definedSince q ((r, a) :: past)).eraseDups)
    (hother : ∀ r', r' ≠ q → definedSince r' ((r, a) :: past) = definedSince r' past) :
    Grown ((r, a) :: past) (s.modify q.index change) := by
  have hframe {r' : ScopeRef} {g : Frame α}
      (hg : Scopes.frame? (s.modify q.index change) r' = some g) :
      ∃ f, s.frame? r' = some f ∧ (r' = q ∧ g = change f ∨ r' ≠ q ∧ g = f) := by
    rw [frame?_modify] at hg
    split at hg
    next h =>
      obtain ⟨f, hf, rfl⟩ := Option.map_eq_some_iff.1 hg
      exact ⟨f, h ▸ hf, .inl ⟨h, rfl⟩⟩
    next h => exact ⟨g, hg, .inr ⟨h, rfl⟩⟩
  refine ⟨fun r' g p hg hp => ?_, fun r' g hg => ?_, fun r' hr' => ?_⟩
  · obtain ⟨f, hf, ⟨-, rfl⟩ | ⟨-, rfl⟩⟩ := hframe hg
    · exact hs.outward r' f p hf (hparent f ▸ hp)
    · exact hs.outward r' g p hf hp
  · obtain ⟨f, hf, ⟨rfl, rfl⟩ | ⟨hne, rfl⟩⟩ := hframe hg
    · exact hnames f (hs.names r' f hf)
    · rw [hother r' hne]
      exact hs.names r' g hf
  · rw [Array.size_modify] at hr'
    have hne : r' ≠ q := by
      rintro rfl
      omega
    rw [hother r' hne]
    exact hs.unborn r' hr'

theorem act (hs : Grown past s) (hr : r.index < s.size) (a : Action α) :
    Grown ((r, a) :: past) (s.act r a) := by
  cases a with
  | child => exact hs.child hr
  | define name v constant =>
    refine hs.modify hr (fun f => f.parent_define ..) (fun f hf => ?_) fun r' hne => ?_
    · simp only [definedSince, if_true, Frame.names_define, hf, eraseDups_concat]
    · simp [definedSince, Ne.symm hne]
  | assign name v =>
    have hsame : Grown ((r, .assign name v) :: past) s := ⟨hs.outward, hs.names, hs.unborn⟩
    rw [Scopes.act]
    cases hplace : s.place? r name with
    | none =>
      rw [assign_of_none hplace]
      exact hsame
    | some place =>
      obtain ⟨f, hf, hi⟩ := exists_frame_of_place? hplace
      obtain ⟨b, hb, -⟩ := Frame.binding_of_slot? hi
      rw [assign_of_place hplace hf hb]
      cases b.constant with
      | true => exact hsame
      | false =>
        have hq : place.1.index < s.size := (Array.getElem?_eq_some_iff.1 hf).1
        exact hs.modify hq (fun _ => rfl) (fun f hf => (f.names_update _ v).trans hf) fun _ _ => rfl
  | clear =>
    refine hs.modify hr (fun _ => rfl) (fun f hf => ?_) fun r' hne => ?_
    · simp [definedSince, Frame.clear, Frame.names]
    · simp [definedSince, Ne.symm hne]

/-- Chains are finite. -/
theorem exists_chain (hs : Grown past s) (hr : r.index < s.size) : ∃ rs, s.Chain r rs := by
  induction hn : r.index using Nat.strongRecOn generalizing r with
  | ind n ih =>
    have hf : s.frame? r = some s[r.index] := Array.getElem?_eq_getElem hr
    cases hp : s[r.index].parent with
    | none => exact ⟨[r], .outermost hf hp⟩
    | some p =>
      have hpr : p.index < r.index := hs.outward r _ p hf hp
      obtain ⟨rs, hrs⟩ := ih p.index (hn ▸ hpr) (Nat.lt_trans hpr hr) rfl
      exact ⟨r :: rs, .within hf hp hrs⟩

end Grown

theorem Reached.grown {past : List (ScopeRef × Action α)} (hs : Reached past s) : Grown past s := by
  induction hs with
  | root => exact .root
  | act _ hr a ih => exact ih.act hr a

theorem nearest?_here {f : Frame α} {i : Nat} {b : Binding α} (hf : s.frame? r = some f)
    (hi : f.slot? name = some i) (hb : f.bindings[i]? = some b) (rs : List ScopeRef) :
    s.nearest? (r :: rs) name = some (r, b) := by
  simp [nearest?, hf, Frame.binding?, hi, hb]

theorem nearest?_outer {f : Frame α} (hf : s.frame? r = some f) (hi : f.slot? name = none)
    (rs : List ScopeRef) : s.nearest? (r :: rs) name = s.nearest? rs name := by
  simp [nearest?, hf, Frame.binding?, hi]

/-- A search ends at the first binding along the chain. -/
theorem Chain.place?_eq {rs : List ScopeRef} (hr : s.Chain r rs) (name : String) :
    match s.nearest? rs name with
    | none => s.place? r name = none
    | some (h, b) => ∃ f i, s.place? r name = some (h, i) ∧ s.frame? h = some f ∧
        f.slot? name = some i ∧ f.bindings[i]? = some b := by
  induction hr with
  | @outermost r f hf hp =>
    cases hi : f.slot? name with
    | none =>
      rw [nearest?_outer hf hi]
      exact place?_outermost hf hi hp
    | some i =>
      obtain ⟨b, hb, -⟩ := Frame.binding_of_slot? hi
      rw [nearest?_here hf hi hb]
      exact ⟨f, i, place?_of_slot hf hi, hf, hi, hb⟩
  | @within r p f rs hf hp _ ih =>
    cases hi : f.slot? name with
    | none =>
      rw [nearest?_outer hf hi, place?_outer hf hi hp]
      exact ih
    | some i =>
      obtain ⟨b, hb, -⟩ := Frame.binding_of_slot? hi
      rw [nearest?_here hf hi hb]
      exact ⟨f, i, place?_of_slot hf hi, hf, hi, hb⟩

theorem Revalued.of_put {q : ScopeRef} {f : Frame α} {i : Nat} (hf : s.frame? q = some f)
    (hi : f.slot? name = some i) (v : α) : s.Revalued (s.put (q, i) v) q name v where
  size := Array.size_modify ..
  frame r' g hg := by
    rw [put, frame?_modify]
    by_cases h : r' = q
    · subst h
      obtain rfl := Option.some.inj (hf.symm.trans hg)
      exact ⟨f.update i v, by simp [hf], rfl, f.names_update i v,
        fun other => by simp [Frame.binding?_update hi]⟩
    · exact ⟨g, by simp [h, hg], rfl, rfl, fun other => by simp [h]⟩

theorem Chain.get?_eq {rs : List ScopeRef} (hr : s.Chain r rs) (name : String) :
    s.get? r name = (s.nearest? rs name).map fun found => found.2.value := by
  have hplace := hr.place?_eq name
  rw [get?]
  split at hplace
  next hnone => rw [hnone, hplace]; rfl
  next h b hfound =>
    obtain ⟨f, i, hplace, hf, -, hb⟩ := hplace
    rw [hfound, hplace]
    simp [binding?, hf, hb]

theorem Chain.assign_eq {rs : List ScopeRef} (hr : s.Chain r rs) (name : String) (v : α) :
    match s.nearest? rs name with
    | none => s.assign r name v = .error .undefined
    | some (h, b) =>
      if b.constant then s.assign r name v = .error .constant
      else ∃ t, s.assign r name v = .ok t ∧ s.Revalued t h name v := by
  have hplace := hr.place?_eq name
  cases hfound : s.nearest? rs name with
  | none =>
    rw [hfound] at hplace
    exact assign_of_none hplace v
  | some found =>
    rw [hfound] at hplace
    obtain ⟨f, i, hplace, hf, hi, hb⟩ := hplace
    rw [assign_of_place hplace hf hb]
    by_cases hconst : found.2.constant
    · simp only [hconst, if_true]
    · simp only [hconst]
      exact ⟨_, rfl, .of_put hf hi v⟩

theorem nearest?_eq_none_iff {rs : List ScopeRef} :
    s.nearest? rs name = none ↔ ∀ q ∈ rs, ∀ f, s.frame? q = some f → name ∉ f.names := by
  rw [nearest?, List.findSome?_eq_none_iff]
  refine forall₂_congr fun q _ => ?_
  cases s.frame? q <;> simp [Frame.binding?_eq_none_iff]

end Scopes

theorem IndexedScopes.after_follows {past : List (ScopeRef × Scopes.Action α)} {s : Scopes α}
    (hs : s.Reached past) : (after past).InStep ∧ (after past).plain = s := by
  induction hs with
  | root => exact ⟨.root, plain_root⟩
  | @act past s r _ _ a ih =>
    obtain ⟨hstep, rfl⟩ := ih
    exact hstep.act r a

/-- A tree of scopes is a tree of ordered maps. With an index in every frame, all that is done
comes to the same as without one, and every index stays in step: it has each name of its frame
once, at the place of its binding. The names stand in the order of their first definition since the
frame was cleared last. The scopes around a scope are finitely many. The value of a name is that of
the first of them that binds it, and there is none if no one does. An assignment is refused if
there is none, or if that binding is a constant, and then changes nothing; otherwise it changes the
value of the name in that frame, and nothing else in the table. -/
theorem scopes_refine_ordered_maps {past : List (ScopeRef × Scopes.Action α)} {s : Scopes α}
    (hs : s.Reached past) :
    (IndexedScopes.after past).plain = s ∧
    (∀ r f, (IndexedScopes.after past).frame? r = some f →
      f.InStep ∧ f.plain.names.Nodup ∧ f.plain.names = (definedSince r past).eraseDups) ∧
    (∀ r, r.index < s.size → ∃ rs, s.Chain r rs) ∧
    (∀ r rs name, s.Chain r rs →
      s.get? r name = (s.nearest? rs name).map (fun found => found.2.value) ∧
      (IndexedScopes.after past).get? r name = s.get? r name ∧
      (s.get? r name = none ↔ ∀ q ∈ rs, ∀ f, s.frame? q = some f → name ∉ f.names) ∧
      ∀ v,
        match s.nearest? rs name with
        | none =>
          s.assign r name v = .error .undefined ∧
          (IndexedScopes.after past).assign r name v = (.error .undefined, .after past)
        | some (q, b) =>
          if b.constant then
            s.assign r name v = .error .constant ∧
            (IndexedScopes.after past).assign r name v = (.error .constant, .after past)
          else
            ∃ t : IndexedScopes α, s.assign r name v = .ok t.plain ∧
              (IndexedScopes.after past).assign r name v = (.ok (), t) ∧ t.InStep ∧
              s.Revalued t.plain q name v) := by
  obtain ⟨hstep, hplain⟩ := IndexedScopes.after_follows hs
  refine ⟨hplain, fun r f hf => ?_, fun r => hs.grown.exists_chain, fun r rs name hrs => ?_⟩
  · have hframe : s.frame? r = some f.plain := by
      rw [← hplain, IndexedScopes.frame?_plain, hf]
      rfl
    exact ⟨hstep r f hf, (hstep r f hf).names_nodup, hs.grown.names r _ hframe⟩
  refine ⟨hrs.get?_eq name, ?_, ?_, fun v => ?_⟩
  · rw [hstep.get?_plain, hplain]
  · rw [hrs.get?_eq, Option.map_eq_none_iff, Scopes.nearest?_eq_none_iff]
  · have hassign := hrs.assign_eq name v
    have hindexed := hstep.assign_plain r name v
    rw [hplain] at hindexed
    cases hfound : s.nearest? rs name with
    | none =>
      rw [hfound] at hassign
      rw [hassign] at hindexed
      exact ⟨hassign, hindexed⟩
    | some found =>
      rw [hfound] at hassign
      by_cases hconst : found.2.constant
      · simp only [hconst, if_true] at hassign ⊢
        rw [hassign] at hindexed
        exact ⟨hassign, hindexed⟩
      · simp only [hconst] at hassign ⊢
        obtain ⟨t, hok, hrevalued⟩ := hassign
        rw [hok] at hindexed
        obtain ⟨t', ht', hstep', rfl⟩ := hindexed
        exact ⟨t', hok, ht', hstep', hrevalued⟩

/-- A constant, and around it a variable of the same name, which is defined a second time. -/
def shadowing : List (ScopeRef × Scopes.Action Nat) :=
  [(⟨0⟩, .define "x" 4 false), (⟨1⟩, .child), (⟨1⟩, .define "x" 3 true), (⟨0⟩, .child),
    (⟨0⟩, .define "y" 2 false), (⟨0⟩, .define "x" 1 false)]

theorem shadowing_reached : ∃ s : Scopes Nat, s.Reached shadowing ∧ s.Chain ⟨2⟩ [⟨2⟩, ⟨1⟩, ⟨0⟩] ∧
    s.nearest? [⟨2⟩, ⟨1⟩, ⟨0⟩] "x" = some (⟨1⟩, ⟨"x", 3, true⟩) := by
  have h₀ : Scopes.Reached ([] : List (ScopeRef × Scopes.Action Nat)) _ := .root
  have h₁ := (h₀.act (r := ⟨0⟩) (by decide) (.define "x" 1 false)).act (r := ⟨0⟩) (by decide)
    (.define "y" 2 false)
  have h₂ := (h₁.act (r := ⟨0⟩) (by decide) .child).act (r := ⟨1⟩) (by decide) (.define "x" 3 true)
  have h₃ := (h₂.act (r := ⟨1⟩) (by decide) .child).act (r := ⟨0⟩) (by decide) (.define "x" 4 false)
  refine ⟨_, h₃, .within rfl rfl (.within rfl ?_ (.outermost rfl ?_)), ?_⟩
  all_goals decide +kernel

/-- From inside, the name cannot be assigned to, though its outer binding is no constant; and the
second definition has left that one in its place. -/
theorem shadowing_refused : ∃ s : Scopes Nat, s.Reached shadowing ∧
    s.get? ⟨2⟩ "x" = some 3 ∧ s.assign ⟨2⟩ "x" 5 = .error .constant ∧
    (IndexedScopes.after shadowing).assign ⟨2⟩ "x" 5 = (.error .constant, .after shadowing) ∧
    ∀ f, (IndexedScopes.after shadowing).frame? ⟨0⟩ = some f → f.plain.names = ["x", "y"] := by
  obtain ⟨s, hs, hchain, hnearest⟩ := shadowing_reached
  obtain ⟨-, hframes, -, hnames⟩ := scopes_refine_ordered_maps hs
  obtain ⟨hget, -, -, hassign⟩ := hnames ⟨2⟩ _ "x" hchain
  have hrefused := hassign 5
  rw [hnearest] at hget hrefused
  exact ⟨s, hs, hget, hrefused.1, hrefused.2, fun f hf => (hframes ⟨0⟩ f hf).2.2⟩

end ScriptEngine
