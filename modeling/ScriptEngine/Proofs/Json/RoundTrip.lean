import ScriptEngine.Engine.Start
import ScriptEngine.Proofs.Json.ReadBack
import ScriptEngine.Proofs.Value.Code
import Mathlib.Data.List.Forall2

/-!
# Values through JSON and back

A value that is data and has a JSON text comes back from that text as the same data, if its arrays
and objects are nested at most as deeply as the reader allows. The writer allows more: what lies
between the two bounds is written but not read back.
-/
namespace ScriptEngine

namespace Fields

variable {α : Type}

/-- The keys ascend, so each of them occurs once. -/
def Ordered (f : Fields α) : Prop := f.entries.Pairwise fun a b => a.1 < b.1

theorem ordered_empty : (empty : Fields α).Ordered := .nil

/-- Inserting keeps the order. -/
theorem Ordered.insert {f : Fields α} (hf : f.Ordered) (key : String) (value : α) :
    (f.insert key value).Ordered := by
  obtain ⟨entries⟩ := f
  unfold Ordered Fields.insert at *
  simp only at *
  induction entries with
  | nil => simp [insertEntry]
  | cons e rest ih =>
    obtain ⟨hlow, hrest⟩ := List.pairwise_cons.1 hf
    rw [insertEntry]
    split
    next hkey => exact List.pairwise_cons.2 ⟨hkey ▸ hlow, hrest⟩
    next hne =>
      split
      next hlt =>
        refine List.pairwise_cons.2 ⟨?_, hf⟩
        exact List.forall_mem_cons.2 ⟨hlt, fun e he => String.lt_trans hlt (hlow e he)⟩
      next hnlt =>
        have hgt : e.1 < key := by
          by_contra hngt
          exact hne (String.le_antisymm (String.not_lt.1 hngt) (String.not_lt.1 hnlt))
        refine List.pairwise_cons.2 ⟨fun e he => ?_, ih hrest⟩
        obtain rfl | he := mem_insertEntry he
        · exact hgt
        · exact hlow e he

theorem insertEntry_last {key : String} {value : α} {entries : List (String × α)}
    (h : ∀ e ∈ entries, e.1 < key) : insertEntry key value entries = entries ++ [(key, value)] := by
  induction entries with
  | nil => rfl
  | cons e rest ih =>
    obtain ⟨he, hrest⟩ := List.forall_mem_cons.1 h
    have hne : key ≠ e.1 := by
      rintro rfl
      exact String.lt_irrefl _ he
    rw [insertEntry, if_neg hne, if_neg (String.lt_asymm he), ih hrest, List.cons_append]

/-- Entries in order are the fields that they make. -/
theorem ofList_of_pairwise {entries : List (String × α)}
    (h : entries.Pairwise fun a b => a.1 < b.1) : ofList entries = ⟨entries⟩ := by
  suffices hfold : ∀ front back : List (String × α),
      (front ++ back).Pairwise (fun a b => a.1 < b.1) →
        back.foldl (fun f e => f.insert e.1 e.2) ⟨front⟩ = (⟨front ++ back⟩ : Fields α) from
    hfold [] entries h
  intro front back hpairs
  induction back generalizing front with
  | nil => rw [List.append_nil, List.foldl_nil]
  | cons e back ih =>
    have hlast : ∀ e' ∈ front, e'.1 < e.1 := fun e' he' =>
      (List.pairwise_append.1 hpairs).2.2 e' he' e List.mem_cons_self
    rw [List.append_cons] at hpairs ⊢
    rw [List.foldl_cons, insert, insertEntry_last hlast]
    exact ih _ hpairs

end Fields

/-- A heap that still holds what another holds. -/
structure Heap.Extends (h h' : Heap) : Prop where
  array : ∀ r : ArrayRef, r.index < h.arrays.size →
    r.index < h'.arrays.size ∧ h'.array r = h.array r
  instance? : ∀ (r : InstanceRef) (i : Instance), h.instance? r = some i → h'.instance? r = some i

namespace Heap.Extends

variable {h h' h'' : Heap}

theorem refl (h : Heap) : h.Extends h := ⟨fun _ hr => ⟨hr, rfl⟩, fun _ _ hi => hi⟩

theorem trans (hab : h.Extends h') (hbc : h'.Extends h'') : h.Extends h'' where
  array r hr := by
    obtain ⟨hr', heq⟩ := hab.array r hr
    obtain ⟨hr'', heq'⟩ := hbc.array r hr'
    exact ⟨hr'', heq'.trans heq⟩
  instance? r i hi := hbc.instance? r i (hab.instance? r i hi)

theorem newArray (h : Heap) (items : Array Value) : h.Extends (h.newArray items).2 where
  array r hr := by
    simp only [Heap.newArray, Heap.array, Array.size_push]
    exact ⟨by omega, by simp [Array.getD_eq_getD_getElem?, Array.getElem?_push, Nat.ne_of_lt hr]⟩
  instance? _ _ hi := hi

theorem newInstance (h : Heap) (i : Instance) : h.Extends (h.newInstance i).2 where
  array _ hr := ⟨hr, rfl⟩
  instance? r j hj := by
    have hr : r.index < h.instances.size := (Array.getElem?_eq_some_iff.1 hj).1
    simpa [Heap.newInstance, Heap.instance?, Array.getElem?_push, Nat.ne_of_lt hr] using hj

end Heap.Extends

namespace Value

/-- Data: nil, booleans, numbers of a kind, strings, and arrays and objects of a class that are made
of data. A value that contains itself is none. -/
inductive IsData (kind : Float → Prop) (cls : Class) (h : Heap) : Value → Prop
  | nil : IsData kind cls h .nil
  | bool (b : Bool) : IsData kind cls h (.bool b)
  | number {x : Float} (hx : kind x) : IsData kind cls h (.number x)
  | text (s : String) : IsData kind cls h (.text s)
  | array {r : ArrayRef} (hitems : ∀ v ∈ (h.array r).toList, IsData kind cls h v) :
    IsData kind cls h (.array r)
  | object {r : InstanceRef} {fields : Fields Value} (hr : h.instance? r = some ⟨cls, fields⟩)
    (hordered : fields.Ordered) (hfields : ∀ e ∈ fields.entries, IsData kind cls h e.2) :
    IsData kind cls h (.object r)

/-- Arrays and objects are nested at most so deep. -/
def NestsWithin (h : Heap) : Nat → Value → Prop
  | 0, .array _ | 0, .object _ => False
  | n + 1, .array r => ∀ v ∈ (h.array r).toList, v.NestsWithin h n
  | n + 1, .object r => ∀ i, h.instance? r = some i → ∀ e ∈ i.fields.entries, e.2.NestsWithin h n
  | _, _ => True

theorem room_of_toJsonWithin? {h : Heap} {n : Nat} {v : Value} {j : Json}
    (hj : v.toJsonWithin? h n = some j) : ∃ k, n = k + 1 := by
  cases n with
  | zero => cases hj
  | succ n => exact ⟨n, rfl⟩

theorem nestsWithin_of_ne {v : Value} (harray : ∀ r, v ≠ .array r) (hobject : ∀ r, v ≠ .object r)
    (h : Heap) (n : Nat) : v.NestsWithin h n := by
  cases v with
  | array r => exact absurd rfl (harray r)
  | object r => exact absurd rfl (hobject r)
  | _ => cases n <;> trivial

/-- The same data on two heaps: equal numbers, arrays with the same data at each place, and objects
of one class with the same data in each field. -/
inductive SameData (h h' : Heap) : Value → Value → Prop
  | nil : SameData h h' .nil .nil
  | bool (b : Bool) : SameData h h' (.bool b) (.bool b)
  | number {x y : Float} (hxy : (x == y) = true) : SameData h h' (.number x) (.number y)
  | text (s : String) : SameData h h' (.text s) (.text s)
  | array {r s : ArrayRef} (hs : s.index < h'.arrays.size)
    (hsize : (h.array r).size = (h'.array s).size)
    (hitems : ∀ (n : Nat) (v w : Value), (h.array r)[n]? = some v → (h'.array s)[n]? = some w →
      SameData h h' v w) :
    SameData h h' (.array r) (.array s)
  | object {r s : InstanceRef} {i j : Instance} (hr : h.instance? r = some i)
    (hs : h'.instance? s = some j) (hcls : i.cls = j.cls)
    (hkeys : ∀ key, (i.fields.get? key).isSome = (j.fields.get? key).isSome)
    (hfields : ∀ (key : String) (v w : Value), i.fields.get? key = some v →
      j.fields.get? key = some w → SameData h h' v w) :
    SameData h h' (.object r) (.object s)

/-- What is added to the heap changes nothing. -/
theorem SameData.mono {h h₁ h₂ : Heap} (hext : h₁.Extends h₂) {v w : Value}
    (hvw : v.SameData h h₁ w) : v.SameData h h₂ w := by
  induction hvw with
  | nil => exact .nil
  | bool b => exact .bool b
  | number hxy => exact .number hxy
  | text s => exact .text s
  | array hs hsize hitems ih =>
    obtain ⟨hs', heq⟩ := hext.array _ hs
    exact .array hs' (heq ▸ hsize) (heq ▸ ih)
  | object hr hs hcls hkeys hfields ih =>
    exact .object hr (hext.instance? _ _ hs) hcls hkeys ih

end Value

/-! Lists of items and members -/

theorem mapM_eq_some {α β : Type} {f : α → Option β} {xs : List α} {ys : List β}
    (h : xs.mapM f = some ys) : List.Forall₂ (fun x y => f x = some y) xs ys := by
  induction xs generalizing ys with
  | nil =>
    cases h
    exact .nil
  | cons x xs ih =>
    rw [List.mapM_cons] at h
    obtain ⟨y, hy, h⟩ := Option.bind_eq_some_iff.1 h
    obtain ⟨zs, hzs, ⟨⟩⟩ := Option.bind_eq_some_iff.1 h
    exact .cons hy (ih hzs)

theorem forall₂_forall_iff {α β : Type} {P : α → Prop} {Q : β → Prop} {xs : List α} {ys : List β}
    (h : List.Forall₂ (fun x y => P x ↔ Q y) xs ys) : (∀ x ∈ xs, P x) ↔ ∀ y ∈ ys, Q y := by
  induction h with
  | nil => simp
  | cons hxy _ ih => simp [hxy, ih]

theorem forall₂_right {α β : Type} {R : α → β → Prop} {Q : β → Prop} {xs : List α} {ys : List β}
    (h : List.Forall₂ R xs ys) (hQ : ∀ x y, R x y → Q y) : ∀ y ∈ ys, Q y := by
  induction h with
  | nil => simp
  | cons hxy _ ih => exact List.forall_mem_cons.2 ⟨hQ _ _ hxy, ih⟩

/-- Entries with the same keys and related values have related values under each key. -/
theorem Fields.get?_forall₂ {α β : Type} {R : α → β → Prop} {f : Fields α} {g : Fields β}
    (h : List.Forall₂ (fun a b => a.1 = b.1 ∧ R a.2 b.2) f.entries g.entries) (key : String) :
    (f.get? key).isSome = (g.get? key).isSome ∧
      ∀ v w, f.get? key = some v → g.get? key = some w → R v w := by
  obtain ⟨xs⟩ := f
  obtain ⟨ys⟩ := g
  simp only [Fields.get?] at h ⊢
  induction h with
  | nil => simp
  | @cons a b xs ys hab _ ih =>
    obtain ⟨k, v⟩ := a
    obtain ⟨_, w⟩ := b
    obtain ⟨rfl, hvw⟩ := hab
    by_cases hkey : key = k
    · simpa [hkey] using hvw
    · simpa [List.lookup_cons, beq_false_of_ne hkey] using ih

theorem keys_eq_of_forall₂ {α β : Type} {R : α → β → Prop} {xs : List (String × α)}
    {ys : List (String × β)} (h : List.Forall₂ (fun a b => a.1 = b.1 ∧ R a.2 b.2) xs ys) :
    xs.map Prod.fst = ys.map Prod.fst := by
  induction h with
  | nil => rfl
  | cons hab _ ih => rw [List.map_cons, List.map_cons, hab.1, ih]

namespace Value

variable {h h' : Heap}

theorem SameData.newArray {r : ArrayRef} {values : List Value}
    (hsame : List.Forall₂ (SameData h h') (h.array r).toList values) :
    SameData h (h'.newArray values.toArray).2 (.array r)
      (.array (h'.newArray values.toArray).1) := by
  have hnew : (h'.newArray values.toArray).2.array (h'.newArray values.toArray).1 =
      values.toArray := by
    simp [Heap.newArray, Heap.array]
  refine .array ?_ ?_ fun n v w hv hw => ?_
  · simp [Heap.newArray]
  · simpa [hnew] using hsame.length_eq
  · rw [hnew] at hw
    obtain ⟨hn, rfl⟩ := Array.getElem?_eq_some_iff.1 hv
    obtain ⟨hn', rfl⟩ := Array.getElem?_eq_some_iff.1 hw
    exact (hsame.get hn hn').mono (.newArray _ _)

theorem SameData.newInstance {r : InstanceRef} {cls : Class} {fields : Fields Value}
    {entries : List (String × Value)} (hr : h.instance? r = some ⟨cls, fields⟩)
    (hordered : fields.Ordered)
    (hsame : List.Forall₂ (fun a b => a.1 = b.1 ∧ SameData h h' a.2 b.2) fields.entries entries) :
    SameData h (h'.newInstance ⟨cls, .ofList entries⟩).2 (.object r)
      (.object (h'.newInstance ⟨cls, .ofList entries⟩).1) := by
  have hentries : Fields.ofList entries = ⟨entries⟩ := by
    refine Fields.ofList_of_pairwise (List.pairwise_map.1 ?_)
    rw [← keys_eq_of_forall₂ hsame]
    exact List.pairwise_map.2 hordered
  have hnew : (h'.newInstance ⟨cls, .ofList entries⟩).2.instance?
      (h'.newInstance ⟨cls, .ofList entries⟩).1 = some ⟨cls, .ofList entries⟩ := by
    simp [Heap.newInstance, Heap.instance?]
  have hfields := Fields.get?_forall₂ (f := fields) (g := ⟨entries⟩) hsame
  rw [← hentries] at hfields
  exact .object hr hnew rfl (fun key => (hfields key).1) fun key v w hv hw =>
    ((hfields key).2 v w hv hw).mono (.newInstance _ _)

end Value

namespace Json

/-- A tree that can take the place of a value: its numbers can be read from their texts, it is
nested alike, and read back it is put on any heap as the same data. -/
structure StandsFor (cls : Class) (h : Heap) (v : Value) (j : Json) : Prop where
  numbers : j.Numbers Agrees
  nests : ∀ n, v.NestsWithin h n ↔ j.depth ≤ n
  back : ∀ h₀ : Heap, h₀.Extends (j.readBack.toValue cls h₀).2 ∧
    v.SameData h (j.readBack.toValue cls h₀).2 (j.readBack.toValue cls h₀).1

variable {cls : Class} {h : Heap}

theorem toValues_sameData {vs : List Value} {js : List Json}
    (hjs : List.Forall₂ (StandsFor cls h) vs js) (h₀ : Heap) :
    h₀.Extends (toValues cls h₀ (js.map readBack)).2 ∧
      List.Forall₂ (Value.SameData h (toValues cls h₀ (js.map readBack)).2) vs
        (toValues cls h₀ (js.map readBack)).1 := by
  induction hjs generalizing h₀ with
  | nil => exact ⟨.refl h₀, .nil⟩
  | @cons v j vs js hv _ ih =>
    obtain ⟨hext, hsame⟩ := hv.back h₀
    obtain ⟨hext', hrest⟩ := ih (j.readBack.toValue cls h₀).2
    exact ⟨hext.trans hext', .cons (hsame.mono hext') hrest⟩

theorem toFields_sameData {entries : List (String × Value)} {members : List (String × Json)}
    (hmembers : List.Forall₂ (fun e m => e.1 = m.1 ∧ StandsFor cls h e.2 m.2) entries members)
    (h₀ : Heap) :
    h₀.Extends (toFields cls h₀ (members.map fun m => (m.1, m.2.readBack))).2 ∧
      List.Forall₂ (fun e e' => e.1 = e'.1 ∧
          e.2.SameData h (toFields cls h₀ (members.map fun m => (m.1, m.2.readBack))).2 e'.2)
        entries (toFields cls h₀ (members.map fun m => (m.1, m.2.readBack))).1 := by
  induction hmembers generalizing h₀ with
  | nil => exact ⟨.refl h₀, .nil⟩
  | @cons e m entries members he _ ih =>
    obtain ⟨hext, hsame⟩ := he.2.back h₀
    obtain ⟨hext', hrest⟩ := ih (m.2.readBack.toValue cls h₀).2
    exact ⟨hext.trans hext', .cons ⟨he.1, hsame.mono hext'⟩ hrest⟩

theorem StandsFor.array {r : ArrayRef} {js : List Json}
    (hjs : List.Forall₂ (StandsFor cls h) (h.array r).toList js) :
    StandsFor cls h (.array r) (.array js) where
  numbers := itemNumbers_iff.2 (forall₂_right hjs fun _ _ hv => hv.numbers)
  nests n := by
    cases n with
    | zero => simp [Value.NestsWithin, depth]
    | succ n =>
      rw [Value.NestsWithin, depth, Nat.succ_le_succ_iff, itemsDepth_le_iff]
      exact forall₂_forall_iff (hjs.imp fun _ _ hv => hv.nests n)
  back h₀ := by
    obtain ⟨hext, hsame⟩ := toValues_sameData hjs h₀
    rw [readBack, readBackItems_eq_map]
    exact ⟨hext.trans (.newArray _ _), .newArray hsame⟩

theorem StandsFor.object {r : InstanceRef} {fields : Fields Value} {members : List (String × Json)}
    (hr : h.instance? r = some ⟨cls, fields⟩) (hordered : fields.Ordered)
    (hmembers : List.Forall₂ (fun e m => e.1 = m.1 ∧ StandsFor cls h e.2 m.2)
      fields.entries members) :
    StandsFor cls h (.object r) (.object members) where
  numbers := memberNumbers_iff.2 (forall₂_right hmembers fun _ _ he => he.2.numbers)
  nests n := by
    cases n with
    | zero => simp [Value.NestsWithin, depth]
    | succ n =>
      simp only [Value.NestsWithin, depth, Nat.succ_le_succ_iff, membersDepth_le_iff, hr,
        Option.some.injEq, forall_eq']
      exact forall₂_forall_iff (hmembers.imp fun _ _ he => he.2.nests n)
  back h₀ := by
    obtain ⟨hext, hsame⟩ := toFields_sameData hmembers h₀
    rw [readBack, readBackMembers_eq_map]
    exact ⟨hext.trans (.newInstance _ _), .newInstance hr hordered hsame⟩

theorem StandsFor.scalar {v : Value} {j : Json} (hj : j.Numbers Agrees) (hdepth : j.depth = 0)
    (harray : ∀ r, v ≠ .array r) (hobject : ∀ r, v ≠ .object r)
    (hback : ∀ h₀, (j.readBack.toValue cls h₀).2 = h₀ ∧
      v.SameData h h₀ (j.readBack.toValue cls h₀).1) : StandsFor cls h v j where
  numbers := hj
  nests n := by simp [hdepth, Value.nestsWithin_of_ne harray hobject]
  back h₀ := by
    rw [(hback h₀).1]
    exact ⟨.refl h₀, (hback h₀).2⟩

/-- The JSON form of data can take its place. -/
theorem standsFor {v : Value} (hv : v.IsData Agrees cls h) {n : Nat} {j : Json}
    (hj : v.toJsonWithin? h n = some j) : StandsFor cls h v j := by
  induction hv generalizing n j with
  | nil =>
    obtain ⟨n, rfl⟩ := Value.room_of_toJsonWithin? hj
    cases hj
    exact .scalar trivial rfl nofun nofun fun _ => ⟨rfl, .nil⟩
  | bool b =>
    obtain ⟨n, rfl⟩ := Value.room_of_toJsonWithin? hj
    cases hj
    exact .scalar trivial rfl nofun nofun fun _ => ⟨rfl, .bool b⟩
  | number hx =>
    obtain ⟨n, rfl⟩ := Value.room_of_toJsonWithin? hj
    cases hj
    exact .scalar hx rfl nofun nofun fun _ => ⟨rfl, .number hx.returns.readNumber_eq⟩
  | text s =>
    obtain ⟨n, rfl⟩ := Value.room_of_toJsonWithin? hj
    cases hj
    exact .scalar trivial rfl nofun nofun fun _ => ⟨rfl, .text s⟩
  | @array r hitems ih =>
    obtain ⟨n, rfl⟩ := Value.room_of_toJsonWithin? hj
    obtain ⟨js, hjs, rfl⟩ := Option.map_eq_some_iff.1 hj
    have hall := (List.forall₂_and_left _ _).2 ⟨ih, mapM_eq_some hjs⟩
    exact .array (hall.imp fun _ _ hv => hv.1 hv.2)
  | object hr hordered hfields ih =>
    obtain ⟨n, rfl⟩ := Value.room_of_toJsonWithin? hj
    rw [Value.toJsonWithin?, hr] at hj
    obtain ⟨members, hmembers, rfl⟩ := Option.map_eq_some_iff.1 hj
    have hall := (List.forall₂_and_left _ _).2 ⟨ih, mapM_eq_some hmembers⟩
    refine .object hr hordered (hall.imp fun e m he => ?_)
    obtain ⟨j, hj, rfl⟩ := Option.map_eq_some_iff.1 he.2
    exact ⟨rfl, he.1 hj⟩

end Json

namespace Library

theorem stringify_eq (v : Value) (m : Machine) :
    jsonFunction .stringify [v] m =
      match v.toJsonWithin? m.heap Json.maxWriteDepth with
      | some j => .finished (.value (.text j.render) m)
      | none => .finished (.stopped (.failed .jsonTooDeep) m) := by
  have hrun : jsonFunction .stringify [v] m =
      answer ((v.toJson m.heap).map fun j => .text j.render) m := rfl
  rw [hrun, Value.toJson]
  cases v.toJsonWithin? m.heap Json.maxWriteDepth <;> rfl

theorem parse_eq (t : String) (m : Machine) :
    jsonFunction .parse [.text t] m =
      match Json.parse? t with
      | some j => .finished (.value (j.toValue m.objectClass m.heap).1
          { m with heap := (j.toValue m.objectClass m.heap).2 })
      | none => .finished (.value .nil m) := by
  have hargument : argument [.text t] 0 = .text t := rfl
  rw [jsonFunction, hargument]
  cases hj : Json.parse? t <;> simp only [hj] <;> rfl

/-- Data that `stringify` has a text for comes back from `parse` as the same data if its arrays and
objects are nested at most 127 deep, and as nil if they are nested deeper. -/
theorem parse_stringify {m m' : Machine} {v : Value} {t : String}
    (hv : v.IsData Json.Agrees m.objectClass m.heap)
    (ht : jsonFunction .stringify [v] m = .finished (.value (.text t) m')) :
    m' = m ∧
      (v.NestsWithin m.heap Json.maxReadDepth → ∃ w m'',
        jsonFunction .parse [.text t] m = .finished (.value w m'') ∧
          m.heap.Extends m''.heap ∧ v.SameData m.heap m''.heap w) ∧
      (¬v.NestsWithin m.heap Json.maxReadDepth →
        jsonFunction .parse [.text t] m = .finished (.value .nil m)) := by
  rw [stringify_eq] at ht
  cases hj : v.toJsonWithin? m.heap Json.maxWriteDepth with
  | none =>
    rw [hj] at ht
    cases ht
  | some j =>
    rw [hj] at ht
    cases ht
    have hstands := Json.standsFor hv hj
    rw [parse_eq, Json.parse?_render hstands.numbers, hstands.nests]
    refine ⟨rfl, fun hnests => ?_, fun hnests => ?_⟩
    · rw [if_pos hnests]
      exact ⟨_, _, rfl, hstands.back m.heap⟩
    · rw [if_neg hnests]

/-- An array with a number, a string and an object. -/
def sample : Machine :=
  let m := Machine.fresh .default
  { m with heap :=
    { arrays := #[#[.number 2.5, .text "\n", .object ⟨0⟩]]
      instances := #[⟨m.objectClass, ⟨[("a", .nil), ("b", .bool true)]⟩⟩] } }

theorem floatAgrees_fraction : Json.FloatAgrees 2.5 :=
  Json.floatAgrees_of_float (b := ⟨false, 5 * 2 ^ 50, -51⟩) (y := 2.5) (by decide +kernel)
    (by decide +kernel) (by decide +kernel)

theorem isData_sample :
    (Value.array ⟨0⟩).IsData Json.Agrees sample.objectClass sample.heap := by
  have hnumber : Json.Agrees 2.5 := ⟨by decide +kernel, floatAgrees_fraction⟩
  have hobject : (Value.object ⟨0⟩).IsData Json.Agrees sample.objectClass sample.heap := by
    have hfields : sample.heap.instance? ⟨0⟩ =
        some ⟨sample.objectClass, ⟨[("a", .nil), ("b", .bool true)]⟩⟩ := rfl
    refine .object hfields ?_ ?_
    · exact List.pairwise_pair.2 (by decide)
    · simpa using ⟨.nil, .bool true⟩
  refine .array ?_
  simpa [sample, Heap.array] using ⟨.number hnumber, .text "\n", hobject⟩

/-- The JSON form of the array. -/
def sampleJson : Json :=
  .array [.number 2.5, .text "\n", .object [("a", .null), ("b", .bool true)]]

theorem sample_comes_back :
    jsonFunction .stringify [.array ⟨0⟩] sample =
        .finished (.value (.text "[2.5,\"\\n\",\x7b\"a\":null,\"b\":true\x7d]") sample) ∧
      ∃ w m, jsonFunction .parse [.text "[2.5,\"\\n\",\x7b\"a\":null,\"b\":true\x7d]"] sample =
          .finished (.value w m) ∧
        (Value.array ⟨0⟩).SameData sample.heap m.heap w := by
  have hj : (Value.array ⟨0⟩).toJsonWithin? sample.heap Json.maxWriteDepth = some sampleJson := rfl
  have ht : jsonFunction .stringify [.array ⟨0⟩] sample =
      .finished (.value (.text "[2.5,\"\\n\",\x7b\"a\":null,\"b\":true\x7d]") sample) := by
    have hrender : sampleJson.render = "[2.5,\"\\n\",\x7b\"a\":null,\"b\":true\x7d]" := by
      decide +kernel
    rw [stringify_eq, hj, ← hrender]
  have hnests : (Value.array ⟨0⟩).NestsWithin sample.heap Json.maxReadDepth :=
    ((Json.standsFor isData_sample hj).nests _).2 (by decide)
  obtain ⟨-, hback, -⟩ := parse_stringify isData_sample ht
  obtain ⟨w, m, hparse, -, hsame⟩ := hback hnests
  exact ⟨ht, w, m, hparse, hsame⟩

/-! Arrays inside one another -/

/-- Arrays of which each but the first holds the one before it. -/
def tower (n : Nat) : Heap :=
  ⟨(Array.range n).map fun i => if i = 0 then #[] else #[.array ⟨i - 1⟩], #[]⟩

/-- The JSON form of such an array. -/
def towerJson : Nat → Json
  | 0 => .array []
  | n + 1 => .array [towerJson n]

theorem array_tower {n i : Nat} (hi : i < n) :
    (tower n).array ⟨i⟩ = if i = 0 then #[] else #[.array ⟨i - 1⟩] := by
  simp [tower, Heap.array, hi]

theorem isData_tower {kind : Float → Prop} {cls : Class} {n i : Nat} (hi : i < n) :
    (Value.array ⟨i⟩).IsData kind cls (tower n) := by
  induction i with
  | zero => exact .array (by simp [array_tower hi])
  | succ i ih => exact .array (by simpa [array_tower hi] using ih (by omega))

theorem toJsonWithin?_tower {n i : Nat} (hi : i < n) (room : Nat) :
    (Value.array ⟨i⟩).toJsonWithin? (tower n) (i + 1 + room) = some (towerJson i) := by
  induction i with
  | zero => simp [Nat.add_comm 1 room, Value.toJsonWithin?, array_tower hi, towerJson]
  | succ i ih =>
    have hinner := ih (by omega)
    rw [show i + 1 + 1 + room = i + 1 + room + 1 by omega]
    simp [Value.toJsonWithin?, array_tower hi, towerJson, hinner]

theorem nestsWithin_tower {n i : Nat} (hi : i < n) (k : Nat) :
    (Value.array ⟨i⟩).NestsWithin (tower n) k ↔ i < k := by
  induction i generalizing k with
  | zero => cases k <;> simp [Value.NestsWithin, array_tower hi]
  | succ i ih => cases k <;> simp [Value.NestsWithin, array_tower hi, ih (by omega)]

/-- An array nested 128 deep has a JSON text that is not read back. -/
theorem tower_does_not_come_back :
    ∃ m t, m.heap = tower 128 ∧ (Value.array ⟨127⟩).IsData Json.Agrees m.objectClass m.heap ∧
      jsonFunction .stringify [.array ⟨127⟩] m = .finished (.value (.text t) m) ∧
      jsonFunction .parse [.text t] m = .finished (.value .nil m) := by
  have hdata {cls : Class} : (Value.array ⟨127⟩).IsData Json.Agrees cls (tower 128) :=
    isData_tower (by decide)
  have hj : (Value.array ⟨127⟩).toJsonWithin? (tower 128) Json.maxWriteDepth =
      some (towerJson 127) := toJsonWithin?_tower (by decide) 1
  refine ⟨{ Machine.fresh .default with heap := tower 128 }, (towerJson 127).render, rfl, hdata,
    ?_, ?_⟩
  · rw [stringify_eq]
    simp only [hj]
  · have hstands : Json.StandsFor (Machine.fresh .default).objectClass _ _ _ :=
      Json.standsFor hdata hj
    have hdeep : ¬ (towerJson 127).depth ≤ Json.maxReadDepth := by
      rw [← hstands.nests, nestsWithin_tower (by decide)]
      decide
    rw [parse_eq, Json.parse?_render hstands.numbers, if_neg hdeep]

end Library

end ScriptEngine
