import ScriptEngine.Proofs.Json.Reprint
import Mathlib.Logic.Relation

/-!
# Values unfolded

The JSON form of a value repeats what is shared and has no place for a cycle, so it is the value
unfolded into a tree. The writer counts levels and nothing else: it fails exactly for a value with a
path down of 129 steps, which a cycle of arrays and instances always gives.
-/
namespace ScriptEngine

open Relation

/-! Trees without the numbers that are written as null -/

namespace Json

mutual

/-- The tree with null for each number that is not finite. -/
def finite : Json → Json
  | null => null
  | bool b => bool b
  | number x => if x.isFinite then number x else null
  | text s => text s
  | array items => array (finiteItems items)
  | object members => object (finiteMembers members)

def finiteItems : List Json → List Json
  | [] => []
  | v :: rest => v.finite :: finiteItems rest

def finiteMembers : List (String × Json) → List (String × Json)
  | [] => []
  | (key, v) :: rest => (key, v.finite) :: finiteMembers rest

end

theorem finiteItems_eq_map (items : List Json) : finiteItems items = items.map finite := by
  induction items with
  | nil => rfl
  | cons v rest ih => rw [finiteItems, ih, List.map_cons]

theorem finiteMembers_eq_map (members : List (String × Json)) :
    finiteMembers members = members.map fun m => (m.1, m.2.finite) := by
  induction members with
  | nil => rfl
  | cons m rest ih => rw [finiteMembers, ih, List.map_cons]

theorem chars_number_finite (x : Float) : (number x).finite.chars = (number x).chars := by
  rw [finite]
  split
  next => rfl
  next hx =>
    have hnone : Number.Binary.ofFloat? x = none :=
      Number.Binary.isFinite_eq_false.1 (eq_false_of_ne_true hx)
    rw [chars, chars, numberText, numeral, hnone]
    rfl

mutual

theorem chars_finite : ∀ j : Json, j.finite.chars = j.chars
  | null | bool _ | text _ => rfl
  | number x => chars_number_finite x
  | array items => by rw [finite, chars, chars, itemChars_finite items]
  | object members => by rw [finite, chars, chars, memberChars_finite members]

theorem itemChars_finite : ∀ items : List Json, itemChars (finiteItems items) = itemChars items
  | [] => rfl
  | [v] => chars_finite v
  | v :: w :: rest =>
    congrArg₂ (fun first others => first ++ ',' :: others) (chars_finite v)
      (itemChars_finite (w :: rest))

theorem memberChars_finite :
    ∀ members : List (String × Json), memberChars (finiteMembers members) = memberChars members
  | [] => rfl
  | [(_, v)] => by rw [finiteMembers, finiteMembers, memberChars, memberChars, chars_finite v]
  | (key, v) :: m :: rest =>
    congrArg₂ (fun first others => quotedText key ++ ':' :: first ++ ',' :: others) (chars_finite v)
      (memberChars_finite (m :: rest))

end

/-- The same text is written for it. -/
theorem render_finite (j : Json) : j.finite.render = j.render := by
  rw [render, render, chars_finite]

end Json

/-! Lists of parts -/

theorem mapM_eq_none {α β : Type} {f : α → Option β} {xs : List α} :
    xs.mapM f = none ↔ ∃ x ∈ xs, f x = none := by
  constructor
  · intro hnone
    by_contra hsome
    have heach : ∀ x ∈ xs, ∃ y, f x = some y ∧ True := by
      intro x hx
      obtain ⟨y, hy⟩ := Option.ne_none_iff_exists'.1 fun hnone => hsome ⟨x, hx, hnone⟩
      exact ⟨y, hy, trivial⟩
    obtain ⟨ys, hys, -⟩ := exists_mapM_eq_some heach
    cases hys.symm.trans hnone
  · rintro ⟨x, hx, hnone⟩
    cases hys : xs.mapM f with
    | none => rfl
    | some ys =>
      have hsome : ∀ x ∈ xs, f x ≠ none :=
        forall₂_right (mapM_eq_some hys).flip fun _ _ hy => Option.ne_none_iff_exists'.2 ⟨_, hy⟩
      exact absurd hnone (hsome x hx)

theorem forall₂_iff_eq_map {α β γ : Type} {R : α → γ → Prop} {g : β → γ} {xs : List α}
    {ys : List β} (h : List.Forall₂ (fun x y => ∀ z, R x z ↔ z = g y) xs ys) {zs : List γ} :
    List.Forall₂ R xs zs ↔ zs = ys.map g := by
  induction h generalizing zs with
  | nil => rw [List.forall₂_nil_left_iff, List.map_nil]
  | @cons x y xs ys hxy _ ih =>
    rw [List.forall₂_cons_left_iff, List.map_cons]
    constructor
    · rintro ⟨z, zs, hz, hzs, rfl⟩
      rw [(hxy z).1 hz, ih.1 hzs]
    · rintro rfl
      exact ⟨_, _, (hxy _).2 rfl, ih.2 rfl, rfl⟩

theorem forall₂_entries {α β : Type} {R : α → β → Prop} {xs : List (String × α)}
    {ys : List (String × β)} :
    List.Forall₂ (fun a b => b.1 = a.1 ∧ R a.2 b.2) xs ys ↔
      ys.map Prod.fst = xs.map Prod.fst ∧
        List.Forall₂ R (xs.map Prod.snd) (ys.map Prod.snd) := by
  induction xs generalizing ys with
  | nil => simp
  | cons a xs ih =>
    cases ys with
    | nil => simp
    | cons b ys =>
      simp only [List.forall₂_cons, List.map_cons, List.cons.injEq, ih]
      tauto

/-- The fields of an instance with their keys. -/
def Heap.fields (h : Heap) (r : InstanceRef) : List (String × Value) :=
  ((h.instance? r).map fun i => i.fields.entries).getD []

namespace Value

/-- What stands directly in a value: the elements of an array, the values of an instance's
fields. -/
def parts (h : Heap) : Value → List Value
  | array r => (h.array r).toList
  | object r => (h.fields r).map Prod.snd
  | _ => []

/-- One step down from `v` leads to `w`. -/
def Step (h : Heap) (v w : Value) : Prop := w ∈ v.parts h

/-- A path down from the value has at least so many steps. -/
def Deep (h : Heap) (n : Nat) (v : Value) : Prop :=
  ∃ path, (v :: path).IsChain (Step h) ∧ n ≤ path.length

/-- The tree that a value unfolds into: what is shared is repeated, and nil, functions, classes and
numbers that are not finite are null. -/
inductive Unfolding (h : Heap) : Value → Json → Prop
  | nil : Unfolding h .nil .null
  | function (id : Nat) (decl : Function) (scope : ScopeRef) :
    Unfolding h (.function id decl scope) .null
  | native (id : Nat) (native : Native) (receiver : Option Value) :
    Unfolding h (.native id native receiver) .null
  | type (cls : Class) : Unfolding h (.type cls) .null
  | bool (b : Bool) : Unfolding h (.bool b) (.bool b)
  | finite {x : Float} (hx : x.isFinite = true) : Unfolding h (.number x) (.number x)
  | infinite {x : Float} (hx : x.isFinite = false) : Unfolding h (.number x) .null
  | text (s : String) : Unfolding h (.text s) (.text s)
  | array {r : ArrayRef} {items : List Json}
    (hitems : List.Forall₂ (Unfolding h) (h.array r).toList items) :
    Unfolding h (.array r) (.array items)
  | object {r : InstanceRef} {members : List (String × Json)}
    (hkeys : members.map Prod.fst = (h.fields r).map Prod.fst)
    (hmembers : List.Forall₂ (Unfolding h) ((h.fields r).map Prod.snd) (members.map Prod.snd)) :
    Unfolding h (.object r) (.object members)

variable {h : Heap}

/-! Where the writer fails -/

theorem deep_zero (v : Value) : v.Deep h 0 := ⟨[], .singleton v, Nat.zero_le _⟩

theorem deep_succ {n : Nat} {v : Value} : v.Deep h (n + 1) ↔ ∃ w, v.Step h w ∧ w.Deep h n := by
  constructor
  · rintro ⟨path, hpath, hlength⟩
    obtain ⟨w, path, rfl⟩ := List.exists_cons_of_length_pos (Nat.zero_lt_of_lt hlength)
    obtain ⟨hstep, hpath⟩ := List.isChain_cons_cons.1 hpath
    exact ⟨w, hstep, path, hpath, Nat.le_of_succ_le_succ hlength⟩
  · rintro ⟨w, hstep, path, hpath, hlength⟩
    exact ⟨w :: path, List.isChain_cons_cons.2 ⟨hstep, hpath⟩, Nat.succ_le_succ hlength⟩

/-- With room for one more level the writer fails for a value exactly if it fails for a part. -/
theorem toJsonWithin?_succ_eq_none {n : Nat} {v : Value} :
    v.toJsonWithin? h (n + 1) = none ↔ ∃ w, v.Step h w ∧ w.toJsonWithin? h n = none := by
  cases v with
  | array r => simp [toJsonWithin?, Step, parts, mapM_eq_none]
  | object r =>
    rw [toJsonWithin?, Option.map_eq_none_iff, mapM_eq_none]
    simp only [Option.map_eq_none_iff, Step, parts, List.mem_map]
    constructor
    · rintro ⟨e, he, hnone⟩
      exact ⟨e.2, ⟨e, he, rfl⟩, hnone⟩
    · rintro ⟨_, ⟨e, he, rfl⟩, hnone⟩
      exact ⟨e, he, hnone⟩
  | _ => simp [toJsonWithin?, Step, parts]

theorem toJsonWithin?_eq_none {n : Nat} {v : Value} : v.toJsonWithin? h n = none ↔ v.Deep h n := by
  induction n generalizing v with
  | zero => exact ⟨fun _ => deep_zero v, fun _ => rfl⟩
  | succ n ih =>
    rw [toJsonWithin?_succ_eq_none, deep_succ]
    simp only [ih]

/-- A value from which a cycle can be reached has a path down of any length. -/
theorem deep_of_cycle {v w : Value} (hcycle : TransGen (Step h) w w)
    (hv : ReflTransGen (Step h) v w) (n : Nat) : v.Deep h n := by
  induction n generalizing v with
  | zero => exact deep_zero v
  | succ n ih =>
    have hnext : ∃ u, v.Step h u ∧ ReflTransGen (Step h) u w := by
      obtain rfl | ⟨u, hstep, hu⟩ := hv.cases_head
      · exact TransGen.head'_iff.1 hcycle
      · exact ⟨u, hstep, hu⟩
    obtain ⟨u, hstep, hu⟩ := hnext
    exact deep_succ.2 ⟨u, hstep, ih hu⟩

/-! What the writer gives -/

theorem unfolding_array {r : ArrayRef} {u : Json} :
    Unfolding h (.array r) u ↔
      ∃ items, List.Forall₂ (Unfolding h) (h.array r).toList items ∧ u = .array items := by
  constructor
  · rintro ⟨⟩
    next items hitems => exact ⟨items, hitems, rfl⟩
  · rintro ⟨items, hitems, rfl⟩
    exact .array hitems

theorem unfolding_object {r : InstanceRef} {u : Json} :
    Unfolding h (.object r) u ↔
      ∃ members, List.Forall₂ (fun e m => m.1 = e.1 ∧ Unfolding h e.2 m.2) (h.fields r) members ∧
        u = .object members := by
  constructor
  · rintro ⟨⟩
    next members hkeys hmembers => exact ⟨members, forall₂_entries.2 ⟨hkeys, hmembers⟩, rfl⟩
  · rintro ⟨members, hmembers, rfl⟩
    obtain ⟨hkeys, hmembers⟩ := forall₂_entries.1 hmembers
    exact .object hkeys hmembers

theorem unfolding_number {x : Float} {u : Json} :
    Unfolding h (.number x) u ↔ u = (Json.number x).finite := by
  rw [Json.finite]
  constructor
  · rintro ⟨⟩
    next hx => rw [if_pos hx]
    next hx => rw [if_neg (ne_true_of_eq_false hx)]
  · rintro rfl
    split
    next hx => exact .finite hx
    next hx => exact .infinite (eq_false_of_ne_true hx)

/-- A value unfolds into one tree at most, which is the one that the writer gives. -/
theorem unfolding_iff {n : Nat} {v : Value} {j : Json} (hj : v.toJsonWithin? h n = some j)
    (u : Json) : Unfolding h v u ↔ u = j.finite := by
  induction n generalizing v j u with
  | zero => cases hj
  | succ n ih =>
    cases v with
    | number x =>
      cases hj
      exact unfolding_number
    | array r =>
      obtain ⟨items, hitems, rfl⟩ := Option.map_eq_some_iff.1 hj
      have hall : List.Forall₂ (fun w i => ∀ u, Unfolding h w u ↔ u = Json.finite i)
          (h.array r).toList items := (mapM_eq_some hitems).imp fun _ _ hw => ih hw
      rw [unfolding_array, Json.finite, Json.finiteItems_eq_map]
      simp only [forall₂_iff_eq_map hall, exists_eq_left]
    | object r =>
      obtain ⟨members, hmembers, rfl⟩ := Option.map_eq_some_iff.1 hj
      have hall : List.Forall₂
          (fun e m => ∀ m' : String × Json, (m'.1 = e.1 ∧ Unfolding h e.2 m'.2) ↔
            m' = (m.1, m.2.finite)) (h.fields r) members := by
        refine (mapM_eq_some hmembers).imp fun e m he m' => ?_
        obtain ⟨j, hj, rfl⟩ := Option.map_eq_some_iff.1 he
        rw [ih hj, Prod.ext_iff]
      rw [unfolding_object, Json.finite, Json.finiteMembers_eq_map]
      simp only [forall₂_iff_eq_map hall, exists_eq_left]
    | _ =>
      cases hj
      constructor
      · rintro ⟨⟩
        rfl
      · rintro rfl
        constructor

end Value

namespace Library

/-- The JSON form of a value fails exactly if some path down from it has 129 steps, as there is
one if it leads to a cycle. Else it is the tree, and the only one, that the value unfolds into, and
`stringify` gives the text of that tree. -/
theorem toJson_unfolds (m : Machine) (v : Value) :
    (v.toJson m.heap = .error .jsonTooDeep ↔ v.Deep m.heap 129) ∧
    (∀ w, ReflTransGen (Value.Step m.heap) v w → TransGen (Value.Step m.heap) w w →
      v.toJson m.heap = .error .jsonTooDeep) ∧
    (¬ v.Deep m.heap 129 → ∃ j, v.toJson m.heap = .ok j ∧
      ∀ u, v.Unfolding m.heap u ↔ u = j.finite) ∧
    jsonFunction .stringify [v] m =
      match v.toJson m.heap with
      | .ok j => .finished (.value (.text j.finite.render) m)
      | .error f => .finished (.stopped (.failed f) m) := by
  have hfails : v.toJson m.heap = .error .jsonTooDeep ↔ v.Deep m.heap 129 := by
    rw [← Value.toJsonWithin?_eq_none, Value.toJson, Json.maxWriteDepth]
    cases v.toJsonWithin? m.heap 129 <;> simp
  refine ⟨hfails, fun w hw hcycle => hfails.2 (Value.deep_of_cycle hcycle hw _), fun hdeep => ?_,
    ?_⟩
  · cases hj : v.toJsonWithin? m.heap 129 with
    | none => exact absurd (Value.toJsonWithin?_eq_none.1 hj) hdeep
    | some j =>
      refine ⟨j, ?_, Value.unfolding_iff hj⟩
      rw [Value.toJson, Json.maxWriteDepth, hj]
  · rw [stringify_eq, Value.toJson]
    cases v.toJsonWithin? m.heap Json.maxWriteDepth with
    | none => rfl
    | some j => simp only [Json.render_finite]

/-- An array whose only element is an object that holds the array in its one field. -/
def ring : Machine :=
  let m := Machine.fresh .default
  { m with heap := ⟨#[#[.object ⟨0⟩]], #[⟨m.objectClass, ⟨[("items", .array ⟨0⟩)]⟩⟩]⟩ }

theorem ring_fails_sample_unfolds :
    (Value.array ⟨0⟩).toJson ring.heap = .error .jsonTooDeep ∧
      jsonFunction .stringify [.array ⟨0⟩] ring =
        .finished (.stopped (.failed .jsonTooDeep) ring) ∧
      ∃ j, (Value.array ⟨0⟩).toJson sample.heap = .ok j ∧
        (Value.array ⟨0⟩).Unfolding sample.heap j.finite := by
  obtain ⟨-, hcycle, -, hrun⟩ := toJson_unfolds ring (.array ⟨0⟩)
  have hdown : (Value.array ⟨0⟩).Step ring.heap (.object ⟨0⟩) := List.mem_singleton_self _
  have hback : (Value.object ⟨0⟩).Step ring.heap (.array ⟨0⟩) := List.mem_singleton_self _
  have hfails := hcycle (.array ⟨0⟩) .refl (.tail (.single hdown) hback)
  rw [hfails] at hrun
  have hshallow : ¬ (Value.array ⟨0⟩).Deep sample.heap 129 := by
    rw [← Value.toJsonWithin?_eq_none]
    nofun
  obtain ⟨-, -, hwritten, -⟩ := toJson_unfolds sample (.array ⟨0⟩)
  obtain ⟨j, hj, hunfolding⟩ := hwritten hshallow
  exact ⟨hfails, hrun, j, hj, (hunfolding _).2 rfl⟩

end Library

end ScriptEngine
