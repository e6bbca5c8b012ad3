import ScriptEngine.Proofs.Json.RoundTrip

/-!
# Parsed values written again

The reader has room for fewer levels than the writer, and what it puts on the heap is made of new
arrays and objects only. So everything that was parsed can be written. The members of each object
come out in ascending order of their keys, and the text stands for the same data.
-/
namespace ScriptEngine

theorem exists_mapM_eq_some {α β : Type} {f : α → Option β} {P : α → β → Prop} {xs : List α}
    (h : ∀ x ∈ xs, ∃ y, f x = some y ∧ P x y) :
    ∃ ys, xs.mapM f = some ys ∧ List.Forall₂ P xs ys := by
  induction xs with
  | nil => exact ⟨[], rfl, .nil⟩
  | cons x xs ih =>
    obtain ⟨⟨y, hy, hxy⟩, hxs⟩ := List.forall_mem_cons.1 h
    obtain ⟨ys, hys, hall⟩ := ih hxs
    exact ⟨y :: ys, by simp [List.mapM_cons, hy, hys], .cons hxy hall⟩

namespace Json

/-! What a tree that was read is made of -/

section

variable {item? : List Char → Option (Json × List Char)} {P : Json → Prop}
  (hitem : ∀ {cs left j}, item? cs = some (j, left) → P j)
include hitem

theorem array_of_itemsRest? {n : Nat} {read : List Json} {cs left : List Char} {j : Json}
    (hread : ∀ v ∈ read, P v) (h : itemsRest? item? n read cs = some (j, left)) :
    ∃ items, j = array items ∧ ∀ v ∈ items, P v := by
  induction n generalizing read cs with
  | zero => cases h
  | succ n ih =>
    obtain ⟨⟨v, cs'⟩, hv, h⟩ := Option.bind_eq_some_iff.1 h
    have hread' : ∀ w ∈ v :: read, P w := List.forall_mem_cons.2 ⟨hitem hv, hread⟩
    dsimp only at h
    split at h
    next => exact ih hread' h
    next =>
      cases h
      exact ⟨_, rfl, fun w hw => hread' w (List.mem_reverse.1 hw)⟩
    next => cases h

theorem of_member? {cs left : List Char} {m : String × Json}
    (h : member? item? cs = some (m, left)) : P m.2 := by
  unfold member? at h
  split at h
  next =>
    obtain ⟨_, -, h⟩ := Option.bind_eq_some_iff.1 h
    dsimp only at h
    split at h
    next =>
      obtain ⟨_, hv, ⟨⟩⟩ := Option.bind_eq_some_iff.1 h
      exact hitem hv
    next => cases h
  next => cases h

theorem object_of_membersRest? {n : Nat} {read : List (String × Json)} {cs left : List Char}
    {j : Json} (hread : ∀ m ∈ read, P m.2)
    (h : membersRest? item? n read cs = some (j, left)) :
    ∃ members, j = object members ∧ ∀ m ∈ members, P m.2 := by
  induction n generalizing read cs with
  | zero => cases h
  | succ n ih =>
    obtain ⟨⟨m, cs'⟩, hm, h⟩ := Option.bind_eq_some_iff.1 h
    have hread' : ∀ m' ∈ m :: read, P m'.2 :=
      List.forall_mem_cons.2 ⟨of_member? hitem hm, hread⟩
    dsimp only at h
    split at h
    next => exact ih hread' h
    next =>
      cases h
      exact ⟨_, rfl, fun m' hm' => hread' m' (List.mem_reverse.1 hm')⟩
    next => cases h

end

/-- What scalars have, and arrays and objects with one room more than all their items, every tree
has with the room that it was read with. -/
theorem of_value? {P : Nat → Json → Prop}
    (hscalar : ∀ {room cs left j}, scalar? cs = some (j, left) → P room j)
    (harray : ∀ {room items}, (∀ v ∈ items, P room v) → P (room + 1) (array items))
    (hobject : ∀ {room members}, (∀ m ∈ members, P room m.2) → P (room + 1) (object members))
    {room : Nat} {cs left : List Char} {j : Json} (h : value? room cs = some (j, left)) :
    P room j := by
  induction room generalizing cs left j with
  | zero =>
    unfold value? at h
    split at h
    next => cases h
    next => cases h
    next => exact hscalar h
  | succ room ih =>
    unfold value? at h
    split at h
    next =>
      dsimp only at h
      split at h
      next =>
        cases h
        exact harray (by simp)
      next =>
        obtain ⟨items, rfl, hitems⟩ := array_of_itemsRest? ih (by simp) h
        exact harray hitems
    next =>
      dsimp only at h
      split at h
      next =>
        cases h
        exact hobject (by simp)
      next =>
        obtain ⟨members, rfl, hmembers⟩ := object_of_membersRest? ih (by simp) h
        exact hobject hmembers
    next => exact hscalar h

theorem value?_of_parse? {t : String} {j : Json} (h : parse? t = some j) :
    ∃ left, value? maxReadDepth t.toList = some (j, left) := by
  unfold parse? at h
  split at h
  next left hv =>
    split at h
    next =>
      cases h
      exact ⟨left, hv⟩
    next => cases h
  next => cases h

theorem depth_of_scalar? {cs left : List Char} {j : Json} (h : scalar? cs = some (j, left)) :
    j.depth = 0 := by
  unfold scalar? at h
  split at h
  case h_4 | h_5 =>
    obtain ⟨_, -, ⟨⟩⟩ := Option.map_eq_some_iff.1 h
    rfl
  all_goals
    cases h
    rfl

/-- No tree is nested deeper than the reader has room for. -/
theorem depth_le_of_parse? {t : String} {j : Json} (h : parse? t = some j) :
    j.depth ≤ maxReadDepth := by
  obtain ⟨left, hv⟩ := value?_of_parse? h
  refine of_value? (P := fun room j => j.depth ≤ room) ?_ ?_ ?_ hv
  · exact fun hscalar => (depth_of_scalar? hscalar).le.trans (Nat.zero_le _)
  · exact fun hitems => Nat.succ_le_succ (itemsDepth_le_iff.2 hitems)
  · exact fun hmembers => Nat.succ_le_succ (membersDepth_le_iff.2 hmembers)

theorem isFinite_of_scaled? {negative : Bool} {n : Nat} {e : Int} {x : Float}
    (h : scaled? negative n e = some x) : x.isFinite = true := by
  unfold scaled? at h
  split at h
  next => cases h
  next =>
    obtain ⟨hfinite, hx⟩ := Option.ite_none_right_eq_some.1 h
    exact Option.some.inj hx ▸ hfinite

theorem isFinite_of_number? {cs left : List Char} {x : Float}
    (h : number? cs = some (x, left)) : x.isFinite = true := by
  have hmagnitude {negative : Bool} {cs : List Char}
      (h : magnitude? negative cs = some (x, left)) : x.isFinite = true := by
    simp only [magnitude?, Option.bind_eq_bind, Option.bind_eq_some_iff, Prod.exists] at h
    obtain ⟨_, _, -, _, _, -, _, _, -, _, hscaled, ⟨⟩⟩ := h
    exact isFinite_of_scaled? hscaled
  unfold number? at h
  split at h
  next => exact hmagnitude h
  next => exact hmagnitude h

theorem isFinite_of_scalar? {cs left : List Char} {j : Json} (h : scalar? cs = some (j, left)) :
    j.Numbers fun x => x.isFinite = true := by
  unfold scalar? at h
  split at h
  case h_4 =>
    obtain ⟨_, -, ⟨⟩⟩ := Option.map_eq_some_iff.1 h
    trivial
  case h_5 =>
    obtain ⟨⟨x, _⟩, hx, ⟨⟩⟩ := Option.map_eq_some_iff.1 h
    exact isFinite_of_number? hx
  all_goals
    cases h
    trivial

/-- No number that was read is infinite or not a number. -/
theorem isFinite_of_parse? {t : String} {j : Json} (h : parse? t = some j) :
    j.Numbers fun x => x.isFinite = true := by
  obtain ⟨left, hv⟩ := value?_of_parse? h
  refine of_value? (P := fun _ j => j.Numbers fun x => x.isFinite = true) ?_ ?_ ?_ hv
  · exact isFinite_of_scalar?
  · exact itemNumbers_iff.2
  · exact memberNumbers_iff.2

/-! Trees on the heap -/

variable {cls : Class}

mutual

theorem extends_toValue : ∀ (j : Json) (h : Heap), h.Extends (j.toValue cls h).2
  | null, h | bool _, h | number _, h | text _, h => .refl h
  | array items, h => (extends_toValues items h).trans (.newArray _ _)
  | object members, h => (extends_toFields members h).trans (.newInstance _ _)

theorem extends_toValues : ∀ (items : List Json) (h : Heap), h.Extends (toValues cls h items).2
  | [], h => .refl h
  | j :: rest, h => (extends_toValue j h).trans (extends_toValues rest _)

theorem extends_toFields :
    ∀ (members : List (String × Json)) (h : Heap), h.Extends (toFields cls h members).2
  | [], h => .refl h
  | (_, j) :: rest, h => (extends_toValue j h).trans (extends_toFields rest _)

end

end Json

/-- Fields that are made of entries have values that are among those of the entries. -/
theorem Fields.mem_ofList {α : Type} {entries : List (String × α)} {e : String × α}
    (he : e ∈ (ofList entries).entries) : e ∈ entries := by
  suffices hfold : ∀ (back : List (String × α)) (f : Fields α),
      e ∈ (back.foldl (fun f e => f.insert e.1 e.2) f).entries → e ∈ f.entries ∨ e ∈ back from
    (hfold entries empty he).resolve_left nofun
  intro back
  induction back with
  | nil => exact fun _ he => .inl he
  | cons e' back ih =>
    intro f he
    obtain he | he := ih _ he
    · obtain rfl | he := mem_insertEntry he
      · exact .inr List.mem_cons_self
      · exact .inl he
    · exact .inr (List.mem_cons_of_mem _ he)

theorem Fields.ordered_ofList {α : Type} (entries : List (String × α)) :
    (ofList entries).Ordered := by
  suffices hfold : ∀ (back : List (String × α)) (f : Fields α), f.Ordered →
      (back.foldl (fun f e => f.insert e.1 e.2) f).Ordered from
    hfold entries empty ordered_empty
  intro back
  induction back with
  | nil => exact fun _ hf => hf
  | cons e back ih => exact fun f hf => ih _ (hf.insert e.1 e.2)

namespace Json

variable {cls : Class} {kind : Float → Prop}

mutual

/-- What a tree becomes on the heap is data as deep as the tree, and stays so on every larger
heap. -/
theorem isData_toValue : ∀ (j : Json) (_ : j.Numbers kind) (h h' : Heap)
    (_ : (j.toValue cls h).2.Extends h') (n : Nat) (_ : j.depth ≤ n),
    (j.toValue cls h).1.IsData kind cls h' ∧ (j.toValue cls h).1.NestsWithin h' n
  | null, _, _, _, _, _, _ => ⟨.nil, Value.nestsWithin_of_ne (v := .nil) nofun nofun _ _⟩
  | bool b, _, _, _, _, _, _ => ⟨.bool b, Value.nestsWithin_of_ne (v := .bool b) nofun nofun _ _⟩
  | number x, hx, _, _, _, _, _ =>
    ⟨.number hx, Value.nestsWithin_of_ne (v := .number x) nofun nofun _ _⟩
  | text s, _, _, _, _, _, _ => ⟨.text s, Value.nestsWithin_of_ne (v := .text s) nofun nofun _ _⟩
  | array items, hj, h, h', hext, n + 1, hn => by
    have hitems := isData_toValues items hj h h' ((Heap.Extends.newArray _ _).trans hext) n
      (by simpa [depth] using hn)
    obtain ⟨-, hr⟩ := hext.array ⟨(toValues cls h items).2.arrays.size⟩
      (by simp [toValue, Heap.newArray])
    have hvalues : h'.array ⟨(toValues cls h items).2.arrays.size⟩ =
        (toValues cls h items).1.toArray := by
      rw [hr]
      simp [toValue, Heap.newArray, Heap.array]
    exact ⟨.array fun v hv => (hitems v (by simpa [hvalues] using hv)).1,
      fun v hv => (hitems v (by simpa [hvalues] using hv)).2⟩
  | object members, hj, h, h', hext, n + 1, hn => by
    have hmembers := isData_toFields members hj h h' ((Heap.Extends.newInstance _ _).trans hext) n
      (by simpa [depth] using hn)
    have hr : h'.instance? ⟨(toFields cls h members).2.instances.size⟩ =
        some ⟨cls, .ofList (toFields cls h members).1⟩ :=
      hext.instance? _ _ (by simp [toValue, Heap.newInstance, Heap.instance?])
    refine ⟨.object hr (Fields.ordered_ofList _) fun e he => ?_, fun i hi e he => ?_⟩
    · exact (hmembers e (Fields.mem_ofList he)).1
    · obtain rfl := Option.some.inj (hr.symm.trans hi)
      exact (hmembers e (Fields.mem_ofList he)).2

theorem isData_toValues : ∀ (items : List Json) (_ : ItemNumbers kind items) (h h' : Heap)
    (_ : (toValues cls h items).2.Extends h') (n : Nat) (_ : itemsDepth items ≤ n),
    ∀ v ∈ (toValues cls h items).1, v.IsData kind cls h' ∧ v.NestsWithin h' n
  | [], _, _, _, _, _, _ => nofun
  | j :: rest, hj, h, h', hext, n, hn => by
    rw [itemsDepth, Nat.max_le] at hn
    have hfirst := isData_toValue j hj.1 h h' ((extends_toValues rest _).trans hext) n hn.1
    exact List.forall_mem_cons.2 ⟨hfirst, isData_toValues rest hj.2 _ h' hext n hn.2⟩

theorem isData_toFields : ∀ (members : List (String × Json)) (_ : MemberNumbers kind members)
    (h h' : Heap) (_ : (toFields cls h members).2.Extends h') (n : Nat)
    (_ : membersDepth members ≤ n),
    ∀ e ∈ (toFields cls h members).1, e.2.IsData kind cls h' ∧ e.2.NestsWithin h' n
  | [], _, _, _, _, _, _ => nofun
  | (_, j) :: rest, hj, h, h', hext, n, hn => by
    rw [membersDepth, Nat.max_le] at hn
    have hfirst := isData_toValue j hj.1 h h' ((extends_toFields rest _).trans hext) n hn.1
    exact List.forall_mem_cons.2 ⟨hfirst, isData_toFields rest hj.2 _ h' hext n hn.2⟩

end

variable {p q r : Float → Prop}

mutual

/-- Numbers of two kinds are of the kind that the two imply. -/
theorem Numbers.imp₂ (hkinds : ∀ x, p x → q x → r x) :
    ∀ j : Json, j.Numbers p → j.Numbers q → j.Numbers r
  | null, _, _ | bool _, _, _ | text _, _, _ => trivial
  | number x, hp, hq => hkinds x hp hq
  | array items, hp, hq => ItemNumbers.imp₂ hkinds items hp hq
  | object members, hp, hq => MemberNumbers.imp₂ hkinds members hp hq

theorem ItemNumbers.imp₂ (hkinds : ∀ x, p x → q x → r x) :
    ∀ items : List Json, ItemNumbers p items → ItemNumbers q items → ItemNumbers r items
  | [], _, _ => trivial
  | j :: rest, hp, hq =>
    ⟨Numbers.imp₂ hkinds j hp.1 hq.1, ItemNumbers.imp₂ hkinds rest hp.2 hq.2⟩

theorem MemberNumbers.imp₂ (hkinds : ∀ x, p x → q x → r x) :
    ∀ members : List (String × Json),
      MemberNumbers p members → MemberNumbers q members → MemberNumbers r members
  | [], _, _ => trivial
  | (_, j) :: rest, hp, hq =>
    ⟨Numbers.imp₂ hkinds j hp.1 hq.1, MemberNumbers.imp₂ hkinds rest hp.2 hq.2⟩

end

/-- The printer and the reader agree on what was read if they do on what is printed as a double. -/
theorem agrees_of_parse? {t : String} {j : Json} (ht : parse? t = some j)
    (hfloats : j.Numbers FloatAgrees) : j.Numbers Agrees :=
  Numbers.imp₂ (fun _ => Agrees.mk) j (isFinite_of_parse? ht) hfloats

end Json

namespace Value

/-- The tree that stands for data: items in their places, and for each object its keys with the
trees of its fields, in ascending order of the keys. -/
inductive Written (h : Heap) : Value → Json → Prop
  | nil : Written h .nil .null
  | bool (b : Bool) : Written h (.bool b) (.bool b)
  | number (x : Float) : Written h (.number x) (.number x)
  | text (s : String) : Written h (.text s) (.text s)
  | array {r : ArrayRef} {items : List Json}
    (hitems : List.Forall₂ (Written h) (h.array r).toList items) :
    Written h (.array r) (.array items)
  | object {r : InstanceRef} {i : Instance} {members : List (String × Json)}
    (hr : h.instance? r = some i)
    (hkeys : members.map Prod.fst = i.fields.entries.map Prod.fst)
    (hascend : (members.map Prod.fst).Pairwise (· < ·))
    (hmembers : List.Forall₂ (Written h) (i.fields.entries.map Prod.snd)
      (members.map Prod.snd)) :
    Written h (.object r) (.object members)

/-- Data that is not nested too deeply has a JSON form. -/
theorem IsData.written {kind : Float → Prop} {cls : Class} {h : Heap} {v : Value}
    (hv : v.IsData kind cls h) {n : Nat} (hn : v.NestsWithin h n) :
    ∃ j, v.toJsonWithin? h (n + 1) = some j ∧ v.Written h j := by
  induction hv generalizing n with
  | nil => exact ⟨_, rfl, .nil⟩
  | bool b => exact ⟨_, rfl, .bool b⟩
  | @number x _ => exact ⟨_, rfl, .number x⟩
  | text s => exact ⟨_, rfl, .text s⟩
  | array _ ih =>
    cases n with
    | zero => exact hn.elim
    | succ n =>
      obtain ⟨items, hitems, hall⟩ := exists_mapM_eq_some fun v hv => ih v hv (hn v hv)
      exact ⟨.array items, by rw [toJsonWithin?, hitems]; rfl, .array hall⟩
  | @object r fields hr hordered _ ih =>
    cases n with
    | zero => exact hn.elim
    | succ n =>
      have hentry : ∀ e ∈ fields.entries, ∃ m : String × Json,
          ((e.2.toJsonWithin? h (n + 1)).map fun j => (e.1, j)) = some m ∧
            e.1 = m.1 ∧ e.2.Written h m.2 := by
        intro e he
        obtain ⟨j, hj, hw⟩ := ih e he (hn _ hr e he)
        exact ⟨(e.1, j), by rw [hj]; rfl, rfl, hw⟩
      obtain ⟨members, hmembers, hall⟩ := exists_mapM_eq_some hentry
      have hkeys := keys_eq_of_forall₂ hall
      have hascend : (members.map Prod.fst).Pairwise (· < ·) := by
        rw [← hkeys]
        exact List.pairwise_map.2 hordered
      refine ⟨.object members, ?_, .object hr hkeys.symm hascend ?_⟩
      · rw [toJsonWithin?, hr]
        exact congrArg (Option.map Json.object) hmembers
      · rw [List.forall₂_map_left_iff, List.forall₂_map_right_iff]
        exact hall.imp fun _ _ he => he.2

end Value

namespace Library

/-- What `parse` makes of a text, `stringify` has a text for, with the keys of every object in
ascending order. If the printer's texts of the doubles in it are read as equal numbers, parsing that
text gives the same data again; integers need no such agreement. -/
theorem stringify_parsed {t : String} {j : Json} (ht : Json.parse? t = some j) (m : Machine) :
    ∃ v m₁ j', jsonFunction .parse [.text t] m = .finished (.value v m₁) ∧
      jsonFunction .stringify [v] m₁ = .finished (.value (.text j'.render) m₁) ∧
      v.Written m₁.heap j' ∧
      (j.Numbers Json.FloatAgrees → ∃ w m₂,
        jsonFunction .parse [.text j'.render] m₁ = .finished (.value w m₂) ∧
          m₁.heap.Extends m₂.heap ∧ v.SameData m₁.heap m₂.heap w) := by
  have hdepth : j.depth ≤ Json.maxReadDepth := Json.depth_le_of_parse? ht
  obtain ⟨hdata, hnests⟩ := j.isData_toValue (Json.isFinite_of_parse? ht) m.heap
    (j.toValue m.objectClass m.heap).2 (.refl _) 128 (hdepth.trans (by decide))
  obtain ⟨j', hj', hwritten⟩ := hdata.written hnests
  refine ⟨_, _, j', by rw [parse_eq, ht], ?_, hwritten, fun hfloats => ?_⟩
  · rw [stringify_eq]
    simp only [Json.maxWriteDepth, hj']
  · obtain ⟨hagrees, hroom⟩ := j.isData_toValue (Json.agrees_of_parse? ht hfloats) m.heap
      (j.toValue m.objectClass m.heap).2 (.refl _) Json.maxReadDepth hdepth
    have hstands := Json.standsFor hagrees hj'
    rw [parse_eq, Json.parse?_render hstands.numbers, if_pos ((hstands.nests _).1 hroom)]
    exact ⟨_, _, rfl, hstands.back _⟩

/-- A text with a key that comes twice and is out of order. -/
def scrambled : String := " \x7b\"b\": 1, \"a\": [2.5, -3, null], \"b\": \"x\" \x7d"

def scrambledJson : Json :=
  .object [("b", .number 1), ("a", .array [.number 2.5, .number (-3), .null]), ("b", .text "x")]

/-- What is written for it. -/
def tidyJson : Json := .object [("a", .array [.number 2.5, .number (-3), .null]), ("b", .text "x")]

theorem scrambled_reprinted :
    ∃ v m w m', jsonFunction .parse [.text scrambled] (.fresh .default) = .finished (.value v m) ∧
      jsonFunction .stringify [v] m =
        .finished (.value (.text "\x7b\"a\":[2.5,-3,null],\"b\":\"x\"\x7d") m) ∧
      jsonFunction .parse [.text "\x7b\"a\":[2.5,-3,null],\"b\":\"x\"\x7d"] m =
        .finished (.value w m') ∧
      v.SameData m.heap m'.heap w := by
  have hread : Json.parse? scrambled = some scrambledJson := rfl
  have hone : Json.FloatAgrees 1 :=
    Json.floatAgrees_of_whole (b := ⟨false, 2 ^ 52, -52⟩) (by decide +kernel) (by decide +kernel)
      (by decide +kernel)
  have hthree : Json.FloatAgrees (-3) :=
    Json.floatAgrees_of_whole (b := ⟨true, 3 * 2 ^ 51, -51⟩) (by decide +kernel)
      (by decide +kernel) (by decide +kernel)
  have hnumbers : scrambledJson.Numbers Json.FloatAgrees :=
    ⟨hone, ⟨floatAgrees_fraction, hthree, trivial, trivial⟩, trivial, trivial⟩
  obtain ⟨v, m, j, hparse, hwrite, -, hback⟩ := stringify_parsed hread (.fresh .default)
  obtain ⟨w, m', hagain, -, hsame⟩ := hback hnumbers
  have hrender : j.render = "\x7b\"a\":[2.5,-3,null],\"b\":\"x\"\x7d" := by
    have htidy : tidyJson.render = "\x7b\"a\":[2.5,-3,null],\"b\":\"x\"\x7d" := by decide +kernel
    rw [parse_eq, hread] at hparse
    cases hparse
    rw [stringify_eq, show Value.toJsonWithin? _ _ _ = some tidyJson from rfl] at hwrite
    simp only [Dialogue.finished.injEq, Ending.value.injEq, Value.text.injEq, and_true] at hwrite
    rw [← hwrite, htidy]
  rw [hrender] at hwrite hagain
  exact ⟨v, m, w, m', hparse, hwrite, hagain, hsame⟩

end Library

end ScriptEngine
