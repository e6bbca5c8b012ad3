import ScriptEngine.Proofs.Value.Bisimilar

/-!
# How deep a comparison goes

A comparison goes down through pairs of arrays that stand at equal places, and stops at a pair it is
in the middle of. So the only thing that makes bisimilar values unequal is a way down through more
than `maxNesting` different pairs. Few pairs leave no room for a long way.
-/
namespace ScriptEngine.Value

/-- The pair `q` stands at one place inside both arrays of `p`. -/
def Below (h : Heap) (p q : ArrayRef × ArrayRef) : Prop :=
  ∃ i : Nat, (h.array p.1).toList[i]? = some (array q.1) ∧
    (h.array p.2).toList[i]? = some (array q.2)

/-- A way down through pairs of two arrays each that passes no pair twice. -/
structure Descent (h : Heap) (path : List (ArrayRef × ArrayRef)) : Prop where
  below : path.IsChain (Below h)
  nodup : path.Nodup
  apart : ∀ p ∈ path, p.1 ≠ p.2

variable {h : Heap}

theorem below_iff {p q : ArrayRef × ArrayRef} :
    Below h p q ↔ (array q.1, array q.2) ∈ (h.array p.1).toList.zip (h.array p.2).toList := by
  simp only [Below, List.mem_iff_getElem?, List.getElem?_zip_eq_some]

theorem Bisimilar.below {p q : ArrayRef × ArrayRef} (hp : Bisimilar h (array p.1) (array p.2))
    (hq : Below h p q) : Bisimilar h (array q.1) (array q.2) := by
  rcases bisimilar_iff.1 hp with heq | helements
  · obtain ⟨i, hleft, hright⟩ := hq
    have hsame : array q.1 = array q.2 := by
      rw [heq, hright] at hleft
      exact (Option.some.inj hleft).symm
    exact bisimilar_iff.2 (.inl (array.inj hsame))
  · exact (List.forall₂_iff_zip.1 helements).2 (below_iff.1 hq)

theorem descent_cons {p : ArrayRef × ArrayRef} {path : List (ArrayRef × ArrayRef)} :
    Descent h (p :: path) ↔
      p.1 ≠ p.2 ∧ p ∉ path ∧ (∀ q ∈ path.head?, Below h p q) ∧ Descent h path := by
  constructor
  · rintro ⟨hbelow, hnodup, hapart⟩
    obtain ⟨hfirst, hbelow⟩ := List.isChain_cons.1 hbelow
    obtain ⟨hnew, hnodup⟩ := List.nodup_cons.1 hnodup
    obtain ⟨hp, hapart⟩ := List.forall_mem_cons.1 hapart
    exact ⟨hp, hnew, hfirst, hbelow, hnodup, hapart⟩
  · rintro ⟨hp, hnew, hfirst, hbelow, hnodup, hapart⟩
    exact ⟨List.isChain_cons.2 ⟨hfirst, hbelow⟩, List.nodup_cons.2 ⟨hnew, hnodup⟩,
      List.forall_mem_cons.2 ⟨hp, hapart⟩⟩

theorem Descent.take {path : List (ArrayRef × ArrayRef)} (hd : Descent h path) (n : Nat) :
    Descent h (path.take n) :=
  ⟨hd.below.take n, hd.nodup.sublist (path.take_sublist n),
    fun p hp => hd.apart p (List.mem_of_mem_take hp)⟩

/-- Elements that are bisimilar but not equal are two arrays. -/
theorem exists_below {n : Nat} {active : List (ArrayRef × ArrayRef)} {p : ArrayRef × ArrayRef}
    (helements : List.Forall₂ (Bisimilar h) (h.array p.1).toList (h.array p.2).toList)
    (hunequal : ¬ List.Forall₂ (fun x y => equalWithin h n active x y = true)
      (h.array p.1).toList (h.array p.2).toList) :
    ∃ q, Below h p q ∧ equalWithin h n active (array q.1) (array q.2) = false := by
  obtain ⟨hlength, hbisimilar⟩ := List.forall₂_iff_zip.1 helements
  by_contra hnone
  refine hunequal (List.forall₂_iff_zip.2 ⟨hlength, fun {x y} hxy => ?_⟩)
  obtain ⟨r, s, rfl, rfl⟩ | hlook := arrays_or_one_look h x y
  · by_contra hfalse
    exact hnone ⟨(r, s), below_iff.2 hxy, eq_false_of_ne_true hfalse⟩
  · exact (hlook n active _).2 (bisimilar_iff.1 (hbisimilar hxy))

theorem equalWithin_array_eq_false {n : Nat} {active : List (ArrayRef × ArrayRef)}
    {r s : ArrayRef} :
    equalWithin h n active (array r) (array s) = false ↔
      r ≠ s ∧ (r, s) ∉ active ∧ ∀ m, n = m + 1 →
        ¬ List.Forall₂ (fun x y => equalWithin h m ((r, s) :: active) x y = true)
          (h.array r).toList (h.array s).toList := by
  rw [Bool.eq_false_iff, Ne, equalWithin_array]
  simp only [not_or, not_exists, not_and, ne_eq]

/-- Bisimilar arrays are called unequal exactly if a way down uses up the room that is left without
meeting a pair that the comparison is in the middle of. -/
theorem equalWithin_eq_false_iff {n : Nat} {active : List (ArrayRef × ArrayRef)}
    {p : ArrayRef × ArrayRef} (hp : Bisimilar h (array p.1) (array p.2)) :
    equalWithin h n active (array p.1) (array p.2) = false ↔
      ∃ path, path.length = n ∧ Descent h (p :: path) ∧ ∀ q ∈ p :: path, q ∉ active := by
  rw [equalWithin_array_eq_false]
  induction n generalizing active p with
  | zero =>
    constructor
    · rintro ⟨hapart, hnew, -⟩
      have hd : Descent h [p] := ⟨.singleton p, List.nodup_singleton p, by simpa using hapart⟩
      exact ⟨[], rfl, hd, by simpa using hnew⟩
    · rintro ⟨path, -, hd, hactive⟩
      exact ⟨hd.apart p List.mem_cons_self, hactive p List.mem_cons_self, nofun⟩
  | succ n ih =>
    constructor
    · rintro ⟨hapart, hnew, hroom⟩
      obtain ⟨q, hq, hfalse⟩ :=
        exists_below ((bisimilar_iff.1 hp).resolve_left hapart) (hroom n rfl)
      obtain ⟨path, hlength, hd, hactive⟩ :=
        (ih (hp.below hq)).1 (equalWithin_array_eq_false.1 hfalse)
      have hpath : p ∉ q :: path := fun hmem => hactive p hmem List.mem_cons_self
      refine ⟨q :: path, congrArg (· + 1) hlength, descent_cons.2 ⟨hapart, hpath, ?_, hd⟩, ?_⟩
      · rintro _ ⟨⟩
        exact hq
      · exact List.forall_mem_cons.2
          ⟨hnew, fun x hx hmem => hactive x hx (List.mem_cons_of_mem p hmem)⟩
    · rintro ⟨path, hlength, hd, hactive⟩
      obtain ⟨q, path, rfl⟩ := List.exists_cons_of_length_eq_add_one hlength
      obtain ⟨hapart, hpath, hbelow, hd⟩ := descent_cons.1 hd
      obtain ⟨hnew, hactive⟩ := List.forall_mem_cons.1 hactive
      have hq : Below h p q := hbelow q rfl
      have hfree : ∀ x ∈ q :: path, x ∉ p :: active := fun x hx =>
        List.not_mem_cons_of_ne_of_not_mem (fun heq => hpath (heq ▸ hx)) (hactive x hx)
      have hfalse := equalWithin_array_eq_false.2
        ((ih (hp.below hq)).2 ⟨path, Nat.succ.inj hlength, hd, hfree⟩)
      refine ⟨hapart, hnew, fun m hm helements => ?_⟩
      obtain rfl := Nat.succ.inj hm
      have htrue := (List.forall₂_iff_zip.1 helements).2 (below_iff.1 hq)
      exact absurd (htrue.symm.trans hfalse) nofun

/-- No way down from two values passes more than `maxNesting` pairs. -/
def Shallow (h : Heap) (a b : Value) : Prop :=
  ∀ p path, a = array p.1 → b = array p.2 → Descent h (p :: path) →
    (p :: path).length ≤ maxNesting

/-- Values are called equal exactly if they are bisimilar and no way down from them is too long. -/
theorem equal_iff {a b : Value} : equal h a b = true ↔ Bisimilar h a b ∧ Shallow h a b := by
  constructor
  · intro hab
    refine ⟨equal_sound hab, ?_⟩
    rintro p path rfl rfl hd
    by_contra hlong
    have hlength : (path.take maxNesting).length = maxNesting := by
      rw [List.length_take]
      exact Nat.min_eq_left (Nat.lt_succ_iff.1 (Nat.lt_of_not_le hlong))
    have hfalse := (equalWithin_eq_false_iff (equal_sound hab)).2
      ⟨path.take maxNesting, hlength, hd.take (maxNesting + 1), fun _ _ => List.not_mem_nil⟩
    exact absurd (hab.symm.trans hfalse) nofun
  · rintro ⟨hab, hshallow⟩
    obtain ⟨r, s, rfl, rfl⟩ | hlook := arrays_or_one_look h a b
    · by_contra hfalse
      obtain ⟨path, hlength, hd, -⟩ :=
        (equalWithin_eq_false_iff (p := (r, s)) hab).1 (eq_false_of_ne_true hfalse)
      have hroom := hshallow _ path rfl rfl hd
      rw [List.length_cons, hlength] at hroom
      exact Nat.not_succ_le_self _ hroom
    · exact (hlook maxNesting [] _).2 (bisimilar_iff.1 hab)

/-- The pairs of arrays that stand at equal places of two values. -/
def pairsBelow (h : Heap) (a b : Value) : Set (ArrayRef × ArrayRef) :=
  {q | ∃ p, a = array p.1 ∧ b = array p.2 ∧ Relation.ReflTransGen (Below h) p q}

/-- A way down passes each pair once, so it is no longer than there are pairs. -/
theorem shallow_of_encard_le {a b : Value} (hcount : (pairsBelow h a b).encard ≤ maxNesting) :
    Shallow h a b := by
  rintro p path rfl rfl hd
  have hbelow : ∀ q ∈ path, Relation.TransGen (Below h) p q :=
    (List.pairwise_cons.1 (hd.below.imp fun _ _ => .single).pairwise).1
  have hsub : ↑(p :: path).toFinset ⊆ pairsBelow h (array p.1) (array p.2) := by
    intro q hq
    rcases List.mem_cons.1 (List.mem_toFinset.1 hq) with rfl | hq
    · exact ⟨q, rfl, rfl, .refl⟩
    · exact ⟨p, rfl, rfl, (hbelow q hq).to_reflTransGen⟩
  have hle := (Set.encard_le_encard hsub).trans hcount
  rw [Set.encard_coe_eq_coe_finsetCard, List.toFinset_card_of_nodup hd.nodup] at hle
  exact_mod_cast hle

/-- What is called equal is bisimilar. What is bisimilar is called equal if at most `maxNesting`
pairs of arrays stand at equal places, cycles counted once. -/
theorem equal_bisimilar (h : Heap) (a b : Value) :
    (equal h a b = true → Bisimilar h a b) ∧
    (Bisimilar h a b → (pairsBelow h a b).encard ≤ maxNesting → equal h a b = true) :=
  ⟨equal_sound, fun hab hcount => equal_iff.2 ⟨hab, shallow_of_encard_le hcount⟩⟩

/-- An array that holds itself, and two that hold each other. -/
def loops : Heap :=
  ⟨#[#[bool true, array ⟨0⟩], #[bool true, array ⟨2⟩], #[bool true, array ⟨1⟩]], #[]⟩

theorem loops_pairs : pairsBelow loops (array ⟨0⟩) (array ⟨1⟩) ⊆ {(⟨0⟩, ⟨1⟩), (⟨0⟩, ⟨2⟩)} := by
  rintro q ⟨⟨_, _⟩, ⟨⟩, ⟨⟩, hq⟩
  induction hq with
  | refl => exact .inl rfl
  | @tail p q _ hstep ih =>
    rw [below_iff] at hstep
    rcases ih with rfl | rfl
    · have hq : q.1 = ⟨0⟩ ∧ q.2 = ⟨2⟩ := by simpa [loops, Heap.array] using hstep
      exact .inr (Prod.ext hq.1 hq.2)
    · have hq : q.1 = ⟨0⟩ ∧ q.2 = ⟨1⟩ := by simpa [loops, Heap.array] using hstep
      exact .inl (Prod.ext hq.1 hq.2)

theorem loops_equal : equal loops (array ⟨0⟩) (array ⟨1⟩) = true ∧
    Bisimilar loops (array ⟨0⟩) (array ⟨1⟩) ∧
    (pairsBelow loops (array ⟨0⟩) (array ⟨1⟩)).encard ≤ maxNesting := by
  have hsame := (equal_bisimilar loops (array ⟨0⟩) (array ⟨1⟩)).1 (by decide +kernel)
  have hcount : (pairsBelow loops (array ⟨0⟩) (array ⟨1⟩)).encard ≤ maxNesting :=
    calc (pairsBelow loops (array ⟨0⟩) (array ⟨1⟩)).encard
        ≤ ({(⟨0⟩, ⟨1⟩), (⟨0⟩, ⟨2⟩)} : Set (ArrayRef × ArrayRef)).encard :=
          Set.encard_le_encard loops_pairs
      _ = 2 := Set.encard_pair (by decide)
      _ ≤ maxNesting := Nat.cast_le.2 (by decide)
  exact ⟨(equal_bisimilar loops _ _).2 hsame hcount, hsame, hcount⟩

end ScriptEngine.Value
