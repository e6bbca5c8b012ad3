import ScriptEngine.Proofs.Value.Descent

/-!
# When equality is transitive

Being bisimilar is transitive, and so is being equal on a heap without cycles: a way down from the
outer pair leaves a way down of the same length from one of the inner pairs. Round cycles it is not.
Two rings of different sizes are both equal to an array that holds itself, but a comparison of the
rings meets the same pair again only after as many pairs as their least common multiple.
-/
namespace ScriptEngine.Value

open Float.Model.UnpackedFloat in
theorem number_beq_trans {x y z : Float} (hxy : x == y) (hyz : y == z) : x == z := by
  have hxy := (beq_iff_ne_notANumber_and_eq x.toModel.unpack y.toModel.unpack).1 hxy
  have hyz := (beq_iff_ne_notANumber_and_eq y.toModel.unpack z.toModel.unpack).1 hyz
  exact (beq_iff_ne_notANumber_and_eq x.toModel.unpack z.toModel.unpack).2 (by grind)

theorem forall₂_comp {α : Type} {R S T : α → α → Prop} (hT : ∀ x y z, R x y → S y z → T x z)
    {xs ys zs : List α} (hxy : List.Forall₂ R xs ys) (hyz : List.Forall₂ S ys zs) :
    List.Forall₂ T xs zs := by
  induction hxy generalizing zs with
  | nil =>
    cases hyz
    exact .nil
  | cons hx _ ih =>
    obtain _ | ⟨hy, hyz⟩ := hyz
    exact .cons (hT _ _ _ hx hy) (ih hyz)

variable {h : Heap} {a b c : Value}

theorem Alike.trans {R T : Value → Value → Prop} (hR : R ≤ T)
    (hT : ∀ x y z, R x y → R y z → T x z) (hab : Alike h R a b) (hbc : Alike h R b c) :
    Alike h T a c := by
  revert hab
  fun_cases Alike h R a b with
  | case3 x y =>
    intro hxy
    cases c with
    | number z => exact number_beq_trans hxy hbc
    | _ => exact hbc.elim
  | case9 r s =>
    intro hrs
    cases c with
    | array t =>
      obtain rfl | hrs := hrs
      · exact Alike.mono hR _ _ hbc
      · obtain rfl | hst := hbc
        · exact .inr (hrs.imp hR)
        · exact .inr (forall₂_comp hT hrs hst)
    | _ => exact hbc.elim
  | case10 => exact False.elim
  | _ => cases c <;> simp_all [Alike]

theorem Bisimilar.trans (hab : Bisimilar h a b) (hbc : Bisimilar h b c) : Bisimilar h a c := by
  let through : Value → Value → Prop := fun x z =>
    Bisimilar h x z ∨ ∃ y, Bisimilar h x y ∧ Bisimilar h y z
  have hclosed : through ≤ Alike h through := by
    rintro x z (hxz | ⟨y, hxy, hyz⟩)
    · exact Alike.mono (fun _ _ => .inl) _ _ (bisimilar_iff.1 hxz)
    · exact Alike.trans (fun _ _ => .inl) (fun _ y _ hxy hyz => .inr ⟨y, hxy, hyz⟩)
        (bisimilar_iff.1 hxy) (bisimilar_iff.1 hyz)
  exact (look h ⊥).le_gfp (hclosed.trans (Alike.mono le_sup_left)) _ _ (.inr ⟨b, hab, hbc⟩)

/-! Heaps without cycles -/

/-- The array `r` holds the array `s`. -/
def Holds (h : Heap) (r s : ArrayRef) : Prop := array s ∈ (h.array r).toList

/-- No array holds itself, directly or through others. -/
def Acyclic (h : Heap) : Prop := ∀ r, ¬ Relation.TransGen (Holds h) r r

/-- Without cycles no way down passes a pair twice. -/
theorem Acyclic.descent {path : List (ArrayRef × ArrayRef)} (hacyclic : Acyclic h)
    (hbelow : path.IsChain (Below h)) (hapart : ∀ p ∈ path, p.1 ≠ p.2) : Descent h path := by
  let inside (p q : ArrayRef × ArrayRef) : Prop := Relation.TransGen (Holds h) p.1 q.1
  have htrans : IsTrans _ inside := ⟨fun _ _ _ => .trans⟩
  have hinside : path.Pairwise inside := by
    refine (hbelow.imp fun p q hq => ?_).pairwise
    obtain ⟨i, hleft, -⟩ := hq
    exact .single (List.mem_of_getElem? hleft)
  refine ⟨hbelow, hinside.imp fun {p q} hpq heq => ?_, hapart⟩
  subst heq
  exact hacyclic p.1 hpq

/-- Different arrays at one place stand in different arrays. -/
theorem Below.apart {p q : ArrayRef × ArrayRef} (hq : Below h p q) (hapart : q.1 ≠ q.2) :
    p.1 ≠ p.2 := by
  intro heq
  obtain ⟨i, hleft, hright⟩ := hq
  rw [heq, hright] at hleft
  exact hapart (array.inj (Option.some.inj hleft)).symm

/-- Where an array stands in one of two bisimilar arrays, an array stands in the other. -/
theorem Bisimilar.exists_array {r s r' : ArrayRef} (hrs : Bisimilar h (array r) (array s)) {i : Nat}
    (hi : (h.array r).toList[i]? = some (array r')) :
    ∃ s', (h.array s).toList[i]? = some (array s') := by
  obtain rfl | helements := bisimilar_iff.1 hrs
  · exact ⟨r', hi⟩
  · obtain ⟨hleft, hr'⟩ := List.getElem?_eq_some_iff.1 hi
    have hright : i < (h.array s).toList.length := helements.length_eq ▸ hleft
    have hsame := (List.forall₂_iff_get.1 helements).2 i hleft hright
    rw [List.get_eq_getElem, List.get_eq_getElem, hr', bisimilar_iff] at hsame
    cases hs' : (h.array s).toList[i] with
    | array s' => exact ⟨s', List.getElem?_eq_some_iff.2 ⟨hright, hs'⟩⟩
    | _ =>
      rw [hs'] at hsame
      exact hsame.elim

/-- A way down through pairs of `r` and `t` leaves one of the same length through pairs of `r` and
`s`, or of `s` and `t`. -/
theorem exists_inner_way {r s t : ArrayRef} {path : List (ArrayRef × ArrayRef)}
    (hrs : Bisimilar h (array r) (array s)) (hst : Bisimilar h (array s) (array t))
    (hbelow : ((r, t) :: path).IsChain (Below h)) (hapart : ∀ p ∈ (r, t) :: path, p.1 ≠ p.2) :
    ∃ p inner, (p = (r, s) ∨ p = (s, t)) ∧ inner.length = path.length ∧
      (p :: inner).IsChain (Below h) ∧ ∀ q ∈ p :: inner, q.1 ≠ q.2 := by
  induction path generalizing r s t with
  | nil =>
    by_cases heq : r = s
    · have hst : s ≠ t := heq ▸ hapart (r, t) List.mem_cons_self
      exact ⟨(s, t), [], .inr rfl, rfl, .singleton _, by simpa using hst⟩
    · exact ⟨(r, s), [], .inl rfl, rfl, .singleton _, by simpa using heq⟩
  | cons q path ih =>
    obtain ⟨hq, hbelow⟩ := List.isChain_cons_cons.1 hbelow
    obtain ⟨i, hleft, hright⟩ := hq
    obtain ⟨s', hmiddle⟩ := hrs.exists_array hleft
    have hq₁ : Below h (r, s) (q.1, s') := ⟨i, hleft, hmiddle⟩
    have hq₂ : Below h (s, t) (s', q.2) := ⟨i, hmiddle, hright⟩
    obtain ⟨p', inner, hp', hlength, hinner, hinnerApart⟩ :=
      ih (hrs.below hq₁) (hst.below hq₂) hbelow fun p hp => hapart p (List.mem_cons_of_mem _ hp)
    have hp'Apart := hinnerApart p' List.mem_cons_self
    obtain ⟨p, hp, hstep⟩ : ∃ p, (p = (r, s) ∨ p = (s, t)) ∧ Below h p p' := by
      obtain rfl | rfl := hp'
      · exact ⟨(r, s), .inl rfl, hq₁⟩
      · exact ⟨(s, t), .inr rfl, hq₂⟩
    exact ⟨p, p' :: inner, hp, congrArg (· + 1) hlength, List.isChain_cons_cons.2 ⟨hstep, hinner⟩,
      List.forall_mem_cons.2 ⟨hstep.apart hp'Apart, hinnerApart⟩⟩

theorem Acyclic.shallow (hacyclic : Acyclic h) (hab : equal h a b = true)
    (hbc : equal h b c = true) : Shallow h a c := by
  obtain ⟨hab, hshallow₁⟩ := equal_iff.1 hab
  obtain ⟨hbc, hshallow₂⟩ := equal_iff.1 hbc
  rintro ⟨r, t⟩ path rfl rfl hd
  have hsome : ∃ s, b = array s := by
    cases b with
    | array s => exact ⟨s, rfl⟩
    | _ => exact (bisimilar_iff.1 hab).elim
  obtain ⟨s, rfl⟩ := hsome
  obtain ⟨p, inner, hp, hlength, hbelow, hapart⟩ := exists_inner_way hab hbc hd.below hd.apart
  have hd' := hacyclic.descent hbelow hapart
  rw [List.length_cons, ← hlength]
  obtain rfl | rfl := hp
  · exact hshallow₁ (r, s) inner rfl rfl hd'
  · exact hshallow₂ (s, t) inner rfl rfl hd'

/-- Of values that are equal to a common third, the outer two are bisimilar, and equal exactly if no
way down from them passes more than `maxNesting` pairs. Without cycles they always are. -/
theorem equal_trans_iff (hab : equal h a b = true) (hbc : equal h b c = true) :
    Bisimilar h a c ∧ (equal h a c = true ↔ Shallow h a c) ∧
      (Acyclic h → equal h a c = true) := by
  have hac : Bisimilar h a c := (equal_sound hab).trans (equal_sound hbc)
  refine ⟨hac, ?_, fun hacyclic => equal_iff.2 ⟨hac, hacyclic.shallow hab hbc⟩⟩
  rw [equal_iff]
  exact and_iff_right hac

/-- As many arrays as `size` says, from place `first` on, each of which holds the next one only. -/
def ring (first size : Nat) : List (Array Value) :=
  (List.range size).map fun i => #[array ⟨first + (i + 1) % size⟩]

/-- An array that holds itself, and two rings. -/
def rings (m n : Nat) : Heap := ⟨(ring 0 1 ++ ring 1 m ++ ring (1 + m) n).toArray, #[]⟩

/-- Rings of two and three arrays: six pairs stand below their first arrays. -/
theorem rings_two_three : equal (rings 2 3) (array ⟨1⟩) (array ⟨0⟩) = true ∧
    equal (rings 2 3) (array ⟨0⟩) (array ⟨3⟩) = true ∧
    Bisimilar (rings 2 3) (array ⟨1⟩) (array ⟨3⟩) ∧
    Shallow (rings 2 3) (array ⟨1⟩) (array ⟨3⟩) := by
  have hab : equal (rings 2 3) (array ⟨1⟩) (array ⟨0⟩) = true := by decide +kernel
  have hbc : equal (rings 2 3) (array ⟨0⟩) (array ⟨3⟩) = true := by decide +kernel
  obtain ⟨hac, hiff, -⟩ := equal_trans_iff hab hbc
  exact ⟨hab, hbc, hac, hiff.1 (by decide +kernel)⟩

/-- Rings of sixteen and seventeen arrays are unequal, and both equal to an array that holds
itself. -/
theorem equal_not_transitive : ¬ ∀ (h : Heap) (a b c : Value),
    equal h a b = true → equal h b c = true → equal h a c = true := by
  intro htrans
  have hac := htrans (rings 16 17) (array ⟨1⟩) (array ⟨0⟩) (array ⟨17⟩) (by decide +kernel)
    (by decide +kernel)
  have hunequal : equal (rings 16 17) (array ⟨1⟩) (array ⟨17⟩) = false := by decide +kernel
  exact absurd (hac.symm.trans hunequal) nofun

end ScriptEngine.Value
