import ScriptEngine.Value.Heap
import Mathlib

/-!
# Values that no look tells apart

Two values are bisimilar when they match at once and so do their elements, their elements' elements,
and so on, also round the cycles of the heap. Comparing values follows the arrays and takes a pair
it is still in the middle of for equal. What it calls equal is bisimilar: such an assumption is
discharged when the comparison of its pair ends.

Comparing two values the other way round meets the same pairs of arrays at the same places, each of
them mirrored, and has as much room left at each of them. So both comparisons end alike, also where
they meet a pair again or run out of room.
-/
namespace ScriptEngine.Value

/-- How two values have to match at once, where `R` says which elements match. -/
def Alike (h : Heap) (R : Value → Value → Prop) : Value → Value → Prop
  | nil, nil => True
  | bool a, bool b => a = b
  | number a, number b => a == b
  | text a, text b => a = b
  | function a _ _, function b _ _ => a = b
  | native a _ _, native b _ _ => a = b
  | type a, type b => a.id = b.id
  | object a, object b => a = b
  | array a, array b => a = b ∨ List.Forall₂ R (h.array a).toList (h.array b).toList
  | _, _ => False

variable {h : Heap}

theorem Alike.mono {R S : Value → Value → Prop} (hRS : R ≤ S) : Alike h R ≤ Alike h S := by
  intro a b
  fun_cases Alike h R a b with
  | case9 r s =>
    rintro (rfl | helements)
    · exact .inl rfl
    · exact .inr (helements.imp hRS)
  | case10 => exact False.elim
  | _ => exact id

/-- Only two arrays need more than one look. -/
theorem arrays_or_one_look (h : Heap) (a b : Value) :
    (∃ r s, a = array r ∧ b = array s) ∨
      ∀ n active R, equalWithin h n active a b = true ↔ Alike h R a b := by
  by_cases harrays : ∃ r s, a = array r ∧ b = array s
  · exact .inl harrays
  refine .inr fun n active R => ?_
  fun_cases Alike h R a b with
  | case9 r s => exact absurd ⟨r, s, rfl, rfl⟩ harrays
  | case10 =>
    have hfalse : equalWithin h n active a b = false := by
      rw [equalWithin] <;> assumption
    simp [hfalse]
  | _ => simp [equalWithin]

/-- Two arrays count as equal if they are one array, if the comparison is in the middle of them, or
if there is room to look inside and the elements are equal. -/
theorem equalWithin_array {n : Nat} {active : List (ArrayRef × ArrayRef)} {r s : ArrayRef} :
    equalWithin h n active (array r) (array s) = true ↔
      r = s ∨ (r, s) ∈ active ∨ ∃ m, n = m + 1 ∧
        List.Forall₂ (fun x y => equalWithin h m ((r, s) :: active) x y = true)
          (h.array r).toList (h.array s).toList := by
  cases n with
  | zero => simp [equalWithin]
  | succ n => simp [equalWithin, List.forall₂_iff_zip]

/-- A look at two values, when the pairs of `X` are taken to match. -/
def look (h : Heap) (X : Value → Value → Prop) :
    (Value → Value → Prop) →o (Value → Value → Prop) :=
  ⟨fun R => Alike h (R ⊔ X), fun _ _ hRS => Alike.mono (sup_le_sup_right hRS X)⟩

/-- The greatest relation whose pairs match at once by it and by `X`. -/
def BisimilarGiven (h : Heap) (X : Value → Value → Prop) : Value → Value → Prop := (look h X).gfp

/-- The greatest relation in which values are related exactly if they match at once and their
elements are related. -/
def Bisimilar (h : Heap) : Value → Value → Prop := BisimilarGiven h ⊥

theorem bisimilarGiven_iff {X : Value → Value → Prop} {a b : Value} :
    BisimilarGiven h X a b ↔ Alike h (BisimilarGiven h X ⊔ X) a b :=
  iff_of_eq (congrFun₂ (look h X).map_gfp a b).symm

theorem bisimilar_iff {a b : Value} : Bisimilar h a b ↔ Alike h (Bisimilar h) a b := by
  rw [Bisimilar, bisimilarGiven_iff, sup_bot_eq]

theorem isGreatest_bisimilar :
    IsGreatest {R : Value → Value → Prop | ∀ a b, R a b ↔ Alike h R a b} (Bisimilar h) := by
  refine ⟨fun a b => bisimilar_iff, fun R hR => (look h ⊥).le_gfp fun a b hab => ?_⟩
  exact Alike.mono le_sup_left a b ((hR a b).1 hab)

/-- Pairs that are bisimilar given themselves need not be given. -/
theorem BisimilarGiven.discharge {X S : Value → Value → Prop}
    (hS : S ≤ BisimilarGiven h (X ⊔ S)) : S ≤ BisimilarGiven h X := by
  have hclosed : BisimilarGiven h (X ⊔ S) ≤ Alike h (BisimilarGiven h (X ⊔ S) ⊔ X) :=
    calc BisimilarGiven h (X ⊔ S)
        = Alike h (BisimilarGiven h (X ⊔ S) ⊔ (X ⊔ S)) := (look h (X ⊔ S)).map_gfp.symm
      _ ≤ Alike h (BisimilarGiven h (X ⊔ S) ⊔ X) :=
        Alike.mono (sup_le le_sup_left (sup_le le_sup_right (hS.trans le_sup_left)))
  exact hS.trans ((look h X).le_gfp hclosed)

/-- The pairs that a comparison is in the middle of. -/
def Assumed (active : List (ArrayRef × ArrayRef)) (a b : Value) : Prop :=
  ∃ p ∈ active, a = array p.1 ∧ b = array p.2

/-- What a comparison calls equal is bisimilar, given the pairs that it is in the middle of. -/
theorem equalWithin_sound {n : Nat} {active : List (ArrayRef × ArrayRef)} {a b : Value}
    (hab : equalWithin h n active a b = true) :
    (BisimilarGiven h (Assumed active) ⊔ Assumed active) a b := by
  induction n using Nat.strongRecOn generalizing active a b with
  | ind n ih =>
    obtain ⟨r, s, rfl, rfl⟩ | hlook := arrays_or_one_look h a b
    · obtain rfl | hactive | ⟨m, rfl, helements⟩ := equalWithin_array.1 hab
      · exact .inl (bisimilarGiven_iff.2 (.inl rfl))
      · exact .inr ⟨(r, s), hactive, rfl, rfl⟩
      -- The pair itself is assumed for its elements, and then discharged.
      · let pair : Value → Value → Prop := fun a b => a = array r ∧ b = array s
        have hassumed : Assumed ((r, s) :: active) = Assumed active ⊔ pair := by
          funext a b
          simp [Assumed, pair, or_comm]
        have hinside : BisimilarGiven h (Assumed active ⊔ pair) (array r) (array s) := by
          rw [← hassumed]
          exact bisimilarGiven_iff.2 (.inr (helements.imp fun x y hxy => ih m m.lt_succ_self hxy))
        have hpair : pair ≤ BisimilarGiven h (Assumed active ⊔ pair) := by
          rintro _ _ ⟨rfl, rfl⟩
          exact hinside
        exact .inl (BisimilarGiven.discharge hpair _ _ ⟨rfl, rfl⟩)
    · exact .inl (bisimilarGiven_iff.2 ((hlook n active _).1 hab))

theorem equal_sound {a b : Value} (hab : equal h a b = true) : Bisimilar h a b := by
  have hnothing : Assumed [] = ⊥ := by
    funext a b
    simp [Assumed]
  have hgiven := equalWithin_sound hab
  rwa [hnothing, sup_bot_eq] at hgiven

/-! Equality is symmetric -/

open Float.Model.UnpackedFloat in
theorem number_beq_symm {x y : Float} (hxy : x == y) : y == x := by
  have hxy := (beq_iff_ne_notANumber_and_eq x.toModel.unpack y.toModel.unpack).1 hxy
  exact (beq_iff_ne_notANumber_and_eq y.toModel.unpack x.toModel.unpack).2 (by grind)

variable {a b : Value}

/-- One look at two values tells the same from either side. -/
theorem Alike.symm {R S : Value → Value → Prop} (hRS : ∀ x y, R x y → S y x)
    (hab : Alike h R a b) : Alike h S b a := by
  revert hab
  fun_cases Alike h R a b with
  | case3 x y => exact number_beq_symm
  | case9 r s =>
    rintro (rfl | helements)
    · exact .inl rfl
    · exact .inr (helements.imp hRS).flip
  | case10 => exact False.elim
  | _ => simp_all [Alike]

/-- The pairs that the comparison the other way round is in the middle of. -/
def mirrored (active : List (ArrayRef × ArrayRef)) : List (ArrayRef × ArrayRef) :=
  active.map Prod.swap

theorem mem_mirrored {active : List (ArrayRef × ArrayRef)} {r s : ArrayRef} :
    (s, r) ∈ mirrored active ↔ (r, s) ∈ active := by
  simp [mirrored]

/-- A comparison that succeeds does so the other way round, too. -/
theorem equalWithin_mirrored {n : Nat} {active : List (ArrayRef × ArrayRef)}
    (hab : equalWithin h n active a b = true) : equalWithin h n (mirrored active) b a = true := by
  induction n using Nat.strongRecOn generalizing active a b with
  | ind n ih =>
    by_cases harrays : ∃ r s, a = array r ∧ b = array s
    · obtain ⟨r, s, rfl, rfl⟩ := harrays
      rw [equalWithin_array]
      obtain rfl | hactive | ⟨m, rfl, helements⟩ := equalWithin_array.1 hab
      · exact .inl rfl
      · exact .inr (.inl (mem_mirrored.2 hactive))
      · have hmirrored := helements.imp fun x y hxy => ih m m.lt_succ_self hxy
        exact .inr (.inr ⟨m, rfl, hmirrored.flip⟩)
    · have hlook := (arrays_or_one_look h a b).resolve_left harrays
      have hback := (arrays_or_one_look h b a).resolve_left
        fun ⟨s, r, hb, ha⟩ => harrays ⟨r, s, ha, hb⟩
      have hone : Alike h (fun _ _ => True) a b := (hlook n active _).1 hab
      exact (hback n _ _).2 (hone.symm fun _ _ => id)

/-- Equality is symmetric, on cyclic and on too deep arrays as well. -/
theorem equal_comm (h : Heap) (a b : Value) : equal h a b = equal h b a := by
  rw [Bool.eq_iff_iff]
  exact ⟨equalWithin_mirrored, equalWithin_mirrored⟩

end ScriptEngine.Value
