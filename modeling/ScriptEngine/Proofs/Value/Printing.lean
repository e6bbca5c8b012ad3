import ScriptEngine.Value.Heap
import Mathlib.Data.List.Forall2

/-!
# Printing arrays

The text of a value is written as it is met, element by element, save that some arrays are replaced
by an ellipsis. Which ones is said by where they occur: an occurrence of an array comes with the
arrays that it stands in, on the way down from the value that is printed. Printing replaces those
that would go on for ever, and those that stand too deep. So a value in which no array stands in
itself or too deep has the text that writing it out in full gives, and an array that two places
share is written out at each of them.
-/
namespace ScriptEngine.Value

/-- The array `r` occurs in `v` inside the arrays of `path`, the innermost one first. -/
inductive Occurs (h : Heap) (v : Value) : List ArrayRef → ArrayRef → Prop
  | here {r : ArrayRef} (hv : v = array r) : Occurs h v [] r
  | inside {path : List ArrayRef} {r s : ArrayRef} (hr : Occurs h v path r)
      (hs : array s ∈ (h.array r).toList) : Occurs h v (r :: path) s

/-- The text of a value that stands inside the arrays of `path`, when exactly the occurrences that
`cut` tells are replaced by an ellipsis. -/
inductive Rendering (h : Heap) (cut : List ArrayRef → ArrayRef → Prop) :
    List ArrayRef → Value → String → Prop
  | plain {path : List ArrayRef} {v : Value} (hv : ∀ r, v ≠ array r) :
      Rendering h cut path v (v.plainText h)
  | ellipsis {path : List ArrayRef} {r : ArrayRef} (hcut : cut path r) :
      Rendering h cut path (array r) "[...]"
  | items {path : List ArrayRef} {r : ArrayRef} {texts : List String} (hcut : ¬ cut path r)
      (hlength : (h.array r).toList.length = texts.length)
      (helements : ∀ x t, (x, t) ∈ (h.array r).toList.zip texts → Rendering h cut (r :: path) x t) :
      Rendering h cut path (array r) ("[" ++ ", ".intercalate texts ++ "]")

/-- An array that is one of those it stands in, or that stands in as many as are written out. -/
def Guarded (path : List ArrayRef) (r : ArrayRef) : Prop := r ∈ path ∨ maxNesting ≤ path.length

variable {h : Heap}

/-! What a rendering is -/

section

variable {cut : List ArrayRef → ArrayRef → Prop} {path : List ArrayRef} {r : ArrayRef} {t : String}

theorem rendering_plain_iff {v : Value} (hv : ∀ r, v ≠ array r) :
    Rendering h cut path v t ↔ v.plainText h = t := by
  constructor
  · intro ht
    cases ht with
    | plain => rfl
    | ellipsis | items => exact absurd rfl (hv _)
  · rintro rfl
    exact .plain hv

theorem rendering_cut_iff (hcut : cut path r) :
    Rendering h cut path (array r) t ↔ "[...]" = t := by
  constructor
  · intro ht
    cases ht with
    | plain hv => exact absurd rfl (hv r)
    | ellipsis => rfl
    | items hopen => exact absurd hcut hopen
  · rintro rfl
    exact .ellipsis hcut

theorem rendering_items_iff (hcut : ¬ cut path r) :
    Rendering h cut path (array r) t ↔
      ∃ texts, ((h.array r).toList.length = texts.length ∧
        ∀ x t, (x, t) ∈ (h.array r).toList.zip texts → Rendering h cut (r :: path) x t) ∧
        "[" ++ ", ".intercalate texts ++ "]" = t := by
  constructor
  · intro ht
    cases ht with
    | plain hv => exact absurd rfl (hv r)
    | ellipsis hclosed => exact absurd hclosed hcut
    | items _ hlength helements => exact ⟨_, ⟨hlength, helements⟩, rfl⟩
  · rintro ⟨texts, ⟨hlength, helements⟩, rfl⟩
    exact .items hcut hlength helements

end

/-- Only what is cut of the occurrences in a value matters to its text. -/
theorem Rendering.congr {cut cut' : List ArrayRef → ArrayRef → Prop} {v : Value}
    (hcut : ∀ path r, Occurs h v path r → (cut path r ↔ cut' path r))
    {path : List ArrayRef} {w : Value} {t : String} (ht : Rendering h cut path w t)
    (hw : ∀ r, w = array r → Occurs h v path r) : Rendering h cut' path w t := by
  induction ht with
  | plain hv => exact .plain hv
  | ellipsis hclosed => exact .ellipsis ((hcut _ _ (hw _ rfl)).1 hclosed)
  | @items path r texts hopen hlength _ ih =>
    have hr := hw r rfl
    refine .items (fun hclosed => hopen ((hcut _ _ hr).2 hclosed)) hlength fun x t hxt => ?_
    refine ih x t hxt ?_
    rintro s rfl
    exact hr.inside (List.of_mem_zip hxt).1

/-! What printing writes -/

theorem textWithin_plain {n : Nat} {path : List ArrayRef} {v : Value} (hv : ∀ r, v ≠ array r) :
    v.textWithin h n path = v.plainText h := by
  cases v with
  | array r => exact absurd rfl (hv r)
  | _ => cases n <;> rfl

section

variable {n : Nat} {path : List ArrayRef} {r : ArrayRef} (hn : n + path.length = maxNesting)
include hn

theorem textWithin_guarded (hcut : Guarded path r) :
    (array r).textWithin h n path = "[...]" := by
  cases n with
  | zero => rfl
  | succ n =>
    have hpath : r ∈ path := hcut.resolve_right (by omega)
    simp [textWithin, hpath]

theorem textWithin_written (hcut : ¬ Guarded path r) : ∃ m, n = m + 1 ∧
    (array r).textWithin h n path =
      "[" ++ ", ".intercalate ((h.array r).toList.map (textWithin h m (r :: path))) ++ "]" := by
  obtain ⟨hpath, hroom⟩ := not_or.1 hcut
  obtain ⟨m, rfl⟩ : ∃ m, n = m + 1 := Nat.exists_eq_add_one.2 (by omega)
  exact ⟨m, rfl, by simp [textWithin, hpath]⟩

end

theorem length_eq_and_zip_iff {f : Value → String} {xs : List Value} {texts : List String} :
    (xs.length = texts.length ∧ ∀ x t, (x, t) ∈ xs.zip texts → f x = t) ↔ xs.map f = texts := by
  rw [← List.forall₂_eq_eq_eq, List.forall₂_map_left_iff, List.forall₂_iff_zip]

/-- What is written with `n` arrays to go is the rendering that replaces what is guarded. -/
theorem rendering_iff_textWithin {n : Nat} {path : List ArrayRef} {v : Value} {t : String}
    (hn : n + path.length = maxNesting) :
    Rendering h Guarded path v t ↔ v.textWithin h n path = t := by
  induction n using Nat.strongRecOn generalizing path v t with
  | ind n ih =>
    by_cases hv : ∀ r, v ≠ array r
    · rw [rendering_plain_iff hv, textWithin_plain hv]
    push Not at hv
    obtain ⟨r, rfl⟩ := hv
    by_cases hcut : Guarded path r
    · rw [rendering_cut_iff hcut, textWithin_guarded hn hcut]
    · obtain ⟨m, rfl, htext⟩ := textWithin_written (h := h) hn hcut
      have helement (x : Value) (t : String) :
          Rendering h Guarded (r :: path) x t ↔ x.textWithin h m (r :: path) = t :=
        ih m m.lt_succ_self (by rw [List.length_cons]; omega)
      simp only [rendering_items_iff hcut, helement, length_eq_and_zip_iff, exists_eq_left', htext]

/-- Printing a value replaces exactly the arrays that occur in themselves or inside `maxNesting`
others. A value in which there are none has the text that writes everything out, wherever and how
often it occurs. -/
theorem toText_guarded (h : Heap) (v : Value) :
    (∀ t, Rendering h Guarded [] v t ↔ v.toText h = t) ∧
    ((∀ path r, Occurs h v path r → r ∉ path ∧ path.length < maxNesting) →
      ∀ t, Rendering h (fun _ _ => False) [] v t ↔ v.toText h = t) := by
  have hguarded (t : String) : Rendering h Guarded [] v t ↔ v.toText h = t :=
    rendering_iff_textWithin rfl
  refine ⟨hguarded, fun hfinite t => ?_⟩
  have hcut : ∀ path r, Occurs h v path r → (Guarded path r ↔ False) := fun path r hr =>
    iff_false_intro (not_or.2 ⟨(hfinite path r hr).1, Nat.not_le.2 (hfinite path r hr).2⟩)
  have htop : ∀ r, v = array r → Occurs h v [] r := fun r => .here
  rw [← hguarded]
  exact ⟨fun ht => ht.congr (fun path r hr => (hcut path r hr).symm) htop,
    fun ht => ht.congr hcut htop⟩

/-- An array that is an element of another one twice. -/
def shared : Heap := ⟨#[#[array ⟨1⟩, nil, array ⟨1⟩], #[text "a"]], #[]⟩

theorem shared_occurs {path : List ArrayRef} {r : ArrayRef}
    (hr : Occurs shared (array ⟨0⟩) path r) : path = [] ∧ r = ⟨0⟩ ∨ path = [⟨0⟩] ∧ r = ⟨1⟩ := by
  induction hr with
  | here hv => exact .inl ⟨rfl, (array.inj hv).symm⟩
  | inside _ hs ih =>
    rcases ih with ⟨rfl, rfl⟩ | ⟨rfl, rfl⟩
    · exact .inr ⟨rfl, by simpa [shared, Heap.array] using hs⟩
    · simp [shared, Heap.array] at hs

/-- It is written out at both places. -/
theorem shared_written_twice :
    (∀ path r, Occurs shared (array ⟨0⟩) path r → r ∉ path ∧ path.length < maxNesting) ∧
    Rendering shared (fun _ _ => False) [] (array ⟨0⟩) "[[a], nil, [a]]" := by
  have hfinite : ∀ path r, Occurs shared (array ⟨0⟩) path r →
      r ∉ path ∧ path.length < maxNesting := by
    intro path r hr
    rcases shared_occurs hr with ⟨rfl, rfl⟩ | ⟨rfl, rfl⟩ <;> decide
  exact ⟨hfinite, ((toText_guarded shared (array ⟨0⟩)).2 hfinite _).2 (by decide +kernel)⟩

end ScriptEngine.Value
