import ScriptEngine.Json.Reader
import Mathlib.Data.List.TakeWhile
import Mathlib.Tactic.IntervalCases

/-!
# JSON strings and numbers read back

A quoted string is read up to its closing quote and no further, and it is the string that was
written. A number that is read from its own text is also read in the middle of an array or object.
-/
namespace ScriptEngine.Json

/-! Strings -/

theorem escape?_control {n : Nat} (hn : n < 0x20) (rest : List Char) :
    escape? ('u' :: '0' :: '0' :: Nat.digitChar (n / 16) :: Nat.digitChar (n % 16) :: rest) =
      some (Char.ofNat n, rest) := by
  interval_cases n <;> rfl

/-- The characters written for one are read as that one. -/
theorem textRest?_escapedChar (n : Nat) (read : List Char) (c : Char) (rest : List Char) :
    textRest? (n + 1) read (escapedChar c ++ rest) = textRest? n (c :: read) rest := by
  have hescape {cs : List Char} (h : escape? cs = some (c, rest)) :
      textRest? (n + 1) read ('\\' :: cs) = textRest? n (c :: read) rest := by
    simp only [textRest?, h]
  fun_cases escapedChar c with
  | case8 _ hlow =>
    rw [if_pos hlow]
    refine hescape ((escape?_control hlow rest).trans ?_)
    rw [Char.ofNat_toNat]
  | case9 _ hlow hquote hslash =>
    rw [if_neg hlow, List.singleton_append, textRest?]
    · rw [if_neg hlow]
    all_goals rintro rfl
    · exact hquote rfl
    · exact hslash rfl
  | _ => exact hescape rfl

theorem textRest?_quoted {content : List Char} {n : Nat} (read rest : List Char)
    (hn : content.length < n) :
    textRest? n read (content.flatMap escapedChar ++ '"' :: rest) =
      some (String.ofList (read.reverse ++ content), rest) := by
  induction content generalizing n read with
  | nil =>
    obtain ⟨n, rfl⟩ : ∃ k, n = k + 1 := ⟨n - 1, by omega⟩
    simp [textRest?]
  | cons c content ih =>
    obtain ⟨n, rfl⟩ : ∃ k, n = k + 1 := ⟨n - 1, by omega⟩
    rw [List.flatMap_cons, List.append_assoc, textRest?_escapedChar,
      ih (c :: read) (by simpa using hn)]
    simp

theorem length_le_flatMap_escapedChar (content : List Char) :
    content.length ≤ (content.flatMap escapedChar).length := by
  induction content with
  | nil => exact Nat.le_refl _
  | cons c content ih =>
    have hc : 1 ≤ (escapedChar c).length := by
      unfold escapedChar
      split <;> first | split | skip
      all_goals simp
    rw [List.flatMap_cons, List.length_append, List.length_cons]
    omega

/-- A quoted string behind its opening quote. -/
theorem text?_quotedText (s : String) (rest : List Char) :
    text? (s.toList.flatMap escapedChar ++ '"' :: rest) = some (s, rest) := by
  rw [text?, textRest?_quoted, List.reverse_nil, List.nil_append, String.ofList_toList]
  have := length_le_flatMap_escapedChar s.toList
  rw [List.length_append]
  omega

/-! Numbers -/

/-- What may follow a value inside an array or object, or nothing. -/
def Ends (rest : List Char) : Prop := ∀ c ∈ rest.head?, c = ',' ∨ c = ']' ∨ c = '}'

theorem Ends.nil : Ends [] := nofun

theorem Ends.cons {c : Char} (hc : c = ',' ∨ c = ']' ∨ c = '}') (rest : List Char) :
    Ends (c :: rest) := by
  rintro _ ⟨⟩
  exact hc

theorem fractionDigits?_of_ne {c : Char} (hc : c ≠ '.') (cs : List Char) :
    fractionDigits? (c :: cs) = some ([], c :: cs) := by
  rw [fractionDigits?]
  rintro _ ⟨⟩
  exact hc rfl

/-- What ends a number is neither a point with digits nor an exponent. -/
theorem Ends.no_fraction {rest : List Char} (hrest : Ends rest) :
    fractionDigits? rest = some ([], rest) := by
  match rest with
  | [] => rfl
  | c :: rest =>
    refine fractionDigits?_of_ne ?_ rest
    obtain rfl | rfl | rfl := hrest c rfl <;> decide

theorem Ends.no_exponent {rest : List Char} (hrest : Ends rest) :
    exponent? rest = some (0, rest) := by
  match rest with
  | [] => rfl
  | c :: rest =>
    have hc : ¬(c == 'e' || c == 'E') = true := by
      obtain rfl | rfl | rfl := hrest c rfl <;> decide
    simp only [exponent?, if_neg hc]

theorem number?_of_ne {c : Char} (hc : c ≠ '-') (cs : List Char) :
    number? (c :: cs) = magnitude? false (c :: cs) := by
  rw [number?]
  rintro _ ⟨⟩
  exact hc rfl

theorem exponent?_unsigned {c : Char} (hmark : (c == 'e' || c == 'E') = true) {cs : List Char}
    (hplus : ∀ rest, cs ≠ '+' :: rest) (hminus : ∀ rest, cs ≠ '-' :: rest) :
    exponent? (c :: cs) = exponentDigits? false cs := by
  rw [exponent?, if_pos hmark]
  · exact hplus
  · exact hminus

section

variable {cs left rest : List Char} (hrest : Ends rest)
include hrest

theorem digitRun_append (cs : List Char) :
    digitRun (cs ++ rest) = ((digitRun cs).1, (digitRun cs).2 ++ rest) := by
  have hnone : rest.takeWhile Char.isDigit = [] ∧ rest.dropWhile Char.isDigit = rest := by
    cases rest with
    | nil => exact ⟨rfl, rfl⟩
    | cons c rest =>
      have hc : ¬ c.isDigit = true := by
        obtain rfl | rfl | rfl := hrest c rfl <;> decide
      exact ⟨List.takeWhile_cons_of_neg hc, List.dropWhile_cons_of_neg hc⟩
  simp only [digitRun, List.takeWhile_append, List.dropWhile_append, hnone, Prod.mk.injEq]
  refine ⟨?_, ?_⟩
  · split
    next h => rw [List.append_nil, (List.takeWhile_prefix _).eq_of_length h]
    next => rfl
  · split
    next h => rw [List.isEmpty_iff.1 h, List.nil_append]
    next => rfl

theorem wholeDigits?_append {ds : List Char} (h : wholeDigits? cs = some (ds, left)) :
    wholeDigits? (cs ++ rest) = some (ds, left ++ rest) := by
  simp only [wholeDigits?, digitRun_append hrest] at h ⊢
  split at h <;> simp_all

theorem fractionDigits?_append {ds : List Char} (h : fractionDigits? cs = some (ds, left)) :
    fractionDigits? (cs ++ rest) = some (ds, left ++ rest) := by
  match cs with
  | [] =>
    cases h
    exact hrest.no_fraction
  | c :: cs =>
    by_cases hc : c = '.'
    · subst hc
      simp only [List.cons_append, fractionDigits?, digitRun_append hrest] at h ⊢
      split at h <;> simp_all
    · rw [fractionDigits?_of_ne hc] at h
      cases h
      exact fractionDigits?_of_ne hc _

theorem exponentDigits?_append {negative : Bool} {e : Int}
    (h : exponentDigits? negative cs = some (e, left)) :
    exponentDigits? negative (cs ++ rest) = some (e, left ++ rest) := by
  simp only [exponentDigits?, digitRun_append hrest] at h ⊢
  split at h <;> simp_all

theorem exponent?_append {e : Int} (h : exponent? cs = some (e, left)) :
    exponent? (cs ++ rest) = some (e, left ++ rest) := by
  match cs with
  | [] =>
    cases h
    exact hrest.no_exponent
  | c :: cs =>
    rw [List.cons_append]
    by_cases hmark : (c == 'e' || c == 'E') = true
    · match cs with
      | [] =>
        rw [exponent?_unsigned hmark (by simp) (by simp)] at h
        cases h
      | d :: cs =>
        by_cases hplus : d = '+'
        · subst hplus
          simp only [List.cons_append, exponent?, if_pos hmark] at h ⊢
          exact exponentDigits?_append hrest h
        by_cases hminus : d = '-'
        · subst hminus
          simp only [List.cons_append, exponent?, if_pos hmark] at h ⊢
          exact exponentDigits?_append hrest h
        · have hsign {b : Char} (hb : d ≠ b) (tail : List Char) : ∀ rest, d :: tail ≠ b :: rest :=
            fun _ heq => hb (List.cons.inj heq).1
          rw [exponent?_unsigned hmark (hsign hplus _) (hsign hminus _)] at h
          rw [List.cons_append, exponent?_unsigned hmark (hsign hplus _) (hsign hminus _)]
          exact exponentDigits?_append hrest h
    · simp only [exponent?, if_neg hmark] at h ⊢
      cases h
      rfl

theorem magnitude?_append {negative : Bool} {x : Float}
    (h : magnitude? negative cs = some (x, left)) :
    magnitude? negative (cs ++ rest) = some (x, left ++ rest) := by
  simp only [magnitude?, Option.bind_eq_bind, Option.bind_eq_some_iff, Prod.exists] at h
  obtain ⟨whole, cs₁, hwhole, fraction, cs₂, hfraction, e, cs₃, he, y, hy, ⟨⟩⟩ := h
  simp only [magnitude?, wholeDigits?_append hrest hwhole, Option.bind_eq_bind, Option.bind_some,
    fractionDigits?_append hrest hfraction, exponent?_append hrest he]
  rw [hy]
  rfl

/-- A number is read alike alone and in the middle of an array or object. -/
theorem number?_append {x : Float} (h : number? cs = some (x, left)) :
    number? (cs ++ rest) = some (x, left ++ rest) := by
  match cs with
  | [] => cases h
  | c :: cs =>
    by_cases hc : c = '-'
    · subst hc
      exact magnitude?_append hrest h
    · rw [number?_of_ne hc] at h
      rw [List.cons_append, number?_of_ne hc]
      exact magnitude?_append hrest h

end

/-! Whole numbers -/

/-- Digits are taken in while the number that they make up stays below the bound. -/
theorem takeDigits_of_lt {ds : List Char} {significand : Nat}
    (h : Nat.ofDigitChars 10 ds significand < significandBound) :
    takeDigits significand ds = (Nat.ofDigitChars 10 ds significand, []) := by
  induction ds generalizing significand with
  | nil => rfl
  | cons d ds ih =>
    have hle : 10 * significand + (d.toNat - '0'.toNat) ≤
        Nat.ofDigitChars 10 (d :: ds) significand := by
      rw [Nat.ofDigitChars_cons, Nat.ofDigitChars_eq_ofDigitChars_zero]
      exact Nat.le_add_right_of_le (Nat.le_mul_of_pos_left _ (Nat.pow_pos (by decide)))
    rw [takeDigits, if_pos (hle.trans_lt h)]
    exact ih h

/-- No number but zero is written with a zero in front. -/
theorem head?_digitsOf {n : Nat} (hn : 0 < n) : (Number.digitsOf n).head? ≠ some '0' := by
  induction n using Nat.strongRecOn with
  | _ n ih =>
    unfold Number.digitsOf
    rcases Nat.lt_or_ge n 10 with hlt | hge
    · rw [Nat.toDigits_of_lt_base hlt]
      interval_cases n <;> decide
    · obtain ⟨c, cs, hcs⟩ :=
        List.exists_cons_of_ne_nil (Nat.toDigits_ne_nil (n := n / 10) (b := 10))
      have hhead := ih (n / 10) (Nat.div_lt_self hn (by decide)) (Nat.div_pos hge (by decide))
      rw [Number.digitsOf, hcs] at hhead
      rwa [Nat.toDigits_of_base_le (by decide) hge, hcs]

theorem digitRun_digitsOf (n : Nat) : digitRun (Number.digitsOf n) = (Number.digitsOf n, []) := by
  have hdigits : ∀ c ∈ Number.digitsOf n, c.isDigit = true := fun c hc =>
    Nat.isDigit_of_mem_toDigits (by decide) (by decide) hc
  exact Prod.ext (List.takeWhile_eq_self_iff.2 hdigits) (List.dropWhile_eq_nil_iff.2 hdigits)

theorem wholeDigits?_digitsOf (n : Nat) :
    wholeDigits? (Number.digitsOf n) = some (Number.digitsOf n, []) := by
  rw [wholeDigits?, digitRun_digitsOf]
  split
  next hnil => exact absurd (Prod.mk.inj hnil).1 Nat.toDigits_ne_nil
  next hzero =>
    have hds := (Prod.mk.inj hzero).1
    rcases Nat.eq_zero_or_pos n with rfl | hn
    · cases hds
    · exact absurd (congrArg List.head? hds) (head?_digitsOf hn)
  next => rfl

/-- A whole number is read from its digits. -/
theorem magnitude?_digitsOf {n : Nat} (hn : n < significandBound) (negative : Bool) :
    magnitude? negative (Number.digitsOf n) =
      (scaled? negative n 0).map fun x => (x, []) := by
  have htake : takeDigits 0 (Number.digitsOf n) = (n, []) := by
    have hvalue : Nat.ofDigitChars 10 (Number.digitsOf n) 0 = n := Nat.ofDigitChars_ten_toDigits
    rw [takeDigits_of_lt (by rwa [hvalue]), hvalue]
  simp only [magnitude?, wholeDigits?_digitsOf, Option.bind_eq_bind, Option.bind_some,
    Ends.nil.no_fraction, Ends.nil.no_exponent, htake, takeDigits, List.length_nil,
    Int.natCast_zero, Int.sub_self, Int.add_zero, Int.sub_zero]
  cases scaled? negative n 0 <;> rfl

theorem number?_digitsOf {n : Nat} (hn : n < significandBound) :
    number? (Number.digitsOf n) = (scaled? false n 0).map fun x => (x, []) := by
  obtain ⟨c, cs, hcs⟩ := List.exists_cons_of_ne_nil (show Number.digitsOf n ≠ [] from
    Nat.toDigits_ne_nil)
  have hc : c ≠ '-' := by
    rintro rfl
    have hdigit : Char.isDigit '-' = true :=
      Nat.isDigit_of_mem_toDigits (b := 10) (n := n) (by decide) (by decide)
        (hcs ▸ List.mem_cons_self : '-' ∈ Number.digitsOf n)
    cases hdigit
  rw [← magnitude?_digitsOf hn, hcs, number?_of_ne hc]

end ScriptEngine.Json
