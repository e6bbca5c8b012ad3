import Mathlib.Order.Bounds.Basic
import ScriptEngine.Library.Arrays
import ScriptEngine.Library.Texts
import ScriptEngine.Proofs.Number.Naturals

/-!
# Searching, splitting and replacing agree

Each of these operations walks the text by itself. What they find is where a text occurs: searching
finds the least place, and splitting takes the places from left to right, each behind the one before
it. So the pieces put together again are the text, and replacing puts something else between them.
-/
namespace ScriptEngine

namespace Text

variable {needle cs : List Char} {c : Char} {i : Nat}

/-! Where a text occurs -/

/-- In front of the occurrence there are `i` characters. -/
def OccursAt (needle cs : List Char) (i : Nat) : Prop :=
  ∃ before after, before ++ needle ++ after = cs ∧ before.length = i

theorem exists_occursAt : (∃ i, OccursAt needle cs i) ↔ needle <:+: cs := by
  constructor
  · rintro ⟨_, before, after, hcs, -⟩
    exact ⟨before, after, hcs⟩
  · rintro ⟨before, after, hcs⟩
    exact ⟨_, before, after, hcs, rfl⟩

theorem occursAt_zero : OccursAt needle cs 0 ↔ needle <+: cs := by
  constructor
  · rintro ⟨before, after, hcs, hlength⟩
    rw [List.eq_nil_of_length_eq_zero hlength, List.nil_append] at hcs
    exact ⟨after, hcs⟩
  · rintro ⟨after, hcs⟩
    exact ⟨[], after, hcs, rfl⟩

theorem occursAt_cons_succ : OccursAt needle (c :: cs) (i + 1) ↔ OccursAt needle cs i := by
  constructor
  · rintro ⟨_ | ⟨b, before⟩, after, hcs, hlength⟩
    · cases hlength
    · exact ⟨before, after, (List.cons.inj hcs).2, Nat.succ.inj hlength⟩
  · rintro ⟨before, after, hcs, hlength⟩
    exact ⟨c :: before, after, congrArg (c :: ·) hcs, congrArg (· + 1) hlength⟩

namespace OccursAt

theorem append (h : OccursAt needle cs i) (ds : List Char) : OccursAt needle (cs ++ ds) i := by
  obtain ⟨before, after, rfl, hlength⟩ := h
  exact ⟨before, after ++ ds, by rw [← List.append_assoc], hlength⟩

theorem add_length_le (h : OccursAt needle cs i) : i + needle.length ≤ cs.length := by
  obtain ⟨before, after, rfl, rfl⟩ := h
  simp only [List.length_append]
  omega

/-- What stands there is the text that occurs. -/
theorem take_drop (h : OccursAt needle cs i) : (cs.drop i).take needle.length = needle := by
  obtain ⟨before, after, rfl, rfl⟩ := h
  rw [List.append_assoc, List.drop_left, List.take_left]

end OccursAt

theorem occursAt_append_length (xs : List Char) :
    OccursAt needle (xs ++ cs) xs.length ↔ needle <+: cs := by
  induction xs with
  | nil => exact occursAt_zero
  | cons x xs ih => exact occursAt_cons_succ.trans ih

/-! Searching -/

theorem occurs_iff : occurs needle cs ↔ needle <:+: cs := by
  induction cs with
  | nil => rw [occurs, List.isEmpty_iff, List.infix_nil]
  | cons c cs ih =>
    rw [occurs, Bool.or_eq_true, ih, List.isPrefixOf_iff_prefix, List.infix_cons_iff]

theorem indexFrom_eq_map (position : Nat) :
    indexFrom needle position cs = (indexOf? needle cs).map (position + ·) := by
  unfold indexOf?
  induction cs generalizing position with
  | nil =>
    unfold indexFrom
    split <;> rfl
  | cons c cs ih =>
    unfold indexFrom
    split
    · rfl
    · rw [ih, ih (0 + 1), Option.map_map]
      exact Option.map_congr fun i _ => by simp only [Function.comp_apply]; omega

/-- A text that does not occur in front occurs later or not at all. -/
theorem indexOf?_cons (c : Char) (cs : List Char) :
    indexOf? needle (c :: cs) =
      if needle.isPrefixOf (c :: cs) then some 0 else (indexOf? needle cs).map (1 + ·) := by
  rw [indexOf?, indexFrom, indexFrom_eq_map]

theorem indexOf?_eq_none : indexOf? needle cs = none ↔ ¬ needle <:+: cs := by
  induction cs with
  | nil => simp [indexOf?, indexFrom]
  | cons c cs ih =>
    rw [indexOf?_cons, List.infix_cons_iff, ← List.isPrefixOf_iff_prefix, not_or, ← ih]
    split <;> simp_all

/-- What is found is the first place. -/
theorem isLeast_of_indexOf? (h : indexOf? needle cs = some i) :
    IsLeast {j | OccursAt needle cs j} i := by
  induction cs generalizing i with
  | nil =>
    unfold indexOf? indexFrom at h
    split at h
    next hneedle =>
      cases h
      rw [List.isEmpty_iff.1 hneedle]
      exact ⟨occursAt_zero.2 List.nil_prefix, fun _ _ => Nat.zero_le _⟩
    next => cases h
  | cons c cs ih =>
    rw [indexOf?_cons] at h
    split at h
    next hprefix =>
      cases h
      exact ⟨occursAt_zero.2 (List.isPrefixOf_iff_prefix.1 hprefix), fun _ _ => Nat.zero_le _⟩
    next hprefix =>
      obtain ⟨k, hk, rfl⟩ := Option.map_eq_some_iff.1 h
      obtain ⟨hoccurs, hleast⟩ := ih hk
      rw [Nat.add_comm]
      refine ⟨occursAt_cons_succ.2 hoccurs, fun j hj => ?_⟩
      cases j with
      | zero => exact absurd (List.isPrefixOf_iff_prefix.2 (occursAt_zero.1 hj)) hprefix
      | succ j => exact Nat.succ_le_succ (hleast (occursAt_cons_succ.1 hj))

/-! Splitting -/

variable {delimiter : List Char}

theorem piecesFrom_ne_nil (skip : Nat) (piece : List Char) :
    piecesFrom delimiter skip piece cs ≠ [] := by
  fun_induction piecesFrom delimiter skip piece cs <;> simp_all

/-- The delimiter takes the character that it begins with and some of those behind. -/
theorem append_drop_of_isPrefixOf (hne : delimiter ≠ [])
    (h : delimiter.isPrefixOf (c :: cs)) :
    delimiter ++ cs.drop (delimiter.length - 1) = c :: cs := by
  obtain ⟨d, ds, rfl⟩ := List.exists_cons_of_ne_nil hne
  exact List.prefix_iff_eq_append.1 (List.isPrefixOf_iff_prefix.1 h)

/-- The pieces with the delimiter between them are what was left to read. -/
theorem intercalate_piecesFrom (hne : delimiter ≠ []) (skip : Nat) (piece : List Char) :
    delimiter.intercalate (piecesFrom delimiter skip piece cs) = piece.reverse ++ cs.drop skip := by
  fun_induction piecesFrom delimiter skip piece cs with
  | case1 => rw [List.intercalate_singleton, List.drop_nil, List.append_nil]
  | case2 skip piece c cs ih => rw [ih, List.drop_succ_cons]
  | case3 piece c cs hprefix ih =>
    rw [List.intercalate_cons_of_ne_nil (piecesFrom_ne_nil _ _), ih, List.reverse_nil,
      List.nil_append, List.append_assoc, append_drop_of_isPrefixOf hne hprefix, List.drop_zero]
  | case4 piece c cs hprefix ih =>
    rw [ih, List.reverse_cons, List.append_assoc]
    rfl

/-- A piece is only read on where no delimiter has begun, so none is in a piece. -/
theorem not_infix_of_mem_piecesFrom (hne : delimiter ≠ []) (skip : Nat) (piece : List Char)
    (hpiece : ∀ i < piece.length, ¬ OccursAt delimiter (piece.reverse ++ cs.drop skip) i) :
    ∀ p ∈ piecesFrom delimiter skip piece cs, ¬ delimiter <:+: p := by
  have hread {piece tail : List Char}
      (h : ∀ i < piece.length, ¬ OccursAt delimiter (piece.reverse ++ tail) i) :
      ¬ delimiter <:+: piece.reverse := fun hinfix => by
    obtain ⟨i, hi⟩ := exists_occursAt.2 hinfix
    have hlength := hi.add_length_le
    have hpos := List.length_pos_iff.2 hne
    rw [List.length_reverse] at hlength
    exact h i (by omega) (hi.append tail)
  fun_induction piecesFrom delimiter skip piece cs with
  | case1 => simpa using hread hpiece
  | case2 skip piece c cs ih => exact ih hpiece
  | case3 piece c cs hprefix ih =>
    rw [List.forall_mem_cons]
    exact ⟨hread hpiece, ih fun i hi => absurd hi (Nat.not_lt_zero i)⟩
  | case4 piece c cs hprefix ih =>
    refine ih fun i hi hoccurs => ?_
    rw [List.reverse_cons, List.append_assoc] at hoccurs
    rcases Nat.lt_succ_iff_lt_or_eq.1 hi with hi | rfl
    · exact hpiece i hi hoccurs
    · rw [← List.length_reverse, occursAt_append_length] at hoccurs
      exact hprefix (List.isPrefixOf_iff_prefix.2 hoccurs)

/-- Nothing between the characters of a text. -/
theorem intercalate_nil_singletons (cs : List Char) :
    [].intercalate (cs.map fun c => [c]) = cs := by
  induction cs with
  | nil => rfl
  | cons c cs ih =>
    cases cs with
    | nil => rfl
    | cons d ds =>
      have hrest : [].intercalate ([d] :: ds.map fun c => [c]) = d :: ds := ih
      rw [List.map_cons, List.map_cons, List.intercalate_cons_cons, hrest]
      rfl

theorem intercalate_split (delimiter cs : List Char) :
    delimiter.intercalate (split delimiter cs) = cs := by
  unfold split
  split
  next hempty => rw [List.isEmpty_iff.1 hempty, intercalate_nil_singletons]
  next hne => exact intercalate_piecesFrom (fun h => hne (List.isEmpty_iff.2 h)) 0 []

/-- Occurrences that overlap one taken before are passed over. -/
example : split ['a', 'a'] ['a', 'a', 'a', 'b'] = [[], ['a', 'b']] := by decide

theorem not_infix_of_mem_split (hne : delimiter ≠ []) {p : List Char}
    (hp : p ∈ split delimiter cs) : ¬ delimiter <:+: p := by
  rw [split, if_neg fun h => hne (List.isEmpty_iff.1 h)] at hp
  exact not_infix_of_mem_piecesFrom hne 0 [] (fun i hi => absurd hi (Nat.not_lt_zero i)) p hp

/-! Replacing -/

/-- What has been written is what was written before the piece, and then the piece. -/
theorem replaceFrom_append (target replacement : List Char) (skip : Nat) (piece done : List Char) :
    replaceFrom target replacement skip (piece ++ done) cs =
      done.reverse ++ replacement.intercalate (piecesFrom target skip piece cs) := by
  fun_induction piecesFrom target skip piece cs generalizing done with
  | case1 => simp [replaceFrom]
  | case2 skip piece c cs ih => rw [replaceFrom, ih]
  | case3 piece c cs hprefix ih =>
    have hbehind := ih (replacement.reverse ++ (piece ++ done))
    rw [List.nil_append] at hbehind
    rw [replaceFrom, if_pos hprefix, hbehind,
      List.intercalate_cons_of_ne_nil (piecesFrom_ne_nil _ _)]
    simp
  | case4 piece c cs hprefix ih =>
    rw [replaceFrom, if_neg hprefix]
    exact ih done

theorem replace_eq_intercalate (hne : delimiter ≠ []) (replacement : List Char) :
    replace delimiter replacement cs = replacement.intercalate (split delimiter cs) := by
  rw [replace, split, if_neg fun h => hne (List.isEmpty_iff.1 h),
    if_neg fun h => hne (List.isEmpty_iff.1 h)]
  exact replaceFrom_append delimiter replacement 0 [] []

end Text

namespace Library

/-! The methods of texts -/

/-- The texts of an array of texts are its elements. -/
theorem join_texts (call : Caller) {m : Machine} {a : ArrayRef} {texts : List String}
    (ha : m.heap.array a = (texts.map Value.text).toArray) (separator : String) :
    arrayMethod call .join (some (.array a)) [.text separator] m =
      .finished (.value (.text (separator.intercalate texts)) m) := by
  have htexts : texts.map (Value.toText m.heap ∘ Value.text) = texts := List.map_id' texts
  change answer (joined m.heap (m.heap.array a) [.text separator]) m = _
  rw [ha, joined, List.toList_toArray, List.map_map, htexts]
  rfl

theorem intercalate_ofList (separator : String) (pieces : List (List Char)) :
    separator.intercalate (pieces.map String.ofList) =
      String.ofList (separator.toList.intercalate pieces) := by
  have hpieces : (pieces.map String.ofList).map String.toList = pieces := by
    rw [List.map_map]
    exact List.map_id'' (fun _ => String.toList_ofList) pieces
  rw [← String.ofList_toList (s := separator.intercalate _), String.toList_intercalate, hpieces]

theorem split_text (m : Machine) (s d : String) : ∃ (a : ArrayRef) (m' : Machine),
    textMethod .split (some (.text s)) [.text d] m = .finished (.value (.array a) m') ∧
    m'.heap.array a =
      (((Text.split d.toList s.toList).map String.ofList).map Value.text).toArray := by
  refine ⟨_, _, rfl, ?_⟩
  simp [Heap.array, ofChars]

/-- Numbers that are held exactly select the part between two places. -/
theorem substring_ofNat (cs : List Char) {i n : Nat} (hi : i < 2 ^ 53) (hn : n < 2 ^ 53) :
    substring cs (.ofNat i) (some (.ofNat n)) = (cs.drop i).take n := by
  rw [substring, if_neg (Number.ofNat_not_lt_zero i)]
  simp only [toNat, wordSize, Number.toNatBelow_ofNat hi, Number.toNatBelow_ofNat hn]
  split
  next hle =>
    rcases Nat.eq_zero_or_pos n with rfl | hpos
    · rfl
    · exact absurd hle (Number.ofNat_not_le_zero hpos hn)
  next => rfl

variable {m : Machine} {s d : String}

theorem indexOf_of_not_infix (h : ¬ d.toList <:+: s.toList) :
    textMethod .indexOf (some (.text s)) [.text d] m = .finished (.value (.number (-1)) m) := by
  change answer (.ok (positionOf d.toList s.toList)) m = _
  rw [positionOf, Text.indexOf?_eq_none.2 h]
  rfl

theorem indexOf_of_infix (h : d.toList <:+: s.toList) :
    ∃ i, IsLeast {j | Text.OccursAt d.toList s.toList j} i ∧
      textMethod .indexOf (some (.text s)) [.text d] m = .finished (.value (.ofNat i) m) := by
  obtain ⟨i, hi⟩ := Option.ne_none_iff_exists'.1 fun hnone => Text.indexOf?_eq_none.1 hnone h
  refine ⟨i, Text.isLeast_of_indexOf? hi, ?_⟩
  change answer (.ok (positionOf d.toList s.toList)) m = _
  rw [positionOf, hi]
  rfl

/-- The part of a text from the place of an occurrence on. -/
theorem substr_of_occursAt {i : Nat} (h : Text.OccursAt d.toList s.toList i)
    (hs : s.length < 2 ^ 53) :
    textMethod .substr (some (.text s)) [.ofNat i, .ofNat d.length] m =
      .finished (.value (.text d) m) := by
  have hbound := h.add_length_le
  rw [String.length_toList, String.length_toList] at hbound
  change Eval.pure (ofChars (substring s.toList (.ofNat i) (some (.ofNat d.length)))) m = _
  rw [substring_ofNat s.toList (by omega) (by omega), ← String.length_toList, h.take_drop, ofChars,
    String.ofList_toList]
  rfl

/-- Joining the pieces of a text gives the text again, and with something else between them it
replaces the delimiter. A text is found where it first stands, if it is included at all. -/
theorem text_methods_agree (call : Caller) (m : Machine) (s d r : String) :
    (∃ (pieces : List String) (a : ArrayRef) (m' : Machine),
      textMethod .split (some (.text s)) [.text d] m = .finished (.value (.array a) m') ∧
      m'.heap.array a = (pieces.map Value.text).toArray ∧
      arrayMethod call .join (some (.array a)) [.text d] m' = .finished (.value (.text s) m') ∧
      (d ≠ "" →
        (∀ p ∈ pieces, ¬ d.toList <:+: p.toList) ∧
        ∃ t, textMethod .replace (some (.text s)) [.text d, .text r] m' =
            .finished (.value (.text t) m') ∧
          arrayMethod call .join (some (.array a)) [.text r] m' =
            .finished (.value (.text t) m'))) ∧
    ∃ (x : Float) (found : Bool),
      textMethod .indexOf (some (.text s)) [.text d] m = .finished (.value (.number x) m) ∧
      textMethod .includes (some (.text s)) [.text d] m = .finished (.value (.bool found) m) ∧
      (found ↔ d.toList <:+: s.toList) ∧ (x == -1) = !found ∧
      (found → ∃ i, x = .ofNat i ∧ IsLeast {j | Text.OccursAt d.toList s.toList j} i ∧
        (s.toList.drop i).take d.length = d.toList ∧
        (s.length < 2 ^ 53 → textMethod .substr (some (.text s)) [.number x, .ofNat d.length] m =
          .finished (.value (.text d) m))) := by
  constructor
  · obtain ⟨a, m', hsplit, ha⟩ := split_text m s d
    refine ⟨_, a, m', hsplit, ha, ?_, fun hd => ?_⟩
    · rw [join_texts call ha, intercalate_ofList, Text.intercalate_split, String.ofList_toList]
    · have hne : d.toList ≠ [] := fun h => hd (String.toList_eq_nil_iff.1 h)
      refine ⟨fun p hp => ?_, _, rfl, ?_⟩
      · obtain ⟨piece, hpiece, rfl⟩ := List.mem_map.1 hp
        rw [String.toList_ofList]
        exact Text.not_infix_of_mem_split hne hpiece
      · rw [join_texts call ha, intercalate_ofList, Text.replace_eq_intercalate hne]
  · have hincludes : textMethod .includes (some (.text s)) [.text d] m =
        .finished (.value (.bool (Text.occurs d.toList s.toList)) m) := rfl
    by_cases hoccurs : d.toList <:+: s.toList
    · obtain ⟨i, hleast, hindex⟩ := indexOf_of_infix (m := m) hoccurs
      rw [Text.occurs_iff.2 hoccurs] at hincludes
      exact ⟨.ofNat i, true, hindex, hincludes, iff_of_true rfl hoccurs,
        Number.ofNat_ne_minus_one i, fun _ => ⟨i, rfl, hleast, hleast.1.take_drop,
          substr_of_occursAt hleast.1⟩⟩
    · rw [eq_false_of_ne_true fun h => hoccurs (Text.occurs_iff.1 h)] at hincludes
      exact ⟨-1, false, indexOf_of_not_infix hoccurs, hincludes, iff_of_false nofun hoccurs, rfl,
        nofun⟩

end Library

end ScriptEngine
