import ScriptEngine.Proofs.Json.Literals
import ScriptEngine.Proofs.Number.Naturals

/-!
# JSON text read back

A number that is written as an integer is read as an equal number: its digits are that integer
again, and the double of it is exact. Any other is printed as the double that it is, and whether the
text of a double is read as an equal number is a property of the printer.

A tree is read back from its text, with the number that its own text stands for in the place of each
number, if the reader has room for its arrays and objects, and it is refused if the reader has not.
What follows the text does not matter as long as it could follow inside an array or object.
-/
namespace ScriptEngine.Json

/-! Numbers -/

/-- What the printer makes of a double is read as an equal number. Nothing is asked of whole numbers
of moderate size. -/
def FloatAgrees (x : Float) : Prop :=
  ∀ b, Number.Binary.ofFloat? x = some b → ¬(b.isWhole = true ∧ b.truncate.natAbs < wholeBound) →
    ∃ y, number? (floatText b) = some (y, []) ∧ (x == y) = true

/-- A finite number on which printer and reader agree. -/
structure Agrees (x : Float) : Prop where
  isFinite : x.isFinite = true
  float : FloatAgrees x

/-- Whole numbers of moderate size become integers, all others are printed as the doubles they
are. -/
theorem numeral_eq {x : Float} {b : Number.Binary} (hb : Number.Binary.ofFloat? x = some b) :
    numeral x = if b.isWhole = true ∧ b.truncate.natAbs < wholeBound then .whole b.truncate
      else .float b := by
  simp [numeral, hb]

theorem floatAgrees_of_whole {x : Float} {b : Number.Binary}
    (hb : Number.Binary.ofFloat? x = some b) (hwhole : b.isWhole = true)
    (hlt : b.truncate.natAbs < wholeBound) : FloatAgrees x := by
  intro b' hb' hother
  obtain rfl : b = b' := Option.some.inj (hb.symm.trans hb')
  exact absurd ⟨hwhole, hlt⟩ hother

theorem floatAgrees_of_float {x y : Float} {b : Number.Binary}
    (hb : Number.Binary.ofFloat? x = some b) (hread : number? (floatText b) = some (y, []))
    (hxy : (x == y) = true) : FloatAgrees x := by
  intro b' hb' _
  obtain rfl : b = b' := Option.some.inj (hb.symm.trans hb')
  exact ⟨y, hread, hxy⟩

/-- The text of a number reads as an equal number. -/
def Returns (x : Float) : Prop := ∃ y, number? (numberText x) = some (y, []) ∧ (x == y) = true

/-- The digits of a small number come to that number exactly, with either sign. -/
theorem scaled?_signedNat (negative : Bool) {n : Nat} (hn : 0 < n) (hlt : n < 2 ^ 53) :
    scaled? negative n 0 = some (Number.signedNat negative n) := by
  have hscale : Number.ofDecimal n 0 * Number.ofDecimal 1 0 = Float.ofNat n :=
    Number.ofNat_mul_one hn hlt
  have hfinite := Number.isFinite_signedNat negative hn hlt
  rw [scaled?, if_neg (by omega)]
  simp only [if_neg hn.ne', Int.le_refl, if_true, hscale]
  exact if_pos hfinite

theorem wholeBound_lt : wholeBound < 2 ^ 53 := by decide

/-- A number that is written as an integer is the double of that integer. -/
theorem eq_of_numeral {x : Float} {n : Int} (h : numeral x = .whole n) :
    n.natAbs < wholeBound ∧
      (n = 0 ∧ (x == 0) = true ∨ n ≠ 0 ∧ x = Number.signedNat (n < 0) n.natAbs) := by
  cases hb : Number.Binary.ofFloat? x with
  | none => simp [numeral, hb] at h
  | some b =>
    rw [numeral_eq hb] at h
    split at h
    next hwhole =>
      cases h
      exact ⟨hwhole.2, Number.eq_of_isWhole hb hwhole.1 (hwhole.2.trans wholeBound_lt)⟩
    next => cases h

/-- An integer is read as an equal number. -/
theorem returns_whole {x : Float} {n : Int} (h : numeral x = .whole n) : Returns x := by
  obtain ⟨hlt, ⟨rfl, hzero⟩ | ⟨hne, hx⟩⟩ := eq_of_numeral h
  · exact ⟨0, by rw [numberText, h]; decide +kernel, hzero⟩
  · have hn : 0 < n.natAbs := Int.natAbs_pos.2 hne
    have hsmall : n.natAbs < significandBound :=
      (hlt.trans wholeBound_lt).trans (by decide)
    have hread := scaled?_signedNat (n < 0) hn (hlt.trans wholeBound_lt)
    have hfinite := Number.isFinite_signedNat (n < 0) hn (hlt.trans wholeBound_lt)
    refine ⟨x, ?_, hx ▸ Number.beq_self_of_isFinite hfinite⟩
    rw [numberText, h, Numeral.chars, signed]
    by_cases hneg : n < 0
    · rw [if_pos (decide_eq_true hneg), number?, magnitude?_digitsOf hsmall]
      rw [decide_eq_true hneg] at hread hx
      rw [hread, ← hx]
      rfl
    · rw [if_neg (by simpa using hneg), number?_digitsOf hsmall]
      rw [decide_eq_false hneg] at hread hx
      rw [hread, ← hx]
      rfl

theorem Agrees.returns {x : Float} (hx : Agrees x) : Returns x := by
  cases hb : Number.Binary.ofFloat? x with
  | none => exact absurd hx.isFinite (by rw [Number.Binary.isFinite_eq_false.2 hb]; decide)
  | some b =>
    by_cases hwhole : b.isWhole = true ∧ b.truncate.natAbs < wholeBound
    · exact returns_whole ((numeral_eq hb).trans (if_pos hwhole))
    · obtain ⟨y, hy, hxy⟩ := hx.float b hb hwhole
      exact ⟨y, by rw [numberText, numeral_eq hb, if_neg hwhole]; exact hy, hxy⟩

/-- The number that the text of a number stands for. -/
def readNumber (x : Float) : Float := ((number? (numberText x)).map Prod.fst).getD x

mutual

/-- The tree with each number as its text reads. -/
def readBack : Json → Json
  | null => null
  | bool b => bool b
  | number x => number (readNumber x)
  | text s => text s
  | array items => array (readBackItems items)
  | object members => object (readBackMembers members)

def readBackItems : List Json → List Json
  | [] => []
  | v :: rest => v.readBack :: readBackItems rest

def readBackMembers : List (String × Json) → List (String × Json)
  | [] => []
  | (key, v) :: rest => (key, v.readBack) :: readBackMembers rest

end

mutual

/-- How deep arrays and objects are nested. -/
def depth : Json → Nat
  | array items => itemsDepth items + 1
  | object members => membersDepth members + 1
  | _ => 0

def itemsDepth : List Json → Nat
  | [] => 0
  | v :: rest => max v.depth (itemsDepth rest)

def membersDepth : List (String × Json) → Nat
  | [] => 0
  | (_, v) :: rest => max v.depth (membersDepth rest)

end

mutual

/-- All numbers of a tree are of a kind. -/
def Numbers (kind : Float → Prop) : Json → Prop
  | number x => kind x
  | array items => ItemNumbers kind items
  | object members => MemberNumbers kind members
  | _ => True

def ItemNumbers (kind : Float → Prop) : List Json → Prop
  | [] => True
  | v :: rest => v.Numbers kind ∧ ItemNumbers kind rest

def MemberNumbers (kind : Float → Prop) : List (String × Json) → Prop
  | [] => True
  | (_, v) :: rest => v.Numbers kind ∧ MemberNumbers kind rest

end

theorem readBackItems_eq_map (items : List Json) : readBackItems items = items.map readBack := by
  induction items with
  | nil => rfl
  | cons v rest ih => rw [readBackItems, ih, List.map_cons]

theorem readBackMembers_eq_map (members : List (String × Json)) :
    readBackMembers members = members.map fun m => (m.1, m.2.readBack) := by
  induction members with
  | nil => rfl
  | cons m rest ih => rw [readBackMembers, ih, List.map_cons]

theorem itemsDepth_le_iff {items : List Json} {n : Nat} :
    itemsDepth items ≤ n ↔ ∀ v ∈ items, v.depth ≤ n := by
  induction items with
  | nil => simp [itemsDepth]
  | cons v rest ih => simp [itemsDepth, ih]

theorem membersDepth_le_iff {members : List (String × Json)} {n : Nat} :
    membersDepth members ≤ n ↔ ∀ m ∈ members, m.2.depth ≤ n := by
  induction members with
  | nil => simp [membersDepth]
  | cons m rest ih => rw [membersDepth, Nat.max_le, ih, List.forall_mem_cons]

theorem itemNumbers_iff {kind : Float → Prop} {items : List Json} :
    ItemNumbers kind items ↔ ∀ v ∈ items, v.Numbers kind := by
  induction items with
  | nil => simp [ItemNumbers]
  | cons v rest ih => rw [ItemNumbers, ih, List.forall_mem_cons]

theorem memberNumbers_iff {kind : Float → Prop} {members : List (String × Json)} :
    MemberNumbers kind members ↔ ∀ m ∈ members, m.2.Numbers kind := by
  induction members with
  | nil => simp [MemberNumbers]
  | cons m rest ih => rw [MemberNumbers, ih, List.forall_mem_cons]

theorem Returns.number?_numberText {x : Float} (hx : Returns x) {rest : List Char}
    (hrest : Ends rest) : number? (numberText x ++ rest) = some (readNumber x, rest) := by
  obtain ⟨y, hy, -⟩ := hx
  have happend := number?_append hrest hy
  rwa [show y = readNumber x by simp [readNumber, hy]] at happend

theorem Returns.readNumber_eq {x : Float} (hx : Returns x) : (x == readNumber x) = true := by
  obtain ⟨y, hy, hxy⟩ := hx
  simpa [readNumber, hy] using hxy

/-! What a value begins with -/

/-- What a number begins with. -/
theorem number?_head {cs left : List Char} {x : Float} (h : number? cs = some (x, left)) :
    ∃ c rest, cs = c :: rest ∧ (c = '-' ∨ c.isDigit = true) := by
  match cs with
  | [] => cases h
  | c :: cs =>
    refine ⟨c, cs, rfl, ?_⟩
    by_contra hc
    rw [not_or] at hc
    have hnone : wholeDigits? (c :: cs) = none := by
      simp [wholeDigits?, digitRun, hc.2]
    simp [number?_of_ne hc.1, magnitude?, hnone] at h

theorem skipSpace_of_not {c : Char} (hc : isSpace c = false) (cs : List Char) :
    skipSpace (c :: cs) = c :: cs := by
  simp [skipSpace, hc]

theorem Returns.scalar?_numberText {x : Float} (hx : Returns x) {rest : List Char}
    (hrest : Ends rest) : scalar? (numberText x ++ rest) = some (number (readNumber x), rest) := by
  have hnumber := hx.number?_numberText hrest
  obtain ⟨c, cs, hcs, hc⟩ := number?_head hnumber
  rw [hcs] at hnumber ⊢
  rw [scalar?, hnumber]
  · rfl
  all_goals
    rintro _ ⟨⟩
    revert hc
    decide

theorem Returns.numberText_head {x : Float} (hx : Returns x) :
    ∃ c cs, numberText x = c :: cs ∧ isSpace c = false ∧ c ≠ ']' ∧ c ≠ '[' ∧ c ≠ '{' := by
  obtain ⟨y, hy, -⟩ := hx
  obtain ⟨c, cs, hcs, hc⟩ := number?_head hy
  have hne {b : Char} (hb : ¬(b = '-' ∨ b.isDigit = true)) : c ≠ b := by
    rintro rfl
    exact hb hc
  refine ⟨c, cs, hcs, ?_, hne (by decide), hne (by decide), hne (by decide)⟩
  have hspaces : c ≠ ' ' ∧ c ≠ '\n' ∧ c ≠ '\t' ∧ c ≠ '\r' :=
    ⟨hne (by decide), hne (by decide), hne (by decide), hne (by decide)⟩
  simp [isSpace, hspaces]

/-- A value begins with no space, and an array's first item does not begin like its end. -/
theorem chars_head {j : Json} (hj : j.Numbers Agrees) :
    ∃ c cs, j.chars = c :: cs ∧ isSpace c = false ∧ c ≠ ']' := by
  match j with
  | null => exact ⟨_, _, rfl, rfl, by decide⟩
  | bool true => exact ⟨_, _, rfl, rfl, by decide⟩
  | bool false => exact ⟨_, _, rfl, rfl, by decide⟩
  | text s => exact ⟨_, _, rfl, rfl, by decide⟩
  | array items => exact ⟨_, _, rfl, rfl, by decide⟩
  | object members => exact ⟨_, _, rfl, rfl, by decide⟩
  | number x =>
    obtain ⟨c, cs, hcs, hspace, hclose, -⟩ := (Agrees.returns hj).numberText_head
    exact ⟨c, cs, hcs, hspace, hclose⟩

/-! Values -/

theorem value?_scalar {c : Char} (hspace : isSpace c = false) (hopen : c ≠ '[' ∧ c ≠ '{')
    (room : Nat) (cs : List Char) : value? room (c :: cs) = scalar? (c :: cs) := by
  rw [value?, skipSpace_of_not hspace]
  split
  next heq => exact absurd (List.cons.inj heq).1 hopen.1
  next heq => exact absurd (List.cons.inj heq).1 hopen.2
  next => rfl

theorem value?_array {c : Char} (hspace : isSpace c = false) (hclose : c ≠ ']') (room : Nat)
    (cs : List Char) :
    value? (room + 1) ('[' :: c :: cs) = itemsRest? (value? room) (cs.length + 2) [] (c :: cs) := by
  rw [value?, skipSpace_of_not rfl]
  simp only [skipSpace_of_not hspace]
  split
  next heq => exact absurd (List.cons.inj heq).1 hclose
  next => rfl

theorem value?_object (room : Nat) (cs : List Char) :
    value? (room + 1) ('{' :: '"' :: cs) =
      membersRest? (value? room) (cs.length + 2) [] ('"' :: cs) := by
  rw [value?, skipSpace_of_not rfl]
  rfl

theorem value?_array_full (cs : List Char) : value? 0 ('[' :: cs) = none := by
  simp only [value?, skipSpace_of_not (show isSpace '[' = false from rfl)]

theorem value?_object_full (cs : List Char) : value? 0 ('{' :: cs) = none := by
  simp only [value?, skipSpace_of_not (show isSpace '{' = false from rfl)]

theorem itemChars_cons_cons (v w : Json) (items : List Json) :
    itemChars (v :: w :: items) = v.chars ++ ',' :: itemChars (w :: items) := by
  rw [itemChars]
  exact List.cons_ne_nil _ _

theorem memberChars_cons_cons (key : String) (v : Json) (m : String × Json)
    (members : List (String × Json)) :
    memberChars ((key, v) :: m :: members) =
      quotedText key ++ ':' :: v.chars ++ ',' :: memberChars (m :: members) := by
  rw [memberChars]
  exact List.cons_ne_nil _ _

theorem itemChars_head {items : List Json} (hne : items ≠ [])
    (hitems : ItemNumbers Agrees items) :
    ∃ c cs, itemChars items = c :: cs ∧ isSpace c = false ∧ c ≠ ']' := by
  match items with
  | v :: items =>
    obtain ⟨c, cs, hcs, hc⟩ := chars_head hitems.1
    match items with
    | [] => exact ⟨c, cs, hcs, hc⟩
    | w :: items => exact ⟨c, _, by rw [itemChars_cons_cons, hcs, List.cons_append], hc⟩

theorem memberChars_head {members : List (String × Json)} (hne : members ≠ []) :
    ∃ cs, memberChars members = '"' :: cs := by
  match members with
  | [(key, v)] => exact ⟨_, rfl⟩
  | (key, v) :: m :: members => exact ⟨_, by rw [memberChars_cons_cons, quotedText]; rfl⟩

/-- A member's key and colon. -/
theorem member?_quotedText (item? : List Char → Option (Json × List Char)) (key : String)
    (rest : List Char) :
    member? item? (quotedText key ++ ':' :: rest) =
      (item? rest).map fun out => ((key, out.1), out.2) := by
  have hkey : quotedText key ++ ':' :: rest =
      '"' :: (key.toList.flatMap escapedChar ++ '"' :: ':' :: rest) := by
    simp [quotedText]
  simp only [hkey, member?, skipSpace_of_not (show isSpace '"' = false from rfl),
    text?_quotedText, skipSpace_of_not (show isSpace ':' = false from rfl),
    Option.bind_eq_bind, Option.bind_some]
  cases item? rest <;> rfl

theorem length_le_itemChars : ∀ items : List Json, items.length ≤ (itemChars items).length + 1
  | [] => by simp
  | [v] => by simp
  | v :: w :: rest => by
    have := length_le_itemChars (w :: rest)
    simp only [itemChars, List.length_append, List.length_cons] at this ⊢
    omega

theorem length_le_memberChars :
    ∀ members : List (String × Json), members.length ≤ (memberChars members).length + 1
  | [] => by simp
  | [(key, v)] => by simp
  | (key, v) :: m :: rest => by
    have := length_le_memberChars (m :: rest)
    simp only [memberChars, List.length_append, List.length_cons] at this ⊢
    omega

theorem ite_max_le {α : Type} {a b n : Nat} (x : Option α) :
    (if a ≤ n then if b ≤ n then x else none else none) = if max a b ≤ n then x else none := by
  simp only [Nat.max_le]
  split <;> simp_all

mutual

/-- A value is read back from the front of a text if there is room for it, and refused if not. -/
theorem value?_chars : ∀ (j : Json) (_ : j.Numbers Agrees) (room : Nat) {rest : List Char}
    (_ : Ends rest), value? room (j.chars ++ rest) =
      if j.depth ≤ room then some (j.readBack, rest) else none
  | null, _, room, rest, _ => value?_scalar rfl (by decide) room _
  | bool true, _, room, rest, _ => value?_scalar rfl (by decide) room _
  | bool false, _, room, rest, _ => value?_scalar rfl (by decide) room _
  | number x, hx, room, rest, hrest => by
    have hscalar := (Agrees.returns hx).scalar?_numberText hrest
    obtain ⟨c, cs, hcs, hspace, -, hopen⟩ := (Agrees.returns hx).numberText_head
    rw [hcs, List.cons_append] at hscalar
    rw [chars, hcs, List.cons_append, value?_scalar hspace hopen, hscalar]
    rfl
  | text s, _, room, rest, _ => by
    have hscalar : scalar? ('"' :: (s.toList.flatMap escapedChar ++ '"' :: rest)) =
        some (text s, rest) := by
      simp [scalar?, text?_quotedText]
    rw [chars, quotedText, List.append_assoc, List.singleton_append]
    exact (value?_scalar rfl (by decide) room _).trans hscalar
  | array items, _, 0, rest, _ => value?_array_full _
  | array items, hj, room + 1, rest, _ => by
    by_cases hitems : items = []
    · subst hitems
      rfl
    obtain ⟨c, cs, hcs, hspace, hclose⟩ := itemChars_head hitems hj
    have hlength : items.length ≤ (cs ++ ']' :: rest).length + 2 := by
      have := length_le_itemChars items
      rw [hcs, List.length_cons] at this
      rw [List.length_append]
      omega
    have hchars : (array items).chars ++ rest = '[' :: c :: (cs ++ ']' :: rest) := by
      rw [chars, hcs]
      simp
    have hrest := itemsRest?_itemChars items hitems hj room _ hlength [] rest
    rw [hcs, List.cons_append] at hrest
    rw [hchars, value?_array hspace hclose, hrest]
    simp [depth, readBack]
  | object members, _, 0, rest, _ => value?_object_full _
  | object members, hj, room + 1, rest, _ => by
    by_cases hmembers : members = []
    · subst hmembers
      rfl
    obtain ⟨cs, hcs⟩ := memberChars_head hmembers
    have hlength : members.length ≤ (cs ++ '}' :: rest).length + 2 := by
      have := length_le_memberChars members
      rw [hcs, List.length_cons] at this
      rw [List.length_append]
      omega
    have hchars : (object members).chars ++ rest = '{' :: '"' :: (cs ++ '}' :: rest) := by
      rw [chars, hcs]
      simp
    have hrest := membersRest?_memberChars members hmembers hj room _ hlength [] rest
    rw [hcs, List.cons_append] at hrest
    rw [hchars, value?_object, hrest]
    simp [depth, readBack]

/-- The items of an array are read back up to its end. -/
theorem itemsRest?_itemChars : ∀ (items : List Json) (_ : items ≠ [])
    (_ : ItemNumbers Agrees items) (room n : Nat) (_ : items.length ≤ n) (read : List Json)
    (rest : List Char),
    itemsRest? (value? room) n read (itemChars items ++ ']' :: rest) =
      if itemsDepth items ≤ room then
        some (array (read.reverse ++ readBackItems items), rest) else none
  | [v], _, hv, room, n + 1, _, read, rest => by
    have hend : Ends (']' :: rest) := .cons (by simp) rest
    rw [itemChars, itemsRest?, value?_chars v hv.1 room hend, itemsDepth, itemsDepth, Nat.max_zero]
    by_cases hroom : v.depth ≤ room
    · simp [if_pos hroom, skipSpace_of_not (show isSpace ']' = false from rfl), readBackItems]
    · simp [if_neg hroom]
  | v :: w :: items, _, hv, room, n + 1, hn, read, rest => by
    have hend : Ends (',' :: (itemChars (w :: items) ++ ']' :: rest)) := .cons (by simp) _
    have hmore := itemsRest?_itemChars (w :: items) (by simp) hv.2 room n (by simpa using hn)
      (v.readBack :: read)
    rw [itemChars_cons_cons, List.append_assoc, List.cons_append, itemsRest?,
      value?_chars v hv.1 room hend, itemsDepth, ← ite_max_le]
    by_cases hroom : v.depth ≤ room
    · simp [if_pos hroom, skipSpace_of_not (show isSpace ',' = false from rfl), hmore,
        readBackItems]
    · simp [if_neg hroom]

/-- The members of an object are read back up to its end. -/
theorem membersRest?_memberChars : ∀ (members : List (String × Json)) (_ : members ≠ [])
    (_ : MemberNumbers Agrees members) (room n : Nat) (_ : members.length ≤ n)
    (read : List (String × Json)) (rest : List Char),
    membersRest? (value? room) n read (memberChars members ++ '}' :: rest) =
      if membersDepth members ≤ room then
        some (object (read.reverse ++ readBackMembers members), rest) else none
  | [(key, v)], _, hv, room, n + 1, _, read, rest => by
    have hend : Ends ('}' :: rest) := .cons (by simp) rest
    rw [memberChars, List.append_assoc, List.cons_append, membersRest?, member?_quotedText,
      value?_chars v hv.1 room hend, membersDepth, membersDepth, Nat.max_zero]
    by_cases hroom : v.depth ≤ room
    · simp [if_pos hroom, skipSpace_of_not (show isSpace '}' = false from rfl), readBackMembers]
    · simp [if_neg hroom]
  | (key, v) :: m :: members, _, hv, room, n + 1, hn, read, rest => by
    have hend : Ends (',' :: (memberChars (m :: members) ++ '}' :: rest)) := .cons (by simp) _
    have hmore := membersRest?_memberChars (m :: members) (by simp) hv.2 room n (by simpa using hn)
      ((key, v.readBack) :: read)
    rw [memberChars_cons_cons, List.append_assoc, List.append_assoc, List.cons_append,
      List.cons_append, membersRest?, member?_quotedText,
      value?_chars v hv.1 room hend, membersDepth, ← ite_max_le]
    by_cases hroom : v.depth ≤ room
    · simp [if_pos hroom, skipSpace_of_not (show isSpace ',' = false from rfl), hmore,
        readBackMembers]
    · simp [if_neg hroom]

end

/-- A rendered tree is read back if it is not nested too deeply for the reader, and only then. -/
theorem parse?_render {j : Json} (hj : j.Numbers Agrees) :
    parse? j.render = if j.depth ≤ maxReadDepth then some j.readBack else none := by
  have hvalue := value?_chars j hj maxReadDepth .nil
  rw [List.append_nil] at hvalue
  rw [parse?, render, String.toList_ofList, hvalue]
  by_cases hroom : j.depth ≤ maxReadDepth
  · simp [if_pos hroom, skipSpace]
  · simp [if_neg hroom]

end ScriptEngine.Json
