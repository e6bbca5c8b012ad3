import Mathlib
import ScriptEngine.Number.Text

/-!
# Natural numbers as doubles

A natural number is held as the nearest double, which never has a negative sign. Below `2 ^ 53` it
is held exactly: it is shifted until its leading bit is the implicit one, and truncating the double
gives it back. The other way round, a double with a whole value of that size is that of a natural
number, up to its sign.
-/
namespace ScriptEngine.Number

open Float.Model (Format UnpackedFloat totalExponent)
open Float.Model.UnpackedFloat

/-! Signs -/

/-- A value without a negative sign. -/
def Unsigned : UnpackedFloat → Prop
  | .infinity s | .zero s | .finite s .. => s = .positive
  | .notANumber => True

theorem unpackSign_packComponents {spec : Format} {s : Sign} {e : BitVec spec.exponentBits}
    {m : BitVec spec.mantissaBitsWithoutImplicit} :
    unpackSign (packComponents spec s e m) = s.toBitVec := by
  ext i hi
  obtain rfl : i = 0 := by omega
  simp [unpackSign, packComponents, BitVec.getLsbD_append, BitVec.getElem_append]

theorem unsigned_unpack {spec : Format} {b : BitVec spec.numBits}
    (h : unpackSign b = Sign.positive.toBitVec) : Unsigned (unpack spec b) := by
  have hsign : Sign.ofBitVec (unpackSign b) = .positive := by rw [h]; rfl
  unfold unpack
  extract_lets
  split_ifs <;> first | exact hsign | trivial

/-- Packing keeps the sign. -/
theorem unsigned_unpack_pack {spec : Format} {f : UnpackedFloat} (h : Unsigned f) :
    Unsigned (unpack spec (pack spec f)) := by
  refine unsigned_unpack ?_
  fun_cases pack with
  | case1 => exact unpackSign_packComponents
  | case2 | case3 | case4 | case5 | case6 =>
    obtain rfl := h
    exact unpackSign_packComponents

theorem unsigned_roundWithAccuracy (spec : Format) (m : Nat) (e : Int) (a : Accuracy) :
    Unsigned (roundWithAccuracy spec .positive m e a) := by
  unfold roundWithAccuracy
  dsimp only
  split <;> rfl

theorem unsigned_mul {spec : Format} {f g : UnpackedFloat} (hf : Unsigned f) (hg : Unsigned g) :
    Unsigned (mul spec f g) := by
  cases f <;> cases g <;> cases hf <;> cases hg
  all_goals first | rfl | trivial | exact unsigned_roundWithAccuracy _ _ _ _

theorem unsigned_ofNat (n : Nat) : Unsigned (ofNat .binary64 n) := by
  unfold ofNat ofInt UnpackedFloat.normalize
  split
  next hlt => exact absurd (Int.compare_eq_lt.1 hlt) (by omega)
  next => rfl
  next => exact unsigned_roundWithAccuracy _ _ _ _

/-! Doubles that hold a natural number exactly -/

variable {m : Nat} {e : Int}

theorem targetExponent_normal (hm : m.log2 = 52) (he : -1074 ≤ e) :
    Format.binary64.targetExponent (totalExponent m e) = e := by
  have hleast : Format.binary64.minExponent = -1074 := rfl
  have hbits : Format.binary64.mantissaBits = 53 := rfl
  rw [Format.targetExponent, totalExponent, hleast, hbits, hm]
  omega

theorem pos_of_log2 (hm : m.log2 = 52) : 0 < m := by
  rcases Nat.eq_zero_or_pos m with rfl | hpos
  · cases hm
  · exact hpos

theorem log2_mul_two_pow (hm : 0 < m) (k : Nat) : (m * 2 ^ k).log2 = m.log2 + k := by
  obtain ⟨hle, hlt⟩ := (Nat.log2_eq_iff hm.ne').1 rfl
  refine (Nat.log2_eq_iff (Nat.mul_pos hm (Nat.two_pow_pos k)).ne').2 ⟨?_, ?_⟩
  · rw [Nat.pow_add]
    exact Nat.mul_le_mul_right _ hle
  · rw [Nat.add_right_comm, Nat.pow_add]
    exact Nat.mul_lt_mul_of_pos_right hlt (Nat.two_pow_pos k)

theorem log2_le_of_lt (hm : 0 < m) (hlt : m < 2 ^ 53) : m.log2 ≤ 52 :=
  Nat.le_of_lt_succ ((Nat.log2_lt hm.ne').2 hlt)

/-- Bits that are zero are shifted out without a trace. -/
theorem repeat_shiftRightOne (m k : Nat) :
    k.repeat ExtendedMantissa.shiftRightOne ⟨m * 2 ^ k, false, false⟩ = ⟨m, false, false⟩ := by
  induction k generalizing m with
  | zero => rw [Nat.pow_zero, Nat.mul_one]; rfl
  | succ k ih =>
    rw [Nat.repeat, Nat.pow_succ', ← Nat.mul_assoc, ih]
    simp [ExtendedMantissa.shiftRightOne]

theorem shiftToTargetExponent_normal (hm : m.log2 = 52) (he : -1074 ≤ e) (k : Nat) :
    shiftToTargetExponent .binary64 (m * 2 ^ k) (e - k) .exact = (⟨m, false, false⟩, e) := by
  have htotal : totalExponent (m * 2 ^ k) (e - k) = totalExponent m e := by
    rw [totalExponent, totalExponent, log2_mul_two_pow (pos_of_log2 hm), Int.natCast_add]
    omega
  have hshift : (e - (e - k)).toNat = k := by omega
  rw [shiftToTargetExponent, htotal, targetExponent_normal hm he, shiftToExponent]
  simp only [hshift]
  exact Prod.ext (repeat_shiftRightOne m k) (by simp)

/-- Rounding leaves a value alone that needs none. -/
theorem roundWithAccuracy_normal (s : Sign) (hm : m.log2 = 52) (he : -1074 ≤ e) (k : Nat) :
    roundWithAccuracy .binary64 s (m * 2 ^ k) (e - k) .exact = .finite s m e (pos_of_log2 hm) := by
  have hstay := shiftToTargetExponent_normal hm he 0
  rw [Nat.pow_zero, Nat.mul_one, Int.natCast_zero, Int.sub_zero] at hstay
  have hrounded : (⟨m, false, false⟩ : ExtendedMantissa).roundedMantissa = m := rfl
  unfold roundWithAccuracy
  rw [shiftToTargetExponent_normal hm he k]
  simp only [hrounded, hstay]
  rw [dif_neg (pos_of_log2 hm).ne']

theorem bounds_of_log2 (hm : m.log2 = 52) : 2 ^ 52 ≤ m ∧ m < 2 ^ 53 :=
  (Nat.log2_eq_iff (pos_of_log2 hm).ne').1 hm

theorem pack_normal (s : Sign) (hm : m.log2 = 52) (he : -1074 ≤ e) (hmax : e ≤ 971) :
    pack .binary64 (.finite s m e (pos_of_log2 hm)) =
      packComponents .binary64 s (BitVec.ofNat 11 (e + 1075).toNat) (BitVec.ofNat 52 m) := by
  have hbiased : e + Format.binary64.exponentBias + (52 : Nat) = e + 1075 := by
    have hbias : (Format.binary64.exponentBias : Int) = 1023 := rfl
    rw [hbias, Int.add_assoc]
    rfl
  have hbits : m.log2 + 1 = Format.binary64.mantissaBits := by rw [hm]; rfl
  rw [pack]
  dsimp only
  rw [hbiased, if_neg (by omega), if_pos hbits]

/-- The bits of a normal double. -/
theorem toNat_pack_normal (s : Sign) (hm : m.log2 = 52) (he : -1074 ≤ e) (hmax : e ≤ 971) :
    (pack .binary64 (.finite s m e (pos_of_log2 hm))).toNat =
      s.toBitVec.toNat * 2 ^ 63 + (e + 1075).toNat * 2 ^ 52 + (m - 2 ^ 52) := by
  obtain ⟨hle, hlt⟩ := bounds_of_log2 hm
  have hsign := s.toBitVec.isLt
  rw [pack_normal _ hm he hmax, packComponents, BitVec.toNat_append, BitVec.toNat_append,
    ← Nat.shiftLeft_add_eq_or_of_lt (BitVec.isLt _), Nat.shiftLeft_eq,
    ← Nat.shiftLeft_add_eq_or_of_lt (BitVec.isLt _), Nat.shiftLeft_eq]
  simp
  omega

theorem unpack_packComponents {spec : Format} (s : Sign) {x : BitVec spec.exponentBits}
    {y : BitVec spec.mantissaBitsWithoutImplicit} (hones : x ≠ -1#_) (hzero : x ≠ 0#_) :
    unpack spec (packComponents spec s x y) = .finite s (1#1 ++ y).toNat
      ((x.toNat : Int) - (spec.exponentBias + spec.mantissaBitsWithoutImplicit)) (by simp) := by
  have hsign : Sign.ofBitVec s.toBitVec = s := by cases s <;> rfl
  unfold unpack
  simp only [unpackExponent_packComponents, unpackMantissa_packComponents,
    unpackSign_packComponents, if_neg hones, if_neg hzero, hsign]

/-- A normal double is read as it was written. -/
theorem unpack_pack_normal (s : Sign) (hm : m.log2 = 52) (he : -1074 ≤ e) (hmax : e ≤ 971) :
    unpack .binary64 (pack .binary64 (.finite s m e (pos_of_log2 hm))) =
      .finite s m e (pos_of_log2 hm) := by
  obtain ⟨hle, hlt⟩ := bounds_of_log2 hm
  have hexponent : (BitVec.ofNat 11 (e + 1075).toNat).toNat = (e + 1075).toNat := by
    rw [BitVec.toNat_ofNat, Nat.mod_eq_of_lt (by omega)]
  have hones : BitVec.ofNat 11 (e + 1075).toNat ≠ -1#11 := fun h => by
    have hvalue := hexponent.symm.trans (congrArg BitVec.toNat h)
    have hall : (-1#11 : BitVec 11).toNat = 2047 := rfl
    omega
  have hzero : BitVec.ofNat 11 (e + 1075).toNat ≠ 0#11 := fun h => by
    have hvalue := hexponent.symm.trans (congrArg BitVec.toNat h)
    have hnone : (0#11 : BitVec 11).toNat = 0 := rfl
    omega
  have hmantissa : (1#1 ++ BitVec.ofNat 52 m).toNat = m := by
    rw [BitVec.toNat_append, ← Nat.shiftLeft_add_eq_or_of_lt (BitVec.isLt _), BitVec.toNat_ofNat,
      Nat.shiftLeft_eq, BitVec.toNat_ofNat]
    omega
  have hback : ((e + 1075).toNat : Int) - ((1023 : Nat) + (52 : Nat)) = e := by omega
  rw [pack_normal s hm he hmax, unpack_packComponents s hones hzero, UnpackedFloat.finite.injEq]
  exact ⟨rfl, hmantissa, (congrArg (fun k : Nat => (k : Int) - _) hexponent).trans hback⟩

/-- The double that holds a natural number exactly. -/
theorem ofNat_exact {n : Nat} (hn : 0 < n) (hlt : n < 2 ^ 53) :
    ∃ hm : (n * 2 ^ (52 - n.log2)).log2 = 52,
      ofNat .binary64 n = .finite .positive (n * 2 ^ (52 - n.log2)) (n.log2 - 52)
        (pos_of_log2 hm) := by
  have hlog := log2_le_of_lt hn hlt
  have hm : (n * 2 ^ (52 - n.log2)).log2 = 52 := by rw [log2_mul_two_pow hn]; omega
  refine ⟨hm, ?_⟩
  have htarget : Format.binary64.targetExponent (totalExponent n 0) = n.log2 - 52 := by
    have hleast : Format.binary64.minExponent = -1074 := rfl
    have hbits : Format.binary64.mantissaBits = 53 := rfl
    rw [Format.targetExponent, totalExponent, hleast, hbits]
    omega
  have hshift : ((0 : Int) - (n.log2 - 52)).toNat = 52 - n.log2 := by omega
  have hexponent : (0 : Int) - (52 - n.log2 : Nat) = n.log2 - 52 := by omega
  have hround := roundWithAccuracy_normal (e := n.log2 - 52) .positive hm (by omega) 0
  rw [Nat.pow_zero, Nat.mul_one, Int.natCast_zero, Int.sub_zero] at hround
  unfold ofNat ofInt UnpackedFloat.normalize
  rw [Int.compare_eq_gt.2 (by omega)]
  simp only [Int.toNat_natCast]
  simp only [UnpackedFloat.round, htarget, decreaseExponent, hshift, hexponent, Nat.shiftLeft_eq]
  exact hround

/-- A small number is held as its product with one, which needs no rounding. -/
theorem toBits_ofNat_mul {n : Nat} (hlt : n < 2 ^ 53) :
    (Float.ofNat n).toBits.toBitVec = pack .binary64 (mul .binary64
      (unpack .binary64 (pack .binary64 (ofNat .binary64 n)))
      (.finite .positive (2 ^ 52) (-52) (Nat.two_pow_pos 52))) := by
  have hone : unpack .binary64 (Float.ofBits 0x3FF0000000000000).toBits.toBitVec =
      .finite .positive (2 ^ 52) (-52) (Nat.two_pow_pos 52) := rfl
  have hword : n.toUInt64.toNat = n := Nat.mod_eq_of_lt (by omega)
  change (Float.ofScientific n false 0).toBits.toBitVec = _
  rw [Float.ofScientific, dif_pos ⟨hlt, Nat.zero_le 22⟩]
  change pack .binary64 (mul .binary64
    (unpack .binary64 (pack .binary64 (ofNat .binary64 n.toUInt64.toNat)))
    (unpack .binary64 (Float.ofBits 0x3FF0000000000000).toBits.toBitVec)) = _
  rw [hone, hword]

theorem unsigned_ofScientific (spec : Format) (m : Nat) : Unsigned (ofScientific spec m 0) := by
  unfold ofScientific
  split_ifs
  · rfl
  · rfl
  · rfl
  · exact unsigned_mul rfl rfl
  · omega

/-- No natural number is held with a negative sign. -/
theorem unsigned_float (n : Nat) : Unsigned (unpack .binary64 (Float.ofNat n).toBits.toBitVec) := by
  by_cases hlt : n < 2 ^ 53
  · rw [toBits_ofNat_mul hlt]
    exact unsigned_unpack_pack (unsigned_mul (unsigned_unpack_pack (unsigned_ofNat n)) rfl)
  · change Unsigned (unpack .binary64 (Float.ofScientific n false 0).toBits.toBitVec)
    rw [Float.ofScientific, dif_neg fun h => hlt h.1]
    exact unsigned_unpack_pack (unsigned_ofScientific .binary64 n)

theorem toBits_ofNat {n : Nat} (hn : 0 < n) (hlt : n < 2 ^ 53) :
    ∃ hm : (n * 2 ^ (52 - n.log2)).log2 = 52,
      (Float.ofNat n).toBits.toBitVec = pack .binary64
        (.finite .positive (n * 2 ^ (52 - n.log2)) (n.log2 - 52) (pos_of_log2 hm)) := by
  have hlog := log2_le_of_lt hn hlt
  obtain ⟨hm, hexact⟩ := ofNat_exact hn hlt
  have hproduct := roundWithAccuracy_normal (e := n.log2 - 52) .positive hm (by omega) 52
  refine ⟨hm, ?_⟩
  rw [toBits_ofNat_mul hlt, hexact, unpack_pack_normal _ hm (by omega) (by omega)]
  exact congrArg _ hproduct

/-! Comparisons -/

theorem unpack_zero : unpack .binary64 (0 : Float).toBits.toBitVec = .zero .positive := rfl

theorem lt_zero_iff {x : Float} :
    x < 0 ↔ (unpack .binary64 x.toBits.toBitVec).lt (.zero .positive) := by
  change Float.lt x 0 = true ↔ _
  rw [Float.lt, decide_eq_true_eq, ← unpack_zero]
  exact Iff.rfl

theorem le_zero_iff {x : Float} :
    x ≤ 0 ↔ (unpack .binary64 x.toBits.toBitVec).le (.zero .positive) := by
  change Float.le x 0 = true ↔ _
  rw [Float.le, decide_eq_true_eq, ← unpack_zero]
  exact Iff.rfl

theorem Unsigned.not_lt_zero {f : UnpackedFloat} (h : Unsigned f) :
    f.lt (.zero .positive) = false := by
  cases f <;> cases h <;> rfl

theorem Unsigned.beq_negative {f : UnpackedFloat} (h : Unsigned f) {k : Nat} (hk : 0 < k) :
    f.beq (.finite .negative k e hk) = false := by
  cases f <;> cases h <;> rfl

theorem ofNat_ne_minus_one (n : Nat) : (Float.ofNat n == -1) = false := by
  have hone : unpack .binary64 (-1 : Float).toBits.toBitVec =
      .finite .negative (2 ^ 52) (-52) (Nat.two_pow_pos 52) := rfl
  change (unpack .binary64 (Float.ofNat n).toBits.toBitVec).beq
    (unpack .binary64 (-1 : Float).toBits.toBitVec) = false
  rw [hone]
  exact (unsigned_float n).beq_negative _

theorem ofNat_not_lt_zero (n : Nat) : ¬ Float.ofNat n < 0 := by
  rw [lt_zero_iff, (unsigned_float n).not_lt_zero]
  exact Bool.false_ne_true

theorem ofNat_not_le_zero {n : Nat} (hn : 0 < n) (hlt : n < 2 ^ 53) : ¬ Float.ofNat n ≤ 0 := by
  have hlog := log2_le_of_lt hn hlt
  obtain ⟨hm, hbits⟩ := toBits_ofNat hn hlt
  rw [le_zero_iff, hbits, unpack_pack_normal _ hm (by omega) (by omega)]
  exact Bool.false_ne_true

/-! Truncation -/

theorem ofFloat?_normal {x : Float} {field fraction : Nat}
    (hbits : x.toBits.toNat = field * 2 ^ 52 + fraction) (hpos : 0 < field) (hfield : field < 2047)
    (hfraction : fraction < 2 ^ 52) :
    Binary.ofFloat? x = some ⟨false, 2 ^ 52 + fraction, field - 1075⟩ := by
  have hsign : (field * 2 ^ 52 + fraction) / 2 ^ 63 = 0 := by omega
  have hexponent : (field * 2 ^ 52 + fraction) / 2 ^ 52 % 2 ^ 11 = field := by omega
  have hrest : (field * 2 ^ 52 + fraction) % 2 ^ 52 = fraction := by omega
  rw [Binary.ofFloat?, hbits]
  simp only [Nat.pow_eq, hsign, hexponent, hrest]
  rw [if_neg (by omega), if_neg (by omega)]
  rfl

theorem ofFloat?_ofNat {n : Nat} (hn : 0 < n) (hlt : n < 2 ^ 53) :
    Binary.ofFloat? (Float.ofNat n) = some ⟨false, n * 2 ^ (52 - n.log2), n.log2 - 52⟩ := by
  have hlog := log2_le_of_lt hn hlt
  obtain ⟨hm, hbits⟩ := toBits_ofNat hn hlt
  obtain ⟨hle, hlt⟩ := bounds_of_log2 hm
  have hword := (congrArg BitVec.toNat hbits).trans (toNat_pack_normal _ hm (by omega) (by omega))
  have hsign : Sign.positive.toBitVec.toNat = 0 := rfl
  rw [hsign, Nat.zero_mul, Nat.zero_add] at hword
  rw [ofFloat?_normal hword (by omega) (by omega) (by omega), Option.some.injEq, Binary.mk.injEq]
  exact ⟨rfl, by omega, by omega⟩

theorem truncate_of_log2 {n : Nat} (hlog : n.log2 ≤ 52) :
    Binary.truncate ⟨false, n * 2 ^ (52 - n.log2), n.log2 - 52⟩ = n := by
  rw [Binary.truncate]
  simp only [Bool.false_eq_true, if_false, Nat.pow_eq]
  split
  next hnonneg =>
    have hup : 52 - n.log2 = 0 := by omega
    have hdown : ((n.log2 : Int) - 52).toNat = 0 := by omega
    rw [hup, hdown, Nat.pow_zero, Nat.mul_one, Nat.mul_one]
  next hneg =>
    have hshift : (-((n.log2 : Int) - 52)).toNat = 52 - n.log2 := by omega
    rw [hshift, Nat.mul_div_cancel _ (Nat.two_pow_pos _)]

theorem ofFloat?_zero : Binary.ofFloat? (Float.ofNat 0) = some ⟨false, 0, leastExponent⟩ := by
  have hbits : (Float.ofNat 0).toBits.toNat = 0 := rfl
  rw [Binary.ofFloat?, hbits]
  simp

/-- The integer part of a small natural number is that number. -/
theorem toNatBelow_ofNat {n : Nat} (hlt : n < 2 ^ 53) : toNatBelow 64 (Float.ofNat n) = n := by
  have htruncate : ∃ b, Binary.ofFloat? (Float.ofNat n) = some b ∧ b.truncate = n := by
    rcases Nat.eq_zero_or_pos n with rfl | hn
    · refine ⟨_, ofFloat?_zero, ?_⟩
      simp [Binary.truncate]
    · exact ⟨_, ofFloat?_ofNat hn hlt, truncate_of_log2 (log2_le_of_lt hn hlt)⟩
  obtain ⟨b, hb, hn⟩ := htruncate
  have hmax : (Nat.pow 2 64 : Int) - 1 = 18446744073709551615 := rfl
  rw [toNatBelow, toIntWithin, hb]
  simp only [hn]
  omega

/-! Finite doubles -/

namespace Binary

theorem ofFloat?_eq_none {x : Float} :
    ofFloat? x = none ↔ x.toBits.toNat / 2 ^ 52 % 2 ^ 11 = 2 ^ 11 - 1 := by
  unfold ofFloat?
  extract_lets
  split
  next hfield => exact ⟨fun _ => hfield, fun _ => rfl⟩
  next hfield =>
    refine ⟨fun h => ?_, fun h => absurd h hfield⟩
    split at h <;> cases h

theorem isFinite_unpack (b : BitVec 64) :
    (unpack .binary64 b).isFinite = false ↔
      b.toNat / 2 ^ 52 % 2 ^ 11 = 2 ^ 11 - 1 := by
  have hexponent : @unpackExponent .binary64 b = -1#11 ↔
      b.toNat / 2 ^ 52 % 2 ^ 11 = 2 ^ 11 - 1 := by
    rw [← BitVec.toNat_inj]
    simp [unpackExponent, Format.binary64,
      Nat.shiftRight_eq_div_pow]
  rw [← hexponent]
  unfold unpack
  extract_lets mantissa field
  by_cases hones : field = -1#_
  · rw [if_pos hones]
    refine ⟨fun _ => hones, fun _ => ?_⟩
    by_cases hzero : mantissa = 0#_
    · rw [if_pos hzero]
      rfl
    · rw [if_neg hzero]
      rfl
  · rw [if_neg hones]
    refine ⟨fun h => ?_, fun h => absurd h hones⟩
    by_cases hfield : field = 0#_
    · rw [if_pos hfield] at h
      by_cases hzero : mantissa = 0#_
      · rw [dif_pos hzero] at h
        cases h
      · rw [dif_neg hzero] at h
        cases h
    · rw [if_neg hfield] at h
      cases h

/-- Infinities and what is no number have no exact value. -/
theorem isFinite_eq_false {x : Float} : x.isFinite = false ↔ ofFloat? x = none :=
  (isFinite_unpack x.toBits.toBitVec).trans ofFloat?_eq_none.symm

/-- The parts of a finite double, which are those of its bits. -/
theorem bits_of_ofFloat? {x : Float} {b : Binary} (h : ofFloat? x = some b) :
    ∃ field fraction : Nat, fraction < 2 ^ 52 ∧ field < 2047 ∧
      x.toBits.toNat = b.negative.toNat * 2 ^ 63 + field * 2 ^ 52 + fraction ∧
      (field = 0 ∧ b.mantissa = fraction ∧ b.exponent = leastExponent ∨
        0 < field ∧ b.mantissa = 2 ^ 52 + fraction ∧ b.exponent = field - 1075) := by
  have hword := x.toBits.toNat_lt
  have hsign : (x.toBits.toNat / Nat.pow 2 63 == 1).toNat = x.toBits.toNat / 2 ^ 63 := by
    obtain h | h : x.toBits.toNat / 2 ^ 63 = 0 ∨ x.toBits.toNat / 2 ^ 63 = 1 := by omega
    all_goals
      rw [show Nat.pow 2 63 = 2 ^ 63 from rfl, h]
      rfl
  refine ⟨x.toBits.toNat / 2 ^ 52 % 2 ^ 11, x.toBits.toNat % 2 ^ 52, Nat.mod_lt _ (by decide), ?_⟩
  unfold ofFloat? at h
  extract_lets bits negative field fraction at h
  split at h
  next => cases h
  next hall =>
    have hfield : field < 2047 := by
      have : field < 2 ^ 11 := Nat.mod_lt _ (by decide)
      have : ¬ field = 2047 := hall
      omega
    have hparts : x.toBits.toNat =
        negative.toNat * 2 ^ 63 + x.toBits.toNat / 2 ^ 52 % 2 ^ 11 * 2 ^ 52 +
          x.toBits.toNat % 2 ^ 52 := by
      rw [show negative.toNat = _ from hsign]
      omega
    split at h
    next hzero =>
      cases h
      exact ⟨hfield, hparts, .inl ⟨hzero, rfl, rfl⟩⟩
    next hzero =>
      cases h
      exact ⟨hfield, hparts, .inr ⟨Nat.pos_of_ne_zero hzero, rfl, rfl⟩⟩

theorem natAbs_truncate (b : Binary) : b.truncate.natAbs =
    if 0 ≤ b.exponent then b.mantissa * 2 ^ b.exponent.toNat
    else b.mantissa / 2 ^ (-b.exponent).toNat := by
  unfold truncate
  extract_lets magnitude
  split
  · exact (Int.natAbs_neg _).trans (Int.natAbs_natCast magnitude)
  · exact Int.natAbs_natCast magnitude

theorem negative_eq_of_truncate {b : Binary} (h : b.truncate ≠ 0) :
    b.negative = decide (b.truncate < 0) := by
  have hsign : b.truncate =
      if b.negative then -(b.truncate.natAbs : Int) else b.truncate.natAbs := by
    rw [natAbs_truncate]
    rfl
  cases hb : b.negative with
  | false =>
    rw [hb, if_neg Bool.false_ne_true] at hsign
    exact (decide_eq_false (by omega)).symm
  | true =>
    rw [hb, if_pos rfl] at hsign
    exact (decide_eq_true (by omega)).symm

/-- A whole number that fits the bits of a mantissa is held with zeros behind it. -/
theorem eq_of_isWhole {b : Binary} (hwhole : b.isWhole = true)
    (hlt : b.truncate.natAbs < 2 ^ 53) (hle : 2 ^ 52 ≤ b.mantissa) :
    ∃ k : Nat, b.mantissa = b.truncate.natAbs * 2 ^ k ∧ b.exponent = -k := by
  rw [natAbs_truncate] at hlt ⊢
  by_cases hexp : 0 ≤ b.exponent
  · rw [if_pos hexp] at hlt ⊢
    have hzero : b.exponent.toNat = 0 := by
      by_contra hne
      have hdouble : 2 ≤ 2 ^ b.exponent.toNat := by
        calc 2 = 2 ^ 1 := rfl
          _ ≤ 2 ^ b.exponent.toNat := Nat.pow_le_pow_right (by decide) (by omega)
      have := Nat.mul_le_mul hle hdouble
      omega
    exact ⟨0, by simp [hzero], by omega⟩
  · rw [if_neg hexp] at hlt ⊢
    refine ⟨(-b.exponent).toNat, ?_, by omega⟩
    have hdvd : b.mantissa % 2 ^ (-b.exponent).toNat = 0 := by simpa [isWhole, hexp] using hwhole
    exact (Nat.div_mul_cancel (Nat.dvd_of_mod_eq_zero hdvd)).symm

end Binary

theorem eq_of_toBits {x y : Float} (h : x.toBits.toNat = y.toBits.toNat) : x = y := by
  rw [← Float.ofBits_toBits x, ← Float.ofBits_toBits y, UInt64.toNat_inj.1 h]

theorem beq_self {f : UnpackedFloat} (hf : f.isFinite = true) : f.beq f = true := by
  cases f with
  | notANumber | infinity => cases hf
  | zero => rfl
  | finite s m e hm => cases s <;> simp [UnpackedFloat.beq, UnpackedFloat.compare]

theorem beq_self_of_isFinite {x : Float} (hx : x.isFinite = true) : (x == x) = true :=
  beq_self (f := unpack .binary64 x.toBits.toBitVec) hx

/-! Whole numbers with a sign -/

theorem toBits_mul (x y : Float) : (x * y).toBits.toBitVec = pack .binary64
    (mul .binary64 (unpack .binary64 x.toBits.toBitVec) (unpack .binary64 y.toBits.toBitVec)) := rfl

theorem ofNat_mul_one {n : Nat} (hn : 0 < n) (hlt : n < 2 ^ 53) :
    Float.ofNat n * ofDecimal 1 0 = Float.ofNat n := by
  have hone : unpack .binary64 (ofDecimal 1 0).toBits.toBitVec =
      .finite .positive (2 ^ 52) (-52) (Nat.two_pow_pos 52) := rfl
  have hlog := log2_le_of_lt hn hlt
  obtain ⟨hm, hbits⟩ := toBits_ofNat hn hlt
  have hproduct := roundWithAccuracy_normal (e := n.log2 - 52) .positive hm (by omega) 52
  refine eq_of_toBits (congrArg BitVec.toNat ?_)
  rw [toBits_mul, hone, hbits, unpack_pack_normal _ hm (by omega) (by omega)]
  exact congrArg _ hproduct

/-- A whole number with a sign. -/
def signedNat (negative : Bool) (n : Nat) : Float :=
  if negative then -Float.ofNat n else Float.ofNat n

theorem toBits_signedNat (negative : Bool) {n : Nat} (hn : 0 < n) (hlt : n < 2 ^ 53) :
    ∃ hm : (n * 2 ^ (52 - n.log2)).log2 = 52,
      (signedNat negative n).toBits.toBitVec = pack .binary64
        (.finite (if negative then .negative else .positive) (n * 2 ^ (52 - n.log2)) (n.log2 - 52)
          (pos_of_log2 hm)) := by
  have hlog := log2_le_of_lt hn hlt
  obtain ⟨hm, hbits⟩ := toBits_ofNat hn hlt
  refine ⟨hm, ?_⟩
  cases negative with
  | false => exact hbits
  | true =>
    change pack .binary64 (neg (unpack .binary64 (Float.ofNat n).toBits.toBitVec)) = _
    rw [hbits, unpack_pack_normal _ hm (by omega) (by omega)]
    rfl

theorem isFinite_signedNat (negative : Bool) {n : Nat} (hn : 0 < n) (hlt : n < 2 ^ 53) :
    (signedNat negative n).isFinite = true := by
  have hlog := log2_le_of_lt hn hlt
  obtain ⟨hm, hbits⟩ := toBits_signedNat negative hn hlt
  change (unpack .binary64 (signedNat negative n).toBits.toBitVec).isFinite = true
  rw [hbits, unpack_pack_normal _ hm (by omega) (by omega)]
  rfl

/-- A whole number of moderate size is the double of an integer, and zero is one of the two
zeros. -/
theorem eq_of_isWhole {x : Float} {b : Binary} (h : Binary.ofFloat? x = some b)
    (hwhole : b.isWhole = true) (hlt : b.truncate.natAbs < 2 ^ 53) :
    b.truncate = 0 ∧ (x == 0) = true ∨
      b.truncate ≠ 0 ∧ x = signedNat (b.truncate < 0) b.truncate.natAbs := by
  obtain ⟨field, fraction, hfraction, hfield, hbits, ⟨rfl, hm, he⟩ | ⟨hpos, hm, he⟩⟩ :=
    Binary.bits_of_ofFloat? h
  · left
    have hexp : ¬ 0 ≤ b.exponent := by rw [he]; decide
    have hzero : fraction = 0 := by
      have hdvd : fraction % 2 ^ (-b.exponent).toNat = 0 := by
        simpa [Binary.isWhole, hexp, hm] using hwhole
      have hlarge : 2 ^ 52 ≤ 2 ^ (-b.exponent).toNat :=
        Nat.pow_le_pow_right (by decide) (by rw [he]; decide)
      rwa [Nat.mod_eq_of_lt (hfraction.trans_le hlarge)] at hdvd
    refine ⟨?_, ?_⟩
    · rw [← Int.natAbs_eq_zero, Binary.natAbs_truncate, if_neg hexp, hm, hzero, Nat.zero_div]
    · obtain rfl | rfl : x = Float.ofBits 0 ∨ x = Float.ofBits 0x8000000000000000 := by
        cases hnegative : b.negative
        · exact .inl (eq_of_toBits (by rw [hbits, hnegative, hzero]; rfl))
        · exact .inr (eq_of_toBits (by rw [hbits, hnegative, hzero]; rfl))
      all_goals rfl
  · right
    obtain ⟨k, hmantissa, hexponent⟩ := Binary.eq_of_isWhole hwhole hlt (by omega)
    have hn : 0 < b.truncate.natAbs := by
      rcases Nat.eq_zero_or_pos b.truncate.natAbs with hzero | hpos
      · rw [hzero] at hmantissa
        omega
      · exact hpos
    have hlog : b.truncate.natAbs.log2 + k = 52 := by
      rw [← log2_mul_two_pow hn, ← hmantissa, hm]
      exact (Nat.log2_eq_iff (by omega)).2 (by omega)
    have hk : k = 52 - b.truncate.natAbs.log2 := by omega
    have htruncate : b.truncate ≠ 0 := Int.natAbs_pos.1 hn
    refine ⟨htruncate, eq_of_toBits ?_⟩
    obtain ⟨hm', hsigned⟩ := toBits_signedNat (b.truncate < 0) hn hlt
    have hword := (congrArg BitVec.toNat hsigned).trans
      (toNat_pack_normal _ hm' (by omega) (by omega))
    have hsign : (if b.truncate < 0 then Sign.negative else .positive).toBitVec.toNat =
        b.negative.toNat := by
      rw [Binary.negative_eq_of_truncate htruncate]
      by_cases hneg : b.truncate < 0 <;> simp [hneg, Sign.toBitVec]
    rw [← hk, ← hmantissa, hm] at hword
    simp only [decide_eq_true_eq] at hword
    rw [hsign] at hword
    refine hbits.trans (Eq.trans ?_ hword.symm)
    omega

end ScriptEngine.Number
