import ScriptEngine.Text.Utf8
import Mathlib.Data.Char
import Mathlib.Data.List.Basic

/-!
# Encoded text is decoded to itself

Each character is encoded by itself, and strict decoding takes the bytes of one character at a time.
-/
namespace ScriptEngine.Text

theorem toList_loop_eq (bytes : ByteArray) (i : Nat) (read : List UInt8) :
    ByteArray.toList.loop bytes i read = read.reverse ++ bytes.data.toList.drop i := by
  induction hn : bytes.size - i generalizing i read with
  | zero =>
    have hi : ¬ i < bytes.size := by omega
    rw [ByteArray.toList.loop, if_neg hi, List.drop_eq_nil_of_le, List.append_nil]
    simpa using hi
  | succ n ih =>
    have hi : i < bytes.size := by omega
    have hlength : i < bytes.data.toList.length := by simpa using hi
    have hget : bytes.get! i = bytes.data.toList[i] := getElem!_pos bytes.data i hi
    rw [ByteArray.toList.loop, if_pos hi, ih (i + 1) _ (by omega), List.reverse_cons,
      List.append_assoc, List.drop_eq_getElem_cons hlength, List.singleton_append, hget]

/-- The bytes of characters. -/
def encodeChars (cs : List Char) : List UInt8 := cs.flatMap String.utf8EncodeChar

@[simp] theorem encodeChars_nil : encodeChars [] = [] := rfl

@[simp] theorem encodeChars_cons (c : Char) (cs : List Char) :
    encodeChars (c :: cs) = String.utf8EncodeChar c ++ encodeChars cs := rfl

@[simp] theorem encodeChars_append (as bs : List Char) :
    encodeChars (as ++ bs) = encodeChars as ++ encodeChars bs := List.flatMap_append

/-- The characters of a text are encoded one after another. -/
theorem encode_eq (s : String) : encode s = encodeChars s.toList := by
  have hbytes : s.toByteArray = s.toList.utf8Encode := by
    rw [← String.toByteArray_ofList, String.ofList_toList]
  rw [encode, String.toUTF8, hbytes, ByteArray.toList, toList_loop_eq]
  simp [encodeChars, List.utf8Encode]

/-! One character -/

theorem leadByte_two {n : Nat} (h : 0xC2 ≤ n ∧ n ≤ 0xDF) :
    leadByte n = .multi (.inside 0 0x80 0xBF (n % 0x20)) := by
  rw [leadByte, if_neg (by omega), if_pos (by simpa using h)]

theorem leadByte_three {n : Nat} (h : 0xE0 ≤ n ∧ n ≤ 0xEF) :
    leadByte n = .multi (.inside 1 (if n = 0xE0 then 0xA0 else 0x80)
      (if n = 0xED then 0x9F else 0xBF) (n % 0x10)) := by
  rw [leadByte, if_neg (by omega), if_neg (by simp; omega)]
  split
  case isTrue h0 => subst h0; rfl
  split
  case isTrue hd => subst hd; rfl
  case isFalse => rw [if_pos (by simp; omega)]

theorem leadByte_four {n : Nat} (h : 0xF0 ≤ n ∧ n ≤ 0xF4) :
    leadByte n = .multi (.inside 2 (if n = 0xF0 then 0x90 else 0x80)
      (if n = 0xF4 then 0x8F else 0xBF) (n % 8)) := by
  rw [leadByte, if_neg (by omega), if_neg (by simp; omega), if_neg (by omega), if_neg (by omega),
    if_neg (by simp; omega)]
  split
  case isTrue h0 => subst h0; rfl
  split
  case isTrue h4 => subst h4; rfl
  case isFalse => rw [if_pos (by simp; omega)]

theorem decodeFrom?_multi {n : Nat} {state : Utf8State} (hn : n < 256)
    (h : leadByte n = .multi state) (bytes : List UInt8) :
    decodeFrom? .start (UInt8.ofNat n :: bytes) = decodeFrom? state bytes := by
  rw [decodeFrom?, UInt8.toNat_ofNat', Nat.mod_eq_of_lt hn, h]

theorem decodeFrom?_next {left low high : Nat} {x : Nat}
    (h : low ≤ x % 64 + 128 ∧ x % 64 + 128 ≤ high) (value : Nat) (bytes : List UInt8) :
    decodeFrom? (.inside (left + 1) low high value) (UInt8.ofNat (x % 64 + 128) :: bytes) =
      decodeFrom? (.inside left 0x80 0xBF (value * 64 + x % 64)) bytes := by
  have hbits : (x % 64 + 128) % 0x40 = x % 64 := by omega
  rw [decodeFrom?, UInt8.toNat_ofNat', Nat.mod_eq_of_lt (by omega), if_pos (by simpa using h),
    hbits]

theorem decodeFrom?_last {low high : Nat} {x : Nat}
    (h : low ≤ x % 64 + 128 ∧ x % 64 + 128 ≤ high) (value : Nat) (bytes : List UInt8) :
    decodeFrom? (.inside 0 low high value) (UInt8.ofNat (x % 64 + 128) :: bytes) =
      (decodeFrom? .start bytes).map (Char.ofNat (value * 64 + x % 64) :: ·) := by
  have hbits : (x % 64 + 128) % 0x40 = x % 64 := by omega
  rw [decodeFrom?, UInt8.toNat_ofNat', Nat.mod_eq_of_lt (by omega), if_pos (by simpa using h),
    hbits]

theorem decodeFrom?_single {n : Nat} (h : n < 0x80) (bytes : List UInt8) :
    decodeFrom? .start (UInt8.ofNat n :: bytes) =
      (decodeFrom? .start bytes).map (Char.ofNat n :: ·) := by
  have hlead : leadByte n = .single (Char.ofNat n) := if_pos h
  rw [decodeFrom?, UInt8.toNat_ofNat', Nat.mod_eq_of_lt (by omega), hlead]

theorem decodeFrom?_encodeChar (c : Char) (bytes : List UInt8) :
    decodeFrom? .start (String.utf8EncodeChar c ++ bytes) =
      (decodeFrom? .start bytes).map (c :: ·) := by
  have hvalid : c.val.toNat < 0xd800 ∨ 0xdfff < c.val.toNat ∧ c.val.toNat < 0x110000 := c.valid
  have hc {n : Nat} (hn : n = c.val.toNat) : Char.ofNat n = c := hn ▸ Char.ofNat_toNat c
  rw [String.utf8EncodeChar]
  generalize hv : c.val.toNat = v at *
  split
  case isTrue =>
    rw [List.singleton_append, decodeFrom?_single (by omega), hc rfl]
  split
  case isTrue =>
    have hlead := leadByte_two (n := v / 64 % 32 + 192) (by omega)
    have hvalue : (v / 64 % 32 + 192) % 0x20 * 64 + v % 64 = v := by omega
    simp only [List.cons_append, List.nil_append]
    rw [decodeFrom?_multi (by omega) hlead, decodeFrom?_last (by omega), hc hvalue]
  split
  case isTrue =>
    have hlead := leadByte_three (n := v / 4096 % 16 + 224) (by omega)
    have hvalue : ((v / 4096 % 16 + 224) % 0x10 * 64 + v / 64 % 64) * 64 + v % 64 = v := by omega
    simp only [List.cons_append, List.nil_append]
    rw [decodeFrom?_multi (by omega) hlead, decodeFrom?_next (by split <;> split <;> omega),
      decodeFrom?_last (by omega), hc hvalue]
  case isFalse =>
    have hlead := leadByte_four (n := v / 262144 % 8 + 240) (by omega)
    have hvalue : (((v / 262144 % 8 + 240) % 8 * 64 + v / 4096 % 64) * 64 + v / 64 % 64) * 64 +
      v % 64 = v := by omega
    simp only [List.cons_append, List.nil_append]
    rw [decodeFrom?_multi (by omega) hlead, decodeFrom?_next (by split <;> split <;> omega),
      decodeFrom?_next (by omega), decodeFrom?_last (by omega), hc hvalue]

/-- Strict decoding gives the characters back. -/
theorem decodeFrom?_encodeChars (cs : List Char) :
    decodeFrom? .start (encodeChars cs) = some cs := by
  induction cs with
  | nil => rfl
  | cons c cs ih => rw [encodeChars_cons, decodeFrom?_encodeChar, ih, Option.map_some]

theorem eq_ten_of_ofNat {n : Nat} (hn : n < 256) (h : 10 = UInt8.ofNat n) : n = 10 := by
  have hbyte := congrArg UInt8.toNat h
  rw [UInt8.toNat_ofNat', Nat.mod_eq_of_lt hn] at hbyte
  exact hbyte.symm

/-- Only a line feed has the byte of a line feed: longer encodings have high bytes throughout. -/
theorem lineFeed_of_mem_encodeChar {c : Char} (h : 10 ∈ String.utf8EncodeChar c) : c = '\n' := by
  rw [String.utf8EncodeChar] at h
  split at h
  case isTrue =>
    have hv : c.val.toNat = 10 := eq_ten_of_ofNat (by omega) (List.mem_singleton.1 h)
    exact Char.toNat_inj.1 hv
  split at h
  case isTrue =>
    simp only [List.mem_cons, List.not_mem_nil, or_false] at h
    obtain h | h := h <;> have := eq_ten_of_ofNat (by omega) h <;> omega
  split at h
  case isTrue =>
    simp only [List.mem_cons, List.not_mem_nil, or_false] at h
    obtain h | h | h := h <;> have := eq_ten_of_ofNat (by omega) h <;> omega
  case isFalse =>
    simp only [List.mem_cons, List.not_mem_nil, or_false] at h
    obtain h | h | h | h := h <;> have := eq_ten_of_ofNat (by omega) h <;> omega

theorem lineFeed_not_mem_encodeChars {cs : List Char} (h : '\n' ∉ cs) : 10 ∉ encodeChars cs := by
  intro hmem
  obtain ⟨c, hc, hbyte⟩ := List.mem_flatMap.1 hmem
  exact h (lineFeed_of_mem_encodeChar hbyte ▸ hc)

end ScriptEngine.Text
