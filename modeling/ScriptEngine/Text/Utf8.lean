/-!
# UTF-8

Decoding reads one byte at a time and remembers what the bytes so far of a character announce. The
strict form refuses ill-formed bytes; the lenient one writes the replacement character for each
stretch of bytes that starts a character and does not finish it, and for each byte that starts none.
-/
namespace ScriptEngine.Text

/-- What follows: a new character, or the rest of one. The next byte has to lie between `low` and
`high`, `left` more bytes come after it, and `value` holds the bits so far. -/
inductive Utf8State where
  | start
  | inside (left : Nat) (low high : Nat) (value : Nat)

/-- What a byte is in the place of a first byte. -/
inductive LeadByte where
  | single (c : Char)
  | multi (state : Utf8State)
  | invalid

/-- The first byte of a character fixes how many follow and bounds the second. -/
def leadByte (b : Nat) : LeadByte :=
  if b < 0x80 then .single (Char.ofNat b)
  else if 0xC2 ≤ b && b ≤ 0xDF then .multi (.inside 0 0x80 0xBF (b % 0x20))
  else if b = 0xE0 then .multi (.inside 1 0xA0 0xBF 0)
  else if b = 0xED then .multi (.inside 1 0x80 0x9F 0xD)
  else if 0xE1 ≤ b && b ≤ 0xEF then .multi (.inside 1 0x80 0xBF (b % 0x10))
  else if b = 0xF0 then .multi (.inside 2 0x90 0xBF 0)
  else if b = 0xF4 then .multi (.inside 2 0x80 0x8F 4)
  else if 0xF1 ≤ b && b ≤ 0xF3 then .multi (.inside 2 0x80 0xBF (b % 8))
  else .invalid

/-- Stands for bytes that are no character. -/
def replacement : Char := Char.ofNat 0xFFFD

/-- Lenient decoding. -/
def decodeLossyFrom : Utf8State → List UInt8 → List Char
  | .start, [] => []
  | .inside .., [] => [replacement]
  | .start, b :: bs =>
    match leadByte b.toNat with
    | .single c => c :: decodeLossyFrom .start bs
    | .multi s => decodeLossyFrom s bs
    | .invalid => replacement :: decodeLossyFrom .start bs
  | .inside left low high value, b :: bs =>
    if low ≤ b.toNat && b.toNat ≤ high then
      let value := value * 0x40 + b.toNat % 0x40
      match left with
      | 0 => Char.ofNat value :: decodeLossyFrom .start bs
      | left + 1 => decodeLossyFrom (.inside left 0x80 0xBF value) bs
    else
      match leadByte b.toNat with
      | .single c => replacement :: c :: decodeLossyFrom .start bs
      | .multi s => replacement :: decodeLossyFrom s bs
      | .invalid => replacement :: replacement :: decodeLossyFrom .start bs

/-- Strict decoding. -/
def decodeFrom? : Utf8State → List UInt8 → Option (List Char)
  | .start, [] => some []
  | .inside .., [] => none
  | .start, b :: bs =>
    match leadByte b.toNat with
    | .single c => (decodeFrom? .start bs).map (c :: ·)
    | .multi s => decodeFrom? s bs
    | .invalid => none
  | .inside left low high value, b :: bs =>
    if low ≤ b.toNat && b.toNat ≤ high then
      let value := value * 0x40 + b.toNat % 0x40
      match left with
      | 0 => (decodeFrom? .start bs).map (Char.ofNat value :: ·)
      | left + 1 => decodeFrom? (.inside left 0x80 0xBF value) bs
    else none

/-- The text of any bytes. -/
def decodeLossy (bytes : List UInt8) : String := String.ofList (decodeLossyFrom .start bytes)

/-- The text of well-formed bytes. -/
def decode? (bytes : List UInt8) : Option String := (decodeFrom? .start bytes).map String.ofList

/-- The bytes of a text. -/
def encode (s : String) : List UInt8 := s.toUTF8.toList

end ScriptEngine.Text
