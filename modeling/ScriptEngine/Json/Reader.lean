import ScriptEngine.Json.Basic
import ScriptEngine.Number.Text

/-!
# Reading JSON

The strict grammar: no trailing commas, no comments, no control characters inside strings, no
unpaired surrogates, no numbers out of range. Every reader takes the characters that are left and
returns those behind what it has read.
-/
namespace ScriptEngine.Json

def isSpace (c : Char) : Bool := c == ' ' || c == '\n' || c == '\t' || c == '\r'

def skipSpace (cs : List Char) : List Char := cs.dropWhile isSpace

/-! Numbers -/

/-- Significands stay below this bound; digits that would lead beyond it are not taken in. -/
def significandBound : Nat := Nat.pow 2 64

/-- A significand with the digits it takes in, and the digits left over. -/
def takeDigits (significand : Nat) : List Char → Nat × List Char
  | [] => (significand, [])
  | d :: ds =>
    let next := 10 * significand + (d.toNat - '0'.toNat)
    if next < significandBound then takeDigits next ds else (significand, d :: ds)

/-- Divides by the largest power of ten, at most `n` times, until the exponent is in reach. -/
def scaleDown : Nat → Float → Int → Float × Int
  | 0, f, e => (f, e)
  | n + 1, f, e =>
    if f == 0 || -308 ≤ e then (f, e) else scaleDown n (f / Number.ofDecimal 1 308) (e + 308)

/-- The double that a significand and a power of ten come to, with a sign, if it is in range. Two
roundings take place: that of the significand and that of the product. -/
def scaled? (negative : Bool) (significand : Nat) (exponent : Int) : Option Float :=
  if significand ≠ 0 ∧ 308 < exponent then none
  else
    let f := Number.ofDecimal significand 0
    let magnitude :=
      if significand = 0 then f
      else if 0 ≤ exponent then f * Number.ofDecimal 1 exponent
      else
        let (f, e) := scaleDown 4 f exponent
        if f == 0 then f else f / Number.ofDecimal 1 (-e)
    let x := if negative then -magnitude else magnitude
    if x.isFinite then some x else none

def digitRun (cs : List Char) : List Char × List Char :=
  (cs.takeWhile Char.isDigit, cs.dropWhile Char.isDigit)

/-- The digits before the point: a lone zero, or digits that do not start with one. -/
def wholeDigits? (cs : List Char) : Option (List Char × List Char) :=
  match digitRun cs with
  | ([], _) => none
  | ('0' :: _ :: _, _) => none
  | run => some run

/-- The digits behind a point, of which there has to be one; none if there is no point. -/
def fractionDigits? : List Char → Option (List Char × List Char)
  | '.' :: cs =>
    match digitRun cs with
    | ([], _) => none
    | run => some run
  | cs => some ([], cs)

/-- The value of digits that have to be there, with a sign. -/
def exponentDigits? (negative : Bool) (cs : List Char) : Option (Int × List Char) :=
  match digitRun cs with
  | ([], _) => none
  | (ds, cs) =>
    let n : Int := Number.valueOfDigits ds
    some (if negative then -n else n, cs)

/-- The exponent behind its mark; zero if there is none. -/
def exponent? : List Char → Option (Int × List Char)
  | c :: cs =>
    if c == 'e' || c == 'E' then
      match cs with
      | '+' :: cs => exponentDigits? false cs
      | '-' :: cs => exponentDigits? true cs
      | cs => exponentDigits? false cs
    else some (0, c :: cs)
  | [] => some (0, [])

/-- A number behind its sign. -/
def magnitude? (negative : Bool) (cs : List Char) : Option (Float × List Char) := do
  let (whole, cs) ← wholeDigits? cs
  let (fraction, cs) ← fractionDigits? cs
  let (exponent, cs) ← exponent? cs
  let (significand, wholeLeft) := takeDigits 0 whole
  let (significand, fractionLeft) := takeDigits significand fraction
  let taken : Int := fraction.length - fractionLeft.length
  let x ← scaled? negative significand (exponent + wholeLeft.length - taken)
  return (x, cs)

def number? : List Char → Option (Float × List Char)
  | '-' :: cs => magnitude? true cs
  | cs => magnitude? false cs

/-! Strings -/

def hexDigit? (c : Char) : Option Nat :=
  if c.isDigit then some (c.toNat - '0'.toNat)
  else if 'a' ≤ c && c ≤ 'f' then some (c.toNat - 'a'.toNat + 10)
  else if 'A' ≤ c && c ≤ 'F' then some (c.toNat - 'A'.toNat + 10)
  else none

/-- Four hexadecimal digits. -/
def codeUnit? : List Char → Option (Nat × List Char)
  | a :: b :: c :: d :: cs => do
    return ((((← hexDigit? a) * 16 + (← hexDigit? b)) * 16 + (← hexDigit? c)) * 16
      + (← hexDigit? d), cs)
  | _ => none

/-- A character written as one code unit, or as two that are a pair of surrogates. -/
def unicodeEscape? (cs : List Char) : Option (Char × List Char) := do
  let (high, cs) ← codeUnit? cs
  if 0xD800 ≤ high && high ≤ 0xDBFF then
    match cs with
    | '\\' :: 'u' :: cs =>
      let (low, cs) ← codeUnit? cs
      if 0xDC00 ≤ low && low ≤ 0xDFFF then
        return (Char.ofNat (0x10000 + (high - 0xD800) * 0x400 + (low - 0xDC00)), cs)
      else none
    | _ => none
  else if 0xDC00 ≤ high && high ≤ 0xDFFF then none
  else return (Char.ofNat high, cs)

/-- What a backslash and the characters behind it stand for. -/
def escape? : List Char → Option (Char × List Char)
  | '"' :: cs => some ('"', cs)
  | '\\' :: cs => some ('\\', cs)
  | '/' :: cs => some ('/', cs)
  | 'b' :: cs => some (Char.ofNat 8, cs)
  | 'f' :: cs => some (Char.ofNat 12, cs)
  | 'n' :: cs => some ('\n', cs)
  | 'r' :: cs => some ('\r', cs)
  | 't' :: cs => some ('\t', cs)
  | 'u' :: cs => unicodeEscape? cs
  | _ => none

/-- The rest of a string of at most `n` characters up to its quote; `read` is what was read,
reversed. -/
def textRest? : Nat → List Char → List Char → Option (String × List Char)
  | 0, _, _ => none
  | n + 1, read, cs =>
    match cs with
    | [] => none
    | '"' :: cs => some (String.ofList read.reverse, cs)
    | '\\' :: cs =>
      match escape? cs with
      | some (c, cs) => textRest? n (c :: read) cs
      | none => none
    | c :: cs => if c.toNat < 0x20 then none else textRest? n (c :: read) cs

/-- A string behind its opening quote. -/
def text? (cs : List Char) : Option (String × List Char) := textRest? (cs.length + 1) [] cs

/-! Values -/

/-- Items up to the closing bracket, at most `n` of them; `read` is what was read, reversed. -/
def itemsRest? (item? : List Char → Option (Json × List Char)) :
    Nat → List Json → List Char → Option (Json × List Char)
  | 0, _, _ => none
  | n + 1, read, cs => do
    let (item, cs) ← item? cs
    match skipSpace cs with
    | ',' :: cs => itemsRest? item? n (item :: read) cs
    | ']' :: cs => return (array (item :: read).reverse, cs)
    | _ => none

/-- A key with its value. -/
def member? (item? : List Char → Option (Json × List Char)) (cs : List Char) :
    Option ((String × Json) × List Char) := do
  match skipSpace cs with
  | '"' :: cs =>
    let (key, cs) ← text? cs
    match skipSpace cs with
    | ':' :: cs =>
      let (item, cs) ← item? cs
      return ((key, item), cs)
    | _ => none
  | _ => none

/-- Members up to the closing brace, at most `n` of them; `read` is what was read, reversed. -/
def membersRest? (item? : List Char → Option (Json × List Char)) :
    Nat → List (String × Json) → List Char → Option (Json × List Char)
  | 0, _, _ => none
  | n + 1, read, cs => do
    let (m, cs) ← member? item? cs
    match skipSpace cs with
    | ',' :: cs => membersRest? item? n (m :: read) cs
    | '}' :: cs => return (object (m :: read).reverse, cs)
    | _ => none

/-- A value that is neither array nor object. -/
def scalar? : List Char → Option (Json × List Char)
  | 'n' :: 'u' :: 'l' :: 'l' :: cs => some (null, cs)
  | 't' :: 'r' :: 'u' :: 'e' :: cs => some (bool true, cs)
  | 'f' :: 'a' :: 'l' :: 's' :: 'e' :: cs => some (bool false, cs)
  | '"' :: cs => (text? cs).map fun (s, cs) => (text s, cs)
  | cs => (number? cs).map fun (f, cs) => (number f, cs)

/-- A value with room for that many nested arrays and objects. -/
def value? : Nat → List Char → Option (Json × List Char)
  | room, cs =>
    match skipSpace cs with
    | '[' :: cs =>
      match room with
      | 0 => none
      | room + 1 =>
        match skipSpace cs with
        | ']' :: cs => some (array [], cs)
        | cs => itemsRest? (value? room) (cs.length + 1) [] cs
    | '{' :: cs =>
      match room with
      | 0 => none
      | room + 1 =>
        match skipSpace cs with
        | '}' :: cs => some (object [], cs)
        | cs => membersRest? (value? room) (cs.length + 1) [] cs
    | cs => scalar? cs

/-- The value of a text that is one JSON value and nothing else. -/
def parse? (s : String) : Option Json :=
  match value? maxReadDepth s.toList with
  | some (v, cs) => if (skipSpace cs).isEmpty then some v else none
  | none => none

end ScriptEngine.Json
