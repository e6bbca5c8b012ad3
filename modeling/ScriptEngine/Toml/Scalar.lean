import ScriptEngine.Calendar.Moment
import ScriptEngine.Json.Reader
import ScriptEngine.Number.Text

/-!
# Values, strings and scalars of TOML

Strings come in four forms: with and without escapes, on one line and on several. Everything else
that is neither array nor table is a word, which is told apart by its characters.
-/
namespace ScriptEngine

/-- A value of a configuration file. What numbers with a fraction, dates and tables hold does not
matter here. -/
inductive Toml where
  | text (content : String)
  | integer (value : Int)
  | bool (value : Bool)
  | float
  | date
  | array (items : List Toml)
  | table
deriving Repr, Inhabited

namespace Toml

def isSpace (c : Char) : Bool := c == ' ' || c == '\t'

def skipSpace (cs : List Char) : List Char := cs.dropWhile isSpace

/-- Control characters stand in no text, apart from tabs. -/
def isControl (c : Char) : Bool := (c.toNat < 0x20 && c != '\t') || c.toNat == 0x7F

/-! Strings -/

/-- The number of so many hexadecimal digits. -/
def hexNumber? : Nat → Nat → List Char → Option (Nat × List Char)
  | 0, value, cs => some (value, cs)
  | n + 1, value, c :: cs => (Json.hexDigit? c).bind fun d => hexNumber? n (16 * value + d) cs
  | _ + 1, _, [] => none

/-- The character of a code point that is one. -/
def charOf? (n : Nat) : Option Char :=
  if n < 0xD800 || (0xE000 ≤ n && n < 0x110000) then some (Char.ofNat n) else none

/-- What a backslash and the characters behind it stand for. -/
def escape? : List Char → Option (Char × List Char)
  | 'b' :: cs => some (Char.ofNat 8, cs)
  | 't' :: cs => some ('\t', cs)
  | 'n' :: cs => some ('\n', cs)
  | 'f' :: cs => some (Char.ofNat 12, cs)
  | 'r' :: cs => some ('\r', cs)
  | '"' :: cs => some ('"', cs)
  | '\\' :: cs => some ('\\', cs)
  | 'u' :: cs => do
    let (n, cs) ← hexNumber? 4 0 cs
    return (← charOf? n, cs)
  | 'U' :: cs => do
    let (n, cs) ← hexNumber? 8 0 cs
    return (← charOf? n, cs)
  | _ => none

/-- The rest of a string on one line, of at most `n` characters; `read` is what was read,
reversed. -/
def lineRest? (quote : Char) (escapes : Bool) : Nat → List Char → List Char →
    Option (String × List Char)
  | 0, _, _ => none
  | _ + 1, _, [] => none
  | n + 1, read, c :: cs =>
    if c == quote then some (String.ofList read.reverse, cs)
    else if escapes && c == '\\' then
      match escape? cs with
      | some (c, cs) => lineRest? quote escapes n (c :: read) cs
      | none => none
    else if isControl c then none
    else lineRest? quote escapes n (c :: read) cs

/-- A line break, of either kind. -/
def lineBreak? : List Char → Option (List Char)
  | '\n' :: cs => some cs
  | '\r' :: '\n' :: cs => some cs
  | _ => none

/-- Whether nothing but spaces stands before the next line break. -/
def endsLine (cs : List Char) : Bool := (lineBreak? (skipSpace cs)).isSome

/-- What is behind spaces and line breaks. -/
def skipBlank : List Char → List Char
  | '\n' :: cs => skipBlank cs
  | '\r' :: '\n' :: cs => skipBlank cs
  | ' ' :: cs => skipBlank cs
  | '\t' :: cs => skipBlank cs
  | cs => cs

/-- The quotes at the end of a string on several lines: the last three close it, and up to two more
belong to it. -/
def closing? (quote : Char) (cs : List Char) : Option (List Char × List Char) :=
  let run := cs.takeWhile (· == quote)
  if run.length < 3 then none
  else
    let used := min run.length 5
    some (List.replicate (used - 3) quote, cs.drop used)

/-- The rest of a string on several lines. -/
def blockRest? (quote : Char) (escapes : Bool) : Nat → List Char → List Char →
    Option (String × List Char)
  | 0, _, _ => none
  | n + 1, read, cs =>
    match closing? quote cs with
    | some (quotes, cs) => some (String.ofList (read.reverse ++ quotes), cs)
    | none =>
      match lineBreak? cs with
      | some cs => blockRest? quote escapes n ('\n' :: read) cs
      | none =>
        match cs with
        | [] => none
        | c :: cs =>
          if escapes && c == '\\' then
            if endsLine cs then blockRest? quote escapes n read (skipBlank cs)
            else
              match escape? cs with
              | some (c, cs) => blockRest? quote escapes n (c :: read) cs
              | none => none
          else if isControl c then none
          else blockRest? quote escapes n (c :: read) cs

/-- A string behind its first quote. -/
def text? (quote : Char) (cs : List Char) : Option (String × List Char) :=
  let escapes := quote == '"'
  match cs with
  | a :: b :: rest =>
    if a == quote && b == quote then
      blockRest? quote escapes (cs.length + 1) [] ((lineBreak? rest).getD rest)
    else lineRest? quote escapes (cs.length + 1) [] cs
  | _ => lineRest? quote escapes (cs.length + 1) [] cs

/-! Words -/

/-- Digits that may have single underscores between them. -/
def isDigits (isDigit : Char → Bool) (cs : List Char) : Bool :=
  !cs.isEmpty && cs.all (fun c => isDigit c || c == '_') && cs.head? != some '_'
    && cs.getLast? != some '_'
    && (cs.zip (cs.drop 1)).all fun (a, b) => !(a == '_' && b == '_')

def digitsValue (base : Nat) (cs : List Char) : Nat :=
  (cs.filterMap Json.hexDigit?).foldl (fun n d => base * n + d) 0

/-- A sign, if there is one, and what is behind it. -/
def signed (cs : List Char) : Bool × List Char :=
  match cs with
  | '-' :: cs => (true, cs)
  | '+' :: cs => (false, cs)
  | _ => (false, cs)

/-- Digits without a needless zero in front. -/
def isWhole (cs : List Char) : Bool :=
  isDigits Char.isDigit cs && (cs.length == 1 || cs.head? != some '0')

/-- Integers are those that a machine word with a sign holds. -/
def inRange? (n : Int) : Option Toml :=
  if -(Nat.pow 2 63 : Int) ≤ n && n < Nat.pow 2 63 then some (.integer n) else none

def integer? (cs : List Char) : Option Toml :=
  match cs with
  | '0' :: 'x' :: ds =>
    if isDigits (fun c => (Json.hexDigit? c).isSome) ds then inRange? (digitsValue 16 ds) else none
  | '0' :: 'o' :: ds =>
    if isDigits (fun c => '0' ≤ c && c ≤ '7') ds then inRange? (digitsValue 8 ds) else none
  | '0' :: 'b' :: ds =>
    if isDigits (fun c => c == '0' || c == '1') ds then inRange? (digitsValue 2 ds) else none
  | _ =>
    let (negative, ds) := signed cs
    if isWhole ds then
      let n : Int := digitsValue 10 ds
      inRange? (if negative then -n else n)
    else none

/-- Whether `digits * 10 ^ exponent` rounds to a finite double. Only where the leading digit stands
at the power of ten of the largest double does it take more than a count of the digits to tell. -/
def isFinite (digits : List Char) (exponent : Int) : Bool :=
  let digits := digits.dropWhile (· == '0')
  let places : Int := digits.length + exponent
  digits.isEmpty || places < 309
    || (places == 309
      && !Number.binaryLe (Nat.pow 2 54 - 1) 970 (Number.valueOfDigits digits) exponent)

/-- A number with a fraction or an exponent, an infinity, or what is no number. A number above the
largest double is refused; below the least one, it stands for an infinity. -/
def isFloat (cs : List Char) : Bool :=
  let (negative, cs) := signed cs
  if cs == ['i', 'n', 'f'] || cs == ['n', 'a', 'n'] then true
  else
    let mantissa := cs.takeWhile fun c => c != 'e' && c != 'E'
    let exponent := cs.drop mantissa.length
    let whole := mantissa.takeWhile (· != '.')
    let fraction := mantissa.drop whole.length
    let goodFraction := fraction.isEmpty || isDigits Char.isDigit (fraction.drop 1)
    let (below, power) := signed (exponent.drop 1)
    let goodExponent := exponent.isEmpty || isDigits Char.isDigit power
    let decimals := fraction.filter Char.isDigit
    let scale : Int := digitsValue 10 power
    isWhole whole && goodFraction && goodExponent && !(fraction.isEmpty && exponent.isEmpty)
      && (negative || isFinite (whole.filter Char.isDigit ++ decimals)
        ((if below then -scale else scale) - decimals.length))

/-- A number of two digits. -/
def twoDigitNumber? : List Char → Option (Nat × List Char)
  | a :: b :: cs => if a.isDigit && b.isDigit then some (digitsValue 10 [a, b], cs) else none
  | _ => none

/-- What is behind two digits up to a bound. -/
def twoDigits (most : Nat) (cs : List Char) : Option (List Char) :=
  match twoDigitNumber? cs with
  | some (n, cs) => if n ≤ most then some cs else none
  | none => none

/-- A time of day; true if the whole word is one. -/
def isTime (cs : List Char) : Bool :=
  match twoDigits 23 cs with
  | some (':' :: cs) =>
    match twoDigits 59 cs with
    | some (':' :: cs) =>
      match twoDigits 60 cs with
      | some [] => true
      | some ('.' :: ds) => !ds.isEmpty && ds.all Char.isDigit
      | _ => false
    | _ => false
  | _ => false

/-- An offset of hours and minutes. -/
def isOffset (cs : List Char) : Bool :=
  match cs with
  | sign :: cs =>
    (sign == '+' || sign == '-') &&
      match twoDigits 23 cs with
      | some (':' :: cs) => twoDigits 59 cs == some []
      | _ => false
  | [] => false

/-- A time of day that may have an offset. -/
def isZonedTime (cs : List Char) : Bool :=
  isTime cs || (cs.getLast?.any (fun c => c == 'Z' || c == 'z') && isTime cs.dropLast)
    || (isOffset (cs.drop (cs.length - 6)) && isTime (cs.take (cs.length - 6)))

/-- Whether there is such a day. -/
def isDay (year month day : Nat) : Bool :=
  1 ≤ month && month ≤ 12 && 1 ≤ day && day ≤ Calendar.daysIn year month

/-- What is behind a year, a month and a day. -/
def date? (cs : List Char) : Option (List Char) :=
  match cs with
  | a :: b :: c :: d :: '-' :: cs =>
    match twoDigitNumber? cs with
    | some (month, '-' :: cs) =>
      match twoDigitNumber? cs with
      | some (day, cs) =>
        if [a, b, c, d].all Char.isDigit && isDay (digitsValue 10 [a, b, c, d]) month day then
          some cs
        else none
      | none => none
    | _ => none
  | _ => none

/-- A date, a time of day, or both. -/
def isDate (cs : List Char) : Bool :=
  isTime cs ||
    match date? cs with
    | some [] => true
    | some (c :: cs) => (c == 'T' || c == 't' || c == ' ') && isZonedTime cs
    | none => false

def isWordChar (c : Char) : Bool :=
  c.isAlphanum || c == '+' || c == '-' || c == '_' || c == '.' || c == ':'

/-- The characters of a word; a date may have a space before its time. -/
def word (cs : List Char) : List Char × List Char :=
  let first := cs.takeWhile isWordChar
  let rest := cs.drop first.length
  match rest with
  | ' ' :: more =>
    let second := more.takeWhile isWordChar
    if date? first == some [] && (twoDigits 99 second).isSome then
      (first ++ ' ' :: second, more.drop second.length)
    else (first, rest)
  | _ => (first, rest)

/-- The value of a word. -/
def wordValue? (cs : List Char) : Option Toml :=
  if cs == "true".toList then some (.bool true)
  else if cs == "false".toList then some (.bool false)
  else
    match integer? cs with
    | some v => some v
    | none => if isFloat cs then some .float else if isDate cs then some .date else none

end Toml

end ScriptEngine
