import ScriptEngine.Calendar.Moment

/-!
# Date patterns

A pattern is text with directives that start with a percent sign. A directive stands for a number,
which a modifier may pad in another way, for a name, or for several of them. Moments have no
fractions of a second and no offset.
-/
namespace ScriptEngine.Calendar

/-- How a number is filled up to its width. -/
inductive Padding where
  | none | zero | space
deriving DecidableEq, Repr

/-- The numbers of a moment. -/
inductive NumberField where
  | year | century | yearInCentury | isoYear | isoYearInCentury | quarter | month | day
  | weekFromSunday | weekFromMonday | isoWeek | weekday | weekdayFromMonday | ordinal
  | hour | halfDayHour | minute | second | nanosecond | timestamp
deriving DecidableEq, Repr

inductive Item where
  | text (content : String)
  | number (field : NumberField) (padding : Padding)
  | monthName (full : Bool)
  | weekdayName (full : Bool)
  | halfDay (upper : Bool)
  | standard
deriving Repr

/-- The directives that stand for one number. -/
def numberOf? : Char → Option (NumberField × Padding)
  | 'C' => some (.century, .zero)
  | 'G' => some (.isoYear, .zero)
  | 'H' => some (.hour, .zero)
  | 'I' => some (.halfDayHour, .zero)
  | 'M' => some (.minute, .zero)
  | 'S' => some (.second, .zero)
  | 'U' => some (.weekFromSunday, .zero)
  | 'V' => some (.isoWeek, .zero)
  | 'W' => some (.weekFromMonday, .zero)
  | 'Y' => some (.year, .zero)
  | 'd' => some (.day, .zero)
  | 'e' => some (.day, .space)
  | 'f' => some (.nanosecond, .zero)
  | 'g' => some (.isoYearInCentury, .zero)
  | 'j' => some (.ordinal, .zero)
  | 'k' => some (.hour, .space)
  | 'l' => some (.halfDayHour, .space)
  | 'm' => some (.month, .zero)
  | 'q' => some (.quarter, .none)
  | 's' => some (.timestamp, .none)
  | 'u' => some (.weekdayFromMonday, .none)
  | 'w' => some (.weekday, .none)
  | 'y' => some (.yearInCentury, .zero)
  | _ => none

def dateItems : List Item :=
  [.number .month .zero, .text "/", .number .day .zero, .text "/", .number .yearInCentury .zero]

def timeItems : List Item :=
  [.number .hour .zero, .text ":", .number .minute .zero, .text ":", .number .second .zero]

/-- The items of a directive of one letter. -/
def directive? (c : Char) : Option (List Item) :=
  match numberOf? c with
  | some (field, padding) => some [.number field padding]
  | none =>
    match c with
    | 'A' => some [.weekdayName true]
    | 'B' => some [.monthName true]
    | 'D' | 'x' => some dateItems
    | 'F' => some [.number .year .zero, .text "-", .number .month .zero, .text "-",
        .number .day .zero]
    | 'P' => some [.halfDay false]
    | 'R' => some [.number .hour .zero, .text ":", .number .minute .zero]
    | 'T' | 'X' => some timeItems
    | 'Z' => some [.text "+00:00"]
    | 'a' => some [.weekdayName false]
    | 'b' | 'h' => some [.monthName false]
    | 'c' => some ([.weekdayName false, .text " ", .monthName false, .text " ",
        .number .day .space, .text " "] ++ timeItems ++ [.text " ", .number .year .zero])
    | 'n' => some [.text "\n"]
    | 'p' => some [.halfDay true]
    | 'r' => some [.number .halfDayHour .zero, .text ":", .number .minute .zero, .text ":",
        .number .second .zero, .text " ", .halfDay true]
    | 't' => some [.text "\t"]
    | 'v' => some [.number .day .space, .text "-", .monthName false, .text "-",
        .number .year .zero]
    | 'z' => some [.text "+0000"]
    | '+' => some [.standard]
    | '%' => some [.text "%"]
    | _ => none

/-- A modifier only goes with a directive that is one number. -/
def padded? (padding : Padding) (c : Char) : Option (List Item) :=
  (numberOf? c).map fun (field, _) => [.number field padding]

/-- Digits of a fraction, which are zeros. -/
def fractionDigits? : Char → Option String
  | '3' => some "000"
  | '6' => some "000000"
  | '9' => some "000000000"
  | _ => none

/-- The items of a pattern; none if a directive is not known. -/
def items? : List Char → Option (List Item)
  | [] => some []
  | '%' :: '-' :: c :: cs => do return (← padded? .none c) ++ (← items? cs)
  | '%' :: '0' :: c :: cs => do return (← padded? .zero c) ++ (← items? cs)
  | '%' :: '_' :: c :: cs => do return (← padded? .space c) ++ (← items? cs)
  | '%' :: ':' :: ':' :: ':' :: 'z' :: cs => do return .text "+00" :: (← items? cs)
  | '%' :: ':' :: ':' :: 'z' :: cs => do return .text "+00:00:00" :: (← items? cs)
  | '%' :: ':' :: 'z' :: cs => do return .text "+00:00" :: (← items? cs)
  | '%' :: '.' :: 'f' :: cs => items? cs
  | '%' :: '.' :: d :: 'f' :: cs => do
    return .text ("." ++ (← fractionDigits? d)) :: (← items? cs)
  | '%' :: '3' :: 'f' :: cs => do return .text "000" :: (← items? cs)
  | '%' :: '6' :: 'f' :: cs => do return .text "000000" :: (← items? cs)
  | '%' :: '9' :: 'f' :: cs => do return .text "000000000" :: (← items? cs)
  | '%' :: c :: cs => do return (← directive? c) ++ (← items? cs)
  | '%' :: [] => none
  | c :: cs => do return .text (String.singleton c) :: (← items? cs)

/-! Rendering -/

/-- A number filled up on the left, its sign in front of the zeros or behind the spaces. -/
def fill (padding : Padding) (width : Nat) (sign digits : List Char) : List Char :=
  let missing := width - (sign.length + digits.length)
  match padding with
  | .none => sign ++ digits
  | .zero => sign ++ List.replicate missing '0' ++ digits
  | .space => List.replicate missing ' ' ++ sign ++ digits

def digits (n : Nat) : List Char := Nat.toDigits 10 n

/-- A number of at least `width` characters; a minus sign counts. -/
def writeNumber (padding : Padding) (width : Nat) (n : Int) : List Char :=
  fill padding width (if n < 0 then ['-'] else []) (digits n.natAbs)

/-- Years of four digits go without a sign, and all others have one. -/
def writeYear (padding : Padding) (year : Int) : List Char :=
  if 0 ≤ year && year ≤ 9999 then fill padding 4 [] (digits year.natAbs)
  else fill padding 5 [if year < 0 then '-' else '+'] (digits year.natAbs)

/-- Two characters for a number below 256, which has two digits as a rule: the first one counts the
tens, past nine with the characters that follow. -/
def writeTwo (padding : Padding) (n : Nat) : List Char :=
  let ones := Char.ofNat ('0'.toNat + n % 10)
  if n < 10 then
    match padding with
    | .none => [ones]
    | .zero => ['0', ones]
    | .space => [' ', ones]
  else [Char.ofNat ('0'.toNat + n / 10), ones]

/-- The remainder that a byte keeps. -/
def byteOf (n : Int) : Nat := (n.emod 256).toNat

def halfDayHour (hour : Nat) : Nat := if hour % 12 = 0 then 12 else hour % 12

def writeField (m : Moment) (padding : Padding) : NumberField → List Char
  | .year => writeYear padding m.date.year
  | .century => writeTwo padding (byteOf (m.date.year.fdiv 100))
  | .yearInCentury => writeTwo padding (m.date.year.fmod 100).toNat
  | .isoYear => writeYear padding m.date.isoYear
  | .isoYearInCentury => writeTwo padding (m.date.isoYear.fmod 100).toNat
  | .quarter => digits ((m.date.month - 1) / 3 + 1)
  | .month => writeTwo padding m.date.month
  | .day => writeTwo padding m.date.day
  | .weekFromSunday => writeTwo padding m.date.weekFromSunday
  | .weekFromMonday => writeTwo padding m.date.weekFromMonday
  | .isoWeek => writeTwo padding m.date.isoWeek
  | .weekday => digits m.date.weekday
  | .weekdayFromMonday => digits m.date.weekdayFromMonday
  | .ordinal => writeNumber padding 3 m.date.ordinal
  | .hour => writeTwo padding m.hour
  | .halfDayHour => writeTwo padding (halfDayHour m.hour)
  | .minute => writeTwo padding m.minute
  | .second => writeTwo padding m.second
  | .nanosecond => writeNumber padding 9 0
  | .timestamp => writeNumber padding 9 m.timestamp

def monthNames : List String :=
  ["January", "February", "March", "April", "May", "June", "July", "August", "September",
   "October", "November", "December"]

def weekdayNames : List String :=
  ["Sunday", "Monday", "Tuesday", "Wednesday", "Thursday", "Friday", "Saturday"]

/-- A name, in full or its first three letters. -/
def nameChars (names : List String) (i : Nat) (full : Bool) : List Char :=
  let name := (names.getD i "").toList
  if full then name else name.take 3

def writeItem (m : Moment) : Item → List Char
  | .text s => s.toList
  | .number field padding => writeField m padding field
  | .monthName full => nameChars monthNames (m.date.month - 1) full
  | .weekdayName full => nameChars weekdayNames m.date.weekday full
  | .halfDay upper =>
    match decide (m.hour < 12), upper with
    | true, true => ['A', 'M']
    | true, false => ['a', 'm']
    | false, true => ['P', 'M']
    | false, false => ['p', 'm']
  | .standard =>
    writeYear .zero m.date.year ++ '-' :: writeTwo .zero m.date.month
      ++ '-' :: writeTwo .zero m.date.day ++ 'T' :: writeTwo .zero m.hour
      ++ ':' :: writeTwo .zero m.minute ++ ':' :: writeTwo .zero m.second ++ "+00:00".toList

def render (m : Moment) (items : List Item) : String := String.ofList (items.flatMap (writeItem m))

end ScriptEngine.Calendar
