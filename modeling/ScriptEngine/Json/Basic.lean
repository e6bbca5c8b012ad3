import ScriptEngine.Number.Text

/-!
# JSON trees

Written as compact text. Whole numbers of moderate size are written as integers, all others with the
fewest digits that read back, the even one of two choices that are equally near, and with an
exponent when they are very large or very small. What is no number is written as null.
-/
namespace ScriptEngine

/-- A JSON value. Objects keep their members as written; numbers are doubles. -/
inductive Json where
  | null
  | bool (value : Bool)
  | number (value : Float)
  | text (content : String)
  | array (items : List Json)
  | object (members : List (String × Json))
deriving Repr, Inhabited

namespace Json

/-- How deep arrays and objects of a text may be nested. -/
def maxReadDepth : Nat := 127

/-! Numbers -/

/-- Whole numbers below this size are integers. -/
def wholeBound : Nat := 9000000000000000

/-- What a number is written as. -/
inductive Numeral where
  | null
  | whole (value : Int)
  | float (value : Number.Binary)
deriving DecidableEq, Repr

/-- Whole numbers of moderate size become integers, other finite ones stay doubles. -/
def numeral (x : Float) : Numeral :=
  match Number.Binary.ofFloat? x with
  | none => .null
  | some b => if b.isWhole && b.truncate.natAbs < wholeBound then .whole b.truncate else .float b

/-! Writing -/

/-- A word, with a minus in front if it is negative. -/
def signed (negative : Bool) (magnitude : List Char) : List Char :=
  if negative then '-' :: magnitude else magnitude

/-- A digit, the other digits behind a point, and the exponent with its sign. -/
def scientific (d : Number.Decimal) : List Char :=
  let ds := Number.digitsOf d.digits
  let exponent := d.exponent + (ds.length - 1 : Nat)
  let mantissa :=
    match ds with
    | lead :: second :: rest => lead :: '.' :: second :: rest
    | _ => ds
  mantissa ++ 'e' :: (if exponent < 0 then '-' else '+') :: Number.digitsOf exponent.natAbs

/-- Without an exponent if the leading digit is not too far from the point. -/
def decimalText (d : Number.Decimal) : List Char :=
  let lead := d.exponent + ((Number.digitsOf d.digits).length - 1 : Nat)
  if -5 ≤ lead && lead ≤ 15 then
    if 0 ≤ d.exponent then d.positional ++ ['.', '0'] else d.positional
  else scientific d

/-- The text of a double, which has a point or an exponent. -/
def floatText (b : Number.Binary) : List Char :=
  signed b.negative (decimalText (Number.shortest .even b))

def Numeral.chars : Numeral → List Char
  | null => ['n', 'u', 'l', 'l']
  | whole n => signed (n < 0) (Number.digitsOf n.natAbs)
  | float b => floatText b

def numberText (x : Float) : List Char := (numeral x).chars

def escapedChar (c : Char) : List Char :=
  match c with
  | '"' => ['\\', '"']
  | '\\' => ['\\', '\\']
  | '\n' => ['\\', 'n']
  | '\r' => ['\\', 'r']
  | '\t' => ['\\', 't']
  | '\x08' => ['\\', 'b']
  | '\x0c' => ['\\', 'f']
  | _ =>
    if c.toNat < 0x20 then
      ['\\', 'u', '0', '0', Nat.digitChar (c.toNat / 16), Nat.digitChar (c.toNat % 16)]
    else [c]

def quotedText (s : String) : List Char := '"' :: s.toList.flatMap escapedChar ++ ['"']

mutual

/-- The characters of a value. -/
def chars : Json → List Char
  | null => ['n', 'u', 'l', 'l']
  | bool b => if b then ['t', 'r', 'u', 'e'] else ['f', 'a', 'l', 's', 'e']
  | number x => numberText x
  | text s => quotedText s
  | array items => '[' :: itemChars items ++ [']']
  | object members => '{' :: memberChars members ++ ['}']

/-- Items with commas between them. -/
def itemChars : List Json → List Char
  | [] => []
  | [v] => chars v
  | v :: rest => chars v ++ ',' :: itemChars rest

/-- Members with commas between them. -/
def memberChars : List (String × Json) → List Char
  | [] => []
  | [(key, v)] => quotedText key ++ ':' :: chars v
  | (key, v) :: rest => quotedText key ++ ':' :: chars v ++ ',' :: memberChars rest

end

def render (v : Json) : String := String.ofList (chars v)

end Json

end ScriptEngine
