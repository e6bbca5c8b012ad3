/-!
# Numbers as text

A finite double is a natural number times a power of two. Reading it in that form makes truncation,
remainders and decimal digits exact integer arithmetic.

The doubles nearest to a value bound an interval, and every decimal in that interval reads back as
the value. For one digit, two digits and so on the two neighbours of the value on the decimal grid
are tried; the first grid with a hit has the fewest digits.

A number is written with the fewest digits that read back, the upper of two choices that are equally
near, and never with an exponent. Reading takes the nearest double.
-/
namespace ScriptEngine.Number

/-- A finite value: `mantissa * 2 ^ exponent`, negated if `negative` holds. -/
structure Binary where
  negative : Bool
  mantissa : Nat
  exponent : Int
deriving DecidableEq, Repr

/-- The exponent of the least significant bit of the smallest doubles. -/
def leastExponent : Int := -1074

/-- The exact value of a finite double; none for an infinity and for not-a-number. -/
def Binary.ofFloat? (x : Float) : Option Binary :=
  let bits := x.toBits.toNat
  let negative := bits / Nat.pow 2 63 == 1
  let field : Nat := bits / Nat.pow 2 52 % Nat.pow 2 11
  let fraction := bits % Nat.pow 2 52
  if field = Nat.pow 2 11 - 1 then none
  else if field = 0 then some ⟨negative, fraction, leastExponent⟩
  else some ⟨negative, Nat.pow 2 52 + fraction, (field : Int) - 1075⟩

/-- The double of this value, which has to be one that a double can hold. -/
def Binary.toFloat (b : Binary) : Float :=
  let sign := if b.negative then Nat.pow 2 63 else 0
  if b.mantissa = 0 then Float.ofBits (UInt64.ofNat sign)
  else
    let up := min (52 - (b.mantissa.log2 : Int)) (b.exponent - leastExponent)
    let mantissa :=
      if 0 ≤ up then b.mantissa * Nat.pow 2 up.toNat else b.mantissa / Nat.pow 2 (-up).toNat
    let exponent := b.exponent - up
    let magnitude :=
      if mantissa < Nat.pow 2 52 then mantissa
      else (exponent - leastExponent + 1).toNat * Nat.pow 2 52 + (mantissa - Nat.pow 2 52)
    Float.ofBits (UInt64.ofNat (sign + magnitude))

/-- The integer next to the value on the side of zero. -/
def Binary.truncate (b : Binary) : Int :=
  let magnitude :=
    if 0 ≤ b.exponent then b.mantissa * Nat.pow 2 b.exponent.toNat
    else b.mantissa / Nat.pow 2 (-b.exponent).toNat
  if b.negative then -(magnitude : Int) else magnitude

/-- Whether the value is a whole number. -/
def Binary.isWhole (b : Binary) : Bool :=
  0 ≤ b.exponent || b.mantissa % Nat.pow 2 (-b.exponent).toNat == 0

/-- The integer part of a double kept within `low` and `high`: what is not a number counts as zero,
an infinity as the nearer end. -/
def toIntWithin (low high : Int) (x : Float) : Int :=
  match Binary.ofFloat? x with
  | some b => max low (min high b.truncate)
  | none => if x.isNaN then max low (min high 0) else if x < 0 then low else high

/-- The integer part of a double as a natural number below `2 ^ width`. -/
def toNatBelow (width : Nat) (x : Float) : Nat :=
  (toIntWithin 0 (Nat.pow 2 width - 1 : Int) x).toNat

/-- The exact remainder of two finite values, with the sign of the first; the second is not zero. -/
def Binary.remainder (a b : Binary) : Binary :=
  let exponent := min a.exponent b.exponent
  let left := a.mantissa * Nat.pow 2 (a.exponent - exponent).toNat
  let right := b.mantissa * Nat.pow 2 (b.exponent - exponent).toNat
  ⟨a.negative, left % right, exponent⟩

/-- Remainder of a division that truncates: not a number for an infinite dividend or a zero
divisor, and the dividend itself for an infinite divisor. -/
def remainder (x y : Float) : Float :=
  match Binary.ofFloat? x, Binary.ofFloat? y with
  | some a, some b => if b.mantissa = 0 then 0.0 / 0.0 else (a.remainder b).toFloat
  | some _, none => if y.isNaN then y else x
  | none, _ => 0.0 / 0.0

/-! Decimals -/

/-- A positive decimal: `digits * 10 ^ exponent`. -/
structure Decimal where
  digits : Nat
  exponent : Int
deriving DecidableEq, Repr

/-- Whether `d * 10 ^ k` is at most `x * 2 ^ q`. -/
def decimalLe (d : Nat) (k : Int) (x : Nat) (q : Int) : Bool :=
  d * Nat.pow 10 k.toNat * Nat.pow 2 (-q).toNat ≤ x * Nat.pow 2 q.toNat * Nat.pow 10 (-k).toNat

/-- Whether `x * 2 ^ q` is at most `d * 10 ^ k`. -/
def binaryLe (x : Nat) (q : Int) (d : Nat) (k : Int) : Bool :=
  x * Nat.pow 2 q.toNat * Nat.pow 10 (-k).toNat ≤ d * Nat.pow 10 k.toNat * Nat.pow 2 (-q).toNat

/-- The interval of reals that round to `mantissa * 2 ^ exponent`, in quarters of its last bit. -/
structure Rounding where
  low : Nat
  high : Nat
  closed : Bool
  unit : Int

/-- Below a power of two the neighbours lie closer together. -/
def Rounding.of (b : Binary) : Rounding :=
  let narrow := b.mantissa = Nat.pow 2 52 && leastExponent < b.exponent
  { low := 4 * b.mantissa - (if narrow then 1 else 2)
    high := 4 * b.mantissa + 2
    closed := b.mantissa % 2 == 0
    unit := b.exponent - 2 }

/-- Whether the decimal lies in the interval. -/
def Rounding.holds (r : Rounding) (d : Nat) (k : Int) : Bool :=
  if r.closed then binaryLe r.low r.unit d k && decimalLe d k r.high r.unit
  else !decimalLe d k r.low r.unit && !binaryLe r.high r.unit d k

/-- The power of ten of the leading digit of a positive value. -/
def leadingPower (b : Binary) : Int :=
  let guess := (((b.mantissa.log2 : Int) + b.exponent) * 30103).fdiv 100000
  if decimalLe 1 (guess + 1) b.mantissa b.exponent then guess + 1 else guess

/-- The largest grid point at most the value, on the grid of spacing `10 ^ k`. -/
def gridBelow (b : Binary) (k : Int) : Nat :=
  b.mantissa * Nat.pow 2 b.exponent.toNat * Nat.pow 10 (-k).toNat /
    (Nat.pow 10 k.toNat * Nat.pow 2 (-b.exponent).toNat)

/-- Which of two equally near decimals is taken. -/
inductive Tie where
  | up | even
deriving DecidableEq, Repr

/-- Whether the grid point above is taken rather than the one below: if it is nearer, or by the rule
for a tie. -/
def takesUpper (tie : Tie) (b : Binary) (below : Nat) (k : Int) : Bool :=
  let reached := decimalLe (2 * below + 1) k (2 * b.mantissa) b.exponent
  match tie with
  | .up => reached
  | .even =>
    if reached && binaryLe (2 * b.mantissa) b.exponent (2 * below + 1) k then below % 2 == 1
    else reached

/-- The neighbour of the value on the grid of spacing `10 ^ k` that reads back, if one does; of two
the nearer. -/
def hit? (tie : Tie) (b : Binary) (r : Rounding) (k : Int) : Option Nat :=
  let below := gridBelow b k
  match r.holds below k && below != 0, r.holds (below + 1) k with
  | true, true => some (if takesUpper tie b below k then below + 1 else below)
  | true, false => some below
  | false, true => some (below + 1)
  | false, false => none

/-- Tries grids of falling spacing; `left` grids remain. -/
def firstHit (tie : Tie) (b : Binary) (r : Rounding) : Nat → Int → Decimal
  | 0, k => ⟨gridBelow b k, k⟩
  | left + 1, k =>
    match hit? tie b r k with
    | some d => ⟨d, k⟩
    | none => firstHit tie b r left (k - 1)

/-- The same decimal with a digit less: rounding up may carry a nine over into a ten. -/
def Decimal.carried (d : Decimal) : Decimal :=
  if d.digits = 10 then ⟨1, d.exponent + 1⟩ else d

/-- The shortest decimal that reads back as this positive value, nearest among the shortest. -/
def shortest (tie : Tie) (b : Binary) : Decimal :=
  (firstHit tie b (Rounding.of b) 17 (leadingPower b)).carried

/-- The decimal digits of a natural number. -/
def digitsOf (n : Nat) : List Char := Nat.toDigits 10 n

/-- The value of a string of decimal digits. -/
def valueOfDigits (ds : List Char) : Nat :=
  ds.foldl (fun n d => 10 * n + (d.toNat - '0'.toNat)) 0

/-- Digits with the decimal point in its place, zeros filled in on either side. -/
def Decimal.positional (d : Decimal) : List Char :=
  let ds := digitsOf d.digits
  if 0 ≤ d.exponent then ds ++ List.replicate d.exponent.toNat '0'
  else
    let places := (-d.exponent).toNat
    if places < ds.length then
      ds.take (ds.length - places) ++ '.' :: ds.drop (ds.length - places)
    else '0' :: '.' :: List.replicate (places - ds.length) '0' ++ ds

/-- Shortest positional text of a number, with the sign of a negative zero kept. -/
def toText (x : Float) : String :=
  match Binary.ofFloat? x with
  | none => if x.isNaN then "NaN" else if x < 0 then "-inf" else "inf"
  | some b =>
    let magnitude := if b.mantissa = 0 then ['0'] else (shortest .up b).positional
    String.ofList (if b.negative then '-' :: magnitude else magnitude)

/-- The double nearest to `digits * 10 ^ exponent`. -/
def ofDecimal (digits : Nat) (exponent : Int) : Float :=
  if exponent < 0 then Float.ofScientific digits true (-exponent).toNat
  else Float.ofScientific digits false exponent.toNat

/-- The double nearest to the number written with these digits before and after the point. -/
def ofDigits (whole fraction : List Char) : Float :=
  ofDecimal (valueOfDigits (whole ++ fraction)) (-(fraction.length : Int))

end ScriptEngine.Number
