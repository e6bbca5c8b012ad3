import ScriptEngine.Grammar.Pattern

/-!
# Expressions

From loose to tight: assignment, pipe, coalescing, or, and, equality, comparison, sums, products,
unary operators, calls and accesses, primaries. Binary operators group to the left, assignment to
the right.
-/
namespace ScriptEngine.Grammar
open Text (Position)

/-- One parameter; its type is read and not kept. -/
def parameter (d : Deeper) : Parser (Pattern × Option Expr) := do
  let p ← bindingPattern d
  discard (typeAfter d .colon)
  if ← accept .equal then return (p, some (← d.parse .expression))
  return (p, none)

/-- Parameters up to the closing parenthesis; the opening one is taken. -/
def parameters (d : Deeper) : Parser (List (Pattern × Option Expr)) :=
  closedList d "')' after parameters" (parameter d)

/-- Statements in braces. -/
def body (d : Deeper) : Parser (List Stmt) := do
  expect .openBrace "'\x7b'"
  let statements ← itemsUntil d .closeBrace (d.parse .statement)
  expect .closeBrace "'\x7d'"
  return statements

/-- Parameters, result type and body of a function. -/
def functionRest (d : Deeper) (name : String) (isAsync : Bool) (position : Position) :
    Parser Function := do
  expect .openParen "'(' before parameters"
  let params ← parameters d
  let returnType ← typeAfter d .thinArrow
  let statements ← body d
  return .mk name params statements isAsync returnType position

/-- The body of an arrow function; a lone expression is what it returns. -/
def arrowRest (d : Deeper) (params : List (Pattern × Option Expr)) (position : Position) :
    Parser Expr := do
  let statements ←
    if ← isNext .openBrace then body d
    else do
      let p ← here
      pure [.return (some (← d.parse .expression)) p]
  return .function (.mk "" params statements false none position)

/-- Whether the parenthesis at the front is closed and an arrow follows; `depth` are open. There is
no answer if one is closed and none is open. -/
def arrowAhead? : Nat → List Token → Option Bool
  | _, [] => some false
  | depth, t :: rest =>
    match t.lexeme with
    | .symbol .openParen => arrowAhead? (depth + 1) rest
    | .symbol .closeParen =>
      match depth with
      | 0 => none
      | 1 => some ((rest.head?.map Token.lexeme).any (Lexeme.isSymbol .thickArrow))
      | depth + 2 => arrowAhead? (depth + 1) rest
    | .finish => some false
    | _ => arrowAhead? depth rest

/-- The parts of a template: each piece of code is one expression and nothing else. -/
def templateParts (d : Deeper) : List TemplateChunk → Except ParseError (List (Sum String Expr))
  | [] => .ok []
  | .text s :: rest => do return .inl s :: (← templateParts d rest)
  | .code source position :: rest => do
    let tokens ← (Token.scanAt position source).mapError fun e => .invalid (.lexical e) position
    let (e, left) ← (d.parse .expression).run tokens
    let ((), _) ← (do unless ← atEnd do unexpected "end of template interpolation").run left
    return .inr e :: (← templateParts d rest)

def arrayElement (d : Deeper) : Parser (Expr × Bool) := do
  let spread ← accept .dots
  return (← d.parse .expression, spread)

def arrayLiteral (d : Deeper) : Parser Expr := do
  let p ← here
  expect .openBracket "'['"
  let elements ← commaItems d .closeBracket (arrayElement d)
  expect .closeBracket "']' after array elements"
  return .array elements p

/-- A key alone stands for the variable of that name. -/
def objectField (d : Deeper) : Parser (String × Expr) := do
  let p ← here
  let key ← propertyName
  if ← accept .colon then return (key, ← d.parse .expression)
  return (key, .name key p)

def objectLiteral (d : Deeper) : Parser Expr := do
  let p ← here
  expect .openBrace "'\x7b'"
  let fields ← commaItems d .closeBrace (objectField d)
  expect .closeBrace "'\x7d' after object literal"
  return .object fields p

def parenthesized (d : Deeper) (position : Position) : Parser Expr := do
  match arrowAhead? 0 (← get) with
  | none => fail (.invalid .outOfRange position)
  | some true =>
    advance
    let params ← parameters d
    expect .thickArrow "'=>' after arrow parameters"
    arrowRest d params position
  | some false =>
    advance
    let inner ← d.parse .expression
    expect .closeParen "')' after expression"
    return .grouping inner position

def functionLiteral (d : Deeper) (position : Position) : Parser Expr := do
  let isAsync ← acceptWord .asyncWord
  expectWord .fnWord "'fn'"
  return .function (← functionRest d "" isAsync position)

def literal (value : Literal) (position : Position) : Parser Expr := do
  advance
  return .literal value position

def primary (d : Deeper) : Parser Expr := do
  let t ← peek
  let p := t.position
  match t.lexeme with
  | .number x => literal (.number x) p
  | .text s => literal (.text s) p
  | .keyword .trueWord => literal (.bool true) p
  | .keyword .falseWord => literal (.bool false) p
  | .keyword .nilWord => literal .nil p
  | .template chunks =>
    advance
    return .template (← templateParts d chunks) p
  | .keyword .thisWord =>
    advance
    return .this p
  | .keyword .superWord =>
    advance
    expect .dot "'.' after 'super'"
    return .super (← name) p
  | .name n =>
    let second ← peekSecond
    advance
    if second.any (Lexeme.isSymbol .thickArrow) then
      advance
      arrowRest d [(.name n, none)] p
    else return .name n p
  | .symbol .openParen => parenthesized d p
  | .symbol .openBracket => arrayLiteral d
  | .symbol .openBrace => objectLiteral d
  | .keyword .fnWord | .keyword .asyncWord => functionLiteral d p
  | _ => unexpected "expression"

/-- Calls and accesses that follow `e`. -/
def accessesOf (d : Deeper) : Nat → Expr → Parser Expr
  | 0, e => pure e
  | n + 1, e => do
    let t ← peek
    match t.lexeme with
    | .symbol .openParen =>
      advance
      let args ← closedList d "')' after arguments" (d.parse .expression)
      accessesOf d n (.call e args t.position)
    | .symbol .dot =>
      advance
      accessesOf d n (.get e (← propertyName) false t.position)
    | .symbol .questionDot =>
      advance
      accessesOf d n (.get e (← propertyName) true t.position)
    | .symbol .openBracket =>
      advance
      let key ← d.parse .expression
      expect .closeBracket "']' after index"
      accessesOf d n (.index e key t.position)
    | _ => pure e

def access (d : Deeper) : Parser Expr := do accessesOf d d.bound (← primary d)

/-- Unary operators; the word `new` before an operand changes nothing. -/
def unary (d : Deeper) : Parser Expr := do
  let t ← peek
  match t.lexeme with
  | .symbol .bang =>
    advance
    return .unary .not (← d.parse .unary) t.position
  | .symbol .minus =>
    advance
    return .unary .negate (← d.parse .unary) t.position
  | .keyword .awaitWord =>
    advance
    return .await (← d.parse .unary) t.position
  | .keyword .newWord =>
    advance
    d.parse .unary
  | _ => access d

/-- How an infix operator joins its operands. -/
abbrev Join := Expr → Expr → Position → Expr

/-- The operators of one level. -/
abbrev Operators := Lexeme → Option Join

/-- Operands and operators that follow `left`, grouped to the left. -/
def chainRest (operators : Operators) (operand : Parser Expr) : Nat → Expr → Parser Expr
  | 0, left => pure left
  | n + 1, left => do
    let t ← peek
    match operators t.lexeme with
    | none => pure left
    | some join =>
      advance
      let right ← operand
      chainRest operators operand n (join left right t.position)

/-- One level of infix operators over the next tighter one. -/
def chain (d : Deeper) (operators : Operators) (operand : Parser Expr) : Parser Expr := do
  chainRest operators operand d.bound (← operand)

def productOperators : Operators
  | .symbol .star => some (.binary .multiply)
  | .symbol .slash => some (.binary .divide)
  | .symbol .percent => some (.binary .modulo)
  | _ => none

def sumOperators : Operators
  | .symbol .plus => some (.binary .add)
  | .symbol .minus => some (.binary .subtract)
  | _ => none

def comparisonOperators : Operators
  | .symbol .less => some (.binary .less)
  | .symbol .lessEqual => some (.binary .lessEqual)
  | .symbol .greater => some (.binary .greater)
  | .symbol .greaterEqual => some (.binary .greaterEqual)
  | _ => none

def equalityOperators : Operators
  | .symbol .equalEqual => some (.binary .equal)
  | .symbol .bangEqual => some (.binary .notEqual)
  | _ => none

def bothOperators : Operators
  | .keyword .andWord | .symbol .doubleAmp => some (.logical .both)
  | _ => none

def eitherOperators : Operators
  | .keyword .orWord | .symbol .doubleBar => some (.logical .either)
  | _ => none

def coalesceOperators : Operators
  | .symbol .doubleQuestion => some (.logical .coalesce)
  | _ => none

def pipeOperators : Operators
  | .symbol .barGreater => some (.binary .pipe)
  | _ => none

def product (d : Deeper) : Parser Expr := chain d productOperators (unary d)

def sum (d : Deeper) : Parser Expr := chain d sumOperators (product d)

def comparison (d : Deeper) : Parser Expr := chain d comparisonOperators (sum d)

def equality (d : Deeper) : Parser Expr := chain d equalityOperators (comparison d)

def both (d : Deeper) : Parser Expr := chain d bothOperators (equality d)

def either (d : Deeper) : Parser Expr := chain d eitherOperators (both d)

def coalesce (d : Deeper) : Parser Expr := chain d coalesceOperators (either d)

def pipe (d : Deeper) : Parser Expr := chain d pipeOperators (coalesce d)

/-- An assignment to what was read as an expression; only names, properties and elements can be
assigned to. -/
def assignTo? (target value : Expr) (position : Position) : Option Expr :=
  match target with
  | .name n _ => some (.assign n value position)
  | .get object n _ _ => some (.set object n value position)
  | .index object key _ => some (.indexSet object key value position)
  | _ => none

def expression (d : Deeper) : Parser Expr := do
  let target ← pipe d
  let p ← here
  if ← accept .equal then
    let value ← d.parse .expression
    match assignTo? target value p with
    | some e => return e
    | none => fail (.invalid .assignmentTarget p)
  return target

end ScriptEngine.Grammar
