import ScriptEngine.Program.Basic
import ScriptEngine.Token.Lexer

/-!
# Reading tokens

A parser takes the tokens from the front of a list that ends with the finish token, which it never
takes. Productions reach each other through `Deeper`: the parsers that may be used once a token has
been taken, and a bound on the tokens left.
-/
namespace ScriptEngine
open Text (Position)

/-- Forms that the tokens allow and the language does not. -/
inductive InvalidForm where
  | constantWithoutValue
  | restNotLast
  | assignmentTarget
  | lexical (error : LexError)
  /-- A fault of the parser: it looked beyond the last token, or its count of open parentheses went
  below zero. No text gets here. -/
  | outOfRange
deriving DecidableEq, Repr

def InvalidForm.message : InvalidForm → String
  | .constantWithoutValue => "const bindings require an initializer"
  | .restNotLast => "rest element must be last in an array pattern"
  | .assignmentTarget => "Invalid assignment target"
  | .lexical e => e.message
  | .outOfRange => "out of range"

/-- A syntax error and its place. -/
inductive ParseError where
  | unexpectedToken (expected : String) (found : Lexeme) (position : Position)
  | unexpectedEnd (expected : String) (position : Position)
  | invalid (form : InvalidForm) (position : Position)
  /-- The recursion ran out of its bound, which is chosen so that no text gets here. -/
  | tooDeep (position : Position)
deriving Repr

namespace ParseError

def position : ParseError → Position
  | unexpectedToken _ _ p | unexpectedEnd _ p | invalid _ p | tooDeep p => p

def message (e : ParseError) : String :=
  let problem :=
    match e with
    | unexpectedToken expected found _ =>
      "Expected " ++ expected ++ " but found '" ++ found.toText ++ "'"
    | unexpectedEnd expected _ => "Unexpected end of input, expected " ++ expected
    | invalid form _ => "Invalid syntax: " ++ form.message
    | tooDeep _ => "Nesting too deep"
  problem ++ " at line " ++ toString e.position.line ++ ", column " ++ toString e.position.column

end ParseError

namespace Grammar

/-- Reads a value off the front of the tokens. -/
abbrev Parser := StateT (List Token) (Except ParseError)

def fail {α : Type} (e : ParseError) : Parser α := throw e

/-- The next token, left in place. There is one, since the finish token is never taken. -/
def peek : Parser Token := do
  match ← get with
  | [] => fail (.invalid .outOfRange ⟨0, 0, 0⟩)
  | t :: _ => return t

/-- The lexeme after the next one. -/
def peekSecond : Parser (Option Lexeme) := do return (← get)[1]?.map Token.lexeme

/-- The place of the next token. -/
def here : Parser Position := do return (← peek).position

def Lexeme.isFinish : Lexeme → Bool
  | .finish => true
  | _ => false

def Lexeme.isSymbol (s : Symbol) : Lexeme → Bool
  | .symbol t => s == t
  | _ => false

def Lexeme.isKeyword (k : Keyword) : Lexeme → Bool
  | .keyword l => k == l
  | _ => false

/-- Takes the next token, unless it is the finish. -/
def advance : Parser Unit := modify fun tokens =>
  match tokens with
  | [] => []
  | t :: rest => if Lexeme.isFinish t.lexeme then t :: rest else rest

def atEnd : Parser Bool := do return Lexeme.isFinish (← peek).lexeme

def isNext (s : Symbol) : Parser Bool := do return Lexeme.isSymbol s (← peek).lexeme

def isNextWord (k : Keyword) : Parser Bool := do return Lexeme.isKeyword k (← peek).lexeme

/-- Takes the symbol if it is next, and tells whether it was. -/
def accept (s : Symbol) : Parser Bool := do
  if ← isNext s then
    advance
    return true
  return false

/-- Takes the reserved word if it is next, and tells whether it was. -/
def acceptWord (k : Keyword) : Parser Bool := do
  if ← isNextWord k then
    advance
    return true
  return false

/-- The next token is not what was expected. -/
def unexpected {α : Type} (expected : String) : Parser α := do
  let t ← peek
  if Lexeme.isFinish t.lexeme then fail (.unexpectedEnd expected t.position)
  else fail (.unexpectedToken expected t.lexeme t.position)

def expect (s : Symbol) (expected : String) : Parser Unit := do
  unless ← accept s do unexpected expected

def expectWord (k : Keyword) (expected : String) : Parser Unit := do
  unless ← acceptWord k do unexpected expected

def name : Parser String := do
  match (← peek).lexeme with
  | .name n =>
    advance
    return n
  | _ => unexpected "identifier"

/-- Property names may also be reserved words or strings. -/
def propertyName : Parser String := do
  match (← peek).lexeme with
  | .name n | .text n =>
    advance
    return n
  | .keyword k =>
    advance
    return k.spelling
  | _ => unexpected "property name"

/-- A semicolon may end a statement and need not. -/
def optionalSemicolon : Parser Unit := do discard (accept .semicolon)

/-- What the productions ask of each other. -/
inductive Goal where
  | expression
  | unary
  | statement
  | bindingPattern
  | matchPattern
  | typeName

@[reducible] def Goal.Result : Goal → Type
  | .expression | .unary => Expr
  | .statement => Stmt
  | .bindingPattern | .matchPattern => Pattern
  | .typeName => String

/-- The parsers one level deeper, and a bound for loops over the tokens that are left. -/
structure Deeper where
  bound : Nat
  parse : (goal : Goal) → Parser goal.Result

/-- Items up to a closing token: `more` tells before each item whether one follows, and `item`
tells whether another may come after it. -/
def items {α : Type} (more : Parser Bool) (item : Parser (α × Bool)) : Nat → Parser (List α)
  | 0 => pure []
  | n + 1 => do
    if ← more then
      let (a, again) ← item
      if again then return a :: (← items more item n)
      return [a]
    return []

/-- Items with commas between them, and perhaps one after the last, up to the closing symbol. -/
def commaItems {α : Type} (d : Deeper) (close : Symbol) (item : Parser α) : Parser (List α) :=
  items (return !(← isNext close)) (do return (← item, ← accept .comma)) d.bound

/-- Items up to the closing symbol or the end of the tokens. -/
def itemsUntil {α : Type} (d : Deeper) (close : Symbol) (item : Parser α) : Parser (List α) :=
  items (return !(← isNext close) && !(← atEnd)) (do return (← item, true)) d.bound

/-- At least one item, with commas between them. -/
def commaSeparated {α : Type} (d : Deeper) (item : Parser α) : Parser (List α) :=
  items (pure true) (do return (← item, ← accept .comma)) d.bound

/-- The items of a list in parentheses whose opening one is taken. -/
def closedList {α : Type} (d : Deeper) (expected : String) (item : Parser α) :
    Parser (List α) := do
  let xs ← if ← isNext .closeParen then pure [] else commaSeparated d item
  expect .closeParen expected
  return xs

/-- The name of a type; brackets stand for arrays. -/
def typeName (d : Deeper) : Parser String := do
  if ← accept .openBracket then
    let inner ← d.parse .typeName
    expect .closeBracket "']' after array type"
    return "[" ++ inner ++ "]"
  if ← acceptWord .nilWord then return "nil"
  name

/-- A type after the sign that announces one. -/
def typeAfter (d : Deeper) (sign : Symbol) : Parser (Option String) := do
  if ← accept sign then return some (← typeName d)
  return none

end Grammar

end ScriptEngine
