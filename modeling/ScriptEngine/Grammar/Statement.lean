import ScriptEngine.Grammar.Expression

/-!
# Statements

Simple statements may end in a semicolon. A counting loop becomes a conditional loop that carries
its step, inside a block that holds its first clause.
-/
namespace ScriptEngine.Grammar
open Text (Position)

/-- A declaration after its opening word. -/
def declaration (d : Deeper) (position : Position) : Parser Stmt := do
  let p ← bindingPattern d
  let hint ← typeAfter d .colon
  let init ← if ← accept .equal then some <$> expression d else pure none
  optionalSemicolon
  return .declare p hint init position

/-- A constant after its opening word; its type is read and not kept. -/
def constantDeclaration (d : Deeper) (position : Position) : Parser Stmt := do
  let p ← bindingPattern d
  discard (typeAfter d .colon)
  unless ← accept .equal do fail (.invalid .constantWithoutValue (← here))
  let init ← expression d
  optionalSemicolon
  return .constant p init position

def functionDeclaration (d : Deeper) (isAsync : Bool) : Parser Stmt := do
  let p ← here
  expectWord .fnWord "'fn'"
  let n ← name
  return .function (← functionRest d n isAsync p)

/-- A method may be marked, and may repeat the word for functions. -/
def method (d : Deeper) : Parser Function := do
  let isAsync ← acceptWord .asyncWord
  discard (acceptWord .fnWord)
  let p ← here
  let n ← name
  functionRest d n isAsync p

def parentClass : Parser (Option Expr) := do
  if ← accept .less then
    let p ← here
    return some (.name (← name) p)
  return none

def classDeclaration (d : Deeper) : Parser Stmt := do
  let p ← here
  expectWord .classWord "'class'"
  let n ← name
  let parent ← parentClass
  expect .openBrace "'\x7b' before class body"
  let methods ← itemsUntil d .closeBrace (method d)
  expect .closeBrace "'\x7d' after class body"
  return .classDecl n parent methods p

/-- A condition in parentheses after the word that announces it. -/
def condition (d : Deeper) (word : String) : Parser Expr := do
  expect .openParen ("'(' after '" ++ word ++ "'")
  let e ← expression d
  expect .closeParen "')' after condition"
  return e

def branch (d : Deeper) (position : Position) : Parser Stmt := do
  advance
  let c ← condition d "if"
  let yes ← d.parse .statement
  let no ← if ← acceptWord .elseWord then some <$> d.parse .statement else pure none
  return .branch c yes no position

def conditionalLoop (d : Deeper) (position : Position) : Parser Stmt := do
  advance
  let c ← condition d "while"
  return .loop c (← d.parse .statement) none position

/-- The first clause of a counting loop, up to and with its semicolon; after a declaration the
semicolon may be missing. -/
def loopStart (d : Deeper) : Parser (Option Stmt) := do
  if ← accept .semicolon then return none
  let p ← here
  if ← acceptWord .letWord then return some (← declaration d p)
  let e ← expression d
  expect .semicolon "';' after loop initializer"
  return some (.expression e p)

def countingLoop (d : Deeper) (position : Position) : Parser Stmt := do
  advance
  expect .openParen "'(' after 'for'"
  let start ← loopStart d
  let c ← if ← isNext .semicolon then .literal (.bool true) <$> here else expression d
  expect .semicolon "';' after loop condition"
  let step ← if ← isNext .closeParen then pure none else some <$> expression d
  expect .closeParen "')' after for clauses"
  let looped := Stmt.loop c (← d.parse .statement) step position
  match start with
  | some s => return .block [s, looped] position
  | none => return looped

def attempt (d : Deeper) (position : Position) : Parser Stmt := do
  advance
  let statement ← d.parse .statement
  expectWord .catchWord "'catch' after try body"
  expect .openParen "'(' after 'catch'"
  let n ← name
  expect .closeParen "')' after catch variable"
  return .attempt statement n (← d.parse .statement) position

/-- A comma may follow an arm. -/
def arm (d : Deeper) : Parser (Pattern × Stmt) := do
  let p ← matchPattern d
  expect .thinArrow "'->' after match pattern"
  let s ← d.parse .statement
  discard (accept .comma)
  return (p, s)

def selection (d : Deeper) (position : Position) : Parser Stmt := do
  advance
  let value ← condition d "match"
  expect .openBrace "'\x7b' before match arms"
  let arms ← itemsUntil d .closeBrace (arm d)
  expect .closeBrace "'\x7d' after match arms"
  return .select value arms position

/-- An expression and the semicolon that may follow. -/
def closedExpression (d : Deeper) : Parser Expr := do
  let e ← expression d
  optionalSemicolon
  return e

def returnStatement (d : Deeper) (position : Position) : Parser Stmt := do
  advance
  let bare := (← atEnd) || (← isNext .semicolon) || (← isNext .closeBrace)
  let value ← if bare then pure none else some <$> expression d
  optionalSemicolon
  return .return value position

def statement (d : Deeper) : Parser Stmt := do
  let t ← peek
  let p := t.position
  let second ← peekSecond
  match t.lexeme with
  | .keyword .letWord =>
    advance
    declaration d p
  | .keyword .constWord =>
    advance
    constantDeclaration d p
  | .keyword .fnWord =>
    if second.any (Lexeme.isSymbol .openParen) then
      return .expression (← closedExpression d) p
    functionDeclaration d false
  | .keyword .asyncWord =>
    if second.any (Lexeme.isKeyword .fnWord) then
      advance
      functionDeclaration d true
    else return .expression (← closedExpression d) p
  | .keyword .classWord => classDeclaration d
  | .symbol .openBrace => return .block (← body d) p
  | .keyword .ifWord => branch d p
  | .keyword .whileWord => conditionalLoop d p
  | .keyword .forWord => countingLoop d p
  | .keyword .returnWord => returnStatement d p
  | .keyword .throwWord =>
    advance
    return .throw (← closedExpression d) p
  | .keyword .printWord =>
    advance
    return .print (← closedExpression d) p
  | .keyword .importWord =>
    advance
    return .load (← closedExpression d) p
  | .keyword .tryWord => attempt d p
  | .keyword .matchWord => selection d p
  | .keyword .breakWord =>
    advance
    optionalSemicolon
    return .break p
  | .keyword .continueWord =>
    advance
    optionalSemicolon
    return .continue p
  | _ => return .expression (← closedExpression d) p

end ScriptEngine.Grammar
