import ScriptEngine.Grammar.Cursor

/-!
# Patterns

Declarations and parameters take names, arrays and objects apart; match arms may also compare with
literals. Both kinds share the forms for arrays and objects.
-/
namespace ScriptEngine.Grammar

/-- One element of an array pattern; one that takes the rest has to be the last. -/
def patternElement (element : Parser Pattern) : Parser (Pattern × Bool) := do
  let spread ← accept .dots
  let p ← element
  if spread && !(← isNext .closeBracket) then fail (.invalid .restNotLast (← here))
  return (p, spread)

def arrayPattern (d : Deeper) (element : Parser Pattern) : Parser Pattern := do
  expect .openBracket "'['"
  let elements ← commaItems d .closeBracket (patternElement element)
  expect .closeBracket "']' after array pattern"
  return .array elements

/-- A key alone stands for a name of that spelling. -/
def patternField (element : Parser Pattern) : Parser (String × Pattern) := do
  let key ← propertyName
  if ← accept .colon then return (key, ← element)
  return (key, .name key)

def objectPattern (d : Deeper) (element : Parser Pattern) : Parser Pattern := do
  expect .openBrace "'\x7b'"
  let fields ← commaItems d .closeBrace (patternField element)
  expect .closeBrace "'\x7d' after object pattern"
  return .object fields

/-- The forms that both kinds of pattern have. -/
def structuredPattern (d : Deeper) (element : Parser Pattern) (expected : String) :
    Parser Pattern := do
  match (← peek).lexeme with
  | .name _ => return .name (← name)
  | .symbol .openBracket => arrayPattern d element
  | .symbol .openBrace => objectPattern d element
  | _ => unexpected expected

def bindingPattern (d : Deeper) : Parser Pattern :=
  structuredPattern d (d.parse .bindingPattern) "binding pattern"

/-- The literal at the front of the tokens and the number of tokens it takes. -/
def leadingLiteral? (first : Lexeme) (second : Option Lexeme) : Option (Literal × Nat) :=
  match first, second with
  | .number x, _ => some (.number x, 1)
  | .text s, _ => some (.text s, 1)
  | .keyword .trueWord, _ => some (.bool true, 1)
  | .keyword .falseWord, _ => some (.bool false, 1)
  | .keyword .nilWord, _ => some (.nil, 1)
  | .symbol .minus, some (.number x) => some (.number (-x), 2)
  | _, _ => none

def matchPattern (d : Deeper) : Parser Pattern := do
  match leadingLiteral? (← peek).lexeme (← peekSecond) with
  | some (value, taken) =>
    if taken == 2 then advance
    advance
    return .literal value
  | none => structuredPattern d (d.parse .matchPattern) "match pattern"

end ScriptEngine.Grammar
