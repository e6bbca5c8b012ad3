import ScriptEngine.Grammar.Statement

/-!
# From tokens to programs

Here the productions are tied together. Each level of nesting takes a token or enters the code of a
template, so the weight of the tokens bounds the depth.
-/
namespace ScriptEngine.Grammar
open Text (Position)

/-- The production for a goal. -/
def produce (d : Deeper) : (goal : Goal) → Parser goal.Result
  | .expression => expression d
  | .unary => unary d
  | .statement => statement d
  | .bindingPattern => bindingPattern d
  | .matchPattern => matchPattern d
  | .typeName => typeName d

/-- Parses with at most `depth` levels of nesting. -/
def parseWithin : Nat → (goal : Goal) → Parser goal.Result
  | 0, _ => do fail (.tooDeep (← here))
  | depth + 1, goal => produce ⟨depth, parseWithin depth⟩ goal

/-- How many levels of nesting a chunk may bring. -/
def chunkWeight : TemplateChunk → Nat
  | .text _ => 0
  | .code source _ => source.length + 2

/-- How many levels of nesting a token may bring. -/
def tokenWeight (t : Token) : Nat :=
  match t.lexeme with
  | .template chunks => (chunks.map chunkWeight).foldr Nat.add 0 + 1
  | _ => 1

/-- A depth that no parse of these tokens exceeds. -/
def depthBound (tokens : List Token) : Nat := 2 * (tokens.map tokenWeight).foldr Nat.add 0 + 2

/-- The tokens with the finish token added if it is missing, at the place of the last one. -/
def finished (tokens : List Token) : List Token :=
  match tokens.getLast? with
  | none => [⟨.finish, ⟨0, 0, 0⟩⟩]
  | some t => if Lexeme.isFinish t.lexeme then tokens else tokens ++ [⟨.finish, t.position⟩]

/-- One expression at the front of the tokens, and the tokens after it. -/
def parseExpression (tokens : List Token) : Except ParseError (Expr × List Token) :=
  (parseWithin (depthBound tokens) .expression).run (finished tokens)

/-- All tokens as statements. -/
def statements (d : Deeper) : Parser Program :=
  items (return !(← atEnd)) (do return (← d.parse .statement, true)) d.bound

/-- A program of all the tokens. -/
def parseTokens (tokens : List Token) : Except ParseError Program :=
  let depth := depthBound tokens
  ((statements ⟨depth, parseWithin depth⟩).run (finished tokens)).map Prod.fst

/-- A program; text that does not even split into tokens is reported at its start. -/
def parse (source : String) : Except ParseError Program :=
  match Token.scan source with
  | .error e => .error (.invalid (.lexical e) Position.start)
  | .ok tokens => parseTokens tokens

end ScriptEngine.Grammar
