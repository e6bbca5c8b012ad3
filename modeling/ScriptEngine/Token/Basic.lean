import ScriptEngine.Text.Position
import ScriptEngine.Number.Text

/-!
# Tokens

The vocabulary of the language: reserved words, symbols, names and literals. Every reserved word and
symbol has one spelling, and the spellings are what the lexer looks for.
-/
namespace ScriptEngine
open Text (Position)

/-- Reserved words. -/
inductive Keyword where
  | andWord | orWord | classWord | elseWord | trueWord | falseWord | nilWord | forWord | whileWord
  | fnWord | ifWord | printWord | returnWord | superWord | thisWord | letWord | constWord
  | asyncWord | awaitWord | importWord | tryWord | catchWord | throwWord | matchWord | newWord
  | breakWord | continueWord
deriving DecidableEq, Repr

namespace Keyword

def all : List Keyword :=
  [andWord, orWord, classWord, elseWord, trueWord, falseWord, nilWord, forWord, whileWord, fnWord,
   ifWord, printWord, returnWord, superWord, thisWord, letWord, constWord, asyncWord, awaitWord,
   importWord, tryWord, catchWord, throwWord, matchWord, newWord, breakWord, continueWord]

def spelling : Keyword → String
  | andWord => "and" | orWord => "or" | classWord => "class" | elseWord => "else"
  | trueWord => "true" | falseWord => "false" | nilWord => "nil" | forWord => "for"
  | whileWord => "while" | fnWord => "fn" | ifWord => "if" | printWord => "print"
  | returnWord => "return" | superWord => "super" | thisWord => "this" | letWord => "let"
  | constWord => "const" | asyncWord => "async" | awaitWord => "await" | importWord => "import"
  | tryWord => "try" | catchWord => "catch" | throwWord => "throw" | matchWord => "match"
  | newWord => "new" | breakWord => "break" | continueWord => "continue"

/-- The reserved word with this spelling. -/
def ofSpelling? (s : String) : Option Keyword := all.find? fun k => k.spelling == s

end Keyword

/-- Operators and punctuation. -/
inductive Symbol where
  | plus | minus | star | slash | percent | bang | bangEqual | equal | equalEqual | less
  | lessEqual | greater | greaterEqual | doubleAmp | doubleBar | doubleQuestion | questionDot
  | barGreater | thinArrow | thickArrow | dots | openParen | closeParen | openBrace | closeBrace
  | openBracket | closeBracket | comma | dot | semicolon | colon
deriving DecidableEq, Repr

namespace Symbol

def spelling : Symbol → String
  | plus => "+" | minus => "-" | star => "*" | slash => "/" | percent => "%" | bang => "!"
  | bangEqual => "!=" | equal => "=" | equalEqual => "==" | less => "<" | lessEqual => "<="
  | greater => ">" | greaterEqual => ">=" | doubleAmp => "&&" | doubleBar => "||"
  | doubleQuestion => "??" | questionDot => "?." | barGreater => "|>" | thinArrow => "->"
  | thickArrow => "=>" | dots => "..." | openParen => "(" | closeParen => ")"
  | openBrace => "\x7b" | closeBrace => "\x7d" | openBracket => "[" | closeBracket => "]"
  | comma => "," | dot => "." | semicolon => ";" | colon => ":"

/-- All symbols, longer spellings first. -/
def longestFirst : List Symbol :=
  [dots, bangEqual, equalEqual, lessEqual, greaterEqual, doubleAmp, doubleBar, doubleQuestion,
   questionDot, barGreater, thinArrow, thickArrow, plus, minus, star, slash, percent, bang, equal,
   less, greater, openParen, closeParen, openBrace, closeBrace, openBracket, closeBracket, comma,
   dot, semicolon, colon]

end Symbol

/-- A piece of a template literal. Code is kept as written, with the place where it starts. -/
inductive TemplateChunk where
  | text (content : String)
  | code (source : String) (position : Position)
deriving DecidableEq, Repr

/-- What a token is, apart from where it stands. -/
inductive Lexeme where
  | number (value : Float)
  | text (content : String)
  | template (chunks : List TemplateChunk)
  | name (spelling : String)
  | keyword (word : Keyword)
  | symbol (sign : Symbol)
  | finish
deriving Repr

/-- A lexeme as messages name it. -/
def Lexeme.toText : Lexeme → String
  | .number x => Number.toText x
  | .text s => "\"" ++ s ++ "\""
  | .template _ => "template literal"
  | .name s => s
  | .keyword k => k.spelling
  | .symbol s => s.spelling
  | .finish => "end of input"

/-- A lexeme at its place in the source. -/
structure Token where
  lexeme : Lexeme
  position : Position
deriving Repr

end ScriptEngine
