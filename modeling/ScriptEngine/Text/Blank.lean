import ScriptEngine.Text.CodeRanges

/-!
# Blank characters

White space, trimming and splitting into words.
-/
namespace ScriptEngine.Text

/-- The code points with the Unicode property White_Space. -/
def blanks : CodeRanges :=
  [(0x9, 0xD), (0x20, 0x20), (0x85, 0x85), (0xA0, 0xA0), (0x1680, 0x1680), (0x2000, 0x200A),
   (0x2028, 0x2029), (0x202F, 0x202F), (0x205F, 0x205F), (0x3000, 0x3000)]

/-- White space of every script, line breaks included. -/
def isBlank (c : Char) : Bool := blanks.covers c.toNat

/-- The text without blanks at its start. -/
def trimStart (cs : List Char) : List Char := cs.dropWhile isBlank

/-- The text without blanks at its end. -/
def trimEnd (cs : List Char) : List Char := (cs.reverse.dropWhile isBlank).reverse

/-- The text without blanks at either end. -/
def trim (cs : List Char) : List Char := trimEnd (trimStart cs)

/-- The maximal runs of characters that are not blank; `word` is the run being read, reversed. -/
def wordsFrom : List Char → List Char → List (List Char)
  | word, [] => if word.isEmpty then [] else [word.reverse]
  | word, c :: cs =>
    if isBlank c then
      if word.isEmpty then wordsFrom [] cs else word.reverse :: wordsFrom [] cs
    else wordsFrom (c :: word) cs

/-- The blank-separated words of a text. -/
def words (cs : List Char) : List (List Char) := wordsFrom [] cs

end ScriptEngine.Text
