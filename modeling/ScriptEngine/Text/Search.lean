/-!
# Searching, splitting and replacing

Occurrences of a text in another one, taken from left to right without overlap.
-/
namespace ScriptEngine.Text

/-- The first position at which `needle` occurs, counted from `at`. -/
def indexFrom (needle : List Char) (position : Nat) : List Char → Option Nat
  | [] => if needle.isEmpty then some position else none
  | c :: cs =>
    if needle.isPrefixOf (c :: cs) then some position else indexFrom needle (position + 1) cs

/-- The first position at which `needle` occurs. -/
def indexOf? (needle cs : List Char) : Option Nat := indexFrom needle 0 cs

/-- Whether `needle` occurs. -/
def occurs (needle : List Char) : List Char → Bool
  | [] => needle.isEmpty
  | c :: cs => needle.isPrefixOf (c :: cs) || occurs needle cs

/-- The pieces between occurrences of `delimiter`. The first `skip` characters belong to an
occurrence already counted, and `piece` is the piece being read, reversed. -/
def piecesFrom (delimiter : List Char) : Nat → List Char → List Char → List (List Char)
  | _, piece, [] => [piece.reverse]
  | skip + 1, piece, _ :: cs => piecesFrom delimiter skip piece cs
  | 0, piece, c :: cs =>
    if delimiter.isPrefixOf (c :: cs) then
      piece.reverse :: piecesFrom delimiter (delimiter.length - 1) [] cs
    else piecesFrom delimiter 0 (c :: piece) cs

/-- The pieces between occurrences of a delimiter; an empty one separates all characters. -/
def split (delimiter cs : List Char) : List (List Char) :=
  if delimiter.isEmpty then cs.map fun c => [c] else piecesFrom delimiter 0 [] cs

/-- The text with `replacement` in the place of every occurrence of `target`. The first `skip`
characters belong to an occurrence already replaced, and `done` is what has been written,
reversed. -/
def replaceFrom (target replacement : List Char) : Nat → List Char → List Char → List Char
  | _, done, [] => done.reverse
  | skip + 1, done, _ :: cs => replaceFrom target replacement skip done cs
  | 0, done, c :: cs =>
    if target.isPrefixOf (c :: cs) then
      replaceFrom target replacement (target.length - 1) (replacement.reverse ++ done) cs
    else replaceFrom target replacement 0 (c :: done) cs

/-- Puts a text for every occurrence of another one; nothing changes for an empty one. -/
def replace (target replacement cs : List Char) : List Char :=
  if target.isEmpty then cs else replaceFrom target replacement 0 [] cs

end ScriptEngine.Text
