import ScriptEngine.Library.Arguments
import ScriptEngine.Text.Blank
import ScriptEngine.Text.Case
import ScriptEngine.Text.Search

/-!
# Strings

Lengths and positions count characters.
-/
namespace ScriptEngine.Library

def ofChars (cs : List Char) : Value := .text (String.ofList cs)

/-- A part of a text; nothing for a negative start or a length that is not positive. -/
def substring (cs : List Char) (start : Float) (length : Option Float) : List Char :=
  if start < 0 then []
  else
    let rest := cs.drop (toNat start)
    match length with
    | none => rest
    | some n => if n ≤ 0 then [] else rest.take (toNat n)

/-- The position of a text in another one, or minus one. -/
def positionOf (needle cs : List Char) : Value :=
  match Text.indexOf? needle cs with
  | some i => .ofNat i
  | none => .number (-1)

def newTexts (pieces : List (List Char)) : Eval Value :=
  Eval.newArray (pieces.map ofChars).toArray

/-- A method that only takes one text. -/
def withText (args : List Value) (name : String) (f : List Char → Value) : Eval Value :=
  answer ((textArgument args 0 name).map fun t => f t.toList)

def textMethod (method : TextMethod) (receiver : Option Value) (args : List Value) :
    Eval Value := do
  match receiver with
  | some (.text s) =>
    let cs := s.toList
    match method with
    | .split =>
      let delimiter ← Eval.ofExcept (textArgument args 0 "split")
      newTexts (Text.split delimiter.toList cs)
    | .trim => return ofChars (Text.trim cs)
    | .substr =>
      let start ← Eval.ofExcept (numberArgument args 0 "substr")
      if args.length < 2 then return ofChars (substring cs start none)
      let length ← Eval.ofExcept (numberArgument args 1 "substr")
      return ofChars (substring cs start (some length))
    | .startsWith => withText args "startsWith" fun t => .bool (t.isPrefixOf cs)
    | .endsWith => withText args "endsWith" fun t => .bool (t.isSuffixOf cs)
    | .toUpperCase => return ofChars (Text.toUpper cs)
    | .toLowerCase => return ofChars (Text.toLower cs)
    | .replace =>
      match argument args 0, argument args 1 with
      | .text target, .text replacement =>
        return ofChars (Text.replace target.toList replacement.toList cs)
      | _, _ => return .text s
    | .indexOf => withText args "indexOf" fun t => positionOf t cs
    | .includes => withText args "includes" fun t => .bool (Text.occurs t cs)
  | _ => Eval.fail .notTextReceiver

/-- The same as functions of the text. -/
def textFunction (f : TextFunction) (args : List Value) : Eval Value := do
  match f with
  | .indexOf =>
    let text ← Eval.ofExcept (textArgument args 0 "indexOf")
    let needle ← Eval.ofExcept (textArgument args 1 "indexOf")
    return positionOf needle.toList text.toList
  | .split =>
    let text ← Eval.ofExcept (textArgument args 0 "split")
    let delimiter ← Eval.ofExcept (textArgument args 1 "split")
    newTexts (Text.split delimiter.toList text.toList)
  | .length =>
    match argument args 0 with
    | .text s => return .ofNat s.length
    | .array r => Eval.read fun m => .ofNat (m.heap.array r).size
    | _ => return .ofNat 0
  | .substr =>
    let text ← Eval.ofExcept (textArgument args 0 "substr")
    let start ← Eval.ofExcept (numberArgument args 1 "substr")
    let length ← Eval.ofExcept (numberArgument args 2 "substr")
    return ofChars (substring text.toList start (some length))

end ScriptEngine.Library
