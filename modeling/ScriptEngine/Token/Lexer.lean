import ScriptEngine.Token.Basic
import ScriptEngine.Text.Letter

/-!
# From characters to tokens

Each scanner below walks the characters once and hands back what it read, the place after it and the
characters left. Blanks and comments are skipped between tokens. The list of tokens always ends with
the finish token, which stands at the end of the text.
-/
namespace ScriptEngine
open Text (Position)

/-- Why a text is not a sequence of tokens. -/
inductive LexError where
  | openComment (start : Position)
  | openText (start : Position)
  | openTemplate (start : Position)
  | openInterpolation (start : Position)
  | openEscape
  | strayCharacter (c : Char) (position : Position)
deriving DecidableEq, Repr

def LexError.message : LexError → String
  | .openComment p => "Unterminated block comment at " ++ p.toText
  | .openText p => "Unterminated string starting at " ++ p.toText
  | .openTemplate p => "Unterminated template string starting at " ++ p.toText
  | .openInterpolation p => "Unterminated template interpolation starting at " ++ p.toText
  | .openEscape => "Unterminated escape sequence"
  | .strayCharacter c p => "Unexpected character '" ++ c.toString ++ "' at " ++ p.toText

namespace Lexer

/-- What a scanner read, the place after it, and the characters left. -/
abbrev Scanned (α : Type) := Except LexError (α × Position × List Char)

/-- Where the skipping of blanks and comments stands. -/
inductive Trivia where
  | between
  | line
  | block (start : Position)

/-- Only these four characters separate tokens. -/
def isGap (c : Char) : Bool := c == ' ' || c == '\t' || c == '\r' || c == '\n'

/-- Skips blanks, line comments and block comments. -/
def skipTrivia : Trivia → Position → List Char → Except LexError (Position × List Char)
  | .block start, _, [] => .error (.openComment start)
  | _, p, [] => .ok (p, [])
  | .between, p, '/' :: '/' :: cs => skipTrivia .line ((p.step '/').step '/') cs
  | .between, p, '/' :: '*' :: cs => skipTrivia (.block p) ((p.step '/').step '*') cs
  | .between, p, c :: cs => if isGap c then skipTrivia .between (p.step c) cs else .ok (p, c :: cs)
  | .line, p, c :: cs => skipTrivia (if c == '\n' then .between else .line) (p.step c) cs
  | .block _, p, '*' :: '/' :: cs => skipTrivia .between ((p.step '*').step '/') cs
  | .block start, p, c :: cs => skipTrivia (.block start) (p.step c) cs

/-- The character that an escape stands for; most stand for themselves. -/
def unescape : Char → Char
  | 'n' => '\n'
  | 't' => '\t'
  | 'r' => '\r'
  | '0' => '\x00'
  | c => c

/-- The rest of a string literal; `read` holds its content so far, reversed. -/
def scanText (quote : Char) (start : Position) :
    List Char → Position → List Char → Scanned Lexeme
  | _, _, [] => .error (.openText start)
  | read, p, c :: cs =>
    if c == quote then .ok (.text (String.ofList read.reverse), p.step c, cs)
    else if c == '\\' then
      match cs with
      | [] => .error .openEscape
      | e :: cs => scanText quote start (unescape e :: read) ((p.step c).step e) cs
    else scanText quote start (c :: read) (p.step c) cs

/-- Whether a template scanner is in text or in the code of an interpolation: where that code
starts, how many braces are open inside it, and the quote of the string it is in. -/
inductive TemplateMode where
  | text
  | code (origin : Position) (depth : Nat) (quote : Option Char)

/-- Ends a run of template text; an empty run leaves no chunk. -/
def flushText (chunks : List TemplateChunk) (read : List Char) : List TemplateChunk :=
  if read.isEmpty then chunks else .text (String.ofList read.reverse) :: chunks

/-- The chunks of a finished template, which has at least one. -/
def closeTemplate (chunks : List TemplateChunk) (read : List Char) : List TemplateChunk :=
  if read.isEmpty && !chunks.isEmpty then chunks.reverse
  else (TemplateChunk.text (String.ofList read.reverse) :: chunks).reverse

/-- The rest of a template literal; `chunks` and `read` are reversed. -/
def scanTemplate (start : Position) :
    TemplateMode → List TemplateChunk → List Char → Position → List Char → Scanned Lexeme
  | .text, _, _, _, [] => .error (.openTemplate start)
  | .code .., _, _, _, [] => .error (.openInterpolation start)
  | .text, chunks, read, p, '$' :: '{' :: cs =>
    let origin := (p.step '$').step '{'
    scanTemplate start (.code origin 0 none) (flushText chunks read) [] origin cs
  | .text, chunks, read, p, c :: cs =>
    if c == '`' then .ok (.template (closeTemplate chunks read), p.step c, cs)
    else if c == '\\' then
      match cs with
      | [] => .error .openEscape
      | e :: cs => scanTemplate start .text chunks (unescape e :: read) ((p.step c).step e) cs
    else scanTemplate start .text chunks (c :: read) (p.step c) cs
  | .code origin depth (some quote), chunks, read, p, c :: cs =>
    if c == '\\' then
      match cs with
      | [] => .error (.openInterpolation start)
      | e :: cs =>
        scanTemplate start (.code origin depth (some quote)) chunks (e :: c :: read)
          ((p.step c).step e) cs
    else
      scanTemplate start (.code origin depth (if c == quote then none else some quote)) chunks
        (c :: read) (p.step c) cs
  | .code origin depth none, chunks, read, p, c :: cs =>
    if c == '"' || c == '\'' then
      scanTemplate start (.code origin depth (some c)) chunks (c :: read) (p.step c) cs
    else if c == '{' then
      scanTemplate start (.code origin (depth + 1) none) chunks (c :: read) (p.step c) cs
    else if c == '}' then
      match depth with
      | 0 =>
        scanTemplate start .text (.code (String.ofList read.reverse) origin :: chunks) []
          (p.step c) cs
      | depth + 1 => scanTemplate start (.code origin depth none) chunks (c :: read) (p.step c) cs
    else scanTemplate start (.code origin depth none) chunks (c :: read) (p.step c) cs

/-- Decimal digits, and after a point that a digit follows the digits of the fraction. -/
def scanNumber (p : Position) (cs : List Char) : Lexeme × Position × List Char :=
  let whole := cs.takeWhile Char.isDigit
  let rest := cs.dropWhile Char.isDigit
  match rest with
  | '.' :: d :: more =>
    if d.isDigit then
      let fraction := (d :: more).takeWhile Char.isDigit
      (.number (Number.ofDigits whole fraction), p.after (whole ++ '.' :: fraction),
        (d :: more).dropWhile Char.isDigit)
    else (.number (Number.ofDigits whole []), p.after whole, rest)
  | _ => (.number (Number.ofDigits whole []), p.after whole, rest)

/-- Characters that start a name. -/
def startsName (c : Char) : Bool := Text.isLetter c || c == '_'

/-- Characters that continue a name. -/
def continuesName (c : Char) : Bool := Text.isLetter c || Text.isNumeral c || c == '_'

/-- A name, or the reserved word of that spelling. -/
def nameOrKeyword (s : String) : Lexeme :=
  match Keyword.ofSpelling? s with
  | some k => .keyword k
  | none => .name s

/-- A maximal run of name characters. -/
def scanName (p : Position) (cs : List Char) : Lexeme × Position × List Char :=
  let spelling := cs.takeWhile continuesName
  (nameOrKeyword (String.ofList spelling), p.after spelling, cs.dropWhile continuesName)

/-- What follows `lead`, if the text starts with it. -/
def afterLead? : List Char → List Char → Option (List Char)
  | [], cs => some cs
  | _ :: _, [] => none
  | l :: lead, c :: cs => if l == c then afterLead? lead cs else none

/-- The longest symbol that the text starts with. -/
def scanSymbol? (p : Position) (cs : List Char) : Option (Lexeme × Position × List Char) :=
  Symbol.longestFirst.findSome? fun s =>
    (afterLead? s.spelling.toList cs).map fun rest => (.symbol s, p.after s.spelling.toList, rest)

/-- One token at the start of `c :: cs`. -/
def scanLexeme (p : Position) (c : Char) (cs : List Char) : Scanned Lexeme :=
  if c == '"' || c == '\'' then scanText c p [] (p.step c) cs
  else if c == '`' then scanTemplate p .text [] [] (p.step c) cs
  else if c.isDigit then .ok (scanNumber p (c :: cs))
  else if startsName c then .ok (scanName p (c :: cs))
  else
    match scanSymbol? p (c :: cs) with
    | some scanned => .ok scanned
    | none => .error (.strayCharacter c p)

/-! Every scanner leaves fewer characters than it was given. -/

theorem skipTrivia_length {mode : Trivia} {p p' : Position} {cs cs' : List Char}
    (h : skipTrivia mode p cs = .ok (p', cs')) : cs'.length ≤ cs.length := by
  fun_induction skipTrivia mode p cs <;> grind

theorem scanText_length {quote : Char} {start p p' : Position} {read cs cs' : List Char}
    {l : Lexeme} (h : scanText quote start read p cs = .ok (l, p', cs')) :
    cs'.length < cs.length := by
  fun_induction scanText quote start read p cs <;> grind

theorem scanTemplate_length {start p p' : Position} {mode : TemplateMode}
    {chunks : List TemplateChunk} {read cs cs' : List Char} {l : Lexeme}
    (h : scanTemplate start mode chunks read p cs = .ok (l, p', cs')) :
    cs'.length < cs.length := by
  fun_induction scanTemplate start mode chunks read p cs <;> grind

theorem length_dropWhile_le (f : Char → Bool) (cs : List Char) :
    (cs.dropWhile f).length ≤ cs.length := (List.dropWhile_sublist f).length_le

theorem scanNumber_length (p : Position) (c : Char) (cs : List Char) (h : c.isDigit) :
    (scanNumber p (c :: cs)).2.2.length < (c :: cs).length := by
  have hd := length_dropWhile_le Char.isDigit cs
  simp only [scanNumber, List.dropWhile_cons, if_pos h]
  split
  next d more heq =>
    have hlen := congrArg List.length heq
    have hmore := length_dropWhile_le Char.isDigit more
    simp only [List.length_cons] at hlen ⊢
    split
    next => dsimp only; omega
    next => simp only [List.length_cons, heq]; omega
  next => simp only [List.length_cons]; omega

theorem scanName_length (p : Position) (c : Char) (cs : List Char) (h : startsName c) :
    (scanName p (c :: cs)).2.2.length < (c :: cs).length := by
  have hd := length_dropWhile_le continuesName cs
  have hc : continuesName c = true := by
    simp only [startsName, continuesName, Bool.or_eq_true] at *
    grind
  simp only [scanName, List.dropWhile_cons, hc, if_true, List.length_cons]
  omega

theorem afterLead?_length {lead cs rest : List Char} (h : afterLead? lead cs = some rest) :
    rest.length + lead.length = cs.length := by
  fun_induction afterLead? lead cs <;> grind

theorem spelling_length_pos (s : Symbol) : 0 < s.spelling.toList.length := by
  cases s <;> decide

theorem scanSymbol?_length {p p' : Position} {cs rest : List Char} {l : Lexeme}
    (h : scanSymbol? p cs = some (l, p', rest)) : rest.length < cs.length := by
  obtain ⟨s, -, hs⟩ := List.exists_of_findSome?_eq_some h
  obtain ⟨r, hr, heq⟩ := Option.map_eq_some_iff.1 hs
  obtain ⟨-, -, rfl⟩ := by simpa using heq
  have := afterLead?_length hr
  have := spelling_length_pos s
  omega

theorem scanLexeme_length {p p' : Position} {c : Char} {cs rest : List Char} {l : Lexeme}
    (h : scanLexeme p c cs = .ok (l, p', rest)) : rest.length < (c :: cs).length := by
  unfold scanLexeme at h
  split at h
  · exact Nat.lt_succ_of_lt (scanText_length h)
  split at h
  · exact Nat.lt_succ_of_lt (scanTemplate_length h)
  split at h
  · rename_i hd
    have := scanNumber_length p c cs hd
    simp_all
  split at h
  · rename_i hn
    have := scanName_length p c cs hn
    simp_all
  split at h
  · rename_i scanned heq
    have hs : scanned = (l, p', rest) := by simpa using h
    exact scanSymbol?_length (hs ▸ heq)
  · contradiction

/-- All tokens of the text that starts at `p`, in order, with the finish token last. -/
def tokensFrom (p : Position) (cs : List Char) : Except LexError (List Token) :=
  match _hskip : skipTrivia .between p cs with
  | .error e => .error e
  | .ok (q, []) => .ok [⟨.finish, q⟩]
  | .ok (q, c :: rest) =>
    match _hscan : scanLexeme q c rest with
    | .error e => .error e
    | .ok (l, r, more) =>
      match tokensFrom r more with
      | .error e => .error e
      | .ok tokens => .ok (⟨l, q⟩ :: tokens)
termination_by cs.length
decreasing_by
  have h₁ := skipTrivia_length _hskip
  have h₂ := scanLexeme_length _hscan
  omega

end Lexer

/-- The tokens of a text whose first character stands at the line and column of `origin`. Offsets
count from the start of the text. -/
def Token.scanAt (origin : Position) (source : String) : Except LexError (List Token) :=
  Lexer.tokensFrom { origin with offset := 0 } source.toList

/-- The tokens of a text. -/
def Token.scan (source : String) : Except LexError (List Token) :=
  Token.scanAt Position.start source

end ScriptEngine
