import ScriptEngine.Proofs.Token.Lossless

/-!
# What is written is read back

Tokens can be written in a row, with a blank and any further blanks and closed comments between
neighbours. The lexer reads these tokens back, whatever stands in strings, templates and comments.
-/
namespace ScriptEngine
open Text (Position)

namespace Lexer

/-! Gaps -/

theorem isGap_iff {c : Char} : isGap c ↔ c = ' ' ∨ c = '\t' ∨ c = '\r' ∨ c = '\n' := by
  simp [isGap, or_assoc]

/-- No blank belongs to a class of characters if none of the four does. -/
theorem not_of_isGap {f : Char → Bool} (hf : [' ', '\t', '\r', '\n'].all (!f ·) = true) {c : Char}
    (h : isGap c) : f c = false := by
  have hc : c ∈ [' ', '\t', '\r', '\n'] := by simpa using isGap_iff.1 h
  simpa using List.all_eq_true.1 hf c hc

theorem skipTrivia_line {comment : List Char} (h : '\n' ∉ comment) (p : Position)
    (rest : List Char) :
    skipTrivia .line p (comment ++ '\n' :: rest) =
      skipTrivia .between (p.after (comment ++ ['\n'])) rest := by
  induction comment generalizing p with
  | nil => simp [skipTrivia]
  | cons c comment ih =>
    have hc : ¬ c = '\n' := fun hc => h (hc ▸ List.mem_cons_self)
    rw [List.cons_append, skipTrivia, beq_false_of_ne hc]
    exact ih (fun hc => h (List.mem_cons_of_mem _ hc)) _

theorem skipTrivia_block (start : Position) {comment : List Char}
    (h : ¬ ['*', '/'] <:+: comment) (p : Position) (rest : List Char) :
    skipTrivia (.block start) p (comment ++ '*' :: '/' :: rest) =
      skipTrivia .between (p.after (comment ++ ['*', '/'])) rest := by
  induction comment generalizing p with
  | nil => simp [skipTrivia]
  | cons c comment ih =>
    rw [List.cons_append, skipTrivia]
    · exact ih (fun hinfix => h (List.infix_cons hinfix)) _
    · -- A sign that closes the comment would begin inside it.
      rintro cs rfl hcs
      rcases comment with _ | ⟨d, comment⟩
      · cases hcs
      · obtain ⟨rfl, -⟩ := List.cons.inj hcs
        exact h ⟨[], comment, rfl⟩

/-- A gap is skipped to its end. -/
theorem Gap.skipTrivia {g : List Char} (h : Gap false g) (p : Position) (rest : List Char) :
    skipTrivia .between p (g ++ rest) = Lexer.skipTrivia .between (p.after g) rest := by
  induction h generalizing p with
  | nil => rfl
  | @blank c g hc hg ih =>
    rw [List.cons_append, Lexer.skipTrivia, if_pos hc, ih, Position.after_cons]
    all_goals rintro cs rfl; cases isGap_iff.1 hc <;> simp_all
  | line hcomment hg ih =>
    rw [List.cons_append, List.cons_append, Lexer.skipTrivia, List.append_assoc, List.cons_append,
      skipTrivia_line hcomment, ih]
    simp [Position.after_append]
  | lastLine hlast => cases hlast
  | block hcomment hg ih =>
    rw [List.cons_append, List.cons_append, Lexer.skipTrivia, List.append_assoc, List.cons_append,
      List.cons_append, skipTrivia_block _ hcomment, ih]
    simp [Position.after_append]

theorem isGap_eq_false {f : Char → Bool} (hf : [' ', '\t', '\r', '\n'].all (!f ·) = true)
    {c : Char} (hc : f c) : isGap c = false :=
  Bool.eq_false_iff.2 fun hgap => Bool.false_ne_true ((not_of_isGap hf hgap).symm.trans hc)

theorem ne_of_class {f : Char → Bool} {c d : Char} (hc : f c) (hd : f d = false) : c ≠ d := by
  rintro rfl
  exact Bool.false_ne_true (hd.symm.trans hc)

/-- A gap that begins with a blank, so that no token reaches into it. -/
structure Separator where
  chars : List Char
  begins : ∃ c g, chars = c :: g ∧ isGap c
  isGap : Gap false chars

/-- The text ends here or goes on with a blank. -/
def Breaks (rest : List Char) : Prop := ∀ c ∈ rest.head?, isGap c

theorem Breaks.nil : Breaks [] := nofun

theorem Separator.breaks (g : Separator) (rest : List Char) : Breaks (g.chars ++ rest) := by
  obtain ⟨c, cs, hchars, hc⟩ := g.begins
  rw [hchars]
  rintro _ ⟨⟩
  exact hc

/-- A run of characters of a class ends where the text breaks. -/
theorem Breaks.takeWhile {rest : List Char} (h : Breaks rest) {f : Char → Bool}
    (hf : [' ', '\t', '\r', '\n'].all (!f ·) = true) {run : List Char} (hrun : ∀ c ∈ run, f c) :
    (run ++ rest).takeWhile f = run ∧ (run ++ rest).dropWhile f = rest := by
  rw [List.takeWhile_append_of_pos hrun, List.dropWhile_append_of_pos hrun]
  cases rest with
  | nil => simp
  | cons c rest =>
    have hc : ¬ f c = true := by simp [not_of_isGap hf (h c rfl)]
    rw [List.takeWhile_cons_of_neg hc, List.dropWhile_cons_of_neg hc, List.append_nil]
    exact ⟨rfl, rfl⟩

/-! Literals and names -/

/-- Content with a backslash before every special character. -/
def escaped (special : Char → Bool) (content : List Char) : List Char :=
  content.flatMap fun c => if special c then ['\\', c] else [c]

theorem escaped_cons (special : Char → Bool) (c : Char) (content : List Char) :
    escaped special (c :: content) =
      (if special c then ['\\', c] else [c]) ++ escaped special content := rfl

/-- A string literal cannot hold its own quote or a backslash as it is. -/
def isSpecialIn (quote : Char) (c : Char) : Bool := c == quote || c == '\\'

/-- A template cannot hold a backtick, a backslash or a dollar sign as it is. -/
def isSpecialInTemplate (c : Char) : Bool := c == '`' || c == '\\' || c == '$'

theorem scanText_escaped {quote : Char} (hquote : quote = '"' ∨ quote = '\'') (start : Position)
    (content read : List Char) (p : Position) (rest : List Char) :
    scanText quote start read p (escaped (isSpecialIn quote) content ++ quote :: rest) =
      .ok (.text (String.ofList (read.reverse ++ content)),
        p.after (escaped (isSpecialIn quote) content ++ [quote]), rest) := by
  induction content generalizing read p with
  | nil =>
    rw [escaped, List.flatMap_nil, List.nil_append, scanText.eq_def]
    simp
  | cons c content ih =>
    rw [escaped_cons]
    by_cases hc : isSpecialIn quote c
    · have hescape : unescape c = c := by
        obtain rfl | rfl : c = quote ∨ c = '\\' := by simpa [isSpecialIn] using hc
        · obtain rfl | rfl := hquote <;> rfl
        · rfl
      have hslash : ¬ '\\' = quote := by obtain rfl | rfl := hquote <;> decide
      rw [if_pos hc]
      simp [scanText, hslash, hescape, ih]
    · obtain ⟨hne, hslash⟩ : ¬ c = quote ∧ ¬ c = '\\' := by simpa [isSpecialIn] using hc
      rw [if_neg hc, List.cons_append, List.nil_append, List.cons_append, scanText.eq_def]
      simp [hne, hslash, ih]

theorem scanTemplate_escaped (start : Position) (content read : List Char) (p : Position)
    (rest : List Char) :
    scanTemplate start .text [] read p (escaped isSpecialInTemplate content ++ '`' :: rest) =
      .ok (.template [.text (String.ofList (read.reverse ++ content))],
        p.after (escaped isSpecialInTemplate content ++ ['`']), rest) := by
  induction content generalizing read p with
  | nil =>
    rw [escaped, List.flatMap_nil, List.nil_append, scanTemplate.eq_def]
    simp [closeTemplate]
  | cons c content ih =>
    rw [escaped_cons]
    by_cases hc : isSpecialInTemplate c
    · have hescape : unescape c = c := by
        obtain (rfl | rfl) | rfl : (c = '`' ∨ c = '\\') ∨ c = '$' := by
          simpa [isSpecialInTemplate] using hc
        all_goals rfl
      rw [if_pos hc]
      simp [scanTemplate, hescape, ih]
    · obtain ⟨⟨htick, hslash⟩, hdollar⟩ : (¬ c = '`' ∧ ¬ c = '\\') ∧ ¬ c = '$' := by
        simpa [isSpecialInTemplate] using hc
      rw [if_neg hc, List.cons_append, List.nil_append, List.cons_append, scanTemplate.eq_def]
      simp [htick, hslash, hdollar, ih]

/-- A letter or an underscore, and then characters that continue a name. -/
def IsName (cs : List Char) : Prop :=
  ∃ c rest, cs = c :: rest ∧ startsName c ∧ ∀ d ∈ rest, continuesName d

/-- One token as it is written. A number may have a fraction; the content of a text and of a
template is any string. -/
inductive Word where
  | keyword (word : Keyword)
  | name (spelling : String) (isName : IsName spelling.toList)
      (unreserved : ∀ k : Keyword, k.spelling ≠ spelling)
  | symbol (sign : Symbol)
  | number (whole fraction : List Char) (nonempty : whole ≠ []) (isWhole : ∀ d ∈ whole, d.isDigit)
      (isFraction : ∀ d ∈ fraction, d.isDigit)
  | text (quote : Char) (isQuote : quote = '"' ∨ quote = '\'') (content : String)
  | template (content : String)

namespace Word

/-- What is written. -/
def chars : Word → List Char
  | keyword k => k.spelling.toList
  | name s _ _ => s.toList
  | symbol s => s.spelling.toList
  | number whole fraction _ _ _ => if fraction = [] then whole else whole ++ '.' :: fraction
  | text quote _ content => quote :: escaped (isSpecialIn quote) content.toList ++ [quote]
  | template content => '`' :: escaped isSpecialInTemplate content.toList ++ ['`']

/-- What it stands for. -/
def lexeme : Word → Lexeme
  | keyword k => .keyword k
  | name s _ _ => .name s
  | symbol s => .symbol s
  | number whole fraction _ _ _ => .number (Number.ofDigits whole fraction)
  | text _ _ content => .text content
  | template content => .template [.text content]

end Word

theorem not_isDigit_of_startsName {c : Char} (hc : startsName c) : c.isDigit = false := by
  refine Bool.eq_false_iff.2 fun hdigit => ?_
  have hlow : c.toNat < 0x41 := by
    simp only [Char.isDigit, Bool.and_eq_true, decide_eq_true_eq, ge_iff_le] at hdigit
    exact Nat.lt_of_le_of_lt (UInt32.le_iff_toNat_le.1 hdigit.2) (by decide)
  have hletter : Text.isLetter c = false := by
    rw [Text.isLetter, Text.letters, Text.CodeRanges.covers, if_pos hlow]
  have hunderscore : ¬ c = '_' := by
    rintro rfl
    exact absurd hlow (by decide)
  simp [startsName, hletter, hunderscore] at hc

theorem scanLexeme_name {c : Char} {cs rest : List Char} (hc : startsName c)
    (hcs : ∀ d ∈ cs, continuesName d) (hrest : Breaks rest) (p : Position) :
    scanLexeme p c (cs ++ rest) =
      .ok (nameOrKeyword (String.ofList (c :: cs)), p.after (c :: cs), rest) := by
  have hrun : ∀ d ∈ c :: cs, continuesName d := by
    refine List.forall_mem_cons.2 ⟨?_, hcs⟩
    simp only [startsName, continuesName, Bool.or_eq_true] at hc ⊢
    exact hc.imp_left Or.inl
  obtain ⟨htake, hdrop⟩ := hrest.takeWhile (f := continuesName) (by decide) hrun
  rw [List.cons_append] at htake hdrop
  simp [scanLexeme, scanName, htake, hdrop, ne_of_class hc (d := '"') rfl,
    ne_of_class hc (d := '\'') rfl, ne_of_class hc (d := '`') rfl, not_isDigit_of_startsName hc, hc]

theorem scanNumber_breaks {whole fraction rest : List Char} (hwhole : ∀ d ∈ whole, d.isDigit)
    (hfraction : ∀ d ∈ fraction, d.isDigit) (hrest : Breaks rest) (p : Position) :
    scanNumber p ((if fraction = [] then whole else whole ++ '.' :: fraction) ++ rest) =
      (.number (Number.ofDigits whole fraction),
        p.after (if fraction = [] then whole else whole ++ '.' :: fraction), rest) := by
  cases fraction with
  | nil =>
    obtain ⟨htake, hdrop⟩ := hrest.takeWhile (f := Char.isDigit) (by decide) hwhole
    simp only [if_true, scanNumber, htake, hdrop]
    split
    next f more => exact absurd (hrest '.' rfl) (by decide)
    next => rfl
  | cons f fraction =>
    have hpoint : ¬ '.'.isDigit = true := by decide
    obtain ⟨htake, hdrop⟩ := hrest.takeWhile (f := Char.isDigit) (by decide) hfraction
    have hwholeTake : (whole ++ '.' :: (f :: fraction ++ rest)).takeWhile Char.isDigit = whole := by
      rw [List.takeWhile_append_of_pos hwhole, List.takeWhile_cons_of_neg hpoint, List.append_nil]
    have hwholeDrop : (whole ++ '.' :: (f :: fraction ++ rest)).dropWhile Char.isDigit =
        '.' :: (f :: fraction ++ rest) := by
      rw [List.dropWhile_append_of_pos hwhole, List.dropWhile_cons_of_neg hpoint]
    rw [if_neg (List.cons_ne_nil _ _), List.append_assoc, List.cons_append, scanNumber,
      hwholeTake, hwholeDrop]
    simp only [List.cons_append] at htake hdrop ⊢
    simp only [hfraction f List.mem_cons_self, if_true, htake, hdrop]

/-- A number's characters, the point only where a fraction follows. -/
theorem scanLexeme_number {whole fraction rest : List Char} (hnonempty : whole ≠ [])
    (hwhole : ∀ d ∈ whole, d.isDigit) (hfraction : ∀ d ∈ fraction, d.isDigit)
    (hrest : Breaks rest) (p : Position) :
    ∃ c cs, (if fraction = [] then whole else whole ++ '.' :: fraction) = c :: cs ∧ c.isDigit ∧
      scanLexeme p c (cs ++ rest) =
        .ok (.number (Number.ofDigits whole fraction), p.after (c :: cs), rest) := by
  obtain ⟨c, whole, rfl⟩ := List.exists_cons_of_ne_nil hnonempty
  have hc := hwhole c List.mem_cons_self
  obtain ⟨cs, hcs⟩ : ∃ cs, (if fraction = [] then c :: whole else c :: whole ++ '.' :: fraction) =
      c :: cs := by
    split <;> exact ⟨_, rfl⟩
  have hscan := scanNumber_breaks hwhole hfraction hrest p
  rw [hcs, List.cons_append] at hscan
  refine ⟨c, cs, hcs, hc, ?_⟩
  simp [scanLexeme, hscan, ne_of_class hc (d := '"') rfl, ne_of_class hc (d := '\'') rfl,
    ne_of_class hc (d := '`') rfl, hc]

/-- Words begin tokens, and each symbol's spelling is found however the text goes on after it. -/
theorem scanLexeme_symbol (s : Symbol) {rest : List Char} (hrest : Breaks rest) (p : Position) :
    ∃ c cs, s.spelling.toList = c :: cs ∧ isGap c = false ∧ (c = '/' → cs = []) ∧
      scanLexeme p c (cs ++ rest) = .ok (.symbol s, p.after (c :: cs), rest) := by
  rcases rest with _ | ⟨d, rest⟩
  · cases s <;> exact ⟨_, _, rfl, rfl, by decide, rfl⟩
  · obtain rfl | rfl | rfl | rfl := isGap_iff.1 (hrest d rfl)
    all_goals cases s <;> exact ⟨_, _, rfl, rfl, by decide, rfl⟩

theorem nameOrKeyword_keyword (k : Keyword) : nameOrKeyword k.spelling = .keyword k := by
  cases k <;> rfl

theorem nameOrKeyword_name {s : String} (h : ∀ k : Keyword, k.spelling ≠ s) :
    nameOrKeyword s = .name s := by
  have hnone : Keyword.ofSpelling? s = none :=
    List.find?_eq_none.2 fun k _ => by simpa using h k
  rw [nameOrKeyword, hnone]

theorem isName_spelling (k : Keyword) : IsName k.spelling.toList := by
  cases k <;> exact ⟨_, _, rfl, rfl, List.all_eq_true.1 rfl⟩

/-- A word is read as its lexeme wherever the text breaks after it, and no gap begins with it. -/
theorem Word.scan (w : Word) {rest : List Char} (hrest : Breaks rest) (p : Position) :
    ∃ c cs, w.chars ++ rest = c :: cs ∧ StartsToken (c :: cs) ∧
      scanLexeme p c cs = .ok (w.lexeme, p.after w.chars, rest) := by
  have hstarts {c : Char} {cs : List Char} (hgap : isGap c = false) (hslash : c ≠ '/') :
      StartsToken (c :: cs) := ⟨hgap, fun h => absurd h hslash⟩
  have hname {s : String} (h : IsName s.toList) : ∃ c cs, s.toList ++ rest = c :: cs ∧
      StartsToken (c :: cs) ∧
        scanLexeme p c cs = .ok (nameOrKeyword s, p.after s.toList, rest) := by
    obtain ⟨c, cs, hs, hc, hcs⟩ := h
    refine ⟨c, cs ++ rest, by rw [hs]; rfl, hstarts ?_ (ne_of_class hc rfl), ?_⟩
    · exact isGap_eq_false (by decide) hc
    · rw [scanLexeme_name hc hcs hrest, ← hs, String.ofList_toList]
  cases w with
  | keyword k =>
    rw [lexeme, ← nameOrKeyword_keyword]
    exact hname (isName_spelling k)
  | name s isName unreserved =>
    rw [lexeme, ← nameOrKeyword_name unreserved]
    exact hname isName
  | symbol s =>
    obtain ⟨c, cs, hs, hgap, hslash, hscan⟩ := scanLexeme_symbol s hrest p
    refine ⟨c, cs ++ rest, by rw [chars, hs]; rfl, ⟨hgap, fun hc d hd => ?_⟩, ?_⟩
    · -- Only the slash begins like a comment, and a blank follows it.
      rw [hslash hc] at hd
      constructor <;> rintro rfl <;> exact absurd (hrest _ hd) (by decide)
    · rw [hscan, chars, hs, lexeme]
  | number whole fraction nonempty isWhole isFraction =>
    obtain ⟨c, cs, hcs, hc, hscan⟩ := scanLexeme_number nonempty isWhole isFraction hrest p
    refine ⟨c, cs ++ rest, by rw [chars, hcs]; rfl, hstarts ?_ (ne_of_class hc rfl), ?_⟩
    · exact isGap_eq_false (by decide) hc
    · rw [hscan, chars, hcs, lexeme]
  | text quote isQuote content =>
    have hquote : (quote == '"' || quote == '\'') = true := by simpa using isQuote
    refine ⟨quote, escaped (isSpecialIn quote) content.toList ++ quote :: rest, by simp [chars],
      ?_, ?_⟩
    · obtain rfl | rfl := isQuote <;> exact hstarts rfl (by decide)
    · rw [scanLexeme, if_pos hquote, scanText_escaped isQuote, List.reverse_nil, List.nil_append,
        String.ofList_toList]
      rfl
  | template content =>
    refine ⟨'`', escaped isSpecialInTemplate content.toList ++ '`' :: rest, by simp [chars],
      hstarts rfl (by decide), ?_⟩
    rw [scanLexeme, if_neg (by decide), if_pos (by decide), scanTemplate_escaped,
      List.reverse_nil, List.nil_append, String.ofList_toList]
    rfl

/-- Words in a row with separators between them; one may also stand after the last. -/
inductive Writing where
  | nothing
  | last (word : Word)
  | next (word : Word) (gap : Separator) (rest : Writing)

namespace Writing

/-- What is written. -/
def chars : Writing → List Char
  | nothing => []
  | last w => w.chars
  | next w gap rest => w.chars ++ (gap.chars ++ rest.chars)

/-- What it stands for. -/
def lexemes : Writing → List Lexeme
  | nothing => []
  | last w => [w.lexeme]
  | next w _ rest => w.lexeme :: rest.lexemes

/-- Words in a row have their lexemes, wherever they stand. -/
theorem tokensFrom (x : Writing) (p : Position) :
    ∃ tokens, Lexer.tokensFrom p x.chars = .ok tokens ∧
      tokens.map Token.lexeme = x.lexemes ++ [.finish] := by
  induction x generalizing p with
  | nothing => exact ⟨_, tokensFrom_finish rfl, rfl⟩
  | last w =>
    obtain ⟨c, cs, hcs, hstarts, hscan⟩ := w.scan Breaks.nil p
    rw [List.append_nil] at hcs
    rw [chars, hcs]
    exact ⟨_, tokensFrom_cons (tokensFrom_finish rfl) (hstarts.skipTrivia p) hscan, rfl⟩
  | next w gap rest ih =>
    obtain ⟨c, cs, hcs, hstarts, hscan⟩ := w.scan (gap.breaks rest.chars) p
    obtain ⟨tokens, hrest, hlexemes⟩ := ih ((p.after w.chars).after gap.chars)
    have hmore : Lexer.tokensFrom (p.after w.chars) (gap.chars ++ rest.chars) = .ok tokens := by
      rw [tokensFrom_eq, gap.isGap.skipTrivia, ← tokensFrom_eq, hrest]
    rw [chars, hcs]
    refine ⟨_, tokensFrom_cons hmore (hstarts.skipTrivia p) hscan, ?_⟩
    rw [List.map_cons, hlexemes]
    rfl

end Writing

end Lexer

/-- The lexer undoes writing. Reserved words, names, symbols, decimal numbers, texts in either quote
and templates without code, in any order and with a separator between neighbours, are read back as
their lexemes in this order, and then comes the finish. -/
theorem Token.scan_writing (x : Lexer.Writing) :
    ∃ tokens, Token.scan (String.ofList x.chars) = .ok tokens ∧
      tokens.map Token.lexeme = x.lexemes ++ [.finish] := by
  rw [Lexer.scan_ofList]
  exact x.tokensFrom Position.start

end ScriptEngine
