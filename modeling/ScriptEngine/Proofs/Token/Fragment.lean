import Mathlib
import ScriptEngine.Proofs.Token.Interpolation
import ScriptEngine.Proofs.Token.Writing
import ScriptEngine.Proofs.Grammar.Cursor
import ScriptEngine.Proofs.Grammar.Weight

/-!
# Fragments inside templates

The template scanner reads the code of an interpolation without taking it apart into tokens. Where
the code has tokens of its own, skips no comment and balances its braces, both agree on where it
ends: the template keeps exactly that code, with the texts on both sides.

A template is no such code. The scanner takes the quotes and braces in its texts for those of the
code, so that it nests exactly if they are closed and come in pairs all the same.
-/
namespace ScriptEngine
open Text (Position)

namespace Lexer

/-- The stretches that the lexer skips, in order: one before each token, and the last one. -/
def skippedFrom (p : Position) (cs : List Char) : List (List Char) :=
  match _hskip : skipTrivia .between p cs with
  | .error _ => []
  | .ok (_, []) => [cs]
  | .ok (q, c :: rest) =>
    match _hscan : scanLexeme q c rest with
    | .error _ => []
    | .ok (_, r, more) => cs.take (cs.length - (c :: rest).length) :: skippedFrom r more
termination_by cs.length
decreasing_by
  have h₁ := skipTrivia_length _hskip
  have h₂ := scanLexeme_length _hscan
  omega

theorem skippedFrom_finish {p q : Position} {cs : List Char}
    (hskip : skipTrivia .between p cs = .ok (q, [])) : skippedFrom p cs = [cs] := by
  fun_cases skippedFrom p cs with
  | case1 e h => cases h.symm.trans hskip
  | case2 => rfl
  | case3 _ _ _ h | case4 _ _ _ h => cases h.symm.trans hskip

theorem skippedFrom_cons {p q r : Position} {cs g : List Char} {c : Char} {rest more : List Char}
    {l : Lexeme} {gaps : List (List Char)} (hmore : skippedFrom r more = gaps)
    (hcs : cs = g ++ c :: rest) (hskip : skipTrivia .between p cs = .ok (q, c :: rest))
    (hscan : scanLexeme q c rest = .ok (l, r, more)) : skippedFrom p cs = g :: gaps := by
  have htake : cs.take (cs.length - (c :: rest).length) = g := by
    rw [hcs, List.length_append, Nat.add_sub_cancel, List.take_left]
  fun_cases skippedFrom p cs with
  | case1 e h | case2 q' h => cases h.symm.trans hskip
  | case3 q' c' rest' h e herror =>
    cases h.symm.trans hskip
    cases herror.symm.trans hscan
  | case4 q' c' rest' h l' r' more' h' =>
    cases h.symm.trans hskip
    cases h'.symm.trans hscan
    rw [htake, hmore]

/-! What tokens are spelled with -/

theorem isNeutral_of_class {f : Char → Bool} (hf : ['"', '\'', '{', '}'].all (!f ·) = true)
    {c : Char} (hc : f c) : isNeutral c := by
  have hnot : ∀ d ∈ ['"', '\'', '{', '}'], c ≠ d := fun d hd =>
    ne_of_class hc (by simpa using List.all_eq_true.1 hf d hd)
  simpa [isNeutral_iff] using hnot

/-- How a token that is no template is spelled, as far as quotes and braces go. -/
inductive SpelledWith : Lexeme → List Char → Prop
  | opening : SpelledWith (.symbol .openBrace) ['{']
  | closing : SpelledWith (.symbol .closeBrace) ['}']
  | quotation {l : Lexeme} {quote : Char} {body : List Char} (hquote : IsQuote quote)
    (hbody : Quotation quote body) (hl : ∀ s, l ≠ .symbol s) : SpelledWith l (quote :: body)
  | neutral {l : Lexeme} {cs : List Char} (hcs : ∀ c ∈ cs, isNeutral c)
    (hl : l ≠ .symbol .openBrace ∧ l ≠ .symbol .closeBrace) : SpelledWith l cs

theorem scanText_quotation {quote : Char} {start p q : Position} {read cs rest : List Char}
    {l : Lexeme} (h : scanText quote start read p cs = .ok (l, q, rest)) :
    (∃ content, l = .text content) ∧ ∃ body, cs = body ++ rest ∧ Quotation quote body := by
  fun_induction scanText quote start read p cs with
  | case1 | case3 => cases h
  | case2 read p c cs hquote =>
    obtain ⟨rfl, rfl, rfl⟩ : _ = l ∧ _ = q ∧ cs = rest := by simpa using h
    obtain rfl : c = quote := by simpa using hquote
    exact ⟨⟨_, rfl⟩, [c], rfl, .close⟩
  | case4 read p c hquote hslash e cs ih =>
    obtain ⟨hl, body, rfl, hbody⟩ := ih h
    obtain rfl : c = '\\' := by simpa using hslash
    exact ⟨hl, '\\' :: e :: body, rfl, .escape hbody⟩
  | case5 read p c cs hquote hslash ih =>
    obtain ⟨hl, body, rfl, hbody⟩ := ih h
    exact ⟨hl, c :: body, rfl, .plain (by simpa using hslash) (by simpa using hquote) hbody⟩

theorem scanNumber_neutral {p q : Position} {cs rest : List Char} {l : Lexeme}
    (h : scanNumber p cs = (l, q, rest)) :
    (∃ x, l = .number x) ∧ ∃ used, cs = used ++ rest ∧ ∀ c ∈ used, isNeutral c := by
  have hdigits {run : List Char} : ∀ c ∈ run.takeWhile Char.isDigit, isNeutral c :=
    fun _ hc => isNeutral_of_class (by decide) (List.mem_takeWhile_imp hc)
  have hsplit : cs = cs.takeWhile Char.isDigit ++ cs.dropWhile Char.isDigit :=
    List.takeWhile_append_dropWhile.symm
  simp only [scanNumber] at h
  split at h
  case h_1 d more hrest =>
    split at h
    case isTrue hd =>
      obtain ⟨rfl, rfl, rfl⟩ := by simpa using h
      refine ⟨⟨_, rfl⟩, cs.takeWhile Char.isDigit ++ '.' :: (d :: more).takeWhile Char.isDigit,
        ?_, ?_⟩
      · rw [List.append_assoc, List.cons_append, List.takeWhile_append_dropWhile, ← hrest]
        exact hsplit
      · refine List.forall_mem_append.2 ⟨hdigits, List.forall_mem_cons.2 ⟨rfl, hdigits⟩⟩
    case isFalse =>
      obtain ⟨rfl, rfl, rfl⟩ := by simpa using h
      exact ⟨⟨_, rfl⟩, _, hsplit, hdigits⟩
  case h_2 =>
    obtain ⟨rfl, rfl, rfl⟩ := by simpa using h
    exact ⟨⟨_, rfl⟩, _, hsplit, hdigits⟩

theorem scanSymbol?_spelledWith {p q : Position} {cs rest : List Char} {l : Lexeme}
    (h : scanSymbol? p cs = some (l, q, rest)) :
    ∃ used, cs = used ++ rest ∧ SpelledWith l used := by
  obtain ⟨s, -, hs⟩ := List.exists_of_findSome?_eq_some h
  obtain ⟨more, hmore, heq⟩ := Option.map_eq_some_iff.1 hs
  obtain ⟨rfl, -, rfl⟩ := by simpa using heq
  refine ⟨s.spelling.toList, afterLead?_eq_some.1 hmore, ?_⟩
  cases s with
  | openBrace => exact .opening
  | closeBrace => exact .closing
  | _ => exact .neutral (List.all_eq_true.1 (by decide)) (by simp)

/-- One token is spelled with a quotation, with a brace, or without quotes and braces. -/
theorem scanLexeme_spelledWith {p q : Position} {c : Char} {cs rest : List Char} {l : Lexeme}
    (htick : c ≠ '`') (h : scanLexeme p c cs = .ok (l, q, rest)) :
    ∃ used, c :: cs = used ++ rest ∧ SpelledWith l used := by
  unfold scanLexeme at h
  split at h
  case isTrue hquote =>
    obtain ⟨⟨content, rfl⟩, body, rfl, hbody⟩ := scanText_quotation h
    exact ⟨c :: body, rfl, .quotation (by simpa [IsQuote] using hquote) hbody (by simp)⟩
  case isFalse hquote =>
  split at h
  case isTrue h' => exact absurd (by simpa using h') htick
  case isFalse =>
  split at h
  case isTrue hdigit =>
    obtain ⟨⟨x, rfl⟩, used, hused, hneutral⟩ := scanNumber_neutral (Except.ok.inj h)
    exact ⟨used, hused, .neutral hneutral (by simp)⟩
  case isFalse hdigit =>
  split at h
  case isTrue hname =>
    obtain ⟨rfl, rfl, rfl⟩ := by simpa [scanName] using h
    refine ⟨(c :: cs).takeWhile continuesName, List.takeWhile_append_dropWhile.symm, .neutral ?_ ?_⟩
    · exact fun _ hd => isNeutral_of_class (by decide) (List.mem_takeWhile_imp hd)
    · unfold nameOrKeyword
      split <;> simp
  case isFalse hname =>
  split at h
  case h_1 scanned hsymbol =>
    obtain rfl := Except.ok.inj h
    exact scanSymbol?_spelledWith hsymbol
  case h_2 => cases h

end Lexer

/-! Braces among tokens -/

/-- How often a symbol occurs among tokens. -/
def Token.count (s : Symbol) (tokens : List Token) : Nat :=
  tokens.countP fun t => Grammar.Lexeme.isSymbol s t.lexeme

/-- With `depth` braces open before, no front of the tokens closes more braces than are open, and
all of them are closed in the end. -/
structure Token.ClosesBraces (depth : Nat) (tokens : List Token) : Prop where
  front : ∀ front, front <+: tokens →
    Token.count .closeBrace front ≤ depth + Token.count .openBrace front
  all : Token.count .closeBrace tokens = depth + Token.count .openBrace tokens

namespace Token

theorem count_cons (s : Symbol) (t : Token) (tokens : List Token) :
    count s (t :: tokens) =
      count s tokens + (Grammar.Lexeme.isSymbol s t.lexeme).toNat := by
  rw [count, List.countP_cons, ← count]
  cases Grammar.Lexeme.isSymbol s t.lexeme <;> rfl

theorem isSymbol_eq_false {s : Symbol} {l : Lexeme} (h : l ≠ .symbol s) :
    Grammar.Lexeme.isSymbol s l = false :=
  Bool.eq_false_iff.2 fun hs => h (Grammar.isSymbol_iff'.1 hs)

namespace ClosesBraces

variable {depth : Nat} {t : Token} {tokens : List Token}

/-- What is open after one token is closed by the others. -/
theorem tail {depth' : Nat} (h : ClosesBraces depth (t :: tokens))
    (hdepth : depth + (Grammar.Lexeme.isSymbol .openBrace t.lexeme).toNat =
      depth' + (Grammar.Lexeme.isSymbol .closeBrace t.lexeme).toNat) :
    ClosesBraces depth' tokens where
  front front hfront := by
    have hwhole := h.front (t :: front) (List.cons_prefix_cons.2 ⟨rfl, hfront⟩)
    simp only [count_cons] at hwhole
    omega
  all := by
    have hwhole := h.all
    simp only [count_cons] at hwhole
    omega

theorem opening (h : ClosesBraces depth (t :: tokens)) (ht : t.lexeme = .symbol .openBrace) :
    ClosesBraces (depth + 1) tokens :=
  h.tail (by rw [ht]; rfl)

/-- A brace that is closed was open. -/
theorem closing (h : ClosesBraces depth (t :: tokens)) (ht : t.lexeme = .symbol .closeBrace) :
    ∃ depth', depth = depth' + 1 ∧ ClosesBraces depth' tokens := by
  have hone : 0 + 1 ≤ depth + (0 + 0) := by
    have hfront := h.front [t] (List.cons_prefix_cons.2 ⟨rfl, List.nil_prefix⟩)
    rw [count_cons, count_cons, ht] at hfront
    exact hfront
  obtain ⟨depth, rfl⟩ : ∃ depth', depth = depth' + 1 := ⟨depth - 1, by omega⟩
  exact ⟨depth, rfl, h.tail (by rw [ht]; rfl)⟩

theorem other (h : ClosesBraces depth (t :: tokens)) (hopen : t.lexeme ≠ .symbol .openBrace)
    (hclose : t.lexeme ≠ .symbol .closeBrace) : ClosesBraces depth tokens :=
  h.tail (by rw [isSymbol_eq_false hopen, isSymbol_eq_false hclose])

end ClosesBraces

end Token

namespace Lexer

theorem isNeutral_of_isGap {c : Char} (hc : isGap c) : isNeutral c :=
  isNeutral_of_class (by decide) hc

/-- Token by token, a fragment ends the braces that are open before it. -/
theorem tokensFrom_finishing {p : Position} {cs : List Char} {tokens : List Token}
    (h : tokensFrom p cs = .ok tokens) (htick : '`' ∉ cs)
    (hgaps : ∀ g ∈ skippedFrom p cs, ∀ c ∈ g, isGap c) {depth : Nat}
    (hbraces : Token.ClosesBraces depth tokens) : Finishing depth none cs := by
  fun_induction tokensFrom p cs generalizing tokens depth with
  | case1 | case3 | case4 => cases h
  | case2 p cs q hskip =>
    obtain rfl := Except.ok.inj h
    rw [skippedFrom_finish hskip] at hgaps
    obtain rfl : 0 = depth := hbraces.all
    exact .code (.of_neutral fun c hc => isNeutral_of_isGap (hgaps _ List.mem_cons_self c hc))
  | case5 p cs q c rest hskip l r more hscan tokens htokens ih =>
    obtain rfl := Except.ok.inj h
    obtain ⟨g, rfl, -, -, -⟩ := skipTrivia_gap hskip
    rw [skippedFrom_cons rfl rfl hskip hscan] at hgaps
    obtain ⟨hg, hmore⟩ := List.forall_mem_cons.1 hgaps
    have hgap : Interpolable g := .of_neutral fun c hc => isNeutral_of_isGap (hg c hc)
    have hc : c ≠ '`' := by
      rintro rfl
      simp at htick
    obtain ⟨used, hused, hspelled⟩ := scanLexeme_spelledWith hc hscan
    rw [hused] at htick ⊢
    have hlater {depth : Nat} (hbraces : Token.ClosesBraces depth tokens) :
        Finishing depth none more :=
      ih htokens (fun hmem => htick (by simp [hmem])) hmore hbraces
    refine .prepend hgap ?_
    cases hspelled with
    | opening => exact .opening (hlater (hbraces.opening rfl))
    | closing =>
      obtain ⟨depth, rfl, hrest⟩ := hbraces.closing rfl
      exact .closing (hlater hrest)
    | quotation hquote hbody hl =>
      exact .quoting hquote (.quotation hbody (hlater (hbraces.other (hl _) (hl _))))
    | neutral hcs hl =>
      exact .prepend (.of_neutral hcs) (hlater (hbraces.other hl.1 hl.2))

/-! The texts around an interpolation -/

/-- Text that a template can hold as it is: it neither ends the template nor begins an escape or an
interpolation. -/
structure IsTemplateText (cs : List Char) : Prop where
  tick : '`' ∉ cs
  slash : '\\' ∉ cs
  opening : ¬ ['$', '{'] <:+: cs

theorem IsTemplateText.tail {c : Char} {cs : List Char} (h : IsTemplateText (c :: cs)) :
    IsTemplateText cs where
  tick hmem := h.tick (List.mem_cons_of_mem c hmem)
  slash hmem := h.slash (List.mem_cons_of_mem c hmem)
  opening hinfix := h.opening (List.infix_cons hinfix)

/-- Text is read as it is, up to a character that is no opening brace. -/
theorem scanTemplate_text {start : Position} {chunks : List TemplateChunk} {cs : List Char}
    (hcs : IsTemplateText cs) {d : Char} (hd : d ≠ '{') (read : List Char) (p : Position)
    (rest : List Char) :
    scanTemplate start .text chunks read p (cs ++ d :: rest) =
      scanTemplate start .text chunks (cs.reverse ++ read) (p.after cs) (d :: rest) := by
  induction cs generalizing read p with
  | nil => rfl
  | cons c cs ih =>
    have htick : ¬ c = '`' := fun hc => hcs.tick (hc ▸ List.mem_cons_self)
    have hslash : ¬ c = '\\' := fun hc => hcs.slash (hc ▸ List.mem_cons_self)
    have hplain : ∀ more, c = '$' → cs ++ d :: rest = '{' :: more → False := by
      rintro more rfl hmore
      rcases cs with _ | ⟨e, cs⟩
      · exact hd (List.cons.inj hmore).1
      · obtain ⟨rfl, -⟩ := List.cons.inj hmore
        exact hcs.opening ⟨[], cs, rfl⟩
    -- By `hplain` the character is read as text.
    rw [List.cons_append, scanTemplate.eq_def]
    simp [htick, hslash, ih hcs.tail]

/-- A template of a text, an interpolation and a text. -/
theorem scanTemplate_surrounded (start : Position) {as code bs : List Char}
    (has : IsTemplateText as) (hcode : Interpolable code) (hbs : IsTemplateText bs)
    (p : Position) (rest : List Char) :
    scanTemplate start .text [] [] p (as ++ '$' :: '{' :: (code ++ '}' :: (bs ++ '`' :: rest))) =
      .ok (.template (textChunks (String.ofList as) ++
          .code (String.ofList code) (p.after (as ++ ['$', '{'])) :: textChunks (String.ofList bs)),
        p.after (as ++ '$' :: '{' :: (code ++ '}' :: (bs ++ ['`']))), rest) := by
  rw [scanTemplate_text has (by decide), scanTemplate, scanTemplate_interpolation hcode,
    scanTemplate_text hbs (by decide), scanTemplate.eq_def]
  simp [flushText_eq, closeTemplate_eq, Position.after_append]

end Lexer

/-- The code of an interpolation ends where its tokens say. A fragment without backticks that has
tokens of its own, skips no comment and balances its braces is kept as it is in a template, at its
place and between the texts around it. -/
theorem Token.scan_interpolated {fragment a b : String} {tokens : List Token}
    (htokens : Token.scan fragment = .ok tokens) (htick : '`' ∉ fragment.toList)
    (hgaps : ∀ g ∈ Lexer.skippedFrom Position.start fragment.toList, ∀ c ∈ g, Lexer.isGap c)
    (hfront : ∀ front, front <+: tokens →
      Token.count .closeBrace front ≤ Token.count .openBrace front)
    (hall : Token.count .closeBrace tokens = Token.count .openBrace tokens)
    (ha : Lexer.IsTemplateText a.toList) (hb : Lexer.IsTemplateText b.toList) :
    Token.scan ("`" ++ a ++ "$\x7b" ++ fragment ++ "\x7d" ++ b ++ "`") =
      .ok [⟨.template (Lexer.textChunks a ++
          .code fragment (Position.start.after ("`" ++ a ++ "$\x7b").toList) :: Lexer.textChunks b),
          Position.start⟩,
        ⟨.finish, Position.start.after
          ("`" ++ a ++ "$\x7b" ++ fragment ++ "\x7d" ++ b ++ "`").toList⟩] := by
  have hcode : Lexer.Interpolable fragment.toList :=
    (Lexer.tokensFrom_finishing htokens htick hgaps
      ⟨fun front h => by simpa using hfront front h, by simpa using hall⟩).interpolable
  have hscan := Lexer.scanTemplate_surrounded Position.start ha hcode hb
    (Position.start.step '`') []
  have hlexeme : Lexer.scanLexeme Position.start '`' (a.toList ++
      '$' :: '{' :: (fragment.toList ++ '}' :: (b.toList ++ ['`']))) = _ := hscan
  have htext : ("`" ++ a ++ "$\x7b" ++ fragment ++ "\x7d" ++ b ++ "`").toList =
      '`' :: (a.toList ++ '$' :: '{' :: (fragment.toList ++ '}' :: (b.toList ++ ['`']))) := by
    simp
  rw [Token.scan, Token.scanAt, htext]
  exact (Lexer.tokensFrom_cons (Lexer.tokensFrom_finish rfl) rfl hlexeme).trans (by simp)

/-- Braces around a string that holds a quote and a brace. -/
def wrapped : String := "\x7b '\\'\x7d'\x7d"

def wrappedTokens : List Token :=
  [⟨.symbol .openBrace, ⟨1, 1, 0⟩⟩, ⟨.text "'\x7d", ⟨1, 3, 2⟩⟩, ⟨.symbol .closeBrace, ⟨1, 8, 7⟩⟩,
    ⟨.finish, ⟨1, 9, 8⟩⟩]

theorem wrapped_read : Token.scan wrapped = .ok wrappedTokens ∧
    Lexer.skippedFrom Position.start wrapped.toList = [[], [' '], [], []] := by
  have hchars : wrapped.toList = ['{', ' ', '\'', '\\', '\'', '}', '\'', '}'] := by simp [wrapped]
  have hopen : Lexer.scanLexeme ⟨1, 1, 0⟩ '{' [' ', '\'', '\\', '\'', '}', '\'', '}'] =
    .ok (.symbol .openBrace, ⟨1, 2, 1⟩, [' ', '\'', '\\', '\'', '}', '\'', '}']) := rfl
  have hgap : Lexer.skipTrivia .between ⟨1, 2, 1⟩ [' ', '\'', '\\', '\'', '}', '\'', '}'] =
    .ok (⟨1, 3, 2⟩, ['\'', '\\', '\'', '}', '\'', '}']) := rfl
  have htext : Lexer.scanLexeme ⟨1, 3, 2⟩ '\'' ['\\', '\'', '}', '\'', '}'] =
    .ok (.text (String.ofList ['\'', '}']), ⟨1, 8, 7⟩, ['}']) := rfl
  have hclose : Lexer.scanLexeme ⟨1, 8, 7⟩ '}' [] = .ok (.symbol .closeBrace, ⟨1, 9, 8⟩, []) := rfl
  have hnone (p : Position) : Lexer.skipTrivia .between p [] = .ok (p, []) := rfl
  have hbefore : Lexer.skipTrivia .between ⟨1, 8, 7⟩ ['}'] = .ok (⟨1, 8, 7⟩, ['}']) := rfl
  rw [Token.scan, Token.scanAt, hchars]
  constructor
  · exact Lexer.tokensFrom_cons (Lexer.tokensFrom_cons (Lexer.tokensFrom_cons
      (Lexer.tokensFrom_finish (hnone _)) hbefore hclose) hgap htext) rfl hopen
  · exact Lexer.skippedFrom_cons (Lexer.skippedFrom_cons (g := [' ']) (Lexer.skippedFrom_cons
      (Lexer.skippedFrom_finish (hnone _)) rfl hbefore hclose) rfl hgap htext) rfl rfl hopen

/-- Neither the brace in the string nor the dollar signs beside the interpolation mislead the
scanner. -/
theorem wrapped_interpolated :
    Token.scan ("`" ++ "$" ++ "$\x7b" ++ wrapped ++ "\x7d" ++ "$\x7d" ++ "`") =
      .ok [⟨.template [.text "$", .code wrapped ⟨1, 5, 4⟩, .text "$\x7d"], ⟨1, 1, 0⟩⟩,
        ⟨.finish, ⟨1, 17, 16⟩⟩] := by
  obtain ⟨htokens, hgaps⟩ := wrapped_read
  have hblank : ∀ g ∈ Lexer.skippedFrom Position.start wrapped.toList, ∀ c ∈ g, Lexer.isGap c := by
    rw [hgaps]
    simp [Lexer.isGap]
  have hfront : ∀ front ∈ wrappedTokens.inits,
      Token.count .closeBrace front ≤ Token.count .openBrace front := by decide
  have hdollar : Lexer.IsTemplateText "$".toList := ⟨by decide, by decide, by decide⟩
  have hbrace : Lexer.IsTemplateText "$\x7d".toList := ⟨by decide, by decide, by decide⟩
  exact (Token.scan_interpolated htokens (by decide) hblank
    (fun front h => hfront front ((List.mem_inits _ _).2 h)) rfl hdollar hbrace).trans rfl

/-! Templates inside templates -/

namespace Lexer

variable {p q : Position} {chunks : List TemplateChunk} {cs rest : List Char} {l : Lexeme}

/-- One token that is a template is interpolable where the texts of the template have no quotes and
braces. -/
theorem scanLexeme_neutral {c : Char} (h : scanLexeme p c cs = .ok (.template chunks, q, rest))
    (htexts : ∀ s, .text s ∈ chunks → ∀ c ∈ s.toList, isNeutral c) :
    ∃ used, c :: cs = used ++ rest ∧ Interpolable used := by
  by_cases hc : c = '`'
  · subst hc
    obtain ⟨used, rfl, hused⟩ := scanTemplate_neutral h rfl htexts
    exact ⟨'`' :: used, rfl, .neutral rfl hused⟩
  · obtain ⟨used, hused, hspelled⟩ := scanLexeme_spelledWith hc h
    refine ⟨used, hused, ?_⟩
    cases hspelled with
    | quotation hquote hbody _ => simpa using Interpolable.quotation hquote hbody .nil
    | neutral hcs _ => exact .of_neutral hcs

/-- The first token of a text, unless the text has none, with what is skipped before it. -/
theorem tokensFrom_head {o : Position} {tokens : List Token}
    (h : tokensFrom o cs = .ok (⟨l, p⟩ :: tokens)) (hl : l ≠ .finish) :
    ∃ g c more r last, cs = g ++ c :: more ∧ skipTrivia .between o cs = .ok (p, c :: more) ∧
      scanLexeme p c more = .ok (l, r, last) ∧ tokensFrom r last = .ok tokens ∧
      skippedFrom o cs = g :: skippedFrom r last := by
  revert h
  fun_cases tokensFrom o cs with
  | case1 | case3 | case4 => intro h; cases h
  | case2 =>
    intro h
    obtain ⟨⟨rfl, -⟩, -⟩ := by simpa using h
    exact absurd rfl hl
  | case5 p₁ c more hskip l' r last hscan tokens' hlast =>
    intro h
    obtain ⟨⟨rfl, rfl⟩, rfl⟩ := by simpa using h
    obtain ⟨g, rfl, -, -, -⟩ := skipTrivia_gap hskip
    exact ⟨g, c, more, r, last, rfl, hskip, hscan, hlast, skippedFrom_cons rfl rfl hskip hscan⟩

theorem skippedFrom_of_finish {p₀ : Position} (h : tokensFrom p₀ cs = .ok [⟨.finish, q⟩]) :
    skippedFrom p₀ cs = [cs] := by
  revert h
  fun_cases tokensFrom p₀ cs with
  | case1 | case3 | case4 => intro h; cases h
  | case2 p₁ hskip => exact fun _ => skippedFrom_finish hskip
  | case5 p₁ c more hskip l r last hscan =>
    intro h
    obtain ⟨⟨rfl, -⟩, -⟩ := by simpa using h
    exact absurd rfl (Grammar.scanLexeme_weight (q := q) hscan).1

/-- What a template takes as the code of its only chunk is interpolable. -/
theorem interpolable_of_tokensFrom {p₀ origin : Position} {code : String} {tokens : List Token}
    (h : tokensFrom p₀ ('`' :: '$' :: '{' :: cs) =
      .ok (⟨.template [.code code origin], p⟩ :: tokens)) : Interpolable code.toList := by
  obtain ⟨_, c, more, r, last, -, hskip, hscan, -, -⟩ := tokensFrom_head h (by simp)
  have hstart : skipTrivia .between p₀ ('`' :: '$' :: '{' :: cs) =
      .ok (p₀, '`' :: '$' :: '{' :: cs) := rfl
  obtain ⟨rfl, rfl, rfl⟩ := by simpa using hstart.symm.trans hskip
  obtain ⟨used, rest, -, hused, hrest⟩ := scanTemplate_code (m := .code _ 0 none) hscan rfl
  obtain ⟨all, ⟨⟩, hall, -⟩ := scanTemplate_keeps hrest
  obtain ⟨rfl, -⟩ := by simpa [flushText] using hall
  simpa using hused.interpolable

end Lexer

/-- A template that is the only token of a text nests, as the only code of another template, exactly
if the text closes its quotations and its braces come in pairs. So it does where its texts have
neither and no comment is skipped around it. -/
theorem Token.template_nests_iff {t : String} {chunks : List TemplateChunk} {p q : Position}
    (ht : Token.scan t = .ok [⟨.template chunks, p⟩, ⟨.finish, q⟩]) :
    (Token.scan ("`$\x7b" ++ t ++ "\x7d`") =
        .ok [⟨.template [.code t (Position.start.after "`$\x7b".toList)], Position.start⟩,
          ⟨.finish, Position.start.after ("`$\x7b" ++ t ++ "\x7d`").toList⟩] ↔
      Lexer.Interpolable t.toList) ∧
    ((∀ s, .text s ∈ chunks → ∀ c ∈ s.toList, Lexer.isNeutral c) →
      (∀ g ∈ Lexer.skippedFrom Position.start t.toList, ∀ c ∈ g, Lexer.isGap c) →
      Lexer.Interpolable t.toList) := by
  have htext : ("`$\x7b" ++ t ++ "\x7d`").toList =
      '`' :: '$' :: '{' :: (t.toList ++ ['}', '`']) := by simp
  refine ⟨⟨fun h => ?_, fun hcode => ?_⟩, fun htexts hgaps => ?_⟩
  · rw [Token.scan, Token.scanAt, htext] at h
    exact Lexer.interpolable_of_tokensFrom h
  · have hnone : Lexer.IsTemplateText [] := ⟨by simp, by simp, by simp⟩
    have hscan := Lexer.scanTemplate_surrounded Position.start hnone hcode hnone
      (Position.start.step '`') []
    have hlexeme : Lexer.scanLexeme Position.start '`'
        ('$' :: '{' :: (t.toList ++ ['}', '`'])) = _ := hscan
    rw [Token.scan, Token.scanAt, htext]
    exact (Lexer.tokensFrom_cons (Lexer.tokensFrom_finish rfl) rfl hlexeme).trans
      (by simp [Lexer.textChunks])
  · obtain ⟨g, c, more, r, last, hchars, -, hscan, hlast, hskipped⟩ :=
      Lexer.tokensFrom_head (o := Position.start) ht (by simp)
    rw [hskipped, Lexer.skippedFrom_of_finish hlast] at hgaps
    have hgap {g' : List Char} (hg : g' ∈ [g, last]) : Lexer.Interpolable g' :=
      .of_neutral fun c hc => Lexer.isNeutral_of_isGap (hgaps g' hg c hc)
    obtain ⟨used, hused, hinter⟩ := Lexer.scanLexeme_neutral hscan htexts
    rw [hchars, hused]
    exact (hgap (by simp)).append (hinter.append (hgap (by simp)))

/-- A brace that opens and is closed in the text of the inner template does no harm. -/
theorem braced_nests :
    Token.scan ("`$\x7b" ++ "`\x7b\x7d`" ++ "\x7d`") =
      .ok [⟨.template [.code "`\x7b\x7d`" ⟨1, 4, 3⟩], ⟨1, 1, 0⟩⟩, ⟨.finish, ⟨1, 10, 9⟩⟩] := by
  have hscan : Token.scan "`\x7b\x7d`" =
      .ok [⟨.template [.text "\x7b\x7d"], ⟨1, 1, 0⟩⟩, ⟨.finish, ⟨1, 5, 4⟩⟩] := by
    have hlexeme : Lexer.scanLexeme ⟨1, 1, 0⟩ '`' ['{', '}', '`'] =
      .ok (.template [.text (String.ofList ['{', '}'])], ⟨1, 5, 4⟩, []) := rfl
    exact Lexer.tokensFrom_cons (Lexer.tokensFrom_finish rfl) rfl hlexeme
  have hcode : Lexer.Interpolable "`\x7b\x7d`".toList :=
    .neutral rfl (.braces .nil (.neutral rfl .nil))
  exact (Token.template_nests_iff hscan).1.2 hcode

/-- A brace that stays open in the text of the inner template takes the brace that should close the
interpolation. -/
theorem open_brace_not_nested :
    Token.scan "`\x7b`" =
        .ok [⟨.template [.text "\x7b"], Position.start⟩, ⟨.finish, ⟨1, 4, 3⟩⟩] ∧
      Token.scan ("`$\x7b" ++ "`\x7b`" ++ "\x7d`") =
        .error (.openInterpolation Position.start) := by
  constructor
  · have hlexeme : Lexer.scanLexeme ⟨1, 1, 0⟩ '`' ['{', '`'] =
      .ok (.template [.text (String.ofList ['{'])], ⟨1, 4, 3⟩, []) := rfl
    exact Lexer.tokensFrom_cons (Lexer.tokensFrom_finish rfl) rfl hlexeme
  · have hlexeme : Lexer.scanLexeme ⟨1, 1, 0⟩ '`' ['$', '{', '`', '{', '`', '}', '`'] =
      .error (.openInterpolation ⟨1, 1, 0⟩) := rfl
    have hskip : Lexer.skipTrivia .between ⟨1, 1, 0⟩ ['`', '$', '{', '`', '{', '`', '}', '`'] =
      .ok (⟨1, 1, 0⟩, ['`', '$', '{', '`', '{', '`', '}', '`']) := rfl
    have herror : Lexer.tokensFrom ⟨1, 1, 0⟩ ['`', '$', '{', '`', '{', '`', '}', '`'] =
        .error (.openInterpolation ⟨1, 1, 0⟩) := by
      rw [Lexer.tokensFrom_eq, hskip]
      simp only [Except.bind, hlexeme]
    exact herror

end ScriptEngine
