import ScriptEngine.Proofs.Token.Spelling

/-!
# The tokens account for the whole text

What stands between tokens are blanks and complete comments. A line comment reaches to the next line
break or to the end of the text, a block comment to the first sign that closes it. What the lexer
skips is such a gap, and the next character after it begins a token.

A text that has tokens is their spellings with gaps before, between and after them. Each spelling
stands where its token says, and read alone it is that one token again.
-/
namespace ScriptEngine
open Text (Position)

namespace Lexer

/-! Gaps -/

/-- A sequence of blanks and complete comments; `last` says that the text ends there, where a line
comment needs no line break. -/
inductive Gap (last : Bool) : List Char → Prop
  | nil : Gap last []
  | blank {c : Char} {g : List Char} (hc : isGap c) (hg : Gap last g) : Gap last (c :: g)
  | line {comment g : List Char} (hcomment : '\n' ∉ comment) (hg : Gap last g) :
      Gap last ('/' :: '/' :: (comment ++ '\n' :: g))
  | lastLine {comment : List Char} (hlast : last = true) (hcomment : '\n' ∉ comment) :
      Gap last ('/' :: '/' :: comment)
  | block {comment g : List Char} (hcomment : ¬ ['*', '/'] <:+: comment) (hg : Gap last g) :
      Gap last ('/' :: '*' :: (comment ++ '*' :: '/' :: g))

/-- What is left of a gap in the middle of skipping it. -/
def Trivia.Left (last : Bool) : Trivia → List Char → Prop
  | .between, g => Gap last g
  | .line, g =>
    (∃ comment rest, '\n' ∉ comment ∧ Gap last rest ∧ g = comment ++ '\n' :: rest) ∨
      last = true ∧ '\n' ∉ g
  | .block _, g =>
    ∃ comment rest, ¬ ['*', '/'] <:+: comment ∧ Gap last rest ∧ g = comment ++ '*' :: '/' :: rest

/-- Neither a blank nor a comment begins here. -/
def StartsToken : List Char → Prop
  | [] => True
  | c :: cs => isGap c = false ∧ (c = '/' → ∀ d ∈ cs.head?, d ≠ '/' ∧ d ≠ '*')

theorem StartsToken.skipTrivia {cs : List Char} (h : StartsToken cs) (p : Position) :
    skipTrivia .between p cs = .ok (p, cs) := by
  unfold Lexer.skipTrivia
  split
  case h_2 => rfl
  case h_3 => exact absurd rfl (h.2 rfl '/' rfl).1
  case h_4 => exact absurd rfl (h.2 rfl '*' rfl).2
  case h_5 => simp [h.1]
  all_goals contradiction

theorem StartsToken.of_append {as bs : List Char} (h : StartsToken (as ++ bs)) :
    StartsToken as := by
  rcases as with _ | ⟨c, as⟩
  · trivial
  · refine ⟨h.1, fun hc d hd => h.2 hc d ?_⟩
    simp [Option.mem_def.1 hd]

/-- What is skipped is a gap, and a token begins after it. -/
theorem skipTrivia_gap {mode : Trivia} {p q : Position} {cs rest : List Char}
    (h : skipTrivia mode p cs = .ok (q, rest)) :
    ∃ g, cs = g ++ rest ∧ q = p.after g ∧ mode.Left rest.isEmpty g ∧ StartsToken rest := by
  fun_induction skipTrivia mode p cs with
  | case1 => cases h
  | case2 mode p hmode =>
    obtain ⟨rfl, rfl⟩ := Prod.mk.inj (Except.ok.inj h)
    refine ⟨[], rfl, rfl, ?_, trivial⟩
    cases mode with
    | between => exact .nil
    | line => exact .inr ⟨rfl, List.not_mem_nil⟩
    | block start => exact (hmode start rfl).elim
  | case3 p cs ih =>
    obtain ⟨g, rfl, rfl, hleft, hstarts⟩ := ih h
    refine ⟨'/' :: '/' :: g, rfl, rfl, ?_, hstarts⟩
    obtain ⟨comment, g, hcomment, hg, rfl⟩ | ⟨hlast, hcomment⟩ := hleft
    · exact .line hcomment hg
    · exact .lastLine hlast hcomment
  | case4 p cs ih =>
    obtain ⟨g, rfl, rfl, ⟨comment, g, hcomment, hg, rfl⟩, hstarts⟩ := ih h
    exact ⟨'/' :: '*' :: (comment ++ '*' :: '/' :: g), rfl, rfl, .block hcomment hg, hstarts⟩
  | case5 p c cs _ _ hgap ih =>
    obtain ⟨g, rfl, rfl, hg, hstarts⟩ := ih h
    exact ⟨c :: g, rfl, rfl, .blank hgap hg, hstarts⟩
  | case6 p c cs hline hblock hgap =>
    obtain ⟨rfl, rfl⟩ := Prod.mk.inj (Except.ok.inj h)
    refine ⟨[], rfl, rfl, .nil, eq_false_of_ne_true hgap, ?_⟩
    rintro rfl d hd
    obtain ⟨cs, rfl⟩ := List.head?_eq_some_iff.1 hd
    constructor <;> rintro rfl
    · exact hline cs rfl rfl
    · exact hblock cs rfl rfl
  | case7 p c cs ih =>
    obtain ⟨g, rfl, rfl, hleft, hstarts⟩ := ih h
    refine ⟨c :: g, rfl, rfl, ?_, hstarts⟩
    by_cases hc : c = '\n'
    · subst hc
      exact .inl ⟨[], g, List.not_mem_nil, hleft, rfl⟩
    · have hnot : (c == '\n') = false := beq_false_of_ne hc
      simp only [hnot] at hleft
      obtain ⟨comment, g, hcomment, hg, rfl⟩ | ⟨hlast, hcomment⟩ := hleft
      · exact .inl ⟨c :: comment, g, by simp [Ne.symm hc, hcomment], hg, rfl⟩
      · exact .inr ⟨hlast, by simp [Ne.symm hc, hcomment]⟩
  | case8 start p cs ih =>
    obtain ⟨g, rfl, rfl, hg, hstarts⟩ := ih h
    exact ⟨'*' :: '/' :: g, rfl, rfl, ⟨[], g, by simp, hg, rfl⟩, hstarts⟩
  | case9 start p c cs hclose ih =>
    obtain ⟨g, rfl, rfl, ⟨comment, g, hcomment, hg, rfl⟩, hstarts⟩ := ih h
    refine ⟨c :: (comment ++ '*' :: '/' :: g), rfl, rfl, ⟨c :: comment, g, ?_, hg, rfl⟩, hstarts⟩
    rw [List.infix_cons_iff]
    rintro (hopens | hinfix)
    · -- The comment would have been closed here.
      obtain ⟨rfl, comment', rfl⟩ := List.cons_prefix_cons.1 hopens
      exact hclose _ rfl rfl
    · exact hcomment hinfix

end Lexer

/-! Tokens -/

theorem Text.Position.after_offset (p : Position) (cs : List Char) :
    (p.after cs).offset = p.offset + cs.length := by
  induction cs generalizing p with
  | nil => rfl
  | cons c cs ih => rw [Position.after_cons, ih, Position.step_offset, List.length_cons]; omega

namespace Lexer

/-- A token with the characters that spell it and the gap before them. -/
structure Piece where
  gap : List Char
  spelling : List Char
  token : Token

/-- The characters that the pieces cover, in order. -/
def Piece.text (pieces : List Piece) : List Char :=
  pieces.flatMap fun x => x.gap ++ x.spelling

@[simp] theorem Piece.text_nil : Piece.text [] = [] := rfl

@[simp] theorem Piece.text_cons (x : Piece) (pieces : List Piece) :
    Piece.text (x :: pieces) = x.gap ++ x.spelling ++ Piece.text pieces := rfl

/-- The spelling has this token, up to positions, and then the finish token. -/
def Piece.ReadsAlone (x : Piece) : Prop :=
  ∃ l finish, Token.scan (String.ofList x.spelling) = .ok [⟨l, Position.start⟩, ⟨.finish, finish⟩] ∧
    l.unplaced = x.token.lexeme.unplaced

/-- One round of the lexer: a gap is skipped, and a token is read unless the text ends there. -/
theorem tokensFrom_eq (p : Position) (cs : List Char) :
    tokensFrom p cs = (skipTrivia .between p cs).bind fun
      | (q, []) => .ok [⟨.finish, q⟩]
      | (q, c :: rest) => (scanLexeme q c rest).bind fun (l, r, more) =>
        (tokensFrom r more).map (⟨l, q⟩ :: ·) := by
  fun_cases tokensFrom p cs with
  | case1 e hskip => rw [hskip]; rfl
  | case2 q hskip => rw [hskip]; rfl
  | case3 q c rest hskip e hscan => simp only [hskip, hscan, Except.bind]
  | case4 q c rest hskip l r more hscan e hmore =>
    simp only [hskip, hscan, hmore, Except.bind, Except.map]
  | case5 q c rest hskip l r more hscan tokens hmore =>
    simp only [hskip, hscan, hmore, Except.bind, Except.map]

theorem tokensFrom_finish {p q : Position} {cs : List Char}
    (hskip : skipTrivia .between p cs = .ok (q, [])) :
    tokensFrom p cs = .ok [⟨.finish, q⟩] := by
  rw [tokensFrom_eq, hskip]
  rfl

theorem tokensFrom_cons {p q r : Position} {c : Char} {cs rest more : List Char} {l : Lexeme}
    {tokens : List Token} (hmore : tokensFrom r more = .ok tokens)
    (hskip : skipTrivia .between p cs = .ok (q, c :: rest))
    (hscan : scanLexeme q c rest = .ok (l, r, more)) :
    tokensFrom p cs = .ok (⟨l, q⟩ :: tokens) := by
  rw [tokensFrom_eq]
  simp only [hskip, hscan, hmore, Except.bind, Except.map]

theorem scan_ofList (cs : List Char) :
    Token.scan (String.ofList cs) = tokensFrom Position.start cs :=
  congrArg (tokensFrom Position.start) String.toList_ofList

/-- What one token takes, with the gap before it, is a piece that reads alone. -/
theorem scanLexeme_piece {p q : Position} {c : Char} {cs rest g : List Char} {l : Lexeme}
    (hstarts : StartsToken (c :: cs)) (hscan : scanLexeme p c cs = .ok (l, q, rest)) :
    ∃ x : Piece, x.gap = g ∧ x.token = ⟨l, p⟩ ∧ c :: cs = x.spelling ++ rest ∧
      q = p.after x.spelling ∧ x.ReadsAlone := by
  obtain ⟨used, rfl, rfl, halone⟩ := scanLexeme_exact hscan
  refine ⟨⟨g, c :: used, ⟨l, p⟩⟩, rfl, rfl, rfl, rfl, ?_⟩
  obtain ⟨l', hl', hscan'⟩ := halone Position.start
  refine ⟨l', Position.start.after (c :: used), ?_, hl'⟩
  have hwhole : StartsToken ((c :: used) ++ rest) := hstarts
  have hskip := hwhole.of_append.skipTrivia Position.start
  exact (scan_ofList _).trans (tokensFrom_cons (tokensFrom_finish rfl) hskip hscan')

/-- The pieces of a text that starts at `p`, with the gap that ends it: each token stands after what
the earlier pieces and its own gap cover. -/
theorem tokensFrom_pieces {p : Position} {cs : List Char} {tokens : List Token}
    (h : tokensFrom p cs = .ok tokens) :
    ∃ (pieces : List Piece) (last : List Char),
      cs = Piece.text pieces ++ last ∧ Gap true last ∧
      tokens = pieces.map Piece.token ++ [⟨.finish, p.after cs⟩] ∧
      (∀ x ∈ pieces, Gap false x.gap ∧ x.ReadsAlone) ∧
      ∀ before x after, pieces = before ++ x :: after →
        x.token.position = p.after (Piece.text before ++ x.gap) := by
  fun_induction tokensFrom p cs generalizing tokens with
  | case1 => cases h
  | case2 p cs q hskip =>
    obtain ⟨g, rfl, rfl, hgap, -⟩ := skipTrivia_gap hskip
    obtain rfl := Except.ok.inj h
    exact ⟨[], g, by simp, hgap, by simp, nofun, by simp⟩
  | case3 => cases h
  | case4 => cases h
  | case5 p cs q c rest hskip l r more hscan tokens htokens ih =>
    obtain rfl := Except.ok.inj h
    obtain ⟨g, rfl, rfl, hgap, hstarts⟩ := skipTrivia_gap hskip
    obtain ⟨x, rfl, hx, hspelling, rfl, halone⟩ := scanLexeme_piece (g := g) hstarts hscan
    obtain ⟨pieces, last, rfl, hlast, rfl, hpieces, hplaces⟩ := ih htokens
    refine ⟨x :: pieces, last, ?_, hlast, ?_, ?_, ?_⟩
    · simp [hspelling]
    · simp [hx, hspelling, Position.after_append]
    · exact List.forall_mem_cons.2 ⟨⟨hgap, halone⟩, hpieces⟩
    · intro before y after hsplit
      obtain ⟨rfl, hhead⟩ | ⟨before, rfl, hafter⟩ := List.cons_eq_append_iff.1 hsplit
      · obtain ⟨rfl, -⟩ := List.cons.inj hhead
        simp [hx]
      · rw [hplaces before y after hafter]
        simp [Position.after_append]

end Lexer

open Lexer (Gap Piece)

/-- The lexer loses nothing. A text that has tokens is gap, spelling, gap, spelling and so on to a
last gap, one spelling for each token but the last. Every spelling stands at its token's offset and
read alone gives that token, up to positions; the finish token stands at the length of the text. -/
theorem Token.scanAt_lossless {origin : Position} {source : String} {tokens : List Token}
    (h : Token.scanAt origin source = .ok tokens) :
    ∃ (pieces : List Piece) (last : List Char) (finish : Position),
      source.toList = Piece.text pieces ++ last ∧ Gap true last ∧
      tokens = pieces.map Piece.token ++ [⟨.finish, finish⟩] ∧ finish.offset = source.length ∧
      (∀ x ∈ pieces, Gap false x.gap ∧ x.ReadsAlone) ∧
      ∀ before x after, pieces = before ++ x :: after →
        x.token.position.offset = (Piece.text before ++ x.gap).length := by
  obtain ⟨pieces, last, htext, hlast, htokens, hpieces, hplaces⟩ := Lexer.tokensFrom_pieces h
  refine ⟨pieces, last, _, htext, hlast, htokens, ?_, hpieces, fun before x after hsplit => ?_⟩
  · rw [Position.after_offset, String.length_toList, Nat.zero_add]
  · rw [hplaces before x after hsplit, Position.after_offset, Nat.zero_add]

/-- A name after a comment, a template with braces in its code, and a point after a number. -/
def crammed : String := "/**/a`${{}}`1. //"

theorem crammed_tokens :
    Token.scan crammed = .ok [⟨.name "a", ⟨1, 5, 4⟩⟩,
      ⟨.template [.code "{}" ⟨1, 9, 8⟩], ⟨1, 6, 5⟩⟩,
      ⟨.number (Number.ofDigits ['1'] []), ⟨1, 13, 12⟩⟩, ⟨.symbol .dot, ⟨1, 14, 13⟩⟩,
      ⟨.finish, ⟨1, 18, 17⟩⟩] := by
  have hscan : Lexer.scanLexeme ⟨1, 6, 5⟩ '`' "${{}}`1. //".toList =
      .ok (.template [.code "{}" ⟨1, 9, 8⟩], ⟨1, 13, 12⟩, "1. //".toList) := by
    simp [Lexer.scanLexeme, Lexer.scanTemplate, Lexer.flushText, Lexer.closeTemplate,
      Position.step]
  have hfinish : Lexer.tokensFrom ⟨1, 15, 14⟩ " //".toList = .ok [⟨.finish, ⟨1, 18, 17⟩⟩] :=
    Lexer.tokensFrom_finish rfl
  have hpoint : Lexer.tokensFrom ⟨1, 14, 13⟩ ". //".toList = _ :=
    Lexer.tokensFrom_cons hfinish rfl rfl
  have hnumber : Lexer.tokensFrom ⟨1, 13, 12⟩ "1. //".toList = _ :=
    Lexer.tokensFrom_cons hpoint rfl rfl
  have htemplate : Lexer.tokensFrom ⟨1, 6, 5⟩ "`${{}}`1. //".toList = _ :=
    Lexer.tokensFrom_cons hnumber rfl hscan
  exact Lexer.tokensFrom_cons htemplate rfl rfl

/-- The comment is the first gap, the second comment the last one, and all that stands between them
is spelling. -/
theorem crammed_pieces : ∃ (pieces : List Piece) (last : List Char),
    crammed.toList = Piece.text pieces ++ last ∧ Gap true last ∧
    pieces.map Piece.token = [⟨.name "a", ⟨1, 5, 4⟩⟩,
      ⟨.template [.code "{}" ⟨1, 9, 8⟩], ⟨1, 6, 5⟩⟩,
      ⟨.number (Number.ofDigits ['1'] []), ⟨1, 13, 12⟩⟩, ⟨.symbol .dot, ⟨1, 14, 13⟩⟩] ∧
    ∀ x ∈ pieces, x.ReadsAlone := by
  obtain ⟨pieces, last, finish, htext, hlast, htokens, -, hpieces, -⟩ :=
    Token.scanAt_lossless crammed_tokens
  refine ⟨pieces, last, htext, hlast, ?_, fun x hx => (hpieces x hx).2⟩
  have hsplit : pieces.map Piece.token ++ [_] = [_, _, _, _] ++ [_] := htokens.symm
  exact (List.append_inj' hsplit rfl).1

end ScriptEngine
