import Mathlib.Data.List.Induction
import ScriptEngine.Proofs.Token.Lines

/-!
# Where tokens stand

The lexer carries a line, a column and an offset along and moves them with every character it reads.
What they come to can be counted in the text before a token. The place of the text itself decides
nothing else: the same characters have the same tokens everywhere.
-/
namespace ScriptEngine
open Text (Position)

namespace Text.Position

/-- The place behind some characters of a text that begins at a line and column, by counting: its
line breaks, the characters of the last line, and all characters. -/
def behind (origin : Position) (cs : List Char) : Position where
  line := origin.line + cs.count '\n'
  column :=
    if '\n' ∈ cs then 1 + (cs.reverse.takeWhile (· != '\n')).length else origin.column + cs.length
  offset := cs.length

theorem behind_append_singleton (origin : Position) (cs : List Char) (c : Char) :
    origin.behind (cs ++ [c]) = (origin.behind cs).step c := by
  unfold step
  split
  next hc =>
    subst hc
    simp [behind, Nat.add_assoc]
  next hc =>
    have hcount : (cs ++ [c]).count '\n' = cs.count '\n' := by
      rw [List.count_append, List.count_singleton, if_neg (by simpa using hc), Nat.add_zero]
    by_cases hcs : '\n' ∈ cs
    · simp [behind, hcount, hcs, hc]
      omega
    · simp [behind, hcount, hcs, Ne.symm hc, Nat.add_assoc]

/-- Moving over the characters one by one leads to the place that counting gives. -/
theorem after_eq_behind (origin : Position) (cs : List Char) :
    ({ origin with offset := 0 } : Position).after cs = origin.behind cs := by
  induction cs using List.reverseRecOn with
  | nil => rfl
  | append_singleton cs c ih =>
    rw [after_append, ih, behind_append_singleton]
    rfl

end Text.Position

namespace Lexer

/-! The same characters at another place -/

/-- The mode with its comment begun at another place. -/
def Trivia.placed (start : Position) : Trivia → Trivia
  | .block _ => .block start
  | mode => mode

theorem skipTrivia_moved {mode : Trivia} {p q : Position} {cs rest : List Char}
    (h : skipTrivia mode p cs = .ok (q, rest)) (start' p' : Position) :
    ∃ q', skipTrivia (mode.placed start') p' cs = .ok (q', rest) := by
  fun_induction skipTrivia mode p cs generalizing start' p' with
  | case1 => cases h
  | case2 mode p hmode =>
    obtain ⟨rfl, rfl⟩ := Prod.mk.inj (Except.ok.inj h)
    cases mode with
    | between | line => exact ⟨p', rfl⟩
    | block start => exact (hmode start rfl).elim
  | case3 p cs ih => exact ih h start' _
  | case4 p cs ih => exact ih h p' _
  | case5 p c cs hline hblock hgap ih =>
    obtain ⟨q', hq'⟩ := ih h start' (p'.step c)
    refine ⟨q', ?_⟩
    rw [Trivia.placed, skipTrivia, if_pos hgap]
    · exact hq'
    · exact hline
    · exact hblock
    · rintro _ ⟨⟩
  | case6 p c cs hline hblock hgap =>
    obtain ⟨rfl, rfl⟩ := Prod.mk.inj (Except.ok.inj h)
    refine ⟨p', ?_⟩
    rw [Trivia.placed, skipTrivia, if_neg hgap]
    · exact hline
    · exact hblock
    · rintro _ ⟨⟩
  | case7 p c cs ih =>
    obtain ⟨q', hq'⟩ := ih h start' (p'.step c)
    have hmode (b : Bool) : (if b then Trivia.between else Trivia.line).placed start' =
        if b then Trivia.between else Trivia.line := by
      cases b <;> rfl
    rw [hmode] at hq'
    exact ⟨q', hq'⟩
  | case8 start p cs ih => exact ih h start' _
  | case9 start p c cs hclose ih =>
    obtain ⟨q', hq'⟩ := ih h start' (p'.step c)
    refine ⟨q', ?_⟩
    rw [Trivia.placed, skipTrivia]
    · exact hq'
    · exact hclose

theorem scanNumber_moved (p p' : Position) (cs : List Char) :
    (scanNumber p' cs).1 = (scanNumber p cs).1 ∧
      (scanNumber p' cs).2.2 = (scanNumber p cs).2.2 := by
  unfold scanNumber
  dsimp only
  split
  · split <;> exact ⟨rfl, rfl⟩
  · exact ⟨rfl, rfl⟩

/-- Which symbol is found does not depend on the place. -/
theorem scanSymbol?_eq (p : Position) (cs : List Char) :
    scanSymbol? p cs =
      (Symbol.longestFirst.findSome? fun s =>
        (afterLead? s.spelling.toList cs).map fun rest => (s, rest)).map
        fun found => (.symbol found.1, p.after found.1.spelling.toList, found.2) := by
  rw [List.map_findSome?]
  refine congrArg (List.findSome? · _) (funext fun s => ?_)
  rw [Function.comp_apply, Option.map_map]
  rfl

/-- The same characters give the same lexeme at another place, up to where its code stands. -/
theorem scanLexeme_moved {p q : Position} {c : Char} {cs rest : List Char} {l : Lexeme}
    (h : scanLexeme p c cs = .ok (l, q, rest)) (p' : Position) :
    ∃ l' q', scanLexeme p' c cs = .ok (l', q', rest) ∧ l'.unplaced = l.unplaced := by
  unfold scanLexeme at h ⊢
  split at h
  case isTrue hquote =>
    obtain ⟨used, rfl, -, halone⟩ := scanText_exact h
    rw [if_pos hquote]
    exact ⟨l, _, scanText_append (halone p' (p'.step c)) rest, rfl⟩
  case isFalse hquote =>
  split at h
  case isTrue htick =>
    obtain ⟨used, rfl, -, halone⟩ := scanTemplate_exact h
    obtain ⟨l', hl', hscan⟩ := halone p' p' [] (p'.step c) rfl
    rw [if_neg hquote, if_pos htick]
    exact ⟨l', _, scanTemplate_append hscan rest, hl'⟩
  case isFalse htick =>
  split at h
  case isTrue hdigit =>
    obtain ⟨hl, hrest⟩ := scanNumber_moved p p' (c :: cs)
    rw [Except.ok.inj h] at hl hrest
    rw [if_neg hquote, if_neg htick, if_pos hdigit]
    exact ⟨l, (scanNumber p' (c :: cs)).2.1, congrArg Except.ok (Prod.ext hl (Prod.ext rfl hrest)),
      rfl⟩
  case isFalse hdigit =>
  split at h
  case isTrue hname =>
    obtain ⟨rfl, -, rfl⟩ := by simpa [scanName] using h
    rw [if_neg hquote, if_neg htick, if_neg hdigit, if_pos hname]
    exact ⟨_, _, rfl, rfl⟩
  case isFalse hname =>
  split at h
  case h_1 scanned hsymbol =>
    obtain rfl := Except.ok.inj h
    rw [scanSymbol?_eq] at hsymbol
    obtain ⟨found, hfound, heq⟩ := Option.map_eq_some_iff.1 hsymbol
    obtain ⟨rfl, -, rfl⟩ := by simpa using heq
    rw [if_neg hquote, if_neg htick, if_neg hdigit, if_neg hname, scanSymbol?_eq, hfound]
    exact ⟨_, _, rfl, rfl⟩
  case h_2 => cases h

/-- The same characters have the same tokens at another place, up to positions. -/
theorem tokensFrom_moved {p : Position} {cs : List Char} {tokens : List Token}
    (h : tokensFrom p cs = .ok tokens) (p' : Position) :
    ∃ tokens', tokensFrom p' cs = .ok tokens' ∧
      tokens'.map (fun t => t.lexeme.unplaced) = tokens.map fun t => t.lexeme.unplaced := by
  fun_induction tokensFrom p cs generalizing tokens p' with
  | case1 | case3 | case4 => cases h
  | case2 p cs q hskip =>
    obtain rfl := Except.ok.inj h
    obtain ⟨q', hq'⟩ := skipTrivia_moved hskip p' p'
    exact ⟨_, tokensFrom_finish hq', rfl⟩
  | case5 p cs q c rest hskip l r more hscan tokens htokens ih =>
    obtain rfl := Except.ok.inj h
    obtain ⟨q', hq'⟩ := skipTrivia_moved hskip p' p'
    obtain ⟨l', r', hl', hsame⟩ := scanLexeme_moved hscan q'
    obtain ⟨tokens', htokens', hmap⟩ := ih htokens r'
    refine ⟨_, tokensFrom_cons htokens' hq' hl', ?_⟩
    rw [List.map_cons, List.map_cons, hmap, hsame]

/-! Offsets -/

/-- A spelling that reads alone is not empty. -/
theorem Piece.ReadsAlone.spelling_ne_nil {x : Piece} (h : x.ReadsAlone) : x.spelling ≠ [] := by
  intro hnil
  obtain ⟨l, finish, hscan, -⟩ := h
  rw [hnil, scan_ofList, tokensFrom_finish rfl] at hscan
  cases hscan

/-- Tokens that stand behind what earlier pieces cover have ascending offsets. -/
theorem offsets_ascend {pieces : List Piece} {finish : Token} {n : Nat}
    (hpieces : ∀ x ∈ pieces, x.ReadsAlone)
    (hfinish : n + (Piece.text pieces).length ≤ finish.position.offset)
    (hplaces : ∀ before x after, pieces = before ++ x :: after →
      x.token.position.offset = n + (Piece.text before ++ x.gap).length) :
    (pieces.map Piece.token ++ [finish]).Pairwise fun a b =>
      a.position.offset < b.position.offset := by
  induction pieces generalizing n with
  | nil => exact List.pairwise_singleton _ _
  | cons x pieces ih =>
    obtain ⟨hx, hpieces⟩ := List.forall_mem_cons.1 hpieces
    have hfirst := hplaces [] x pieces rfl
    have hspelling := List.length_pos_iff.2 hx.spelling_ne_nil
    have hlater : ∀ before y after, pieces = before ++ y :: after →
        y.token.position.offset =
          n + (x.gap ++ x.spelling).length + (Piece.text before ++ y.gap).length := by
      rintro before y after rfl
      rw [hplaces (x :: before) y after rfl]
      simp [Nat.add_assoc]
    rw [Piece.text_cons, List.length_append] at hfinish
    simp only [Piece.text_nil, List.nil_append] at hfirst
    rw [List.map_cons, List.cons_append, List.pairwise_cons]
    refine ⟨?_, ih hpieces (n := n + (x.gap ++ x.spelling).length) (by omega) hlater⟩
    intro t ht
    rw [List.length_append] at *
    obtain ht | ht := List.mem_append.1 ht
    · obtain ⟨y, hy, rfl⟩ := List.mem_map.1 ht
      obtain ⟨before, after, rfl⟩ := List.append_of_mem hy
      have hoffset := hlater before y after rfl
      rw [List.length_append] at hoffset
      omega
    · obtain rfl := List.mem_singleton.1 ht
      omega

end Lexer

open Lexer (Gap Piece)

/-- Tokens stand where they say. The line, column and offset of each are those that counting gives
for the text before its spelling, those of the finish token count the whole text, and offsets
ascend. At every other origin the text has the same tokens up to positions. -/
theorem Token.scanAt_places {origin : Position} {source : String} {tokens : List Token}
    (h : Token.scanAt origin source = .ok tokens) :
    (∃ (pieces : List Piece) (last : List Char),
      source.toList = Piece.text pieces ++ last ∧ Gap true last ∧
      (∀ x ∈ pieces, Gap false x.gap ∧ x.ReadsAlone) ∧
      tokens = pieces.map Piece.token ++ [⟨.finish, origin.behind source.toList⟩] ∧
      ∀ before x after, pieces = before ++ x :: after →
        x.token.position = origin.behind (Piece.text before ++ x.gap)) ∧
    (tokens.Pairwise fun a b => a.position.offset < b.position.offset) ∧
    ∀ origin', ∃ tokens', Token.scanAt origin' source = .ok tokens' ∧
      tokens'.map (fun t => t.lexeme.unplaced) = tokens.map fun t => t.lexeme.unplaced := by
  obtain ⟨pieces, last, htext, hlast, htokens, hpieces, hplaces⟩ := Lexer.tokensFrom_pieces h
  simp only [Position.after_eq_behind] at htokens hplaces
  refine ⟨⟨pieces, last, htext, hlast, hpieces, htokens, hplaces⟩, ?_,
    fun origin' => Lexer.tokensFrom_moved h _⟩
  rw [htokens]
  refine Lexer.offsets_ascend (n := 0) (fun x hx => (hpieces x hx).2) ?_
    fun before x after hsplit => ?_
  · have hoffset : (origin.behind source.toList).offset = (Piece.text pieces ++ last).length :=
      congrArg List.length htext
    rw [hoffset, List.length_append]
    omega
  · rw [hplaces before x after hsplit, Position.behind, Nat.zero_add]

/-- Two names on two lines of a text that begins in the middle of a line. -/
def twoLines : String := " a\n\tb"

theorem twoLines_tokens : Token.scanAt ⟨4, 7, 30⟩ twoLines =
    .ok [⟨.name "a", ⟨4, 8, 1⟩⟩, ⟨.name "b", ⟨5, 2, 4⟩⟩, ⟨.finish, ⟨5, 3, 5⟩⟩] := by
  have hfinish : Lexer.tokensFrom ⟨5, 3, 5⟩ [] = .ok [⟨.finish, ⟨5, 3, 5⟩⟩] :=
    Lexer.tokensFrom_finish rfl
  have hsecond : Lexer.tokensFrom ⟨4, 9, 2⟩ "\n\tb".toList = _ :=
    Lexer.tokensFrom_cons hfinish rfl rfl
  exact Lexer.tokensFrom_cons hsecond rfl rfl

theorem twoLines_places :
    (∃ pieces : List Piece,
      pieces.map Piece.token = [⟨.name "a", ⟨4, 8, 1⟩⟩, ⟨.name "b", ⟨5, 2, 4⟩⟩] ∧
      ∀ before x after, pieces = before ++ x :: after →
        x.token.position = Position.behind ⟨4, 7, 30⟩ (Piece.text before ++ x.gap)) ∧
    ∃ tokens, Token.scan twoLines = .ok tokens ∧
      tokens.map (fun t => t.lexeme.unplaced) = [.name "a", .name "b", .finish] := by
  obtain ⟨⟨pieces, last, -, -, -, htokens, hplaces⟩, -, hmoved⟩ :=
    Token.scanAt_places twoLines_tokens
  refine ⟨⟨pieces, ?_, hplaces⟩, hmoved Position.start⟩
  have hsplit : pieces.map Piece.token ++ [_] = [_, _] ++ [_] := htokens.symm
  exact (List.append_inj' hsplit rfl).1

end ScriptEngine
