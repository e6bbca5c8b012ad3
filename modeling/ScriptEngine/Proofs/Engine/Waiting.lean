import ScriptEngine.Proofs.Engine.Buffering
import ScriptEngine.Proofs.Grammar.CompletedStatement

/-!
# What a session waits for

The text that a session waits to go on can be completed, unless the code of an interpolation in it
breaks off or something is assigned to that cannot be.
-/
namespace ScriptEngine
open Text (Position)

namespace Lexer

/-- Words with a blank after each of them. -/
theorem exists_tokens_of_words (words : List Word) (p : Position) :
    ∃ cs tokens finish, tokensFrom p cs = .ok (tokens ++ [finish]) ∧
      tokens.map Token.lexeme = words.map Word.lexeme ∧ finish.lexeme = .finish := by
  obtain ⟨x, hx⟩ : ∃ x : Writing, x.lexemes = words.map Word.lexeme := by
    induction words with
    | nil => exact ⟨.nothing, rfl⟩
    | cons w words ih =>
      obtain ⟨x, hx⟩ := ih
      let gap : Separator := ⟨[' '], ⟨' ', [], rfl, rfl⟩, .blank rfl .nil⟩
      exact ⟨.next w gap x, congrArg (w.lexeme :: ·) hx⟩
  obtain ⟨all, hall, hlexemes⟩ := x.tokensFrom p
  obtain ⟨tokens, last, rfl, htokens, hlast⟩ := List.map_eq_append_iff.1 hlexemes
  obtain ⟨finish, rest, rfl, hfinish, hrest⟩ := List.map_eq_cons_iff.1 hlast
  obtain rfl := List.map_eq_nil_iff.1 hrest
  exact ⟨x.chars, tokens, finish, hall, htokens.trans hx, hfinish⟩

end Lexer

namespace Grammar
open Lexer (WholeLines)

/-- A text that ends where more is expected. -/
inductive Unfinished (front : String) : Prop
  /-- It begins a program. -/
  | completed {more : String} {program : Program} (h : parse (front ++ more) = .ok program)
  /-- The code of an interpolation in it breaks off, and it begins no program. -/
  | broken {tokens : List Token} {t : Token} (hscan : Token.scan front = .ok tokens)
    (ht : t ∈ tokens) (hbreaks : BreaksOff t)
    (hnone : ∀ more program, parse (front ++ more) ≠ .ok program)
  /-- Something in it is assigned to that cannot be. It begins a program only where what follows
  shows that a parenthesis before opens the parameters of an arrow function. -/
  | misassigned {tokens : List Token} {finish : Token}
    (hscan : Token.scan front = .ok (tokens ++ [finish])) (h : Misassigns tokens)
    (harrow : ∀ more program, parse (front ++ more) = .ok program →
      ∃ before t back rest, tokens = before ++ t :: back ∧ t.lexeme = .symbol .openParen ∧
        Token.scan (front ++ more) = .ok (tokens ++ rest) ∧
        arrowAhead 1 (back ++ [finish]) = false ∧ arrowAhead 1 (back ++ rest) = true)

section

variable {front : String} (hlines : WholeLines front.toList) {init : List Token} {finish : Token}
  (hscan : Token.scan front = .ok (init ++ [finish]))
include hlines hscan

/-- Words that complete the tokens of a text complete the text. -/
theorem exists_parse_of_words {fill : List Lexer.Word}
    (hfill : ∀ back t, back.map Token.lexeme = fill.map Lexer.Word.lexeme → t.lexeme = .finish →
      ∃ program, parseTokens (init ++ back ++ [t]) = .ok program) :
    ∃ more program, parse (front ++ more) = .ok program := by
  obtain ⟨init', finish', hsplit, hmore⟩ := Lexer.tokensFrom_append hscan hlines
  obtain ⟨rfl, hlast⟩ := List.append_inj' hsplit rfl
  obtain rfl := List.head_eq_of_cons_eq hlast
  obtain ⟨cs, back, t, hcs, hback, ht⟩ := Lexer.exists_tokens_of_words fill finish.position
  obtain ⟨program, hprogram⟩ := hfill back t hback ht
  have hwhole : Token.scan (front ++ String.ofList cs) = .ok (init ++ back ++ [t]) := by
    have happend := hmore cs
    rw [hcs] at happend
    rw [List.append_assoc]
    rw [← String.toList_ofList (l := cs), ← String.toList_append] at happend
    exact happend
  refine ⟨String.ofList cs, program, ?_⟩
  rw [parse, hwhole]
  exact hprogram

/-- The tokens of a program that begins with the text. -/
theorem scan_of_begins {more : String} {program : Program}
    (h : parse (front ++ more) = .ok program) :
    ∃ rest tokens last, Token.scan (front ++ more) = .ok (init ++ rest) ∧
      init ++ rest = tokens ++ [last] ∧ Cut tokens last [last] ∧
      parseTokens (tokens ++ [last]) = .ok program := by
  obtain ⟨all, hall, hprogram⟩ := scan_of_parse h
  obtain ⟨tokens, last, rfl, hplain, hlast, -⟩ := tokensFrom_weight hall
  obtain ⟨e, he, -⟩ | ⟨init', finish', rest, hfront, hsplit, -⟩ := scan_front hlines hall
  · cases hscan.symm.trans he
  · obtain ⟨rfl, -⟩ := List.append_inj' (Except.ok.inj (hscan.symm.trans hfront)) rfl
    exact ⟨rest, tokens, last, hall.trans (by rw [hsplit]), hsplit.symm, .self hplain hlast,
      hprogram⟩

theorem parse_of_breaksOff {t : Token} (ht : t ∈ init) (hbreaks : BreaksOff t) (more : String)
    (program : Program) : parse (front ++ more) ≠ .ok program := by
  intro h
  obtain ⟨rest, tokens, last, -, hsplit, hcut, hprogram⟩ := scan_of_begins hlines hscan h
  have hmem : t ∈ tokens ++ [last] := hsplit ▸ List.mem_append_left rest ht
  obtain hmem | hlast := List.mem_append.1 hmem
  · exact sound_of_parseTokens hcut hprogram t hmem hbreaks
  · obtain rfl := List.mem_singleton.1 hlast
    obtain ⟨chunks, _, _, _, _, _, hchunks, _⟩ := hbreaks
    have hfinish := isFinish_iff.1 hcut.ends
    rw [hchunks] at hfinish
    cases hfinish

/-- Tokens that nothing makes up for unless it shows that they are parameters. -/
theorem arrow_of_stuck (hplain : ∀ t ∈ init, Lexeme.isFinish t.lexeme = false)
    (hfinish : Lexeme.isFinish finish.lexeme = true)
    (hstuck : Stuck (fun m => statements (below m)) init finish) {more : String}
    {program : Program} (h : parse (front ++ more) = .ok program) :
    ∃ before t back rest, init = before ++ t :: back ∧ t.lexeme = .symbol .openParen ∧
      Token.scan (front ++ more) = .ok (init ++ rest) ∧
      arrowAhead 1 (back ++ [finish]) = false ∧ arrowAhead 1 (back ++ rest) = true := by
  obtain ⟨rest, tokens, last, hwhole, hsplit, hcut, hprogram⟩ := scan_of_begins hlines hscan h
  obtain hrest | ⟨before, t, back, hinit, ht, hahead, hahead'⟩ := cut_or_arrow hplain hfinish rest
  · have hfails := hstuck.fails rest hrest
    rw [hsplit] at hfails
    exact absurd hprogram (parseTokens_of_fails hcut.ends hfails program)
  · exact ⟨before, t, back, rest, hinit, ht, hwhole, hahead, hahead'⟩

end

/-- Lines that end where more is expected. -/
theorem unfinished_of_parse {front : String} (hlines : WholeLines front.toList) {expected : String}
    {p : Position} (h : parse front = .error (.unexpectedEnd expected p)) : Unfinished front := by
  unfold parse at h
  cases hscan : Token.scan front with
  | error e =>
    rw [hscan] at h
    cases h
  | ok tokens =>
    rw [hscan] at h
    obtain ⟨init, finish, rfl, hplain, hfinish, -⟩ := tokensFrom_weight hscan
    obtain ⟨fill, hfill⟩ | hstuck := parseTokens_completable (.self hplain hfinish) h
    · obtain ⟨more, program, hmore⟩ := exists_parse_of_words hlines hscan hfill
      exact .completed hmore
    obtain ⟨t, ht, hbreaks⟩ | hmisassigns := hstuck.flawed
    · exact .broken hscan (List.mem_append_left _ ht) hbreaks
        (parse_of_breaksOff hlines hscan ht hbreaks)
    · exact .misassigned hscan hmisassigns fun more program =>
        arrow_of_stuck hlines hscan hplain hfinish hstuck

end Grammar

namespace Repl
open Grammar (parse Unfinished)
open Lexer (tokensFrom)

theorem parse_of_incomplete {r next : Repl} {line : String} (h : r.read line = .incomplete next) :
    ∃ expected p, parse next.pending = .error (.unexpectedEnd expected p) := by
  rw [pending_of_incomplete h]
  simp only [read] at h
  split at h
  · cases h
  split at h
  · cases h
  split at h
  · cases h
  next e he =>
    split at h
    · exact ⟨_, _, he⟩
    · cases h

/-- A session that waits for more has read lines that begin a program, or lines in which the code of
an interpolation breaks off, or in which something is assigned to that cannot be. -/
theorem waits_for_unfinished {r next : Repl} {line : String}
    (h : r.read line = .incomplete next) : Unfinished next.pending := by
  obtain ⟨expected, p, hparse⟩ := parse_of_incomplete h
  refine Grammar.unfinished_of_parse ?_ hparse
  rw [pending_of_incomplete h, String.toList_append]
  intro c hc
  simpa using hc.symm

theorem block_waits :
    ∃ next, empty.read "\x7b" = .incomplete next ∧ Unfinished next.pending := by
  have hread : empty.read "\x7b" = .incomplete ⟨joined ["\x7b"]⟩ :=
    read_of_end (fun _ => ⟨by decide, by decide⟩) parse_openBlock
  exact ⟨_, hread, waits_for_unfinished hread⟩

/-! The template is closed, and what breaks off is the code inside it. -/

theorem scan_brokenTemplate : Token.scan (joined ["`$\x7b1 +\x7d`"]) =
    .ok [⟨.template [.code "1 +" ⟨1, 4, 3⟩], ⟨1, 1, 0⟩⟩, ⟨.finish, ⟨2, 1, 9⟩⟩] := by
  have hend : tokensFrom ⟨1, 9, 8⟩ "\n".toList = .ok [⟨.finish, ⟨2, 1, 9⟩⟩] :=
    Lexer.tokensFrom_finish rfl
  have hscan : Lexer.scanLexeme ⟨1, 1, 0⟩ '`' "$\x7b1 +\x7d`\n".toList =
      .ok (.template [.code "1 +" ⟨1, 4, 3⟩], ⟨1, 9, 8⟩, "\n".toList) := by
    simp [Lexer.scanLexeme, Lexer.scanTemplate, Lexer.closeTemplate, Lexer.flushText,
      Position.step]
  exact Lexer.tokensFrom_cons hend rfl hscan

theorem scan_sum : Token.scanAt ⟨1, 4, 3⟩ "1 +" = .ok
    [⟨.number (Number.ofDigits ['1'] []), ⟨1, 4, 0⟩⟩, ⟨.symbol .plus, ⟨1, 6, 2⟩⟩,
     ⟨.finish, ⟨1, 7, 3⟩⟩] := by
  have hend : tokensFrom ⟨1, 7, 3⟩ [] = .ok [⟨.finish, ⟨1, 7, 3⟩⟩] := Lexer.tokensFrom_finish rfl
  have hplus : tokensFrom ⟨1, 5, 1⟩ " +".toList =
      .ok [⟨.symbol .plus, ⟨1, 6, 2⟩⟩, ⟨.finish, ⟨1, 7, 3⟩⟩] := Lexer.tokensFrom_cons hend rfl rfl
  have hscan : Lexer.scanLexeme ⟨1, 4, 0⟩ '1' " +".toList =
      .ok (.number (Number.ofDigits ['1'] []), ⟨1, 5, 1⟩, " +".toList) := by
    simp [Lexer.scanLexeme, Lexer.scanNumber, Position.after, Position.step]
  exact Lexer.tokensFrom_cons hplus rfl hscan

theorem parse_brokenTemplate : parse (joined ["`$\x7b1 +\x7d`"]) =
    .error (.unexpectedEnd "expression" ⟨1, 7, 3⟩) := by
  have hprimary (n : Nat) : (Grammar.primary (Grammar.below (n + 2))).run
      [⟨.template [.code "1 +" ⟨1, 4, 3⟩], ⟨1, 1, 0⟩⟩, ⟨.finish, ⟨2, 1, 9⟩⟩] =
        .error (.unexpectedEnd "expression" ⟨1, 7, 3⟩) := by
    rw [Grammar.primary, Grammar.run_bind_of Grammar.peek_run]
    dsimp only
    rw [Grammar.run_bind_of (Grammar.advance_run (by simp)), Grammar.templateParts, scan_sum]
    rfl
  rw [parse, scan_brokenTemplate]
  exact congrArg (Except.map Prod.fst)
    (Grammar.statements_run_error rfl (Grammar.statement_run_error rfl rfl (hprimary _)))

/-- The session waits for more, but nothing makes it a program. -/
theorem brokenTemplate_waits :
    empty.read "`$\x7b1 +\x7d`" = .incomplete ⟨joined ["`$\x7b1 +\x7d`"]⟩ ∧
      ∀ more program, parse (joined ["`$\x7b1 +\x7d`"] ++ more) ≠ .ok program := by
  have hbreaks : Grammar.BreaksOff ⟨.template [.code "1 +" ⟨1, 4, 3⟩], ⟨1, 1, 0⟩⟩ :=
    ⟨_, _, _, _, _, _, rfl, List.mem_singleton_self _, scan_sum, rfl⟩
  refine ⟨read_of_end (fun _ => ⟨by decide, by decide⟩) parse_brokenTemplate, ?_⟩
  exact Grammar.parse_of_breaksOff (wholeLines_joined _) scan_brokenTemplate
    (List.mem_singleton_self _) hbreaks

end Repl

end ScriptEngine
