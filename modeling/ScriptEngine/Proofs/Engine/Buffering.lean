import ScriptEngine.Engine.Repl
import ScriptEngine.Proofs.Grammar.Prefix
import ScriptEngine.Proofs.Grammar.Reading

/-!
# Which lines a session collects

Lines that begin a program are collected until the program is complete, unless they are mistaken for
lines that begin none.
-/
namespace ScriptEngine
open Text (Position)
open Grammar (parse parseTokens Mistaken)
open Lexer (WholeLines tokensFrom)

/-! The first line -/

/-- What trimming leaves stands between blanks. -/
theorem Text.exists_of_trim (cs : List Char) :
    ∃ before after, cs = before ++ (Text.trim cs ++ after) ∧
      (∀ c ∈ before, Text.isBlank c = true) ∧ ∀ c ∈ after, Text.isBlank c = true := by
  have hend (cs : List Char) :
      cs = Text.trimEnd cs ++ (cs.reverse.takeWhile Text.isBlank).reverse := by
    rw [Text.trimEnd, ← List.reverse_append, List.takeWhile_append_dropWhile, List.reverse_reverse]
  refine ⟨cs.takeWhile Text.isBlank, ((Text.trimStart cs).reverse.takeWhile Text.isBlank).reverse,
    ?_, fun c => List.mem_takeWhile_imp, ?_⟩
  · rw [Text.trim, ← hend, Text.trimStart, List.takeWhile_append_dropWhile]
  · intro c hc
    exact List.mem_takeWhile_imp (List.mem_reverse.1 hc)

namespace Grammar

/-- A statement that is an expression fails where its first operand does. -/
theorem statement_run_error {d : Deeper} {t : Token} {more : List Token} {e : ParseError}
    (hstatement : (statement d).run (t :: more) =
      (do return Stmt.expression (← closedExpression d) t.position).run (t :: more))
    (hunary : (unary d).run (t :: more) = (access d).run (t :: more))
    (h : (primary d).run (t :: more) = .error e) : (statement d).run (t :: more) = .error e :=
  hstatement.trans (run_bind_error (closedExpression_error (hunary.trans (run_bind_error h))))

theorem statements_run_error {n : Nat} {t : Token} {more : List Token} {e : ParseError}
    (ht : Lexeme.isFinish t.lexeme = false)
    (h : (statement ⟨n, parseWithin n⟩).run (t :: more) = .error e) :
    (statements ⟨n + 1, parseWithin (n + 1)⟩).run (t :: more) = .error e := by
  have hmore : (return !(← atEnd) : Parser Bool).run (t :: more) = .ok (true, t :: more) := by
    have hend : atEnd.run (t :: more) = .ok (false, t :: more) := by rw [← ht]; rfl
    rw [run_bind_of hend]
    rfl
  rw [statements, items, run_bind_of hmore, if_pos rfl]
  exact run_bind_error (run_bind_error h)

/-- No program begins with a dot. -/
theorem parseTokens_dot {p : Position} {tokens : List Token} (program : Program) :
    parseTokens (⟨.symbol .dot, p⟩ :: tokens) ≠ .ok program := by
  obtain ⟨more, hfinished⟩ : ∃ more,
      finished (⟨.symbol .dot, p⟩ :: tokens) = ⟨.symbol .dot, p⟩ :: more := by
    unfold finished
    split
    next => exact ⟨[], by simp_all⟩
    next =>
      split
      · exact ⟨tokens, rfl⟩
      · exact ⟨_, List.cons_append⟩
  have hrun (n : Nat) : (statements ⟨n + 1, parseWithin (n + 1)⟩).run
      (⟨.symbol .dot, p⟩ :: more) = .error (.unexpectedToken "expression" (.symbol .dot) p) :=
    statements_run_error rfl (statement_run_error rfl rfl rfl)
  intro h
  unfold parseTokens at h
  rw [hfinished, depthBound_eq] at h
  dsimp only at h
  rw [hrun] at h
  cases h

theorem scan_of_parse {source : String} {program : Program} (h : parse source = .ok program) :
    ∃ tokens, tokensFrom Position.start source.toList = .ok tokens ∧
      parseTokens tokens = .ok program := by
  unfold parse at h
  cases hscan : Token.scan source with
  | error e =>
    rw [hscan] at h
    cases h
  | ok tokens =>
    rw [hscan] at h
    exact ⟨tokens, hscan, h⟩

/-- The command that ends a session begins no program. -/
theorem parse_quit {line more : String} (h : Text.trim line.toList = ".quit".toList)
    (program : Program) : parse (line ++ more) ≠ .ok program := by
  intro hparse
  obtain ⟨tokens, hscan, hprogram⟩ := scan_of_parse hparse
  obtain ⟨before, after, hline, hbefore, -⟩ := Text.exists_of_trim line.toList
  rw [h] at hline
  obtain hgaps | hnone := Lexer.tokensFrom_blanks hbefore
  · rw [String.toList_append, hline, List.append_assoc, Lexer.tokensFrom_gaps hgaps] at hscan
    have hdot (cs : List Char) (p : Position) :
        tokensFrom p ('.' :: 'q' :: cs) =
          (tokensFrom (p.step '.') ('q' :: cs)).map (⟨.symbol .dot, p⟩ :: ·) := by
      have hstarts : Lexer.StartsToken ('.' :: 'q' :: cs) :=
        ⟨rfl, fun hc => absurd hc (by decide)⟩
      have hlexeme : Lexer.scanLexeme p '.' ('q' :: cs) =
          .ok (.symbol .dot, p.step '.', 'q' :: cs) := rfl
      rw [Lexer.tokensFrom_eq, hstarts.skipTrivia]
      simp only [Except.bind, hlexeme]
    replace hscan := (hdot ('u' :: 'i' :: 't' :: (after ++ more.toList)) _).symm.trans hscan
    cases hrest : tokensFrom ((Position.start.after before).step '.')
        ('q' :: 'u' :: 'i' :: 't' :: (after ++ more.toList)) with
    | error e =>
      rw [hrest] at hscan
      cases hscan
    | ok rest =>
      rw [hrest] at hscan
      obtain rfl := Except.ok.inj hscan
      exact parseTokens_dot program hprogram
  · rw [String.toList_append, hline, List.append_assoc] at hscan
    exact hnone _ _ _ hscan

/-- A blank line that begins a program is a program. -/
theorem parse_blank {line more : String} (h : Text.trim line.toList = []) {program : Program}
    (hparse : parse (line ++ more) = .ok program) : parse (line ++ "\n") = .ok [] := by
  obtain ⟨tokens, hscan, -⟩ := scan_of_parse hparse
  obtain ⟨before, after, hline, hbefore, hafter⟩ := Text.exists_of_trim line.toList
  rw [h, List.nil_append] at hline
  have hblank : ∀ c ∈ line.toList, Text.isBlank c = true := by
    rw [hline]
    exact fun c hc => (List.mem_append.1 hc).elim (hbefore c) (hafter c)
  obtain hgaps | hnone := Lexer.tokensFrom_blanks hblank
  · have hfinish : tokensFrom Position.start (line ++ "\n").toList =
        .ok [⟨.finish, Position.start.after (line.toList ++ ['\n'])⟩] := by
      have hlast : ∀ c ∈ line.toList ++ ['\n'], Lexer.isGap c :=
        List.forall_mem_append.2 ⟨hgaps, by simp [Lexer.isGap]⟩
      rw [String.toList_append, ← List.append_nil (line.toList ++ _)]
      exact (Lexer.tokensFrom_gaps hlast _ []).trans (Lexer.tokensFrom_finish rfl)
    have hparse : parse (line ++ "\n") =
        parseTokens [⟨.finish, Position.start.after (line.toList ++ ['\n'])⟩] := by
      unfold parse
      rw [show Token.scan (line ++ "\n") = _ from hfinish]
    rw [hparse]
    rfl
  · rw [String.toList_append] at hscan
    exact absurd hscan (hnone _ _ _)

end Grammar

namespace Repl

/-- The text of these lines, each with its line break. -/
def joined : List String → String
  | [] => ""
  | line :: lines => line ++ "\n" ++ joined lines

/-- A fresh session has asked for more after each of these lines. -/
inductive Collects : List String → Repl → Prop
  | fresh : Collects [] empty
  | line {lines : List String} {r next : Repl} {line : String} (h : Collects lines r)
    (hread : r.read line = .incomplete next) : Collects (lines ++ [line]) next

theorem joined_append (front back : List String) :
    joined (front ++ back) = joined front ++ joined back := by
  induction front with
  | nil => rfl
  | cons line front ih =>
    rw [List.cons_append, joined, joined, ih]
    simp only [String.append_assoc]

theorem joined_concat (lines : List String) (line : String) :
    joined (lines ++ [line]) = joined lines ++ line ++ "\n" := by
  rw [joined_append, joined, joined, String.append_empty, String.append_assoc]

theorem wholeLines_joined (lines : List String) : WholeLines (joined lines).toList := by
  induction lines with
  | nil => exact WholeLines.nil
  | cons line lines ih =>
    rw [joined, String.toList_append, String.toList_append]
    refine WholeLines.append (fun c hc => ?_) ih
    simpa using hc.symm

/-- The line is read behind those before, and is no command. -/
def Reads (r : Repl) (line : String) : Prop :=
  r.isPending = false → Text.trim line.toList ≠ ".quit".toList ∧ Text.trim line.toList ≠ []

section

variable {r : Repl} {line : String} (h : r.Reads line)
include h

theorem Reads.guards :
    (!r.isPending && String.ofList (Text.trim line.toList) == ".quit") = false ∧
      (!r.isPending && (String.ofList (Text.trim line.toList)).isEmpty) = false := by
  cases hpending : r.isPending with
  | true => exact ⟨rfl, rfl⟩
  | false =>
    obtain ⟨hquit, hblank⟩ := h hpending
    have hquit' : String.ofList (Text.trim line.toList) ≠ ".quit" := fun heq =>
      hquit (by rw [← heq, String.toList_ofList])
    have hblank' : String.ofList (Text.trim line.toList) ≠ "" := fun heq =>
      hblank (by rw [← String.toList_ofList (l := Text.trim line.toList), heq]; rfl)
    simp [hquit', hblank']

theorem read_of_ok {program : Program} (hparse : parse (r.pending ++ line ++ "\n") = .ok program) :
    r.read line = .complete program := by
  simp only [read, h.guards.1, h.guards.2, hparse, Bool.false_eq_true, if_false]

theorem read_of_end {expected : String} {p : Position}
    (hparse : parse (r.pending ++ line ++ "\n") = .error (.unexpectedEnd expected p)) :
    r.read line = .incomplete ⟨r.pending ++ line ++ "\n"⟩ := by
  simp only [read, h.guards.1, h.guards.2, hparse, Bool.false_eq_true, if_false]

theorem read_of_error {e : ParseError} (hparse : parse (r.pending ++ line ++ "\n") = .error e)
    (he : ∀ expected p, e ≠ .unexpectedEnd expected p) : r.read line = .invalid e := by
  simp only [read, h.guards.1, h.guards.2, hparse, Bool.false_eq_true, if_false]

end

theorem pending_of_incomplete {r next : Repl} {line : String}
    (h : r.read line = .incomplete next) : next.pending = r.pending ++ line ++ "\n" := by
  simp only [read] at h
  split at h
  · cases h
  split at h
  · cases h
  split at h
  · cases h
  split at h
  · obtain rfl := Reading.incomplete.inj h
    rfl
  · cases h

theorem Collects.pending {lines : List String} {r : Repl} (h : Collects lines r) :
    r.pending = joined lines := by
  induction h with
  | fresh => rfl
  | line h hread ih => rw [pending_of_incomplete hread, ih, joined_concat]

/-- A line that goes on from those before in a program is no command; the first one may be blank
where it is the only one. -/
theorem reads_or_blank {lines front back : List String} {line : String} {program : Program}
    (hparse : parse (joined lines) = .ok program) (hlines : lines = front ++ line :: back)
    {r : Repl} (hr : Collects front r) :
    r.Reads line ∨ front = [] ∧ r = empty ∧ Text.trim line.toList = [] ∧
      parse (line ++ "\n") = .ok [] := by
  cases hr with
  | line hr hread =>
    refine .inl fun hpending => ?_
    rw [isPending, pending_of_incomplete hread] at hpending
    simp at hpending
  | fresh =>
    rw [hlines, List.nil_append, joined, String.append_assoc] at hparse
    by_cases hblank : Text.trim line.toList = []
    · exact .inr ⟨rfl, rfl, hblank, Grammar.parse_blank hblank hparse⟩
    · exact .inl fun _ => ⟨fun hquit => Grammar.parse_quit hquit program hparse, hblank⟩

/-- A session collects the lines of a program up to the last, with which it runs the program, unless
lines that begin it are mistaken for lines that begin none. No earlier lines are a program. -/
theorem collects_unless_mistaken {lines : List String} {program : Program}
    (hparse : parse (joined lines) = .ok program)
    (hfronts : ∀ front back, lines = front ++ back → front ≠ [] → back ≠ [] →
      ∀ q, parse (joined front) ≠ .ok q)
    {front back : List String} {line : String} (hlines : lines = front ++ line :: back) {r : Repl}
    (hr : Collects front r) :
    (back = [] → r.read line = .complete program ∨ r.read line = .blank) ∧
      (back ≠ [] → (∃ next, r.read line = .incomplete next) ∨
        ∃ e, r.read line = .invalid e ∧ Mistaken (joined (front ++ [line])) (joined lines) e) := by
  have htext : r.pending ++ line ++ "\n" = joined (front ++ [line]) := by
    rw [hr.pending, joined_concat]
  have hsplit : lines = (front ++ [line]) ++ back := by
    rw [hlines, List.append_assoc, List.singleton_append]
  obtain hreads | ⟨rfl, rfl, hblank, hempty⟩ := reads_or_blank hparse hlines hr
  · refine ⟨?_, fun hback => ?_⟩
    · rintro rfl
      rw [List.append_nil] at hsplit
      exact .inl (read_of_ok hreads (by rw [htext, ← hsplit, hparse]))
    · have hwhole : parse (joined (front ++ [line]) ++ joined back) = .ok program := by
        rw [← joined_append, ← hsplit, hparse]
      obtain ⟨q, hq⟩ | ⟨e, he, hend⟩ := Grammar.parse_front (wholeLines_joined _) hwhole
      · exact absurd hq (hfronts _ _ hsplit (by simp) hback q)
      rw [← joined_append, ← hsplit] at hend
      rw [← htext] at he
      by_cases hended : ∃ expected p, e = .unexpectedEnd expected p
      · obtain ⟨expected, p, rfl⟩ := hended
        exact .inl ⟨_, read_of_end hreads he⟩
      · refine .inr ⟨e, read_of_error hreads he fun expected p h => hended ⟨expected, p, h⟩, ?_⟩
        exact hend.resolve_left hended
  · refine ⟨fun _ => .inr ?_, fun hback => ?_⟩
    · simp [read, isPending, empty, hblank]
    · have hline : joined [line] = line ++ "\n" := String.append_empty
      exact absurd (hline ▸ hempty) (hfronts [line] back hsplit (by simp) hback [])

/-! A block in two lines is collected; a text literal in two lines is not. -/

theorem parse_openBlock :
    parse (joined ["\x7b"]) = .error (.unexpectedEnd "'\x7d'" ⟨2, 1, 2⟩) := by
  have hend : tokensFrom ⟨1, 2, 1⟩ "\n".toList = .ok [⟨.finish, ⟨2, 1, 2⟩⟩] :=
    Lexer.tokensFrom_finish rfl
  have hscan : Token.scan (joined ["\x7b"]) =
      .ok [⟨.symbol .openBrace, ⟨1, 1, 0⟩⟩, ⟨.finish, ⟨2, 1, 2⟩⟩] :=
    Lexer.tokensFrom_cons hend rfl rfl
  rw [parse, hscan]
  rfl

theorem parse_block : parse (joined ["\x7b", "\x7d"]) = .ok [.block [] ⟨1, 1, 0⟩] := by
  have hend : tokensFrom ⟨2, 2, 3⟩ "\n".toList = .ok [⟨.finish, ⟨3, 1, 4⟩⟩] :=
    Lexer.tokensFrom_finish rfl
  have hclose : tokensFrom ⟨1, 2, 1⟩ "\n\x7d\n".toList = _ := Lexer.tokensFrom_cons hend rfl rfl
  have hscan : Token.scan (joined ["\x7b", "\x7d"]) =
      .ok [⟨.symbol .openBrace, ⟨1, 1, 0⟩⟩, ⟨.symbol .closeBrace, ⟨2, 1, 2⟩⟩,
        ⟨.finish, ⟨3, 1, 4⟩⟩] := Lexer.tokensFrom_cons hclose rfl rfl
  rw [parse, hscan]
  rfl

theorem block_collected : (∃ next, empty.read "\x7b" = .incomplete next) ∨
    ∃ e, empty.read "\x7b" = .invalid e ∧
      Mistaken (joined ["\x7b"]) (joined ["\x7b", "\x7d"]) e := by
  have hfronts (front back : List String) (hlines : ["\x7b", "\x7d"] = front ++ back)
      (hfront : front ≠ []) (hback : back ≠ []) (q : Program) : parse (joined front) ≠ .ok q := by
    obtain ⟨line, front, rfl⟩ := List.exists_cons_of_ne_nil hfront
    obtain ⟨rfl, hrest⟩ := List.cons.inj hlines
    obtain ⟨rfl, rfl⟩ | ⟨front, rfl, hnil⟩ := List.cons_eq_append_iff.1 hrest
    · rw [parse_openBlock]
      nofun
    · exact absurd (List.append_eq_nil_iff.1 hnil.symm).2 hback
  have hlines : ["\x7b", "\x7d"] = [] ++ "\x7b" :: ["\x7d"] := rfl
  exact (collects_unless_mistaken parse_block hfronts hlines .fresh).2 (List.cons_ne_nil _ _)

theorem scan_openText : Token.scan (joined ["let s = \"a"]) = .error (.openText ⟨1, 9, 8⟩) := by
  have hscan : Lexer.scanLexeme ⟨1, 9, 8⟩ '"' "a\n".toList = .error (.openText ⟨1, 9, 8⟩) := by
    simp [Lexer.scanLexeme, Lexer.scanText]
  have hskip : Lexer.skipTrivia .between ⟨1, 8, 7⟩ " \"a\n".toList =
      .ok (⟨1, 9, 8⟩, '"' :: "a\n".toList) := rfl
  have htext : tokensFrom ⟨1, 8, 7⟩ " \"a\n".toList = .error (.openText ⟨1, 9, 8⟩) := by
    rw [Lexer.tokensFrom_eq, hskip]
    simp only [Except.bind, hscan]
  have hequal : tokensFrom ⟨1, 6, 5⟩ " = \"a\n".toList = .error (.openText ⟨1, 9, 8⟩) :=
    Lexer.tokensFrom_cons_error htext rfl rfl
  have hname : tokensFrom ⟨1, 4, 3⟩ " s = \"a\n".toList = .error (.openText ⟨1, 9, 8⟩) :=
    Lexer.tokensFrom_cons_error hequal rfl rfl
  have hlet : tokensFrom ⟨1, 1, 0⟩ "let s = \"a\n".toList = .error (.openText ⟨1, 9, 8⟩) :=
    Lexer.tokensFrom_cons_error hname rfl rfl
  exact hlet

theorem scan_text : Token.scan (joined ["let s = \"a", "b\";"]) = .ok
    [⟨.keyword .letWord, ⟨1, 1, 0⟩⟩, ⟨.name "s", ⟨1, 5, 4⟩⟩, ⟨.symbol .equal, ⟨1, 7, 6⟩⟩,
     ⟨.text "a\nb", ⟨1, 9, 8⟩⟩, ⟨.symbol .semicolon, ⟨2, 3, 13⟩⟩, ⟨.finish, ⟨3, 1, 15⟩⟩] := by
  have hend : tokensFrom ⟨2, 4, 14⟩ "\n".toList = .ok [⟨.finish, ⟨3, 1, 15⟩⟩] :=
    Lexer.tokensFrom_finish rfl
  have hsemicolon : tokensFrom ⟨2, 3, 13⟩ ";\n".toList = _ := Lexer.tokensFrom_cons hend rfl rfl
  have hscan : Lexer.scanLexeme ⟨1, 9, 8⟩ '"' "a\nb\";\n".toList =
      .ok (.text "a\nb", ⟨2, 3, 13⟩, ";\n".toList) := by
    simp [Lexer.scanLexeme, Lexer.scanText, Position.step]
  have htext : tokensFrom ⟨1, 8, 7⟩ " \"a\nb\";\n".toList = _ :=
    Lexer.tokensFrom_cons hsemicolon rfl hscan
  have hequal : tokensFrom ⟨1, 6, 5⟩ " = \"a\nb\";\n".toList = _ :=
    Lexer.tokensFrom_cons htext rfl rfl
  have hname : tokensFrom ⟨1, 4, 3⟩ " s = \"a\nb\";\n".toList = .ok (⟨.name "s", ⟨1, 5, 4⟩⟩ :: _) :=
    Lexer.tokensFrom_cons hequal rfl rfl
  have hlet : tokensFrom ⟨1, 1, 0⟩ "let s = \"a\nb\";\n".toList =
      .ok (⟨.keyword .letWord, ⟨1, 1, 0⟩⟩ :: _) := Lexer.tokensFrom_cons hname rfl rfl
  exact hlet

/-- The two lines are a program and the first is none, yet it is reported and not collected. -/
theorem text_reported :
    parse (joined ["let s = \"a", "b\";"]) =
      .ok [.declare (.name "s") none (some (.literal (.text "a\nb") ⟨1, 9, 8⟩)) ⟨1, 1, 0⟩] ∧
    (∀ q, parse (joined ["let s = \"a"]) ≠ .ok q) ∧
    empty.read "let s = \"a" =
      .invalid (.invalid (.lexical (.openText ⟨1, 9, 8⟩)) Position.start) := by
  have hopen : parse (joined ["let s = \"a"]) =
      .error (.invalid (.lexical (.openText ⟨1, 9, 8⟩)) Position.start) := by
    rw [parse, scan_openText]
  refine ⟨?_, ?_, ?_⟩
  · rw [parse, scan_text]
    rfl
  · rw [hopen]
    nofun
  · exact read_of_error (fun _ => ⟨by decide, by decide⟩) hopen nofun

end Repl

end ScriptEngine
