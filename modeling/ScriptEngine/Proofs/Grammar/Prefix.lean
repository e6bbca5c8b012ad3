import ScriptEngine.Proofs.Grammar.TrackedStatement
import ScriptEngine.Proofs.Token.Lines

/-!
# The first lines of a program

Lines that begin a program are read as incomplete, but where the lexer has no tokens for them, where
an arrow function is cut in its parameters, and where the parser blames the end on something else.
-/
namespace ScriptEngine.Grammar
open Text (Position)
open Lexer (WholeLines)

theorem parseTokens_cut {tokens rest : List Token} {finish : Token} {program : Program}
    (hcut : Cut tokens finish rest) (hrest : finished (tokens ++ rest) = tokens ++ rest)
    (h : parseTokens (tokens ++ rest) = .ok program) :
    (∃ q, parseTokens (tokens ++ [finish]) = .ok q) ∨
      ∃ e, parseTokens (tokens ++ [finish]) = .error e ∧ CutShort tokens finish e := by
  have hdepth (us : List Token) : weight tokens + 1 ≤ depthBound (tokens ++ us) := by
    rw [depthBound_eq, weight_append]
    omega
  have htracked := Tracked.of_tracks (fun l _ => parseWithin_tracks l) (hdepth [finish])
    (hdepth rest)
  have hout : Outcome 0 0 0 tokens finish rest _ _ :=
    statements_tracks htracked hcut (Nat.lt_succ_self _)
  unfold parseTokens at h ⊢
  dsimp only at h ⊢
  rw [hrest] at h
  rw [finished_of_ends hcut.ends]
  cases hwhole : (statements ⟨depthBound (tokens ++ rest),
      parseWithin (depthBound (tokens ++ rest))⟩).run (tokens ++ rest) with
  | error e =>
    rw [hwhole] at h
    cases h
  | ok b =>
    rw [hwhole] at hout
    obtain ⟨a, ha⟩ | ⟨e, he, hshort⟩ := hout.of_ok
    · exact .inl ⟨a.1, by rw [ha]; rfl⟩
    · exact .inr ⟨e, by rw [he]; rfl, hshort⟩

/-- An arrow that is seen before the cut is there whatever follows. -/
theorem arrowAhead_of_cut {tokens rest : List Token} {finish : Token}
    (hfinish : Lexeme.isFinish finish.lexeme = true) {n : Nat}
    (h : arrowAhead n (tokens ++ [finish]) = true) : arrowAhead n (tokens ++ rest) = true := by
  induction tokens generalizing n with
  | nil =>
    rw [List.nil_append, arrowAhead_finish n (isFinish_iff.1 hfinish)] at h
    cases h
  | cons t tokens ih =>
    rw [List.cons_append] at h ⊢
    by_cases hopen : t.lexeme = .symbol .openParen
    · rw [arrowAhead_open n hopen] at h ⊢
      exact ih h
    by_cases hclose : t.lexeme = .symbol .closeParen
    · match n with
      | 0 => simp [arrowAhead, arrowAhead?, hclose] at h
      | 1 =>
        rw [arrowAhead_last hclose] at h ⊢
        cases tokens with
        | nil => simp [isFinish_iff.1 hfinish, Lexeme.isSymbol] at h
        | cons u tokens => exact h
      | n + 2 =>
        rw [arrowAhead_close n hclose] at h ⊢
        exact ih h
    by_cases hend : t.lexeme = .finish
    · rw [arrowAhead_finish n hend] at h
      cases h
    · rw [arrowAhead_plain n hopen hclose hend] at h ⊢
      exact ih h

/-- Where the tokens go on, a parenthesis before the cut opens the parameters of an arrow function,
or the cut leaves all of them as they are. -/
theorem cut_or_arrow {tokens : List Token} {finish : Token}
    (hplain : ∀ t ∈ tokens, Lexeme.isFinish t.lexeme = false)
    (hfinish : Lexeme.isFinish finish.lexeme = true) (rest : List Token) :
    Cut tokens finish rest ∨ ∃ before t back, tokens = before ++ t :: back ∧
      t.lexeme = .symbol .openParen ∧ arrowAhead 1 (back ++ [finish]) = false ∧
        arrowAhead 1 (back ++ rest) = true := by
  by_cases harrows : ∀ before t back, tokens = before ++ t :: back →
    t.lexeme = .symbol .openParen → arrowAhead 1 (back ++ [finish]) = arrowAhead 1 (back ++ rest)
  · exact .inl ⟨hplain, hfinish, harrows⟩
  · simp only [not_forall] at harrows
    obtain ⟨before, t, back, htokens, ht, hdiffer⟩ := harrows
    have hcut : arrowAhead 1 (back ++ [finish]) = false :=
      Bool.eq_false_iff.2 fun hahead =>
        hdiffer (hahead.trans (arrowAhead_of_cut hfinish hahead).symm)
    have hrest : arrowAhead 1 (back ++ rest) = true :=
      (Bool.not_eq_false _).mp fun hahead => hdiffer (hcut.trans hahead.symm)
    exact .inr ⟨before, t, back, htokens, ht, hcut, hrest⟩

/-- How the first lines of a text are mistaken for lines that begin no program. -/
inductive Mistaken (front whole : String) : ParseError → Prop
  /-- A literal or a comment goes on in the next line. -/
  | lexical {e : LexError} (hfront : Token.scan front = .error e) (he : e.IsOpen) :
    Mistaken front whole (.invalid (.lexical e) Position.start)
  /-- The value of a constant follows in the next line. -/
  | constant {init : List Token} {finish : Token}
    (hfront : Token.scan front = .ok (init ++ [finish])) :
    Mistaken front whole (.invalid .constantWithoutValue finish.position)
  /-- A pattern that takes the rest is closed in the next line. -/
  | rest {init : List Token} {finish : Token}
    (hfront : Token.scan front = .ok (init ++ [finish])) :
    Mistaken front whole (.invalid .restNotLast finish.position)
  /-- The number of a pattern follows in the next line after its sign. -/
  | minus {init : List Token} {t finish : Token}
    (hfront : Token.scan front = .ok (init ++ [t, finish])) (ht : t.lexeme = .symbol .minus) :
    Mistaken front whole (.unexpectedToken "match pattern" (.symbol .minus) t.position)
  /-- Only the next lines show that a parenthesis opens the parameters of an arrow function. -/
  | arrow {e : ParseError} {init back rest : List Token} {t finish : Token}
    (hfront : Token.scan front = .ok (init ++ t :: (back ++ [finish])))
    (hwhole : Token.scan whole = .ok (init ++ t :: (back ++ rest)))
    (ht : t.lexeme = .symbol .openParen) (hcut : arrowAhead 1 (back ++ [finish]) = false)
    (hrest : arrowAhead 1 (back ++ rest) = true) : Mistaken front whole e

/-- The tokens of the front of a text whose lines are whole, and those of the text. -/
theorem scan_front {front more : String} (hlines : WholeLines front.toList) {all : List Token}
    (h : Token.scan (front ++ more) = .ok all) :
    (∃ e, Token.scan front = .error e ∧ e.IsOpen) ∨
      ∃ init finish rest, Token.scan front = .ok (init ++ [finish]) ∧ all = init ++ rest ∧
        (∀ t ∈ init, Lexeme.isFinish t.lexeme = false) ∧
        Lexeme.isFinish finish.lexeme = true ∧ finished all = all := by
  have hall : Lexer.tokensFrom Position.start (front.toList ++ more.toList) = .ok all := by
    rw [← String.toList_append]
    exact h
  cases hfront : Token.scan front with
  | error e =>
    obtain hopen | hnone := Lexer.tokensFrom_error hfront hlines
    · exact .inl ⟨e, rfl, hopen⟩
    · exact absurd hall (hnone _ _)
  | ok tokens =>
    obtain ⟨init, finish, rfl, hmore⟩ := Lexer.tokensFrom_append hfront hlines
    obtain ⟨init', finish', hsplit, hplain, hfinish, -⟩ := tokensFrom_weight hfront
    obtain ⟨rfl, hlast⟩ := List.append_inj' hsplit rfl
    obtain rfl : finish = finish' := List.head_eq_of_cons_eq hlast
    obtain ⟨allInit, last, rfl, -, hlast, -⟩ := tokensFrom_weight hall
    replace hall := (hmore more.toList).symm.trans hall
    cases hrest : Lexer.tokensFrom finish.position more.toList with
    | error e =>
      rw [hrest] at hall
      cases hall
    | ok rest =>
      rw [hrest] at hall
      exact .inr ⟨init, finish, rest, rfl, (Except.ok.inj hall).symm, hplain, hfinish,
        finished_of_ends hlast⟩

/-- Lines that begin a program are a program, or end where more is expected, or are mistaken. -/
theorem parse_front {front more : String} (hlines : WholeLines front.toList) {program : Program}
    (h : parse (front ++ more) = .ok program) :
    (∃ q, parse front = .ok q) ∨ ∃ e, parse front = .error e ∧
      ((∃ expected p, e = .unexpectedEnd expected p) ∨ Mistaken front (front ++ more) e) := by
  unfold parse at h ⊢
  cases hwhole : Token.scan (front ++ more) with
  | error e =>
    rw [hwhole] at h
    cases h
  | ok all =>
    rw [hwhole] at h
    obtain ⟨e, hfront, hopen⟩ | ⟨init, finish, rest, hfront, rfl, hplain, hfinish, hfinished⟩ :=
      scan_front hlines hwhole
    · rw [hfront]
      exact .inr ⟨_, rfl, .inr (.lexical hfront hopen)⟩
    rw [hfront]
    obtain hcut | ⟨before, t, back, rfl, ht, hcut, hrest⟩ := cut_or_arrow hplain hfinish rest
    · obtain hok | ⟨e, he, hshort⟩ := parseTokens_cut hcut hfinished h
      · exact .inl hok
      refine .inr ⟨e, he, ?_⟩
      cases hshort with
      | ended expected => exact .inl ⟨expected, _, rfl⟩
      | constant => exact .inr (.constant hfront)
      | rest => exact .inr (.rest hfront)
      | @minus before t hinit ht =>
        subst hinit
        rw [List.append_assoc] at hfront
        exact .inr (.minus hfront ht)
    · rw [List.append_assoc, List.cons_append] at hfront hwhole
      cases hparse : parseTokens (before ++ t :: back ++ [finish]) with
      | ok q => exact .inl ⟨q, hparse⟩
      | error e => exact .inr ⟨e, hparse, .inr (.arrow hfront hwhole ht hcut hrest)⟩

end ScriptEngine.Grammar
