import ScriptEngine.Proofs.Grammar.CompletedExpression
import ScriptEngine.Proofs.Grammar.Faultless

/-!
# Programs that can be completed

Statements complete what they have begun, and so does a program. By induction on the tokens that
are left, all productions do.
-/
namespace ScriptEngine.Grammar
open Text (Position)
open Filter (atTop Tendsto)
open Lexer (Word)

section

variable {k : Nat} {stops : Lexeme → Prop} (hd : CompletesBelow k)
include hd

/-! Declarations -/

theorem declaration_completes (position : Position) :
    Completes 1 (k + 1) stops [someName, .symbol .semicolon]
      fun m => declaration (below m) position := by
  have hend (p : Pattern) (hint : Option String) (init : Option Expr) :
      Completes 0 (k + 1) stops [.symbol .semicolon]
        fun _ => (do optionalSemicolon; return .declare p hint init position : Parser Stmt) :=
    Completes.optionalSemicolon.bind (fun _ => .pure _) .anything
  refine (bindingPattern_completes hd).bind (fun p => ?_) .anything
  refine (typeAfter_completes hd .colon).bind (fun hint => ?_) (.word nofun)
  exact .accept_bind
    (((expression_completes hd).map some).bind (fun init => hend p hint init) (.word rfl))
    (hend p hint none) (.word nofun) (Nat.zero_le 1)

theorem constantDeclaration_completes (position : Position) :
    Completes 1 (k + 1) stops
      [someName, .symbol .equal, .keyword .nilWord, .symbol .semicolon]
      fun m => constantDeclaration (below m) position := by
  refine (bindingPattern_completes hd).bind (fun p => ?_) .anything
  refine ((typeAfter_completes hd .colon).map _).bind (fun _ => ?_) (.word nofun)
  exact .accept_bind_word
    ((expression_completes hd).bind (fun init =>
      Completes.optionalSemicolon.bind (fun _ => .pure _) .anything) (.word rfl))
    (fun t _ => .inr ⟨_, .of_run fun _ => rfl⟩)
    (fun t _ _ _ _ _ => .refused (e := .invalid .constantWithoutValue t.position)
      (.of_run fun _ => rfl) nofun) (Nat.zero_le 1)

theorem functionDeclaration_completes (isAsync : Bool) :
    Completes 1 (k + 1) stops [.keyword .fnWord, someName, .symbol .openParen, .symbol .closeParen,
      .symbol .openBrace, .symbol .closeBrace] fun m => functionDeclaration (below m) isAsync := by
  refine Completes.here.after (fun p => (Completes.expectWord _ _).bind (fun _ => ?_) .anything)
    .anything
  exact Completes.name.weak.bind (fun n => (functionRest_completes hd _ _ _).weak.bind
    (fun _ => .pure _) .anything) .anything

theorem method_completes :
    Completes 1 (k + 1) stops [someName, .symbol .openParen, .symbol .closeParen,
      .symbol .openBrace, .symbol .closeBrace] fun m => method (below m) := by
  refine (Completes.acceptWord _).after (fun isAsync => ?_) (.word nofun)
  refine ((Completes.acceptWord _).map _).after (fun _ => ?_) (.word nofun)
  exact Completes.here.after (fun p => Completes.name.bind (fun n =>
    (functionRest_completes hd _ _ _).weak) .anything) .anything

omit hd in
theorem parentClass_completes : Completes 0 k (· ≠ .symbol .less) [] fun _ => parentClass := by
  refine .accept_bind (Completes.here.after (fun p => Completes.name.weak.bind
    (fun _ => .pure _) .anything) .anything) (.pure _) .same (Nat.zero_le 1)

theorem classDeclaration_completes :
    Completes 1 (k + 1) stops
      [.keyword .classWord, someName, .symbol .openBrace, .symbol .closeBrace]
      fun m => classDeclaration (below m) := by
  have hmethod : Completes 1 (k + 1) Anything _ fun m => method (below m) := method_completes hd
  refine Completes.here.after (fun p => (Completes.expectWord _ _).bind (fun _ => ?_) .anything)
    .anything
  refine Completes.name.weak.bind (fun n => ?_) .anything
  refine parentClass_completes.bind (fun parent => ?_) (.word nofun)
  refine (Completes.expect _ _).weak.bind (fun _ => ?_) .anything
  refine (Completes.itemsUntil hmethod trivial).bind (fun methods => ?_) (.word rfl)
  exact (Completes.expect _ _).weak.bind (fun _ => .pure _) .anything

/-! Statements that end in statements -/

theorem condition_completes (word : String) :
    Completes 1 k stops [.symbol .openParen, .keyword .nilWord, .symbol .closeParen]
      fun m => condition (below m) word := by
  refine (Completes.expect _ _).bind (fun _ => ?_) .anything
  refine ((expression_completes hd).mono (Nat.zero_le 1) (Nat.le_succ k)).bind (fun e => ?_)
    (.word rfl)
  exact (Completes.expect _ _).weak.bind (fun _ => .pure _) .anything

theorem branch_completes {t : Token} (ht : IsPlain t.lexeme) (position : Position) :
    CompletesAt [t] 1 (k + 1) (· ≠ .keyword .elseWord) fun m => branch (below m) position :=
  .advance ht ((condition_completes hd _).weak.bind (fun _ =>
    (hd .statement).weak.bind (fun _ => .acceptWord_bind
      (((hd .statement).weak.map some).bind (fun _ => .pure _) .same) (.pure _) .same
        (Nat.zero_le 1))
        .same) .anything)

theorem conditionalLoop_completes {t : Token} (ht : IsPlain t.lexeme) (position : Position) :
    CompletesAt [t] 1 (k + 1) (· ≠ .keyword .elseWord)
      fun m => conditionalLoop (below m) position :=
  .advance ht ((condition_completes hd _).weak.bind (fun _ =>
    (hd .statement).weak.bind (fun _ => .pure _) .same) .anything)

theorem loopStart_completes :
    Completes 1 (k + 1) stops [.symbol .semicolon] fun m => loopStart (below m) := by
  have hother : Completes 1 (k + 1) stops [.keyword .nilWord, .symbol .semicolon] fun m => (do
      let p ← here
      if ← acceptWord .letWord then return some (← declaration (below m) p)
      let e ← expression (below m)
      expect .semicolon "';' after loop initializer"
      return some (.expression e p) : Parser (Option Stmt)) :=
    Completes.here.after (fun p => .acceptWord_bind
      ((declaration_completes hd p).bind (fun _ => .pure _) .anything)
      ((expression_completes hd).bind (fun e =>
        (Completes.expect _ _).weak.bind (fun _ => .pure _) .anything) (.word rfl))
      (.word nofun) (Nat.le_refl 1)) .anything
  exact .accept_bind_word (.pure none) (fun t ht => hother.alone t ht)
    (fun t _ => .of_completes hother) (Nat.le_refl 1)

theorem loopStep_completes :
    Completes 1 (k + 1) stops [.symbol .semicolon, .symbol .closeParen]
      fun m => loopStep (below m) := by
  have hend (step : Option Expr) : Completes 1 (k + 1) stops [.symbol .closeParen]
      fun _ => (do expect .closeParen "')' after for clauses"; return step) :=
    (Completes.expect _ _).bind (fun _ => .pure step) .anything
  have hsome := ((expression_completes hd).map some).bind (fun step => (hend step).weak)
    (.word rfl)
  exact (Completes.expect _ _).bind (fun _ => .weak (.isNext_bind_word (hend none) (.word rfl)
    (fun t ht => hsome.alone t ht) fun t _ => .of_completes hsome)) .anything

theorem loopHead_completes :
    Completes 1 (k + 1) stops [.symbol .openParen, .symbol .semicolon, .symbol .semicolon,
      .symbol .closeParen] fun m => loopHead (below m) := by
  have hend (start : Option Stmt) (c : Expr) : Completes 1 (k + 1) stops
      [.symbol .semicolon, .symbol .closeParen]
      fun m => (do return (start, c, ← loopStep (below m))) :=
    (loopStep_completes hd).bind (fun _ => .pure _) .anything
  have hsome (start : Option Stmt) :=
    (expression_completes hd).bind (fun c => (hend start c).weak) (.word rfl)
  have hnone (start : Option Stmt) := (Completes.here.map (.literal (.bool true))).after
    (hend start) .anything
  exact (Completes.expect _ _).bind (fun _ => (loopStart_completes hd).weak.bind (fun start =>
    .weak (.isNext_bind_word (hnone start) (.word rfl)
      (fun t ht => (hsome start).alone t ht) fun t _ => .of_completes (hsome start))) .anything)
        .anything

theorem countingLoop_completes {t : Token} (ht : IsPlain t.lexeme) (position : Position) :
    CompletesAt [t] 1 (k + 1) (· ≠ .keyword .elseWord)
      fun m => countingLoop (below m) position := by
  simp only [countingLoop_eq, bind_assoc]
  exact .advance ht (((loopHead_completes hd).mono (Nat.zero_le 1) (Nat.le_succ k)).bind
    (fun head => (hd .statement).weak.bind (fun _ => .pure _) .same) .anything)

theorem attempt_completes {t : Token} (ht : IsPlain t.lexeme) (position : Position) :
    CompletesAt [t] 1 (k + 1) (· ≠ .keyword .elseWord) fun m => attempt (below m) position := by
  have hhead : Completes 1 k Anything _ fun m => attemptHead (below m) :=
    (hd .statement).bind (fun s => (Completes.expectWord _ _).weak.bind (fun _ =>
      (Completes.expect _ _).weak.bind (fun _ => Completes.name.weak.bind (fun n =>
        (Completes.expect _ _).weak.bind (fun _ => .pure _) .anything) .anything) .anything)
          .anything) (.word nofun)
  simp only [attempt_eq, bind_assoc]
  exact .advance ht (hhead.weak.bind (fun head =>
    (hd .statement).weak.bind (fun _ => .pure _) .same) .anything)

theorem arm_completes :
    Completes 1 k (· = .symbol .closeBrace)
      [someName, .symbol .thinArrow, .symbol .openBrace, .symbol .closeBrace]
      fun m => arm (below m) := by
  refine ((matchPattern_completes hd).mono (Nat.le_refl 1) (Nat.le_succ k)).bind (fun p => ?_)
    .anything
  refine (Completes.expect _ _).weak.bind (fun _ => ?_) .anything
  refine (hd .statement).weak.bind (fun s => ?_) fun x hx => by rw [hx]; nofun
  exact ((Completes.accept _).map _).bind (fun _ => .pure _) fun x hx => by rw [hx]; nofun

theorem selection_completes {t : Token} (ht : IsPlain t.lexeme) (position : Position) :
    CompletesAt [t] 1 (k + 1) stops fun m => selection (below m) position :=
  .advance ht ((condition_completes hd _).weak.bind (fun _ =>
    (Completes.expect _ _).weak.bind (fun _ =>
      (Completes.itemsUntil (arm_completes hd) rfl).bind (fun _ =>
        (Completes.expect _ _).weak.bind (fun _ => .pure _) .anything) (.word rfl))
          .anything) .anything)

/-! Statements -/

theorem closedExpression_completes :
    Completes 1 (k + 1) stops [.keyword .nilWord, .symbol .semicolon]
      fun m => closedExpression (below m) :=
  (expression_completes hd).bind (fun e =>
    Completes.optionalSemicolon.bind (fun _ => .pure e) .anything) (.word rfl)

theorem returned_completes :
    Completes 0 (k + 1) (· = .symbol .semicolon) [] fun m => returned (below m) := by
  have hsome : Completes 1 (k + 1) (· = .symbol .semicolon) _
      fun m => some <$> expression (below m) :=
    ((expression_completes hd).restrict fun _ hx => by rw [hx]; rfl).map some
  simp only [returned_eq]
  refine .peek (.peek_nil fun t ht => ⟨none, fun more => .of_run fun m => ?_⟩)
    (fun t ht => .inl ⟨rfl, none, .of_run fun m => ?_⟩) fun t _ => ?_
  · rw [ht]
    rfl
  · rw [isFinish_iff.1 ht]
    rfl
  · split
    next => exact .of_completes (.pure none)
    next => exact .of_completes hsome.weak

theorem returnStatement_completes {t : Token} (ht : IsPlain t.lexeme) (position : Position) :
    CompletesAt [t] 1 (k + 1) stops fun m => returnStatement (below m) position := by
  simp only [returnStatement_eq, terminated, bind_assoc]
  exact .advance ht (((returned_completes hd).mono (Nat.le_refl 0) (Nat.le_succ k)).bind
    (fun value => Completes.optionalSemicolon.bind (fun _ => .pure _) .anything) (.word rfl))

/-- The word for functions begins a function that is completed with a name. -/
theorem fn_completes (position : Position) :
    CompletesAt [⟨.keyword .fnWord, position⟩] 1 (k + 1) stops
      fun m => peekSecond >>= fun second =>
        if second.any (Lexeme.isSymbol .openParen) then do
          return .expression (← closedExpression (below m)) position
        else functionDeclaration (below m) false := by
  have hdeclared : Completes 1 (k + 1) stops _ _ := functionDeclaration_completes hd false
  have hname (u : Token) (hu : u.lexeme = someName.lexeme) :
      Completed stops (fun m => if (some u.lexeme).any (Lexeme.isSymbol .openParen) then do
          return Stmt.expression (← closedExpression (below m)) position
        else functionDeclaration (below m) false) [⟨.keyword .fnWord, position⟩, u]
        [.symbol .openParen, .symbol .closeParen, .symbol .openBrace, .symbol .closeBrace] := by
    have hother : Lexeme.isSymbol .openParen u.lexeme = false := by rw [hu]; rfl
    simp only [Option.any_some, hother]
    exact (hdeclared.starts.snoc rfl).snoc hu
  refine .peekSecond_word (fun u => ?_) hname fun finish hfinish => ?_
  · cases hu : Lexeme.isSymbol .openParen u.lexeme with
    | true =>
      simp only [Option.any_some, hu, if_true]
      exact .of_completes ((closedExpression_completes hd).bind (fun _ => .pure _) .anything)
    | false =>
      simp only [Option.any_some, hu]
      exact .of_completes hdeclared
  · obtain ⟨l, p⟩ := finish
    obtain rfl := isFinish_iff.1 hfinish
    exact ⟨_, .of_run fun m => rfl⟩

/-- So does the word for asynchronous functions. -/
theorem async_completes (position : Position) :
    CompletesAt [⟨.keyword .asyncWord, position⟩] 1 (k + 1) stops
      fun m => peekSecond >>= fun second =>
        if second.any (Lexeme.isKeyword .fnWord) then
          advance >>= fun _ => functionDeclaration (below m) true
        else do return .expression (← closedExpression (below m)) position := by
  have hdeclared : Completes 1 (k + 1) stops _ _ := functionDeclaration_completes hd true
  have hfn (u : Token) (hu : u.lexeme = .keyword .fnWord) :
      Completed stops (fun m => if (some u.lexeme).any (Lexeme.isKeyword .fnWord) then
          advance >>= fun _ => functionDeclaration (below m) true
        else do return Stmt.expression (← closedExpression (below m)) position)
        [⟨.keyword .asyncWord, position⟩, u] [someName, .symbol .openParen, .symbol .closeParen,
          .symbol .openBrace, .symbol .closeBrace] := by
    have hword : Lexeme.isKeyword .fnWord u.lexeme = true := by rw [hu]; rfl
    simp only [Option.any_some, hword, if_true]
    exact (hdeclared.starts.advance (t := ⟨.keyword .asyncWord, position⟩) nofun).snoc hu
  refine .peekSecond_word (w := .keyword .fnWord) (fun u => ?_) hfn fun finish hfinish => ?_
  · cases hu : Lexeme.isKeyword .fnWord u.lexeme with
    | true =>
      simp only [Option.any_some, hu, if_true]
      exact .mono (.advance (isPlain_keyword _) hdeclared.weak) (Nat.le_refl 1) (Nat.le_succ _)
    | false =>
      simp only [Option.any_some, hu]
      exact .of_completes ((closedExpression_completes hd).bind (fun _ => .pure _) .anything)
  · obtain ⟨l, p⟩ := finish
    obtain rfl := isFinish_iff.1 hfinish
    exact ⟨_, .of_run fun m => run_bind_error (closedExpression_error rfl)⟩

theorem statement_completes :
    Completes 1 (k + 1) (· ≠ .keyword .elseWord) [.symbol .openBrace, .symbol .closeBrace]
      fun m => statement (below m) := by
  have hexpression (g : Expr → Position → Stmt) (position : Position) :
      Completes 1 (k + 1) (· ≠ .keyword .elseWord) _
        fun m => (do return g (← closedExpression (below m)) position) :=
    (closedExpression_completes hd).bind (fun _ => .pure _) .anything
  have hblock (position : Position) : Completes 1 (k + 1) (· ≠ .keyword .elseWord) _
      fun m => (do return .block (← body (below m)) position : Parser Stmt) :=
    (body_completes hd).bind (fun _ => .pure _) .anything
  refine .peek (.peek fun t ht => ?_) (fun t ht => ?_) fun t ht => ?_
  · obtain ⟨l, position⟩ := t
    obtain rfl : l = _ := ht
    exact (hblock position).starts.snoc rfl
  · obtain ⟨l, position⟩ := t
    obtain rfl := isFinish_iff.1 ht
    exact (hexpression .expression position).alone _ rfl
  obtain ⟨l, position⟩ := t
  have hany {Q : Nat → Parser Stmt} {f : Option Lexeme → Nat → Parser Stmt}
      (h : CompletesAt [⟨l, position⟩] 1 (k + 1) (· ≠ .keyword .elseWord) Q)
      (hf : ∀ second, f second = Q) :
      CompletesAt [⟨l, position⟩] 1 (k + 1) (· ≠ .keyword .elseWord)
        fun m => peekSecond >>= fun second => f second m := by
    obtain rfl := funext hf
    exact h
  cases l with
  | number | text | template | name =>
    exact hany (.of_completes (hexpression .expression position)) fun _ => rfl
  | finish => cases ht
  | symbol c =>
    cases c with
    | openBrace => exact hany (.of_completes (hblock position)) fun _ => rfl
    | _ => exact hany (.of_completes (hexpression .expression position)) fun _ => rfl
  | keyword w =>
    have hplain : IsPlain (.keyword w) := isPlain_keyword w
    have hword {fill : List Word} {P : Nat → Parser Stmt}
        (h : Completes 1 (k + 1) (· ≠ .keyword .elseWord) fill P) :
        CompletesAt [⟨.keyword w, position⟩] 1 (k + 1) (· ≠ .keyword .elseWord)
          fun m => advance >>= fun _ => P m :=
      .mono (.advance hplain h) (Nat.le_add_left 1 1) (Nat.le_succ _)
    have hjump (s : Stmt) : CompletesAt [⟨.keyword w, position⟩] 1 (k + 1)
        (· ≠ .keyword .elseWord) fun _ => (do advance; optionalSemicolon; return s) :=
      .advance hplain (Completes.optionalSemicolon.bind (fun _ => .pure s) .anything)
    cases w with
    | fnWord => exact fn_completes hd position
    | asyncWord => exact async_completes hd position
    | letWord => exact hany (hword (declaration_completes hd position)) fun _ => rfl
    | constWord => exact hany (hword (constantDeclaration_completes hd position)) fun _ => rfl
    | classWord => exact hany (.of_completes (classDeclaration_completes hd)) fun _ => rfl
    | ifWord => exact hany (branch_completes hd hplain position) fun _ => rfl
    | whileWord => exact hany (conditionalLoop_completes hd hplain position) fun _ => rfl
    | forWord => exact hany (countingLoop_completes hd hplain position) fun _ => rfl
    | returnWord => exact hany (returnStatement_completes hd hplain position) fun _ => rfl
    | throwWord => exact hany (hword (hexpression .throw position)) fun _ => rfl
    | printWord => exact hany (hword (hexpression .print position)) fun _ => rfl
    | importWord => exact hany (hword (hexpression .load position)) fun _ => rfl
    | tryWord => exact hany (attempt_completes hd hplain position) fun _ => rfl
    | matchWord => exact hany (selection_completes hd hplain position) fun _ => rfl
    | breakWord => exact hany (hjump (.break position)) fun _ => rfl
    | continueWord => exact hany (hjump (.continue position)) fun _ => rfl
    | _ => exact hany (.of_completes (hexpression .expression position)) fun _ => rfl

theorem produce_completes (goal : Goal) :
    Completes 1 (k + 1) goal.ends goal.fill fun m => produce (below m) goal := by
  cases goal with
  | expression => exact expression_completes hd
  | unary => exact unary_completes hd
  | statement => exact statement_completes hd
  | bindingPattern => exact bindingPattern_completes hd
  | matchPattern => exact matchPattern_completes hd
  | typeName => exact typeName_completes hd

end

/-! All productions -/

/-- The shortest expression. -/
theorem unary_run_nil (m : Nat) {t u : Token} (ht : t.lexeme = .keyword .nilWord)
    (hu : Idle u.lexeme) (more : List Token) :
    (unary (below m)).run (t :: u :: more) = .ok (.literal .nil t.position, u :: more) := by
  obtain ⟨l, position⟩ := t
  obtain rfl : l = _ := ht
  exact accessesOf_run_end (endsAt_of_none hu)

theorem expression_run_nil (m : Nat) {t u : Token} (ht : t.lexeme = .keyword .nilWord)
    (hu : Idle u.lexeme) (more : List Token) :
    (expression (below m)).run (t :: u :: more) = .ok (.literal .nil t.position, u :: more) := by
  have hlevel (l : Expr.Level) {operand : Parser Expr} {e : Expr} {tokens : List Token}
      (h : operand.run tokens = .ok (e, u :: more)) :
      (chain (below m) (operatorsOf l) operand).run tokens = .ok (e, u :: more) :=
    (run_bind_of h).trans (chainRest_run_end (operatorsOf_at l) (endsAt_of_none hu) _ e)
  have hsum := hlevel .sum (hlevel .product (unary_run_nil m ht hu more))
  have hboth := hlevel .both (hlevel .equality (hlevel .comparison hsum))
  have hpipe := hlevel .pipe (hlevel .coalesce (hlevel .either hboth))
  exact (run_bind_of hpipe).trans (assigned_run_of_ne _ _ (ne_of_idle hu rfl) more)

theorem produce_starts (goal : Goal) :
    Completed goal.ends (fun m => produce (below m) goal) [] goal.fill := by
  intro back v more hback hv
  cases goal with
  | expression =>
    obtain ⟨t, rest, rfl, ht, hrest⟩ := List.map_eq_cons_iff.1 hback
    obtain rfl := List.map_eq_nil_iff.1 hrest
    exact ⟨_, .of_run fun m => expression_run_nil m ht hv more⟩
  | unary =>
    obtain ⟨t, rest, rfl, ht, hrest⟩ := List.map_eq_cons_iff.1 hback
    obtain rfl := List.map_eq_nil_iff.1 hrest
    exact ⟨_, .of_run fun m => unary_run_nil m ht hv more⟩
  | statement =>
    obtain ⟨⟨l, p⟩, rest, rfl, hl, hrest⟩ := List.map_eq_cons_iff.1 hback
    obtain ⟨⟨l', p'⟩, rest, rfl, hl', hrest⟩ := List.map_eq_cons_iff.1 hrest
    obtain rfl := List.map_eq_nil_iff.1 hrest
    obtain rfl : l = _ := hl
    obtain rfl : l' = _ := hl'
    exact ⟨_, eventually_succ_iff.1 (.of_forall fun m => rfl)⟩
  | bindingPattern | matchPattern | typeName =>
    obtain ⟨⟨l, p⟩, rest, rfl, hl, hrest⟩ := List.map_eq_cons_iff.1 hback
    obtain rfl := List.map_eq_nil_iff.1 hrest
    obtain rfl : l = _ := hl
    exact ⟨_, .of_run fun m => rfl⟩

theorem produce_alone (goal : Goal) {finish : Token}
    (hfinish : Lexeme.isFinish finish.lexeme = true) :
    Alone 1 (fun m => produce (below m) goal) finish := by
  obtain ⟨l, p⟩ := finish
  obtain rfl := isFinish_iff.1 hfinish
  cases goal with
  | expression => exact .inr ⟨_, .of_run fun m => expression_run_error rfl⟩
  | statement =>
    have hclosed (m : Nat) : (do return .expression (← closedExpression (below m)) p
        : Parser Stmt).run [⟨.finish, p⟩] = .error (.unexpectedEnd "expression" p) :=
      run_bind_error (closedExpression_error rfl)
    exact .inr ⟨_, .of_run hclosed⟩
  | unary | bindingPattern | matchPattern | typeName => exact .inr ⟨_, .of_run fun m => rfl⟩

/-- Every production completes what it has begun. -/
theorem completesBelow (k : Nat) : CompletesBelow k := by
  induction k with
  | zero =>
    exact fun goal => .of_succ ⟨produce_starts goal, fun finish => produce_alone goal,
      fun _ _ _ _ hlength => absurd hlength (Nat.not_lt_zero _)⟩
  | succ k ih => exact fun goal => .of_succ (produce_completes ih goal)

/-! Programs -/

/-- A program completes what it has begun. -/
theorem statements_completes (k : Nat) :
    Completes 0 k (· = .finish) [] fun m => statements (below m) := by
  refine .items_plain (fun x => !Lexeme.isFinish x) (fun _ _ => rfl) ?_
    (completesBelow k .statement) Filter.tendsto_id
  rintro _ rfl
  exact ⟨rfl, nofun⟩

/-- Unless as many statements have been read as the bound allows, the next token is the last. -/
theorem items_run_ends {d : Deeper} {n : Nat} {tokens rest : List Token} {t : Token}
    {program : Program}
    (h : (items (return !(← atEnd)) (do return (← d.parse .statement, true)) n).run tokens =
      .ok (program, t :: rest)) : program.length = n ∨ Lexeme.isFinish t.lexeme = true := by
  induction n generalizing tokens program with
  | zero =>
    obtain ⟨rfl, -⟩ := Prod.mk.inj (Except.ok.inj h)
    exact .inl rfl
  | succ n ih =>
    rw [items_plain_succ] at h
    obtain ⟨again, mid, hmore, h⟩ := exists_of_run_bind h
    cases again with
    | false =>
      obtain ⟨-, rfl⟩ := Prod.mk.inj (Except.ok.inj h)
      cases tokens with
      | nil => cases hmore
      | cons u tokens =>
        obtain ⟨hlook, hrest⟩ := Prod.mk.inj (Except.ok.inj hmore)
        obtain ⟨rfl, -⟩ := List.cons.inj hrest
        exact .inr (by simpa using hlook)
    | true =>
      obtain ⟨s, mid', -, h⟩ := exists_of_run_bind h
      rw [map_eq_pure_bind] at h
      obtain ⟨more, last, hmore', h⟩ := exists_of_run_bind h
      obtain ⟨rfl, rfl⟩ := Prod.mk.inj (Except.ok.inj h)
      exact (ih hmore').imp_left fun hlength => by rw [List.length_cons, hlength]

section

variable {tokens : List Token} {finish : Token}

/-- The parse of a program has a bound that is large enough. -/
theorem parseTokens_of_settles (hfinish : Lexeme.isFinish finish.lexeme = true)
    {x : Except ParseError (Program × List Token)}
    (h : Settles (fun m => statements (below m)) (tokens ++ [finish]) x) :
    parseTokens (tokens ++ [finish]) = x.map Prod.fst := by
  obtain ⟨m, hm, hbound⟩ :=
    (h.and (Filter.eventually_ge_atTop (depthBound (tokens ++ [finish])))).exists
  rw [← statements_run_of_le hbound, finished_of_ends hfinish, hm]

theorem parseTokens_of_fails (hfinish : Lexeme.isFinish finish.lexeme = true)
    (h : Fails (fun m => statements (below m)) (tokens ++ [finish])) (program : Program) :
    parseTokens (tokens ++ [finish]) ≠ .ok program := by
  obtain ⟨m, ⟨e, hm⟩, hbound⟩ :=
    (h.and (Filter.eventually_ge_atTop (depthBound (tokens ++ [finish])))).exists
  rw [← statements_run_of_le hbound, finished_of_ends hfinish, hm]
  nofun

variable (hcut : Cut tokens finish [finish])
include hcut

/-- In a program no code of an interpolation breaks off. -/
theorem sound_of_parseTokens {program : Program}
    (h : parseTokens (tokens ++ [finish]) = .ok program) : Sound tokens := by
  cases (statements_completes (tokens.length + 1)).prospect hcut (Nat.lt_succ_self _) with
  | @taken a used left htokens hleft _ _ hruns =>
    -- Statements are read up to the end, so there is no token before it that stops them.
    obtain ⟨t, left, rfl⟩ := List.exists_cons_of_ne_nil hleft
    obtain ⟨m, hm, hlength⟩ :=
      ((hruns (t :: left) rfl).and (Filter.eventually_gt_atTop a.length)).exists
    obtain hbound | hfinish := items_run_ends hm
    · exact absurd hbound (Nat.ne_of_lt hlength)
    · rw [hcut.plain t (by rw [htokens]; simp)] at hfinish
      cases hfinish
  | whole _ hsound => exact hsound
  | short hrun | refused hrun =>
    rw [parseTokens_of_settles hcut.ends hrun] at h
    cases h
  | stuck hstuck => exact absurd h (parseTokens_of_fails hcut.ends (hstuck.fails _ hcut) program)

/-- Where more tokens are expected, there are lexemes that complete the program, or none does. -/
theorem parseTokens_completable {expected : String} {p : Position}
    (h : parseTokens (tokens ++ [finish]) = .error (.unexpectedEnd expected p)) :
    (∃ fill : List Word, ∀ back t, back.map Token.lexeme = fill.map Word.lexeme →
      t.lexeme = .finish → ∃ program, parseTokens (tokens ++ back ++ [t]) = .ok program) ∨
      Stuck (fun m => statements (below m)) tokens finish := by
  cases (statements_completes (tokens.length + 1)).prospect hcut (Nat.lt_succ_self _) with
  | @taken a used left htokens hleft _ _ hruns =>
    subst htokens
    obtain ⟨t, left, rfl⟩ := List.exists_cons_of_ne_nil hleft
    have hrun := hruns (t :: left ++ [finish]) rfl
    rw [← List.append_assoc] at hrun
    rw [parseTokens_of_settles hcut.ends hrun] at h
    cases h
  | whole _ _ hrun =>
    rw [parseTokens_of_settles hcut.ends hrun] at h
    cases h
  | @short _ fill _ hfill =>
    refine .inl ⟨fill, fun back t hback ht => ?_⟩
    obtain ⟨program, hrun⟩ := hfill back t [] hback ht
    rw [← List.append_assoc] at hrun
    exact ⟨program, parseTokens_of_settles (isFinish_iff.2 ht) hrun⟩
  | stuck hstuck => exact .inr hstuck
  | refused hrun he =>
    rw [parseTokens_of_settles hcut.ends hrun] at h
    exact absurd (Except.error.inj h) (he expected p)

end

end ScriptEngine.Grammar
