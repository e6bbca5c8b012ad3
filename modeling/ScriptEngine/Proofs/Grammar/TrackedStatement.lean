import ScriptEngine.Proofs.Grammar.TrackedExpression

/-!
# Programs that are cut off

Every production of a statement tracks itself. By induction on the weight of the tokens the whole
parser does, whatever bound it has, if it is large enough.
-/
namespace ScriptEngine.Grammar
open Text (Position)

section

variable {k i : Nat} {d d' : Deeper} (hd : Tracked k d d')
include hd

/-! Declarations -/

theorem declaration_tracks (position : Position) :
    Tracks 1 i i (k + 1) (declaration d position) (declaration d' position) := by
  refine (bindingPattern_tracks hd).bind fun p => ?_
  refine (typeAfter_tracks hd (.plain (by decide))).bind fun hint => ?_
  refine (Tracks.accept (.plain (by decide))).bind fun given => ?_
  exact .choose ((expression_tracks hd).map _).weak (.pure none) fun init =>
    Tracks.optionalSemicolon.bind fun _ => .pure _

theorem constantDeclaration_tracks (position : Position) :
    Tracks 1 i i (k + 1) (constantDeclaration d position) (constantDeclaration d' position) := by
  refine (bindingPattern_tracks hd).bind fun p => ?_
  refine ((typeAfter_tracks hd (.plain (by decide))).map _).bind fun _ => ?_
  refine (Tracks.accept (.plain (by decide))).after fun given => ?_
  split
  · exact (expression_tracks hd).weak.bind fun _ => Tracks.optionalSemicolon.bind fun _ => .pure _
  · exact .failHere (.inl rfl)

theorem functionDeclaration_tracks (isAsync : Bool) :
    Tracks 1 i i (k + 1) (functionDeclaration d isAsync) (functionDeclaration d' isAsync) :=
  Tracks.here.after fun _ => (Tracks.expectWord _ _).bind fun _ => Tracks.name.weak.bind fun _ =>
    (functionRest_tracks hd _ _ _).weak.bind fun _ => .pure _

theorem method_tracks : Tracks 1 i i (k + 1) (method d) (method d') :=
  (Tracks.acceptWord _).after fun _ => ((Tracks.acceptWord _).map _).after fun _ =>
    Tracks.here.after fun _ => Tracks.name.bind fun _ => (functionRest_tracks hd _ _ _).weak

omit hd in
theorem parentClass_tracks : Tracks 0 i i k parentClass parentClass := by
  refine (Tracks.accept (.plain (by decide))).after fun given => ?_
  split
  · exact Tracks.here.bind fun _ => Tracks.name.weak.bind fun _ => .pure _
  · exact .pure none

theorem classDeclaration_tracks :
    Tracks 1 i i (k + 1) (classDeclaration d) (classDeclaration d') :=
  Tracks.here.after fun _ => (Tracks.expectWord _ _).andThen fun _ => Tracks.name.weak.bind fun _ =>
    parentClass_tracks.bind fun _ => (Tracks.expect (.plain (by decide)) _).weak.bind fun _ =>
      (Tracks.itemsUntil hd.bound hd.bound' _
        ((method_tracks hd).mono (Nat.le_refl 1) (Nat.le_succ k))).bind fun _ =>
          (Tracks.expect (.plain (by decide)) _).weak.bind fun _ => .pure _

/-! Control flow -/

theorem condition_tracks (word : String) :
    Tracks 1 i i (k + 1) (condition d word) (condition d' word) :=
  (Tracks.expect .opens _).bind fun _ => (expression_tracks hd).weak.bind fun _ =>
    (Tracks.expect .closes _).weak.bind fun _ => .pure _

theorem branch_tracks {t : Token} {w : Keyword} (ht : t.lexeme = .keyword w) (position : Position) :
    TracksAt [t] 1 i i (k + 1) (branch d position) (branch d' position) := by
  refine .advance (balanced_of_keyword ht i) fun _ => ?_
  refine ((condition_tracks hd _).weak.mono (Nat.le_refl 0) (Nat.le_succ k)).bind fun c => ?_
  refine (hd.parse .statement i).weak.bind fun yes => (Tracks.acceptWord _).bind fun given => ?_
  exact .choose ((hd.parse .statement i).map _).weak (.pure none) fun _ => .pure _

theorem conditionalLoop_tracks {t : Token} {w : Keyword} (ht : t.lexeme = .keyword w)
    (position : Position) :
    TracksAt [t] 1 i i (k + 1) (conditionalLoop d position) (conditionalLoop d' position) := by
  refine .advance (balanced_of_keyword ht i) fun _ => ?_
  refine ((condition_tracks hd _).weak.mono (Nat.le_refl 0) (Nat.le_succ k)).bind fun c => ?_
  exact (hd.parse .statement i).weak.bind fun _ => .pure _

theorem loopStart_tracks : Tracks 1 i i (k + 1) (loopStart d) (loopStart d') := by
  refine .accept_bind (.plain (by decide)) (.pure none) (Tracks.here.after fun p => ?_)
  refine .acceptWord_bind ?_ ?_
  · exact ((declaration_tracks hd p).weak.mono (Nat.le_refl 0) (Nat.le_succ k)).bind fun _ =>
      .pure _
  · exact (expression_tracks hd).bind fun _ => (Tracks.expect (.plain (by decide)) _).weak.bind
      fun _ => .pure _

theorem countingLoop_tracks {t : Token} {w : Keyword} (ht : t.lexeme = .keyword w)
    (position : Position) :
    TracksAt [t] 1 i i (k + 1) (countingLoop d position) (countingLoop d' position) := by
  have hexpression : Tracks 0 (i + 1) (i + 1) k (expression d) (expression d') :=
    (expression_tracks hd).mono (Nat.zero_le 1) (Nat.le_succ k)
  refine .advance (balanced_of_keyword ht i) fun _ => (Tracks.expect .opens _).weak.bind fun _ => ?_
  refine ((loopStart_tracks hd).weak.mono (Nat.le_refl 0) (Nat.le_succ k)).bind fun start => ?_
  refine (Tracks.isNext _).bind fun endless => .choose (Tracks.here.map _) hexpression fun c => ?_
  refine (Tracks.expect (.plain (by decide)) _).weak.bind fun _ => (Tracks.isNext _).bind
    fun closed => .choose (.pure none) (hexpression.map _) fun step => ?_
  refine (Tracks.expect .closes _).weak.bind fun _ => (hd.parse .statement i).weak.bind fun s => ?_
  cases start with
  | none => exact .pure _
  | some first => exact .pure _

theorem attempt_tracks {t : Token} {w : Keyword} (ht : t.lexeme = .keyword w)
    (position : Position) :
    TracksAt [t] 1 i i (k + 1) (attempt d position) (attempt d' position) :=
  .advance (balanced_of_keyword ht i) fun _ => (hd.parse .statement i).weak.bind fun _ =>
    (Tracks.expectWord _ _).weak.bind fun _ => (Tracks.expect .opens _).weak.bind fun _ =>
      Tracks.name.weak.bind fun _ => (Tracks.expect .closes _).weak.bind fun _ =>
        (hd.parse .statement i).weak.bind fun _ => .pure _

theorem arm_tracks : Tracks 1 i i (k + 1) (arm d) (arm d') :=
  (matchPattern_tracks hd).andThen fun _ =>
    (Tracks.expect (.plain (by decide)) _).weak.bind fun _ =>
    (hd.parse .statement i).weak.bind fun _ =>
      ((Tracks.accept (.plain (by decide))).map _).bind fun _ => .pure _

theorem selection_tracks {t : Token} {w : Keyword} (ht : t.lexeme = .keyword w)
    (position : Position) :
    TracksAt [t] 1 i i (k + 1) (selection d position) (selection d' position) := by
  refine .advance (balanced_of_keyword ht i) fun _ => ?_
  refine ((condition_tracks hd _).weak.mono (Nat.le_refl 0) (Nat.le_succ k)).bind fun value => ?_
  refine (Tracks.expect (.plain (by decide)) _).weak.bind fun _ => ?_
  refine (Tracks.itemsUntil hd.bound hd.bound' _
    ((arm_tracks hd).mono (Nat.le_refl 1) (Nat.le_succ k))).bind fun arms => ?_
  exact (Tracks.expect (.plain (by decide)) _).weak.bind fun _ => .pure _

/-! Simple statements -/

theorem closedExpression_tracks : Tracks 1 i i (k + 1) (closedExpression d) (closedExpression d') :=
  (expression_tracks hd).bind fun _ => Tracks.optionalSemicolon.bind fun _ => .pure _

theorem returnStatement_tracks {t : Token} {w : Keyword} (ht : t.lexeme = .keyword w)
    (position : Position) :
    TracksAt [t] 1 i i (k + 1) (returnStatement d position) (returnStatement d' position) := by
  refine .advance (balanced_of_keyword ht i) fun _ => Tracks.atEnd.bind fun ended => ?_
  refine (Tracks.isNext _).bind fun closed => (Tracks.isNext _).bind fun braced => ?_
  have hvalue : Tracks 0 i i k (some <$> expression d) (some <$> expression d') :=
    ((expression_tracks hd).map _).mono (Nat.zero_le 1) (Nat.le_succ k)
  exact .choose (.pure none) hvalue fun _ => Tracks.optionalSemicolon.bind fun _ => .pure _

/-! Statements -/

theorem fn_finishes {t finish : Token} (ht : t.lexeme = .keyword .fnWord)
    (hfinish : Lexeme.isFinish finish.lexeme = true) :
    FinishAlike 1 i i [t] finish (functionDeclaration d false) (functionDeclaration d' false) := by
  have hbalanced : Balanced i i [t] := balanced_of_keyword ht i
  obtain ⟨l, p⟩ := t
  obtain rfl : l = _ := ht
  have hword : FinishAlike 1 i i [⟨.keyword .fnWord, p⟩] finish (expectWord .fnWord "'fn'")
      (expectWord .fnWord "'fn'") := ⟨rfl, .whole (Nat.le_refl 1) hbalanced⟩
  have hrest : Tracks 0 i i (k + 1)
      (do return Stmt.function (← functionRest d (← name) false p))
      (do return Stmt.function (← functionRest d' (← name) false p)) :=
    Tracks.name.weak.bind fun n => (functionRest_tracks hd n false p).weak.bind fun _ => .pure _
  -- The place of the declaration is that of its first word.
  have hplace (d : Deeper) : (functionDeclaration d false).run [⟨.keyword .fnWord, p⟩, finish] =
      (do
        expectWord .fnWord "'fn'"
        return Stmt.function (← functionRest d (← name) false p)).run
          [⟨.keyword .fnWord, p⟩, finish] := by
    unfold functionDeclaration
    rw [StateT.run_bind]
    rfl
  have hwhole := hword.bind fun _ => hrest.finishAlike (Nat.succ_pos k) hfinish
  unfold FinishAlike at hwhole ⊢
  rw [List.singleton_append, hplace, hplace]
  exact hwhole

omit hd in
theorem closedExpression_error {tokens : List Token} {e : ParseError}
    (h : (unary d).run tokens = .error e) : (closedExpression d).run tokens = .error e :=
  run_bind_error (expression_run_error h)

omit hd in
/-- The word `async` is the start of a function literal, which needs another word. -/
theorem async_run {t finish : Token} (ht : t.lexeme = .keyword .asyncWord)
    (hfinish : Lexeme.isFinish finish.lexeme = true) :
    (closedExpression d).run [t, finish] = .error (.unexpectedEnd "'fn'" finish.position) := by
  obtain ⟨l, p⟩ := t
  obtain ⟨l', p'⟩ := finish
  obtain rfl : l = _ := ht
  obtain rfl := isFinish_iff.1 hfinish
  have hprimary : (primary d).run [⟨.keyword .asyncWord, p⟩, ⟨.finish, p'⟩] =
      .error (.unexpectedEnd "'fn'" p') := rfl
  have haccess : (access d).run [⟨.keyword .asyncWord, p⟩, ⟨.finish, p'⟩] =
      .error (.unexpectedEnd "'fn'" p') := run_bind_error hprimary
  exact closedExpression_error haccess

theorem statement_tracks : Tracks 1 i i (k + 1) (statement d) (statement d') := by
  have hexpression (p : Position) : Tracks 1 i i (k + 1)
      (do return Stmt.expression (← closedExpression d) p)
      (do return Stmt.expression (← closedExpression d') p) :=
    (closedExpression_tracks hd).bind fun _ => .pure _
  refine .peek (fun t ht => ?_) fun t _ => ?_
  · simp only [isFinish_iff.1 ht]
    exact (hexpression t.position).finishAlike (Nat.succ_pos k) ht
  by_cases hfn : t.lexeme = .keyword .fnWord
  · rw [hfn]
    refine .peekSecond (fun u => ?_) fun finish hfinish => ?_
    · dsimp only
      split
      · exact .of_tracks (hexpression _)
      · exact .of_tracks (functionDeclaration_tracks hd false)
    · exact fn_finishes hd hfn hfinish
  by_cases hasync : t.lexeme = .keyword .asyncWord
  · rw [hasync]
    refine .peekSecond (fun u => ?_) fun finish hfinish => ?_
    · dsimp only
      split
      · exact .advance (balanced_of_keyword hasync i) fun _ =>
          ((functionDeclaration_tracks hd true).mono (Nat.zero_le 1) (Nat.le_succ k))
      · exact .of_tracks (hexpression _)
    · have hrun (d : Deeper) : (do return Stmt.expression (← closedExpression d) t.position).run
          [t, finish] = .error (.unexpectedEnd "'fn'" finish.position) :=
        run_bind_error (async_run hasync hfinish)
      refine ⟨(hrun d').trans (hrun d).symm, ?_⟩
      change Finishes 1 i i [t] finish
        ((do return Stmt.expression (← closedExpression d) t.position).run [t, finish])
      rw [hrun]
      exact .cut (.ended _) ((balanced_of_keyword hasync i).cut hfinish)
  refine .peekSecond_any fun x y => ?_
  split
  case h_3 hl => exact absurd hl hfn
  case h_4 hl => exact absurd hl hasync
  case h_1 hl =>
    exact .advance (balanced_of_keyword hl i) fun _ =>
      (declaration_tracks hd _).mono (Nat.zero_le 1) (Nat.le_succ k)
  case h_2 hl =>
    exact .advance (balanced_of_keyword hl i) fun _ =>
      (constantDeclaration_tracks hd _).mono (Nat.zero_le 1) (Nat.le_succ k)
  case h_5 => exact .of_tracks (classDeclaration_tracks hd)
  case h_6 => exact .of_tracks ((body_tracks hd).bind fun _ => .pure _)
  case h_7 hl => exact branch_tracks hd hl _
  case h_8 hl => exact conditionalLoop_tracks hd hl _
  case h_9 hl => exact countingLoop_tracks hd hl _
  case h_10 hl => exact returnStatement_tracks hd hl _
  case h_11 hl | h_12 hl | h_13 hl =>
    exact .advance (balanced_of_keyword hl i) fun _ =>
      ((closedExpression_tracks hd).mono (Nat.zero_le 1) (Nat.le_succ k)).bind fun _ => .pure _
  case h_14 hl => exact attempt_tracks hd hl _
  case h_15 hl => exact selection_tracks hd hl _
  case h_16 hl | h_17 hl =>
    exact .advance (balanced_of_keyword hl i) fun _ => Tracks.optionalSemicolon.bind fun _ =>
      .pure _
  case h_18 => exact .of_tracks (hexpression _)

theorem produce_tracks (goal : Goal) :
    Tracks 1 i i (k + 1) (produce d goal) (produce d' goal) := by
  cases goal with
  | expression => exact expression_tracks hd
  | unary => exact unary_tracks hd
  | statement => exact statement_tracks hd
  | bindingPattern => exact bindingPattern_tracks hd
  | matchPattern => exact matchPattern_tracks hd
  | typeName => exact typeName_tracks hd

end

theorem finished_of_ends {tokens : List Token} {finish : Token}
    (hfinish : Lexeme.isFinish finish.lexeme = true) :
    finished (tokens ++ [finish]) = tokens ++ [finish] := by
  rw [finished, List.getLast?_concat]
  simp only [hfinish, if_true]

theorem Tracked.of_tracks {k n m : Nat}
    (h : ∀ l ≤ k, ∀ n m, l ≤ n → l ≤ m → ∀ goal i,
      Tracks 1 i i l (parseWithin n goal) (parseWithin m goal)) (hn : k ≤ n) (hm : k ≤ m) :
    Tracked k ⟨n, parseWithin n⟩ ⟨m, parseWithin m⟩ where
  bound := hn
  bound' := hm
  parse := h k (Nat.le_refl k) n m hn hm
  alone {tokens finish} hcut hweight := by
    have hdepth : weight tokens + 1 ≤ depthBound (tokens ++ [finish]) := by
      rw [depthBound_eq, weight_append]
      omega
    rw [parseExpression, finished_of_ends hcut.ends]
    exact (h (weight tokens + 1) hweight _ n hdepth (by omega) .expression 0 hcut
      (Nat.lt_succ_self _)).eq_of_self

/-- Bounds that are large enough do not matter, and a parse of tokens that are cut off goes as the
parse of the tokens as they go on, up to the cut. -/
theorem parseWithin_tracks (k n m : Nat) (hn : k ≤ n) (hm : k ≤ m) (goal : Goal) (i : Nat) :
    Tracks 1 i i k (parseWithin n goal) (parseWithin m goal) := by
  induction k using Nat.strongRecOn generalizing n m goal i with
  | _ k ih =>
    cases k with
    | zero => exact .zero
    | succ k =>
      obtain ⟨n, rfl⟩ : ∃ l, n = l + 1 := ⟨n - 1, by omega⟩
      obtain ⟨m, rfl⟩ : ∃ l, m = l + 1 := ⟨m - 1, by omega⟩
      exact produce_tracks (.of_tracks (fun l hl => ih l (Nat.lt_succ_of_le hl))
        (Nat.le_of_succ_le_succ hn) (Nat.le_of_succ_le_succ hm)) goal

theorem statements_tracks {k i : Nat} {d d' : Deeper} (hd : Tracked k d d') :
    Tracks 0 i i k (statements d) (statements d') :=
  .items (Tracks.atEnd.bind fun _ => .pure _) ((hd.parse .statement i).bind fun _ => .pure _)
    hd.bound hd.bound'

end ScriptEngine.Grammar
