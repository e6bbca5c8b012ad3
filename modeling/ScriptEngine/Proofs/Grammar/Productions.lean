import ScriptEngine.Proofs.Grammar.Progress
import ScriptEngine.Proofs.Grammar.TrackedStatement

/-!
# Every production makes progress

A production is steady if those it uses one level deeper are. So the whole parser is, by induction
on the weight of the tokens.
-/
namespace ScriptEngine.Grammar
open Text (Position)

/-- The parsers one level deeper are steady on tokens of a weight below `k`. -/
structure SteadyBelow (k : Nat) (d d' : Deeper) : Prop where
  bound : k ≤ d.bound
  bound' : k ≤ d'.bound
  parse : ∀ goal, Steady 1 k (d.parse goal) (d'.parse goal)

theorem SteadyBelow.mono {k k' : Nat} {d d' : Deeper} (hd : SteadyBelow k d d') (hk : k' ≤ k) :
    SteadyBelow k' d d' where
  bound := Nat.le_trans hk hd.bound
  bound' := Nat.le_trans hk hd.bound'
  parse goal := (hd.parse goal).mono (Nat.le_refl 1) hk

section

variable {k : Nat} {p q : Parser Pattern}

/-! Patterns -/

theorem patternElement_steady (h : Steady 1 k p q) :
    Steady 1 k (patternElement p) (patternElement q) := by
  refine (Steady.accept .dots).after fun spread => h.bind fun p => ?_
  refine (Steady.isNext .closeBracket).after fun last => ?_
  dsimp only
  split
  · exact .failHere nofun
  · exact .pure _

theorem patternField_steady (h : Steady 1 k p q) :
    Steady 1 k (patternField p) (patternField q) := by
  refine Steady.propertyName.bind fun key => (Steady.accept .colon).after fun given => ?_
  split
  · exact (h.bind fun _ => .pure _).weak
  · exact .pure _

variable {d d' : Deeper} (hd : SteadyBelow k d d')
include hd

theorem arrayPattern_steady (h : Steady 1 k p q) :
    Steady 1 (k + 1) (arrayPattern d p) (arrayPattern d' q) :=
  (Steady.expect _ _).andThen fun _ =>
    (Steady.commaItems hd.bound hd.bound' _ (patternElement_steady h)).bind fun _ =>
      (Steady.expect _ _).weak.bind fun _ => .pure _

theorem objectPattern_steady (h : Steady 1 k p q) :
    Steady 1 (k + 1) (objectPattern d p) (objectPattern d' q) :=
  (Steady.expect _ _).andThen fun _ =>
    (Steady.commaItems hd.bound hd.bound' _ (patternField_steady h)).bind fun _ =>
      (Steady.expect _ _).weak.bind fun _ => .pure _

theorem structuredPattern_steady (h : Steady 1 k p q) (expected : String) :
    Steady 1 (k + 1) (structuredPattern d p expected) (structuredPattern d' q expected) := by
  refine .peek (fun t ht => ?_) fun t _ => ?_
  · simp only [isFinish_iff.1 ht]
    exact .unexpected _
  · split
    · exact .of_steady (Steady.name.bind fun _ => .pure _)
    · exact .of_steady (arrayPattern_steady hd h)
    · exact .of_steady (objectPattern_steady hd h)
    · exact .of_steady (.unexpected _)

theorem bindingPattern_steady : Steady 1 (k + 1) (bindingPattern d) (bindingPattern d') :=
  structuredPattern_steady hd (hd.parse .bindingPattern) _

theorem matchPattern_steady : Steady 1 (k + 1) (matchPattern d) (matchPattern d') := by
  have hstructured : Steady 1 (k + 1)
      (structuredPattern d (d.parse .matchPattern) "match pattern")
      (structuredPattern d' (d'.parse .matchPattern) "match pattern") :=
    structuredPattern_steady hd (hd.parse .matchPattern) _
  refine .peek (fun t ht => ?_) fun t _ => .peekSecond fun second => ?_
  · have hnone (x : Option Lexeme) : leadingLiteral? .finish x = none := rfl
    simp only [isFinish_iff.1 ht, hnone]
    exact Steady.peekSecond.after fun _ => hstructured
  · cases leadingLiteral? t.lexeme second with
    | none => exact .of_steady hstructured
    | some literal =>
      dsimp only
      split
      · exact .advance (Steady.advance.bind fun _ => .pure _)
      · exact .advance (.pure _)

theorem typeName_steady : Steady 1 (k + 1) (typeName d) (typeName d') := by
  refine .accept_bind ?_ (.acceptWord_bind ?_ ?_)
  · exact ((hd.parse .typeName).bind fun _ => (Steady.expect _ _).weak.bind fun _ => .pure _).weak
  · exact .pure _
  · exact .name

theorem typeAfter_steady (sign : Symbol) :
    Steady 0 (k + 1) (typeAfter d sign) (typeAfter d' sign) := by
  refine (Steady.accept sign).after fun given => ?_
  split
  · exact ((typeName_steady hd).bind fun _ => .pure _).weak
  · exact .pure _

/-! Functions -/

theorem parameter_steady : Steady 1 (k + 1) (parameter d) (parameter d') := by
  refine (bindingPattern_steady hd).andThen fun p => ?_
  refine (((typeAfter_steady hd .colon).mono (Nat.le_refl 0) (Nat.le_succ k)).map _).after
    fun _ => (Steady.accept .equal).after fun given => ?_
  split
  · exact ((hd.parse .expression).bind fun _ => .pure _).weak
  · exact .pure _

theorem parameters_steady : Steady 1 k (parameters d) (parameters d') :=
  .closedList hd.bound hd.bound' _ ((parameter_steady hd).mono (Nat.le_refl 1) (Nat.le_succ k))

theorem body_steady : Steady 1 (k + 1) (body d) (body d') :=
  (Steady.expect _ _).andThen fun _ =>
    (Steady.itemsUntil hd.bound hd.bound' _ (hd.parse .statement)).bind fun _ =>
      (Steady.expect _ _).weak.bind fun _ => .pure _

theorem functionRest_steady (name : String) (isAsync : Bool) (position : Position) :
    Steady 1 (k + 1) (functionRest d name isAsync position)
      (functionRest d' name isAsync position) := by
  refine (Steady.expect _ _).andThen fun _ => (parameters_steady hd).weak.bind fun params => ?_
  refine ((typeAfter_steady hd .thinArrow).bind fun returnType => ?_).mono (Nat.le_refl 0)
    (Nat.le_succ k)
  exact (body_steady hd).weak.bind fun _ => .pure _

theorem arrowRest_steady (params : List (Pattern × Option Expr)) (position : Position) :
    Steady 1 k (arrowRest d params position) (arrowRest d' params position) := by
  refine (Steady.isNext _).after fun braces => ?_
  split
  · exact ((body_steady hd).mono (Nat.le_refl 1) (Nat.le_succ k)).bind fun _ => .pure _
  · exact Steady.here.after fun p => (hd.parse .expression).bind fun e => .pure _

theorem functionLiteral_steady (position : Position) :
    Steady 1 (k + 1) (functionLiteral d position) (functionLiteral d' position) :=
  (Steady.acceptWord _).after fun _ => (Steady.expectWord _ _).bind fun _ =>
    (functionRest_steady hd _ _ _).weak.bind fun _ => .pure _

/-! Templates -/

omit hd in
/-- Nothing may be left behind the code of an interpolation. -/
theorem interpolationEnd_steady :
    Steady 0 k (do unless ← atEnd do unexpected "end of template interpolation" : Parser Unit)
      (do unless ← atEnd do unexpected "end of template interpolation") := by
  refine Steady.atEnd.after fun ended => ?_
  cases ended
  · exact .unexpected _
  · exact .pure ()

/-- The parts of a template depend on no bound, and fail only by the code in them. -/
theorem templateParts_steady {chunks : List TemplateChunk} (hweight : chunksWeight chunks < k) :
    templateParts d' chunks = templateParts d chunks ∧
      ∀ e, templateParts d chunks = .error e → ¬e.IsFault := by
  induction chunks with
  | nil => exact ⟨rfl, nofun⟩
  | cons chunk rest ih =>
    rw [chunksWeight_cons] at hweight
    obtain ⟨hsame, hrest⟩ := ih (by omega)
    cases chunk with
    | text s =>
      simp only [templateParts, hsame]
      refine ⟨trivial, fun e he => ?_⟩
      obtain he | ⟨_, -, he⟩ := error_of_bind he
      · exact hrest e he
      · cases he
    | code source position =>
      simp only [chunkWeight] at hweight
      simp only [templateParts, hsame]
      cases hscan : Token.scanAt position source with
      | error e =>
        refine ⟨rfl, ?_⟩
        rintro _ ⟨⟩
        exact id
      | ok tokens =>
      obtain ⟨init, finish, rfl, hplain, hfinish, hinit⟩ := tokensFrom_weight hscan
      rw [String.length_toList] at hinit
      have hclosed : Closed init [finish] := ⟨hplain, finish, [], rfl, hfinish⟩
      obtain ⟨hrun, hout⟩ := hd.parse .expression hclosed (by omega)
      change ((d'.parse .expression).run _ >>= _) = ((d.parse .expression).run _ >>= _) ∧
        ∀ e, ((d.parse .expression).run _ >>= _) = .error e → _
      rw [hrun]
      refine ⟨rfl, fun e he => ?_⟩
      revert hout he
      generalize (d.parse .expression).run (init ++ [finish]) = x
      intro hout he
      cases hout with
      | error hfault =>
        cases he
        exact hfault
      | @ok a used left htokens hs =>
        have hleft : Closed left [finish] := by
          subst htokens
          exact hclosed.suffix
        obtain ⟨-, hout⟩ := interpolationEnd_steady hleft (Nat.lt_succ_self _)
        obtain ⟨⟨⟩⟩ | ⟨_, ⟨⟩, he⟩ := error_of_bind he
        obtain he | ⟨_, -, he⟩ := error_of_bind he
        · rw [he] at hout
          cases hout
          assumption
        · obtain he | ⟨_, -, he⟩ := error_of_bind he
          · exact hrest e he
          · cases he

theorem template_steady {t : Token} {chunks : List TemplateChunk}
    (ht : t.lexeme = .template chunks) (position : Position) :
    SteadyAt t 1 (k + 1)
      (do advance; return Expr.template (← templateParts d chunks) position)
      (do advance; return Expr.template (← templateParts d' chunks) position) := by
  refine .of_weight fun hweight => ?_
  rw [tokenWeight_template ht] at hweight
  obtain ⟨hsame, hfault⟩ := templateParts_steady hd (by omega : chunksWeight chunks < k)
  rw [hsame]
  cases hparts : templateParts d chunks with
  | ok parts => exact .advance (.pure (Expr.template parts position))
  | error e => exact .advance (.fail (hfault e hparts))

/-! Operands -/

theorem arrayElement_steady : Steady 1 k (arrayElement d) (arrayElement d') :=
  (Steady.accept _).after fun _ => (hd.parse .expression).bind fun _ => .pure _

theorem arrayLiteral_steady : Steady 1 (k + 1) (arrayLiteral d) (arrayLiteral d') :=
  Steady.here.after fun _ => (Steady.expect _ _).andThen fun _ =>
    (Steady.commaItems hd.bound hd.bound' _ (arrayElement_steady hd)).bind fun _ =>
      (Steady.expect _ _).weak.bind fun _ => .pure _

theorem objectField_steady : Steady 1 k (objectField d) (objectField d') := by
  refine Steady.here.after fun p => Steady.propertyName.bind fun key =>
    (Steady.accept .colon).after fun given => ?_
  split
  · exact ((hd.parse .expression).bind fun _ => .pure _).weak
  · exact .pure _

theorem objectLiteral_steady : Steady 1 (k + 1) (objectLiteral d) (objectLiteral d') :=
  Steady.here.after fun _ => (Steady.expect _ _).andThen fun _ =>
    (Steady.commaItems hd.bound hd.bound' _ (objectField_steady hd)).bind fun _ =>
      (Steady.expect _ _).weak.bind fun _ => .pure _

theorem parenthesized_steady {t : Token} (ht : t.lexeme = .symbol .openParen)
    (position : Position) :
    SteadyAt t 1 (k + 1) (parenthesized d position) (parenthesized d' position) := by
  refine .arrow ht fun tokens ahead hahead => ?_
  rw [hahead]
  cases ahead with
  | true =>
    exact .advance ((parameters_steady hd).weak.bind fun _ => (Steady.expect _ _).weak.bind
      fun _ => (arrowRest_steady hd _ _).weak)
  | false =>
    exact .advance ((hd.parse .expression).weak.bind fun _ => (Steady.expect _ _).weak.bind
      fun _ => .pure _)

theorem primary_steady : Steady 1 (k + 1) (primary d) (primary d') := by
  refine .peek (fun t ht => ?_) fun t _ => ?_
  · simp only [isFinish_iff.1 ht]
    exact .unexpected _
  dsimp only
  split
  case h_1 | h_2 | h_3 | h_4 | h_5 => exact .advance (.pure _)
  case h_6 chunks hl => exact template_steady hd hl _
  case h_7 => exact .advance (.pure _)
  case h_8 =>
    exact .advance ((Steady.expect _ _).weak.bind fun _ => Steady.name.weak.bind fun _ => .pure _)
  case h_9 n _ =>
    refine .peekSecond fun second => .advance ?_
    split
    · exact Steady.advance.bind fun _ => (arrowRest_steady hd _ _).weak
    · exact .pure _
  case h_10 hl => exact parenthesized_steady hd hl _
  case h_11 => exact .of_steady (arrayLiteral_steady hd)
  case h_12 => exact .of_steady (objectLiteral_steady hd)
  case h_13 | h_14 => exact .of_steady (functionLiteral_steady hd _)
  case h_15 => exact .of_steady (.unexpected _)

theorem accessesOf_steady {n m : Nat} (hn : k ≤ n) (hm : k ≤ m) (e : Expr) :
    Steady 0 k (accessesOf d n e) (accessesOf d' m e) := by
  induction k generalizing n m e with
  | zero => exact .zero
  | succ k ih =>
    obtain ⟨n, rfl⟩ : ∃ l, n = l + 1 := ⟨n - 1, by omega⟩
    obtain ⟨m, rfl⟩ : ∃ l, m = l + 1 := ⟨m - 1, by omega⟩
    have hd' : SteadyBelow k d d' := hd.mono (Nat.le_succ k)
    have hagain (e : Expr) : Steady 0 k (accessesOf d n e) (accessesOf d' m e) :=
      ih hd' (by omega) (by omega) e
    refine .peek (fun t ht => ?_) fun t _ => ?_
    · simp only [isFinish_iff.1 ht]
      exact .pure e
    split
    · exact .weaken (.advance ((Steady.closedList hd'.bound hd'.bound' _
        (hd'.parse .expression)).weak.bind fun _ => hagain _)) (Nat.zero_le 1)
    · exact .weaken (.advance (Steady.propertyName.weak.bind fun _ => hagain _)) (Nat.zero_le 1)
    · exact .weaken (.advance (Steady.propertyName.weak.bind fun _ => hagain _)) (Nat.zero_le 1)
    · exact .weaken (.advance ((hd'.parse .expression).weak.bind fun _ =>
        (Steady.expect _ _).weak.bind fun _ => hagain _)) (Nat.zero_le 1)
    · exact .of_steady (.pure e)

theorem access_steady : Steady 1 (k + 1) (access d) (access d') :=
  (primary_steady hd).andThen fun e => accessesOf_steady hd hd.bound hd.bound' e

theorem unary_steady : Steady 1 (k + 1) (unary d) (unary d') := by
  refine .peek (fun t ht => ?_) fun t _ => ?_
  · simp only [isFinish_iff.1 ht]
    exact access_steady hd
  split
  case h_1 | h_2 | h_3 => exact .advance ((hd.parse .unary).weak.bind fun _ => .pure _)
  case h_4 => exact .advance (hd.parse .unary).weak
  case h_5 => exact .of_steady (access_steady hd)

/-! Operators -/

omit hd in
theorem chainRest_steady {operators : Operators} {operand operand' : Parser Expr}
    (hfinish : operators .finish = none) (hoperand : Steady 1 k operand operand') {n m : Nat}
    (hn : k ≤ n) (hm : k ≤ m) (left : Expr) :
    Steady 0 k (chainRest operators operand n left) (chainRest operators operand' m left) := by
  induction k generalizing n m left with
  | zero => exact .zero
  | succ k ih =>
    obtain ⟨n, rfl⟩ : ∃ l, n = l + 1 := ⟨n - 1, by omega⟩
    obtain ⟨m, rfl⟩ : ∃ l, m = l + 1 := ⟨m - 1, by omega⟩
    have hoperand' : Steady 1 k operand operand' := hoperand.mono (Nat.le_refl 1) (Nat.le_succ k)
    refine .peek (fun t ht => ?_) fun t _ => ?_
    · rw [isFinish_iff.1 ht, hfinish]
      exact .pure left
    cases operators t.lexeme with
    | none => exact .of_steady (.pure left)
    | some join =>
      exact .weaken (.advance (hoperand'.weak.bind fun _ =>
        ih hoperand' (by omega) (by omega) _)) (Nat.zero_le 1)

theorem chain_steady {operators : Operators} {operand operand' : Parser Expr}
    (hfinish : operators .finish = none) (hoperand : Steady 1 (k + 1) operand operand') :
    Steady 1 (k + 1) (chain d operators operand) (chain d' operators operand') :=
  hoperand.andThen fun left => chainRest_steady hfinish
    (hoperand.mono (Nat.le_refl 1) (Nat.le_succ k)) hd.bound hd.bound' left

theorem product_steady : Steady 1 (k + 1) (product d) (product d') :=
  chain_steady hd rfl (unary_steady hd)

theorem sum_steady : Steady 1 (k + 1) (sum d) (sum d') := chain_steady hd rfl (product_steady hd)

theorem comparison_steady : Steady 1 (k + 1) (comparison d) (comparison d') :=
  chain_steady hd rfl (sum_steady hd)

theorem equality_steady : Steady 1 (k + 1) (equality d) (equality d') :=
  chain_steady hd rfl (comparison_steady hd)

theorem both_steady : Steady 1 (k + 1) (both d) (both d') :=
  chain_steady hd rfl (equality_steady hd)

theorem either_steady : Steady 1 (k + 1) (either d) (either d') :=
  chain_steady hd rfl (both_steady hd)

theorem coalesce_steady : Steady 1 (k + 1) (coalesce d) (coalesce d') :=
  chain_steady hd rfl (either_steady hd)

theorem pipe_steady : Steady 1 (k + 1) (pipe d) (pipe d') :=
  chain_steady hd rfl (coalesce_steady hd)

theorem expression_steady : Steady 1 (k + 1) (expression d) (expression d') := by
  refine (pipe_steady hd).andThen fun target => Steady.here.after fun p =>
    (Steady.accept .equal).after fun given => ?_
  split
  · refine (hd.parse .expression).weak.bind fun value => ?_
    cases assignTo? target value p with
    | some e => exact .pure e
    | none => exact .fail nofun
  · exact .pure target

/-! Declarations -/

theorem declaration_steady (position : Position) :
    Steady 1 (k + 1) (declaration d position) (declaration d' position) := by
  refine (bindingPattern_steady hd).bind fun p => (typeAfter_steady hd .colon).bind fun hint =>
    (Steady.accept .equal).bind fun given => ?_
  exact .choose ((expression_steady hd).map _).weak (.pure none) fun init =>
    Steady.optionalSemicolon.bind fun _ => .pure _

theorem constantDeclaration_steady (position : Position) :
    Steady 1 (k + 1) (constantDeclaration d position) (constantDeclaration d' position) := by
  refine (bindingPattern_steady hd).bind fun p => ((typeAfter_steady hd .colon).map _).bind
    fun _ => (Steady.accept .equal).after fun given => ?_
  split
  · exact (expression_steady hd).weak.bind fun _ => Steady.optionalSemicolon.bind fun _ => .pure _
  · exact .failHere nofun

theorem functionDeclaration_steady (isAsync : Bool) :
    Steady 1 (k + 1) (functionDeclaration d isAsync) (functionDeclaration d' isAsync) :=
  Steady.here.after fun _ => (Steady.expectWord _ _).bind fun _ => Steady.name.weak.bind fun _ =>
    (functionRest_steady hd _ _ _).weak.bind fun _ => .pure _

theorem method_steady : Steady 1 (k + 1) (method d) (method d') :=
  (Steady.acceptWord _).after fun _ => ((Steady.acceptWord _).map _).after fun _ =>
    Steady.here.after fun _ => Steady.name.bind fun _ => (functionRest_steady hd _ _ _).weak

omit hd in
theorem parentClass_steady : Steady 0 k parentClass parentClass := by
  refine (Steady.accept .less).after fun given => ?_
  split
  · exact Steady.here.bind fun _ => Steady.name.weak.bind fun _ => .pure _
  · exact .pure none

theorem classDeclaration_steady :
    Steady 1 (k + 1) (classDeclaration d) (classDeclaration d') :=
  Steady.here.after fun _ => (Steady.expectWord _ _).andThen fun _ => Steady.name.weak.bind fun _ =>
    parentClass_steady.bind fun _ => (Steady.expect _ _).weak.bind fun _ =>
      (Steady.itemsUntil hd.bound hd.bound' _
        ((method_steady hd).mono (Nat.le_refl 1) (Nat.le_succ k))).bind fun _ =>
          (Steady.expect _ _).weak.bind fun _ => .pure _

/-! Control flow -/

theorem condition_steady (word : String) :
    Steady 1 (k + 1) (condition d word) (condition d' word) :=
  (Steady.expect _ _).bind fun _ => (expression_steady hd).weak.bind fun _ =>
    (Steady.expect _ _).weak.bind fun _ => .pure _

theorem branch_steady (t : Token) (position : Position) :
    SteadyAt t 1 (k + 1) (branch d position) (branch d' position) := by
  refine .advance (((condition_steady hd _).weak.mono (Nat.le_refl 0) (Nat.le_succ k)).bind
    fun c => (hd.parse .statement).weak.bind fun yes => (Steady.acceptWord _).bind fun given => ?_)
  exact .choose ((hd.parse .statement).map _).weak (.pure none) fun _ => .pure _

theorem conditionalLoop_steady (t : Token) (position : Position) :
    SteadyAt t 1 (k + 1) (conditionalLoop d position) (conditionalLoop d' position) :=
  .advance (((condition_steady hd _).weak.mono (Nat.le_refl 0) (Nat.le_succ k)).bind fun _ =>
    (hd.parse .statement).weak.bind fun _ => .pure _)

theorem loopStart_steady : Steady 1 (k + 1) (loopStart d) (loopStart d') := by
  refine .accept_bind (.pure none) (Steady.here.after fun p => .acceptWord_bind ?_ ?_)
  · exact ((declaration_steady hd p).weak.mono (Nat.le_refl 0) (Nat.le_succ k)).bind fun _ =>
      .pure _
  · exact (expression_steady hd).bind fun _ => (Steady.expect _ _).weak.bind fun _ => .pure _

theorem countingLoop_steady (t : Token) (position : Position) :
    SteadyAt t 1 (k + 1) (countingLoop d position) (countingLoop d' position) := by
  have hexpression : Steady 0 k (expression d) (expression d') :=
    (expression_steady hd).mono (Nat.zero_le 1) (Nat.le_succ k)
  refine .advance ((Steady.expect _ _).weak.bind fun _ => ?_)
  refine ((loopStart_steady hd).weak.mono (Nat.le_refl 0) (Nat.le_succ k)).bind fun start => ?_
  refine (Steady.isNext _).bind fun endless => .choose (Steady.here.map _) hexpression fun c => ?_
  refine (Steady.expect _ _).weak.bind fun _ => (Steady.isNext _).bind fun closed =>
    .choose (.pure none) (hexpression.map _) fun step => ?_
  refine (Steady.expect _ _).weak.bind fun _ => (hd.parse .statement).weak.bind fun s => ?_
  cases start with
  | none => exact .pure _
  | some first => exact .pure _

theorem attempt_steady (t : Token) (position : Position) :
    SteadyAt t 1 (k + 1) (attempt d position) (attempt d' position) :=
  .advance ((hd.parse .statement).weak.bind fun _ => (Steady.expectWord _ _).weak.bind fun _ =>
    (Steady.expect _ _).weak.bind fun _ => Steady.name.weak.bind fun _ =>
      (Steady.expect _ _).weak.bind fun _ => (hd.parse .statement).weak.bind fun _ => .pure _)

theorem arm_steady : Steady 1 (k + 1) (arm d) (arm d') :=
  (matchPattern_steady hd).andThen fun _ => (Steady.expect _ _).weak.bind fun _ =>
    (hd.parse .statement).weak.bind fun _ => ((Steady.accept _).map _).bind fun _ => .pure _

theorem selection_steady (t : Token) (position : Position) :
    SteadyAt t 1 (k + 1) (selection d position) (selection d' position) :=
  .advance (((condition_steady hd _).weak.mono (Nat.le_refl 0) (Nat.le_succ k)).bind fun _ =>
    (Steady.expect _ _).weak.bind fun _ => (Steady.itemsUntil hd.bound hd.bound' _
      ((arm_steady hd).mono (Nat.le_refl 1) (Nat.le_succ k))).bind fun _ =>
        (Steady.expect _ _).weak.bind fun _ => .pure _)

/-! Statements -/

theorem closedExpression_steady : Steady 1 (k + 1) (closedExpression d) (closedExpression d') :=
  (expression_steady hd).bind fun _ => Steady.optionalSemicolon.bind fun _ => .pure _

theorem returnStatement_steady (t : Token) (position : Position) :
    SteadyAt t 1 (k + 1) (returnStatement d position) (returnStatement d' position) := by
  refine .advance (Steady.atEnd.bind fun ended => (Steady.isNext _).bind fun closed =>
    (Steady.isNext _).bind fun braced => ?_)
  have hvalue : Steady 0 k (some <$> expression d) (some <$> expression d') :=
    ((expression_steady hd).map _).mono (Nat.zero_le 1) (Nat.le_succ k)
  exact .choose (.pure none) hvalue fun _ => Steady.optionalSemicolon.bind fun _ => .pure _

theorem statement_steady : Steady 1 (k + 1) (statement d) (statement d') := by
  have hexpression (p : Position) : Steady 1 (k + 1)
      (do return Stmt.expression (← closedExpression d) p)
      (do return Stmt.expression (← closedExpression d') p) :=
    (closedExpression_steady hd).bind fun _ => .pure _
  have hlower {α : Type} {p q : Parser α} (h : Steady 1 (k + 1) p q) : Steady 0 k p q :=
    h.mono (Nat.zero_le 1) (Nat.le_succ k)
  refine .peek (fun t ht => ?_) fun t _ => .peekSecond fun second => ?_
  · simp only [isFinish_iff.1 ht]
    exact Steady.peekSecond.after fun _ => hexpression t.position
  split
  case h_1 => exact .advance (hlower (declaration_steady hd _))
  case h_2 => exact .advance (hlower (constantDeclaration_steady hd _))
  case h_3 =>
    split
    · exact .of_steady (hexpression _)
    · exact .of_steady (functionDeclaration_steady hd false)
  case h_4 =>
    split
    · exact .advance (hlower (functionDeclaration_steady hd true))
    · exact .of_steady (hexpression _)
  case h_5 => exact .of_steady (classDeclaration_steady hd)
  case h_6 => exact .of_steady ((body_steady hd).bind fun _ => .pure _)
  case h_7 => exact branch_steady hd t _
  case h_8 => exact conditionalLoop_steady hd t _
  case h_9 => exact countingLoop_steady hd t _
  case h_10 => exact returnStatement_steady hd t _
  case h_11 | h_12 | h_13 =>
    exact .advance ((hlower (closedExpression_steady hd)).bind fun _ => .pure _)
  case h_14 => exact attempt_steady hd t _
  case h_15 => exact selection_steady hd t _
  case h_16 | h_17 => exact .advance (Steady.optionalSemicolon.bind fun _ => .pure _)
  case h_18 => exact .of_steady (hexpression _)

theorem produce_steady (goal : Goal) : Steady 1 (k + 1) (produce d goal) (produce d' goal) := by
  cases goal with
  | expression => exact expression_steady hd
  | unary => exact unary_steady hd
  | statement => exact statement_steady hd
  | bindingPattern => exact bindingPattern_steady hd
  | matchPattern => exact matchPattern_steady hd
  | typeName => exact typeName_steady hd

theorem statements_steady : Steady 0 k (statements d) (statements d') :=
  .items (Steady.atEnd.bind fun _ => .pure _) ((hd.parse .statement).bind fun _ => .pure _)
    hd.bound hd.bound'

end

/-- With enough levels to nest, every production is steady at the bottom of the recursion. -/
theorem parseWithin_steady {k n m : Nat} (hn : k ≤ n) (hm : k ≤ m) (goal : Goal) :
    Steady 1 k (parseWithin n goal) (parseWithin m goal) := by
  induction k generalizing n m goal with
  | zero => exact .zero
  | succ k ih =>
    obtain ⟨n, rfl⟩ : ∃ l, n = l + 1 := ⟨n - 1, by omega⟩
    obtain ⟨m, rfl⟩ : ∃ l, m = l + 1 := ⟨m - 1, by omega⟩
    have hn' := Nat.le_of_succ_le_succ hn
    have hm' := Nat.le_of_succ_le_succ hm
    exact produce_steady ⟨hn', hm', ih hn' hm'⟩ goal

theorem steadyBelow_parseWithin {k n m : Nat} (hn : k ≤ n) (hm : k ≤ m) :
    SteadyBelow k ⟨n, parseWithin n⟩ ⟨m, parseWithin m⟩ :=
  ⟨hn, hm, parseWithin_steady hn hm⟩

end ScriptEngine.Grammar
