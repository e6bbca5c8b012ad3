import ScriptEngine.Proofs.Grammar.Cursor

/-!
# Expressions that are cut off

Every production of an expression tracks itself, if those it uses one level deeper do.
-/
namespace ScriptEngine.Grammar
open Text (Position)

/-- The parsers one level deeper track each other on tokens of a weight below `k`, and read the code
of interpolations as it is read alone. -/
structure Tracked (k : Nat) (d d' : Deeper) : Prop where
  bound : k ≤ d.bound
  bound' : k ≤ d'.bound
  parse : ∀ goal i, Tracks 1 i i k (d.parse goal) (d'.parse goal)
  alone : ∀ {tokens finish}, Cut tokens finish [finish] → weight tokens < k →
    (d.parse .expression).run (tokens ++ [finish]) = parseExpression (tokens ++ [finish])

theorem Tracked.mono {k k' : Nat} {d d' : Deeper} (hd : Tracked k d d') (hk : k' ≤ k) :
    Tracked k' d d' where
  bound := Nat.le_trans hk hd.bound
  bound' := Nat.le_trans hk hd.bound'
  parse goal i := (hd.parse goal i).mono (Nat.le_refl 1) hk
  alone hcut hweight := hd.alone hcut (Nat.lt_of_lt_of_le hweight hk)

theorem leadingLiteral?_minus {l : Lexeme} (hl : ∀ x, l ≠ .number x) :
    leadingLiteral? (.symbol .minus) (some l) = none := by
  unfold leadingLiteral?
  split <;> simp_all

/-- Only after a minus does it matter what follows. -/
theorem leadingLiteral?_second {first : Lexeme} (h : first ≠ .symbol .minus)
    (x y : Option Lexeme) : leadingLiteral? first x = leadingLiteral? first y := by
  cases first with
  | symbol c => cases c <;> first | rfl | contradiction
  | keyword w => cases w <;> rfl
  | _ => rfl

/-- An expression begins with an operand. -/
theorem expression_run_error {d : Deeper} {tokens : List Token} {e : ParseError}
    (h : (unary d).run tokens = .error e) : (expression d).run tokens = .error e := by
  have hlevel {operators : Operators} {operand : Parser Expr}
      (h : operand.run tokens = .error e) : (chain d operators operand).run tokens = .error e :=
    run_bind_error h
  exact run_bind_error (hlevel (hlevel (hlevel (hlevel (hlevel (hlevel (hlevel (hlevel h))))))))

theorem leadingLiteral?_first {first : Lexeme} {second : Option Lexeme} {value : Literal} {n : Nat}
    (hfirst : first ≠ .symbol .minus) (h : leadingLiteral? first second = some (value, n)) :
    n = 1 ∧ (∀ c, first ≠ .symbol c) ∧ first ≠ .finish := by
  unfold leadingLiteral? at h
  split at h <;> simp_all

section

variable {k i : Nat} {p q : Parser Pattern}

theorem patternElement_tracks (h : Tracks 1 i i k p q) :
    Tracks 1 i i k (patternElement p) (patternElement q) := by
  refine (Tracks.accept (.plain (by decide))).after fun spread => h.bind fun p => ?_
  refine (Tracks.isNext _).after fun last => ?_
  dsimp only
  split
  · exact .failHere (.inr rfl)
  · exact .pure _

theorem patternField_tracks (h : Tracks 1 i i k p q) :
    Tracks 1 i i k (patternField p) (patternField q) := by
  refine Tracks.propertyName.bind fun key => ?_
  refine (Tracks.accept (.plain (by decide))).after fun given => ?_
  split
  · exact (h.bind fun _ => .pure _).weak
  · exact .pure _

variable {d d' : Deeper} (hd : Tracked k d d')
include hd

theorem arrayPattern_tracks (h : Tracks 1 i i k p q) :
    Tracks 1 i i (k + 1) (arrayPattern d p) (arrayPattern d' q) :=
  (Tracks.expect (.plain (by decide)) _).andThen fun _ =>
    (Tracks.commaItems hd.bound hd.bound' _ (patternElement_tracks h)).bind fun _ =>
      (Tracks.expect (.plain (by decide)) _).weak.bind fun _ => .pure _

theorem objectPattern_tracks (h : Tracks 1 i i k p q) :
    Tracks 1 i i (k + 1) (objectPattern d p) (objectPattern d' q) :=
  (Tracks.expect (.plain (by decide)) _).andThen fun _ =>
    (Tracks.commaItems hd.bound hd.bound' _ (patternField_tracks h)).bind fun _ =>
      (Tracks.expect (.plain (by decide)) _).weak.bind fun _ => .pure _

theorem structuredPattern_tracks (h : Tracks 1 i i k p q) (expected : String) :
    Tracks 1 i i (k + 1) (structuredPattern d p expected) (structuredPattern d' q expected) := by
  refine .peek (fun t ht => ?_) fun t _ => ?_
  · simp only [isFinish_iff.1 ht]
    exact (Tracks.unexpected _).finishAlike (Nat.succ_pos k) ht
  · split
    · exact .of_tracks (Tracks.name.bind fun _ => .pure _)
    · exact .of_tracks (arrayPattern_tracks hd h)
    · exact .of_tracks (objectPattern_tracks hd h)
    · exact .of_tracks (.unexpected _)

theorem bindingPattern_tracks : Tracks 1 i i (k + 1) (bindingPattern d) (bindingPattern d') :=
  structuredPattern_tracks hd (hd.parse .bindingPattern i) _

theorem matchPattern_tracks : Tracks 1 i i (k + 1) (matchPattern d) (matchPattern d') := by
  have hstructured : Tracks 1 i i (k + 1)
      (structuredPattern d (d.parse .matchPattern) "match pattern")
      (structuredPattern d' (d'.parse .matchPattern) "match pattern") :=
    structuredPattern_tracks hd (hd.parse .matchPattern i) _
  refine .peek (fun t ht => ?_) fun t _ => ?_
  · rw [isFinish_iff.1 ht]
    exact hstructured.finishAlike (Nat.succ_pos k) ht
  by_cases hminus : t.lexeme = .symbol .minus
  · refine .peekSecond (fun u => ?_) fun finish hfinish => ?_
    · by_cases hu : ∃ x, u.lexeme = .number x
      · obtain ⟨x, hx⟩ := hu
        rw [hminus, hx]
        have htaken : TracksAt [t, u] (0 + 1 + 1) i i (k + 1)
            (do advance; advance; return .literal (.number (-x)) : Parser Pattern)
            (do advance; advance; return .literal (.number (-x))) :=
          .advance' (.of_eq hminus (by simp) i) fun _ =>
            .advance_again (.of_eq hx (by simp) i) (.pure _)
        exact htaken.weaken (Nat.le_add_left 1 1)
      · rw [hminus, leadingLiteral?_minus fun x hx => hu ⟨x, hx⟩]
        exact .of_tracks hstructured
    · have hrun (d : Deeper) (p : Parser Pattern) :
          (structuredPattern d p "match pattern").run [t, finish] =
            .error (.unexpectedToken "match pattern" (.symbol .minus) t.position) := by
        obtain ⟨l, p⟩ := t
        obtain rfl : l = _ := hminus
        rfl
      rw [hminus]
      refine ⟨(hrun _ _).trans (hrun _ _).symm, ?_⟩
      change Finishes 1 i i [t] finish ((structuredPattern d _ _).run [t, finish])
      rw [hrun]
      have hfront : [t] = [] ++ [t] := rfl
      exact .cut (.minus hfront hminus) ((Balanced.of_eq hminus (by simp) i).cut hfinish)
  · refine .peekSecond_any fun x y => ?_
    rw [leadingLiteral?_second hminus x y]
    split
    next value taken hliteral =>
      obtain ⟨rfl, hsymbol, hend⟩ := leadingLiteral?_first hminus hliteral
      exact .advance (.plain (hsymbol _) (hsymbol _) hend i) fun _ => .pure _
    next => exact .of_tracks hstructured

theorem typeName_tracks : Tracks 1 i i (k + 1) (typeName d) (typeName d') := by
  refine .accept_bind (.plain (by decide)) ?_ ?_
  · exact ((hd.parse .typeName i).bind fun _ =>
      (Tracks.expect (.plain (by decide)) _).weak.bind fun _ => .pure _).weak
  · refine .acceptWord_bind ?_ ?_
    · exact .pure _
    · exact .name

theorem typeAfter_tracks {sign : Symbol} (hsign : Shift sign i i) :
    Tracks 0 i i (k + 1) (typeAfter d sign) (typeAfter d' sign) := by
  refine (Tracks.accept hsign).after fun given => ?_
  split
  · exact ((typeName_tracks hd).bind fun _ => .pure _).weak
  · exact .pure _

/-! Functions -/

theorem parameter_tracks : Tracks 1 i i k (parameter d) (parameter d') := by
  refine ((bindingPattern_tracks hd).mono (Nat.le_refl 1) (Nat.le_succ k)).bind fun p => ?_
  refine ((typeAfter_tracks hd (.plain (by decide))).mono (Nat.le_refl 0) (Nat.le_succ k)).map _
    |>.after fun _ => ?_
  refine (Tracks.accept (.plain (by decide))).after fun given => ?_
  split
  · exact ((hd.parse .expression i).bind fun _ => .pure _).weak
  · exact .pure _

theorem parameters_tracks : Tracks 0 (i + 1) i k (parameters d) (parameters d') :=
  .closedList hd.bound hd.bound' _ (parameter_tracks hd)

theorem body_tracks : Tracks 1 i i (k + 1) (body d) (body d') :=
  (Tracks.expect (.plain (by decide)) _).andThen fun _ =>
    (Tracks.itemsUntil hd.bound hd.bound' _ (hd.parse .statement i)).bind fun _ =>
      (Tracks.expect (.plain (by decide)) _).weak.bind fun _ => .pure _

theorem functionRest_tracks (name : String) (isAsync : Bool) (position : Position) :
    Tracks 1 i i (k + 1) (functionRest d name isAsync position)
      (functionRest d' name isAsync position) := by
  refine (Tracks.expect .opens _).andThen fun _ => (parameters_tracks hd).bind fun params => ?_
  refine ((typeAfter_tracks hd (.plain (by decide))).bind fun returnType => ?_).mono
    (Nat.le_refl 0) (Nat.le_succ k)
  exact (body_tracks hd).weak.bind fun _ => .pure _

theorem arrowRest_tracks (params : List (Pattern × Option Expr)) (position : Position) :
    Tracks 1 i i k (arrowRest d params position) (arrowRest d' params position) := by
  refine (Tracks.isNext _).after fun braces => ?_
  split
  · exact ((body_tracks hd).mono (Nat.le_refl 1) (Nat.le_succ k)).bind fun _ => .pure _
  · refine Tracks.here.after fun p => (hd.parse .expression i).bind fun e => ?_
    exact .pure _

/-! Templates -/

/-- The code of an interpolation is read as it is read alone. -/
theorem Tracked.interpolation {source : String} {position : Position} {tokens : List Token}
    (hscan : Token.scanAt position source = .ok tokens) (hweight : source.length < k) :
    (d.parse .expression).run tokens = parseExpression tokens ∧
      (d'.parse .expression).run tokens = parseExpression tokens := by
  obtain ⟨init, finish, rfl, hplain, hfinish, hinit⟩ := tokensFrom_weight hscan
  rw [String.length_toList] at hinit
  have hcut : Cut init finish [finish] := .self hplain hfinish
  have hinit' : weight init < k := Nat.lt_of_le_of_lt hinit hweight
  have halone := hd.alone hcut hinit'
  exact ⟨halone, (hd.parse .expression 0 hcut hinit').eq_of_self.trans halone⟩

theorem templateParts_eq {chunks : List TemplateChunk} (hweight : chunksWeight chunks < k) :
    templateParts d' chunks = templateParts d chunks := by
  induction chunks with
  | nil => rfl
  | cons chunk rest ih =>
    rw [chunksWeight_cons] at hweight
    cases chunk with
    | text s =>
      simp only [templateParts]
      rw [ih (by omega)]
    | code source position =>
      simp only [chunkWeight] at hweight
      simp only [templateParts]
      rw [ih (by omega)]
      cases hscan : Token.scanAt position source with
      | error e => rfl
      | ok tokens =>
        obtain ⟨hleft, hright⟩ := hd.interpolation hscan (by omega)
        change ((d'.parse .expression).run tokens >>= _) = ((d.parse .expression).run tokens >>= _)
        rw [hleft, hright]

omit hd in
theorem error_of_bind {α β : Type} {x : Except ParseError α} {f : α → Except ParseError β}
    {e : ParseError} (h : (x >>= f) = .error e) :
    x = .error e ∨ ∃ a, x = .ok a ∧ f a = .error e := by
  cases x with
  | error e' =>
    obtain rfl := Except.error.inj h
    exact .inl rfl
  | ok a => exact .inr ⟨a, rfl, h⟩

omit hd in
/-- Tokens left behind the code of an interpolation are not an unexpected end. -/
theorem leftover_ne_end {left : List Token} {expected expected' : String} {p : Position} :
    (do unless ← atEnd do unexpected expected : Parser Unit).run left ≠
      .error (.unexpectedEnd expected' p) := by
  cases left with
  | nil => nofun
  | cons t left =>
    have hpeek {α : Type} (f : Token → Parser α) :
        (peek >>= f).run (t :: left) = (f t).run (t :: left) := rfl
    have hatEnd (f : Bool → Parser Unit) :
        (atEnd >>= f).run (t :: left) = (f (Lexeme.isFinish t.lexeme)).run (t :: left) := rfl
    cases hfinish : Lexeme.isFinish t.lexeme with
    | true =>
      rw [hatEnd, hfinish]
      nofun
    | false =>
      rw [hatEnd, hfinish, unexpected, if_neg Bool.false_ne_true, hpeek, hfinish]
      nofun

/-- Where the parts of a template end too early, some code of it breaks off. -/
theorem templateParts_breaksOff {chunks : List TemplateChunk} {expected : String} {p : Position}
    (hweight : chunksWeight chunks < k)
    (h : templateParts d chunks = .error (.unexpectedEnd expected p)) :
    ∃ source position tokens expected p, .code source position ∈ chunks ∧
      Token.scanAt position source = .ok tokens ∧
      parseExpression tokens = .error (.unexpectedEnd expected p) := by
  induction chunks with
  | nil => cases h
  | cons chunk rest ih =>
    rw [chunksWeight_cons] at hweight
    have hlater (hrest : templateParts d rest = .error (.unexpectedEnd expected p)) :
        ∃ source position tokens expected p, .code source position ∈ chunk :: rest ∧
          Token.scanAt position source = .ok tokens ∧
          parseExpression tokens = .error (.unexpectedEnd expected p) := by
      obtain ⟨source, position, tokens, expected, p, hmem, hbreaks⟩ := ih (by omega) hrest
      exact ⟨source, position, tokens, expected, p, List.mem_cons_of_mem _ hmem, hbreaks⟩
    cases chunk with
    | text s =>
      obtain hrest | ⟨_, -, h⟩ := error_of_bind h
      · exact hlater hrest
      · cases h
    | code source position =>
      simp only [chunkWeight] at hweight
      cases hscan : Token.scanAt position source with
      | error e =>
        rw [templateParts, hscan] at h
        cases h
      | ok tokens =>
      rw [templateParts, hscan] at h
      replace h : ((d.parse .expression).run tokens >>= _) = _ := h
      obtain hrun | ⟨_, -, h⟩ := error_of_bind h
      · rw [(hd.interpolation hscan (by omega)).1] at hrun
        exact ⟨source, position, tokens, expected, p, List.mem_cons_self, hscan, hrun⟩
      obtain h | ⟨_, -, h⟩ := error_of_bind h
      · exact absurd h leftover_ne_end
      obtain hrest | ⟨_, -, h⟩ := error_of_bind h
      · exact hlater hrest
      · cases h

theorem template_tracks {t : Token} {chunks : List TemplateChunk}
    (ht : t.lexeme = .template chunks) (position : Position) :
    TracksAt [t] 1 i i (k + 1)
      (do advance; return Expr.template (← templateParts d chunks) position)
      (do advance; return Expr.template (← templateParts d' chunks) position) := by
  refine .of_weight fun hweight => ?_
  rw [tokenWeight_template ht] at hweight
  rw [templateParts_eq hd (by omega)]
  cases hparts : templateParts d chunks with
  | ok parts =>
    refine .advance (.of_eq ht (by simp) i) fun _ => ?_
    exact .pure (Expr.template parts position)
  | error e =>
    refine .fail_after fun expected p he => ?_
    subst he
    obtain ⟨source, origin, code, expected, p, hmem, hscan, hcode⟩ :=
      templateParts_breaksOff hd (by omega) hparts
    exact ⟨chunks, source, origin, code, expected, p, ht, hmem, hscan, hcode⟩

theorem arrayElement_tracks : Tracks 1 i i k (arrayElement d) (arrayElement d') :=
  (Tracks.accept (.plain (by decide))).after fun _ =>
    (hd.parse .expression i).bind fun _ => .pure _

theorem arrayLiteral_tracks : Tracks 1 i i (k + 1) (arrayLiteral d) (arrayLiteral d') :=
  Tracks.here.after fun _ => (Tracks.expect (.plain (by decide)) _).andThen fun _ =>
    (Tracks.commaItems hd.bound hd.bound' _ (arrayElement_tracks hd)).bind fun _ =>
      (Tracks.expect (.plain (by decide)) _).weak.bind fun _ => .pure _

theorem objectField_tracks : Tracks 1 i i k (objectField d) (objectField d') := by
  refine Tracks.here.after fun p => Tracks.propertyName.bind fun key => ?_
  refine (Tracks.accept (.plain (by decide))).after fun given => ?_
  split
  · exact ((hd.parse .expression i).bind fun _ => .pure _).weak
  · exact .pure _

theorem objectLiteral_tracks : Tracks 1 i i (k + 1) (objectLiteral d) (objectLiteral d') :=
  Tracks.here.after fun _ => (Tracks.expect (.plain (by decide)) _).andThen fun _ =>
    (Tracks.commaItems hd.bound hd.bound' _ (objectField_tracks hd)).bind fun _ =>
      (Tracks.expect (.plain (by decide)) _).weak.bind fun _ => .pure _

theorem functionLiteral_tracks (position : Position) :
    Tracks 1 i i (k + 1) (functionLiteral d position) (functionLiteral d' position) :=
  (Tracks.acceptWord _).after fun _ => (Tracks.expectWord _ _).bind fun _ =>
    (functionRest_tracks hd _ _ _).weak.bind fun _ => .pure _

theorem parenthesized_tracks {t : Token} (ht : t.lexeme = .symbol .openParen)
    (position : Position) :
    TracksAt [t] 1 i i (k + 1) (parenthesized d position) (parenthesized d' position) := by
  refine .arrow ht fun ts us ahead hts hus => ?_
  rw [hts, hus]
  cases ahead with
  | true =>
    refine .advance (.open ht i) fun _ => (parameters_tracks hd).bind fun params => ?_
    exact (Tracks.expect (.plain (by decide)) _).weak.bind fun _ => (arrowRest_tracks hd _ _).weak
  | false =>
    refine .advance (.open ht i) fun _ => (hd.parse .expression (i + 1)).weak.bind fun inner => ?_
    exact (Tracks.expect .closes _).weak.bind fun _ => .pure _

/-! Operands -/

omit hd in
theorem literal_tracks {t : Token} (ht : t.lexeme ≠ .finish ∧ ∀ c, t.lexeme ≠ .symbol c)
    (value : Literal) (position : Position) :
    TracksAt [t] 1 i i (k + 1) (literal value position) (literal value position) :=
  .advance (.plain (ht.2 _) (ht.2 _) ht.1 i) fun _ => .pure _

/-- After a name it matters whether an arrow follows, but not at the cut. -/
theorem name_tracks {t : Token} {n : String} (ht : t.lexeme = .name n) (position : Position) :
    TracksAt [t] 1 i i (k + 1)
      (do
        let second ← peekSecond
        advance
        if second.any (Lexeme.isSymbol .thickArrow) then
          advance
          arrowRest d [(.name n, none)] position
        else return Expr.name n position)
      (do
        let second ← peekSecond
        advance
        if second.any (Lexeme.isSymbol .thickArrow) then
          advance
          arrowRest d' [(.name n, none)] position
        else return Expr.name n position) := by
  have hbalanced : Balanced i i [t] := .of_eq ht (by simp) i
  refine .peekSecond (fun u => ?_) fun finish _ => ?_
  · cases hu : Lexeme.isSymbol .thickArrow u.lexeme with
    | true =>
      simp only [Option.any_some, hu, if_true]
      have harrow : Balanced i i [u] := .of_eq (isSymbol_iff'.1 hu) (by simp) i
      have htaken : TracksAt [t, u] (1 + 1 + 1) i i (k + 1)
          (do advance; advance; arrowRest d [(.name n, none)] position)
          (do advance; advance; arrowRest d' [(.name n, none)] position) :=
        .advance' hbalanced fun _ => .advance_again harrow (arrowRest_tracks hd _ position)
      exact htaken.weaken (Nat.le_add_left 1 2)
    | false =>
      simp only [Option.any_some, hu]
      exact .advance hbalanced fun _ => .pure _
  · exact .advance (by rw [ht]; rfl) hbalanced (.pure _)

theorem primary_tracks : Tracks 1 i i (k + 1) (primary d) (primary d') := by
  refine .peek (fun t ht => ?_) fun t _ => ?_
  · simp only [isFinish_iff.1 ht]
    exact (Tracks.unexpected _).finishAlike (Nat.succ_pos k) ht
  dsimp only
  split
  case h_1 x hl | h_2 x hl | h_3 hl | h_4 hl | h_5 hl => exact literal_tracks (by simp [hl]) _ _
  case h_6 chunks hl => exact template_tracks hd hl _
  case h_7 hl => exact .advance (balanced_of_keyword hl i) fun _ => .pure _
  case h_8 hl =>
    exact .advance (balanced_of_keyword hl i) fun _ =>
      ((Tracks.expect (.plain (by decide)) _).bind fun _ =>
        Tracks.name.weak.bind fun _ => .pure _).weak
  case h_9 n hl => exact name_tracks hd hl _
  case h_10 hl => exact parenthesized_tracks hd hl _
  case h_11 => exact .of_tracks (arrayLiteral_tracks hd)
  case h_12 => exact .of_tracks (objectLiteral_tracks hd)
  case h_13 | h_14 => exact .of_tracks (functionLiteral_tracks hd _)
  case h_15 => exact .of_tracks (.unexpected _)

theorem accessesOf_tracks {n m : Nat} (hn : k ≤ n) (hm : k ≤ m) (e : Expr) :
    Tracks 0 i i k (accessesOf d n e) (accessesOf d' m e) := by
  induction k generalizing n m e with
  | zero => exact .zero
  | succ k ih =>
    obtain ⟨n, rfl⟩ : ∃ l, n = l + 1 := ⟨n - 1, by omega⟩
    obtain ⟨m, rfl⟩ : ∃ l, m = l + 1 := ⟨m - 1, by omega⟩
    have hd' : Tracked k d d' := hd.mono (Nat.le_succ k)
    have hagain (e : Expr) : Tracks 0 i i k (accessesOf d n e) (accessesOf d' m e) :=
      ih hd' (by omega) (by omega) e
    refine .peek (fun t ht => ?_) fun t _ => ?_
    · simp only [isFinish_iff.1 ht]
      exact .pure e
    split
    case h_1 hl =>
      exact .weaken (.advance (.open hl i) fun _ =>
        (Tracks.closedList hd'.bound hd'.bound' _ (hd'.parse .expression i)).bind fun _ => hagain _)
        (Nat.zero_le 1)
    case h_2 hl | h_3 hl =>
      exact .weaken (.advance (.of_eq hl (by simp) i) fun _ =>
        Tracks.propertyName.weak.bind fun _ => hagain _) (Nat.zero_le 1)
    case h_4 hl =>
      exact .weaken (.advance (.of_eq hl (by simp) i) fun _ =>
        (hd'.parse .expression i).weak.bind fun _ =>
          (Tracks.expect (.plain (by decide)) _).weak.bind fun _ => hagain _) (Nat.zero_le 1)
    case h_5 => exact .of_tracks (.pure e)

theorem access_tracks : Tracks 1 i i (k + 1) (access d) (access d') :=
  (primary_tracks hd).andThen fun e => accessesOf_tracks hd hd.bound hd.bound' e

theorem unary_tracks : Tracks 1 i i (k + 1) (unary d) (unary d') := by
  refine .peek (fun t ht => ?_) fun t _ => ?_
  · simp only [isFinish_iff.1 ht]
    exact (access_tracks hd).finishAlike (Nat.succ_pos k) ht
  split
  case h_1 hl | h_2 hl | h_3 hl =>
    exact .advance (.of_eq hl (by simp) i) fun _ => (hd.parse .unary i).weak.bind fun _ => .pure _
  case h_4 hl => exact .advance (.of_eq hl (by simp) i) fun _ => (hd.parse .unary i).weak
  case h_5 => exact .of_tracks (access_tracks hd)

/-! Operators -/

/-- Parentheses and the finish token are no operators. -/
def Operators.Plain (operators : Operators) : Prop :=
  operators (.symbol .openParen) = none ∧ operators (.symbol .closeParen) = none ∧
    operators .finish = none

omit hd in
theorem chainRest_tracks {operators : Operators} {operand operand' : Parser Expr}
    (hoperators : operators.Plain) (hoperand : Tracks 1 i i k operand operand') {n m : Nat}
    (hn : k ≤ n) (hm : k ≤ m) (left : Expr) :
    Tracks 0 i i k (chainRest operators operand n left) (chainRest operators operand' m left) := by
  induction k generalizing n m left with
  | zero => exact .zero
  | succ k ih =>
    obtain ⟨n, rfl⟩ : ∃ l, n = l + 1 := ⟨n - 1, by omega⟩
    obtain ⟨m, rfl⟩ : ∃ l, m = l + 1 := ⟨m - 1, by omega⟩
    have hoperand' : Tracks 1 i i k operand operand' :=
      hoperand.mono (Nat.le_refl 1) (Nat.le_succ k)
    refine .peek (fun t ht => ?_) fun t _ => ?_
    · rw [isFinish_iff.1 ht, hoperators.2.2]
      exact .pure left
    cases hjoin : operators t.lexeme with
    | none => exact .of_tracks (.pure left)
    | some join =>
      have hbalanced : Balanced i i [t] := by
        refine .plain ?_ ?_ ?_ i <;> intro hl <;> rw [hl] at hjoin
        · cases hoperators.1.symm.trans hjoin
        · cases hoperators.2.1.symm.trans hjoin
        · cases hoperators.2.2.symm.trans hjoin
      exact .weaken (.advance hbalanced fun _ => hoperand'.weak.bind fun _ =>
        ih hoperand' (by omega) (by omega) _) (Nat.zero_le 1)

theorem chain_tracks {operators : Operators} {operand operand' : Parser Expr}
    (hoperators : operators.Plain) (hoperand : Tracks 1 i i (k + 1) operand operand') :
    Tracks 1 i i (k + 1) (chain d operators operand) (chain d' operators operand') :=
  hoperand.andThen fun left => chainRest_tracks hoperators
    (hoperand.mono (Nat.le_refl 1) (Nat.le_succ k)) hd.bound hd.bound' left

theorem pipe_tracks : Tracks 1 i i (k + 1) (pipe d) (pipe d') := by
  have hsum : Tracks 1 i i (k + 1) (sum d) (sum d') :=
    chain_tracks hd ⟨rfl, rfl, rfl⟩ (chain_tracks hd ⟨rfl, rfl, rfl⟩ (unary_tracks hd))
  have hequality : Tracks 1 i i (k + 1) (equality d) (equality d') :=
    chain_tracks hd ⟨rfl, rfl, rfl⟩ (chain_tracks hd ⟨rfl, rfl, rfl⟩ hsum)
  have heither : Tracks 1 i i (k + 1) (either d) (either d') :=
    chain_tracks hd ⟨rfl, rfl, rfl⟩ (chain_tracks hd ⟨rfl, rfl, rfl⟩ hequality)
  exact chain_tracks hd ⟨rfl, rfl, rfl⟩ (chain_tracks hd ⟨rfl, rfl, rfl⟩ heither)

theorem expression_tracks : Tracks 1 i i (k + 1) (expression d) (expression d') := by
  refine (pipe_tracks hd).andThen fun target => Tracks.here.after fun p => ?_
  refine (Tracks.accept (.plain (by decide))).after fun given => ?_
  split
  · have hvalue : Tracks 1 i i k (d.parse .expression) (d'.parse .expression) :=
      hd.parse .expression i
    have hinvalid (expected : String) (q : Position) :
        ParseError.invalid .assignmentTarget p ≠ .unexpectedEnd expected q := nofun
    cases target with
    | name | get | index => exact (hvalue.bind fun _ => .pure _).weak
    | _ => exact (hvalue.refused hinvalid).weak
  · exact .pure target

end

end ScriptEngine.Grammar
