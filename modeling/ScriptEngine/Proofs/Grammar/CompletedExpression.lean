import ScriptEngine.Proofs.Grammar.Completing
import ScriptEngine.Proofs.Grammar.Prefix
import ScriptEngine.Proofs.Grammar.Productions
import ScriptEngine.Proofs.Grammar.RoundTrip

/-!
# Expressions that can be completed

Every production of an expression completes what it has begun, if those it uses one level deeper do.
-/
namespace ScriptEngine.Grammar
open Text (Position)
open Filter (atTop Tendsto)
open Lexer (Word)

variable {α β : Type}

/-- What goes on with no expression. -/
abbrev Idle : Lexeme → Prop := fun x => x.continues = none

theorem ne_of_idle {x y : Lexeme} (hx : Idle x) (hy : y.continues.isSome = true) : x ≠ y := by
  rintro rfl
  rw [hx] at hy
  cases hy

/-- What a production may be followed by when it has been completed. -/
@[reducible] def Goal.ends : Goal → Lexeme → Prop
  | .expression | .unary => Idle
  | .statement => (· ≠ .keyword .elseWord)
  | .bindingPattern | .matchPattern | .typeName => Anything

/-- What stands for a production of which there is nothing yet. -/
@[reducible] def Goal.fill : Goal → List Word
  | .expression | .unary => [.keyword .nilWord]
  | .statement => [.symbol .openBrace, .symbol .closeBrace]
  | .bindingPattern | .matchPattern | .typeName => [someName]

/-- The parsers one level deeper complete what begins with fewer than `k` tokens. -/
def CompletesBelow (k : Nat) : Prop :=
  ∀ goal : Goal, Completes 1 k goal.ends goal.fill fun m => (below m).parse goal

theorem CompletesBelow.mono {k k' : Nat} (hd : CompletesBelow k) (hk : k' ≤ k) :
    CompletesBelow k' :=
  fun goal => (hd goal).mono (Nat.le_refl 1) hk

/-! Patterns -/

section

variable {k : Nat} {stops : Lexeme → Prop} {fill : List Word} {element : Nat → Parser Pattern}

theorem patternElement_completes
    (h : Completes 1 k Anything [someName] element) :
    Completes 1 k (· = .symbol .closeBracket) [someName] fun m => patternElement (element m) := by
  refine (Completes.accept .dots).after (fun spread => ?_) (.word nofun)
  refine h.bind (fun p => ?_) .anything
  refine .isNext_bind_word ?_ .same (fun t ht => ?_) fun t ht => ?_
  · simp only [Bool.not_true, Bool.and_false, Bool.false_eq_true, if_false]
    exact .pure _
  · cases spread
    · exact .inl ⟨rfl, _, .of_run fun _ => rfl⟩
    · exact .inr ⟨_, .of_run fun _ => rfl⟩
  · cases spread
    · exact .of_completes (.pure _)
    · exact .failHere _

theorem patternField_completes (h : Completes 1 k Anything [someName] element) :
    Completes 1 k (· = .symbol .closeBrace) [someName] fun m => patternField (element m) := by
  refine Completes.propertyName.bind (fun key => ?_) .anything
  refine .accept_bind (h.bind (fun p => .pure _) .anything) (.pure _) ?_ (Nat.zero_le 1)
  rintro _ rfl
  nofun

theorem arrayPattern_completes (h : Completes 1 k Anything [someName] element) :
    Completes 1 (k + 1) stops [.symbol .openBracket, .symbol .closeBracket]
      fun m => arrayPattern (below m) (element m) := by
  refine (Completes.expect _ _).andThen (fun _ => ?_) .anything
  refine (Completes.commaItems (by decide) (patternElement_completes h)).bind (fun _ => ?_)
    (.word rfl)
  exact (Completes.expect _ _).weak.bind (fun _ => .pure _) .anything

theorem objectPattern_completes (h : Completes 1 k Anything [someName] element) :
    Completes 1 (k + 1) stops [.symbol .openBrace, .symbol .closeBrace]
      fun m => objectPattern (below m) (element m) := by
  refine (Completes.expect _ _).andThen (fun _ => ?_) .anything
  refine (Completes.commaItems (by decide) (patternField_completes h)).bind (fun _ => ?_)
    (.word rfl)
  exact (Completes.expect _ _).weak.bind (fun _ => .pure _) .anything

theorem structuredPattern_completes (h : Completes 1 k Anything [someName] element)
    (expected : String) : Completes 1 (k + 1) stops [someName]
      fun m => structuredPattern (below m) (element m) expected := by
  have hname : Completes 1 (k + 1) stops [someName] fun _ => Pattern.name <$> name :=
    Completes.name.map _
  refine .peek (hname.starts.peek_of (.word rfl) fun t ht => ?_) (fun t ht => ?_) fun t ht => ?_
  · rw [← ht]
    rfl
  · rw [isFinish_iff.1 ht]
    exact .unexpected _ t
  · split
    next => exact .of_completes hname
    next => exact .of_completes (arrayPattern_completes h)
    next => exact .of_completes (objectPattern_completes h)
    next => exact .unexpected ht _

variable (hd : CompletesBelow k)
include hd

theorem bindingPattern_completes :
    Completes 1 (k + 1) stops [someName] fun m => bindingPattern (below m) :=
  structuredPattern_completes (hd .bindingPattern) _

theorem matchPattern_completes :
    Completes 1 (k + 1) stops [someName] fun m => matchPattern (below m) := by
  have hstructured : Completes 1 (k + 1) stops [someName] fun m =>
      structuredPattern (below m) ((below m).parse .matchPattern) "match pattern" :=
    structuredPattern_completes (hd .matchPattern) _
  refine .peek (hstructured.starts.peek_of (.word rfl) fun t ht => ?_) (fun t ht => ?_)
    fun t ht => ?_
  · rw [← ht]
    rfl
  · rw [isFinish_iff.1 ht]
    exact hstructured.alone t ht
  by_cases hminus : t.lexeme = .symbol .minus
  · refine .peekSecond (fun u => ?_) fun finish hfinish => ?_
    · by_cases hu : ∃ x, u.lexeme = .number x
      · obtain ⟨x, hx⟩ := hu
        rw [hminus, hx]
        have htaken : CompletesAt [t, u] (0 + 1 + 1) (k + 1 + 1) stops
            fun _ => (do advance; advance; return .literal (.number (-x)) : Parser Pattern) :=
          .advance_twice (by simp [IsPlain, hminus]) (by simp [IsPlain, hx]) (.pure (k := k) _)
        exact htaken.mono (Nat.le_add_left 1 1) (Nat.le_succ _)
      · rw [hminus, leadingLiteral?_minus fun x hx => hu ⟨x, hx⟩]
        exact .of_completes hstructured
    · refine .refused (e := .unexpectedToken "match pattern" (.symbol .minus) t.position)
        (.of_run fun m => ?_) fun _ _ h => by cases h
      obtain ⟨l, p⟩ := t
      obtain ⟨l', p'⟩ := finish
      obtain rfl : l = _ := hminus
      obtain rfl := isFinish_iff.1 hfinish
      rfl
  · refine .peekSecond_any (fun x => ?_) ?_
    · rw [leadingLiteral?_second hminus x none]
    · split
      next value taken hliteral =>
        obtain ⟨rfl, hsymbol, hend⟩ := leadingLiteral?_first hminus hliteral
        exact .advance ⟨hend, fun chunks hl => by simp [hl, leadingLiteral?] at hliteral⟩ (.pure _)
      next => exact .of_completes hstructured

theorem typeName_completes :
    Completes 1 (k + 1) stops [someName] fun m => typeName (below m) := by
  refine .accept_andThen ((hd .typeName).bind (fun inner => (Completes.expect _ _).weak.bind
    (fun _ => .pure _) .anything) .anything) ?_ (.word nofun) (Nat.le_refl 1)
  exact .acceptWord_bind (.pure _) .name (.word nofun) (Nat.le_refl 1)

theorem typeAfter_completes (sign : Symbol) :
    Completes 0 (k + 1) (· ≠ .symbol sign) [] fun m => typeAfter (below m) sign :=
  .accept_bind ((typeName_completes hd).bind (fun _ => .pure _) .anything) (.pure _) .same
    (Nat.zero_le 1)

/-! Functions -/

theorem parameter_completes :
    Completes 1 k (· = .symbol .closeParen) [someName] fun m => parameter (below m) := by
  refine ((bindingPattern_completes hd).mono (Nat.le_refl 1) (Nat.le_succ k)).bind (fun p => ?_)
    .anything
  refine (((typeAfter_completes hd .colon).mono (Nat.le_refl 0) (Nat.le_succ k)).map _).after
    (fun _ => ?_) (fun _ hx => by rw [hx]; nofun)
  exact .accept_bind ((hd .expression).bind (fun _ => .pure _) fun _ hx => by rw [hx]; rfl)
    (.pure _) (fun _ hx => by rw [hx]; nofun) (Nat.zero_le 1)

theorem parameters_completes :
    Completes 1 k stops [.symbol .closeParen] fun m => parameters (below m) :=
  .closedList (parameter_completes hd) _

theorem body_completes :
    Completes 1 (k + 1) stops [.symbol .openBrace, .symbol .closeBrace]
      fun m => body (below m) := by
  refine (Completes.expect _ _).andThen (fun _ => ?_) .anything
  refine (Completes.itemsUntil (hd .statement) nofun).bind (fun elements => ?_) (.word rfl)
  exact (Completes.expect _ _).weak.bind (fun _ => .pure _) .anything

theorem functionRest_completes (name : String) (isAsync : Bool) (position : Position) :
    Completes 1 (k + 1) stops
      [.symbol .openParen, .symbol .closeParen, .symbol .openBrace, .symbol .closeBrace]
      fun m => functionRest (below m) name isAsync position := by
  refine (Completes.expect _ _).andThen (fun _ => ?_) .anything
  refine (parameters_completes hd).weak.bind (fun _ => ?_) .anything
  refine ((typeAfter_completes hd .thinArrow).mono (Nat.le_refl 0) (Nat.le_succ k)).bind
    (fun _ => ?_) (.word nofun)
  exact ((body_completes hd).mono (Nat.zero_le 1) (Nat.le_succ k)).bind (fun _ => .pure _) .anything

theorem arrowRest_completes (params : List (Pattern × Option Expr)) (position : Position) :
    Completes 1 k Idle [.keyword .nilWord] fun m => arrowRest (below m) params position := by
  refine .isNext_bind (fun t _ => ?_) ?_ (.word nofun)
  · exact .of_completes (((body_completes hd).mono (Nat.le_refl 1) (Nat.le_succ k)).bind
      (fun _ => .pure _) .anything)
  · exact Completes.here.after (fun p => (hd .expression).bind (fun e => .pure _) .same) .anything

theorem functionLiteral_completes (position : Position) :
    Completes 1 (k + 1) stops [.keyword .fnWord, .symbol .openParen, .symbol .closeParen,
      .symbol .openBrace, .symbol .closeBrace] fun m => functionLiteral (below m) position := by
  refine (Completes.acceptWord _).after (fun isAsync => ?_) (.word nofun)
  refine (Completes.expectWord _ _).bind (fun _ => ?_) .anything
  exact (functionRest_completes hd _ _ _).weak.bind (fun _ => .pure _) .anything

/-! Templates -/

omit hd in
/-- Where the parts of a template are read, so is all code of it. -/
theorem templateParts_reads {d d' : Deeper} (hd : Tracked k d d') {chunks : List TemplateChunk}
    (hweight : chunksWeight chunks < k) {parts : List (Sum String Expr)}
    (h : templateParts d chunks = .ok parts) {source : String} {position : Position}
    (hmem : .code source position ∈ chunks) {tokens : List Token}
    (hscan : Token.scanAt position source = .ok tokens) :
    ∃ x, parseExpression tokens = .ok x := by
  induction chunks generalizing parts with
  | nil => cases hmem
  | cons chunk rest ih =>
    rw [chunksWeight_cons] at hweight
    cases chunk with
    | text s =>
      obtain ⟨more, hmore, -⟩ := ok_of_bind h
      exact ih (by omega) hmore ((List.mem_cons.1 hmem).resolve_left nofun)
    | code source' position' =>
      simp only [chunkWeight] at hweight
      obtain ⟨tokens', hscan', h⟩ := ok_of_bind h
      obtain ⟨⟨e, left⟩, hrun, h⟩ := ok_of_bind h
      obtain ⟨_, -, h⟩ := ok_of_bind h
      obtain ⟨more, hmore, -⟩ := ok_of_bind h
      obtain hfirst | hlater := List.mem_cons.1 hmem
      · cases hfirst
        replace hscan' := ok_of_mapError hscan'
        rw [hscan] at hscan'
        cases hscan'
        rw [(hd.interpolation hscan (by omega)).1] at hrun
        exact ⟨_, hrun⟩
      · exact ih (by omega) hmore hlater

omit hd in
theorem template_completes {t : Token} {chunks : List TemplateChunk}
    (ht : t.lexeme = .template chunks) (position : Position) :
    CompletesAt [t] 1 (k + 1) stops
      fun m => (do advance; return Expr.template (← templateParts (below m) chunks) position) := by
  have hfinish : t.lexeme ≠ .finish := by simp [ht]
  have hweight : chunksWeight chunks < chunksWeight chunks + 1 := Nat.lt_succ_self _
  have htracked (m : Nat) (hm : chunksWeight chunks + 1 ≤ m) :
      Tracked (chunksWeight chunks + 1) (below (chunksWeight chunks + 1)) (below m) :=
    .of_tracks (fun l _ => parseWithin_tracks l) (Nat.le_refl _) hm
  -- The parts depend on no bound that is large enough.
  have hsame : ∀ᶠ m in atTop, templateParts (below m) chunks =
      templateParts (below (chunksWeight chunks + 1)) chunks :=
    (Filter.eventually_ge_atTop _).mono fun m hm => templateParts_eq (htracked m hm) hweight
  cases hparts : templateParts (below (chunksWeight chunks + 1)) chunks with
  | ok parts =>
    have hsound : Sound [t] := by
      refine List.forall_mem_singleton.2 ?_
      rintro ⟨chunks', source, origin, tokens, expected, p, ht', hmem, hscan, hcode⟩
      obtain rfl : chunks' = chunks := by simpa [ht'] using ht
      obtain ⟨x, hx⟩ := templateParts_reads (htracked _ (Nat.le_refl _)) hweight hparts hmem hscan
      rw [hcode] at hx
      cases hx
    have htaken : CompletesAt [t] (0 + 1) (k + 1) stops
        fun _ => (do advance; return Expr.template parts position) :=
      .advance' hfinish hsound (.of_completes (.pure _))
    exact htaken.congr (hsame.mono fun m hm => by rw [hm, hparts]; rfl)
  | error e =>
    have hrun (rest : List Token) : Settles (fun m => (do
        advance
        return Expr.template (← templateParts (below m) chunks) position)) (t :: rest)
        (.error e) := by
      refine hsame.mono fun m hm => ?_
      beta_reduce
      rw [hm, hparts, run_bind_of (advance_run hfinish)]
      rfl
    intro tokens finish _ _
    by_cases he : ∃ expected p, e = .unexpectedEnd expected p
    · obtain ⟨expected, p, rfl⟩ := he
      obtain ⟨source, origin, code, expected, p, hmem, hscan, hcode⟩ :=
        templateParts_breaksOff (htracked _ (Nat.le_refl _)) hweight hparts
      refine .stuck ⟨.inl ⟨t, List.mem_cons_self, ?_⟩, fun rest _ => (hrun _).fails⟩
      exact ⟨chunks, source, origin, code, expected, p, ht, hmem, hscan, hcode⟩
    · exact .refused (hrun _) fun expected p h => he ⟨expected, p, h⟩

theorem arrayElement_completes :
    Completes 1 k (· = .symbol .closeBracket) [.keyword .nilWord] fun m => arrayElement (below m) :=
  (Completes.accept .dots).after
    (fun _ => (hd .expression).bind (fun _ => .pure _) fun _ hx => by rw [hx]; rfl) (.word nofun)

theorem arrayLiteral_completes :
    Completes 1 (k + 1) stops [.symbol .openBracket, .symbol .closeBracket]
      fun m => arrayLiteral (below m) := by
  refine Completes.here.after (fun p => (Completes.expect _ _).andThen (fun _ => ?_) .anything)
    .anything
  refine (Completes.commaItems (by decide) (arrayElement_completes hd)).bind (fun _ => ?_)
    (.word rfl)
  exact (Completes.expect _ _).weak.bind (fun _ => .pure _) .anything

theorem objectField_completes :
    Completes 1 k (· = .symbol .closeBrace) [someName] fun m => objectField (below m) := by
  refine Completes.here.after (fun p => Completes.propertyName.bind (fun key => ?_) .anything)
    .anything
  exact .accept_bind ((hd .expression).bind (fun _ => .pure _) fun _ hx => by rw [hx]; rfl)
    (.pure _) (fun _ hx => by rw [hx]; nofun) (Nat.zero_le 1)

theorem objectLiteral_completes :
    Completes 1 (k + 1) stops [.symbol .openBrace, .symbol .closeBrace]
      fun m => objectLiteral (below m) := by
  refine Completes.here.after (fun p => (Completes.expect _ _).andThen (fun _ => ?_) .anything)
    .anything
  refine (Completes.commaItems (by decide) (objectField_completes hd)).bind (fun _ => ?_)
    (.word rfl)
  exact (Completes.expect _ _).weak.bind (fun _ => .pure _) .anything

/-! Parentheses -/

/-- What a parenthesis opens, where it is known whether an arrow follows the one that closes it. -/
def afterParen (d : Deeper) (position : Position) (arrow : Bool) : Parser Expr := do
  advance
  if arrow then
    let params ← parameters d
    expect .thickArrow "'=>' after arrow parameters"
    arrowRest d params position
  else
    let inner ← closing "')' after expression" (d.parse .expression)
    return .grouping inner position

omit hd in
theorem parenthesized_run {d : Deeper} {t : Token} (ht : t.lexeme = .symbol .openParen)
    (position : Position) (more : List Token) : (parenthesized d position).run (t :: more) =
      (afterParen d position (arrowAhead 1 more)).run (t :: more) := by
  rw [parenthesized, run_bind_of (a := t :: more) rfl]
  simp only [arrowAhead?_start ht]
  cases arrowAhead 1 more <;> simp [closing, afterParen]

theorem afterParen_completes {t : Token} (ht : t.lexeme = .symbol .openParen)
    (position : Position) (arrow : Bool) :
    CompletesAt [t] 1 (k + 1) Idle fun m => afterParen (below m) position arrow := by
  unfold afterParen
  cases arrow with
  | true =>
    exact .advance (by simp [IsPlain, ht]) ((parameters_completes hd).weak.bind (fun _ =>
      (Completes.expect _ _).weak.bind (fun _ => (arrowRest_completes hd _ _).weak) .anything)
      .anything)
  | false =>
    simp only [closing, bind_assoc, pure_bind]
    exact .advance (by simp [IsPlain, ht]) ((hd .expression).weak.bind (fun _ =>
      (Completes.expect _ _).weak.bind (fun _ => .pure _) .anything) (.word rfl))

omit hd in
/-- What follows the parenthesis that is closed is an arrow if one is seen. -/
theorem afterParen_closes {n : Nat} {t : Token} (ht : t.lexeme = .symbol .openParen)
    {position : Position} {more rest : List Token} {e : Expr}
    (h : (afterParen (below n) position false).run (t :: more) = .ok (e, rest)) :
    arrowAhead 1 more = (rest.head?.map Token.lexeme).any (Lexeme.isSymbol .thickArrow) := by
  have hinner : Nearsighted none 0 0 0 ((below n).parse .expression) :=
    (nearsightedBelow n .expression 0).strict.weak
  rw [afterParen, run_bind_of (advance_run (by simp [ht])), if_neg Bool.false_ne_true] at h
  obtain ⟨e, mid, hclosing, hmid⟩ := exists_of_run_bind h
  obtain ⟨-, rfl⟩ := Prod.mk.inj (Except.ok.inj hmid)
  obtain ⟨used, rfl, hused⟩ := closing_closesFirst hinner hclosing
  exact hused _

omit hd in
/-- What a nearsighted parser takes before the cut it takes wherever the same token is next. -/
theorem Settles.again {P : Nat → Parser α} {t finish : Token} {used left tail : List Token} {a : α}
    (h : Settles P (t :: (used ++ left) ++ [finish]) (.ok (a, left ++ [finish])))
    (hP : ∀ m, NearsightedAt t terminator 0 0 (P m)) (hleft : left ≠ [])
    (htail : tail.head? = left.head?) : Settles P (t :: used ++ tail) (.ok (a, tail)) := by
  obtain ⟨u, left, rfl⟩ := List.exists_cons_of_ne_nil hleft
  obtain ⟨more, rfl⟩ := List.head?_eq_some_iff.1 htail
  refine h.mono fun m hm => ?_
  obtain ⟨used', hused', htakes⟩ := hP m hm
  replace hused' : used ++ (u :: left ++ [finish]) = used' ++ (u :: left ++ [finish]) := by
    rw [← hused', ← List.append_assoc]
    rfl
  obtain rfl := List.append_cancel_right hused'
  exact htakes.again u rfl u more (.inl rfl)

theorem parenthesized_completes {t : Token} (ht : t.lexeme = .symbol .openParen)
    (position : Position) :
    CompletesAt [t] 1 (k + 1) Idle fun m => parenthesized (below m) position := by
  intro tokens finish hcut hlength
  have hafter :=
    afterParen_completes hd ht position (arrowAhead 1 (tokens ++ [finish])) hcut hlength
  have hrun {x} (rest : List Token)
      (hsame : arrowAhead 1 (tokens ++ rest) = arrowAhead 1 (tokens ++ [finish]))
      (hx : Settles (fun m => afterParen (below m) position (arrowAhead 1 (tokens ++ [finish])))
        ([t] ++ tokens ++ rest) x) :
      Settles (fun m => parenthesized (below m) position) ([t] ++ tokens ++ rest) x := by
    refine .of_eq (.of_forall fun m => ?_) hx
    exact (parenthesized_run ht position (tokens ++ rest)).trans (by rw [hsame]; rfl)
  have hfills {fill : List Word} (hfill : Completed Idle (fun m =>
      afterParen (below m) position (arrowAhead 1 (tokens ++ [finish]))) ([t] ++ tokens) fill) :
      Completed Idle (fun m => parenthesized (below m) position) ([t] ++ tokens) fill := by
    intro back v more hback hv
    obtain ⟨e, he⟩ := hfill back v more hback hv
    refine ⟨e, hrun _ ?_ he⟩
    cases harrow : arrowAhead 1 (tokens ++ [finish]) with
    | true => exact arrowAhead_of_cut hcut.ends harrow
    | false =>
      rw [harrow] at he
      obtain ⟨n, hn⟩ := he.exists
      have hother : v.lexeme ≠ .symbol .thickArrow := ne_of_idle hv rfl
      exact (afterParen_closes ht hn).trans (Bool.eq_false_iff.2 (mt isSymbol_iff'.1 hother))
  cases hafter with
  | @taken e used left htokens hleft hused hsound hruns =>
    obtain ⟨u, used, rfl⟩ := List.exists_cons_of_length_pos hused
    obtain ⟨rfl, rfl⟩ : t = u ∧ tokens = used ++ left := List.cons.inj htokens
    have hwhole : Settles (fun m => parenthesized (below m) position)
        (t :: (used ++ left) ++ [finish]) (.ok (e, left ++ [finish])) := by
      refine hrun [finish] rfl ?_
      have hx := hruns (left ++ [finish]) (by cases left <;> [exact absurd rfl hleft; rfl])
      rwa [← List.append_assoc] at hx
    exact .taken htokens hleft hused hsound fun tail htail => hwhole.again
      (fun m => parenthesized_nearsighted (i := 0) (nearsightedBelow m) ht position) hleft htail
  | whole hused hsound hx hfill => exact .whole hused hsound (hrun _ rfl hx) (hfills hfill)
  | short hx hfill => exact .short (hrun _ rfl hx) (hfills hfill)
  | stuck h =>
    refine .stuck ⟨h.flawed, fun rest hcut' => ?_⟩
    refine .of_eq (.of_forall fun m => ?_) (h.fails rest hcut')
    have hsame := hcut'.arrows [] t tokens rfl ht
    exact (parenthesized_run ht position (tokens ++ rest)).trans (by rw [hsame]; rfl)
  | refused hx he => exact .refused (hrun _ rfl hx) he

/-! Operands -/

/-- After a name it matters whether an arrow follows. -/
theorem name_completes {t : Token} {n : String} (ht : t.lexeme = .name n)
    (position : Position) : CompletesAt [t] 1 (k + 1) Idle fun m => (do
      let second ← peekSecond
      advance
      if second.any (Lexeme.isSymbol .thickArrow) then
        advance
        arrowRest (below m) [(.name n, none)] position
      else return Expr.name n position) := by
  have hplain : IsPlain t.lexeme := by simp [IsPlain, ht]
  refine .peekSecond (fun u => ?_) fun finish hfinish => ?_
  · cases hu : Lexeme.isSymbol .thickArrow u.lexeme with
    | true =>
      simp only [Option.any_some, hu, if_true]
      exact (CompletesAt.advance_twice hplain (isPlain_of_isSymbol hu)
        (arrowRest_completes hd _ position)).mono (Nat.le_add_left 1 2) (Nat.le_succ _)
    | false =>
      simp only [Option.any_some, hu]
      exact .advance hplain (.pure _)
  · have hrun (v : Token) (hv : v.lexeme ≠ .symbol .thickArrow) (more : List Token) (m : Nat) :
        (do
          let second ← peekSecond
          advance
          if second.any (Lexeme.isSymbol .thickArrow) then
            advance
            arrowRest (below m) [(.name n, none)] position
          else return Expr.name n position).run (t :: v :: more) =
            .ok (.name n position, v :: more) := by
      rw [run_bind_of peekSecond_run, run_bind_of (advance_run hplain.1),
        any_isSymbol_of_ne (nextNot_cons hv more)]
      rfl
    refine .whole (Nat.le_refl 1) (sound_singleton hplain)
      (.of_run (hrun finish (by simp [isFinish_iff.1 hfinish]) []))
      (show Completed Idle _ [t] [] from fun back v more hback hv => ?_)
    obtain rfl := List.map_eq_nil_iff.1 hback
    exact ⟨_, .of_run (hrun v (ne_of_idle hv rfl) more)⟩

theorem primary_completes :
    Completes 1 (k + 1) Idle [.keyword .nilWord] fun m => primary (below m) := by
  have htaken {t : Token} (ht : IsPlain t.lexeme) (e : Expr) :
      CompletesAt [t] 1 (k + 1) Idle fun _ => (do advance; return e : Parser Expr) :=
    .advance ht (.pure e)
  refine .peek (.peek fun t ht => ?_) (fun t ht => ?_) fun t ht => ?_
  · rw [ht]
    exact (Completed.pure _).advance (by rw [ht]; nofun)
  · rw [isFinish_iff.1 ht]
    exact .unexpected _ t
  dsimp only
  split
  case h_1 x hl | h_2 x hl | h_3 hl | h_4 hl | h_5 hl | h_7 hl =>
    exact htaken (by simp [IsPlain, hl]) _
  case h_6 chunks hl => exact template_completes hl _
  case h_8 hl =>
    exact .advance (by simp [IsPlain, hl]) ((Completes.expect _ _).weak.bind (fun _ =>
      Completes.name.weak.bind (fun _ => .pure _) .anything) .anything)
  case h_9 n hl => exact name_completes hd hl _
  case h_10 hl => exact parenthesized_completes hd hl _
  case h_11 => exact .of_completes (arrayLiteral_completes hd)
  case h_12 => exact .of_completes (objectLiteral_completes hd)
  case h_13 | h_14 => exact .of_completes (functionLiteral_completes hd _)
  case h_15 => exact .unexpected ht _

theorem accessesOf_completes {b : Nat → Nat} (hb : Tendsto b atTop atTop) (e : Expr) :
    Completes 0 k Idle [] fun m => accessesOf (below m) (b m) e := by
  induction k using Nat.strongRecOn generalizing b e with
  | _ k ih =>
    refine Completes.congr (P := fun m => accessesOf (below m) (b m - 1 + 1) e) ?_
      ((eventually_succ hb).mono fun m hm => by rw [← hm])
    have hend (m : Nat) {t : Token} (ht : Idle t.lexeme) (more : List Token) :
        (accessesOf (below m) (b m - 1 + 1) e).run (t :: more) = .ok (e, t :: more) :=
      accessesOf_run_end (endsAt_of_none ht)
    refine .peek (fun back t more hback ht => ?_) (fun t ht => ?_) fun t ht => .of_pos ?_
    · obtain rfl := List.map_eq_nil_iff.1 hback
      exact ⟨e, .of_run fun m => hend m ht more⟩
    · exact .inl ⟨rfl, e, .of_run fun m => hend m (by rw [isFinish_iff.1 ht]; rfl) []⟩
    rintro k rfl
    have hd' : CompletesBelow k := hd.mono (Nat.le_succ k)
    have hagain (e : Expr) := ih k (Nat.lt_succ_self k) hd' (tendsto_pred hb) e
    dsimp only
    split
    case h_1 hl =>
      have hargs : Completes 1 k (· = .symbol .closeParen) [.keyword .nilWord]
          fun m => (below m).parse .expression :=
        (hd' .expression).restrict fun _ hx => by rw [hx]; rfl
      exact (CompletesAt.advance (by simp [IsPlain, hl]) ((Completes.closedList hargs _).bind
        (fun _ => hagain _) .same)).mono (Nat.zero_le _) (Nat.le_refl _)
    case h_2 hl | h_3 hl =>
      exact (CompletesAt.advance (by simp [IsPlain, hl]) (Completes.propertyName.bind
        (fun _ => hagain _) .same)).mono (Nat.zero_le _) (Nat.le_refl _)
    case h_4 hl =>
      exact (CompletesAt.advance (by simp [IsPlain, hl]) ((hd' .expression).bind (fun _ =>
        (Completes.expect _ _).weak.bind (fun _ => hagain _) .same) (.word rfl))).mono
          (Nat.zero_le _) (Nat.le_refl _)
    case h_5 => exact .of_completes (.pure e)

theorem access_completes :
    Completes 1 (k + 1) Idle [.keyword .nilWord] fun m => access (below m) :=
  (primary_completes hd).andThen (fun e => accessesOf_completes hd Filter.tendsto_id e) .same

theorem unary_completes :
    Completes 1 (k + 1) Idle [.keyword .nilWord] fun m => unary (below m) := by
  have haccess := access_completes hd
  refine .peek (haccess.starts.peek_of (.word rfl) fun t ht => ?_) (fun t ht => ?_) fun t ht => ?_
  · rw [← ht]
    rfl
  · rw [isFinish_iff.1 ht]
    exact haccess.alone t ht
  split
  case h_1 hl | h_2 hl | h_3 hl =>
    exact .advance (by simp [IsPlain, hl]) ((hd .unary).weak.bind (fun _ => .pure _) .same)
  case h_4 hl => exact .advance (by simp [IsPlain, hl]) (hd .unary).weak
  case h_5 => exact .of_completes haccess

/-! Operators -/

omit hd in
theorem OperatorsAt.isPlain {operators : Operators} {l : Expr.Level}
    (h : OperatorsAt operators l) {x : Lexeme} {join : Join} (hx : operators x = some join) :
    IsPlain x := by
  obtain ⟨i, -, hi, -⟩ := h.exists_operator hx
  constructor
  · rintro rfl
    cases hi
  · rintro chunks rfl
    cases hi

omit hd in
theorem chainRest_completes {operators : Operators} {l : Expr.Level}
    (hoperators : OperatorsAt operators l) {operand : Nat → Parser Expr}
    (hoperand : Completes 1 k Idle [.keyword .nilWord] operand) {b : Nat → Nat}
    (hb : Tendsto b atTop atTop) (left : Expr) :
    Completes 0 k Idle [] fun m => chainRest operators (operand m) (b m) left := by
  induction k using Nat.strongRecOn generalizing b left with
  | _ k ih =>
    refine Completes.congr (P := fun m => chainRest operators (operand m) (b m - 1 + 1) left) ?_
      ((eventually_succ hb).mono fun m hm => by rw [← hm])
    have hend (m : Nat) {t : Token} (ht : Idle t.lexeme) (more : List Token) :
        (chainRest operators (operand m) (b m - 1 + 1) left).run (t :: more) =
          .ok (left, t :: more) :=
      chainRest_run_end hoperators (endsAt_of_none ht) _ left
    refine .peek (fun back t more hback ht => ?_) (fun t ht => ?_) fun t ht => .of_pos ?_
    · obtain rfl := List.map_eq_nil_iff.1 hback
      exact ⟨left, .of_run fun m => hend m ht more⟩
    · exact .inl ⟨rfl, left, .of_run fun m => hend m (by rw [isFinish_iff.1 ht]; rfl) []⟩
    rintro k rfl
    cases hjoin : operators t.lexeme with
    | none => exact .of_completes (.pure left)
    | some join =>
      have hoperand' := hoperand.mono (Nat.le_refl 1) (Nat.le_succ k)
      exact (CompletesAt.advance (hoperators.isPlain hjoin) (hoperand'.bind
        (fun right => ih k (Nat.lt_succ_self k) hoperand' (tendsto_pred hb) _) .same)).mono
          (Nat.zero_le _) (Nat.le_refl _)

omit hd in
theorem chain_completes {operators : Operators} {l : Expr.Level}
    (hoperators : OperatorsAt operators l) {operand : Nat → Parser Expr}
    (hoperand : Completes 1 (k + 1) Idle [.keyword .nilWord] operand) :
    Completes 1 (k + 1) Idle [.keyword .nilWord] fun m => chain (below m) operators (operand m) :=
  hoperand.andThen (fun left => chainRest_completes hoperators
    (hoperand.mono (Nat.le_refl 1) (Nat.le_succ k)) Filter.tendsto_id left) .same

theorem pipe_completes : Completes 1 (k + 1) Idle [.keyword .nilWord] fun m => pipe (below m) := by
  have hproduct : Completes 1 (k + 1) Idle [.keyword .nilWord] fun m => product (below m) :=
    chain_completes (operatorsOf_at .product) (unary_completes hd)
  have hcomparison : Completes 1 (k + 1) Idle [.keyword .nilWord] fun m => comparison (below m) :=
    chain_completes (operatorsOf_at .comparison) (chain_completes (operatorsOf_at .sum) hproduct)
  have hboth : Completes 1 (k + 1) Idle [.keyword .nilWord] fun m => both (below m) :=
    chain_completes (operatorsOf_at .both) (chain_completes (operatorsOf_at .equality) hcomparison)
  have hcoalesce : Completes 1 (k + 1) Idle [.keyword .nilWord] fun m => coalesce (below m) :=
    chain_completes (operatorsOf_at .coalesce) (chain_completes (operatorsOf_at .either) hboth)
  exact chain_completes (operatorsOf_at .pipe) hcoalesce

/-! Assignments -/

/-- What may follow a target. -/
def assigned (d : Deeper) (target : Expr) : Parser Expr := do
  let p ← here
  if ← accept .equal then
    let value ← d.parse .expression
    match assignTo? target value p with
    | some e => return e
    | none => fail (.invalid .assignmentTarget p)
  return target

omit hd in
theorem expression_eq (d : Deeper) : expression d = pipe d >>= assigned d := rfl

omit hd in
theorem assigned_run_of_ne (d : Deeper) (target : Expr) {t : Token}
    (ht : t.lexeme ≠ .symbol .equal) (more : List Token) :
    (assigned d target).run (t :: more) = .ok (target, t :: more) := by
  rw [assigned, here_accept_bind, run_bind_of peek_run, if_neg (mt isSymbol_iff'.1 ht)]
  rfl

omit hd in
/-- A target that cannot be assigned to is refused once its value has been read. -/
theorem assigned_run_none (d : Deeper) {target : Expr}
    (htarget : ∀ v p, assignTo? target v p = none) {t : Token}
    (ht : t.lexeme = .symbol .equal) (more : List Token) :
    (assigned d target).run (t :: more) = (d.parse .expression).run more >>= fun _ =>
      .error (.invalid .assignmentTarget t.position) := by
  rw [assigned, here_accept_bind, run_bind_of peek_run, if_pos (isSymbol_iff'.2 ht),
    run_bind_of (advance_run (by simp [ht]))]
  simp only [htarget]
  rfl

omit hd in
theorem assigned_starts (target : Expr) :
    Completed Idle (fun m => assigned (below m) target) [] [] := by
  intro back t more hback ht
  obtain rfl := List.map_eq_nil_iff.1 hback
  exact ⟨target, .of_run fun m =>
    assigned_run_of_ne (below m) target (ne_of_idle ht rfl) more⟩

omit hd in
theorem assigned_alone (target : Expr) {finish : Token}
    (hfinish : Lexeme.isFinish finish.lexeme = true) :
    Alone 0 (fun m => assigned (below m) target) finish :=
  .inl ⟨rfl, target, .of_run fun m =>
    assigned_run_of_ne (below m) target (by simp [isFinish_iff.1 hfinish]) []⟩

theorem assigned_completes {target : Expr} (htarget : ∀ v p, ∃ e, assignTo? target v p = some e) :
    Completes 0 (k + 1) Idle [] fun m => assigned (below m) target := by
  refine Completes.here.after (fun p => ?_) .anything
  refine .accept_andThen ((hd .expression).bind (fun value => ?_) .same) (.pure target) ?_
    (Nat.zero_le 1)
  · obtain ⟨e, he⟩ := htarget value p
    simp only [he]
    exact .pure e
  · rintro _ hx rfl
    cases hx

omit hd in
/-- Whether something can be assigned to does not depend on its value. -/
theorem assignTo?_cases (target : Expr) :
    (∀ v p, assignTo? target v p = none) ∨ ∀ v p, ∃ e, assignTo? target v p = some e := by
  cases target <;> first | exact .inl fun _ _ => rfl | exact .inr fun _ _ => ⟨_, rfl⟩

/-- Where something that cannot be assigned to is followed by a value, no completion helps. -/
theorem misassigned_prospect {target : Expr} (htarget : ∀ v p, assignTo? target v p = none)
    {used value : List Token} {sign finish : Token} (hsign : sign.lexeme = .symbol .equal)
    (hruns : ∀ more, Settles (fun m => pipe (below m)) (used ++ sign :: more)
      (.ok (target, sign :: more)))
    (hcut : Cut value finish [finish]) (hk : value.length < k) :
    Prospect 1 Idle (fun m => expression (below m)) (used ++ sign :: value) finish := by
  have hassigned (more : List Token) : ∀ᶠ m in atTop,
      (expression (below m)).run (used ++ sign :: more) =
        (((below m).parse .expression).run more >>= fun _ =>
          .error (.invalid .assignmentTarget sign.position)) :=
    (hruns more).mono fun m hm => by
      rw [expression_eq, run_bind_of hm, assigned_run_none (below m) htarget hsign]
  have hread {x} (hx : Settles (fun m => (below m).parse .expression) (value ++ [finish]) (.ok x)) :
      Prospect 1 Idle (fun m => expression (below m)) (used ++ sign :: value) finish := by
    refine .refused (e := .invalid .assignmentTarget sign.position) ?_ nofun
    filter_upwards [hassigned (value ++ [finish]), hx] with m hm hx
    rw [List.append_assoc, List.cons_append, hm, hx]
    rfl
  have hstuck : Stuck (fun m => expression (below m)) (used ++ sign :: value) finish := by
    refine ⟨.inr ⟨[], used, sign, value, target, rfl, hsign, hruns, htarget⟩, fun rest _ => ?_⟩
    refine (hassigned (value ++ rest)).mono fun m hm => ?_
    rw [List.append_assoc, List.cons_append, hm]
    cases ((below m).parse .expression).run (value ++ rest) with
    | ok => exact ⟨_, rfl⟩
    | error e => exact ⟨e, rfl⟩
  cases (hd .expression).prospect hcut hk with
  | @taken e used' left htokens hleft _ _ hruns' =>
    subst htokens
    obtain ⟨t, left, rfl⟩ := List.exists_cons_of_ne_nil hleft
    have hx := hruns' (t :: left ++ [finish]) rfl
    rw [← List.append_assoc] at hx
    exact hread hx
  | whole _ _ hx => exact hread hx
  | short | stuck => exact .stuck hstuck
  | @refused e hx he =>
    refine .refused (e := e) ?_ he
    filter_upwards [hassigned (value ++ [finish]), hx] with m hm hx
    rw [List.append_assoc, List.cons_append, hm, hx]
    rfl

theorem expression_completes :
    Completes 1 (k + 1) Idle [.keyword .nilWord] fun m => expression (below m) := by
  have hpipe := pipe_completes hd
  refine ⟨hpipe.starts.bind assigned_starts .same, fun finish hfinish =>
    (hpipe.alone finish hfinish).bind fun target => assigned_alone target hfinish,
    fun tokens finish hne hcut hlength => ?_⟩
  refine (hpipe.goes hne hcut hlength).bind_of assigned_starts
    (fun target => assigned_alone target hcut.ends) .same
    fun target used left htokens hleft hused hsound hruns => ?_
  subst htokens
  obtain ⟨t, left, rfl⟩ := List.exists_cons_of_ne_nil hleft
  rw [List.length_append, List.length_cons] at hlength
  by_cases ht : t.lexeme = .symbol .equal
  · obtain htarget | htarget := assignTo?_cases target
    · have hcut' : Cut (used ++ [t] ++ left) finish [finish] := by
        rwa [List.append_assoc]
      exact misassigned_prospect hd htarget ht (fun more => hruns (t :: more) rfl) hcut'.suffix
        (by omega)
    · refine ((assigned_completes hd htarget).goes hleft hcut.suffix ?_).extend hused hsound
        fun tail htail => ?_
      · rw [List.length_cons]
        omega
      · exact (hruns tail (htail hleft)).mono fun m hm => run_bind_of hm
  · refine .taken (a := target) rfl hleft hused hsound fun tail htail => ?_
    obtain ⟨more, rfl⟩ := List.head?_eq_some_iff.1 htail
    exact (hruns (t :: more) rfl).bind
      (.of_run fun m => assigned_run_of_ne (below m) target ht more)

end

end ScriptEngine.Grammar
