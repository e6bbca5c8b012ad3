import Mathlib
import ScriptEngine.Proofs.Grammar.Nearsight
import ScriptEngine.Proofs.Grammar.TrackedExpression

/-!
# Nearsighted patterns and expressions

Patterns, types and expressions are told from what follows by the next token, and a semicolon ends
all of them. Where an arrow has to be looked for, the search ends inside what is taken or at the
next token.
-/
namespace ScriptEngine.Grammar
open Text (Position)

section

variable {i : Nat} {p : Parser Pattern}

/-! Patterns -/

theorem patternElement_nearsighted (h : Nearsighted none 1 i i p) :
    Nearsighted none 1 i i (patternElement p) := by
  refine (Nearsighted.accept (.plain (by decide)) (Option.not_mem_none _)).after fun spread =>
    h.bind fun p => (Nearsighted.look _).after fun last => ?_
  dsimp only
  split
  · exact (Nearsighted.look _).after fun _ => .fail _
  · exact .pure _

theorem patternField_nearsighted (h : Nearsighted none 1 i i p) :
    Nearsighted none 1 i i (patternField p) := by
  refine Nearsighted.propertyName.bind fun key =>
    (Nearsighted.accept (.plain (by decide)) (Option.not_mem_none _)).after fun given => ?_
  split
  · exact (h.bind fun _ => .pure _).weak
  · exact .pure _

variable {d : Deeper}

theorem arrayPattern_nearsighted (h : Nearsighted none 1 i i p) :
    Nearsighted terminator 1 i i (arrayPattern d p) :=
  (Nearsighted.expect (.plain (by decide)) (by decide) _).bind fun _ =>
    ((Nearsighted.commaItems _ (patternElement_nearsighted h).weak).enclosed fun _ =>
      (Nearsighted.expect (.plain (by decide)) (by decide) _).bind fun _ => .pure _).weak

theorem objectPattern_nearsighted (h : Nearsighted none 1 i i p) :
    Nearsighted terminator 1 i i (objectPattern d p) :=
  (Nearsighted.expect (.plain (by decide)) (by decide) _).bind fun _ =>
    ((Nearsighted.commaItems _ (patternField_nearsighted h).weak).enclosed fun _ =>
      (Nearsighted.expect (.plain (by decide)) (by decide) _).bind fun _ => .pure _).weak

theorem structuredPattern_nearsighted (h : Nearsighted none 1 i i p) (expected : String) :
    Nearsighted terminator 1 i i (structuredPattern d p expected) := by
  refine .peek fun t => ?_
  split
  · exact .of_nearsighted (Nearsighted.name.bind fun _ => .pure _)
  · exact .of_nearsighted (arrayPattern_nearsighted h)
  · exact .of_nearsighted (objectPattern_nearsighted h)
  · exact .of_nearsighted (.unexpected _)

variable (hd : NearsightedBelow d)
include hd

theorem bindingPattern_nearsighted : Nearsighted terminator 1 i i (bindingPattern d) :=
  structuredPattern_nearsighted (hd .bindingPattern i).strict _

omit hd in
/-- A minus sign begins a literal if a number follows, and no other pattern. -/
theorem minus_nearsighted {t : Token} (ht : t.lexeme = .symbol .minus) {q : Parser Pattern}
    (hq : ∀ more, ∃ e, q.run (t :: more) = .error e) :
    NearsightedAt t terminator i i (do
      match leadingLiteral? t.lexeme (← peekSecond) with
      | some (value, taken) =>
        if taken == 2 then advance
        advance
        return .literal value
      | none => q) := by
  have hfinish : t.lexeme ≠ .finish := by simp [ht]
  intro more a rest hrun
  have hnone {second : Option Lexeme} (hsecond : more.head?.map Token.lexeme = second)
      (hliteral : leadingLiteral? (.symbol .minus) second = none) : False := by
    rw [run_bind_of peekSecond_run, hsecond, ht, hliteral] at hrun
    obtain ⟨e, he⟩ := hq more
    cases he.symm.trans hrun
  cases more with
  | nil => exact (hnone rfl rfl).elim
  | cons u more =>
    by_cases hu : ∃ x, u.lexeme = .number x
    · obtain ⟨x, hx⟩ := hu
      have htaken (more : List Token) : (do
          match leadingLiteral? t.lexeme (← peekSecond) with
          | some (value, taken) =>
            if taken == 2 then advance
            advance
            return .literal value
          | none => q : Parser Pattern).run (t :: u :: more) =
            .ok (.literal (.number (-x)), more) := by
        have hnumber : leadingLiteral? t.lexeme (some u.lexeme) = some (.number (-x), 2) := by
          rw [ht, hx]
          rfl
        have hend : u.lexeme ≠ .finish := by simp [hx]
        rw [run_bind_of peekSecond_run, List.head?_cons, Option.map_some, hnumber]
        exact (run_bind_of (advance_run hfinish)).trans
          (run_bind_of (advance_run hend))
      obtain ⟨rfl, rfl⟩ := Prod.mk.inj (Except.ok.inj ((htaken more).symm.trans hrun))
      have hbalanced : Balanced i i ([t] ++ [u]) :=
        (Balanced.of_eq ht (by simp) i).append (.of_eq hx (by simp) i)
      refine ⟨[u], rfl, by simp, hbalanced, ?_, fun _ _ _ more _ => htaken (_ :: more)⟩
      rintro _ ⟨⟩
      exact not_stops_of_ne (by simp [hx])
    · exact (hnone rfl (leadingLiteral?_minus fun x hx => hu ⟨x, hx⟩)).elim

theorem matchPattern_nearsighted : Nearsighted terminator 1 i i (matchPattern d) := by
  have hstructured : Nearsighted terminator 1 i i
      (structuredPattern d (d.parse .matchPattern) "match pattern") :=
    structuredPattern_nearsighted (hd .matchPattern i).strict _
  refine .peek fun t => ?_
  by_cases hminus : t.lexeme = .symbol .minus
  · refine minus_nearsighted hminus fun more => ?_
    rw [structuredPattern, peek_run_cons, hminus]
    exact exists_error_of_unexpected _ _
  · have hsame (second : Option Lexeme) :
        leadingLiteral? t.lexeme second = leadingLiteral? t.lexeme none :=
      leadingLiteral?_second hminus second none
    simp only [hsame]
    refine .peekSecond_bind ?_
    split
    next value taken hliteral =>
      obtain ⟨rfl, hsymbol, hfinish⟩ := leadingLiteral?_first hminus hliteral
      exact .advance_plain rfl ⟨hsymbol _, hsymbol _, hfinish⟩ (fun c _ => hsymbol c) (.pure _)
    next => exact .of_nearsighted hstructured

theorem typeName_nearsighted : Nearsighted terminator 1 i i (typeName d) := by
  refine .accept_bind (Nat.le_refl 1) (.plain (by decide)) (by decide) ?_
    (.acceptWord_bind (Nat.le_refl 1) (.pure _) .name)
  exact ((hd .typeName i).bind fun _ =>
    ((Nearsighted.expect (.plain (by decide)) (by decide) _).bind fun _ => .pure _).weak).weak

theorem typeAfter_nearsighted (sign : Symbol) (hsign : Shift sign i i) (hstop : sign ∉ terminator) :
    Nearsighted terminator 0 i i (typeAfter d sign) := by
  refine (Nearsighted.accept hsign hstop).after fun given => ?_
  split
  · exact ((typeName_nearsighted hd).bind fun _ => .pure _).weak
  · exact .pure _

/-! Functions -/

theorem parameter_nearsighted : Nearsighted terminator 1 i i (parameter d) := by
  refine (bindingPattern_nearsighted hd).bind fun p =>
    ((typeAfter_nearsighted hd .colon (.plain (by decide)) (by decide)).map _).after fun _ =>
      (Nearsighted.accept (.plain (by decide)) (by decide)).after fun given => ?_
  split
  · exact ((hd .expression i).bind fun _ => .pure _).weak
  · exact .pure _

theorem parameters_nearsighted : Nearsighted terminator 1 (i + 1) i (parameters d) := by
  rw [parameters, closedList_eq]
  exact closing_nearsighted (listBefore_nearsighted (parameter_nearsighted hd).strict.weak)
    (by decide) _

theorem body_nearsighted : Nearsighted terminator 1 i i (body d) :=
  (Nearsighted.expect (.plain (by decide)) (by decide) _).bind fun _ =>
    ((Nearsighted.itemsUntil _ (hd .statement i).weak).enclosed fun _ =>
      (Nearsighted.expect (.plain (by decide)) (by decide) _).bind fun _ => .pure _).weak

theorem functionRest_nearsighted (name : String) (isAsync : Bool) (position : Position) :
    Nearsighted terminator 1 i i (functionRest d name isAsync position) :=
  (Nearsighted.expect .opens (by decide) _).bind fun _ => (parameters_nearsighted hd).weak.bind
    fun _ => (typeAfter_nearsighted hd .thinArrow (.plain (by decide)) (by decide)).bind fun _ =>
      ((body_nearsighted hd).bind fun _ => .pure _).weak

theorem arrowRest_nearsighted (params : List (Pattern × Option Expr)) (position : Position) :
    Nearsighted terminator 1 i i (arrowRest d params position) := by
  refine .look_bind fun braces => ?_
  split
  · exact (body_nearsighted hd).bind fun _ => .pure _
  · exact .look_bind fun _ => (hd .expression i).bind fun _ => .pure _

theorem functionLiteral_nearsighted (position : Position) :
    Nearsighted terminator 1 i i (functionLiteral d position) :=
  (Nearsighted.acceptWord _).after fun _ => (Nearsighted.expectWord _ _).bind fun _ =>
    ((functionRest_nearsighted hd _ _ _).bind fun _ => .pure _).weak

/-! Operands -/

omit hd in
/-- What a template is made of does not depend on the tokens around it. -/
theorem templateParts_nearsighted (chunks : List TemplateChunk) (position : Position) :
    Nearsighted terminator 0 i i
      (do return Expr.template (← templateParts d chunks) position : Parser Expr) := by
  cases hparts : templateParts d chunks with
  | ok parts => exact .pure _
  | error e => exact .of_error fun _ => ⟨e, rfl⟩

theorem arrayElement_nearsighted : Nearsighted terminator 1 i i (arrayElement d) :=
  (Nearsighted.accept (.plain (by decide)) (by decide)).after fun _ =>
    (hd .expression i).bind fun _ => .pure _

theorem arrayLiteral_nearsighted : Nearsighted terminator 1 i i (arrayLiteral d) :=
  .look_bind fun _ => (Nearsighted.expect (.plain (by decide)) (by decide) _).bind fun _ =>
    ((Nearsighted.commaItems _ (arrayElement_nearsighted hd).strict.weak).enclosed fun _ =>
      (Nearsighted.expect (.plain (by decide)) (by decide) _).bind fun _ => .pure _).weak

theorem objectField_nearsighted : Nearsighted terminator 1 i i (objectField d) := by
  refine .look_bind fun p => Nearsighted.propertyName.bind fun key =>
    (Nearsighted.accept (.plain (by decide)) (by decide)).after fun given => ?_
  split
  · exact ((hd .expression i).bind fun _ => .pure _).weak
  · exact .pure _

theorem objectLiteral_nearsighted : Nearsighted terminator 1 i i (objectLiteral d) :=
  .look_bind fun _ => (Nearsighted.expect (.plain (by decide)) (by decide) _).bind fun _ =>
    ((Nearsighted.commaItems _ (objectField_nearsighted hd).strict.weak).enclosed fun _ =>
      (Nearsighted.expect (.plain (by decide)) (by decide) _).bind fun _ => .pure _).weak

/-! Looking ahead for an arrow -/

omit hd in
/-- The tokens close a parenthesis opened before them, and nothing before that. -/
def ClosesFirst (used : List Token) : Prop :=
  ∀ rest, arrowAhead 1 (used ++ rest) =
    (rest.head?.map Token.lexeme).any (Lexeme.isSymbol .thickArrow)

omit hd in
theorem closing_closesFirst {α : Type} {p : Parser α} (hp : Nearsighted none 0 0 0 p)
    {expected : String} {tokens rest : List Token} {a : α}
    (h : (closing expected p).run tokens = .ok (a, rest)) :
    ∃ used, tokens = used ++ rest ∧ ClosesFirst used := by
  obtain ⟨b, mid, hfirst, h⟩ := exists_of_run_bind h
  obtain ⟨x, left, hclose, h⟩ := exists_of_run_bind h
  obtain ⟨-, rfl⟩ := Prod.mk.inj (Except.ok.inj h)
  obtain ⟨used, rfl, hused⟩ := hp hfirst
  obtain ⟨t, rfl, ht⟩ := exists_of_run_expect hclose
  refine ⟨used ++ [t], by simp, fun rest' => ?_⟩
  rw [List.append_assoc]
  exact (hused.balanced 0 _).trans (arrowAhead_last ht)

omit hd in
/-- A parser that looks ahead for an arrow and goes on with one of two, each of which takes a closed
parenthesis. What follows decides only if nothing more is taken, and then it is no arrow. -/
theorem nearsightedAt_of_arrowAhead {t : Token} {p : Parser Expr} {q : Bool → Parser Expr}
    (hp : ∀ more, p.run (t :: more) = (q (arrowAhead 1 more)).run (t :: more))
    (hq : ∀ b, NearsightedAt t terminator i i (q b))
    (hfirst : ∀ b more a rest, (q b).run (t :: more) = .ok (a, rest) →
      ∃ used back, more = used ++ (back ++ rest) ∧ ClosesFirst used ∧ (b = true → back ≠ [])) :
    NearsightedAt t terminator i i p := by
  intro more a rest hrun
  rw [hp] at hrun
  obtain ⟨all, hall, htakes⟩ := hq _ hrun
  obtain ⟨used, back, hback, hcloses, harrow⟩ := hfirst _ _ _ _ hrun
  obtain rfl : all = used ++ back := by
    rw [hall, ← List.append_assoc] at hback
    exact List.append_cancel_right hback
  refine ⟨used ++ back, hall, { htakes with again := fun u hu u' more' hu' => ?_ }⟩
  have hsame : arrowAhead 1 (used ++ back ++ u' :: more') = arrowAhead 1 more := by
    rw [hback, List.append_assoc, hcloses, hcloses]
    cases back with
    | cons v back => rfl
    | nil =>
      have hno : arrowAhead 1 more = false := Bool.eq_false_iff.2 fun h => harrow h rfl
      rw [hback, List.nil_append, hcloses] at hno
      rw [List.nil_append, List.nil_append, hno]
      obtain rfl | hu' := hu'
      · rw [← hno, Option.mem_def.1 hu]
        rfl
      · simp [lexeme_of_stops hu', Lexeme.isSymbol]
  rw [List.cons_append, hp, hsame]
  exact htakes.again u hu u' more' hu'

theorem parenthesized_nearsighted {t : Token} (ht : t.lexeme = .symbol .openParen)
    (position : Position) : NearsightedAt t terminator i i (parenthesized d position) := by
  have hend : t.lexeme ≠ .finish := by simp [ht]
  have hstop : ¬Stops terminator t := not_stops_of_symbol ht (by decide)
  have hinner : Nearsighted none 0 0 0 (d.parse .expression) := (hd .expression 0).strict.weak
  refine nearsightedAt_of_arrowAhead (q := fun b => do
    advance
    if b then
      let params ← parameters d
      expect .thickArrow "'=>' after arrow parameters"
      arrowRest d params position
    else
      let inner ← closing "')' after expression" (d.parse .expression)
      return .grouping inner position) (fun more => ?_) (fun b => ?_) fun b more a rest hrun => ?_
  · rw [parenthesized, run_bind_of (a := t :: more) rfl]
    simp only [arrowAhead?_start ht]
    cases arrowAhead 1 more <;> simp [closing]
  · refine .advance hend hstop (.open ht i) ?_
    cases b with
    | true =>
      exact (parameters_nearsighted hd).weak.bind fun _ =>
        ((Nearsighted.expect (.plain (by decide)) (by decide) _).bind fun _ =>
          (arrowRest_nearsighted hd _ _).weak).weak
    | false =>
      exact (closing_nearsighted (hd .expression (i + 1)).strict.weak (by decide) _).weak.bind
        fun _ => .pure _
  · rw [run_bind_of (advance_run hend)] at hrun
    cases b with
    | true =>
      rw [if_pos rfl, parameters, closedList_eq] at hrun
      obtain ⟨params, mid, hparams, hmid⟩ := exists_of_run_bind hrun
      obtain ⟨used, rfl, hused⟩ := closing_closesFirst
        (listBefore_nearsighted (parameter_nearsighted hd).strict.weak) hparams
      obtain ⟨_, left, harrow, hleft⟩ := exists_of_run_bind hmid
      obtain ⟨v, rfl, -⟩ := exists_of_run_expect harrow
      obtain ⟨back, rfl, -⟩ := arrowRest_nearsighted (i := 0) hd _ _ hleft
      exact ⟨used, v :: back, rfl, hused, by simp⟩
    | false =>
      rw [if_neg Bool.false_ne_true] at hrun
      obtain ⟨e, mid, hclosing, hmid⟩ := exists_of_run_bind hrun
      obtain ⟨-, rfl⟩ := Prod.mk.inj (Except.ok.inj hmid)
      obtain ⟨used, rfl, hused⟩ := closing_closesFirst hinner hclosing
      exact ⟨used, [], rfl, hused, by simp⟩

omit hd in
/-- A parser that takes the next token and goes on as `q` does, if there is anything to go on. -/
theorem nearsightedAt_of_run {t : Token} {l : Lexeme} (ht : t.lexeme = l)
    (hl : l ≠ .finish ∧ ∀ c, l ≠ .symbol c) {p q : Parser Expr}
    (hq : Nearsighted terminator 0 i i q)
    (hnext : ∀ v more, p.run (t :: v :: more) = q.run (v :: more))
    (hlast : ∀ a rest, p.run [t] = .ok (a, rest) → rest = []) :
    NearsightedAt t terminator i i p := by
  have hbalanced : Balanced i i [t] := .of_eq ht ⟨hl.2 _, hl.2 _, hl.1⟩ i
  have hstop : ¬Stops terminator t := not_stops_of_ne (ht ▸ hl.2)
  intro more a rest hrun
  cases more with
  | nil =>
    obtain rfl := hlast a rest hrun
    exact ⟨[], rfl, Nat.le_refl 1, hbalanced, fun u hu => by cases hu; exact hstop, nofun⟩
  | cons v more =>
    rw [hnext] at hrun
    obtain ⟨used, hused, htakes⟩ := hq hrun
    refine ⟨used, hused, by simp, hbalanced.append htakes.balanced, ?_, fun u hu u' more' hu' => ?_⟩
    · intro u hu
      rcases used.eq_nil_or_concat with rfl | ⟨init, last, rfl⟩
      · cases hu
        exact hstop
      · exact htakes.last u (by simpa [List.getLast?_cons] using hu)
    · rw [← htakes.again u hu u' more' hu', List.cons_append]
      cases used <;> exact hnext _ _

theorem primary_nearsighted : Nearsighted terminator 1 i i (primary d) := by
  refine .peek fun t => ?_
  dsimp only
  split
  case h_1 hl | h_2 hl | h_3 hl | h_4 hl | h_5 hl | h_7 hl =>
    exact .advance_plain hl (by simp) (by simp) (.pure _)
  case h_6 chunks hl =>
    exact .advance_plain hl (by simp) (by simp) (templateParts_nearsighted chunks _)
  case h_8 hl =>
    refine .advance_plain hl (by simp) (by simp) ?_
    exact ((Nearsighted.expect (.plain (by decide)) (by decide) _).bind fun _ =>
      (Nearsighted.name.bind fun _ => .pure _).weak).weak
  case h_9 n hl =>
    have harrow : Nearsighted terminator 0 i i (accept .thickArrow >>= fun arrow =>
        if arrow then arrowRest d [(.name n, none)] t.position
        else return .name n t.position : Parser Expr) :=
      .accept_bind (Nat.zero_le 1) (.plain (by decide)) (by decide)
        (arrowRest_nearsighted hd _ _).weak (.pure _)
    refine nearsightedAt_of_run hl (by simp) harrow (fun v more => ?_) fun a rest hrun => ?_
    · have hfinish : t.lexeme ≠ .finish := by simp [hl]
      have hsecond : peekSecond.run (t :: v :: more) = .ok (some v.lexeme, t :: v :: more) := rfl
      rw [run_bind_of hsecond, run_bind_of (advance_run hfinish), accept_eq,
        Grammar.takeIf_bind, peek_run_cons, Option.any_some]
      cases Lexeme.isSymbol .thickArrow v.lexeme <;> rfl
    · have hfinish : t.lexeme ≠ .finish := by simp [hl]
      have hsecond : peekSecond.run [t] = .ok (none, [t]) := rfl
      rw [run_bind_of hsecond, run_bind_of (advance_run hfinish)] at hrun
      exact (Prod.mk.inj (Except.ok.inj hrun)).2.symm
  case h_10 hl => exact parenthesized_nearsighted hd hl _
  case h_11 => exact .of_nearsighted (arrayLiteral_nearsighted hd)
  case h_12 => exact .of_nearsighted (objectLiteral_nearsighted hd)
  case h_13 | h_14 => exact .of_nearsighted (functionLiteral_nearsighted hd _)
  case h_15 => exact .of_nearsighted (.unexpected _)

theorem accessesOf_nearsighted (n : Nat) (e : Expr) :
    Nearsighted terminator 0 i i (accessesOf d n e) := by
  induction n generalizing e with
  | zero => exact .pure e
  | succ n ih =>
    refine .peek_or (Nat.zero_le 1) (g := pure e) (fun t => ?_) (fun t ht => ?_) (.pure e)
    · split
      next hl =>
        refine .inr (.advance (by simp [hl]) (not_stops_of_symbol hl (by decide)) (.open hl i) ?_)
        rw [closedList_eq]
        exact ((closing_nearsighted (listBefore_nearsighted (hd .expression _).strict.weak)
          (by decide) _).bind fun _ => ih _).weak
      next hl =>
        exact .inr (.advance_plain hl (by simp) (by simp)
          (Nearsighted.propertyName.bind fun _ => ih _).weak)
      next hl =>
        exact .inr (.advance_plain hl (by simp) (by simp)
          (Nearsighted.propertyName.bind fun _ => ih _).weak)
      next hl =>
        exact .inr (.advance_plain hl (by simp) (by simp) ((hd .expression i).bind fun _ =>
          ((Nearsighted.expect (.plain (by decide)) (by decide) _).bind fun _ => ih _).weak).weak)
      next => exact .inl rfl
    · rw [lexeme_of_stops ht]

theorem access_nearsighted : Nearsighted terminator 1 i i (access d) :=
  (primary_nearsighted hd).bind fun e => accessesOf_nearsighted hd d.bound e

theorem unary_nearsighted : Nearsighted terminator 1 i i (unary d) := by
  refine .peek_or (Nat.le_refl 1) (g := access d) (fun t => ?_) (fun t ht => ?_)
    (access_nearsighted hd)
  · split
    case h_1 hl | h_2 hl | h_3 hl =>
      exact .inr (.advance_plain hl (by simp) (by simp) ((hd .unary i).bind fun _ => .pure _).weak)
    case h_4 hl => exact .inr (.advance_plain hl (by simp) (by simp) (hd .unary i).weak)
    case h_5 => exact .inl rfl
  · rw [lexeme_of_stops ht]

/-! Operators -/

omit hd in
theorem chainRest_nearsighted {operators : Operators} {operand : Parser Expr}
    (hplain : operators.Plain) (hstop : operators (.symbol .semicolon) = none)
    (hoperand : Nearsighted terminator 1 i i operand) (n : Nat) (left : Expr) :
    Nearsighted terminator 0 i i (chainRest operators operand n left) := by
  induction n generalizing left with
  | zero => exact .pure left
  | succ n ih =>
    refine .peek_or (Nat.zero_le 1) (g := pure left) (fun t => ?_) (fun t ht => ?_) (.pure left)
    · cases hjoin : operators t.lexeme with
      | none => exact .inl rfl
      | some join =>
        have hne {l : Lexeme} (hl : operators l = none) : t.lexeme ≠ l := by
          rintro rfl
          cases hjoin.symm.trans hl
        refine .inr (.advance_plain rfl ⟨hne hplain.1, hne hplain.2.1, hne hplain.2.2⟩ ?_
          (hoperand.bind fun _ => ih _).weak)
        rintro c hc
        obtain rfl : Symbol.semicolon = c := by simpa using hc
        exact hne hstop
    · rw [lexeme_of_stops ht, hstop]

omit hd in
theorem chain_nearsighted {operators : Operators} {operand : Parser Expr}
    (hplain : operators.Plain) (hstop : operators (.symbol .semicolon) = none)
    (hoperand : Nearsighted terminator 1 i i operand) :
    Nearsighted terminator 1 i i (chain d operators operand) :=
  hoperand.bind fun left => chainRest_nearsighted hplain hstop hoperand d.bound left

theorem pipe_nearsighted : Nearsighted terminator 1 i i (pipe d) := by
  have hsum : Nearsighted terminator 1 i i (sum d) :=
    chain_nearsighted ⟨rfl, rfl, rfl⟩ rfl
      (chain_nearsighted ⟨rfl, rfl, rfl⟩ rfl (unary_nearsighted hd))
  have hequality : Nearsighted terminator 1 i i (equality d) :=
    chain_nearsighted ⟨rfl, rfl, rfl⟩ rfl (chain_nearsighted ⟨rfl, rfl, rfl⟩ rfl hsum)
  have heither : Nearsighted terminator 1 i i (either d) :=
    chain_nearsighted ⟨rfl, rfl, rfl⟩ rfl (chain_nearsighted ⟨rfl, rfl, rfl⟩ rfl hequality)
  exact chain_nearsighted ⟨rfl, rfl, rfl⟩ rfl
    (chain_nearsighted ⟨rfl, rfl, rfl⟩ rfl heither)

omit hd in
/-- The place of a symbol is looked up before it is known whether the symbol is there. -/
theorem here_accept_bind {β : Type} (c : Symbol) (f : Position → Bool → Parser β) :
    (here >>= fun p => accept c >>= f p) = peek >>= fun t =>
      if Lexeme.isSymbol c t.lexeme then advance >>= fun _ => f t.position true
      else f t.position false := by
  refine StateT.ext fun tokens => ?_
  cases tokens with
  | nil => rfl
  | cons t more =>
    rw [peek_run_cons, ← peek_run_cons more fun u =>
      if Lexeme.isSymbol c u.lexeme then advance >>= fun _ => f t.position true
      else f t.position false, ← Grammar.takeIf_bind, ← accept_eq]
    rfl

theorem expression_nearsighted : Nearsighted terminator 1 i i (expression d) := by
  refine (pipe_nearsighted hd).bind fun target => ?_
  rw [here_accept_bind]
  refine .peek_or (Nat.zero_le 1) (g := pure target) (fun t => ?_) (fun t ht => ?_) (.pure target)
  · split
    next hkind =>
      refine .inr (.advance_plain (isSymbol_iff'.1 hkind) (by simp) (by simp) ?_)
      refine ((hd .expression i).bind fun value => ?_).weak
      dsimp only
      split
      · exact .pure _
      · exact .fail _
    next => exact .inl rfl
  · rw [lexeme_of_stops ht]
    rfl

end

end ScriptEngine.Grammar
