import ScriptEngine.Grammar.Parse
import ScriptEngine.Proofs.Grammar.NearsightedStatement

/-!
# The forms of statements

The first token of a statement, and for functions the second one, tells how it goes on: with what a
semicolon may end, with what ends in a closing brace of its own, or with what ends in another
statement.
-/
namespace ScriptEngine.Grammar
open Text (Position)

variable {α : Type}

/-- The parsers one level below. -/
abbrev below (n : Nat) : Deeper := ⟨n, parseWithin n⟩

/-- Goes on with what a parser leaves. -/
def after (p : Parser α) (tokens : List Token) (next : List Token → Bool) : Bool :=
  match p.run tokens with
  | .ok (_, rest) => next rest
  | .error _ => false

/-- Whether the statement at the front of the tokens, or the one that it ends in, is of a form that
a semicolon may end. -/
def takesSemicolon : Nat → List Token → Bool
  | 0, _ | _ + 1, [] => false
  | n + 1, t :: more =>
    match t.lexeme with
    | .symbol .openBrace | .keyword .classWord | .keyword .matchWord => false
    | .keyword .fnWord => (more.head?.map Token.lexeme).any (Lexeme.isSymbol .openParen)
    | .keyword .asyncWord => !(more.head?.map Token.lexeme).any (Lexeme.isKeyword .fnWord)
    | .keyword .ifWord =>
      after (condition (below n) "if") more fun yes =>
        after (parseWithin n .statement) yes fun rest =>
          match (acceptWord .elseWord).run rest with
          | .ok (true, no) => takesSemicolon n no
          | _ => takesSemicolon n yes
    | .keyword .whileWord => after (condition (below n) "while") more (takesSemicolon n)
    | .keyword .forWord => after (loopHead (below n)) more (takesSemicolon n)
    | .keyword .tryWord => after (attemptHead (below n)) more (takesSemicolon n)
    | _ => true

/-- A statement in parentheses after its word, up to the branch that is always there. -/
def guard (n : Nat) (word : String) : Parser Expr := do
  advance
  condition (below n) word

theorem branch_eq (n : Nat) (position : Position) :
    branch (below n) position = guard n "if" >>= fun c =>
      parseWithin n .statement >>= fun yes => acceptWord .elseWord >>= fun given =>
        if given then parseWithin n .statement >>= fun no => pure (.branch c yes (some no) position)
        else pure (.branch c yes none position) := by
  simp only [branch, guard, bind_assoc]
  refine bind_congr fun _ => bind_congr fun c => bind_congr fun yes => bind_congr fun given => ?_
  cases given <;> simp

/-- How a statement goes on from the token `t`, and when it takes a semicolon: a simple one always,
one with a closing brace of its own never, and any other if the one that it ends in does. -/
inductive Form (n : Nat) (t : Token) : Parser Stmt → (List Token → Bool) → Prop
  | simple {α : Type} {front : Parser α} {g : α → Stmt}
    (hfront : ∀ i, NearsightedAt t terminator i i front) :
    Form n t (terminated front g) fun _ => true
  | braced {p : Parser Stmt} (hp : ∀ i, NearsightedAt t terminator i i p) :
    Form n t p fun _ => false
  | ending {α : Type} {head : Parser α} {g : α → Stmt → Stmt}
    (hhead : ∀ i, NearsightedAt t none i i head) :
    Form n t (head >>= fun a => parseWithin n .statement >>= fun s => pure (g a s))
      fun tokens => after head tokens (takesSemicolon n)
  | branch (hguard : ∀ i, NearsightedAt t none i i (guard n "if")) (position : Position) :
    Form n t (branch (below n) position) fun tokens =>
      after (guard n "if") tokens fun yes => after (parseWithin n .statement) yes fun rest =>
        match (acceptWord .elseWord).run rest with
        | .ok (true, no) => takesSemicolon n no
        | _ => takesSemicolon n yes

theorem Form.nearsighted {n i : Nat} {t : Token} {p : Parser Stmt} {takes : List Token → Bool}
    (hd : NearsightedBelow (below n)) (h : Form n t p takes) : NearsightedAt t none i i p := by
  have hstatement : Nearsighted none 1 i i (parseWithin n .statement) := hd .statement i
  cases h with
  | simple hfront => exact terminated_nearsightedAt (hfront i) _
  | braced hp => exact (hp i).strict
  | ending hhead => exact (hhead i).bind fun _ => (hstatement.bind fun _ => .pure _).weak
  | branch hguard position =>
    rw [branch_eq]
    refine (hguard i).bind fun c => (hstatement.bind fun yes => (Nearsighted.acceptWord _).bind
      fun given => ?_).weak
    split
    · exact (hstatement.bind fun _ => .pure _).weak
    · exact .pure _

theorem closedExpression_bind (d : Deeper) (g : Expr → Stmt) :
    (do return g (← closedExpression d) : Parser Stmt) = terminated (expression d) g := by
  simp only [closedExpression, terminated, bind_assoc, pure_bind]

/-- A statement that goes on from `t` in one of the forms. The second token may decide which, but it
is no semicolon then. -/
structure HasForm (n : Nat) (t : Token) (second : Option Lexeme) (p : Parser Stmt)
    (takes : List Token → Bool) : Prop where
  form : Form n t p takes
  run : ∀ more, more.head?.map Token.lexeme = second →
    (statement (below n)).run (t :: more) = p.run (t :: more) ∧
      takesSemicolon (n + 1) (t :: more) = takes (t :: more)
  again : ∀ semi more, semi.lexeme = .symbol .semicolon →
    (statement (below n)).run (t :: semi :: more) = p.run (t :: semi :: more) ∨
      ∃ e, p.run (t :: semi :: more) = .error e

theorem HasForm.of_first {n : Nat} {t : Token} {second : Option Lexeme} {p : Parser Stmt}
    {takes : List Token → Bool} (hform : Form n t p takes)
    (hrun : ∀ more, (statement (below n)).run (t :: more) = p.run (t :: more))
    (htakes : ∀ more, takesSemicolon (n + 1) (t :: more) = takes (t :: more)) :
    HasForm n t second p takes :=
  ⟨hform, fun more _ => ⟨hrun more, htakes more⟩, fun semi more _ => .inl (hrun (semi :: more))⟩

theorem advance_terminated (front : Parser α) (g : α → Stmt) :
    (advance >>= fun _ => terminated front g) = terminated (advance >>= fun _ => front) g := by
  simp only [terminated, bind_assoc]

section

variable {n : Nat} {t : Token} {second : Option Lexeme}

theorem exists_form_of_simple {front : Parser α} {g : α → Stmt} {q : Parser Stmt}
    (hfront : ∀ i, NearsightedAt t terminator i i front) (hq : q = terminated front g)
    (hrun : ∀ more, (statement (below n)).run (t :: more) = q.run (t :: more))
    (htakes : ∀ more, takesSemicolon (n + 1) (t :: more) = true) :
    ∃ p takes, HasForm n t second p takes :=
  ⟨_, _, .of_first (.simple hfront) (fun more => by rw [hrun, hq]) htakes⟩

theorem exists_form_of_braced {q : Parser Stmt} (hq : ∀ i, NearsightedAt t terminator i i q)
    (hrun : ∀ more, (statement (below n)).run (t :: more) = q.run (t :: more))
    (htakes : ∀ more, takesSemicolon (n + 1) (t :: more) = false) :
    ∃ p takes, HasForm n t second p takes :=
  ⟨_, _, .of_first (.braced hq) hrun htakes⟩

theorem after_advance {p : Parser α} (ht : t.lexeme ≠ .finish) (more : List Token)
    (next : List Token → Bool) :
    after (advance >>= fun _ => p) (t :: more) next = after p more next := by
  rw [after, run_bind_of (advance_run ht), after]

theorem exists_form_of_ending {head : Parser α} {g : α → Stmt → Stmt} {q : Parser Stmt}
    {w : Keyword} (ht : t.lexeme = .keyword w) (hhead : ∀ i, Nearsighted none 1 i i head)
    (hq : q = (advance >>= fun _ => head) >>= fun a =>
      parseWithin n .statement >>= fun s => pure (g a s))
    (hrun : ∀ more, (statement (below n)).run (t :: more) = q.run (t :: more))
    (htakes : ∀ more, takesSemicolon (n + 1) (t :: more) = after head more (takesSemicolon n)) :
    ∃ p takes, HasForm n t second p takes := by
  have hadvance (i : Nat) : NearsightedAt t none i i (advance >>= fun _ => head) :=
    .advance_plain ht (by simp) nofun (hhead i).weak
  refine ⟨_, _, .of_first (.ending hadvance) (fun more => by rw [hrun, hq]) fun more => ?_⟩
  rw [htakes, after_advance (by simp [ht])]

/-- The second token tells one form from another, and neither goes on with a semicolon. -/
theorem exists_form_of_choice (c : Option Lexeme → Bool) {p q : Parser Stmt}
    {takes takes' : List Token → Bool} (hp : Form n t p takes) (hq : Form n t q takes')
    (hrun : ∀ more, (statement (below n)).run (t :: more) =
      (if c (more.head?.map Token.lexeme) then p else q).run (t :: more))
    (htakes : ∀ more, takesSemicolon (n + 1) (t :: more) =
      if c (more.head?.map Token.lexeme) then takes (t :: more) else takes' (t :: more))
    (herror : ∀ r ∈ [p, q], ∀ position more, ∃ e,
      r.run (t :: ⟨.symbol .semicolon, position⟩ :: more) = .error e) :
    ∃ p takes, HasForm n t second p takes := by
  have hagain {r : Parser Stmt} (hr : r ∈ [p, q]) (semi : Token) (more : List Token)
      (hsemi : semi.lexeme = .symbol .semicolon) : ∃ e, r.run (t :: semi :: more) = .error e := by
    obtain ⟨l, position⟩ := semi
    obtain rfl : l = .symbol .semicolon := hsemi
    exact herror r hr position more
  cases hc : c second with
  | true =>
    refine ⟨p, takes, hp, fun more hmore => ?_, fun semi more hsemi => .inr ?_⟩
    · rw [hrun, htakes, hmore, hc, if_pos rfl, if_pos rfl]
      exact ⟨rfl, rfl⟩
    · exact hagain (by simp) semi more hsemi
  | false =>
    refine ⟨q, takes', hq, fun more hmore => ?_, fun semi more hsemi => .inr ?_⟩
    · rw [hrun, htakes, hmore, hc, if_neg Bool.false_ne_true, if_neg Bool.false_ne_true]
      exact ⟨rfl, rfl⟩
    · exact hagain (by simp) semi more hsemi

end

section

variable {n : Nat} (hd : NearsightedBelow (below n)) (position : Position) (second : Option Lexeme)
include hd

/-- A function without a name is an expression, and one with a name is declared. -/
theorem exists_form_of_fn :
    ∃ p takes, HasForm n ⟨.keyword .fnWord, position⟩ second p takes := by
  refine exists_form_of_choice (Option.any (Lexeme.isSymbol .openParen))
    (.simple (g := (.expression · position)) fun i => .of_nearsighted (expression_nearsighted hd))
    (.braced fun i => .of_nearsighted (functionDeclaration_nearsighted hd false))
    (fun more => ?_) (fun more => ?_) fun r hr p more => ?_
  · rw [← closedExpression_bind]
    cases more <;> rfl
  · change Option.any (Lexeme.isSymbol .openParen) (more.head?.map Token.lexeme) = _
    cases Option.any (Lexeme.isSymbol .openParen) (more.head?.map Token.lexeme) <;> rfl
  · simp only [List.mem_cons, List.not_mem_nil, or_false] at hr
    obtain rfl | rfl := hr
    · exact ⟨_, run_bind_error (expression_run_error rfl)⟩
    · exact ⟨_, rfl⟩

/-- Only before a function the word for asynchronous ones begins a declaration. -/
theorem exists_form_of_async :
    ∃ p takes, HasForm n ⟨.keyword .asyncWord, position⟩ second p takes := by
  refine exists_form_of_choice (Option.any (Lexeme.isKeyword .fnWord))
    (p := advance >>= fun _ => functionDeclaration (below n) true) (.braced fun i =>
      .advance_plain rfl (by simp) (by simp) (functionDeclaration_nearsighted hd true).weak)
    (.simple (g := (.expression · position)) fun i => .of_nearsighted (expression_nearsighted hd))
    (fun more => ?_) (fun more => ?_) fun r hr p more => ?_
  · rw [← closedExpression_bind]
    cases more <;> rfl
  · change (!Option.any (Lexeme.isKeyword .fnWord) (more.head?.map Token.lexeme)) = _
    cases Option.any (Lexeme.isKeyword .fnWord) (more.head?.map Token.lexeme) <;> rfl
  · simp only [List.mem_cons, List.not_mem_nil, or_false] at hr
    obtain rfl | rfl := hr
    · exact ⟨_, rfl⟩
    · exact ⟨_, run_bind_error (expression_run_error rfl)⟩

end

theorem exists_form {n : Nat} (hd : NearsightedBelow (below n)) (t : Token)
    (second : Option Lexeme) : ∃ p takes, HasForm n t second p takes := by
  obtain ⟨l, position⟩ := t
  have hexpression (i : Nat) : Nearsighted terminator 1 i i (expression (below n)) :=
    expression_nearsighted hd
  have hplain (hrun : ∀ more, (statement (below n)).run (⟨l, position⟩ :: more) =
        (do return .expression (← closedExpression (below n)) position : Parser Stmt).run
          (⟨l, position⟩ :: more))
      (htakes : ∀ more, takesSemicolon (n + 1) (⟨l, position⟩ :: more) = true) :
      ∃ p takes, HasForm n ⟨l, position⟩ second p takes :=
    exists_form_of_simple (fun i => .of_nearsighted (hexpression i)) (closedExpression_bind _ _)
      hrun htakes
  cases l with
  | number | text | template | name | finish =>
    exact hplain (fun _ => rfl) fun _ => rfl
  | symbol c =>
    cases c with
    | openBrace =>
      exact exists_form_of_braced (fun i => .of_nearsighted (block_nearsighted hd position))
        (fun _ => rfl) fun _ => rfl
    | _ => exact hplain (fun _ => rfl) fun _ => rfl
  | keyword w =>
    have hword {β : Type} {front : Parser β} (hfront : ∀ i, Nearsighted terminator 0 i i front)
        (i : Nat) : NearsightedAt ⟨.keyword w, position⟩ terminator i i
          (advance >>= fun _ => front) :=
      .advance_plain rfl (by simp) (by simp) (hfront i)
    have hlone (i : Nat) : NearsightedAt ⟨.keyword w, position⟩ terminator i i advance :=
      .taken (by simp) (not_stops_of_ne (by simp)) (balanced_of_keyword rfl i)
    have hclosed (g : Expr → Stmt)
        (hrun : ∀ more, (statement (below n)).run (⟨.keyword w, position⟩ :: more) =
          (advance >>= fun _ => do return g (← closedExpression (below n)) : Parser Stmt).run
            (⟨.keyword w, position⟩ :: more))
        (htakes : ∀ more, takesSemicolon (n + 1) (⟨.keyword w, position⟩ :: more) = true) :
        ∃ p takes, HasForm n ⟨.keyword w, position⟩ second p takes :=
      exists_form_of_simple (hword fun i => (hexpression i).weak)
        (by rw [closedExpression_bind, advance_terminated]) hrun htakes
    cases w with
    | letWord =>
      exact exists_form_of_simple (hword fun i => (declared_nearsighted hd).weak)
        (q := advance >>= fun _ => declaration (below n) position)
        (by rw [declaration_eq, advance_terminated]) (fun _ => rfl) fun _ => rfl
    | constWord =>
      exact exists_form_of_simple (hword fun i => (declaredConstant_nearsighted hd).weak)
        (q := advance >>= fun _ => constantDeclaration (below n) position)
        (by rw [constantDeclaration_eq, advance_terminated])
        (fun _ => rfl) fun _ => rfl
    | throwWord => exact hclosed (.throw · position) (fun _ => rfl) fun _ => rfl
    | printWord => exact hclosed (.print · position) (fun _ => rfl) fun _ => rfl
    | importWord => exact hclosed (.load · position) (fun _ => rfl) fun _ => rfl
    | returnWord =>
      exact exists_form_of_simple (hword fun i => returned_nearsighted hd)
        (returnStatement_eq _ position) (fun _ => rfl) fun _ => rfl
    | breakWord =>
      exact exists_form_of_simple hlone (g := fun _ => .break position) rfl
        (fun _ => rfl) fun _ => rfl
    | continueWord =>
      exact exists_form_of_simple hlone (g := fun _ => .continue position) rfl
        (fun _ => rfl) fun _ => rfl
    | classWord =>
      exact exists_form_of_braced (fun i => .of_nearsighted (classDeclaration_nearsighted hd))
        (fun _ => rfl) fun _ => rfl
    | matchWord =>
      exact exists_form_of_braced (fun i => selection_nearsighted hd rfl position)
        (fun _ => rfl) fun _ => rfl
    | whileWord =>
      exact exists_form_of_ending rfl (fun i => (condition_nearsighted hd _).strict)
        (conditionalLoop_eq _ position) (fun _ => rfl) fun _ => rfl
    | forWord =>
      exact exists_form_of_ending rfl (fun i => loopHead_nearsighted hd)
        (countingLoop_eq _ position) (fun _ => rfl) fun _ => rfl
    | tryWord =>
      exact exists_form_of_ending rfl (fun i => attemptHead_nearsighted hd)
        (attempt_eq _ position) (fun _ => rfl) fun _ => rfl
    | ifWord =>
      have hguard (i : Nat) : NearsightedAt ⟨.keyword .ifWord, position⟩ none i i (guard n "if") :=
        .advance_plain rfl (by simp) nofun (condition_nearsighted hd _).strict.weak
      refine ⟨_, _, .of_first (.branch hguard position) (fun _ => rfl)
        fun more => ?_⟩
      rw [guard, after_advance (by simp)]
      rfl
    | fnWord => exact exists_form_of_fn hd position second
    | asyncWord => exact exists_form_of_async hd position second
    | _ => exact hplain (fun _ => rfl) fun _ => rfl

/-! Statements tell where they end -/

section

variable {n i : Nat}

theorem statement_nearsighted (hd : NearsightedBelow (below n)) :
    Nearsighted none 1 i i (statement (below n)) := by
  intro tokens s rest hrun
  cases tokens with
  | nil => cases hrun
  | cons t more =>
    obtain ⟨p, takes, h⟩ := exists_form hd t (more.head?.map Token.lexeme)
    rw [(h.run more rfl).1] at hrun
    obtain ⟨used, rfl, htakes⟩ := h.form.nearsighted hd hrun
    refine ⟨t :: used, rfl, { htakes with again := fun u hu u' more' hu' => ?_ }⟩
    have hsecond : (used ++ u' :: more').head?.map Token.lexeme =
        (used ++ rest).head?.map Token.lexeme := by
      obtain rfl := hu'.resolve_right not_stops_none
      rw [List.head?_append, List.head?_append, Option.mem_def.1 hu, List.head?_cons]
    rw [List.cons_append, (h.run _ hsecond).1]
    exact htakes.again u hu u' more' hu'

/-- At every depth the parsers look one token ahead. -/
theorem nearsightedBelow (n : Nat) : NearsightedBelow (below n) := by
  induction n with
  | zero => exact fun goal i => .of_error fun tokens => by cases tokens <;> exact ⟨_, rfl⟩
  | succ n ih =>
    intro goal i
    cases goal with
    | expression => exact expression_nearsighted ih
    | unary => exact unary_nearsighted ih
    | statement => exact statement_nearsighted ih
    | bindingPattern => exact bindingPattern_nearsighted ih
    | matchPattern => exact matchPattern_nearsighted ih
    | typeName => exact typeName_nearsighted ih

end

end ScriptEngine.Grammar
