import ScriptEngine.Proofs.Grammar.NearsightedExpression

/-!
# Nearsighted statements

A statement either ends in a closing brace of its own, or in another statement, or a semicolon may
follow. What comes before the semicolon or before the other statement looks one token ahead.
-/
namespace ScriptEngine.Grammar
open Text (Position)

variable {α β : Type}

/-- A parser and the semicolon that may follow. -/
def terminated (front : Parser α) (g : α → Stmt) : Parser Stmt := do
  let a ← front
  optionalSemicolon
  return g a

/-- What is declared, without the semicolon. -/
def declared (d : Deeper) : Parser (Pattern × Option String × Option Expr) := do
  let p ← bindingPattern d
  let hint ← typeAfter d .colon
  let init ← if ← accept .equal then some <$> expression d else pure none
  return (p, hint, init)

/-- What a constant declares, without the semicolon. -/
def declaredConstant (d : Deeper) : Parser (Pattern × Expr) := do
  let p ← bindingPattern d
  discard (typeAfter d .colon)
  unless ← accept .equal do fail (.invalid .constantWithoutValue (← here))
  return (p, ← expression d)

/-- What is returned, without the semicolon. -/
def returned (d : Deeper) : Parser (Option Expr) := do
  let bare := (← atEnd) || (← isNext .semicolon) || (← isNext .closeBrace)
  if bare then pure none else some <$> expression d

/-- What stands between the condition of a counting loop and its body. -/
def loopStep (d : Deeper) : Parser (Option Expr) := do
  expect .semicolon "';' after loop condition"
  let step ← if ← isNext .closeParen then pure none else some <$> expression d
  expect .closeParen "')' after for clauses"
  return step

/-- What stands before the body of a counting loop. -/
def loopHead (d : Deeper) : Parser (Option Stmt × Expr × Option Expr) := do
  expect .openParen "'(' after 'for'"
  let start ← loopStart d
  let c ← if ← isNext .semicolon then .literal (.bool true) <$> here else expression d
  return (start, c, ← loopStep d)

/-- A counting loop, from what stands before its body and from the body. -/
def countedLoop (position : Position) (head : Option Stmt × Expr × Option Expr) (s : Stmt) : Stmt :=
  match head.1 with
  | some first => .block [first, .loop head.2.1 s head.2.2 position] position
  | none => .loop head.2.1 s head.2.2 position

/-- What stands before the handler of a guarded statement. -/
def attemptHead (d : Deeper) : Parser (Stmt × String) := do
  let statement ← d.parse .statement
  expectWord .catchWord "'catch' after try body"
  expect .openParen "'(' after 'catch'"
  let n ← name
  expect .closeParen "')' after catch variable"
  return (statement, n)

theorem ite_bind (c : Prop) [Decidable c] (p q : Parser α) (f : α → Parser β) :
    (if c then p >>= f else q >>= f) = (if c then p else q) >>= f := by
  split <;> rfl

theorem declaration_eq (d : Deeper) (position : Position) :
    declaration d position =
      terminated (declared d) fun x => .declare x.1 x.2.1 x.2.2 position := by
  simp only [declaration, terminated, declared, bind_assoc, ite_bind]
  simp only [pure_bind]

theorem constantDeclaration_eq (d : Deeper) (position : Position) :
    constantDeclaration d position =
      terminated (declaredConstant d) fun x => .constant x.1 x.2 position := by
  simp only [constantDeclaration, terminated, declaredConstant, bind_assoc]
  refine bind_congr fun p => bind_congr fun _ => bind_congr fun given => ?_
  cases given <;> simp [fail]

theorem returnStatement_eq (d : Deeper) (position : Position) :
    returnStatement d position =
      terminated (advance >>= fun _ => returned d) fun value => .return value position := by
  simp only [returnStatement, terminated, returned, bind_assoc, ite_bind]

theorem countingLoop_eq (d : Deeper) (position : Position) :
    countingLoop d position = (advance >>= fun _ => loopHead d) >>= fun head =>
      d.parse .statement >>= fun s => pure (countedLoop position head s) := by
  simp only [countingLoop, loopHead, loopStep, bind_assoc, ite_bind]
  refine bind_congr fun _ => bind_congr fun _ => bind_congr fun start => ?_
  cases start <;> simp only [countedLoop, pure_bind]

theorem conditionalLoop_eq (d : Deeper) (position : Position) :
    conditionalLoop d position = (advance >>= fun _ => condition d "while") >>= fun c =>
      d.parse .statement >>= fun s => pure (.loop c s none position) := by
  simp only [conditionalLoop, bind_assoc]

theorem attempt_eq (d : Deeper) (position : Position) :
    attempt d position = (advance >>= fun _ => attemptHead d) >>= fun head =>
      d.parse .statement >>= fun s => pure (.attempt head.1 head.2 s position) := by
  simp only [attempt, attemptHead, bind_assoc, pure_bind]

section

variable {i : Nat} {d : Deeper} {t : Token}

theorem terminated_nearsighted {front : Parser α} (h : Nearsighted terminator 1 i i front)
    (g : α → Stmt) : Nearsighted none 1 i i (terminated front g) :=
  h.strict.bind fun _ => Nearsighted.optionalSemicolon.bind fun _ => .pure _

theorem terminated_nearsightedAt {front : Parser α} (h : NearsightedAt t terminator i i front)
    (g : α → Stmt) : NearsightedAt t none i i (terminated front g) :=
  h.strict.bind fun _ => Nearsighted.optionalSemicolon.bind fun _ => .pure _

variable (hd : NearsightedBelow d)
include hd

theorem declared_nearsighted : Nearsighted terminator 1 i i (declared d) := by
  refine (bindingPattern_nearsighted hd).bind fun p =>
    (typeAfter_nearsighted hd .colon (.plain (by decide)) (by decide)).bind fun hint =>
      (Nearsighted.accept (.plain (by decide)) (by decide)).bind fun given => ?_
  exact .choose ((expression_nearsighted hd).map _).weak (.pure none) fun _ => .pure _

theorem declaredConstant_nearsighted : Nearsighted terminator 1 i i (declaredConstant d) := by
  refine (bindingPattern_nearsighted hd).bind fun p =>
    ((typeAfter_nearsighted hd .colon (.plain (by decide)) (by decide)).map _).bind fun _ => ?_
  refine .accept_bind (Nat.zero_le 1) (.plain (by decide)) (by decide) ?_ ?_
  · exact ((expression_nearsighted hd).bind fun _ => .pure _).weak
  · exact .of_error fun tokens => by cases tokens <;> exact ⟨_, rfl⟩

omit hd in
theorem returned_eq (d : Deeper) : returned d = peek >>= fun t =>
    if Lexeme.isFinish t.lexeme || Lexeme.isSymbol .semicolon t.lexeme ||
        Lexeme.isSymbol .closeBrace t.lexeme then pure none
    else some <$> expression d := by
  refine StateT.ext fun tokens => ?_
  cases tokens <;> rfl

/-- Before a semicolon nothing is returned. -/
theorem returned_nearsighted : Nearsighted terminator 0 i i (returned d) := by
  rw [returned_eq]
  refine .peek_or (Nat.zero_le 1) (g := pure none) (fun t => ?_) (fun t ht => ?_) (.pure none)
  · split
    next => exact .inl rfl
    next => exact .inr (.of_nearsighted ((expression_nearsighted hd).map _))
  · rw [lexeme_of_stops ht]
    rfl

/-! Statements with a closing brace of their own -/

theorem block_nearsighted (position : Position) :
    Nearsighted terminator 1 i i (do return Stmt.block (← body d) position : Parser Stmt) :=
  (body_nearsighted hd).bind fun _ => .pure _

theorem functionDeclaration_nearsighted (isAsync : Bool) :
    Nearsighted terminator 1 i i (functionDeclaration d isAsync) :=
  .look_bind fun _ => (Nearsighted.expectWord _ _).bind fun _ => (Nearsighted.name.bind fun _ =>
    ((functionRest_nearsighted hd _ _ _).bind fun _ => .pure _).weak).weak

theorem method_nearsighted : Nearsighted terminator 1 i i (method d) :=
  (Nearsighted.acceptWord _).after fun _ => ((Nearsighted.acceptWord _).map _).after fun _ =>
    .look_bind fun _ => Nearsighted.name.bind fun _ => (functionRest_nearsighted hd _ _ _).weak

omit hd in
theorem parentClass_nearsighted : Nearsighted terminator 0 i i parentClass := by
  refine (Nearsighted.accept (.plain (by decide)) (by decide)).after fun given => ?_
  split
  · exact (Nearsighted.look_bind fun _ => Nearsighted.name.bind fun _ => .pure _).weak
  · exact .pure none

theorem classDeclaration_nearsighted : Nearsighted terminator 1 i i (classDeclaration d) :=
  .look_bind fun _ => (Nearsighted.expectWord _ _).bind fun _ => (Nearsighted.name.bind fun _ =>
    parentClass_nearsighted.bind fun _ =>
      ((Nearsighted.expect (.plain (by decide)) (by decide) _).bind fun _ =>
        ((Nearsighted.itemsUntil _ (method_nearsighted hd).strict.weak).enclosed fun _ =>
          (Nearsighted.expect (.plain (by decide)) (by decide) _).bind fun _ =>
            .pure _).weak).weak).weak

theorem condition_nearsighted (word : String) : Nearsighted terminator 1 i i (condition d word) :=
  (Nearsighted.expect .opens (by decide) _).bind fun _ =>
    ((expression_nearsighted hd).bind fun _ =>
      ((Nearsighted.expect .closes (by decide) _).bind fun _ => .pure _).weak).weak

theorem arm_nearsighted : Nearsighted none 1 i i (arm d) :=
  (matchPattern_nearsighted hd).strict.bind fun _ =>
    ((Nearsighted.expect (.plain (by decide)) (Option.not_mem_none _) _).bind fun _ =>
      ((hd .statement i).bind fun _ => ((Nearsighted.accept (.plain (by decide))
        (Option.not_mem_none _)).map _).bind fun _ => .pure _).weak).weak

theorem selection_nearsighted (ht : t.lexeme = .keyword .matchWord) (position : Position) :
    NearsightedAt t terminator i i (selection d position) := by
  refine .advance_plain ht (by simp) (by simp) ((condition_nearsighted hd _).bind fun _ => ?_).weak
  exact ((Nearsighted.expect (.plain (by decide)) (by decide) _).bind fun _ =>
    ((Nearsighted.itemsUntil _ (arm_nearsighted hd).weak).enclosed fun _ =>
      (Nearsighted.expect (.plain (by decide)) (by decide) _).bind fun _ => .pure _).weak).weak

/-! What stands before the statement that another one ends in -/

theorem loopStart_nearsighted : Nearsighted none 1 i i (loopStart d) := by
  refine .accept_bind (Nat.le_refl 1) (.plain (by decide)) (Option.not_mem_none _) (.pure none)
    (.look_bind fun p => .acceptWord_bind (Nat.le_refl 1) ?_ ?_)
  · rw [declaration_eq]
    exact ((terminated_nearsighted (declared_nearsighted hd) _).bind fun _ => .pure _).weak
  · exact (expression_nearsighted hd).strict.bind fun _ =>
      ((Nearsighted.expect (.plain (by decide)) (Option.not_mem_none _) _).bind fun _ =>
        .pure _).weak

theorem loopStep_nearsighted : Nearsighted none 1 (i + 1) i (loopStep d) := by
  have hexpression : Nearsighted none 0 (i + 1) (i + 1) (expression d) :=
    (expression_nearsighted hd).strict.weak
  refine (Nearsighted.expect (.plain (by decide)) (Option.not_mem_none _) _).bind fun _ =>
    (Nearsighted.look _).bind fun closed => .choose (.pure none) (hexpression.map _) fun step => ?_
  exact ((Nearsighted.expect .closes (Option.not_mem_none _) _).bind fun _ => .pure _).weak

theorem loopHead_nearsighted : Nearsighted none 1 i i (loopHead d) := by
  have hexpression : Nearsighted none 0 (i + 1) (i + 1) (expression d) :=
    (expression_nearsighted hd).strict.weak
  refine (Nearsighted.expect .opens (Option.not_mem_none _) _).bind fun _ =>
    (loopStart_nearsighted hd).weak.bind fun start => (Nearsighted.look _).bind fun endless => ?_
  exact .choose ((Nearsighted.look _).map _) hexpression fun c =>
    ((loopStep_nearsighted hd).bind fun _ => .pure _).weak

theorem attemptHead_nearsighted : Nearsighted none 1 i i (attemptHead d) :=
  (hd .statement i).bind fun _ => ((Nearsighted.expectWord _ _).bind fun _ =>
    ((Nearsighted.expect .opens (Option.not_mem_none _) _).bind fun _ =>
      (Nearsighted.name.bind fun _ =>
        ((Nearsighted.expect .closes (Option.not_mem_none _) _).bind fun _ =>
          .pure _).weak).weak).weak).weak

end

end ScriptEngine.Grammar
