import ScriptEngine.Proofs.Program.Parts
import ScriptEngine.Token.Basic

/-!
# Rendering expressions

How tightly the parts of an expression have to bind so that it can be written down without adding
parentheses, and the lexemes that it is then written with. Infix operators group to the left: their
left side may be of the same level, their right side has to bind tighter. Names of properties and
keys of objects are written as strings.
-/
namespace ScriptEngine
open Text (Position)

/-! Levels of expressions -/

/-- The levels of expressions, from loose to tight. -/
inductive Expr.Level where
  | assignment | pipe | coalesce | either | both | equality | comparison | sum | product
  | unary | postfixed | primary
deriving DecidableEq, Repr

namespace Expr.Level

/-- The place of a level among all levels. -/
def rank : Level → Nat
  | assignment => 0 | pipe => 1 | coalesce => 2 | either => 3 | both => 4 | equality => 5
  | comparison => 6 | sum => 7 | product => 8 | unary => 9 | postfixed => 10 | primary => 11

instance : LE Level := ⟨fun a b => a.rank ≤ b.rank⟩

instance : LT Level := ⟨fun a b => a.rank < b.rank⟩

instance (a b : Level) : Decidable (a ≤ b) := inferInstanceAs (Decidable (a.rank ≤ b.rank))

instance (a b : Level) : Decidable (a < b) := inferInstanceAs (Decidable (a.rank < b.rank))

theorem le_def {a b : Level} : a ≤ b ↔ a.rank ≤ b.rank := Iff.rfl

theorem lt_def {a b : Level} : a < b ↔ a.rank < b.rank := Iff.rfl

theorem rank_injective {a b : Level} (h : a.rank = b.rank) : a = b := by
  cases a <;> cases b <;> first | rfl | cases h

end Expr.Level

def BinaryOp.level : BinaryOp → Expr.Level
  | .pipe => .pipe
  | .equal | .notEqual => .equality
  | .less | .lessEqual | .greater | .greaterEqual => .comparison
  | .add | .subtract => .sum
  | .multiply | .divide | .modulo => .product

def LogicalOp.level : LogicalOp → Expr.Level
  | .coalesce => .coalesce
  | .either => .either
  | .both => .both

theorem BinaryOp.level_lt (op : BinaryOp) : op.level < .unary := by cases op <;> decide

theorem BinaryOp.pipe_le_level (op : BinaryOp) : .pipe ≤ op.level := by cases op <;> decide

theorem LogicalOp.pipe_le_level (op : LogicalOp) : .pipe ≤ op.level := by cases op <;> decide

theorem LogicalOp.level_lt (op : LogicalOp) : op.level < .unary := by cases op <;> decide

namespace Expr

/-- The level of the operation at the root. -/
def level : Expr → Level
  | .assign .. | .set .. | .indexSet .. => .assignment
  | .binary op .. => op.level
  | .logical op .. => op.level
  | .unary .. | .await .. => .unary
  | .call .. | .get .. | .index .. => .postfixed
  | .literal .. | .name .. | .grouping .. | .this _ | .super .. | .function _ | .array ..
  | .object .. | .template .. => .primary

/-- The operands at the root bind tightly enough. Between brackets and to the right of an
assignment anything may stand. -/
def Fits : Expr → Prop
  | .binary op left right _ => op.level ≤ left.level ∧ op.level < right.level
  | .logical op left right _ => op.level ≤ left.level ∧ op.level < right.level
  | .unary _ operand _ | .await operand _ => .unary ≤ operand.level
  | .call target _ _ | .get target _ _ _ | .set target _ _ _ | .index target _ _
  | .indexSet target _ _ _ => .postfixed ≤ target.level
  | .literal .. | .name .. | .assign .. | .grouping .. | .this _ | .super .. | .function _
  | .array .. | .object .. | .template .. => True

/-- Neither a function nor a template. -/
def isPlain : Expr → Bool
  | .function _ | .template .. => false
  | _ => true

/-- No functions and templates occur in an expression. -/
inductive Plain : Expr → Prop
  | intro {e : Expr} (own : e.isPlain) (parts : ∀ p ∈ e.parts, Plain p) : Plain e

end Expr

mutual

/-- An expression respects the levels at its root, in its parts and in the functions it makes. -/
inductive Expr.Leveled : Expr → Prop
  | intro {e : Expr} (fits : e.Fits) (parts : ∀ p ∈ e.parts, Expr.Leveled p)
      (functions : ∀ f ∈ e.functions, Function.Leveled f) : Expr.Leveled e

inductive Function.Leveled : Function → Prop
  | intro {f : Function} (defaults : ∀ p ∈ f.params, ∀ e, p.2 = some e → Expr.Leveled e)
      (body : ∀ s ∈ f.body, Stmt.Leveled s) : Function.Leveled f

inductive Stmt.Leveled : Stmt → Prop
  | intro {s : Stmt} (exprs : ∀ e ∈ s.exprs, Expr.Leveled e) (parts : ∀ t ∈ s.parts, Stmt.Leveled t)
      (functions : ∀ f ∈ s.functions, Function.Leveled f) : Stmt.Leveled s

end

/-- The operators that stand between two operands. -/
inductive Infix where
  | binary (op : BinaryOp)
  | logical (op : LogicalOp)

namespace Infix

def join : Infix → Expr → Expr → Position → Expr
  | binary op => .binary op
  | logical op => .logical op

def level : Infix → Expr.Level
  | binary op => op.level
  | logical op => op.level

variable (i : Infix) (left right : Expr) (p : Position)

theorem level_join : (i.join left right p).level = i.level := by cases i <;> rfl

theorem parts_join : (i.join left right p).parts = [left, right] := by cases i <;> rfl

theorem fits_join :
    (i.join left right p).Fits ↔ i.level ≤ left.level ∧ i.level < right.level := by
  cases i <;> rfl

end Infix

/-- An expression of the level of an infix operator is made by one. -/
theorem Expr.exists_join {e : Expr} (hloose : .assignment < e.level) (htight : e.level < .unary) :
    ∃ (i : Infix) (left right : Expr) (p : Position), e = i.join left right p := by
  cases e with
  | binary op left right p => exact ⟨.binary op, left, right, p, rfl⟩
  | logical op left right p => exact ⟨.logical op, left, right, p, rfl⟩
  | assign | set | indexSet => simp [level, Level.lt_def, Level.rank] at hloose
  | _ => simp [level, Level.lt_def, Level.rank] at htight

/-! Lexemes -/

/-- The word and the sign for one operator are the same. -/
def Lexeme.canonical : Lexeme → Lexeme
  | .symbol .doubleAmp => .keyword .andWord
  | .symbol .doubleBar => .keyword .orWord
  | x => x

def BinaryOp.symbol : BinaryOp → Symbol
  | .add => .plus | .subtract => .minus | .multiply => .star | .divide => .slash
  | .modulo => .percent | .equal => .equalEqual | .notEqual => .bangEqual | .less => .less
  | .lessEqual => .lessEqual | .greater => .greater | .greaterEqual => .greaterEqual
  | .pipe => .barGreater

def LogicalOp.lexeme : LogicalOp → Lexeme
  | .both => .keyword .andWord
  | .either => .keyword .orWord
  | .coalesce => .symbol .doubleQuestion

def UnaryOp.symbol : UnaryOp → Symbol
  | .negate => .minus
  | .not => .bang

def Literal.lexeme : Literal → Lexeme
  | .number x => .number x
  | .text s => .text s
  | .bool true => .keyword .trueWord
  | .bool false => .keyword .falseWord
  | .nil => .keyword .nilWord

/-- Lists with commas between them. -/
def commaJoined (xs : List (List Lexeme)) : List Lexeme := [Lexeme.symbol .comma].intercalate xs

theorem commaJoined_singleton (xs : List Lexeme) : commaJoined [xs] = xs := by
  simp [commaJoined]

theorem commaJoined_cons_cons (xs ys : List Lexeme) (yss : List (List Lexeme)) :
    commaJoined (xs :: ys :: yss) = xs ++ .symbol .comma :: commaJoined (ys :: yss) := by
  simp [commaJoined, List.intercalate]

theorem exists_commaJoined_cons (xs : List Lexeme) (xss : List (List Lexeme)) :
    ∃ ys, commaJoined (xs :: xss) = xs ++ ys := by
  cases xss with
  | nil => exact ⟨[], by rw [commaJoined_singleton, List.append_nil]⟩
  | cons ys yss => exact ⟨_, commaJoined_cons_cons xs ys yss⟩

namespace Expr

/-- The lexemes of an expression without functions and templates. -/
def render : Expr → List Lexeme
  | .literal value _ => [value.lexeme]
  | .name n _ => [.name n]
  | .assign n value _ => .name n :: .symbol .equal :: value.render
  | .binary op left right _ => left.render ++ .symbol op.symbol :: right.render
  | .logical op left right _ => left.render ++ op.lexeme :: right.render
  | .unary op operand _ => .symbol op.symbol :: operand.render
  | .grouping inner _ => .symbol .openParen :: inner.render ++ [.symbol .closeParen]
  | .call callee args _ =>
    callee.render ++ .symbol .openParen :: commaJoined (args.map render) ++ [.symbol .closeParen]
  | .get target n optional _ =>
    target.render ++ [.symbol (if optional then .questionDot else .dot), .text n]
  | .set target n value _ =>
    target.render ++ .symbol .dot :: .text n :: .symbol .equal :: value.render
  | .index target key _ =>
    target.render ++ .symbol .openBracket :: key.render ++ [.symbol .closeBracket]
  | .indexSet target key value _ =>
    target.render ++ .symbol .openBracket :: key.render ++
      .symbol .closeBracket :: .symbol .equal :: value.render
  | .this _ => [.keyword .thisWord]
  | .super method _ => [.keyword .superWord, .symbol .dot, .name method]
  | .await operand _ => .keyword .awaitWord :: operand.render
  | .array elements _ =>
    .symbol .openBracket :: commaJoined (elements.map fun x =>
      (if x.2 then [.symbol .dots] else []) ++ x.1.render) ++ [.symbol .closeBracket]
  | .object fields _ =>
    .symbol .openBrace :: commaJoined (fields.map fun x =>
      .text x.1 :: .symbol .colon :: x.2.render) ++ [.symbol .closeBrace]
  | .function _ | .template .. => []
termination_by e => e
decreasing_by
  all_goals apply Expr.sizeOf_part
  all_goals first | exact List.mem_map_of_mem ‹_› | simp [parts, *]

/-- An expression with all positions forgotten, functions and templates apart. -/
def unplaced : Expr → Expr
  | .literal value _ => .literal value default
  | .name n _ => .name n default
  | .assign n value _ => .assign n value.unplaced default
  | .binary op left right _ => .binary op left.unplaced right.unplaced default
  | .logical op left right _ => .logical op left.unplaced right.unplaced default
  | .unary op operand _ => .unary op operand.unplaced default
  | .grouping inner _ => .grouping inner.unplaced default
  | .call callee args _ => .call callee.unplaced (args.map unplaced) default
  | .get target n optional _ => .get target.unplaced n optional default
  | .set target n value _ => .set target.unplaced n value.unplaced default
  | .index target key _ => .index target.unplaced key.unplaced default
  | .indexSet target key value _ =>
    .indexSet target.unplaced key.unplaced value.unplaced default
  | .this _ => .this default
  | .super method _ => .super method default
  | .await operand _ => .await operand.unplaced default
  | .array elements _ => .array (elements.map fun x => (x.1.unplaced, x.2)) default
  | .object fields _ => .object (fields.map fun x => (x.1, x.2.unplaced)) default
  | .function decl => .function decl
  | .template parts p => .template parts p
termination_by e => e
decreasing_by
  all_goals apply Expr.sizeOf_part
  all_goals first | exact List.mem_map_of_mem ‹_› | simp [parts, *]

end Expr

namespace Infix

def lexeme : Infix → Lexeme
  | binary op => .symbol op.symbol
  | logical op => op.lexeme

theorem render_join (i : Infix) (left right : Expr) (p : Position) :
    (i.join left right p).render = left.render ++ i.lexeme :: right.render := by
  cases i <;> rw [join, Expr.render, lexeme]

theorem unplaced_join (i : Infix) (left right : Expr) (p : Position) :
    (i.join left right p).unplaced = i.join left.unplaced right.unplaced default := by
  cases i <;> rw [join, Expr.unplaced]

end Infix

/-- What an expression can begin with, and the level of the operation that begins there. -/
def Lexeme.begins : Lexeme → Option Expr.Level
  | .symbol .bang | .symbol .minus | .keyword .awaitWord => some .unary
  | .number _ | .text _ | .name _ | .keyword .trueWord | .keyword .falseWord | .keyword .nilWord
  | .keyword .thisWord | .keyword .superWord | .symbol .openParen | .symbol .openBracket
  | .symbol .openBrace => some .primary
  | _ => none

/-- The infix operator that a lexeme stands for. -/
def Lexeme.operator? : Lexeme → Option Infix
  | .symbol .plus => some (.binary .add)
  | .symbol .minus => some (.binary .subtract)
  | .symbol .star => some (.binary .multiply)
  | .symbol .slash => some (.binary .divide)
  | .symbol .percent => some (.binary .modulo)
  | .symbol .equalEqual => some (.binary .equal)
  | .symbol .bangEqual => some (.binary .notEqual)
  | .symbol .less => some (.binary .less)
  | .symbol .lessEqual => some (.binary .lessEqual)
  | .symbol .greater => some (.binary .greater)
  | .symbol .greaterEqual => some (.binary .greaterEqual)
  | .symbol .barGreater => some (.binary .pipe)
  | .keyword .andWord | .symbol .doubleAmp => some (.logical .both)
  | .keyword .orWord | .symbol .doubleBar => some (.logical .either)
  | .symbol .doubleQuestion => some (.logical .coalesce)
  | _ => none

/-- What can come after an expression as a part of a larger one, and the level of that one. -/
def Lexeme.continues : Lexeme → Option Expr.Level
  | .symbol .equal => some .assignment
  | .symbol .openParen | .symbol .dot | .symbol .questionDot | .symbol .openBracket =>
    some .postfixed
  | .symbol .thickArrow => some .primary
  | x => x.operator?.map Infix.level

/-- The words that have a sign beside them. -/
def Lexeme.hasSign : Lexeme → Bool
  | .keyword .andWord | .keyword .orWord => true
  | _ => false

theorem Lexeme.canonical_eq {x y : Lexeme} (h : x.canonical = y) (hy : y.hasSign = false) :
    x = y := by
  unfold canonical at h
  split at h
  · cases h ▸ hy
  · cases h ▸ hy
  · exact h

theorem Infix.operator?_of_canonical {i : Infix} {x : Lexeme} (h : x.canonical = i.lexeme) :
    x.operator? = some i := by
  cases i with
  | binary op =>
    obtain rfl := Lexeme.canonical_eq h rfl
    cases op <;> rfl
  | logical op =>
    cases op with
    | coalesce =>
      obtain rfl := Lexeme.canonical_eq h rfl
      rfl
    | _ =>
      unfold Lexeme.canonical at h
      split at h <;> first | rfl | (cases h; rfl) | cases h

theorem Lexeme.continues_of_operator? {x : Lexeme} {i : Infix} (h : x.operator? = some i) :
    x.continues = some i.level := by
  unfold continues
  split
  case h_7 => simp [h]
  all_goals cases h

theorem Lexeme.hasSign_of_begins {x : Lexeme} {k : Expr.Level} (h : x.begins = some k) :
    x.hasSign = false := by
  unfold hasSign
  split
  · cases h
  · cases h
  · rfl

theorem Literal.begins_lexeme (value : Literal) : value.lexeme.begins = some .primary := by
  cases value with
  | bool b => cases b <;> rfl
  | _ => rfl

/-- Where an expression begins that binds at least as tightly as a call, a primary begins. -/
theorem Expr.render_begins {e : Expr} (h : e.Plain) (hl : e.Leveled) :
    ∃ x xs k, e.render = x :: xs ∧ x.begins = some k ∧ (.postfixed ≤ e.level → k = .primary) := by
  induction h with
  | @intro e own parts ih =>
    obtain ⟨fits, hparts, -⟩ := hl
    have hfirst {p : Expr} {ys : List Lexeme} (hp : p ∈ e.parts) (hr : e.render = p.render ++ ys)
        (hlevel : .postfixed ≤ e.level → .postfixed ≤ p.level) :
        ∃ x xs k, e.render = x :: xs ∧ x.begins = some k ∧
          (.postfixed ≤ e.level → k = .primary) := by
      obtain ⟨x, xs, k, hx, hbegins, hk⟩ := ih p hp (hparts p hp)
      exact ⟨x, xs ++ ys, k, by rw [hr, hx, List.cons_append], hbegins, fun h => hk (hlevel h)⟩
    cases e with
    | literal value p => exact ⟨_, _, _, by rw [render], value.begins_lexeme, fun _ => rfl⟩
    | name | this | super | assign => exact ⟨_, _, _, by rw [render], rfl, fun _ => rfl⟩
    | grouping | array | object => exact ⟨_, _, _, by rw [render]; rfl, rfl, fun _ => rfl⟩
    | unary op operand p =>
      have htight : .postfixed ≤ Level.unary → Level.unary = .primary := by decide
      cases op <;> exact ⟨_, _, .unary, by rw [render], rfl, htight⟩
    | await operand p =>
      have htight : .postfixed ≤ Level.unary → Level.unary = .primary := by decide
      exact ⟨_, _, .unary, by rw [render], rfl, htight⟩
    | binary op left right p =>
      refine hfirst (p := left) (by simp [Expr.parts]) (by rw [render]) fun hlevel => ?_
      exact absurd hlevel (Nat.not_le.2 (Nat.lt_trans op.level_lt (by decide)))
    | logical op left right p =>
      refine hfirst (p := left) (by simp [Expr.parts]) (by rw [render]) fun hlevel => ?_
      exact absurd hlevel (Nat.not_le.2 (Nat.lt_trans op.level_lt (by decide)))
    | get | set => exact hfirst List.mem_cons_self (by rw [render]) fun _ => fits
    | call | index | indexSet =>
      exact hfirst List.mem_cons_self (by rw [render, List.append_assoc]) fun _ => fits
    | function | template => cases own

end ScriptEngine
