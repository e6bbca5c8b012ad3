import ScriptEngine.Program.Basic

/-!
# Parts of programs

What an expression or a statement is made of, one level down: the expressions and statements that
are run as its parts, and the functions that it makes, whose code is only run by calls. A program
lacks a kind of statement if none occurs at any level, and it assigns only to some names if no
assignment at any level is to another one.
-/
namespace ScriptEngine

/-- The expressions that are evaluated as parts of another one. -/
def Expr.parts : Expr → List Expr
  | .literal .. | .name .. | .this _ | .super .. | .function _ => []
  | .assign _ part _ | .unary _ part _ | .grouping part _ | .get part _ _ _ | .await part _ =>
    [part]
  | .binary _ left right _ | .logical _ left right _ => [left, right]
  | .set target _ value _ => [target, value]
  | .index target key _ => [target, key]
  | .indexSet target key value _ => [target, key, value]
  | .call callee args _ => callee :: args
  | .array elements _ => elements.map Prod.fst
  | .object fields _ => fields.map Prod.snd
  | .template parts _ => parts.filterMap Sum.getRight?

/-- The functions that an expression turns into values itself. -/
def Expr.functions : Expr → List Function
  | .function decl => [decl]
  | _ => []

/-- The name that an expression assigns to itself. -/
def Expr.assigned : Expr → Option String
  | .assign n _ _ => some n
  | _ => none

namespace Stmt

/-- The expressions that a statement evaluates in its own scope. -/
def exprs : Stmt → List Expr
  | .expression e _ | .print e _ | .constant _ e _ | .throw e _ | .select e _ _ | .load e _
  | .branch e _ _ _ => [e]
  | .declare _ _ e _ | .classDecl _ e _ _ | .return e _ => e.toList
  | .loop e _ step _ => e :: step.toList
  | .block .. | .function _ | .attempt .. | .break _ | .continue _ => []

/-- The statements that a statement executes as its parts. -/
def parts : Stmt → List Stmt
  | .block body _ => body
  | .branch _ yes no _ => yes :: no.toList
  | .loop _ body _ _ => [body]
  | .attempt body _ handler _ => [body, handler]
  | .select _ arms _ => arms.map Prod.snd
  | _ => []

/-- The functions that a statement turns into values or methods itself. -/
def functions : Stmt → List Function
  | .function decl => [decl]
  | .classDecl _ _ methods _ => methods
  | _ => []

def isLoop : Stmt → Bool
  | .loop .. => true
  | _ => false

def isImport : Stmt → Bool
  | .load .. => true
  | _ => false

/-- The statements that repeat code, or bring in new one. -/
def isLoopOrImport (s : Stmt) : Bool := s.isLoop || s.isImport

end Stmt

mutual

/-- No statement of some kind occurs in an expression, nor in the functions that it makes. -/
inductive Expr.Lacks (kind : Stmt → Bool) : Expr → Prop
  | intro {e : Expr} (parts : ∀ p ∈ e.parts, Expr.Lacks kind p)
      (functions : ∀ f ∈ e.functions, Function.Lacks kind f) : Expr.Lacks kind e

inductive Function.Lacks (kind : Stmt → Bool) : Function → Prop
  | intro {f : Function} (defaults : ∀ p ∈ f.params, ∀ e, p.2 = some e → Expr.Lacks kind e)
      (body : ∀ s ∈ f.body, Stmt.Lacks kind s) : Function.Lacks kind f

inductive Stmt.Lacks (kind : Stmt → Bool) : Stmt → Prop
  | intro {s : Stmt} (own : kind s = false) (exprs : ∀ e ∈ s.exprs, Expr.Lacks kind e)
      (parts : ∀ t ∈ s.parts, Stmt.Lacks kind t)
      (functions : ∀ f ∈ s.functions, Function.Lacks kind f) : Stmt.Lacks kind s

end

mutual

/-- All assignments in an expression, and in the functions that it makes, are to such names. -/
inductive Expr.AssignsOnly (allowed : String → Prop) : Expr → Prop
  | intro {e : Expr} (own : ∀ n ∈ e.assigned, allowed n)
      (parts : ∀ p ∈ e.parts, Expr.AssignsOnly allowed p)
      (functions : ∀ f ∈ e.functions, Function.AssignsOnly allowed f) : Expr.AssignsOnly allowed e

inductive Function.AssignsOnly (allowed : String → Prop) : Function → Prop
  | intro {f : Function}
      (defaults : ∀ p ∈ f.params, ∀ e, p.2 = some e → Expr.AssignsOnly allowed e)
      (body : ∀ s ∈ f.body, Stmt.AssignsOnly allowed s) : Function.AssignsOnly allowed f

inductive Stmt.AssignsOnly (allowed : String → Prop) : Stmt → Prop
  | intro {s : Stmt} (exprs : ∀ e ∈ s.exprs, Expr.AssignsOnly allowed e)
      (parts : ∀ t ∈ s.parts, Stmt.AssignsOnly allowed t)
      (functions : ∀ f ∈ s.functions, Function.AssignsOnly allowed f) : Stmt.AssignsOnly allowed s

end

/-! Parts are smaller than the whole. -/

theorem Expr.sizeOf_part {e p : Expr} (h : p ∈ e.parts) : sizeOf p < sizeOf e := by
  cases e with
  | literal | name | this | super | function => cases h
  | assign _ a _ | unary _ a _ | grouping a _ | get a _ _ _ | await a _ =>
    obtain rfl := List.mem_singleton.1 h
    simp +arith
  | binary _ a b _ | logical _ a b _ | set a _ b _ | index a b _ =>
    simp only [parts, List.mem_cons, List.not_mem_nil, or_false] at h
    rcases h with rfl | rfl <;> simp +arith
  | indexSet a b c _ =>
    simp only [parts, List.mem_cons, List.not_mem_nil, or_false] at h
    rcases h with rfl | rfl | rfl <;> simp +arith
  | call callee args _ =>
    rcases List.mem_cons.1 h with rfl | h
    · simp +arith
    · have := List.sizeOf_lt_of_mem h
      simp only [call.sizeOf_spec]
      omega
  | array elements _ =>
    obtain ⟨⟨q, spread⟩, hq, rfl⟩ := List.mem_map.1 h
    have := List.sizeOf_lt_of_mem hq
    simp only [array.sizeOf_spec, Prod.mk.sizeOf_spec] at this ⊢
    omega
  | object fields _ =>
    obtain ⟨⟨key, q⟩, hq, rfl⟩ := List.mem_map.1 h
    have := List.sizeOf_lt_of_mem hq
    simp only [object.sizeOf_spec, Prod.mk.sizeOf_spec] at this ⊢
    omega
  | template parts _ =>
    obtain ⟨part, hpart, hq⟩ := List.mem_filterMap.1 h
    cases part with
    | inl chunk => cases hq
    | inr q =>
      obtain rfl := Option.some.inj hq
      have := List.sizeOf_lt_of_mem hpart
      simp only [template.sizeOf_spec, Sum.inr.sizeOf_spec] at this ⊢
      omega

theorem Expr.sizeOf_function {e : Expr} {f : Function} (h : f ∈ e.functions) :
    sizeOf f < sizeOf e := by
  cases e with
  | function decl =>
    obtain rfl := List.mem_singleton.1 h
    simp +arith
  | _ => cases h

theorem Option.sizeOf_lt_of_mem_toList {α : Type} [SizeOf α] {a : α} {o : Option α}
    (h : a ∈ o.toList) : sizeOf a < sizeOf o := by
  cases o with
  | none => cases h
  | some b =>
    obtain rfl := List.mem_singleton.1 h
    simp +arith

theorem Stmt.sizeOf_expr {s : Stmt} {e : Expr} (h : e ∈ s.exprs) : sizeOf e < sizeOf s := by
  cases s with
  | expression a _ | print a _ | constant _ a _ | throw a _ | select a _ _ | load a _
  | branch a _ _ _ =>
    obtain rfl := List.mem_singleton.1 h
    simp +arith
  | declare _ _ a _ | classDecl _ a _ _ | «return» a _ =>
    have := Option.sizeOf_lt_of_mem_toList h
    simp only [declare.sizeOf_spec, classDecl.sizeOf_spec, return.sizeOf_spec]
    omega
  | loop a _ step _ =>
    rcases List.mem_cons.1 h with rfl | h
    · simp +arith
    · have := Option.sizeOf_lt_of_mem_toList h
      simp only [loop.sizeOf_spec]
      omega
  | block | function | attempt | «break» | «continue» => cases h

theorem Stmt.sizeOf_part {s t : Stmt} (h : t ∈ s.parts) : sizeOf t < sizeOf s := by
  cases s with
  | block body _ =>
    have : sizeOf t < sizeOf body := List.sizeOf_lt_of_mem h
    simp only [block.sizeOf_spec]
    omega
  | branch _ yes no _ =>
    rcases List.mem_cons.1 h with rfl | h
    · simp +arith
    · have := Option.sizeOf_lt_of_mem_toList h
      simp only [branch.sizeOf_spec]
      omega
  | loop _ body _ _ =>
    obtain rfl := List.mem_singleton.1 h
    simp +arith
  | attempt body _ handler _ =>
    simp only [parts, List.mem_cons, List.not_mem_nil, or_false] at h
    rcases h with rfl | rfl <;> simp +arith
  | select _ arms _ =>
    obtain ⟨⟨p, q⟩, hq, rfl⟩ := List.mem_map.1 h
    have := List.sizeOf_lt_of_mem hq
    simp only [select.sizeOf_spec, Prod.mk.sizeOf_spec] at this ⊢
    omega
  | _ => cases h

theorem Stmt.sizeOf_function {s : Stmt} {f : Function} (h : f ∈ s.functions) :
    sizeOf f < sizeOf s := by
  cases s with
  | function decl =>
    obtain rfl := List.mem_singleton.1 h
    simp +arith
  | classDecl _ _ methods _ =>
    have : sizeOf f < sizeOf methods := List.sizeOf_lt_of_mem h
    simp only [classDecl.sizeOf_spec]
    omega
  | _ => cases h

theorem Function.sizeOf_default {f : Function} {p : Pattern × Option Expr} (hp : p ∈ f.params)
    {e : Expr} (he : p.2 = some e) : sizeOf e < sizeOf f := by
  obtain ⟨name, params, body, isAsync, returnType, position⟩ := f
  obtain ⟨q, default⟩ := p
  obtain rfl : default = some e := he
  have := List.sizeOf_lt_of_mem hp
  simp only [mk.sizeOf_spec, Function.params, Prod.mk.sizeOf_spec, Option.some.sizeOf_spec]
    at this ⊢
  omega

theorem Function.sizeOf_body {f : Function} {s : Stmt} (h : s ∈ f.body) :
    sizeOf s < sizeOf f := by
  obtain ⟨name, params, body, isAsync, returnType, position⟩ := f
  have := List.sizeOf_lt_of_mem h
  simp only [mk.sizeOf_spec, Function.body] at this ⊢
  omega

end ScriptEngine
