import ScriptEngine.Proofs.Engine.Termination
import ScriptEngine.Proofs.Scope.Definitions

/-!
# Built-in functions that call each other without end

An array may hold its own `forEach`. Calling that method with itself calls it again on the first
element, and none of these calls counts towards the limit on call depth.
-/
namespace ScriptEngine
open Eval

/-- The `forEach` of an array. -/
def visitor (id : Nat) (r : ArrayRef) : Value := .native id (.array .forEach) (some (.array r))

/-- Visiting an array with its own visitor, which it holds, takes up every bound. -/
theorem visitor_exhausted {m : Machine} {r : ArrayRef} {c : Nat} {rest : List Value}
    (h : (m.heap.array r).toList = visitor c r :: rest) (n a b : Nat) :
    (Evaluator.bounded n).call (visitor a r) [visitor b r] m = .finished .exhausted := by
  induction n generalizing a b with
  | zero => rfl
  | succ n ih =>
    have hfirst : Library.callWithItem (Evaluator.bounded n).call (visitor b r) (visitor c r) 0 m =
        .finished .exhausted := ih b c
    have hvisit : Library.visitItems (Evaluator.bounded n).call (visitor b r) (m.heap.array r) m =
        .finished .exhausted := by
      change Eval.bind (Eval.forEach _ (m.heap.array r).toList.zipIdx) _ m = _
      rw [h, List.zipIdx_cons, bind_apply, Eval.forEach, foldList_cons]
      change (((Eval.bind (Library.callWithItem _ _ _ _) _ m).bind _).bind _) = _
      rw [bind_apply, hfirst]
      rfl
    exact hvisit

/-- The method of an array that a name stands for. -/
theorem eval_arrayMethod {m : Machine} {scope : ScopeRef} {x name : String} {r : ArrayRef}
    (hx : m.scopes.get? scope x = some (.array r)) {method : ArrayMethod}
    (hlength : (name == "length") = false)
    (hmethod : Native.named? Native.arrayMethods name = some (.array method)) (n : Nat)
    (p q : Text.Position) :
    (Evaluator.bounded (n + 2)).eval (.get (.name x p) name false q) scope m =
      .finished (.value (.native m.nextId (.array method) (some (.array r)))
        { m with nextId := m.nextId + 1 }) := by
  have hname : (Evaluator.bounded (n + 1)).eval (.name x p) scope m =
      .finished (.value (.array r) m) := by
    have hlookup : Eval.lookup? scope x m = .finished (.value (some (.array r)) m) := by
      rw [Eval.lookup?, Eval.read, hx]
    change Eval.lookup scope x m = _
    unfold Eval.lookup
    change Eval.bind (Eval.lookup? scope x) _ m = _
    rw [bind_apply, hlookup]
    rfl
  change Eval.bind ((Evaluator.bounded (n + 1)).eval (.name x p) scope) _ m = _
  rw [bind_apply, hname]
  change property (.array r) name m = _
  rw [property, hlength]
  change builtInMethod Native.arrayMethods (.array r) name m = _
  rw [builtInMethod, hmethod]
  rfl

/-- Calling a method of an array with another method of it. -/
theorem eval_methodCall {m : Machine} {scope : ScopeRef} {x name name' : String} {r : ArrayRef}
    (hx : m.scopes.get? scope x = some (.array r)) (method method' : ArrayMethod)
    (hlength : (name == "length") = false) (hlength' : (name' == "length") = false)
    (hmethod : Native.named? Native.arrayMethods name = some (.array method))
    (hmethod' : Native.named? Native.arrayMethods name' = some (.array method')) (n : Nat)
    (p p' q q' t : Text.Position) :
    (Evaluator.bounded (n + 3)).eval
        (.call (.get (.name x p) name false q) [.get (.name x p') name' false q'] t) scope m =
      (Evaluator.bounded (n + 2)).call (.native m.nextId (.array method) (some (.array r)))
        [.native (m.nextId + 1) (.array method') (some (.array r))]
        { m with nextId := m.nextId + 2 } := by
  have hargument := eval_arrayMethod (m := { m with nextId := m.nextId + 1 }) hx hlength' hmethod' n
    p' q'
  have hargs : (Evaluator.bounded (n + 2)).evalAll [.get (.name x p') name' false q'] scope
      { m with nextId := m.nextId + 1 } = .finished (.value
        #[.native (m.nextId + 1) (.array method') (some (.array r))]
        { m with nextId := m.nextId + 2 }) := by
    rw [Evaluator.evalAll, Eval.mapList, foldList_cons, bind_apply, hargument]
    rfl
  change Eval.bind ((Evaluator.bounded (n + 2)).eval _ scope) _ m = _
  rw [bind_apply, eval_arrayMethod hx hlength hmethod n p q]
  change Eval.bind ((Evaluator.bounded (n + 2)).evalAll _ scope) _ _ = _
  rw [bind_apply, hargs]
  rfl

/-- The program `let a = []; a.push(a.forEach); a.forEach(a.forEach);`. -/
def selfVisit : Program :=
  [.declare (.name "a") none (some (.array [] ⟨1, 9, 8⟩)) ⟨1, 1, 0⟩,
    .expression (.call (.get (.name "a" ⟨1, 13, 12⟩) "push" false ⟨1, 14, 13⟩)
      [.get (.name "a" ⟨1, 20, 19⟩) "forEach" false ⟨1, 21, 20⟩] ⟨1, 19, 18⟩) ⟨1, 13, 12⟩,
    .expression (.call (.get (.name "a" ⟨1, 32, 31⟩) "forEach" false ⟨1, 33, 32⟩)
      [.get (.name "a" ⟨1, 42, 41⟩) "forEach" false ⟨1, 43, 42⟩] ⟨1, 41, 40⟩) ⟨1, 32, 31⟩]

theorem selfVisit_lacks : ∀ s ∈ selfVisit, s.Lacks Stmt.isLoopOrImport := by
  have hget (x name : String) (p q : Text.Position) :
      (Expr.get (.name x p) name false q).Lacks Stmt.isLoopOrImport := by
    refine ⟨fun e he => ?_, by simp [Expr.functions]⟩
    obtain rfl := List.mem_singleton.1 he
    exact ⟨by simp [Expr.parts], by simp [Expr.functions]⟩
  have hcall (x y name name' : String) (p p' q q' r t : Text.Position) :
      (Stmt.expression (.call (.get (.name x p) name false q) [.get (.name y p') name' false q'] r)
        t).Lacks Stmt.isLoopOrImport := by
    refine ⟨rfl, fun e he => ?_, by simp [Stmt.parts], by simp [Stmt.functions]⟩
    obtain rfl := List.mem_singleton.1 he
    refine ⟨fun e he => ?_, by simp [Expr.functions]⟩
    simp only [Expr.parts, List.mem_cons, List.not_mem_nil, or_false] at he
    rcases he with rfl | rfl <;> exact hget ..
  have hdeclare : (Stmt.declare (.name "a") none (some (.array [] ⟨1, 9, 8⟩)) ⟨1, 1, 0⟩).Lacks
      Stmt.isLoopOrImport := by
    refine ⟨rfl, fun e he => ?_, by simp [Stmt.parts], by simp [Stmt.functions]⟩
    obtain rfl := List.mem_singleton.1 he
    exact ⟨by simp [Expr.parts], by simp [Expr.functions]⟩
  intro s hs
  simp only [selfVisit, List.mem_cons, List.not_mem_nil, or_false] at hs
  rcases hs with rfl | rfl | rfl
  · exact hdeclare
  · exact hcall ..
  · exact hcall ..

theorem selfVisit_cut_off :
    ∃ n, (∀ k, (interpretBy (.chained k (Eval.fail (.stackOverflow 1000)) n) selfVisit
        (.fresh .default)).Every Ending.Settled) ∧
      ((∃ b, (interpret b selfVisit (.fresh .default)).Every Ending.Settled) ↔
        ∃ k, (interpretBy (.chained k Eval.exhausted n) selfVisit (.fresh .default)).Every
          Ending.Settled) :=
  terminates_iff_chains_bounded .default selfVisit selfVisit_lacks

/-- A statement that ends with a value leaves nothing to report. -/
theorem interpretStatement_value {ev : Evaluator} {s : Stmt} {m m' : Machine}
    (h : ev.exec s .global m = .finished (.value () m')) :
    interpretStatement ev s m = .finished (.value () m') := by
  change Eval.bind (Eval.attempt (ev.exec s .global)) _ m = _
  rw [bind_apply, attempt_apply, h]
  rfl

theorem interpretStatement_exhausted {ev : Evaluator} {s : Stmt} {m : Machine}
    (h : ev.exec s .global m = .finished .exhausted) :
    interpretStatement ev s m = .finished .exhausted := by
  change Eval.bind (Eval.attempt (ev.exec s .global)) _ m = _
  rw [bind_apply, attempt_apply, h]
  rfl

theorem exec_push {m : Machine} {r : ArrayRef}
    (hx : m.scopes.get? .global "a" = some (.array r)) (n : Nat) (p p' q q' t u : Text.Position) :
    (Evaluator.bounded (n + 4)).exec (.expression (.call (.get (.name "a" p) "push" false q)
        [.get (.name "a" p') "forEach" false q'] t) u) .global m =
      .finished (.value () { m with
        nextId := m.nextId + 2
        heap := m.heap.modifyArray r fun items => items.push (visitor (m.nextId + 1) r) }) := by
  change Eval.bind ((Evaluator.bounded (n + 3)).eval _ .global) _ m = _
  rw [bind_apply, eval_methodCall hx .push .forEach rfl rfl rfl rfl]
  rfl

theorem exec_visit {m : Machine} {r : ArrayRef} {c : Nat} {rest : List Value}
    (hx : m.scopes.get? .global "a" = some (.array r))
    (h : (m.heap.array r).toList = visitor c r :: rest) (n : Nat)
    (p p' q q' t u : Text.Position) :
    (Evaluator.bounded (n + 4)).exec (.expression (.call (.get (.name "a" p) "forEach" false q)
        [.get (.name "a" p') "forEach" false q'] t) u) .global m = .finished .exhausted := by
  have hcall := visitor_exhausted (m := { m with nextId := m.nextId + 2 }) h (n + 2) m.nextId
    (m.nextId + 1)
  change Eval.bind ((Evaluator.bounded (n + 3)).eval _ .global) _ m = _
  rw [bind_apply, eval_methodCall hx .forEach .forEach rfl rfl rfl rfl]
  exact congrArg (Dialogue.bind · _) hcall

/-- What a new array holds after a change. -/
theorem array_modify_newArray (h : Heap) (items : Array Value) (f : Array Value → Array Value) :
    ((h.newArray items).2.modifyArray (h.newArray items).1 f).array (h.newArray items).1 =
      f items := by
  simp only [Heap.newArray, Heap.modifyArray, Heap.array, Array.getD_eq_getD_getElem?]
  rw [Array.getElem?_modify, if_pos rfl, Array.getElem?_push_size]
  rfl

/-- The last statement of the program takes up every bound. -/
theorem selfVisit_exhausted {m : Machine} (hm : 0 < m.scopes.size) (n : Nat) :
    interpret (n + 4) selfVisit m = .finished .exhausted := by
  have hx := Scopes.get?_define hm "a" (.array (m.heap.newArray #[]).1) false
  have hheap := congrArg Array.toList (array_modify_newArray m.heap #[] fun items =>
    items.push (visitor (m.nextId + 1) (m.heap.newArray #[]).1))
  have hdeclare : (Evaluator.bounded (n + 4)).exec (.declare (.name "a") none
      (some (.array [] ⟨1, 9, 8⟩)) ⟨1, 1, 0⟩) .global m = .finished (.value () { m with
        heap := (m.heap.newArray #[]).2
        scopes := m.scopes.define .global "a" (.array (m.heap.newArray #[]).1) false }) := rfl
  rw [interpret, Eval.forEach, selfVisit, foldList_cons, interpretStatement_value hdeclare]
  change Eval.foldList _ _ _ _ = _
  rw [foldList_cons, interpretStatement_value (exec_push hx n ..)]
  change Eval.foldList _ _ _ _ = _
  rw [foldList_cons, interpretStatement_exhausted (exec_visit hx hheap n ..)]
  rfl

theorem functionFields_scopes (m : Machine) (natives : List Native) :
    (m.functionFields natives).2.scopes = m.scopes := by
  induction natives generalizing m with
  | nil => rfl
  | cons n rest ih => exact ih _

/-- The global scope of a fresh machine is there. -/
theorem fresh_scopes_pos (settings : Settings) : 0 < (Machine.fresh settings).scopes.size := by
  have hdefine (m : Machine) (name : String) (v : Value) :
      (m.defineGlobal name v).scopes.size = m.scopes.size := Array.size_modify ..
  unfold Machine.fresh
  refine List.foldlRecOn (motive := fun m : Machine => 0 < m.scopes.size) _ _ ?_ ?_
  · rw [hdefine]
    refine List.foldlRecOn (motive := fun m : Machine => 0 < m.scopes.size) _ _ Nat.zero_lt_one ?_
    intro m hm n _
    rw [Machine.addFunction, hdefine]
    exact hm
  · intro m hm object _
    rw [Machine.addObject, hdefine]
    change 0 < (Machine.functionFields _ object.2).2.scopes.size
    rw [functionFields_scopes]
    exact hm

/-- A program without loops and imports that does not terminate. -/
theorem selfVisit_diverges :
    (∀ s ∈ selfVisit, s.Lacks Stmt.isLoopOrImport) ∧
      ∀ b, ¬(interpret b selfVisit (.fresh .default)).Every Ending.Settled := by
  refine ⟨selfVisit_lacks, fun b hb => ?_⟩
  have heq := interpretBy_eq (bounded_mono (Nat.le_add_right b 4)) hb
  have hexhausted : interpretBy (.bounded (b + 4)) selfVisit (.fresh .default) =
      .finished .exhausted := selfVisit_exhausted (fresh_scopes_pos _) b
  have hb' : (interpretBy (.bounded b) selfVisit (.fresh .default)).Every Ending.Settled := hb
  rw [heq, hexhausted] at hb'
  exact hb'

end ScriptEngine
