import ScriptEngine.Evaluation.Expression
import ScriptEngine.Proofs.Machine.Regime
import ScriptEngine.Proofs.Program.Parts

/-!
# Evaluating an expression keeps a regime

An expression is evaluated in one scope throughout, so it keeps every regime that its parts keep in
this scope, provided that calls keep it too. New names are only defined in the scopes in which
methods are bound to instances.
-/
namespace ScriptEngine
open Eval Regime

variable {ι : Type} {R : Regime ι} {i : ι}

/-! Properties and indices -/

theorem nativeValue_evals (n : Native) {receiver : Option Value}
    (hr : ∀ v, receiver = some v → R.Sound v) :
    R.Evals i (nativeValue n receiver) (nativeValue n receiver) := by
  unfold nativeValue
  refine Agree.bind freshId_gives fun id _ => Agree.pure ?_
  cases receiver with
  | none => trivial
  | some v => exact hr v rfl

/-- A method is bound in a scope of its own. -/
theorem bindMethod_evals {method : Method} (hm : R.code method.decl) {receiver : Value}
    (hr : R.Sound receiver) :
    R.Evals i (bindMethod method receiver) (bindMethod method receiver) := by
  unfold bindMethod
  refine Agree.bind (childScope_gives _) fun scope hs => ?_
  refine Agree.bind (define_gives hs _ hr _) fun _ _ => ?_
  exact Agree.bind freshId_gives fun id _ => Agree.pure hm

theorem instanceProperty?_gives (r : InstanceRef) (name : String) :
    R.Gives i (fun o => ∀ v, o = some v → R.Sound v) (instanceProperty? r name)
      (instanceProperty? r name) := by
  have hsome {y : Eval Value} (hy : R.Evals i y y) :
      R.Gives i (fun o => ∀ v, o = some v → R.Sound v) (do return some (← y))
        (do return some (← y)) :=
    Agree.bind hy fun v hv => Agree.pure fun w hw => Option.some.inj hw ▸ hv
  unfold instanceProperty?
  refine Agree.bind (V := fun o => ∀ j : Instance, o = some j → j.MadeOf R.code)
    (Agree.read fun m hm j hj => hm.2.heap.instance? hj) fun o ho => ?_
  cases o with
  | none => exact Agree.pure (by simp)
  | some j =>
    have hj := ho j rfl
    dsimp only
    split
    next v hv =>
      exact Agree.pure fun w hw => Option.some.inj hw ▸ Fields.madeOf_get? hj.fields hv
    next =>
      split
      next method hm => exact hsome (bindMethod_evals (hj.cls.method? hm) trivial)
      next =>
        split
        next n _ =>
          exact hsome (nativeValue_evals n fun v hv => Option.some.inj hv ▸ trivial)
        next => exact Agree.pure (by simp)

theorem builtInMethod_evals (methods : List Native) {receiver : Value} (hr : R.Sound receiver)
    (name : String) :
    R.Evals i (builtInMethod methods receiver name) (builtInMethod methods receiver name) := by
  unfold builtInMethod
  split
  next n _ => exact nativeValue_evals n fun v hv => Option.some.inj hv ▸ hr
  next => exact fail_gives _

theorem property_evals (object : Value) (name : String) :
    R.Evals i (property object name) (property object name) := by
  unfold property
  split
  next r =>
    refine Agree.bind (instanceProperty?_gives r name) fun o ho => ?_
    cases o with
    | none => exact fail_gives _
    | some v => exact Agree.pure (ho v rfl)
  next r =>
    split
    · exact Agree.read fun _ _ => trivial
    · exact builtInMethod_evals _ (by trivial) name
  next s =>
    split
    · exact Agree.pure trivial
    · exact builtInMethod_evals _ (by trivial) name
  next => exact fail_gives _

theorem readIndex_sound {h : Heap} (hh : h.MadeOf R.code) {object key v : Value}
    (hv : readIndex h object key = .ok v) : R.Sound v := by
  unfold readIndex at hv
  split at hv
  next r =>
    obtain ⟨k, hv⟩ := exists_ok_of_bind hv
    cases hv
    exact hh.getD r k
  next s =>
    obtain ⟨k, hv⟩ := exists_ok_of_bind hv
    split at hv
    · cases hv
      trivial
    · cases hv
      trivial
  next r =>
    split at hv
    next k =>
      cases hv
      cases hf : h.field? r k with
      | none => trivial
      | some w => exact hh.field? hf
    next => cases hv
  next => cases hv

theorem writeIndex_gives (object key : Value) {value : Value} (hv : R.Sound value) :
    R.Gives i (fun _ => True) (writeIndex object key value) (writeIndex object key value) := by
  unfold writeIndex
  split
  next r =>
    refine Agree.bind (V := fun _ => True) ?_ fun k _ => ?_
    · exact Agree.bind (read_gives _) fun _ _ => ofExcept_gives fun _ _ => trivial
    · refine modifyArray_gives r fun a ha w hw => ?_
      rw [Array.set!_eq_setIfInBounds] at hw
      rcases Array.mem_or_eq_of_mem_setIfInBounds hw with hw | rfl
      · exact ha w hw
      · exact hv
  next r =>
    split
    · exact setField_gives r _ hv
    · exact fail_gives _
  next => exact fail_gives _

/-! Operators -/

theorem addValues_sound {h : Heap} {l r v : Value} (hv : addValues h l r = .ok v) :
    R.Sound v := by
  unfold addValues at hv
  split at hv <;> cases hv <;> trivial

theorem applyBinary_sound {h : Heap} {op : BinaryOp} {l r v : Value}
    (hv : applyBinary h op l r = .ok v) : R.Sound v := by
  unfold applyBinary at hv
  split at hv
  · cases hv
    trivial
  · cases hv
    trivial
  · exact addValues_sound hv
  · split at hv
    · cases hv
      unfold numericOp
      split <;> trivial
    · cases hv

theorem applyUnary_sound {op : UnaryOp} {v w : Value} (hw : applyUnary op v = .ok w) :
    R.Sound w := by
  unfold applyUnary at hw
  split at hw <;> cases hw <;> trivial

/-! Expressions -/

variable {ev ev' : Evaluator}

theorem pipe_evals (hcall : R.Calls i ev.call ev'.call) {argument function : Value}
    (ha : R.Sound argument) (hf : R.Sound function) :
    R.Evals i (pipe ev argument function) (pipe ev' argument function) := by
  unfold pipe
  split
  · exact fail_gives _
  · split
    · exact hcall function _ hf (by simpa using ha)
    · exact fail_gives _

theorem superMethod_evals (method : String) (scope : ScopeRef) :
    R.Evals i (superMethod method scope) (superMethod method scope) := by
  unfold superMethod
  refine Agree.bind (lookup?_gives scope "super") fun o ho => ?_
  split
  next cls =>
    refine Agree.bind (lookup_evals scope "this") fun this hthis => ?_
    have hcls : cls.MadeOf R.code := ho _ rfl
    split
    next m hm => exact bindMethod_evals (hcls.method? hm) hthis
    next => exact fail_gives _
  next => exact fail_gives _

theorem awaitValue_evals (hcall : R.Calls i ev.call ev'.call) {v : Value} (hv : R.Sound v) :
    R.Evals i (awaitValue ev v) (awaitValue ev' v) := by
  unfold awaitValue
  split
  next r =>
    refine Agree.bind (instanceProperty?_gives r "wait") fun o ho => ?_
    split
    next wait =>
      split
      · exact hcall wait [] (ho wait rfl) (by simp)
      · exact Agree.pure hv
    next => exact Agree.pure hv
  next => exact Agree.pure hv

theorem addElement_gives {scope : ScopeRef} {items : Array Value} (hi : ∀ v ∈ items, R.Sound v)
    {element : Expr × Bool} (he : R.Evals i (ev.eval element.1 scope) (ev'.eval element.1 scope)) :
    R.Gives i (fun items : Array Value => ∀ v ∈ items, R.Sound v)
      (addElement ev scope items element) (addElement ev' scope items element) := by
  unfold addElement
  refine Agree.bind he fun v hv => ?_
  split
  · split
    next r =>
      refine Agree.read fun m hm w hw => ?_
      rcases Array.mem_append.1 hw with hw | hw
      · exact hi w hw
      · exact hm.2.heap.array r w hw
    next => exact fail_gives _
  · refine Agree.pure fun w hw => ?_
    rcases Array.mem_push.1 hw with hw | rfl
    · exact hi w hw
    · exact hv

theorem addPart_gives {scope : ScopeRef} (text : String) {part : Sum String Expr}
    (he : ∀ e, part = .inr e → R.Evals i (ev.eval e scope) (ev'.eval e scope)) :
    R.Gives i (fun _ => True) (addPart ev scope text part) (addPart ev' scope text part) := by
  cases part with
  | inl chunk => exact Agree.pure trivial
  | inr e =>
    refine Agree.bind (he e rfl) fun v _ => ?_
    exact Agree.bind (read_gives _) fun _ _ => Agree.pure trivial

theorem evalAll_gives {scope : ScopeRef} {exprs : List Expr}
    (he : ∀ e ∈ exprs, R.Evals i (ev.eval e scope) (ev'.eval e scope)) :
    R.Gives i (fun items : Array Value => ∀ v ∈ items, R.Sound v) (ev.evalAll exprs scope)
      (ev'.evalAll exprs scope) :=
  Agree.mapList he

/-- An expression keeps what its parts and calls keep. -/
theorem evalStep_evals {e : Expr} {scope : ScopeRef}
    (hpart : ∀ p ∈ e.parts, R.Evals i (ev.eval p scope) (ev'.eval p scope))
    (hcall : R.Calls i ev.call ev'.call) (hcode : ∀ f ∈ e.functions, R.code f)
    (hassign : ∀ n ∈ e.assigned, R.assigns n) :
    R.Evals i (evalStep ev e scope) (evalStep ev' e scope) := by
  unfold evalStep
  cases e with
  | literal l _ => exact Agree.pure (Value.madeOf_ofLiteral l)
  | name n _ => exact lookup_evals scope n
  | assign n value _ =>
    refine Agree.bind (hpart value (by simp [Expr.parts])) fun v hv => ?_
    exact Agree.bind (assign_gives scope (hassign n rfl) hv) fun _ _ => Agree.pure hv
  | binary op left right _ =>
    refine Agree.bind (hpart left (by simp [Expr.parts])) fun l hl => ?_
    refine Agree.bind (hpart right (by simp [Expr.parts])) fun r hr => ?_
    split
    · exact pipe_evals hcall hl hr
    · refine Agree.bind (V := fun r => ∀ v, r = .ok v → R.Sound v) ?_ fun _ h => ofExcept_gives h
      exact Agree.read fun m _ v hv => applyBinary_sound hv
  | logical op left right _ =>
    refine Agree.bind (hpart left (by simp [Expr.parts])) fun l hl => ?_
    split
    · exact Agree.pure hl
    · exact hpart right (by simp [Expr.parts])
  | unary op operand _ =>
    refine Agree.bind (hpart operand (by simp [Expr.parts])) fun v _ => ?_
    exact ofExcept_gives fun _ => applyUnary_sound
  | grouping inner _ => exact hpart inner (by simp [Expr.parts])
  | call callee args _ =>
    refine Agree.bind (hpart callee (by simp [Expr.parts])) fun f hf => ?_
    refine Agree.bind (evalAll_gives fun e he => hpart e (by simp [Expr.parts, he])) ?_
    exact fun items hi => hcall f _ hf fun v hv => hi v (Array.mem_toList_iff.1 hv)
  | get object name optional _ =>
    refine Agree.bind (hpart object (by simp [Expr.parts])) fun o _ => ?_
    split
    · exact Agree.pure trivial
    · exact property_evals o name
  | set object name value _ =>
    refine Agree.bind (hpart object (by simp [Expr.parts])) fun o _ => ?_
    split
    next r _ =>
      refine Agree.bind (hpart value (by simp [Expr.parts])) fun v hv => ?_
      exact Agree.bind (setField_gives r name hv) fun _ _ => Agree.pure hv
    next => exact fail_gives _
  | index object key _ =>
    refine Agree.bind (hpart object (by simp [Expr.parts])) fun o _ => ?_
    refine Agree.bind (hpart key (by simp [Expr.parts])) fun k _ => ?_
    refine Agree.bind (V := fun r => ∀ v, r = .ok v → R.Sound v) ?_ fun _ h => ofExcept_gives h
    exact Agree.read fun m hm v hv => readIndex_sound hm.2.heap hv
  | indexSet object key value _ =>
    refine Agree.bind (hpart object (by simp [Expr.parts])) fun o _ => ?_
    refine Agree.bind (hpart key (by simp [Expr.parts])) fun k _ => ?_
    refine Agree.bind (hpart value (by simp [Expr.parts])) fun v hv => ?_
    exact Agree.bind (writeIndex_gives o k hv) fun _ _ => Agree.pure hv
  | this _ => exact lookup_evals scope "this"
  | super method _ => exact superMethod_evals method scope
  | await operand _ =>
    exact Agree.bind (hpart operand (by simp [Expr.parts])) fun v hv => awaitValue_evals hcall hv
  | function decl =>
    exact Agree.bind freshId_gives fun _ _ => Agree.pure (hcode decl List.mem_cons_self)
  | array elements _ =>
    refine Agree.bind (V := fun items : Array Value => ∀ v ∈ items, R.Sound v)
      (Agree.foldList (fun items hi element he => ?_) (by simp)) fun items hi => newArray_evals hi
    exact addElement_gives hi (hpart element.1 (List.mem_map_of_mem he))
  | object fields _ =>
    refine Agree.bind (V := fun fs : Fields Value => ∀ e ∈ fs.entries, R.Sound e.2)
      (Agree.foldList (fun fs hfs field hfield => ?_) (by simp [Fields.empty])) fun fs hfs => ?_
    · refine Agree.bind (hpart field.2 (List.mem_map_of_mem hfield)) fun v hv => ?_
      exact Agree.pure (Fields.madeOf_insert hfs hv)
    · refine Agree.bind (Agree.read fun m hm => hm.2.objectClass) fun cls hcls => ?_
      exact Agree.bind (newInstance_gives hcls hfs) fun _ _ => Agree.pure trivial
  | template parts _ =>
    refine Agree.bind (V := fun _ => True) ?_ fun _ _ => Agree.pure trivial
    refine Agree.foldList (fun text _ part hp => addPart_gives text fun e he => ?_) trivial
    exact hpart e (List.mem_filterMap.2 ⟨part, hp, by simp [he]⟩)

end ScriptEngine
