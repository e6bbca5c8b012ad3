import ScriptEngine.Engine.Script
import ScriptEngine.Proofs.Evaluation.Dispatch

/-!
# Super in classes without parent

A class without parent has its methods in the scope of its own declaration. So `super` in one of
them is what that scope sees: nothing as a rule, but the parent of the class around it if the
declaration stands in a method of a class that has one.
-/
namespace ScriptEngine
open Eval

variable {m : Machine} {b r scope : ScopeRef} {this : Value} {name : String}

theorem super_fails (h : ∀ c, m.scopes.get? r "super" ≠ some (.type c)) (name : String) :
    superMethod name r m = .finished (.stopped (.failed .superOutside) m) := by
  have hread : Eval.lookup? r "super" m = .finished (.value (m.scopes.get? r "super") m) := rfl
  unfold superMethod
  refine (bind_of_value hread _).trans ?_
  generalize m.scopes.get? r "super" = found at h
  cases found with
  | none => rfl
  | some v =>
    cases v with
    | type c => exact absurd rfl (h c)
    | _ => rfl

/-- A method that has been found does not fail for want of a class above. -/
theorem dispatch_ne_superOutside (c : Class) (name : String) (this : Value) :
    m.dispatch c name this (.stopped (.failed (.undefinedProperty name)) m) ≠
      .stopped (.failed .superOutside) m := by
  unfold Machine.dispatch Machine.bound
  split
  · exact nofun
  · intro h
    cases h

/-- A class that is declared without parent has its methods in the scope of the declaration. In one
of them, on any value, `super` fails for want of a class above exactly if that scope sees none, and
is dispatched to the class that it sees otherwise. It sees none where no frame up to the global one
binds `super`, and in a method of a class with a parent it sees that parent. -/
theorem super_without_parent (n : Nat) (m : Machine) (scope : ScopeRef)
    (hscope : scope.index < m.scopes.size) :
    (∀ name decls p, ∃ m' c,
      (Evaluator.bounded (n + 1)).exec (.classDecl name none decls p) scope m =
        .finished (.value () m') ∧
      m'.scopes.get? scope name = some (.type c) ∧ c.parent = none ∧ c.HasBody decls scope) ∧
    (∀ b this r name p, m.scopes.Binds b this scope → m.scopes.InMethod b r →
      ((Evaluator.bounded (n + 1)).eval (.super name p) r m =
          .finished (.stopped (.failed .superOutside) m) ↔
        ∀ c, m.scopes.get? scope "super" ≠ some (.type c)) ∧
      ∀ c, m.scopes.get? scope "super" = some (.type c) →
        (Evaluator.bounded (n + 1)).eval (.super name p) r m =
          .finished (m.dispatch c name this (.stopped (.failed (.undefinedProperty name)) m))) ∧
    (∀ f, m.scopes.frame? .global = some f → f.parent = none → f.slot? "super" = none →
      m.scopes.Inside ["super"] .global scope → m.scopes.get? scope "super" = none) ∧
    ∀ b this q c, m.scopes.Binds b this q → m.scopes.KnowsSuper q c → m.scopes.InMethod b scope →
      m.scopes.get? scope "super" = some (.type c) := by
  refine ⟨fun name decls p => ?_,
    fun b this r name p hb hr => ⟨⟨fun hfails c hc => ?_, fun h => ?_⟩, fun c hc => ?_⟩,
    fun f hf hparent hnone hinside => ?_, fun b this q c hb hq hr => ?_⟩
  · have hsize : scope.index < (m.announcing name scope).scopes.size := by
      simpa [Machine.announcing, Scopes.define] using hscope
    obtain ⟨c, hget, hbody, hnone, -⟩ := declaring_none hsize name decls
    exact ⟨_, c, declareClass_apply .., hget, hnone, hbody⟩
  · have hsuper := (hb.super hr).trans hc
    have hdispatch := super_dispatches hsuper (hb.this hr) name
    exact dispatch_ne_superOutside c name this
      (Dialogue.finished.inj (hdispatch.symm.trans hfails))
  · exact super_fails (fun c => hb.super hr ▸ h c) name
  · exact super_dispatches ((hb.super hr).trans hc) (hb.this hr) name
  · exact (hinside.get?_eq List.mem_cons_self).trans (Scopes.get?_outermost hf hnone hparent)
  · exact (hb.super hr).trans hq.get?

/-- A class declared in the body of the method `m` of `B`, which extends `A`, sees `A`. -/
theorem inDerivedMethod_sees_base :
    inDerivedMethod.scopes.get? ⟨3⟩ "super" = some (.type baseClass) :=
  (super_without_parent 0 inDerivedMethod ⟨3⟩ (by decide)).2.2.2 _ _ _ _ inDerivedMethod_binds
    inDerivedMethod_knows inDerivedMethod_inside

/-- What a program has printed when it has ended without asking for anything. -/
def Talk.printed : Talk (Ending Unit) → Option String
  | .finished (.value () m) => some m.output.text
  | _ => none

/-- The class `B` has no parent, but its declaration stands in a method of a class that has one. -/
def leaking : String :=
  "class A \x7b m() \x7b return \"A.m\"; \x7d \x7d " ++
  "class D < A \x7b make() \x7b " ++
    "class B \x7b go() \x7b return super.m(); \x7d \x7d return B(); \x7d \x7d " ++
  "print D().make().go();"

theorem leaking_prints :
    (match Grammar.parse leaking with
      | .ok program => (interpret 12 program (Machine.bare .default).capture).printed
      | .error _ => none) = some "A.m\n" := by
  decide +kernel

end ScriptEngine
