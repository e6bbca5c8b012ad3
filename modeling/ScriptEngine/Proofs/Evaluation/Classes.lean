import ScriptEngine.Evaluation.Bounded
import ScriptEngine.Proofs.Evaluation.Watch
import ScriptEngine.Proofs.Value.Hierarchy

/-!
# What becomes of classes

What declaring a class, calling one, reading a property of an instance and reading a method of the
class above come to, with the methods found along the chain of classes.
-/
namespace ScriptEngine
open Eval

/-- The frames after a method of this scope has been bound to a value. -/
def Scopes.bound (s : Scopes Value) (q : ScopeRef) (this : Value) : Scopes Value :=
  s.push ⟨#[⟨"this", this, false⟩], some q⟩

/-- The scope of the methods of a class, and the frames with it. -/
def Scopes.forMethods (s : Scopes Value) (parent : Option Class) (scope : ScopeRef) :
    ScopeRef × Scopes Value :=
  match parent with
  | none => (scope, s)
  | some p => (⟨s.size⟩, s.push ⟨#[⟨"super", .type p, false⟩], some scope⟩)

/-- The class that a declaration makes. -/
def Class.declared (id : Nat) (name : String) (parent : Option Class) (decls : List Function)
    (inner : ScopeRef) : Class :=
  .mk id name parent (decls.reverse.map fun f => (f.name, ⟨f, inner⟩)) []

namespace Machine

/-- The machine after a class with this parent has been declared. -/
def declaring (m : Machine) (name : String) (parent : Option Class) (decls : List Function)
    (scope : ScopeRef) : Machine :=
  let (inner, scopes) := m.scopes.forMethods parent scope
  let c := Class.declared m.nextId name parent decls inner
  { m with scopes := scopes.define scope name (.type c) false, nextId := m.nextId + 1 }

/-- The machine after a method has been bound to a value. -/
def binding (m : Machine) (method : Method) (this : Value) : Machine :=
  { m with scopes := m.scopes.bound method.scope this, nextId := m.nextId + 1 }

/-- A method that is bound to a value. -/
def bound (m : Machine) (method : Method) (this : Value) : Ending Value :=
  .value (.function m.nextId method.decl ⟨m.scopes.size⟩) (m.binding method this)

/-- The method of the nearest class that declares the name, bound to a value. -/
def dispatch (m : Machine) (c : Class) (name : String) (this : Value) (otherwise : Ending Value) :
    Ending Value :=
  match c.nearest? name with
  | some (_, method) => m.bound method this
  | none => otherwise

/-- A property of an instance: its own field, or else the nearest method, or else the nearest
built-in method. -/
def propertyOf (m : Machine) (r : InstanceRef) (i : Instance) (name : String) : Ending Value :=
  match i.fields.get? name with
  | some v => .value v m
  | none =>
    m.dispatch i.cls name (.object r) <|
      match i.cls.nearestNative? name with
      | some f => .value (.native m.nextId f (some (.object r))) { m with nextId := m.nextId + 1 }
      | none => .stopped (.failed (.undefinedProperty name)) m

/-- The machine after an instance without fields has been made. -/
def creating (m : Machine) (c : Class) : Machine :=
  { m with heap := (m.heap.newInstance ⟨c, .empty⟩).2 }

/-- The instance that is made next. -/
def nextInstance (m : Machine) : Value := .object ⟨m.heap.instances.size⟩

end Machine

/-- The same ending, but with another value. -/
def Ending.giving {α β : Type} (b : β) : Ending α → Ending β
  | .value _ m => .value b m
  | .stopped s m => .stopped s m
  | .exhausted => .exhausted

variable {m : Machine} {c : Class} {name : String} {this : Value}

/-! Methods that are read -/

theorem bindMethod_apply (method : Method) (this : Value) (m : Machine) :
    bindMethod method this m = .finished (m.bound method this) := by
  unfold Machine.bound Machine.binding Scopes.bound
  rw [← Scopes.define_child]
  rfl

/-- What follows a step that ends with a value. -/
theorem bind_of_value {α β : Type} {x : Eval α} {a : α} {m' : Machine}
    (h : x m = .finished (.value a m')) (f : α → Eval β) : (x >>= f) m = f a m' := by
  change Eval.bind x f m = _
  rw [bind_apply, h]
  rfl

theorem instanceProperty?_apply {r : InstanceRef} {i : Instance}
    (hi : m.heap.instance? r = some i) (name : String) :
    instanceProperty? r name m =
      match i.fields.get? name with
      | some v => .finished (.value (some v) m)
      | none =>
        match i.cls.nearest? name with
        | some (_, method) => (some <$> bindMethod method (.object r)) m
        | none =>
          match i.cls.nearestNative? name with
          | some f => (some <$> nativeValue f (some (.object r))) m
          | none => .finished (.value none m) := by
  have hread : Eval.read (fun m => m.heap.instance? r) m = .finished (.value (some i) m) := by
    rw [← hi]
    rfl
  unfold instanceProperty?
  rw [bind_of_value hread]
  dsimp only
  rw [Class.method?_eq_nearest?, Class.native?_eq_nearestNative?]
  cases i.fields.get? name with
  | some v => rfl
  | none =>
    cases i.cls.nearest? name with
    | some d => rfl
    | none => cases i.cls.nearestNative? name <;> rfl

theorem property_object {r : InstanceRef} {i : Instance} (hi : m.heap.instance? r = some i)
    (name : String) : property (.object r) name m = .finished (m.propertyOf r i name) := by
  have hfound {v : Value} {m' : Machine}
      (h : instanceProperty? r name m = .finished (.value (some v) m')) :
      property (.object r) name m = .finished (.value v m') := by
    unfold property
    exact bind_of_value h _
  have happly := instanceProperty?_apply hi name
  unfold Machine.propertyOf Machine.dispatch
  cases hfield : i.fields.get? name with
  | some v => exact hfound (by rw [happly, hfield])
  | none =>
    rw [hfield] at happly
    cases hnearest : i.cls.nearest? name with
    | some d =>
      refine hfound ?_
      rw [happly, hnearest]
      exact bind_of_value (bindMethod_apply d.2 _ m) _
    | none =>
      rw [hnearest] at happly
      cases hnative : i.cls.nearestNative? name with
      | some f =>
        refine hfound ?_
        rw [happly, hnative]
        rfl
      | none =>
        rw [hnative] at happly
        unfold property
        exact bind_of_value happly _

theorem lookup_of_get? {r : ScopeRef} {v : Value} (h : m.scopes.get? r name = some v) :
    Eval.lookup r name m = .finished (.value v m) := by
  have hlookup : Eval.lookup? r name m = .finished (.value (some v) m) := by
    rw [← h]
    rfl
  unfold Eval.lookup
  rw [bind_of_value hlookup]
  rfl

theorem super_dispatches {r : ScopeRef} (hsuper : m.scopes.get? r "super" = some (.type c))
    (hthis : m.scopes.get? r "this" = some this) (name : String) :
    superMethod name r m = .finished
      (m.dispatch c name this (.stopped (.failed (.undefinedProperty name)) m)) := by
  have hlookup : Eval.lookup? r "super" m = .finished (.value (some (.type c)) m) := by
    rw [← hsuper]
    rfl
  unfold superMethod Machine.dispatch
  rw [bind_of_value hlookup]
  dsimp only
  rw [bind_of_value (lookup_of_get? hthis), Class.method?_eq_nearest?]
  cases c.nearest? name with
  | none => rfl
  | some d => exact bindMethod_apply d.2 this m

/-! Instances that are made -/

theorem callStep_type (ev : Evaluator) (c : Class) (args : List Value) (m : Machine) :
    callStep ev (.type c) args m =
      if c.arity.accepts args.length then instantiate ev c args m
      else .finished (.stopped (.failed (.arity c.arity.describe args.length)) m) := by
  change Eval.bind (Eval.ofExcept (c.arity.check args.length)) _ m = _
  unfold Arity.check
  split <;> rfl

theorem instantiate_init {init : Method} (ev : Evaluator) (hinit : c.method? "init" = some init)
    (args : List Value) (m : Machine) :
    instantiate ev c args m =
      (callFunction ev init.decl ⟨m.scopes.size⟩ args
        ((m.creating c).binding init m.nextInstance)).bind fun r =>
          .finished (r.giving m.nextInstance) := by
  have hnew : Eval.newInstance c .empty m =
      .finished (.value ⟨m.heap.instances.size⟩ (m.creating c)) := rfl
  unfold instantiate
  rw [bind_of_value hnew, hinit]
  refine (bind_of_value (bindMethod_apply init _ _) _).trans ?_
  dsimp only
  change Eval.bind (Eval.bind _ _) _ _ = _
  rw [bind_apply, bind_apply, Dialogue.bind_assoc]
  refine congrArg _ (funext fun r => ?_)
  cases r <;> rfl

/-- The argument counts that calls of a class take: those of the nearest constructor. -/
def Class.Takes (c : Class) (count : Nat) : Prop :=
  match c.nearest? "init" with
  | none => count = 0
  | some (_, init) => init.decl.minArgs ≤ count ∧ count ≤ init.decl.maxArgs

theorem accepts_iff_takes (c : Class) (count : Nat) :
    c.arity.accepts count = true ↔ c.Takes count := by
  unfold Class.arity Class.Takes
  rw [Class.method?_eq_nearest?]
  cases c.nearest? "init" with
  | none => simp [Arity.accepts, Arity.exact]
  | some d =>
    change (decide (d.2.decl.minArgs ≤ count) && decide (count ≤ d.2.decl.maxArgs)) = true ↔ _
    simp

/-- A fresh instance on which the nearest constructor has run, whatever that returns. -/
def Machine.constructed (n : Nat) (m : Machine) (c : Class) (args : List Value) :
    Talk (Ending Value) :=
  match c.nearest? "init" with
  | none => .finished (.value m.nextInstance (m.creating c))
  | some (_, init) =>
    (callFunction (.bounded n) init.decl ⟨m.scopes.size⟩ args
      ((m.creating c).binding init m.nextInstance)).bind fun r =>
        .finished (r.giving m.nextInstance)

theorem instantiate_apply (n : Nat) (c : Class) (args : List Value) (m : Machine) :
    instantiate (.bounded n) c args m = m.constructed n c args := by
  have hinit := Class.method?_eq_nearest? "init" c
  unfold Machine.constructed
  cases hnearest : c.nearest? "init" with
  | none =>
    have hnew : Eval.newInstance c .empty m =
        .finished (.value ⟨m.heap.instances.size⟩ (m.creating c)) := rfl
    rw [hnearest] at hinit
    unfold instantiate
    rw [bind_of_value hnew, hinit]
    rfl
  | some d => exact instantiate_init _ (by simp [hinit, hnearest]) args m

/-! Classes that are declared -/

/-- What the body of a class declares, by methods in this scope: the last one of each name, and no
built-in ones. -/
structure Class.HasBody (c : Class) (decls : List Function) (inner : ScopeRef) : Prop where
  natives : c.natives = []
  methods (name : String) (method : Method) : c.methods.lookup name = some method ↔
    ∃ before decl after, decls = before ++ decl :: after ∧ decl.name = name ∧
      (∀ f ∈ after, f.name ≠ name) ∧ method = ⟨decl, inner⟩

theorem Class.declared_hasBody (id : Nat) (name : String) (parent : Option Class)
    (decls : List Function) (inner : ScopeRef) :
    (Class.declared id name parent decls inner).HasBody decls inner :=
  ⟨rfl, fun _ _ => lookup_declared_iff decls inner⟩

/-- The machine in which the superclass of a declaration is looked for. -/
def Machine.announcing (m : Machine) (name : String) (scope : ScopeRef) : Machine :=
  { m with scopes := m.scopes.define scope name .nil false }

theorem declareClass_apply (ev : Evaluator) (name : String) (parent : Option Expr)
    (decls : List Function) (scope : ScopeRef) (m : Machine) :
    declareClass ev name parent decls scope m =
      (parentClass ev parent scope (m.announcing name scope)).bind
        (andThen fun p m => .finished (.value () (m.declaring name p decls scope))) := by
  change Eval.bind (parentClass ev parent scope) _ (m.announcing name scope) = _
  rw [bind_apply]
  refine congrArg _ (funext fun r => ?_)
  cases r with
  | value p m =>
    cases p with
    | none => rfl
    | some c =>
      simp only [andThen, Machine.declaring, Scopes.forMethods]
      rw [← Scopes.define_child]
      rfl
  | _ => rfl

/-- A run that ends with a value goes through a value of its first step. -/
theorem exists_run_of_andThen {α β : Type} {d : Talk (Ending α)} {f : α → Eval β}
    {log : List ((q : Request) × q.Answer)} {b : β} {m' : Machine}
    (h : (d.bind (andThen f)).Run log (.value b m')) :
    ∃ first a m₁ last, log = first ++ last ∧ d.Run first (.value a m₁) ∧
      (f a m₁).Run last (.value b m') := by
  obtain ⟨first, r, last, hlog, hfirst, hlast⟩ := Dialogue.run_bind.1 h
  cases r with
  | value a m₁ => exact ⟨first, a, m₁, last, hlog, hfirst, hlast⟩
  | stopped s m₁ => cases hlast
  | exhausted => cases hlast

theorem parentClass_run {ev : Evaluator} {e : Expr} {scope : ScopeRef} {p : Option Class}
    {log : List ((q : Request) × q.Answer)} {m' : Machine}
    (h : (parentClass ev (some e) scope m).Run log (.value p m')) :
    ∃ c, p = some c ∧ (ev.eval e scope m).Run log (.value (.type c) m') := by
  change (Eval.bind (ev.eval e scope) _ m).Run log (.value p m') at h
  rw [bind_apply] at h
  obtain ⟨first, v, m₁, last, rfl, hfirst, hlast⟩ := exists_run_of_andThen h
  cases v with
  | type c =>
    cases hlast
    exact ⟨c, rfl, by simpa using hfirst⟩
  | _ => cases hlast

end ScriptEngine
