import ScriptEngine.Proofs.Machine.Agreement
import ScriptEngine.Proofs.Value.Code

/-!
# Regimes of evaluation

A regime says what evaluation has to keep: which code values are made of, in which scopes names may
be defined, which names may be assigned to, and a property of scopes, call depth and import
directories that may shift to another one while a call is active. The operations that everything
else is built from keep every regime.
-/
namespace ScriptEngine

/-- What calls and imports depend on, and built-in functions leave alone. -/
structure Ground where
  scopes : Scopes Value
  depth : Nat
  importers : List Path
  settings : Settings

def Machine.ground (m : Machine) : Ground := ⟨m.scopes, m.depth, m.importers, m.settings⟩

structure Regime (ι : Type) where
  /-- What becomes of the bound. -/
  exhaustion : Exhaustion
  /-- The code that may come up. -/
  code : Function → Prop
  /-- The scopes in which names may be defined. -/
  opens : ScopeRef → Prop
  /-- The names that may be assigned to. -/
  assigns : String → Prop
  keeps : ι → Ground → Prop
  /-- From the property outside a call to the one inside it. -/
  inner : ι → ι → Prop
  child {i : ι} {g : Ground} (r : ScopeRef) : keeps i g →
    opens ⟨g.scopes.size⟩ ∧ keeps i { g with scopes := (g.scopes.child r).2 }
  define {i : ι} {g : Ground} {r : ScopeRef} (name : String) (v : Value) (constant : Bool) :
    opens r → keeps i g → keeps i { g with scopes := g.scopes.define r name v constant }
  put {i : ι} {g : Ground} {r : ScopeRef} {name : String} {place : ScopeRef × Nat} (v : Value) :
    assigns name → g.scopes.target r name = .ok place → keeps i g →
      keeps i { g with scopes := g.scopes.put place v }
  enter {i : ι} {g : Ground} : keeps i g → g.depth < g.settings.maxCallDepth →
    ∃ j, inner i j ∧ keeps j { g with depth := g.depth + 1 }
  leave {i j : ι} {g : Ground} : inner i j → keeps j g → keeps i { g with depth := g.depth - 1 }

namespace Regime

variable {ι : Type} (R : Regime ι)

/-- Values that may come up. -/
def Sound (v : Value) : Prop := v.MadeOf R.code

/-- Machines on which evaluation may begin, and with which it ends. -/
def Holds (i : ι) (m : Machine) : Prop := R.keeps i m.ground ∧ m.MadeOf R.code

/-- Signals that leave an expression or a call. -/
def Leaves : Signal → Prop
  | .thrown v => R.Sound v
  | .failed _ => True
  | _ => False

/-- Signals that leave a statement. -/
def Passes : Signal → Prop
  | .returned v | .thrown v => R.Sound v
  | _ => True

variable {α : Type}

/-- Agreement of two evaluations that may only leave by a throw or a failure. -/
abbrev Gives (i : ι) (V : α → Prop) (y z : Eval α) : Prop :=
  Eval.Agree R.exhaustion (R.Holds i) V R.Leaves y z

abbrev Evals (i : ι) (y z : Eval Value) : Prop := R.Gives i R.Sound y z

/-- Agreement of two executions, which may leave by any signal. -/
abbrev Execs (i : ι) (y z : Eval Unit) : Prop :=
  Eval.Agree R.exhaustion (R.Holds i) (fun _ => True) R.Passes y z

/-- Agreement of two ways to call values. -/
def Calls (i : ι) (call call' : Value → List Value → Eval Value) : Prop :=
  ∀ callee args, R.Sound callee → (∀ v ∈ args, R.Sound v) →
    R.Evals i (call callee args) (call' callee args)

variable {R} {i : ι}

theorem Leaves.passes {s : Signal} (h : R.Leaves s) : R.Passes s := by
  cases s with
  | thrown v => exact h
  | failed f => trivial
  | _ => exact h.elim

theorem execs_of_gives {V : Unit → Prop} {y z : Eval Unit} (h : R.Gives i V y z) :
    R.Execs i y z :=
  h.mono (fun _ _ => trivial) fun _ => Leaves.passes

namespace Holds

variable {m m' : Machine}

/-- Built-in functions may change all else. -/
theorem same (h : R.Holds i m) (hg : m'.ground = m.ground) (hh : m'.heap = m.heap)
    (hp : m'.promiseClass = m.promiseClass) (ho : m'.objectClass = m.objectClass) :
    R.Holds i m' := by
  have hs : m'.scopes = m.scopes := congrArg Ground.scopes hg
  refine ⟨hg ▸ h.1, ?_, ?_, ?_, ?_⟩
  · exact hs ▸ h.2.scopes
  · exact hh ▸ h.2.heap
  · exact hp ▸ h.2.promiseClass
  · exact ho ▸ h.2.objectClass

theorem withHeap (h : R.Holds i m) {heap : Heap} (hh : heap.MadeOf R.code) :
    R.Holds i { m with heap } :=
  ⟨h.1, { h.2 with heap := hh }⟩

theorem withScopes (h : R.Holds i m) {scopes : Scopes Value}
    (hk : R.keeps i { m.ground with scopes }) (hs : scopes.MadeOf R.code) :
    R.Holds i { m with scopes } :=
  ⟨hk, { h.2 with scopes := hs }⟩

end Holds

/-! The operations on the machine -/

theorem fail_gives {V : α → Prop} (f : Failure) : R.Gives i V (Eval.fail f) (Eval.fail f) :=
  Eval.Agree.stop trivial

theorem ofExcept_gives {V : α → Prop} {r : Except Failure α} (h : ∀ a, r = .ok a → V a) :
    R.Gives i V (Eval.ofExcept r) (Eval.ofExcept r) :=
  Eval.Agree.ofExcept h fun _ => trivial

/-- What follows a step that may fail has been reached. -/
theorem exists_ok_of_bind {β : Type} {x : Except Failure α} {f : α → Except Failure β} {b : β}
    (h : (x >>= f) = .ok b) : ∃ a, f a = .ok b := by
  cases x with
  | ok a => exact ⟨a, h⟩
  | error e => cases h

theorem ask_gives (q : Request) : R.Gives i (fun _ => True) (Eval.ask q) (Eval.ask q) :=
  Eval.Agree.ask fun _ => trivial

theorem askOuter_gives (q : OuterRequest) :
    R.Gives i (fun _ => True) (Eval.askOuter q) (Eval.askOuter q) :=
  ask_gives (.outer q)

theorem freshId_gives : R.Gives i (fun _ => True) Eval.freshId Eval.freshId :=
  Eval.Agree.change fun _ hm => ⟨trivial, hm.same rfl rfl rfl rfl⟩

theorem childScope_gives (s : ScopeRef) :
    R.Gives i R.opens (Eval.childScope s) (Eval.childScope s) := by
  refine Eval.Agree.change fun m hm => ?_
  obtain ⟨ho, hk⟩ := R.child s hm.1
  exact ⟨ho, hm.withScopes hk (hm.2.scopes.child s)⟩

theorem define_gives {s : ScopeRef} (hs : R.opens s) (name : String) {v : Value}
    (hv : R.Sound v) (constant : Bool) :
    R.Gives i (fun _ => True) (Eval.define s name v constant) (Eval.define s name v constant) :=
  Eval.Agree.update fun _ hm =>
    hm.withScopes (R.define name v constant hs hm.1) (hm.2.scopes.define hv)

theorem lookup?_gives (s : ScopeRef) (name : String) :
    R.Gives i (fun o => ∀ v, o = some v → R.Sound v) (Eval.lookup? s name)
      (Eval.lookup? s name) :=
  Eval.Agree.read fun _ hm _ hv => hm.2.scopes.get? hv

theorem lookup_evals (s : ScopeRef) (name : String) :
    R.Evals i (Eval.lookup s name) (Eval.lookup s name) := by
  unfold Eval.lookup
  refine Eval.Agree.bind (lookup?_gives s name) fun o ho => ?_
  cases o with
  | some v => exact Eval.Agree.pure (ho v rfl)
  | none => exact fail_gives _

theorem assign_gives (s : ScopeRef) {name : String} (hname : R.assigns name) {v : Value}
    (hv : R.Sound v) :
    R.Gives i (fun _ => True) (Eval.assign s name v) (Eval.assign s name v) := by
  intro m hm
  unfold Eval.assign
  split
  next place ht =>
    exact .finished ⟨trivial, hm.withScopes (R.put v hname ht hm.1) (hm.2.scopes.put hv)⟩
  next => exact .finished ⟨trivial, hm⟩

theorem newArray_evals {items : Array Value} (h : ∀ v ∈ items, R.Sound v) :
    R.Evals i (Eval.newArray items) (Eval.newArray items) :=
  Eval.Agree.change fun _ hm => ⟨trivial, hm.withHeap (hm.2.heap.newArray h)⟩

theorem newInstance_gives {cls : Class} {fields : Fields Value} (hc : cls.MadeOf R.code)
    (hf : ∀ e ∈ fields.entries, R.Sound e.2) :
    R.Gives i (fun _ => True) (Eval.newInstance cls fields) (Eval.newInstance cls fields) :=
  Eval.Agree.change fun _ hm => ⟨trivial, hm.withHeap (hm.2.heap.newInstance ⟨hc, hf⟩)⟩

theorem setField_gives (r : InstanceRef) (key : String) {v : Value} (hv : R.Sound v) :
    R.Gives i (fun _ => True) (Eval.setField r key v) (Eval.setField r key v) :=
  Eval.Agree.update fun _ hm => hm.withHeap (hm.2.heap.setField hv)

/-- Changes an array to elements that may come up. -/
theorem modifyArray_gives (r : ArrayRef) {f : Array Value → Array Value}
    (hf : ∀ a : Array Value, (∀ v ∈ a, R.Sound v) → ∀ v ∈ f a, R.Sound v) :
    R.Gives i (fun _ => True)
      (Eval.update fun m => { m with heap := m.heap.modifyArray r f })
      (Eval.update fun m => { m with heap := m.heap.modifyArray r f }) :=
  Eval.Agree.update fun _ hm => hm.withHeap (hm.2.heap.modifyArray hf)

theorem readArray_gives (r : ArrayRef) :
    R.Gives i (fun items : Array Value => ∀ v ∈ items, R.Sound v)
      (Eval.read fun m => m.heap.array r) (Eval.read fun m => m.heap.array r) :=
  Eval.Agree.read fun _ hm => hm.2.heap.array r

/-- Reads something that holds no code. -/
theorem read_gives (f : Machine → α) :
    R.Gives i (fun _ => True) (Eval.read f) (Eval.read f) :=
  Eval.Agree.read fun _ _ => trivial

/-- Writing always comes to an end with a value. -/
theorem write_agree {S : Signal → Prop} (stream : Stream) (text : String) :
    Eval.Agree R.exhaustion (R.Holds i) (fun _ => True) S (Eval.write stream text)
      (Eval.write stream text) := by
  intro m hm
  have hask : Talk.Agrees R.exhaustion (Ending.Within R.exhaustion (R.Holds i) (fun _ => True) S)
      (Eval.askOuter (.write stream text) m) (Eval.askOuter (.write stream text) m) :=
    Eval.Agree.ask (q := .outer (.write stream text)) (fun _ => trivial) m hm
  unfold Eval.write
  cases stream with
  | output =>
    cases m.output with
    | kept kept => exact .finished ⟨trivial, hm.same rfl rfl rfl rfl⟩
    | host => exact hask
  | diagnostics =>
    cases m.diagnostics with
    | kept kept => exact .finished ⟨trivial, hm.same rfl rfl rfl rfl⟩
    | host => exact hask

/-- Only the code that comes up matters. -/
def ofCode (x : Exhaustion) (code : Function → Prop) : Regime Unit where
  exhaustion := x
  code
  opens _ := True
  assigns _ := True
  keeps _ _ := True
  inner _ _ := True
  child _ _ := ⟨trivial, trivial⟩
  define _ _ _ _ _ := trivial
  put _ _ _ _ := trivial
  enter _ _ := ⟨(), trivial, trivial⟩
  leave _ _ := trivial

/-- Nothing is asked of machines or code. -/
abbrev free (x : Exhaustion) : Regime Unit := ofCode x fun _ => True

end Regime

end ScriptEngine
