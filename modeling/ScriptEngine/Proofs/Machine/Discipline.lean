import ScriptEngine.Proofs.Machine.Agreement

/-!
# Disciplines

A discipline is a property of evaluations that all ways to build evaluations keep, and that the
steps have which expressions and statements take by themselves: they ask the surroundings, change
scopes and make arrays and instances. Steps that write to arrays and instances, and those that deal
with the host, are not among them.
-/
namespace ScriptEngine

/-- A machine after a step that concerns neither the heap nor the host. -/
inductive Machine.Aside (m : Machine) : Machine → Prop
  | step (scopes : Scopes Value) (nextId depth : Nat) (importers : List Path)
      (output diagnostics : Sink) (h : m.nextId ≤ nextId) :
      Aside m { m with scopes, nextId, depth, importers, output, diagnostics }

structure Discipline where
  Allows {α : Type} : Eval α → Prop
  pure {α : Type} (a : α) : Allows (Pure.pure a : Eval α)
  stop {α : Type} (s : Signal) : Allows (Eval.stop s : Eval α)
  exhausted {α : Type} : Allows (Eval.exhausted : Eval α)
  read {α : Type} (f : Machine → α) : Allows (Eval.read f)
  change {α : Type} {f : Machine → α × Machine} :
    (∀ m : Machine, m.Aside (f m).2) → Allows (Eval.change f)
  askOuter (q : OuterRequest) : Allows (Eval.askOuter q)
  sleep (duration : Nat) : Allows (Eval.ask (.sleep duration))
  bind {α β : Type} {x : Eval α} {f : α → Eval β} :
    Allows x → (∀ a, Allows (f a)) → Allows (x >>= f)
  attempt {α : Type} {x : Eval α} : Allows x → Allows (Eval.attempt x)
  newArray (items : Array Value) : Allows (Eval.newArray items)
  /-- An instance that is made by calling its class. -/
  emptyInstance (cls : Class) : Allows (Eval.newInstance cls .empty)
  /-- An object that is written down, and what is done with it. -/
  object {α : Type} (fields : Fields Value) {f : InstanceRef → Eval α} : (∀ r, Allows (f r)) →
    Allows ((Eval.read fun m => m.objectClass) >>= fun cls => Eval.newInstance cls fields >>= f)

namespace Discipline

attribute [grind .] pure stop exhausted read askOuter sleep bind attempt newArray emptyInstance

variable {D : Discipline} {α β : Type} {x : Eval α}

theorem update {f : Machine → Machine} (h : ∀ m : Machine, m.Aside (f m)) :
    D.Allows (Eval.update f) :=
  D.change (f := fun m => ((), f m)) h

@[grind .]
theorem pure' (a : α) : D.Allows (Eval.pure a) := D.pure a

@[grind .]
theorem bind' {f : α → Eval β} (hx : D.Allows x) (hf : ∀ a, D.Allows (f a)) :
    D.Allows (Eval.bind x f) :=
  D.bind hx hf

@[grind .]
theorem fail (f : Failure) : D.Allows (Eval.fail f : Eval α) := D.stop _

@[grind .]
theorem ofExcept (x : Except Failure α) : D.Allows (Eval.ofExcept x) := by
  cases x with
  | ok a => exact D.pure a
  | error f => exact fail f

@[grind .]
theorem discard (hx : D.Allows x) : D.Allows (Functor.discard x) := D.bind hx fun _ => D.pure ()

/-! Loops -/

@[grind .]
theorem foldList {f : β → α → Eval β} (hf : ∀ b a, D.Allows (f b a)) (xs : List α) (b : β) :
    D.Allows (Eval.foldList f xs b) := by
  induction xs generalizing b with
  | nil => exact D.pure b
  | cons a rest ih =>
    have hcons : Eval.foldList f (a :: rest) b = f b a >>= Eval.foldList f rest := by
      funext m
      rw [Eval.foldList_cons, ← Eval.bind_apply]
      rfl
    rw [hcons]
    exact D.bind (hf b a) ih

@[grind .]
theorem forEach {f : α → Eval Unit} (hf : ∀ a, D.Allows (f a)) (xs : List α) :
    D.Allows (Eval.forEach f xs) :=
  foldList (fun _ => hf) xs ()

@[grind .]
theorem mapList {f : α → Eval β} (hf : ∀ a, D.Allows (f a)) (xs : List α) :
    D.Allows (Eval.mapList f xs) :=
  foldList (fun _ a => D.bind (hf a) fun _ => D.pure _) xs #[]

@[grind .]
theorem iterate {body : β → Eval (Option β)} (hbody : ∀ b, D.Allows (body b)) (n : Nat) (b : β) :
    D.Allows (Eval.iterate body n b) := by
  induction n generalizing b with
  | zero => exact D.exhausted
  | succ n ih =>
    have hsucc : Eval.iterate body (n + 1) b = body b >>= Eval.iterateNext body n := by
      funext m
      rw [Eval.iterate_succ, ← Eval.bind_apply]
      rfl
    rw [hsucc]
    refine D.bind (hbody b) fun o => ?_
    cases o with
    | some b => exact ih b
    | none => exact D.pure ()

@[grind .]
theorem repeatWhile {body : Eval Bool} (hbody : D.Allows body) (n : Nat) :
    D.Allows (Eval.repeatWhile body n) :=
  iterate (fun _ => D.bind hbody fun _ => D.pure _) n ()

/-! Steps -/

@[grind .]
theorem textOf (v : Value) : D.Allows (Eval.textOf v) := D.read _

@[grind .]
theorem freshId : D.Allows Eval.freshId :=
  D.change fun _ => .step _ _ _ _ _ _ (Nat.le_succ _)

@[grind .]
theorem childScope (s : ScopeRef) : D.Allows (Eval.childScope s) :=
  D.change fun _ => .step _ _ _ _ _ _ (Nat.le_refl _)

@[grind .]
theorem define (s : ScopeRef) (name : String) (v : Value) (constant : Bool) :
    D.Allows (Eval.define s name v constant) :=
  update fun _ => .step _ _ _ _ _ _ (Nat.le_refl _)

@[grind .]
theorem lookup? (s : ScopeRef) (name : String) : D.Allows (Eval.lookup? s name) := D.read _

@[grind .]
theorem lookup (s : ScopeRef) (name : String) : D.Allows (Eval.lookup s name) := by
  unfold Eval.lookup
  grind

@[grind .]
theorem assign (s : ScopeRef) (name : String) (v : Value) : D.Allows (Eval.assign s name v) := by
  have heq : Eval.assign s name v =
      ((Eval.read fun m => (m.scopes.target s name).mapError (Failure.ofAssignError name)) >>=
        Eval.ofExcept) >>= fun place =>
          Eval.update fun m => { m with scopes := m.scopes.put place v } := by
    funext m
    unfold Eval.assign
    change _ = Eval.bind (Eval.ofExcept ((m.scopes.target s name).mapError _)) _ m
    cases m.scopes.target s name <;> rfl
  rw [heq]
  exact D.bind (D.bind (D.read _) ofExcept) fun _ => update fun _ =>
    .step _ _ _ _ _ _ (Nat.le_refl _)

/-- A stream that is kept is written to on the machine, and any other by the host. -/
theorem writeTo {get : Machine → Sink} {keep : String → Machine → Machine} {host : Eval Unit}
    (hhost : D.Allows host) (hkeep : ∀ kept (m : Machine), m.Aside (keep kept m)) :
    D.Allows (Eval.read get >>= Sink.rec host fun kept => Eval.update (keep kept)) := by
  refine D.bind (D.read _) fun sink => ?_
  cases sink with
  | host => exact hhost
  | kept kept => exact update (hkeep kept)

@[grind .]
theorem write (stream : Stream) (text : String) : D.Allows (Eval.write stream text) := by
  cases stream with
  | output =>
    have heq : Eval.write .output text = Eval.read (fun m => m.output) >>=
        Sink.rec (Eval.askOuter (.write .output text)) fun kept =>
          Eval.update fun m => { m with output := .kept (kept ++ text) } := by
      funext m
      change _ = Sink.rec (motive := fun _ => Eval Unit) _ _ m.output m
      simp only [Eval.write]
      cases m.output <;> rfl
    rw [heq]
    exact writeTo (D.askOuter _) fun _ _ => .step _ _ _ _ _ _ (Nat.le_refl _)
  | diagnostics =>
    have heq : Eval.write .diagnostics text = Eval.read (fun m => m.diagnostics) >>=
        Sink.rec (Eval.askOuter (.write .diagnostics text)) fun kept =>
          Eval.update fun m => { m with diagnostics := .kept (kept ++ text) } := by
      funext m
      change _ = Sink.rec (motive := fun _ => Eval Unit) _ _ m.diagnostics m
      simp only [Eval.write]
      cases m.diagnostics <;> rfl
    rw [heq]
    exact writeTo (D.askOuter _) fun _ _ => .step _ _ _ _ _ _ (Nat.le_refl _)

@[grind .]
theorem writeLine (stream : Stream) (line : String) : D.Allows (Eval.writeLine stream line) :=
  write stream _

@[grind .]
theorem report (d : Diagnostic) : D.Allows (Eval.report d) := writeLine _ _

end Discipline

end ScriptEngine
