import ScriptEngine.Proofs.Evaluation.Watch
import ScriptEngine.Proofs.Machine.Discipline

/-!
# What evaluations do

A course relates the machine before an evaluation, what was said to the host meanwhile, and the
machine after it. Courses that can be put together, and that contain what statements and expressions
do by themselves, are kept by every way to build evaluations.
-/
namespace ScriptEngine

/-- A request and its answer. -/
abbrev Exchange : Type := (q : Request) × q.Answer

/-- The part of a machine that only built-in functions and the host change. -/
structure Office where
  settings : Settings
  loop : EventLoop Value Task
  promises : PromiseTable
  promiseClass : Class
  objectClass : Class
  workers : WorkerTable LinkRef
  link : Option LinkRef
  servers : ServerTable
  args : List String

def Machine.office (m : Machine) : Office :=
  ⟨m.settings, m.loop, m.promises, m.promiseClass, m.objectClass, m.workers, m.link, m.servers,
    m.args⟩

theorem Machine.Aside.office {m m' : Machine} (h : m.Aside m') : m'.office = m.office := by
  cases h
  rfl

/-- The machine at the end, if there is one. -/
def Ending.machine? {α : Type} : Ending α → Option Machine
  | .value _ m | .stopped _ m => some m
  | .exhausted => none

/-- Courses of evaluation that can be put together. -/
structure Course where
  leads : Machine → List Exchange → Machine → Prop
  refl (m : Machine) : leads m [] m
  trans {m₁ m₂ m₃ : Machine} {first last : List Exchange} :
    leads m₁ first m₂ → leads m₂ last m₃ → leads m₁ (first ++ last) m₃
  /-- Plain evaluation, which leaves the office alone. -/
  plain {m m' : Machine} : m'.office = m.office → leads m [] m'
  outer (m : Machine) (q : OuterRequest) (a : q.Answer) : leads m [⟨.outer q, a⟩] m
  sleep (m : Machine) (duration : Nat) : leads m [⟨.sleep duration, ()⟩] m

variable {α β : Type}

namespace Eval

theorem read_bind (f : Machine → α) (g : α → Eval β) (m : Machine) :
    (read f >>= g) m = g (f m) m := rfl

/-- A run of two evaluations in a row is a run of the one and then of the other. -/
theorem run_bind {x : Eval α} {f : α → Eval β} {m : Machine} {log : List Exchange} {r : Ending β} :
    ((x >>= f) m).Run log r ↔
      ∃ first e last, log = first ++ last ∧ (x m).Run first e ∧ (andThen f e).Run last r := by
  change (Eval.bind x f m).Run log r ↔ _
  rw [bind_apply, Dialogue.run_bind]

theorem run_andThen {x : Eval α} {f : α → Eval β} {m m' : Machine} {a : α}
    {first last : List Exchange} {r : Ending β} (h : (x m).Run first (.value a m'))
    (hf : (f a m').Run last r) : ((x >>= f) m).Run (first ++ last) r :=
  run_bind.2 ⟨first, .value a m', last, rfl, h, hf⟩

/-- A run of an attempt is a run of what is attempted. -/
theorem run_attempt {x : Eval α} {m : Machine} {log : List Exchange}
    {r : Ending (Except Signal α)} :
    (attempt x m).Run log r ↔ ∃ e, (x m).Run log e ∧ r = attempted e := by
  rw [attempt_apply, Dialogue.run_bind]
  constructor
  · rintro ⟨first, e, last, rfl, hfirst, hlast⟩
    cases hlast
    rw [List.append_nil]
    exact ⟨e, hfirst, rfl⟩
  · rintro ⟨e, h, rfl⟩
    exact ⟨log, e, [], (List.append_nil log).symm, h, .finished _⟩

@[simp]
theorem machine?_attempted (e : Ending α) : (attempted e).machine? = e.machine? := by
  cases e <;> rfl

end Eval

/-- Whatever an evaluation does is such a course. -/
def Eval.Follows (C : Course) (x : Eval α) : Prop :=
  ∀ ⦃m : Machine⦄ ⦃log : List Exchange⦄ ⦃r : Ending α⦄, (x m).Run log r →
    ∀ m' ∈ r.machine?, C.leads m log m'

namespace Eval.Follows

variable {C : Course} {x : Eval α}

theorem of_finished {r : Machine → Ending α} (h : ∀ m, ∀ m' ∈ (r m).machine?, C.leads m [] m') :
    Follows C (fun m => .finished (r m)) := by
  intro m log e hrun m' hm'
  cases hrun
  exact h m m' hm'

@[grind .]
theorem pure (a : α) : Follows C (Pure.pure a : Eval α) :=
  of_finished fun m m' hm' => by cases hm'; exact C.refl m

@[grind .]
theorem stop (s : Signal) : Follows C (Eval.stop s : Eval α) :=
  of_finished fun m m' hm' => by cases hm'; exact C.refl m

@[grind .]
theorem exhausted : Follows C (Eval.exhausted : Eval α) := of_finished fun _ _ hm' => nomatch hm'

@[grind .]
theorem read (f : Machine → α) : Follows C (Eval.read f) :=
  of_finished fun m m' hm' => by cases hm'; exact C.refl m

theorem update {f : Machine → Machine} (h : ∀ m, (f m).office = m.office) :
    Follows C (Eval.update f) :=
  of_finished fun m m' hm' => by cases hm'; exact C.plain (h m)

theorem change {f : Machine → α × Machine} (h : ∀ m, (f m).2.office = m.office) :
    Follows C (Eval.change f) :=
  of_finished fun m m' hm' => by cases hm'; exact C.plain (h m)

@[grind .]
theorem askOuter (q : OuterRequest) : Follows C (Eval.askOuter q) := by
  intro m log r hrun m' hm'
  cases hrun with
  | asking a h =>
    cases h
    cases hm'
    exact C.outer m q a

@[grind .]
theorem bind {f : α → Eval β} (hx : Follows C x) (hf : ∀ a, Follows C (f a)) :
    Follows C (x >>= f) := by
  intro m log r hrun m' hm'
  obtain ⟨first, e, last, rfl, hfirst, hlast⟩ := run_bind.1 hrun
  cases e with
  | value a m₁ => exact C.trans (hx hfirst m₁ rfl) (hf a hlast m' hm')
  | stopped s m₁ =>
    cases hlast
    rw [List.append_nil]
    exact hx hfirst m' hm'
  | exhausted =>
    cases hlast
    cases hm'

/-- What is attempted leads somewhere, and what comes after it leads on from there. -/
theorem after_attempt {f : Except Signal α → Eval β} (hf : ∀ o, Follows C (f o)) {m m' : Machine}
    {log : List Exchange} {r : Ending β} (hrun : ((Eval.attempt x >>= f) m).Run log r)
    (hm' : m' ∈ r.machine?) : ∃ first e m₁ last, log = first ++ last ∧ (x m).Run first e ∧
      m₁ ∈ e.machine? ∧ C.leads m₁ last m' := by
  obtain ⟨first, o, last, rfl, hfirst, hlast⟩ := run_bind.1 hrun
  obtain ⟨e, he, ho⟩ := run_attempt.1 hfirst
  have hmachine : o.machine? = e.machine? := ho ▸ machine?_attempted e
  cases o with
  | value o m₁ => exact ⟨first, e, m₁, last, rfl, he, hmachine ▸ rfl, hf o hlast m' hm'⟩
  | stopped s m₁ =>
    cases hlast
    cases hm'
    exact ⟨first, e, m', [], rfl, he, hmachine ▸ rfl, C.refl m'⟩
  | exhausted =>
    cases hlast
    cases hm'

@[grind .]
theorem attempt (hx : Follows C x) : Follows C (Eval.attempt x) := by
  intro m log r hrun m' hm'
  obtain ⟨e, he, rfl⟩ := run_attempt.1 hrun
  rw [machine?_attempted] at hm'
  exact hx he m' hm'

@[grind .]
theorem sleep (duration : Nat) : Follows C (Eval.ask (.sleep duration)) := by
  intro m log r hrun m' hm'
  cases hrun with
  | asking a h =>
    cases h
    cases hm'
    exact C.sleep m duration

@[grind .]
theorem newArray (items : Array Value) : Follows C (Eval.newArray items) := change fun _ => rfl

@[grind .]
theorem newInstance (cls : Class) (fields : Fields Value) :
    Follows C (Eval.newInstance cls fields) :=
  change fun _ => rfl

@[grind .]
theorem setField (r : InstanceRef) (key : String) (v : Value) :
    Follows C (Eval.setField r key v) :=
  update fun _ => rfl

theorem withHeap (f : Machine → Heap) :
    Follows C (Eval.update fun m => { m with heap := f m }) :=
  update fun _ => rfl

end Eval.Follows

/-- To keep to a course is a discipline. -/
def Course.discipline (C : Course) : Discipline where
  Allows := Eval.Follows C
  pure := Eval.Follows.pure
  stop := Eval.Follows.stop
  exhausted := @fun _ => Eval.Follows.exhausted
  read := Eval.Follows.read
  change h := Eval.Follows.change fun m => (h m).office
  askOuter := Eval.Follows.askOuter
  sleep := Eval.Follows.sleep
  bind := Eval.Follows.bind
  attempt := Eval.Follows.attempt
  newArray := Eval.Follows.newArray
  emptyInstance cls := Eval.Follows.newInstance cls .empty
  object fields _ hf :=
    Eval.Follows.bind (Eval.Follows.read _) fun cls =>
      Eval.Follows.bind (Eval.Follows.newInstance cls fields) hf

namespace Eval.Follows

variable {C : Course} {x : Eval α}

@[grind .]
theorem fail (f : Failure) : Follows C (Eval.fail f : Eval α) :=
  Discipline.fail (D := C.discipline) f

@[grind .]
theorem ofExcept (x : Except Failure α) : Follows C (Eval.ofExcept x) :=
  Discipline.ofExcept (D := C.discipline) x

@[grind .]
theorem discard (hx : Follows C x) : Follows C (Functor.discard x) :=
  Discipline.discard (D := C.discipline) hx

@[grind .]
theorem forEach {f : α → Eval Unit} (hf : ∀ a, Follows C (f a)) (xs : List α) :
    Follows C (Eval.forEach f xs) :=
  Discipline.forEach (D := C.discipline) hf xs

@[grind .]
theorem repeatWhile {body : Eval Bool} (hbody : Follows C body) (n : Nat) :
    Follows C (Eval.repeatWhile body n) :=
  Discipline.repeatWhile (D := C.discipline) hbody n

@[grind .]
theorem writeLine (stream : Stream) (line : String) : Follows C (Eval.writeLine stream line) :=
  Discipline.writeLine (D := C.discipline) stream line

@[grind .]
theorem report (d : Diagnostic) : Follows C (Eval.report d) := writeLine _ _

@[grind .]
theorem textOf (v : Value) : Follows C (Eval.textOf v) := read _

@[grind .]
theorem freshId : Follows C Eval.freshId := change fun _ => rfl

@[grind .]
theorem lookup? (s : ScopeRef) (name : String) : Follows C (Eval.lookup? s name) := read _

end Eval.Follows

end ScriptEngine
