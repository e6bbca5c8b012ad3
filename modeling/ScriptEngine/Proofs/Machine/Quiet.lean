import ScriptEngine.Proofs.Machine.Agreement
import ScriptEngine.Proofs.Machine.Conduct

/-!
# Evaluations that have nothing to do with diagnostics

An evaluation is quiet if it neither writes to the diagnostic stream nor looks at it: wherever that
stream goes, it asks the host the same and ends in the same way, and the stream is left as it is.
All ways to build evaluations keep this. A report adds one line to the stream.
-/
namespace ScriptEngine

variable {α β : Type}

/-- Whether a request writes to the diagnostic stream. -/
@[grind =]
def Request.isReport : Request → Bool
  | .outer (.write .diagnostics _) => true
  | _ => false

/-- The same ending with another diagnostic stream. -/
def Ending.diagnosing (d : Sink) : Ending α → Ending α
  | .value a m => .value a { m with diagnostics := d }
  | .stopped s m => .stopped s { m with diagnostics := d }
  | .exhausted => .exhausted

/-- Two talks in which nothing is reported and that differ in the diagnostic stream alone, which is
this one in the second. -/
inductive Talk.Apart (d : Sink) : Talk (Ending α) → Talk (Ending α) → Prop
  | finished (r : Ending α) : Apart d (.finished r) (.finished (r.diagnosing d))
  | asking {q : Request} {next next' : q.Answer → Talk (Ending α)} (hq : q.isReport = false)
      (h : ∀ a, Apart d (next a) (next' a)) : Apart d (.asking q next) (.asking q next')

/-- The evaluation neither writes to the diagnostic stream nor depends on it. -/
def Eval.Quiet (x : Eval α) : Prop :=
  ∀ (m : Machine) (d : Sink), Talk.Apart d (x m) (x { m with diagnostics := d })

theorem Talk.Apart.bind {d : Sink} {t t' : Talk (Ending α)} {f f' : Ending α → Talk (Ending β)}
    (h : Talk.Apart d t t') (hf : ∀ r, Talk.Apart d (f r) (f' (r.diagnosing d))) :
    Talk.Apart d (t.bind f) (t'.bind f') := by
  induction h with
  | finished r => exact hf r
  | asking hq _ ih => exact .asking hq ih

namespace Eval.Quiet

variable {x : Eval α}

@[grind .]
theorem pure (a : α) : Quiet (Pure.pure a : Eval α) := fun m _ => .finished (.value a m)

@[grind .]
theorem pure' (a : α) : Quiet (Eval.pure a) := pure a

@[grind .]
theorem stop (s : Signal) : Quiet (Eval.stop s : Eval α) := fun m _ => .finished (.stopped s m)

@[grind .]
theorem fail (f : Failure) : Quiet (Eval.fail f : Eval α) := stop _

@[grind .]
theorem exhausted : Quiet (Eval.exhausted : Eval α) := fun _ _ => .finished .exhausted

@[grind .]
theorem read {f : Machine → α} (h : ∀ m d, f { m with diagnostics := d } = f m) :
    Quiet (Eval.read f) := by
  intro m d
  have hread : Eval.read f { m with diagnostics := d } =
      .finished (.value (f m) { m with diagnostics := d }) := by
    rw [Eval.read, h]
  rw [hread]
  exact .finished (.value (f m) m)

@[grind .]
theorem change {f : Machine → α × Machine}
    (h : ∀ m d, f { m with diagnostics := d } = ((f m).1, { (f m).2 with diagnostics := d })) :
    Quiet (Eval.change f) := by
  intro m d
  have hchange : Eval.change f { m with diagnostics := d } =
      .finished (.value (f m).1 { (f m).2 with diagnostics := d }) := by
    rw [Eval.change, h]
  rw [hchange]
  exact .finished (.value (f m).1 (f m).2)

@[grind .]
theorem update {f : Machine → Machine}
    (h : ∀ m d, f { m with diagnostics := d } = { f m with diagnostics := d }) :
    Quiet (Eval.update f) :=
  change (f := fun m => ((), f m)) fun m d => congrArg (Prod.mk ()) (h m d)

@[grind .]
theorem ask {q : Request} (h : q.isReport = false) : Quiet (Eval.ask q) :=
  fun m _ => .asking h fun a => .finished (.value a m)

@[grind .]
theorem askOuter {q : OuterRequest} (h : (Request.outer q).isReport = false) :
    Quiet (Eval.askOuter q) :=
  ask h

@[grind .]
theorem bind' {f : α → Eval β} (hx : Quiet x) (hf : ∀ a, Quiet (f a)) : Quiet (Eval.bind x f) := by
  intro m d
  rw [bind_apply, bind_apply]
  refine (hx m d).bind fun r => ?_
  cases r with
  | value a m => exact hf a m d
  | stopped s m => exact .finished (.stopped s m)
  | exhausted => exact .finished .exhausted

@[grind .]
theorem bind {f : α → Eval β} (hx : Quiet x) (hf : ∀ a, Quiet (f a)) : Quiet (x >>= f) :=
  bind' hx hf

@[grind .]
theorem attempt (hx : Quiet x) : Quiet (Eval.attempt x) := by
  intro m d
  rw [attempt_apply, attempt_apply]
  refine (hx m d).bind fun r => ?_
  cases r <;> exact .finished _

@[grind .]
theorem ofExcept (x : Except Failure α) : Quiet (Eval.ofExcept x) := by
  cases x with
  | ok a => exact pure a
  | error f => exact fail f

@[grind .]
theorem discard (hx : Quiet x) : Quiet (Functor.discard x) := bind hx fun _ => pure ()

/-! Loops -/

@[grind .]
theorem foldList {f : β → α → Eval β} (hf : ∀ b a, Quiet (f b a)) (xs : List α) (b : β) :
    Quiet (Eval.foldList f xs b) := by
  induction xs generalizing b with
  | nil => exact pure b
  | cons a rest ih =>
    have hcons : Eval.foldList f (a :: rest) b = f b a >>= Eval.foldList f rest := by
      funext m
      rw [Eval.foldList_cons, ← Eval.bind_apply]
      rfl
    rw [hcons]
    exact bind (hf b a) ih

@[grind .]
theorem forEach {f : α → Eval Unit} (hf : ∀ a, Quiet (f a)) (xs : List α) :
    Quiet (Eval.forEach f xs) :=
  foldList (fun _ => hf) xs ()

@[grind .]
theorem mapList {f : α → Eval β} (hf : ∀ a, Quiet (f a)) (xs : List α) :
    Quiet (Eval.mapList f xs) :=
  foldList (fun _ a => bind (hf a) fun _ => pure _) xs #[]

@[grind .]
theorem iterate {body : β → Eval (Option β)} (hbody : ∀ b, Quiet (body b)) (n : Nat) (b : β) :
    Quiet (Eval.iterate body n b) := by
  induction n generalizing b with
  | zero => exact exhausted
  | succ n ih =>
    have hsucc : Eval.iterate body (n + 1) b = body b >>= Eval.iterateNext body n := by
      funext m
      rw [Eval.iterate_succ, ← Eval.bind_apply]
      rfl
    rw [hsucc]
    refine bind (hbody b) fun o => ?_
    cases o with
    | some b => exact ih b
    | none => exact pure ()

@[grind .]
theorem repeatWhile {body : Eval Bool} (hbody : Quiet body) (n : Nat) :
    Quiet (Eval.repeatWhile body n) :=
  iterate (fun _ => bind hbody fun _ => pure _) n ()

/-! Steps -/

@[grind .]
theorem textOf (v : Value) : Quiet (Eval.textOf v) := read fun _ _ => rfl

@[grind .]
theorem freshId : Quiet Eval.freshId := change fun _ _ => rfl

@[grind .]
theorem childScope (s : ScopeRef) : Quiet (Eval.childScope s) := change fun _ _ => rfl

@[grind .]
theorem define (s : ScopeRef) (name : String) (v : Value) (constant : Bool) :
    Quiet (Eval.define s name v constant) :=
  update fun _ _ => rfl

@[grind .]
theorem lookup? (s : ScopeRef) (name : String) : Quiet (Eval.lookup? s name) := read fun _ _ => rfl

@[grind .]
theorem lookup (s : ScopeRef) (name : String) : Quiet (Eval.lookup s name) := by
  unfold Eval.lookup
  grind

@[grind .]
theorem newArray (items : Array Value) : Quiet (Eval.newArray items) := change fun _ _ => rfl

@[grind .]
theorem newInstance (cls : Class) (fields : Fields Value) : Quiet (Eval.newInstance cls fields) :=
  change fun _ _ => rfl

@[grind .]
theorem setField (r : InstanceRef) (key : String) (v : Value) : Quiet (Eval.setField r key v) :=
  update fun _ _ => rfl

@[grind .]
theorem assign (s : ScopeRef) (name : String) (v : Value) : Quiet (Eval.assign s name v) := by
  intro m d
  unfold Eval.assign
  dsimp only
  cases m.scopes.target s name with
  | ok place => exact .finished (.value () { m with scopes := m.scopes.put place v })
  | error e => exact .finished (.stopped _ m)

/-- What goes to the output stream is no diagnostic. -/
@[grind .]
theorem write_output (text : String) : Quiet (Eval.write .output text) := by
  intro m d
  have hask := askOuter (q := .write .output text) rfl m d
  unfold Eval.write
  dsimp only
  cases hsink : m.output with
  | kept kept => exact .finished (.value () { m with output := .kept (kept ++ text) })
  | host =>
    rw [hsink] at hask
    exact hask

@[grind .]
theorem writeLine_output (line : String) : Quiet (Eval.writeLine .output line) := write_output _

end Eval.Quiet

/-! Runs -/

/-- The text that an exchange writes to the diagnostic stream. -/
def Exchange.report? : Exchange → Option String
  | ⟨.outer (.write .diagnostics text), _⟩ => some text
  | _ => none

theorem Exchange.report?_of_not_isReport {e : Exchange} (h : e.1.isReport = false) :
    e.report? = none := by
  unfold Exchange.report?
  split
  · cases h
  · rfl

/-- What the host is given for the diagnostic stream. -/
def reportsIn (log : List Exchange) : List String := log.filterMap Exchange.report?

@[simp]
theorem reportsIn_append (first last : List Exchange) :
    reportsIn (first ++ last) = reportsIn first ++ reportsIn last :=
  List.filterMap_append

theorem Talk.Apart.run {d : Sink} {t t' : Talk (Ending α)} {log : List Exchange} {r : Ending α}
    (h : Talk.Apart d t t') (hrun : t.Run log r) :
    reportsIn log = [] ∧ t'.Run log (r.diagnosing d) := by
  induction h generalizing log with
  | finished r =>
    cases hrun
    exact ⟨rfl, .finished _⟩
  | asking hq _ ih =>
    cases hrun with
    | asking a hrun =>
      obtain ⟨hnone, hrun⟩ := ih a hrun
      exact ⟨(List.filterMap_cons_none (Exchange.report?_of_not_isReport hq)).trans hnone,
        .asking a hrun⟩

theorem Talk.Apart.machine {d : Sink} {t t' : Talk (Ending α)} {log : List Exchange}
    {r : Ending α} (h : Talk.Apart d t t') (hrun : t'.Run log r) :
    ∀ m ∈ r.machine?, m.diagnostics = d := by
  induction h generalizing log with
  | finished r =>
    cases hrun
    intro m hm
    cases r <;> cases hm <;> rfl
  | asking _ _ ih =>
    cases hrun with
    | asking a hrun => exact ih a hrun

/-- A run of a quiet evaluation does not touch the diagnostic stream, and is one wherever that
stream goes. -/
theorem Eval.Quiet.run {x : Eval α} {m : Machine} {log : List Exchange} {r : Ending α}
    (hx : Quiet x) (h : (x m).Run log r) :
    reportsIn log = [] ∧ (∀ m' ∈ r.machine?, m'.diagnostics = m.diagnostics) ∧
      ∀ d, (x { m with diagnostics := d }).Run log (r.diagnosing d) :=
  ⟨((hx m m.diagnostics).run h).1, (hx m m.diagnostics).machine h, fun d => ((hx m d).run h).2⟩

namespace Sink

/-- What the host gets of the lines that are written. -/
def passedOn (lines : List String) : Sink → List String
  | host => lines
  | kept _ => []

/-- The sink after the lines are written. -/
def keeping (lines : List String) : Sink → Sink
  | host => host
  | kept text => kept (text ++ String.join lines)

end Sink

/-- The line that reports a failure. -/
def Failure.line (f : Failure) : String := (Diagnostic.ofFailure f).toText ++ "\n"

/-- A report is one line on the diagnostic stream. -/
theorem Eval.report_run {d : Diagnostic} {m : Machine} {log : List Exchange} {e : Ending Unit} :
    (Eval.report d m).Run log e ↔
      log = (m.diagnostics.passedOn [d.toText ++ "\n"]).map
          (fun line => ⟨.outer (.write .diagnostics line), ()⟩) ∧
        e = .value () { m with diagnostics := m.diagnostics.keeping [d.toText ++ "\n"] } := by
  cases hsink : m.diagnostics with
  | kept text =>
    have hreport : Eval.report d m = .finished
        (.value () { m with diagnostics := .kept (text ++ (d.toText ++ "\n")) }) := by
      simp only [Eval.report, Eval.writeLine, Eval.write, hsink]
    rw [hreport, Sink.keeping, String.join_cons, String.join_nil, String.append_empty]
    constructor
    · intro h
      cases h
      exact ⟨rfl, rfl⟩
    · rintro ⟨rfl, rfl⟩
      exact .finished _
  | host =>
    have hreport : Eval.report d m =
        Eval.askOuter (.write .diagnostics (d.toText ++ "\n")) m := by
      simp only [Eval.report, Eval.writeLine, Eval.write, hsink]
      rfl
    have hsame : { m with diagnostics := Sink.host } = m := by rw [← hsink]
    rw [hreport, Sink.keeping, hsame]
    constructor
    · intro h
      cases h with
      | asking _ h =>
        cases h
        exact ⟨rfl, rfl⟩
    · rintro ⟨rfl, rfl⟩
      unfold Eval.askOuter Eval.ask
      exact .asking _ (.finished _)

end ScriptEngine
