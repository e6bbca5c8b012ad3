import ScriptEngine.Proofs.Engine.Termination
import ScriptEngine.Proofs.Evaluation.Import
import ScriptEngine.Proofs.Machine.Cut

/-!
# An exit is final

The request to end the program leaves every construct untouched: whatever part of an evaluation ends
with it, at any depth, the whole evaluation ends with it, and nothing is done on the way out but
leaving calls and imports.
-/
namespace ScriptEngine
open Eval

/-- Every activity is cut off at noticed exits. -/
def Evaluator.cut (notice : ExitNotice) (ev : Evaluator) : Evaluator where
  eval e scope := (ev.eval e scope).cut notice
  exec s scope := (ev.exec s scope).cut notice
  call callee args := (ev.call callee args).cut notice

/-- Bounded evaluation in which the activities are cut off at noticed exits, however deep they are
nested. -/
def Evaluator.cutting (notice : ExitNotice) : Nat → Evaluator
  | 0 => .exhausted
  | n + 1 => Evaluator.cut notice
      { eval := evalStep (cutting notice n)
        exec := execStep n (cutting notice n)
        call := callStep (cutting notice n) }

/-- All activities of two evaluators are the same up to noticed exits. -/
structure Evaluator.AlikeUpTo (notice : ExitNotice) (ev ev' : Evaluator) : Prop where
  eval (e : Expr) (scope : ScopeRef) :
    Eval.AlikeUpTo notice (ev.eval e scope) (ev'.eval e scope)
  exec (s : Stmt) (scope : ScopeRef) :
    Eval.AlikeUpTo notice (ev.exec s scope) (ev'.exec s scope)
  call (callee : Value) (args : List Value) :
    Eval.AlikeUpTo notice (ev.call callee args) (ev'.call callee args)

variable {notice : ExitNotice}

/-- A call gives up its level when the program exits in it. -/
theorem passes_afterCall :
    PassesExits fun r : Ending Unit => (.finished r.afterCall : Talk (Ending Value)) :=
  ⟨rfl, fun _ m => ⟨{ m with depth := m.depth - 1 }, ⟨_, _, rfl⟩, rfl⟩⟩

section

variable {ev ev' : Evaluator} (h : ev.AlikeUpTo notice ev')
include h

/-! Expressions -/

theorem pipe_alike (argument function : Value) :
    Eval.AlikeUpTo notice (pipe ev argument function) (pipe ev' argument function) := by
  unfold pipe
  split
  · rfl
  · split
    · exact h.call function [argument]
    · rfl

theorem awaitValue_alike (v : Value) :
    Eval.AlikeUpTo notice (awaitValue ev v) (awaitValue ev' v) := by
  unfold awaitValue
  split
  next r =>
    refine AlikeUpTo.bind (.refl _) fun wait => ?_
    split
    next wait =>
      split
      · exact h.call wait []
      · rfl
    next => rfl
  next => rfl

theorem addElement_alike (scope : ScopeRef) (items : Array Value) (element : Expr × Bool) :
    Eval.AlikeUpTo notice (addElement ev scope items element)
      (addElement ev' scope items element) :=
  AlikeUpTo.bind (h.eval _ _) fun _ => .refl _

theorem addPart_alike (scope : ScopeRef) (text : String) (part : Sum String Expr) :
    Eval.AlikeUpTo notice (addPart ev scope text part) (addPart ev' scope text part) := by
  cases part with
  | inl chunk => rfl
  | inr e => exact AlikeUpTo.bind (h.eval _ _) fun _ => .refl _

theorem evalAll_alike (exprs : List Expr) (scope : ScopeRef) :
    Eval.AlikeUpTo notice (ev.evalAll exprs scope) (ev'.evalAll exprs scope) :=
  AlikeUpTo.mapList (fun e => h.eval e scope) exprs

theorem execAll_alike (body : List Stmt) (scope : ScopeRef) :
    Eval.AlikeUpTo notice (ev.execAll body scope) (ev'.execAll body scope) :=
  AlikeUpTo.forEach (fun s => h.exec s scope) body

theorem evalStep_alike (e : Expr) (scope : ScopeRef) :
    Eval.AlikeUpTo notice (evalStep ev e scope) (evalStep ev' e scope) := by
  unfold evalStep
  cases e with
  | literal | name | this | super | function => rfl
  | assign _ value | unary _ value | get value =>
    exact AlikeUpTo.bind (h.eval value scope) fun _ => .refl _
  | grouping inner => exact h.eval inner scope
  | await operand =>
    exact AlikeUpTo.bind (h.eval operand scope) fun v => awaitValue_alike h v
  | binary op left right =>
    refine AlikeUpTo.bind (h.eval left scope) fun l => ?_
    refine AlikeUpTo.bind (h.eval right scope) fun r => ?_
    split
    · exact pipe_alike h l r
    · rfl
  | logical op left right =>
    refine AlikeUpTo.bind (h.eval left scope) fun l => ?_
    split
    · rfl
    · exact h.eval right scope
  | call callee args =>
    refine AlikeUpTo.bind (h.eval callee scope) fun f => ?_
    exact AlikeUpTo.bind (evalAll_alike h args scope) fun values => h.call f values.toList
  | set object name value =>
    refine AlikeUpTo.bind (h.eval object scope) fun o => ?_
    split
    next => exact AlikeUpTo.bind (h.eval value scope) fun _ => .refl _
    next => rfl
  | index object key =>
    refine AlikeUpTo.bind (h.eval object scope) fun _ => ?_
    exact AlikeUpTo.bind (h.eval key scope) fun _ => .refl _
  | indexSet object key value =>
    refine AlikeUpTo.bind (h.eval object scope) fun _ => ?_
    refine AlikeUpTo.bind (h.eval key scope) fun _ => ?_
    exact AlikeUpTo.bind (h.eval value scope) fun _ => .refl _
  | array elements =>
    exact AlikeUpTo.bind (AlikeUpTo.foldList (addElement_alike h scope) _ _) fun _ => .refl _
  | object fields =>
    refine AlikeUpTo.bind (AlikeUpTo.foldList (fun fs field => ?_) _ _) fun _ => .refl _
    exact AlikeUpTo.bind (h.eval field.2 scope) fun _ => .refl _
  | template parts =>
    exact AlikeUpTo.bind (AlikeUpTo.foldList (addPart_alike h scope) _ _) fun _ => .refl _

/-! Built-in functions that call back -/

theorem callWithItem_alike (callback item : Value) (i : Nat) :
    Eval.AlikeUpTo notice (Library.callWithItem ev.call callback item i)
      (Library.callWithItem ev'.call callback item i) := by
  unfold Library.callWithItem
  split
  · exact h.call _ _
  · exact h.call _ _

theorem arrayMethod_alike (method : ArrayMethod) (receiver : Option Value) (args : List Value) :
    Eval.AlikeUpTo notice (Library.arrayMethod ev.call method receiver args)
      (Library.arrayMethod ev'.call method receiver args) := by
  unfold Library.arrayMethod
  split
  next r =>
    cases method with
    | map =>
      refine AlikeUpTo.bind (.refl _) fun items => ?_
      exact AlikeUpTo.bind (AlikeUpTo.mapList (fun _ => callWithItem_alike h _ _ _) _)
        fun _ => .refl _
    | filter =>
      refine AlikeUpTo.bind (.refl _) fun items => ?_
      refine AlikeUpTo.bind (AlikeUpTo.foldList (fun kept item => ?_) _ _) fun _ => .refl _
      exact AlikeUpTo.bind (callWithItem_alike h _ _ _) fun _ => .refl _
    | forEach =>
      refine AlikeUpTo.bind (.refl _) fun items => ?_
      refine AlikeUpTo.bind (AlikeUpTo.forEach (fun item => ?_) _) fun _ => .refl _
      exact AlikeUpTo.discard (callWithItem_alike h _ _ _)
    | _ => rfl
  next => rfl

theorem subscribe_alike (settlement : Library.Settlement) (receiver : Option Value)
    (args : List Value) :
    Eval.AlikeUpTo notice (Library.subscribe ev.call settlement receiver args)
      (Library.subscribe ev'.call settlement receiver args) := by
  unfold Library.subscribe
  refine AlikeUpTo.bind (.refl _) fun status => ?_
  split
  next =>
    split
    · refine AlikeUpTo.bind (.refl _) fun value => ?_
      exact AlikeUpTo.bind (AlikeUpTo.discard (h.call _ _)) fun _ => .refl _
    · rfl
  next => rfl

theorem callNative_alike (n : Native) (receiver : Option Value) (args : List Value) :
    Eval.AlikeUpTo notice (Library.callNative ev.call n receiver args)
      (Library.callNative ev'.call n receiver args) := by
  cases n with
  | array method => exact arrayMethod_alike h method receiver args
  | promise method =>
    cases method with
    | onResolve | onReject => exact subscribe_alike h _ receiver args
  | _ => rfl

/-! Calls -/

theorem bindParams_alike (scope : ScopeRef) (params : List (Pattern × Option Expr))
    (args : List Value) :
    Eval.AlikeUpTo notice (bindParams ev scope params args)
      (bindParams ev' scope params args) := by
  fun_induction bindParams ev scope params args with
  | case1 => rfl
  | case2 _ _ _ _ _ ih => exact AlikeUpTo.bind (.refl _) fun _ => ih
  | case3 p default params ih =>
    exact AlikeUpTo.bind (h.eval default scope) fun v => AlikeUpTo.bind (.refl _) fun _ => ih
  | case4 p params ih => exact AlikeUpTo.bind (.refl _) fun _ => ih

theorem invoke_alike (decl : Function) (closure : ScopeRef) (args : List Value) :
    Eval.AlikeUpTo notice (invoke ev decl closure args) (invoke ev' decl closure args) := by
  unfold invoke
  refine AlikeUpTo.bind (.refl _) fun scope => ?_
  exact AlikeUpTo.bind (bindParams_alike h scope _ args) fun _ => execAll_alike h decl.body scope

theorem callFunction_alike (decl : Function) (closure : ScopeRef) (args : List Value) :
    Eval.AlikeUpTo notice (callFunction ev decl closure args)
      (callFunction ev' decl closure args) := by
  refine funext fun m => ?_
  unfold Eval.cut
  rw [callFunction_apply, callFunction_apply]
  split
  · rfl
  · exact (invoke_alike h decl closure args).onward (fun _ => rfl) passes_afterCall
      passes_afterCall _

theorem instantiate_alike (cls : Class) (args : List Value) :
    Eval.AlikeUpTo notice (instantiate ev cls args) (instantiate ev' cls args) := by
  unfold instantiate
  refine AlikeUpTo.bind (.refl _) fun r => ?_
  split
  next => rfl
  next method _ =>
    refine AlikeUpTo.bind (.refl _) fun init => ?_
    split
    next decl scope =>
      exact AlikeUpTo.bind (AlikeUpTo.discard (callFunction_alike h decl scope args))
        fun _ => .refl _
    next => rfl

theorem callStep_alike (callee : Value) (args : List Value) :
    Eval.AlikeUpTo notice (callStep ev callee args) (callStep ev' callee args) := by
  unfold callStep
  split
  next => rfl
  next =>
    refine AlikeUpTo.bind (.refl _) fun _ => ?_
    cases callee with
    | function id decl scope => exact callFunction_alike h decl scope args
    | native id n receiver => exact callNative_alike h n receiver args
    | type cls => exact instantiate_alike h cls args
    | _ => rfl

/-! Statements -/

theorem runModule_alike (p : Path) (program : Program) :
    Eval.AlikeUpTo notice (runModule ev p program) (runModule ev' p program) := by
  -- A module is left when the program exits in it.
  have hpasses : PassesExits fun r : Ending Unit =>
      (.finished r.afterImport : Talk (Ending Unit)) :=
    ⟨rfl, fun _ m => ⟨m.outside, ⟨_, _, rfl⟩, rfl⟩⟩
  refine funext fun m => ?_
  unfold Eval.cut
  rw [runModule_apply, runModule_apply]
  exact (execAll_alike h program .global).onward (fun _ => rfl) hpasses hpasses _

theorem runFile_alike (p : Path) (contents : Except FileError (List UInt8)) :
    Eval.AlikeUpTo notice (runFile ev p contents) (runFile ev' p contents) := by
  unfold runFile
  split
  · rfl
  next program _ => exact runModule_alike h p program

theorem importModule_alike (spec : String) :
    Eval.AlikeUpTo notice (importModule ev spec) (importModule ev' spec) := by
  rw [importModule_eq, importModule_eq]
  exact AlikeUpTo.bind (.refl _) fun p => AlikeUpTo.bind (.refl _) fun _ => runFile_alike h p _

theorem loopRound_alike (condition : Expr) (body : Stmt) (step : Option Expr) (scope : ScopeRef) :
    Eval.AlikeUpTo notice (loopRound ev condition body step scope)
      (loopRound ev' condition body step scope) := by
  have hstep (e : Expr) : Eval.AlikeUpTo notice
      (Eval.bind (discard (ev.eval e scope)) fun _ => Eval.pure true)
      (Eval.bind (discard (ev'.eval e scope)) fun _ => Eval.pure true) :=
    AlikeUpTo.bind (AlikeUpTo.discard (h.eval e scope)) fun _ => .refl _
  unfold loopRound
  refine AlikeUpTo.bind (h.eval condition scope) fun v => ?_
  split
  · rfl
  · refine AlikeUpTo.attempt (h.exec body scope) (fun outcome => ?_)
      (fun _ m => ⟨m, .refl m, rfl⟩) (fun _ m => ⟨m, .refl m, rfl⟩)
    split
    · cases step with
      | none => rfl
      | some e => exact hstep e
    · cases step with
      | none => rfl
      | some e => exact hstep e
    · rfl
    · rfl

theorem parentClass_alike (parent : Option Expr) (scope : ScopeRef) :
    Eval.AlikeUpTo notice (parentClass ev parent scope) (parentClass ev' parent scope) := by
  unfold parentClass
  cases parent with
  | none => rfl
  | some e => exact AlikeUpTo.bind (h.eval e scope) fun _ => .refl _

theorem declareClass_alike (name : String) (parent : Option Expr) (methods : List Function)
    (scope : ScopeRef) :
    Eval.AlikeUpTo notice (declareClass ev name parent methods scope)
      (declareClass ev' name parent methods scope) := by
  unfold declareClass
  refine AlikeUpTo.bind (.refl _) fun _ => ?_
  exact AlikeUpTo.bind (parentClass_alike h parent scope) fun _ => .refl _

theorem runHandler_alike (name : String) (caught : Value) (handler : Stmt) (scope : ScopeRef) :
    Eval.AlikeUpTo notice (runHandler ev name caught handler scope)
      (runHandler ev' name caught handler scope) := by
  unfold runHandler
  refine AlikeUpTo.bind (.refl _) fun inner => ?_
  exact AlikeUpTo.bind (.refl _) fun _ => h.exec handler inner

theorem execStep_alike (rounds : Nat) (s : Stmt) (scope : ScopeRef) :
    Eval.AlikeUpTo notice (execStep rounds ev s scope) (execStep rounds ev' s scope) := by
  unfold execStep
  cases s with
  | function | «break» | «continue» => rfl
  | expression e => exact AlikeUpTo.discard (h.eval e scope)
  | print e | constant _ e | throw e => exact AlikeUpTo.bind (h.eval e scope) fun _ => .refl _
  | declare p hint init =>
    cases init with
    | none => rfl
    | some e => exact AlikeUpTo.bind (h.eval e scope) fun _ => .refl _
  | block body => exact AlikeUpTo.bind (.refl _) fun inner => execAll_alike h body inner
  | branch condition yes no =>
    refine AlikeUpTo.bind (h.eval condition scope) fun v => ?_
    split
    · exact h.exec yes scope
    · cases no with
      | none => rfl
      | some s => exact h.exec s scope
  | loop condition body step =>
    exact AlikeUpTo.repeatWhile (loopRound_alike h condition body step scope) rounds
  | classDecl name parent methods => exact declareClass_alike h name parent methods scope
  | «return» value =>
    cases value with
    | none => rfl
    | some e => exact AlikeUpTo.bind (h.eval e scope) fun _ => .refl _
  | attempt body name handler =>
    refine AlikeUpTo.attempt (h.exec body scope) (fun outcome => ?_)
      (fun _ m => ⟨m, .refl m, rfl⟩) (fun _ m => ⟨m, .refl m, rfl⟩)
    cases outcome with
    | ok _ => rfl
    | error signal =>
      dsimp only
      split
      · exact runHandler_alike h name _ handler scope
      · rfl
  | select value arms =>
    refine AlikeUpTo.bind (h.eval value scope) fun v => ?_
    refine AlikeUpTo.bind (.refl _) fun arm => ?_
    cases arm with
    | none => rfl
    | some arm =>
      refine AlikeUpTo.bind (.refl _) fun inner => ?_
      exact AlikeUpTo.bind (.refl _) fun _ => h.exec arm.2 inner
  | load path =>
    refine AlikeUpTo.bind (h.eval path scope) fun v => ?_
    cases v with
    | text spec => exact importModule_alike h spec
    | _ => rfl

theorem interpretBy_alike (program : Program) :
    Eval.AlikeUpTo notice (interpretBy ev program) (interpretBy ev' program) := by
  refine AlikeUpTo.forEach (fun s => ?_) program
  unfold interpretStatement
  refine AlikeUpTo.attempt (h.exec s .global) (fun outcome => ?_)
    (fun _ m => ⟨m, .refl m, rfl⟩) (fun _ m => ⟨m, .refl m, rfl⟩)
  rfl

end

theorem cut_alike (notice : ExitNotice) (ev : Evaluator) :
    (ev.cut notice).AlikeUpTo notice ev :=
  ⟨fun _ _ => .cut _, fun _ _ => .cut _, fun _ _ => .cut _⟩

/-- It makes no difference whether the activities are cut off on every level or on the outermost
one. -/
theorem cutting_eq (notice : ExitNotice) (n : Nat) :
    Evaluator.cutting notice n = (Evaluator.bounded n).cut notice := by
  induction n with
  | zero => rfl
  | succ n ih =>
    have hparts : (Evaluator.cutting notice n).AlikeUpTo notice (.bounded n) :=
      ih ▸ cut_alike notice _
    rw [Evaluator.cutting, Evaluator.cut, Evaluator.cut, Evaluator.mk.injEq]
    refine ⟨?_, ?_, ?_⟩
    · exact funext fun e => funext fun scope => evalStep_alike hparts e scope
    · exact funext fun s => funext fun scope => execStep_alike hparts n s scope
    · exact funext fun callee => funext fun args => callStep_alike hparts callee args

/-! What a run that is cut off comes to -/

/-- A run ends where its dialogue ends. -/
theorem Dialogue.Run.ends {κ : Type} {Answer : κ → Type} {ρ : Type} {d : Dialogue Answer ρ}
    {log more : List ((q : κ) × Answer q)} {r r' : ρ} (h : d.Run log r)
    (h' : d.Run (log ++ more) r') : more = [] := by
  induction h with
  | finished r =>
    cases h'
    rfl
  | asking a _ ih =>
    cases h' with
    | asking _ h' => exact ih h'

/-- A run to the end of the bound has come to it, or has been cut off at an exit. -/
theorem run_cut {α : Type} {x : Eval α} {m : Machine} {log : List ((q : Request) × q.Answer)}
    (hrun : (x.cut notice m).Run log .exhausted) :
    (x m).Run log .exhausted ∨
      ∃ code m' first last, log = first ++ last ∧ notice.holds code m' = true ∧
        (x m).Run first (.exited code m') ∧ notice.alarm.Run last () := by
  obtain ⟨first, r, last, rfl, hfirst, hlast⟩ := Dialogue.run_bind.1 hrun
  obtain hcut | ⟨code, m', rfl, hnotice, hcut⟩ := r.cut_eq_or notice
  · rw [hcut] at hlast
    cases hlast
    exact .inl (by rwa [List.append_nil])
  · rw [hcut] at hlast
    obtain ⟨last, _, nothing, rfl, halarm, hend⟩ := Dialogue.run_bind.1 hlast
    cases hend
    exact .inr ⟨code, m', first, last, by rw [List.append_nil], hnotice, hfirst, halarm⟩

theorem run_cut_exhausted (notice : ExitNotice) {α : Type} {x : Eval α} {m : Machine}
    {log : List ((q : Request) × q.Answer)} (hrun : (x m).Run log .exhausted) :
    (x.cut notice m).Run log .exhausted :=
  Dialogue.run_bind.2 ⟨log, _, [], by rw [List.append_nil], hrun, .finished _⟩

open Classical in
/-- The exits with this code that leave everything like this machine. -/
noncomputable def ExitNotice.like (code : Int) (m : Machine) (alarm : Talk Unit) : ExitNotice where
  holds c m' := decide (c = code ∧ m.Unwinds m')
  alarm := alarm
  unwinds h :=
    decide_eq_decide.2 (and_congr_right fun _ => ⟨fun h' => h'.trans h, fun h' => h'.trans h.symm⟩)

theorem ExitNotice.holds_like {code c : Int} {m m' : Machine} {alarm : Talk Unit} :
    (like code m alarm).holds c m' = true ↔ c = code ∧ m.Unwinds m' := by
  classical exact decide_eq_true_iff

/-- Up to here a run has come to an activity, however deep it is nested, that ends with an exit and
leaves a machine like this: whatever alarm is to be given at such exits, it is given now. -/
def Eval.ReachesExit {α : Type} (n : Nat) (x : Evaluator → Eval α) (m : Machine)
    (log : List ((q : Request) × q.Answer)) (code : Int) (m₁ : Machine) : Prop :=
  ∀ (alarm : Talk Unit) (said : List ((q : Request) × q.Answer)), alarm.Run said () →
    (x (.cutting (.like code m₁ alarm) n) m).Run (log ++ said) .exhausted

section

variable {α : Type} {n : Nat} {x : Evaluator → Eval α} {m m₁ m₂ : Machine}
  {log : List ((q : Request) × q.Answer)} {code : Int}

/-- What is built from activities and passes on their exits ends with the exit that it reaches. -/
theorem ends_with_reached
    (hx : ∀ notice, Eval.AlikeUpTo notice (x (.cutting notice n)) (x (.bounded n)))
    (h : Eval.ReachesExit n x m log code m₁) :
    ∃ m₂, m₁.Unwinds m₂ ∧ (x (.bounded n) m).Run log (.exited code m₂) := by
  -- As far as a given alarm says one thing only, it is clear where the exit is.
  have hcut {alarm : Talk Unit} {said : List ((q : Request) × q.Answer)} (ha : alarm.Run said ())
      (hsaid : ∀ last, alarm.Run last () → last.length = said.length) :
      (x (.bounded n) m).Run (log ++ said) .exhausted ∨
        ∃ m₂, m₁.Unwinds m₂ ∧ (x (.bounded n) m).Run log (.exited code m₂) := by
    have hrun := run_cut_exhausted (.like code m₁ alarm) (h alarm said ha)
    rw [hx] at hrun
    refine (run_cut hrun).imp_right ?_
    rintro ⟨code', m₂, first, last, hlog, hholds, hexit, hlast⟩
    obtain ⟨rfl, hm₂⟩ := ExitNotice.holds_like.1 hholds
    obtain ⟨rfl, -⟩ := List.append_inj' hlog (hsaid last hlast).symm
    exact ⟨m₂, hm₂, hexit⟩
  have hsilent := hcut (.finished ()) fun last hlast => by
    cases hlast
    rfl
  have hasking := hcut (.asking (q := .sleep 0) () (.finished ())) fun last hlast => by
    cases hlast with
    | asking _ hlast =>
      cases hlast
      rfl
  -- The bound is not used up both with and without what an alarm says.
  obtain hsilent | hexit := hsilent
  · obtain hasking | hexit := hasking
    · rw [List.append_nil] at hsilent
      cases hsilent.ends hasking
    · exact hexit
  · exact hexit

/-- An activity that ends with an exit reaches it. -/
theorem reachesExit_of_run (hx : ∀ notice, x (.cutting notice n) = (x (.bounded n)).cut notice)
    (hm₂ : m₁.Unwinds m₂) (hrun : (x (.bounded n) m).Run log (.exited code m₂)) :
    Eval.ReachesExit n x m log code m₁ := by
  intro alarm said halarm
  rw [hx]
  refine Dialogue.run_bind.2 ⟨log, _, said, rfl, hrun, ?_⟩
  have hcut : (Ending.exited code m₂ : Ending α).cut (.like code m₁ alarm) =
      (ExitNotice.like code m₁ alarm).raise :=
    if_pos (ExitNotice.holds_like.2 ⟨rfl, hm₂⟩)
  rw [hcut]
  exact Dialogue.run_bind.2 ⟨said, (), [], by rw [List.append_nil], halarm, .finished _⟩

/-- A program whose first statement reaches an exit reaches it. -/
theorem interpretBy_reachesExit {s : Stmt} (rest : Program)
    (h : Eval.ReachesExit n (·.exec s .global) m log code m₁) :
    Eval.ReachesExit n (interpretBy · (s :: rest)) m log code m₁ := by
  intro alarm said halarm
  have hexec := h alarm said halarm
  have hstatement (ev : Evaluator) (hexec : (ev.exec s .global m).Run (log ++ said) .exhausted) :
      (interpretStatement ev s m).Run (log ++ said) .exhausted := by
    change (Eval.bind (Eval.attempt _) _ m).Run _ _
    rw [bind_apply, attempt_apply, Dialogue.bind_assoc]
    exact Dialogue.run_bind.2 ⟨_, _, [], by rw [List.append_nil], hexec, .finished _⟩
  dsimp only [interpretBy, Eval.forEach]
  rw [foldList_cons]
  exact Dialogue.run_bind.2 ⟨_, _, [], by rw [List.append_nil], hstatement _ hexec, .finished _⟩

end

/-- When an activity somewhere in an evaluation ends with an exit, the evaluation ends with the same
exit, nothing more is said to the host, and the machine is left as it was up to the levels of calls
and imports that are given up on the way out. A program is ended the same way. -/
theorem exit_is_final (n : Nat) (m : Machine) (log : List ((q : Request) × q.Answer)) (code : Int)
    (m₁ : Machine) :
    (∀ e scope, Eval.ReachesExit n (·.eval e scope) m log code m₁ →
      ∃ m₂, m₁.Unwinds m₂ ∧ ((Evaluator.bounded n).eval e scope m).Run log (.exited code m₂)) ∧
    (∀ s scope, Eval.ReachesExit n (·.exec s scope) m log code m₁ →
      ∃ m₂, m₁.Unwinds m₂ ∧ ((Evaluator.bounded n).exec s scope m).Run log (.exited code m₂)) ∧
    (∀ callee args, Eval.ReachesExit n (·.call callee args) m log code m₁ →
      ∃ m₂, m₁.Unwinds m₂ ∧
        ((Evaluator.bounded n).call callee args m).Run log (.exited code m₂)) ∧
    ∀ program, Eval.ReachesExit n (interpretBy · program) m log code m₁ →
      ∃ m₂, m₁.Unwinds m₂ ∧ (interpret n program m).Run log (.exited code m₂) := by
  have halike (notice : ExitNotice) : (Evaluator.cutting notice n).AlikeUpTo notice (.bounded n) :=
    cutting_eq notice n ▸ cut_alike notice _
  refine ⟨fun e scope h => ?_, fun s scope h => ?_, fun callee args h => ?_, fun program h => ?_⟩
  · exact ends_with_reached (fun notice => (halike notice).eval e scope) h
  · exact ends_with_reached (fun notice => (halike notice).exec s scope) h
  · exact ends_with_reached (fun notice => (halike notice).call callee args) h
  · exact ends_with_reached (fun notice => interpretBy_alike (halike notice) program) h

/-- The statement `(fn() { try { exit(); } catch (e) { print e; } })();`. -/
def quitting : Stmt :=
  .expression (.call (.grouping (.function (.mk "" [] [.attempt
    (.block [.expression (.call (.name "exit" ⟨1, 15, 14⟩) [] ⟨1, 19, 18⟩) ⟨1, 15, 14⟩] ⟨1, 13, 12⟩)
    "e" (.block [.print (.name "e" ⟨1, 43, 42⟩) ⟨1, 37, 36⟩] ⟨1, 35, 34⟩) ⟨1, 9, 8⟩]
    false none ⟨1, 2, 1⟩)) ⟨1, 1, 0⟩) [] ⟨1, 50, 49⟩) ⟨1, 1, 0⟩

/-- The code of an exit that comes without asking anything. -/
def Talk.exitCode? {α : Type} : Talk (Ending α) → Option Int
  | .finished (.stopped (.failed (.exit code)) _) => some code
  | _ => none

theorem Talk.eq_exited {α : Type} {d : Talk (Ending α)} {code : Int}
    (h : Talk.exitCode? d = some code) : ∃ m, d = .finished (.exited code m) := by
  unfold Talk.exitCode? at h
  split at h
  next m =>
    obtain rfl := Option.some.inj h
    exact ⟨m, rfl⟩
  next => cases h

theorem quitting_ends : ∃ m₁ m₂ : Machine, m₁.depth = 1 ∧
    Eval.ReachesExit 9 (interpretBy · [quitting, quitting]) (.fresh .default) [] 0 m₁ ∧
    m₁.Unwinds m₂ ∧ (interpret 9 [quitting, quitting] (.fresh .default)).Run [] (.exited 0 m₂) := by
  obtain ⟨m₂, hexec⟩ : ∃ m₂, (Evaluator.bounded 9).exec quitting .global (.fresh .default) =
      .finished (.exited 0 m₂) :=
    Talk.eq_exited (by decide +kernel)
  have hreach : Eval.ReachesExit 9 (interpretBy · [quitting, quitting]) (.fresh .default) [] 0
      { m₂ with depth := 1 } :=
    interpretBy_reachesExit _ (reachesExit_of_run (fun notice => by rw [cutting_eq]; rfl)
      ⟨m₂.depth, m₂.importers, rfl⟩ (hexec ▸ .finished _))
  obtain ⟨m₂, hm₂, hrun⟩ := (exit_is_final 9 _ [] 0 _).2.2.2 _ hreach
  exact ⟨_, m₂, rfl, hreach, hm₂, hrun⟩

end ScriptEngine
