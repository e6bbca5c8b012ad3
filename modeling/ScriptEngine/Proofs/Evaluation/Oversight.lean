import ScriptEngine.Proofs.Evaluation.Exit
import ScriptEngine.Proofs.Evaluation.Discipline
import ScriptEngine.Proofs.Library.Settlement

/-!
# Evaluation under oversight

To say that scripts keep their hands off promises, the places are watched where scripts change
fields and arrays: an assignment to a field or an element, a method that changes an array, and the
registration of a callback. What would be meddling stops with an alarm instead. The program may also
be ended anywhere, so that what it leaves is what any activity finds when it begins.

Oversight adds nothing else. Where the alarm is an exit, a run under oversight is a run of the
program or ends with that exit: once exits of this kind are cut off, evaluation without oversight
leads evaluation under it.
-/
namespace ScriptEngine
open Eval Regime

/-- What a script does to the fields of an instance or to the elements of an array. -/
inductive Deed where
  | setField (r : InstanceRef) (key : String)
  | changeArray (a : ArrayRef)
  /-- Calls a method of promises on an instance. -/
  | subscribe (r : InstanceRef) (kind : Library.Settlement)

namespace Deed

/-- The assignment to an index. -/
def ofIndex? : Value → Value → Option Deed
  | .array a, _ => some (.changeArray a)
  | .object r, .text key => some (.setField r key)
  | _, _ => none

/-- The call of a built-in function. -/
def ofCall? : Value → Option Deed
  | .native _ (.array .push) (some (.array a)) | .native _ (.array .pop) (some (.array a))
  | .native _ (.array .pushFront) (some (.array a))
  | .native _ (.array .popFront) (some (.array a)) => some (.changeArray a)
  | .native _ (.promise method) (some (.object r)) => some (.subscribe r (Library.kindOf method))
  | _ => none

end Deed

/-- What is not to be done, the alarm for it, and where the program is ended. -/
structure Oversight where
  forbids : Deed → Machine → Bool
  alarm : Failure
  ends : Evaluator.Activity → Machine → Bool

namespace Oversight

variable {α : Type}

/-- Does something, unless it is forbidden. -/
def minding (o : Oversight) : Option Deed → Eval α → Eval α
  | some deed, x => Eval.guarded (o.forbids deed) o.alarm x
  | none, x => x

/-- Begins an activity, unless the program is ended there. -/
def beginning (o : Oversight) (a : Evaluator.Activity) (x : Eval α) : Eval α :=
  Eval.guarded (o.ends a) (.exit 0) x

/-- Evaluates an expression; an assignment is looked at when its parts have been evaluated. -/
def evalStep (o : Oversight) (ev : Evaluator) (e : Expr) (scope : ScopeRef) : Eval Value := do
  match e with
  | .set object name value _ =>
    match ← ev.eval object scope with
    | .object r =>
      let v ← ev.eval value scope
      o.minding (some (.setField r name)) do
        Eval.setField r name v
        return v
    | _ => Eval.fail .noFields
  | .indexSet object key value _ =>
    let x ← ev.eval object scope
    let k ← ev.eval key scope
    let v ← ev.eval value scope
    o.minding (Deed.ofIndex? x k) do
      writeIndex x k v
      return v
  | e => ScriptEngine.evalStep ev e scope

def callStep (o : Oversight) (ev : Evaluator) (callee : Value) (args : List Value) : Eval Value :=
  o.minding (Deed.ofCall? callee) (ScriptEngine.callStep ev callee args)

end Oversight

/-- Bounded evaluation under oversight. -/
def Evaluator.overseen (o : Oversight) : Nat → Evaluator
  | 0 => .exhausted
  | n + 1 =>
    { eval := fun e scope => o.beginning (.eval e scope) (o.evalStep (overseen o n) e scope)
      exec := fun s scope => o.beginning (.exec s scope) (execStep n (overseen o n) s scope)
      call := fun callee args =>
        o.beginning (.call callee args) (o.callStep (overseen o n) callee args) }

/-! What is done under oversight is done without it, up to an alarm -/

/-- The exits of the program with a code. -/
def ExitNotice.withCode (code : Int) : ExitNotice where
  holds c _ := c == code
  alarm := .finished ()
  unwinds _ := rfl

/-- Every run comes to the end of its bound, ends with an exit with this code, or is a run of the
other evaluation. -/
def Eval.RunsOrExits {α : Type} (code : Int) (x y : Eval α) : Prop :=
  ∀ ⦃m log r⦄, (x m).Run log r → r = .exhausted ∨ (∃ m', r = .exited code m') ∨ (y m).Run log r

section

variable {α β : Type} {code : Int} {notice : ExitNotice}

theorem Talk.Agrees.run {good : Ending α → Prop} {d d' : Talk (Ending α)}
    {log : List ((q : Request) × q.Answer)} {r : Ending α} (h : Talk.Agrees .leading good d d')
    (hd : d.Run log r) : r = .exhausted ∨ d'.Run log r := by
  induction h generalizing log with
  | finished => exact .inr hd
  | asking _ ih =>
    cases hd with
    | asking a hd => exact (ih a hd).imp_right (.asking a)
  | exhausted =>
    cases hd
    exact .inl rfl

theorem ExitNotice.raise_withCode :
    ((ExitNotice.withCode code).raise : Talk (Ending α)) = .finished .exhausted := rfl

namespace Eval.RunsOrExits

variable {x y : Eval α}

theorem of_agree {I : Machine → Prop} {V : α → Prop} {S : Signal → Prop}
    (h : Agree .leading I V S (x.cut (.withCode code)) y) (hI : ∀ m, I m) :
    RunsOrExits code x y := by
  intro m log r hrun
  obtain hcut | ⟨c, m', rfl, hholds, -⟩ := r.cut_eq_or (.withCode code)
  · have hcut : (x.cut (.withCode code) m).Run log r :=
      Dialogue.run_bind.2 ⟨log, r, [], by rw [List.append_nil], hrun, hcut ▸ .finished r⟩
    exact ((h m (hI m)).run hcut).imp_right .inr
  · exact .inr (.inl ⟨m', by rw [eq_of_beq hholds]⟩)

theorem refl (x : Eval α) : RunsOrExits code x x := fun _ _ _ hrun => .inr (.inr hrun)

theorem bind {f g : α → Eval β} (h : RunsOrExits code x y)
    (hfg : ∀ a, RunsOrExits code (f a) (g a)) :
    RunsOrExits code (Eval.bind x f) (Eval.bind y g) := by
  intro m log r hrun
  rw [bind_apply] at hrun ⊢
  obtain ⟨first, r', last, rfl, hfirst, hlast⟩ := Dialogue.run_bind.1 hrun
  obtain rfl | ⟨m', rfl⟩ | hfirst' := h hfirst
  · cases hlast
    exact .inl rfl
  · cases hlast
    exact .inr (.inl ⟨m', rfl⟩)
  · cases r' with
    | value a m' =>
      refine (hfg a hlast).imp_right (Or.imp_right fun hlast' => ?_)
      exact Dialogue.run_bind.2 ⟨first, _, last, rfl, hfirst', hlast'⟩
    | stopped s m' =>
      exact .inr (.inr (Dialogue.run_bind.2 ⟨first, _, last, rfl, hfirst', hlast⟩))
    | exhausted =>
      cases hlast
      exact .inl rfl

theorem discard (h : RunsOrExits code x y) :
    RunsOrExits code (Functor.discard x) (Functor.discard y) :=
  bind h fun _ => refl _

/-- An attempt may be made at it, if what follows an exit ends with it. -/
theorem attempt {f : Except Signal α → Eval β} (h : RunsOrExits code x y)
    (hf : ∀ ⦃m log r⦄, (f (.error (.failed (.exit code))) m).Run log r →
      ∃ m', r = .exited code m') :
    RunsOrExits code (Eval.bind (Eval.attempt x) f) (Eval.bind (Eval.attempt y) f) := by
  intro m log r hrun
  rw [bind_apply, attempt_apply, Dialogue.bind_assoc] at hrun ⊢
  obtain ⟨first, r', last, rfl, hfirst, hlast⟩ := Dialogue.run_bind.1 hrun
  obtain rfl | ⟨m', rfl⟩ | hfirst' := h hfirst
  · cases hlast
    exact .inl rfl
  · exact .inr (.inl (hf hlast))
  · exact .inr (.inr (Dialogue.run_bind.2 ⟨first, r', last, rfl, hfirst', hlast⟩))

theorem forEach {f g : α → Eval Unit} (h : ∀ a, RunsOrExits code (f a) (g a)) (items : List α) :
    RunsOrExits code (Eval.forEach f items) (Eval.forEach g items) := by
  unfold Eval.forEach
  induction items with
  | nil => exact refl _
  | cons a rest ih =>
    have hcons (f : α → Eval Unit) : Eval.foldList (fun _ a => f a) (a :: rest) () =
        Eval.bind (f a) fun _ => Eval.foldList (fun _ a => f a) rest () :=
      funext fun m => by rw [foldList_cons, bind_apply]
    rw [hcons, hcons]
    exact bind (h a) fun _ => ih

end Eval.RunsOrExits

namespace Eval.Agree

variable {I : Machine → Prop} {V : α → Prop} {W : β → Prop} {S : Signal → Prop} {x y : Eval α}

/-- What is cut off is led by what it was cut from. -/
theorem cut (h : Agree .leading I V S x y) : Agree .leading I V S (x.cut (.withCode code)) y := by
  intro m hm
  rw [← (y m).bind_finished]
  refine (h m hm).bind (fun r hr => ?_) rfl
  obtain hcut | ⟨_, _, -, -, hcut⟩ := r.cut_eq_or (.withCode code)
  · rw [hcut]
    exact .finished hr
  · rw [hcut, ExitNotice.raise_withCode]
    exact .exhausted rfl

theorem cut_bind {f g : α → Eval β} (h : Agree .leading I V S x y)
    (hfg : ∀ a, V a → Agree .leading I W S ((f a).cut (.withCode code)) (g a)) :
    Agree .leading I W S ((Eval.bind x f).cut (.withCode code)) (Eval.bind y g) := by
  have halike : AlikeUpTo (.withCode code) (Eval.bind x f)
      (Eval.bind x fun a => (f a).cut (.withCode code)) :=
    .bind (.refl x) fun a => (AlikeUpTo.cut (f a)).symm
  rw [halike]
  exact (h.bind hfg).cut

/-- An alarm that is cut off hides nothing. -/
theorem cut_minding {o : Oversight} (halarm : o.alarm = .exit code) (deed : Option Deed)
    (h : Agree .leading I V S (x.cut (.withCode code)) y) :
    Agree .leading I V S ((o.minding deed x).cut (.withCode code)) y := by
  cases deed with
  | none => exact h
  | some deed =>
    intro m hm
    unfold Oversight.minding Eval.guarded Eval.cut
    dsimp only
    split
    · rw [halarm]
      have hcut : Talk.cut (.withCode code) (.finished (.exited code m) : Talk (Ending α)) =
          .finished .exhausted := if_pos (beq_self_eq_true code)
      rw [Ending.exited] at hcut
      rw [hcut]
      exact .exhausted rfl
    · exact h m hm

end Eval.Agree

namespace Oversight

variable {o : Oversight} {ev ev' : Evaluator}

/-- Oversight minds only assignments. -/
theorem evalStep_eq {e : Expr} (h : e.assignsInto = false) (scope : ScopeRef) :
    o.evalStep ev e scope = ScriptEngine.evalStep ev e scope := by
  cases e with
  | set | indexSet => cases h
  | _ => rfl

theorem evalStep_alike (h : ev.AlikeUpTo notice ev') (e : Expr) (scope : ScopeRef) :
    AlikeUpTo notice (o.evalStep ev e scope) (o.evalStep ev' e scope) := by
  cases hassigns : e.assignsInto with
  | false =>
    rw [evalStep_eq hassigns, evalStep_eq hassigns]
    exact ScriptEngine.evalStep_alike h e scope
  | true =>
    cases e with
    | set object name value =>
      refine AlikeUpTo.bind (h.eval object scope) fun x => ?_
      cases x with
      | object r => exact AlikeUpTo.bind (h.eval value scope) fun _ => .refl _
      | _ => rfl
    | indexSet object key value =>
      refine AlikeUpTo.bind (h.eval object scope) fun _ => ?_
      refine AlikeUpTo.bind (h.eval key scope) fun _ => ?_
      exact AlikeUpTo.bind (h.eval value scope) fun _ => .refl _
    | _ => cases hassigns

end Oversight

end


/-! The evaluator under oversight -/

section

variable {o : Oversight} {code : Int} {ev ev' : Evaluator}

theorem Oversight.evalStep_evals (halarm : o.alarm = .exit code)
    (h : (Regime.free .leading).Keeps () ev ev') (e : Expr) (scope : ScopeRef) :
    (Regime.free .leading).Evals () ((o.evalStep ev e scope).cut (.withCode code))
      (ScriptEngine.evalStep ev' e scope) := by
  cases hassigns : e.assignsInto with
  | false =>
    rw [Oversight.evalStep_eq hassigns]
    exact ((h.step (Nat.le_refl 0) h.call).eval e scope).cut
  | true =>
    cases e with
    | set object name value =>
      refine Agree.cut_bind (h.eval object scope) fun x _ => ?_
      cases x with
      | object r =>
        refine Agree.cut_bind (h.eval value scope) fun v hv => Agree.cut_minding halarm _ ?_
        exact (Agree.bind (setField_gives r name hv) fun _ _ => Agree.pure hv).cut
      | _ => exact (fail_gives _).cut
    | indexSet object key value =>
      refine Agree.cut_bind (h.eval object scope) fun x _ => ?_
      refine Agree.cut_bind (h.eval key scope) fun k _ => ?_
      refine Agree.cut_bind (h.eval value scope) fun v hv => Agree.cut_minding halarm _ ?_
      exact (Agree.bind (writeIndex_gives x k hv) fun _ _ => Agree.pure hv).cut
    | _ => cases hassigns

theorem Oversight.beginning_quiet {α : Type} (hends : ∀ a m, o.ends a m = false)
    (a : Evaluator.Activity) (x : Eval α) : o.beginning a x = x :=
  funext fun m => by simp [Oversight.beginning, Eval.guarded, hends]

/-- Cut off at the alarm, evaluation under oversight is led by evaluation without it. -/
theorem overseen_keeps (halarm : o.alarm = .exit code) (hends : ∀ a m, o.ends a m = false)
    (n : Nat) :
    (Regime.free .leading).Keeps () ((Evaluator.overseen o n).cut (.withCode code))
      (.bounded n) := by
  induction n with
  | zero =>
    exact ⟨fun _ _ => Agree.cut fun _ _ => .exhausted rfl,
      fun _ _ _ => Agree.cut fun _ _ => .exhausted rfl,
      fun _ _ _ => Agree.cut fun _ _ => .exhausted rfl,
      fun _ _ _ _ => Agree.cut fun _ _ => .exhausted rfl⟩
  | succ n ih =>
    -- The parts may as well be cut off at the alarm.
    have halike := cut_alike (.withCode code) (Evaluator.overseen o n)
    have hcall : (Regime.free .leading).Calls ()
        (callStep ((Evaluator.overseen o n).cut (.withCode code))) (callStep (.bounded n)) :=
      fun callee args hc ha =>
        callStep_evals hc ha (fun decl _ _ _ => ih.runs decl) fun _ _ _ _ => ih.call
    have hstep := ih.step (Nat.le_refl n) hcall
    have hexec (s : Stmt) (scope : ScopeRef) : (Regime.free .leading).Execs ()
        (((Evaluator.overseen o (n + 1)).exec s scope).cut (.withCode code))
        ((Evaluator.bounded (n + 1)).exec s scope) := by
      unfold Evaluator.overseen Evaluator.bounded
      dsimp only
      rw [o.beginning_quiet hends, ← execStep_alike halike n s scope]
      exact (hstep.exec s trivial).cut
    refine ⟨fun e scope => ?_, fun s scope _ => hexec s scope,
      fun body p scope => hexec (.block body p) scope, fun callee args hc ha => ?_⟩
    · change (Regime.free .leading).Evals () ((o.beginning _ (o.evalStep _ e scope)).cut _) _
      rw [o.beginning_quiet hends, ← Oversight.evalStep_alike halike e scope]
      exact Oversight.evalStep_evals halarm ih e scope
    · change (Regime.free .leading).Evals ()
        ((o.beginning _ (o.minding _ (callStep _ callee args))).cut _) _
      rw [o.beginning_quiet hends]
      refine Agree.cut_minding halarm _ ?_
      rw [← callStep_alike halike callee args]
      exact (hcall callee args hc ha).cut

/-- Whatever is done under oversight is done without it, unless there is an alarm. -/
theorem overseen_runs (halarm : o.alarm = .exit code) (hends : ∀ a m, o.ends a m = false)
    (n : Nat) :
    (∀ e scope, RunsOrExits code ((Evaluator.overseen o n).eval e scope)
      ((Evaluator.bounded n).eval e scope)) ∧
    (∀ s scope, RunsOrExits code ((Evaluator.overseen o n).exec s scope)
      ((Evaluator.bounded n).exec s scope)) ∧
    ∀ callee args, RunsOrExits code ((Evaluator.overseen o n).call callee args)
      ((Evaluator.bounded n).call callee args) := by
  have h := overseen_keeps halarm hends n
  have hI := free_holds .leading
  exact ⟨fun e scope => .of_agree (h.eval e scope) hI,
    fun s scope => .of_agree (h.exec s trivial) hI,
    fun callee args =>
      .of_agree (h.call callee args callee.madeOf_any fun v _ => v.madeOf_any) hI⟩

end

end ScriptEngine
