import ScriptEngine.Proofs.Machine.Agreement

/-!
# Evaluations that are cut off at an exit

An exit that is noticed can be made the end of everything: an alarm is given, and what would go on
from it is out of bound. Two evaluations are alike up to noticed exits if they are the same once
both are cut off there. This is kept by whatever goes on from an ending, as long as it passes exits
on.
-/
namespace ScriptEngine

/-- Machines that differ only in how deep calls and imports are nested. -/
def Machine.Unwinds (m m' : Machine) : Prop :=
  ∃ depth importers, { m with depth, importers } = m'

/-- The ending with an exit of the program. -/
def Ending.exited {α : Type} (code : Int) (m : Machine) : Ending α :=
  .stopped (.failed (.exit code)) m

/-- The exits that are noticed, by their code and what they leave behind, and the alarm that is
given then. How deep calls and imports are nested makes no difference. -/
structure ExitNotice where
  holds : Int → Machine → Bool
  alarm : Talk Unit
  unwinds {code : Int} {m m' : Machine} : m.Unwinds m' → holds code m = holds code m'

variable {α β : Type}

namespace Machine.Unwinds

variable {m m₁ m₂ : Machine}

theorem refl (m : Machine) : m.Unwinds m := ⟨m.depth, m.importers, rfl⟩

theorem trans (h : m.Unwinds m₁) (h' : m₁.Unwinds m₂) : m.Unwinds m₂ := by
  obtain ⟨_, _, rfl⟩ := h
  obtain ⟨depth, importers, rfl⟩ := h'
  exact ⟨depth, importers, rfl⟩

theorem symm (h : m.Unwinds m₁) : m₁.Unwinds m := by
  obtain ⟨_, _, rfl⟩ := h
  exact ⟨m.depth, m.importers, rfl⟩

end Machine.Unwinds

/-- The alarm, and the end of the bound. -/
def ExitNotice.raise (notice : ExitNotice) : Talk (Ending α) :=
  notice.alarm.bind fun _ => .finished .exhausted

/-- At a noticed exit the alarm is given, and all else stays. -/
def Ending.cut (notice : ExitNotice) : Ending α → Talk (Ending α)
  | .stopped (.failed (.exit code)) m =>
    if notice.holds code m then notice.raise else .finished (exited code m)
  | r => .finished r

def Talk.cut (notice : ExitNotice) (d : Talk (Ending α)) : Talk (Ending α) :=
  Dialogue.bind d (Ending.cut notice)

def Eval.cut (notice : ExitNotice) (x : Eval α) : Eval α := fun m => Talk.cut notice (x m)

/-- What goes on from an ending passes an exit on, and at most leaves calls and imports first. -/
structure PassesExits (f : Ending α → Talk (Ending β)) : Prop where
  exhausted : f .exhausted = .finished .exhausted
  exited (code : Int) (m : Machine) :
    ∃ m', m.Unwinds m' ∧ f (.exited code m) = .finished (.exited code m')

variable {notice : ExitNotice}

theorem Ending.cut_eq_or (notice : ExitNotice) (r : Ending α) :
    r.cut notice = .finished r ∨
      ∃ code m, r = .exited code m ∧ notice.holds code m = true ∧ r.cut notice = notice.raise := by
  unfold Ending.cut
  split
  next code m =>
    split
    next h => exact .inr ⟨code, m, rfl, h, rfl⟩
    next => exact .inl rfl
  next => exact .inl rfl

theorem ExitNotice.raise_bind {f : Ending α → Talk (Ending β)}
    (hf : f .exhausted = .finished .exhausted) :
    notice.raise.bind f = (notice.raise : Talk (Ending β)) := by
  unfold ExitNotice.raise
  rw [Dialogue.bind_assoc]
  exact congrArg _ (funext fun _ => hf)

@[simp]
theorem Talk.cut_cut (d : Talk (Ending α)) :
    Talk.cut notice (Talk.cut notice d) = Talk.cut notice d := by
  unfold Talk.cut
  rw [Dialogue.bind_assoc]
  refine congrArg _ (funext fun r => ?_)
  obtain h | ⟨code, m, -, -, h⟩ := r.cut_eq_or notice
  · rw [h, Dialogue.finished_bind, h]
  · rw [h]
    exact ExitNotice.raise_bind rfl

@[simp]
theorem Eval.cut_cut (x : Eval α) : (x.cut notice).cut notice = x.cut notice :=
  funext fun _ => Talk.cut_cut _

/-- Where a noticed exit is passed on, it does not matter whether it was cut off before. -/
theorem Talk.cut_bind {f : Ending α → Talk (Ending β)} (hf : PassesExits f)
    (d : Talk (Ending α)) :
    Talk.cut notice (Dialogue.bind d f) =
      Talk.cut notice (Dialogue.bind (Talk.cut notice d) f) := by
  unfold Talk.cut
  rw [Dialogue.bind_assoc, Dialogue.bind_assoc, Dialogue.bind_assoc]
  refine congrArg _ (funext fun r => ?_)
  obtain h | ⟨code, m, rfl, hnotice, h⟩ := r.cut_eq_or notice
  · rw [h, Dialogue.finished_bind]
  · obtain ⟨m', hm', hexit⟩ := hf.exited code m
    rw [h, hexit, Dialogue.finished_bind, ExitNotice.raise_bind (by rw [hf.exhausted]; rfl)]
    exact if_pos (notice.unwinds hm' ▸ hnotice)

namespace Eval

/-- Two evaluations are the same up to noticed exits. -/
def AlikeUpTo (notice : ExitNotice) (x y : Eval α) : Prop := x.cut notice = y.cut notice

namespace AlikeUpTo

variable {x y : Eval α}

@[refl]
theorem refl (x : Eval α) : AlikeUpTo notice x x := rfl

theorem cut (x : Eval α) : AlikeUpTo notice (x.cut notice) x := cut_cut x

/-- Whatever passes exits on may follow. -/
theorem onward {f g : Ending α → Talk (Ending β)} (h : AlikeUpTo notice x y)
    (hfg : ∀ r, Talk.cut notice (f r) = Talk.cut notice (g r)) (hf : PassesExits f)
    (hg : PassesExits g) (m : Machine) :
    Talk.cut notice (Dialogue.bind (x m) f) = Talk.cut notice (Dialogue.bind (y m) g) := by
  have hxy : Talk.cut notice (x m) = Talk.cut notice (y m) := congrFun h m
  have hnext (d : Talk (Ending α)) :
      Talk.cut notice (Dialogue.bind d f) = Talk.cut notice (Dialogue.bind d g) := by
    unfold Talk.cut at hfg ⊢
    rw [Dialogue.bind_assoc, Dialogue.bind_assoc]
    exact congrArg _ (funext hfg)
  rw [Talk.cut_bind hf, Talk.cut_bind hg, hxy, hnext]

theorem passes_andThen (f : α → Eval β) : PassesExits (andThen f) :=
  ⟨rfl, fun _ m => ⟨m, .refl m, rfl⟩⟩

theorem bind {f g : α → Eval β} (h : AlikeUpTo notice x y)
    (hfg : ∀ a, AlikeUpTo notice (f a) (g a)) :
    AlikeUpTo notice (Eval.bind x f) (Eval.bind y g) := by
  refine funext fun m => ?_
  unfold Eval.cut
  rw [bind_apply, bind_apply]
  refine h.onward (fun r => ?_) (passes_andThen f) (passes_andThen g) m
  cases r with
  | value a m => exact congrFun (hfg a) m
  | stopped s m => rfl
  | exhausted => rfl

theorem discard (h : AlikeUpTo notice x y) :
    AlikeUpTo notice (Functor.discard x) (Functor.discard y) :=
  bind h fun _ => refl _

/-- What is done with an outcome passes exits on, and at most leaves calls and imports first. -/
def Rethrows (f : Except Signal α → Eval β) : Prop :=
  ∀ code m, ∃ m', m.Unwinds m' ∧
    f (.error (.failed (.exit code))) m = .finished (.exited code m')

theorem attempt {f g : Except Signal α → Eval β} (h : AlikeUpTo notice x y)
    (hfg : ∀ o, AlikeUpTo notice (f o) (g o)) (hf : Rethrows f) (hg : Rethrows g) :
    AlikeUpTo notice (Eval.bind (Eval.attempt x) f) (Eval.bind (Eval.attempt y) g) := by
  refine funext fun m => ?_
  unfold Eval.cut
  rw [bind_apply, bind_apply, attempt_apply, attempt_apply, Dialogue.bind_assoc,
    Dialogue.bind_assoc]
  have hpasses {f : Except Signal α → Eval β} (hf : Rethrows f) :
      PassesExits fun r => (Dialogue.finished (attempted r)).bind (andThen f) := ⟨rfl, hf⟩
  refine h.onward (fun r => ?_) (hpasses hf) (hpasses hg) m
  cases r with
  | value a m => exact congrFun (hfg (.ok a)) m
  | stopped s m => exact congrFun (hfg (.error s)) m
  | exhausted => rfl

theorem foldList {f g : β → α → Eval β} (h : ∀ b a, AlikeUpTo notice (f b a) (g b a)) (xs : List α)
    (b : β) : AlikeUpTo notice (Eval.foldList f xs b) (Eval.foldList g xs b) := by
  induction xs generalizing b with
  | nil => rfl
  | cons a rest ih =>
    have hcons (f : β → α → Eval β) :
        Eval.foldList f (a :: rest) b = Eval.bind (f b a) (Eval.foldList f rest) :=
      funext fun m => by rw [foldList_cons, bind_apply]
    rw [hcons, hcons]
    exact bind (h b a) ih

theorem forEach {f g : α → Eval Unit} (h : ∀ a, AlikeUpTo notice (f a) (g a)) (xs : List α) :
    AlikeUpTo notice (Eval.forEach f xs) (Eval.forEach g xs) :=
  foldList (fun _ => h) xs ()

theorem mapList {f g : α → Eval β} (h : ∀ a, AlikeUpTo notice (f a) (g a)) (xs : List α) :
    AlikeUpTo notice (Eval.mapList f xs) (Eval.mapList g xs) :=
  foldList (fun _ a => bind (h a) fun _ => refl _) xs #[]

theorem repeatWhile {body body' : Eval Bool} (h : AlikeUpTo notice body body') (n : Nat) :
    AlikeUpTo notice (Eval.repeatWhile body n) (Eval.repeatWhile body' n) := by
  have hround (b : Unit) : AlikeUpTo notice
      (Eval.bind body fun again => Eval.pure (if again then some b else none))
      (Eval.bind body' fun again => Eval.pure (if again then some b else none)) :=
    bind h fun _ => refl _
  unfold Eval.repeatWhile
  induction n with
  | zero => rfl
  | succ n ih =>
    have hsucc (round : Unit → Eval (Option Unit)) :
        Eval.iterate round (n + 1) () = Eval.bind (round ()) (iterateNext round n) :=
      funext fun m => by rw [iterate_succ, bind_apply]
    rw [hsucc, hsucc]
    refine bind (hround ()) fun o => ?_
    cases o with
    | some b => exact ih
    | none => rfl

end AlikeUpTo

end Eval

end ScriptEngine
