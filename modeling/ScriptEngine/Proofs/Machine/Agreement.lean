import ScriptEngine.Machine.Eval

/-!
# Evaluations side by side

Two evaluations agree on machines with a property when they ask the host the same questions and end
alike, with the property kept. An evaluation that agrees with itself keeps the property whatever it
comes to, so invariants, refinement of one bound by a larger one and freedom from exhaustion are all
stated by the same relation. Each combinator of evaluations has one rule.
-/
namespace ScriptEngine

/-- What becomes of the bound when two evaluations are compared. -/
inductive Exhaustion where
  /-- Both are exhausted in the same places. -/
  | shared
  /-- The second may go on where the first is exhausted. -/
  | leading
  /-- Neither is ever exhausted. -/
  | absent
deriving DecidableEq, Repr

variable {α β : Type}

/-- Endings that keep a property of machines, with a value or a signal of some kind. -/
def Ending.Within (x : Exhaustion) (I : Machine → Prop) (V : α → Prop) (S : Signal → Prop) :
    Ending α → Prop
  | .value a m => V a ∧ I m
  | .stopped s m => S s ∧ I m
  | .exhausted => x ≠ .absent

theorem Ending.Within.mono {x : Exhaustion} {I : Machine → Prop} {V W : α → Prop}
    {S T : Signal → Prop} (hV : ∀ a, V a → W a) (hS : ∀ s, S s → T s) {r : Ending α}
    (h : r.Within x I V S) : r.Within x I W T := by
  cases r with
  | value a m => exact ⟨hV a h.1, h.2⟩
  | stopped s m => exact ⟨hS s h.1, h.2⟩
  | exhausted => exact h

namespace Talk

/-- Two talks ask the same and end alike, each time in a good ending. -/
inductive Agrees (x : Exhaustion) (good : Ending α → Prop) :
    Talk (Ending α) → Talk (Ending α) → Prop
  | finished {r : Ending α} (h : good r) : Agrees x good (.finished r) (.finished r)
  | asking {q : Request} {next next' : q.Answer → Talk (Ending α)}
      (h : ∀ a, Agrees x good (next a) (next' a)) :
      Agrees x good (.asking q next) (.asking q next')
  | exhausted {d : Talk (Ending α)} (h : x = .leading) : Agrees x good (.finished .exhausted) d

namespace Agrees

variable {x : Exhaustion} {good : Ending α → Prop} {good' : Ending β → Prop}
  {d d' : Talk (Ending α)}

theorem mono {better : Ending α → Prop} (h : Agrees x good d d')
    (hg : ∀ r, good r → better r) : Agrees x better d d' := by
  induction h with
  | finished h => exact .finished (hg _ h)
  | asking _ ih => exact .asking ih
  | exhausted h => exact .exhausted h

theorem bind {f f' : Ending α → Talk (Ending β)} (h : Agrees x good d d')
    (hf : ∀ r, good r → Agrees x good' (f r) (f' r))
    (he : f .exhausted = .finished .exhausted) : Agrees x good' (d.bind f) (d'.bind f') := by
  induction h with
  | finished h => exact hf _ h
  | asking _ ih => exact .asking ih
  | exhausted h =>
    rw [Dialogue.finished_bind, he]
    exact .exhausted h

/-- The endings of the first of two talks that agree. -/
theorem every (h : Agrees x good d d') (he : x = .leading → good .exhausted) : d.Every good := by
  induction h with
  | finished h => exact h
  | asking _ ih => exact ih
  | exhausted h => exact he h

theorem eq (h : Agrees x good d d') (hx : x ≠ .leading) : d = d' := by
  induction h with
  | finished _ => rfl
  | asking _ ih => exact congrArg _ (funext ih)
  | exhausted h => exact absurd h hx

/-- A talk that is never exhausted is all of the second one. -/
theorem eq_of_every (h : Agrees x good d d') (hd : d.Every (· ≠ .exhausted)) : d = d' := by
  induction h with
  | finished _ => rfl
  | asking _ ih => exact congrArg _ (funext fun a => ih a (hd a))
  | exhausted _ => exact absurd rfl hd

end Agrees

end Talk

namespace Eval

/-! Each combinator as a dialogue that goes on from the endings of its parts. -/

theorem bind_apply (x : Eval α) (f : α → Eval β) (m : Machine) :
    Eval.bind x f m = (x m).bind (andThen f) := by
  unfold Eval.bind
  cases x m with
  | finished r => cases r <;> rfl
  | asking q next => rfl

/-- The ending of an attempt at something that ends like this. -/
def attempted : Ending α → Ending (Except Signal α)
  | .value a m => .value (.ok a) m
  | .stopped s m => .value (.error s) m
  | .exhausted => .exhausted

theorem attempt_apply (x : Eval α) (m : Machine) :
    Eval.attempt x m = (x m).bind fun r => .finished (attempted r) := by
  unfold Eval.attempt
  cases x m with
  | finished r => cases r <;> rfl
  | asking q next =>
    refine congrArg _ (funext fun a => congrArg _ (funext fun r => ?_))
    cases r <;> rfl

theorem foldList_cons (f : β → α → Eval β) (a : α) (rest : List α) (b : β) (m : Machine) :
    foldList f (a :: rest) b m = (f b a m).bind (andThen fun b => foldList f rest b) := by
  rw [foldList]
  cases f b a m with
  | finished r => cases r <;> rfl
  | asking q next => rfl

/-- What follows a round of a repetition with `n` rounds left. -/
def iterateNext (body : β → Eval (Option β)) (n : Nat) : Option β → Eval Unit
  | some b => iterate body n b
  | none => pure ()

theorem iterate_succ (body : β → Eval (Option β)) (n : Nat) (b : β) (m : Machine) :
    iterate body (n + 1) b m = (body b m).bind (andThen (iterateNext body n)) := by
  rw [iterate]
  cases body b m with
  | finished r =>
    cases r with
    | value o m => cases o <;> rfl
    | stopped s m => rfl
    | exhausted => rfl
  | asking q next =>
    refine congrArg _ (funext fun a => congrArg _ (congrArg _ (funext fun o => ?_)))
    cases o <;> rfl

/-- Both evaluations end alike on all machines with a property, and keep it. -/
def Agree (x : Exhaustion) (I : Machine → Prop) (V : α → Prop) (S : Signal → Prop)
    (y z : Eval α) : Prop :=
  ∀ m, I m → Talk.Agrees x (Ending.Within x I V S) (y m) (z m)

namespace Agree

variable {x : Exhaustion} {I : Machine → Prop} {V : α → Prop} {W : β → Prop}
  {S T : Signal → Prop} {y z : Eval α}

theorem mono {V' : α → Prop} (h : Agree x I V S y z) (hV : ∀ a, V a → V' a)
    (hS : ∀ s, S s → T s) : Agree x I V' T y z :=
  fun m hm => (h m hm).mono fun _ => Ending.Within.mono hV hS

theorem signals (h : Agree x I V S y z) (hS : ∀ s, S s → T s) : Agree x I V T y z :=
  h.mono (fun _ h => h) hS

theorem every (h : Agree x I V S y z) {m : Machine} (hm : I m) :
    (y m).Every (Ending.Within x I V S) :=
  (h m hm).every fun hx => by simp [Ending.Within, hx]

theorem pure {a : α} (h : V a) : Agree x I V S (Eval.pure a) (Eval.pure a) :=
  fun _ hm => .finished ⟨h, hm⟩

theorem stop {s : Signal} (h : S s) : Agree x I V S (Eval.stop s) (Eval.stop s) :=
  fun _ hm => .finished ⟨h, hm⟩

theorem read {f : Machine → α} (h : ∀ m, I m → V (f m)) :
    Agree x I V S (Eval.read f) (Eval.read f) :=
  fun m hm => .finished ⟨h m hm, hm⟩

theorem update {f : Machine → Machine} (h : ∀ m, I m → I (f m)) :
    Agree x I (fun _ => True) S (Eval.update f) (Eval.update f) :=
  fun m hm => .finished ⟨trivial, h m hm⟩

theorem change {f : Machine → α × Machine} (h : ∀ m, I m → V (f m).1 ∧ I (f m).2) :
    Agree x I V S (Eval.change f) (Eval.change f) :=
  fun m hm => .finished (h m hm)

theorem ask {q : Request} {V : q.Answer → Prop} (h : ∀ a, V a) :
    Agree x I V S (Eval.ask q) (Eval.ask q) :=
  fun _ hm => .asking fun a => .finished ⟨h a, hm⟩

theorem ofExcept {r : Except Failure α} (hV : ∀ a, r = .ok a → V a)
    (hS : ∀ f, S (.failed f)) : Agree x I V S (Eval.ofExcept r) (Eval.ofExcept r) := by
  cases r with
  | ok a => exact pure (hV a rfl)
  | error f => exact stop (hS f)

theorem bind {f g : α → Eval β} (h : Agree x I V S y z)
    (hf : ∀ a, V a → Agree x I W S (f a) (g a)) :
    Agree x I W S (Eval.bind y f) (Eval.bind z g) := by
  intro m hm
  rw [bind_apply, bind_apply]
  refine (h m hm).bind (fun r hr => ?_) rfl
  cases r with
  | value a m => exact hf a hr.1 m hr.2
  | stopped s m => exact .finished hr
  | exhausted => exact .finished hr

theorem discard (h : Agree x I V S y z) :
    Agree x I (fun _ => True) S (Functor.discard y) (Functor.discard z) :=
  bind h fun _ _ => pure trivial

/-- What an attempt gives: a value of its kind, or a signal that would have left. -/
def Tried (V : α → Prop) (S : Signal → Prop) : Except Signal α → Prop
  | .ok a => V a
  | .error s => S s

theorem attempt (h : Agree x I V S y z) :
    Agree x I (Tried V S) T (Eval.attempt y) (Eval.attempt z) := by
  intro m hm
  rw [attempt_apply, attempt_apply]
  refine (h m hm).bind (fun r hr => ?_) rfl
  cases r with
  | value a m => exact .finished hr
  | stopped s m => exact .finished hr
  | exhausted => exact .finished hr

/-- Something that runs between two changes of the machine, whatever it comes to, keeps a property
if it keeps another one that the first change leads to and the second leads back from. -/
theorem bracket {enter leave : Machine → Machine}
    (h : ∀ m, I m → ∃ J : Machine → Prop, J (enter m) ∧ (∀ m, J m → I (leave m)) ∧
      Agree x J V S y z) :
    Agree x I (Tried V S) T
      (do Eval.update enter; let r ← Eval.attempt y; Eval.update leave; return r)
      (do Eval.update enter; let r ← Eval.attempt z; Eval.update leave; return r) := by
  intro m hm
  obtain ⟨J, henter, hleave, hyz⟩ := h m hm
  have hnever : Agree x J (Tried V S) (fun _ => False) (Eval.attempt y) (Eval.attempt z) :=
    attempt hyz
  change Talk.Agrees x _ (Eval.bind (Eval.attempt y) _ (enter m))
    (Eval.bind (Eval.attempt z) _ (enter m))
  rw [bind_apply, bind_apply]
  refine (hnever (enter m) henter).bind (fun r hr => ?_) rfl
  cases r with
  | value o m => exact .finished ⟨hr.1, hleave m hr.2⟩
  | stopped s m => exact hr.1.elim
  | exhausted => exact .finished hr

theorem foldList {f g : β → α → Eval β} {xs : List α}
    (h : ∀ b, W b → ∀ a ∈ xs, Agree x I W S (f b a) (g b a)) {b : β} (hb : W b) :
    Agree x I W S (Eval.foldList f xs b) (Eval.foldList g xs b) := by
  induction xs generalizing b with
  | nil => exact fun m hm => .finished ⟨hb, hm⟩
  | cons a rest ih =>
    intro m hm
    rw [foldList_cons, foldList_cons, ← bind_apply, ← bind_apply]
    have hrest (b : β) (hb : W b) := ih (fun b hb a ha => h b hb a (List.mem_cons_of_mem _ ha)) hb
    exact bind (h b hb a List.mem_cons_self) hrest m hm

theorem forEach {f g : α → Eval Unit} {xs : List α}
    (h : ∀ a ∈ xs, Agree x I (fun _ => True) S (f a) (g a)) :
    Agree x I (fun _ => True) S (Eval.forEach f xs) (Eval.forEach g xs) :=
  foldList (fun _ _ a ha => h a ha) trivial

theorem mapList {f g : α → Eval β} {xs : List α}
    (h : ∀ a ∈ xs, Agree x I W S (f a) (g a)) :
    Agree x I (fun out : Array β => ∀ b ∈ out, W b) S (Eval.mapList f xs) (Eval.mapList g xs) := by
  refine foldList (fun out hout a ha => bind (h a ha) fun b hb => pure ?_) (by simp)
  intro c hc
  rcases Array.mem_push.1 hc with hc | rfl
  · exact hout c hc
  · exact hb

theorem iterate {body body' : β → Eval (Option β)} {n n' : Nat} {b : β}
    (hx : x ≠ .absent) (hn : n = n' ∨ x = .leading ∧ n ≤ n')
    (h : ∀ b, Agree x I (fun _ => True) S (body b) (body' b)) :
    Agree x I (fun _ => True) S (Eval.iterate body n b) (Eval.iterate body' n' b) := by
  induction n generalizing n' b with
  | zero =>
    intro m _
    rcases hn with rfl | ⟨hl, -⟩
    · exact .finished hx
    · exact .exhausted hl
  | succ n ih =>
    obtain ⟨k, rfl⟩ : ∃ k, n' = k + 1 := ⟨n' - 1, by omega⟩
    have hk : n = k ∨ x = .leading ∧ n ≤ k :=
      hn.imp Nat.succ.inj (And.imp_right Nat.le_of_succ_le_succ)
    intro m hm
    rw [iterate_succ, iterate_succ, ← bind_apply, ← bind_apply]
    refine bind (h b) (fun o _ => ?_) m hm
    cases o with
    | some b => exact ih hk
    | none => exact pure trivial

end Agree

end Eval

end ScriptEngine
