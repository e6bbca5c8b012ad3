import Mathlib.Order.GameAdd
import ScriptEngine.Host.Hub
import ScriptEngine.Proofs.Machine.Conduct

/-!
# Two programs that take turns

Two programs ask the same hub. One answered request of one of them is a step, and the steps follow
each other in any order; a program whose request cannot be answered yet has to wait. What a program
asks of the surroundings is answered in any way.
-/
namespace ScriptEngine

namespace Hub

variable {ρ σ : Type}

/-- A program goes on with the answer to its request. -/
inductive Advance (bound : Nat) : Hub → Activity ρ → Exchange → Hub → Activity ρ → Prop
  | answered {hub hub' : Hub} {p : Activity ρ} {q : Request} {next : q.Answer → Talk ρ}
      {a : q.Answer} (time : Nat) (htalk : p.talk = .asking q next)
      (h : hub.answer? bound time (fallAsleep time p q) q = some (a, hub')) :
      Advance bound hub p ⟨q, a⟩ hub' { fallAsleep time p q with talk := next a, wake := none }
  | outer {hub : Hub} {p : Activity ρ} {q : OuterRequest} {next : q.Answer → Talk ρ}
      (htalk : p.talk = .asking (.outer q) next) (a : q.Answer) :
      Advance bound hub p ⟨.outer q, a⟩ hub { p with talk := next a }

/-- A program that asks the hub goes on as the hub answers. -/
theorem Advance.asked {bound : Nat} {hub hub' : Hub} {p p' : Activity ρ} {e : Exchange}
    {q : Request} {next : q.Answer → Talk ρ} (h : Advance bound hub p e hub' p')
    (htalk : p.talk = .asking q next) :
    ∃ a, e = ⟨q, a⟩ ∧ p'.talk = next a ∧
      ((∃ time p₁, hub.answer? bound time (p₁ : Activity ρ) q = some (a, hub')) ∨
        ∃ r, q = .outer r ∧ hub' = hub) := by
  cases h with
  | answered time htalk' h =>
    cases htalk.symm.trans htalk'
    exact ⟨_, rfl, rfl, .inl ⟨time, _, h⟩⟩
  | outer htalk' a =>
    cases htalk.symm.trans htalk'
    exact ⟨a, rfl, rfl, .inr ⟨_, rfl, rfl⟩⟩

theorem Advance.not_finished {bound : Nat} {hub hub' : Hub} {p p' : Activity ρ} {e : Exchange}
    {r : ρ} (h : Advance bound hub p e hub' p') : p.talk ≠ .finished r := by
  intro hr
  cases h with
  | answered _ htalk | outer htalk => exact nomatch hr.symm.trans htalk

/-- The talk that follows a request, with any answer. -/
inductive Follows : Talk ρ → Talk ρ → Prop
  | answer {q : Request} {next : q.Answer → Talk ρ} (a : q.Answer) :
      Follows (next a) (.asking q next)

theorem follows_wellFounded : WellFounded (@Follows ρ) := by
  refine ⟨fun d => ?_⟩
  induction d with
  | finished r => exact ⟨_, nofun⟩
  | asking q next ih =>
    refine ⟨_, fun d h => ?_⟩
    cases h with
    | answer a => exact ih a

theorem Advance.follows {bound : Nat} {hub hub' : Hub} {p p' : Activity ρ} {e : Exchange}
    (h : Advance bound hub p e hub' p') : Follows p'.talk p.talk := by
  cases h with
  | answered _ htalk => exact htalk ▸ .answer _
  | @outer _ q _ htalk a => exact htalk ▸ Follows.answer (q := .outer q) a

theorem link?_setLink {hub : Hub} {l : LinkRef} {link : Link} (h : hub.link? l = some link)
    (link' : Link) : (hub.setLink l link').link? l = some link' := by
  have hl : l.index < hub.links.size := (Array.getElem?_eq_some_iff.1 h).1
  simp [link?, setLink, hl]

/-- The two programs. -/
inductive Party where
  | spawner | worker
deriving DecidableEq

/-- Two programs on one hub. -/
structure Pair (ρ σ : Type) where
  hub : Hub
  spawner : Activity ρ
  worker : Activity σ

namespace Pair

variable {bound : Nat}

/-- One answered request. -/
inductive Step (bound : Nat) : Pair ρ σ → Party × Exchange → Pair ρ σ → Prop
  | spawner {s : Pair ρ σ} {hub : Hub} {p : Activity ρ} {e : Exchange}
      (h : Advance bound s.hub s.spawner e hub p) :
      Step bound s (.spawner, e) { s with hub, spawner := p }
  | worker {s : Pair ρ σ} {hub : Hub} {p : Activity σ} {e : Exchange}
      (h : Advance bound s.hub s.worker e hub p) :
      Step bound s (.worker, e) { s with hub, worker := p }

/-- Runs with all requests that were answered, the latest first. -/
inductive Run (bound : Nat) (s₀ : Pair ρ σ) : List (Party × Exchange) → Pair ρ σ → Prop
  | start : Run bound s₀ [] s₀
  | step {h : List (Party × Exchange)} {s s' : Pair ρ σ} {e : Party × Exchange}
      (r : Run bound s₀ h s) (next : Step bound s e s') : Run bound s₀ (e :: h) s'

/-- Both programs have ended. -/
def Over (s : Pair ρ σ) : Prop :=
  (∃ r, s.spawner.talk = .finished r) ∧ ∃ r, s.worker.talk = .finished r

/-- However the programs take turns, they do not go on forever. -/
theorem step_wellFounded :
    WellFounded fun s' s : Pair ρ σ => ∃ e, Step bound s e s' := by
  have hpair := (@follows_wellFounded ρ).prod_gameAdd (@follows_wellFounded σ)
  refine Subrelation.wf (fun {s' s} h => ?_)
    (InvImage.wf (fun s : Pair ρ σ => (s.spawner.talk, s.worker.talk)) hpair)
  obtain ⟨e, h⟩ := h
  cases h with
  | spawner h => exact .fst h.follows
  | worker h => exact .snd h.follows

/-- A run up to any of its events is a run, and the event is a step from there. -/
theorem Run.before {s₀ s : Pair ρ σ} {h past : List (Party × Exchange)} {e : Party × Exchange}
    (r : Run bound s₀ h s) (hp : e :: past <:+ h) :
    ∃ s₁ s₂, Run bound s₀ past s₁ ∧ Step bound s₁ e s₂ := by
  induction r with
  | start => simp at hp
  | @step h s s' e' r next ih =>
    rcases List.suffix_cons_iff.1 hp with heq | hp
    · obtain ⟨rfl, rfl⟩ := List.cons.inj heq
      exact ⟨s, s', r, next⟩
    · exact ih hp

theorem Run.after_step {s s' s'' : Pair ρ σ} {e : Party × Exchange} {h : List (Party × Exchange)}
    (hs : Step bound s e s') (r : Run bound s' h s'') : Run bound s (h ++ [e]) s'' := by
  induction r with
  | start => exact .step .start hs
  | step _ next ih => exact ih.step next

/-- Programs of which one can always go on come to their ends. -/
theorem exists_run_over {P : Pair ρ σ → Prop} (hstep : ∀ s e s', P s → Step bound s e s' → P s')
    (hnext : ∀ s, P s → ¬ s.Over → ∃ e s', Step bound s e s') (s : Pair ρ σ) (hs : P s) :
    ∃ h s', Run bound s h s' ∧ s'.Over := by
  induction s using (@step_wellFounded ρ σ bound).induction with
  | _ s ih =>
    by_cases hover : s.Over
    · exact ⟨[], s, .start, hover⟩
    · obtain ⟨e, s₁, hs₁⟩ := hnext s hs hover
      obtain ⟨h, s', r, hover⟩ := ih s₁ ⟨e, hs₁⟩ (hstep s e s₁ hs hs₁)
      exact ⟨_, s', r.after_step hs₁, hover⟩

end Pair

end Hub

end ScriptEngine
