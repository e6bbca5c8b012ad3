/-!
# Dialogues

A dialogue is a computation that stops at every request and goes on with the answer. It is a tree:
requests inside, results at the leaves, one branch for each answer. Whoever runs it decides what the
answers are and what happens in between.
-/
namespace ScriptEngine

/-- Dialogues whose requests `q` are answered by an `Answer q`. -/
inductive Dialogue {κ : Type} (Answer : κ → Type) (ρ : Type) where
  | finished (result : ρ)
  | asking (request : κ) (next : Answer request → Dialogue Answer ρ)

namespace Dialogue

variable {κ : Type} {Answer : κ → Type} {ρ σ τ : Type}

/-- Goes on with a second dialogue where the first one ends. -/
def bind (d : Dialogue Answer ρ) (f : ρ → Dialogue Answer σ) : Dialogue Answer σ :=
  match d with
  | finished r => f r
  | asking q next => asking q fun a => (next a).bind f

/-- Asks once. -/
def ask (q : κ) : Dialogue Answer (Answer q) := asking q finished

instance : Monad (Dialogue Answer) where
  pure := finished
  bind := bind

@[simp]
theorem finished_bind (r : ρ) (f : ρ → Dialogue Answer σ) : (finished r).bind f = f r := rfl

@[simp]
theorem bind_finished (d : Dialogue Answer ρ) : d.bind finished = d := by
  induction d with
  | finished r => rfl
  | asking q next ih => simp [bind, ih]

theorem bind_assoc (d : Dialogue Answer ρ) (f : ρ → Dialogue Answer σ)
    (g : σ → Dialogue Answer τ) : (d.bind f).bind g = d.bind fun r => (f r).bind g := by
  induction d with
  | finished r => rfl
  | asking q next ih => simp [bind, ih]

/-- Whether all results a dialogue can come to have a property. -/
def Every (P : ρ → Prop) : Dialogue Answer ρ → Prop
  | finished r => P r
  | asking _ next => ∀ a, (next a).Every P

theorem every_bind {P : ρ → Prop} {Q : σ → Prop} {f : ρ → Dialogue Answer σ}
    (d : Dialogue Answer ρ) (h : d.Every P) (hf : ∀ r, P r → (f r).Every Q) :
    (d.bind f).Every Q := by
  induction d with
  | finished r => exact hf r h
  | asking q next ih => exact fun a => ih a (h a)

end Dialogue

end ScriptEngine
