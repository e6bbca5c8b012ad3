import ScriptEngine.Proofs.Evaluation.Watch

/-!
# Call depth and import directories are balanced

The number of active calls goes up by one for the time of a function call, and a directory is put on
top of the others for the time of an import. Whatever an evaluation comes to, both are back to what
they were, and no activity begins with more calls active than the limit allows.
-/
namespace ScriptEngine
open Eval Regime

/-- Where evaluation stands in the nesting of calls and imports. -/
structure Level where
  depth : Nat
  importers : List Path
  settings : Settings

namespace Level

/-- One call deeper. -/
def deeper (l : Level) : Level := { l with depth := l.depth + 1 }

/-- Inside a module of this directory. -/
def inside (l : Level) (directory : Path) : Level :=
  { l with importers := directory :: l.importers }

/-- A machine stands at a level, which is not above the limit or where it all began. -/
structure Describes (base : Nat) (l : Level) (g : Ground) : Prop where
  depth : g.depth = l.depth
  importers : g.importers = l.importers
  settings : g.settings = l.settings
  limit : l.depth ≤ max base l.settings.maxCallDepth

end Level

def Machine.level (m : Machine) : Level := ⟨m.depth, m.importers, m.settings⟩

/-- Calls and imports leave the level as they found it. -/
def Regime.balanced (base : Nat) : Regime Level where
  exhaustion := .shared
  code _ := True
  opens _ := True
  assigns _ := True
  keeps l g := l.Describes base g
  inner l l' := l' = l.deeper
  child _ h := ⟨trivial, { h with }⟩
  define _ _ _ _ h := { h with }
  put _ _ _ h := { h with }
  enter := by
    intro l g h hlimit
    refine ⟨l.deeper, rfl, congrArg (· + 1) h.depth, h.importers, h.settings, ?_⟩
    have hnext : l.depth + 1 ≤ l.settings.maxCallDepth := h.depth ▸ h.settings ▸ hlimit
    exact Nat.le_trans hnext (Nat.le_max_right _ _)
  leave := by
    rintro l _ g rfl h
    refine ⟨congrArg (· - 1) h.depth, h.importers, h.settings, ?_⟩
    exact Nat.le_trans (Nat.le_succ _) h.limit

theorem balanced_imports (base : Nat) :
    (Regime.balanced base).Imports fun l l' => ∃ directory, l' = l.inside directory where
  global := trivial
  push := by
    intro l g directory h
    exact ⟨l.inside directory, ⟨directory, rfl⟩, h.depth, congrArg (directory :: ·) h.importers,
      h.settings, h.limit⟩
  pop := by
    rintro l _ g ⟨directory, rfl⟩ h
    exact ⟨h.depth, congrArg List.tail h.importers, h.settings, h.limit⟩

/-- More calls are active than the limit allows, and than there were at the beginning. -/
def beyond (base : Nat) : Evaluator.Activity → Machine → Bool :=
  fun _ m => max base m.settings.maxCallDepth < m.depth

theorem balanced_keeps (base : Nat) (alarm : Failure) (n : Nat) (l : Level) :
    (Regime.balanced base).Keeps l (.watched (beyond base) alarm n) (.bounded n) := by
  rw [← Evaluator.watched_nothing alarm n]
  refine watched_keeps rfl (fun _ => trivial) (fun _ => trivial) (fun l a m hm => ?_)
    (.inl ⟨_, balanced_imports base⟩) n l
  have hdepth : m.depth = l.depth := hm.1.depth
  have hsettings : m.settings = l.settings := hm.1.settings
  have hlimit := hm.1.limit
  rw [beyond, hdepth, hsettings]
  exact decide_eq_false (Nat.not_lt.2 hlimit)

/-- The ending has the call depth and the import directories of a machine. -/
def Ending.Balanced {α : Type} (m : Machine) : Ending α → Prop
  | .value _ m' | .stopped _ m' => m'.depth = m.depth ∧ m'.importers = m.importers
  | .exhausted => True

theorem Ending.Within.balanced {α : Type} {base : Nat} {m : Machine} {V : α → Prop}
    {S : Signal → Prop} {r : Ending α}
    (h : r.Within .shared ((Regime.balanced base).Holds m.level) V S) : r.Balanced m := by
  cases r with
  | value _ m' => exact ⟨h.2.1.depth, h.2.1.importers⟩
  | stopped _ m' => exact ⟨h.2.1.depth, h.2.1.importers⟩
  | exhausted => trivial

/-- An evaluation that agrees with its watched form is balanced and never goes beyond the limit. -/
theorem balanced_of_agree {α : Type} {V : α → Prop} {S : Signal → Prop} {n : Nat} {m : Machine}
    (x : Evaluator → Eval α)
    (h : ∀ alarm, Agree .shared ((Regime.balanced m.depth).Holds m.level) V S
      (x (.watched (beyond m.depth) alarm n)) (x (.bounded n))) :
    (x (.bounded n) m).Every (Ending.Balanced m) ∧ Never (beyond m.depth) n x m := by
  have hm : (Regime.balanced m.depth).Holds m.level m :=
    ⟨⟨rfl, rfl, rfl, Nat.le_max_left _ _⟩, m.madeOf_any⟩
  have hsame (alarm : Failure) : x (.watched (beyond m.depth) alarm n) m = x (.bounded n) m :=
    (h alarm m hm).eq nofun
  refine ⟨?_, hsame⟩
  rw [← hsame (.exit 0)]
  exact Dialogue.every_mono ((h (.exit 0)).every hm) fun _ hr => hr.balanced

/-- Every expression, statement and call leaves the call depth and the import directories as they
were, however it ends. No activity on the way begins with more calls active than the limit allows,
unless there were that many already. -/
theorem bookkeeping_balanced (n : Nat) (m : Machine) :
    (∀ e scope, ((Evaluator.bounded n).eval e scope m).Every (Ending.Balanced m) ∧
      Never (beyond m.depth) n (fun ev => ev.eval e scope) m) ∧
    (∀ s scope, ((Evaluator.bounded n).exec s scope m).Every (Ending.Balanced m) ∧
      Never (beyond m.depth) n (fun ev => ev.exec s scope) m) ∧
    (∀ callee args, ((Evaluator.bounded n).call callee args m).Every (Ending.Balanced m) ∧
      Never (beyond m.depth) n (fun ev => ev.call callee args) m) := by
  have h (alarm : Failure) := balanced_keeps m.depth alarm n m.level
  refine ⟨fun e scope => ?_, fun s scope => ?_, fun callee args => ?_⟩
  · exact balanced_of_agree (fun ev => ev.eval e scope) fun alarm => (h alarm).eval e scope
  · exact balanced_of_agree (fun ev => ev.exec s scope) fun alarm => (h alarm).exec s trivial
  · exact balanced_of_agree (fun ev => ev.call callee args) fun alarm =>
      (h alarm).call callee args callee.madeOf_any fun v _ => v.madeOf_any

end ScriptEngine
