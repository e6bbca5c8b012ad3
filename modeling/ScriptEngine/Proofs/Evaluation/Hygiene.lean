import ScriptEngine.Engine.Start
import ScriptEngine.Proofs.Evaluation.Watch

/-!
# Scope hygiene

A table of frames is stable from one moment to a later one when every frame keeps the scope around
it, its names in their order and its constants. Values of other names may have changed, and frames
may have been added. Assignments keep tables stable, and so do definitions in frames that are new.

Expressions and blocks only define names in frames that they add themselves, so the table that was
there before stays stable. Only an import defines names elsewhere, namely in the global frame.
-/
namespace ScriptEngine

/-! Stable tables -/

section

variable {α : Type}

/-- The binding has the same name and is a constant as before; a constant has its old value. -/
structure Binding.Stable (before after : Binding α) : Prop where
  name : after.name = before.name
  constant : after.constant = before.constant
  value : before.constant → after.value = before.value

structure Frame.Stable (before after : Frame α) : Prop where
  parent : after.parent = before.parent
  size : after.bindings.size = before.bindings.size
  binding (k : Nat) (b : Binding α) : before.bindings[k]? = some b →
    ∃ c, after.bindings[k]? = some c ∧ b.Stable c

/-- Every frame of the first table is a stable frame of the second. -/
def Scopes.Stable (before after : Scopes α) : Prop :=
  ∀ (k : Nat) (f : Frame α), before[k]? = some f → ∃ g, after[k]? = some g ∧ f.Stable g

theorem Binding.Stable.refl (b : Binding α) : b.Stable b := ⟨rfl, rfl, fun _ => rfl⟩

theorem Binding.Stable.trans {a b c : Binding α} (h : a.Stable b) (h' : b.Stable c) :
    a.Stable c where
  name := h'.name.trans h.name
  constant := h'.constant.trans h.constant
  value hc := (h'.value (h.constant ▸ hc)).trans (h.value hc)

namespace Frame.Stable

theorem refl (f : Frame α) : f.Stable f := ⟨rfl, rfl, fun _ b hb => ⟨b, hb, .refl b⟩⟩

theorem trans {f g h : Frame α} (hf : f.Stable g) (hg : g.Stable h) : f.Stable h where
  parent := hg.parent.trans hf.parent
  size := hg.size.trans hf.size
  binding k b hb := by
    obtain ⟨c, hc, hbc⟩ := hf.binding k b hb
    obtain ⟨d, hd, hcd⟩ := hg.binding k c hc
    exact ⟨d, hd, hbc.trans hcd⟩

/-- The names of a stable frame, in their order. -/
theorem names {f g : Frame α} (h : f.Stable g) : g.names = f.names := by
  refine List.ext_getElem? fun k => ?_
  simp only [Frame.names, List.getElem?_map, Array.getElem?_toList]
  cases hb : f.bindings[k]? with
  | none =>
    have hk : g.bindings.size ≤ k := h.size ▸ Array.getElem?_eq_none_iff.1 hb
    simp [hk]
  | some b =>
    obtain ⟨c, hc, hbc⟩ := h.binding k b hb
    simp [hc, hbc.name]

/-- A value may change at a place that holds no constant. -/
theorem update {f : Frame α} {i : Nat} (h : ∀ b, f.bindings[i]? = some b → b.constant = false)
    (v : α) : f.Stable (f.update i v) where
  parent := rfl
  size := by simp [Frame.update]
  binding k b hb := by
    simp only [Frame.update, Array.getElem?_modify]
    split
    next hk =>
      subst hk
      refine ⟨{ b with value := v }, by simp [hb], rfl, rfl, fun hc => ?_⟩
      simp [h b hb] at hc
    next => exact ⟨b, hb, .refl b⟩

end Frame.Stable

namespace Scopes.Stable

variable {s t : Scopes α}

theorem refl (s : Scopes α) : Scopes.Stable s s := fun _ f hf => ⟨f, hf, .refl f⟩

theorem trans {u : Scopes α} (h : Scopes.Stable s t) (h' : Scopes.Stable t u) :
    Scopes.Stable s u := by
  intro k f hf
  obtain ⟨g, hg, hfg⟩ := h k f hf
  obtain ⟨w, hw, hgw⟩ := h' k g hg
  exact ⟨w, hw, hfg.trans hgw⟩

/-- A stable table has no fewer frames. -/
theorem size_le (h : Scopes.Stable s t) : s.size ≤ t.size := by
  by_cases hs : s.size = 0
  · omega
  · obtain ⟨g, hg, -⟩ := h (s.size - 1) s[s.size - 1] (by simp)
    have := (Array.getElem?_eq_some_iff.1 hg).1
    omega

theorem child (s : Scopes α) (r : ScopeRef) : Scopes.Stable s (s.child r).2 := by
  intro k f hf
  have hk := (Array.getElem?_eq_some_iff.1 hf).1
  exact ⟨f, by simpa [Scopes.child, Array.getElem?_push, Nat.ne_of_lt hk] using hf, .refl f⟩

/-- Changing one frame leaves the others alone. -/
theorem modify {i : Nat} {change : Frame α → Frame α}
    (h : ∀ f, s[i]? = some f → f.Stable (change f)) : Scopes.Stable s (s.modify i change) := by
  intro k f hf
  rw [Array.getElem?_modify]
  split
  next hk =>
    subst hk
    exact ⟨change f, by simp [hf], h f hf⟩
  next => exact ⟨f, hf, .refl f⟩

/-- An assignment finds no constant at the place that it changes. -/
theorem put {r : ScopeRef} {name : String} {place : ScopeRef × Nat}
    (h : s.target r name = .ok place) (v : α) : Scopes.Stable s (s.put place v) := by
  refine modify fun f hf => Frame.Stable.update (fun b hb => ?_) v
  unfold Scopes.target at h
  split at h
  next => cases h
  next holder i _ =>
    split at h
    next => cases h
    next hconst =>
      cases h
      have hbinding : s.binding? holder i = some b := by
        simp [Scopes.binding?, Scopes.frame?, hf, hb]
      simpa [hbinding] using hconst

/-- Definitions in a frame that was not there change no frame that was. -/
theorem define {r : ScopeRef} (hr : s.size ≤ r.index) (h : Scopes.Stable s t) (name : String)
    (v : α) (constant : Bool) : Scopes.Stable s (t.define r name v constant) := by
  intro k f hf
  obtain ⟨g, hg, hfg⟩ := h k f hf
  have hk := (Array.getElem?_eq_some_iff.1 hf).1
  refine ⟨g, ?_, hfg⟩
  rw [Scopes.define, Array.getElem?_modify, if_neg (by omega)]
  exact hg

end Scopes.Stable

end

/-! What evaluation keeps -/

open Eval Regime

/-- The frames of a table stay stable, as names are only defined in frames that it does not have. -/
def Regime.stable (s : Scopes Value) : Regime Unit where
  exhaustion := .shared
  code _ := True
  opens r := s.size ≤ r.index
  assigns _ := True
  keeps _ g := Scopes.Stable s g.scopes
  inner _ _ := True
  child r h := ⟨h.size_le, h.trans (.child _ r)⟩
  define name v constant hr h := h.define hr name v constant
  put v _ ht h := h.trans (.put ht v)
  enter h _ := ⟨(), trivial, h⟩
  leave _ h := h

/-- The frames of a table are stable in the machine that an evaluation ends with. -/
def Ending.KeepsFrames {α : Type} (s : Scopes Value) : Ending α → Prop
  | .value _ m | .stopped _ m => Scopes.Stable s m.scopes
  | .exhausted => True

theorem Ending.Within.keepsFrames {α : Type} {s : Scopes Value} {V : α → Prop}
    {S : Signal → Prop} {r : Ending α}
    (h : r.Within .shared ((Regime.stable s).Holds ()) V S) : r.KeepsFrames s := by
  cases r with
  | value a m => exact h.2.1
  | stopped signal m => exact h.2.1
  | exhausted => trivial

/-- An evaluator that refuses imports keeps all frames. -/
theorem refusing_keeps (s : Scopes Value) (alarm : Failure) (n : Nat) :
    (Regime.stable s).Keeps () (.watched importing alarm n) (.watched importing alarm n) :=
  watched_keeps rfl (fun _ => trivial) (fun _ => trivial) (fun _ _ _ _ => rfl)
    (.inr fun _ _ _ h => h) n ()

/-- Evaluating an expression or executing a block without executing an import keeps all frames that
were there, however it ends. -/
theorem frames_stable_without_import (n : Nat) (m : Machine) :
    (∀ e scope log r, RunsWithout importing n (fun ev => ev.eval e scope) m log r →
      r.KeepsFrames m.scopes) ∧
    (∀ body p scope log r, RunsWithout importing n (fun ev => ev.exec (.block body p) scope) m
      log r → r.KeepsFrames m.scopes) := by
  have hm : (Regime.stable m.scopes).Holds () m := ⟨.refl _, m.madeOf_any⟩
  have hkeeps := refusing_keeps m.scopes (.exit 0) n
  refine ⟨fun e scope log r hr => ?_, fun body p scope log r hr => ?_⟩
  · exact ((hkeeps.eval e scope).every hm).of_run (hr.2 _) |>.keepsFrames
  · exact ((hkeeps.block body p scope).every hm).of_run (hr.2 _) |>.keepsFrames

/-- Code without import statements does not execute any, so it keeps all frames. -/
theorem frames_stable_of_lacks (n : Nat) {m : Machine}
    (hm : m.MadeOf (Function.Lacks Stmt.isImport)) :
    (∀ e : Expr, e.Lacks Stmt.isImport → ∀ scope,
      ((Evaluator.bounded n).eval e scope m).Every (Ending.KeepsFrames m.scopes)) ∧
    (∀ body p, (Stmt.block body p).Lacks Stmt.isImport → ∀ scope,
      ((Evaluator.bounded n).exec (.block body p) scope m).Every
        (Ending.KeepsFrames m.scopes)) := by
  have hcode : (Regime.ofCode .shared (Function.Lacks Stmt.isImport)).Holds () m := ⟨trivial, hm⟩
  have hstable : (Regime.stable m.scopes).Holds () m := ⟨.refl _, m.madeOf_any⟩
  have hkeeps := refusing_keeps m.scopes (.exit 0) n
  obtain ⟨heval, hexec, -⟩ := importing_agree (.exit 0) n
  refine ⟨fun e he scope => ?_, fun body p hb scope => ?_⟩
  · rw [← (heval e he scope m hcode).eq nofun]
    exact Dialogue.every_mono ((hkeeps.eval e scope).every hstable) fun _ hr => hr.keepsFrames
  · rw [← (hexec _ hb scope m hcode).eq nofun]
    exact Dialogue.every_mono ((hkeeps.block body p scope).every hstable) fun _ hr => hr.keepsFrames

/-- The call `(fn() { { return true; } })()`, which adds a frame for the function and one for the
block in it. -/
def nestedReturn : Expr :=
  .call (.grouping (.function (.mk "" [] [.block [.return (some (.literal (.bool true) ⟨1, 18, 17⟩))
    ⟨1, 11, 10⟩] ⟨1, 9, 8⟩] false none ⟨1, 2, 1⟩)) ⟨1, 1, 0⟩) [] ⟨1, 28, 27⟩

theorem nestedReturn_keeps_globals : ∃ m : Machine,
    (Evaluator.bounded 6).eval nestedReturn .global (.fresh .default) =
      .finished (.value (.bool true) m) ∧
    Scopes.Stable (Machine.fresh .default).scopes m.scopes :=
  ⟨_, rfl, (frames_stable_without_import 6 (.fresh .default)).1 nestedReturn .global [] _
    ⟨.finished _, fun _ => .finished _⟩⟩

end ScriptEngine
