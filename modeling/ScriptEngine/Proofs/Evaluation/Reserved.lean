import ScriptEngine.Proofs.Evaluation.Watch
import ScriptEngine.Proofs.Grammar.Precedence
import ScriptEngine.Proofs.Scope.Outward

/-!
# Frames of reserved words

No program assigns to a reserved word, as its assignments are to names. So a frame that binds
reserved words only, in which no statement is executed, stays as it is for good.
-/
namespace ScriptEngine
open Eval Regime

variable {α : Type}

namespace Frame

variable {f : Frame α}

/-- All names that a frame binds are reserved words. -/
def Reserved (f : Frame α) : Prop := ∀ name ∈ f.names, ¬ Unreserved name

/-- Names that are bound stay bound when another one is defined. -/
theorem Reserved.of_define {name : String} {v : α} {constant : Bool}
    (h : (f.define name v constant).Reserved) : f.Reserved := by
  intro other hother
  refine h other ?_
  rw [names_define]
  split
  · exact hother
  · exact List.mem_append_left _ hother

theorem Reserved.of_update {i : Nat} {v : α} (h : (f.update i v).Reserved) : f.Reserved := by
  rwa [Reserved, names_update] at h

end Frame

/-- Frames of reserved words are as before, but for those of open scopes, and the others still bind
other names, too. -/
structure Scopes.KeepsReserved (isOpen : ScopeRef → Prop) (s t : Scopes α) : Prop where
  size_le : s.size ≤ t.size
  frame {r : ScopeRef} {f : Frame α} : ¬ isOpen r → s.frame? r = some f → f.Reserved →
    t.frame? r = some f
  mixed {r : ScopeRef} {f : Frame α} : s.frame? r = some f → ¬ f.Reserved →
    ∃ g, t.frame? r = some g ∧ ¬ g.Reserved

namespace Scopes.KeepsReserved

variable {isOpen : ScopeRef → Prop} {s t : Scopes α}

theorem refl (s : Scopes α) : s.KeepsReserved isOpen s :=
  ⟨Nat.le_refl _, fun _ hf _ => hf, fun hf hmixed => ⟨_, hf, hmixed⟩⟩

theorem push (h : s.KeepsReserved isOpen t) (g : Frame α) :
    Scopes.KeepsReserved isOpen s (t.push g) where
  size_le := by simpa using Nat.le_succ_of_le h.size_le
  frame hr hf hreserved := Scopes.frame?_push g (h.frame hr hf hreserved)
  mixed hf hmixed := by
    obtain ⟨f', hf', hmixed'⟩ := h.mixed hf hmixed
    exact ⟨f', Scopes.frame?_push g hf', hmixed'⟩

/-- Changing another frame makes no difference to those of reserved words. -/
theorem modify (h : s.KeepsReserved isOpen t) {i : Nat} {change : Frame α → Frame α}
    (hi : ∀ r f, ¬ isOpen r → s.frame? r = some f → f.Reserved → i ≠ r.index)
    (hchange : ∀ f, (change f).Reserved → f.Reserved) :
    Scopes.KeepsReserved isOpen s (t.modify i change) where
  size_le := by simpa using h.size_le
  frame {r f} hr hf hreserved := by
    rw [Scopes.frame?, Array.getElem?_modify, if_neg (hi r f hr hf hreserved)]
    exact h.frame hr hf hreserved
  mixed {r f} hf hmixed := by
    obtain ⟨g, hg, hmixed'⟩ := h.mixed hf hmixed
    rw [Scopes.frame?] at hg
    rw [Scopes.frame?, Array.getElem?_modify]
    split
    · exact ⟨change g, by simp [hg], fun hreserved => hmixed' (hchange g hreserved)⟩
    · exact ⟨g, hg, hmixed'⟩

/-- Names are defined in open scopes and in frames that were not there. -/
theorem define (h : s.KeepsReserved isOpen t) {r : ScopeRef} (hr : isOpen r ∨ s.size ≤ r.index)
    (name : String) (v : α) (constant : Bool) :
    s.KeepsReserved isOpen (t.define r name v constant) := by
  refine h.modify (fun r' f hclosed hf _ heq => ?_) fun f => Frame.Reserved.of_define
  have hsame : r = r' := congrArg ScopeRef.mk heq
  subst hsame
  have hlt := (Array.getElem?_eq_some_iff.1 hf).1
  rcases hr with hopen | hnew
  · exact hclosed hopen
  · omega

/-- The place of a name that is no reserved word is in another frame. -/
theorem put (h : s.KeepsReserved isOpen t) {r : ScopeRef} {name : String} {place : ScopeRef × Nat}
    (hname : Unreserved name) (hplace : t.target r name = .ok place) (v : α) :
    s.KeepsReserved isOpen (t.put place v) := by
  refine h.modify (fun r' f hclosed hf hreserved heq => ?_) fun f => Frame.Reserved.of_update
  have hfound : t.place? r name = some place := by
    unfold Scopes.target at hplace
    grind
  obtain ⟨g, hg, hslot⟩ := Scopes.exists_frame_of_place? hfound
  have hsame : place.1 = r' := congrArg ScopeRef.mk heq
  rw [hsame, h.frame hclosed hf hreserved] at hg
  cases hg
  exact hreserved name (Frame.mem_names_of_slot? hslot) hname

end Scopes.KeepsReserved

/-- Assignments are to names only, and names are defined in open scopes and new frames. -/
def Regime.naming (isOpen : ScopeRef → Prop) (s : Scopes Value) : Regime Unit where
  exhaustion := .shared
  code := Function.AssignsOnly Unreserved
  opens r := isOpen r ∨ s.size ≤ r.index
  assigns := Unreserved
  keeps _ g := s.KeepsReserved isOpen g.scopes
  inner _ _ := True
  child _ h := ⟨.inr h.size_le, h.push _⟩
  define name v constant hr h := h.define hr name v constant
  put v hname hplace h := h.put hname hplace v
  enter h _ := ⟨(), trivial, h⟩
  leave _ h := h

theorem naming_covers (isOpen : ScopeRef → Prop) (s : Scopes Value) :
    (Regime.naming isOpen s).Covers (Expr.AssignsOnly Unreserved)
      (Stmt.AssignsOnly Unreserved) where
  exprParts := by rintro e ⟨-, hparts, -⟩; exact hparts
  exprFunctions := by rintro e ⟨-, -, hfunctions⟩; exact hfunctions
  assigned := by rintro e ⟨hown, -, -⟩; exact hown
  stmtExprs := by rintro s ⟨hexprs, -, -⟩; exact hexprs
  stmtParts := by rintro s ⟨-, hparts, -⟩; exact hparts
  stmtFunctions := by rintro s ⟨-, -, hfunctions⟩; exact hfunctions
  defaults := by rintro f ⟨hdefaults, -⟩; exact hdefaults
  body := by rintro f ⟨-, hbody⟩; exact hbody

theorem naming_imports {isOpen : ScopeRef → Prop} (hglobal : isOpen .global) (s : Scopes Value) :
    (Regime.naming isOpen s).Imports fun _ _ => True where
  global := .inl hglobal
  push _ h := ⟨(), trivial, h⟩
  pop _ h := h

/-- Every program that can be parsed assigns to names only. -/
theorem parse_assigns {tokens : List Token} {origin : Text.Position} {source : String}
    {program : Program} (hscan : Token.scanAt origin source = .ok tokens)
    (h : Grammar.parseTokens tokens = .ok program) :
    ∀ s ∈ program, s.AssignsOnly Unreserved :=
  fun s hs => (Grammar.parseTokens_regular (fun _ h => h) (scanAt_names hscan) h s hs).assigns

theorem Stmt.InModule.assigns {s : Stmt} (h : s.InModule) : s.AssignsOnly Unreserved := by
  obtain ⟨path, contents, program, hparse, hs⟩ := h
  unfold Module.parse at hparse
  split at hparse
  next => cases hparse
  next source =>
    split at hparse
    next => cases hparse
    next tokens hscan => exact parse_assigns hscan (Grammar.ok_of_mapError hparse) s hs

theorem naming_keeps {isOpen : ScopeRef → Prop} (hglobal : isOpen .global) {s : Scopes Value}
    {notice : Evaluator.Activity → Machine → Bool}
    (hnotice : ∀ a m, (Regime.naming isOpen s).Holds () m → notice a m = false) (alarm : Failure)
    (n : Nat) :
    (Regime.naming isOpen s).KeepsOn (Expr.AssignsOnly Unreserved) (Stmt.AssignsOnly Unreserved) ()
      (.watched notice alarm n) (.bounded n) := by
  rw [← Evaluator.watched_nothing alarm n]
  refine covered_keeps rfl (naming_covers isOpen s) (fun _ a m _ hm => hnotice a m hm)
    (fun t _ _ => .inr ⟨⟨_, naming_imports hglobal s⟩, fun _ ht => ht.assigns⟩) n ()

theorem bounded_naming_keeps (isOpen : ScopeRef → Prop) (hglobal : isOpen .global)
    (s : Scopes Value) (n : Nat) :
    (Regime.naming isOpen s).KeepsOn (Expr.AssignsOnly Unreserved) (Stmt.AssignsOnly Unreserved) ()
      (.bounded n) (.bounded n) := by
  have hquiet (a : Evaluator.Activity) (m : Machine) (_ : (Regime.naming isOpen s).Holds () m) :
      (fun _ _ => false : Evaluator.Activity → Machine → Bool) a m = false := rfl
  have hkeeps := naming_keeps hglobal hquiet (.exit 0) n
  rwa [Evaluator.watched_nothing] at hkeeps

end ScriptEngine
