import ScriptEngine.Engine.Start
import ScriptEngine.Proofs.Evaluation.Classes
import ScriptEngine.Proofs.Evaluation.Destructuring

/-!
# Declarations that fail

Nothing is taken back when a declaration fails. So its scope stays as it was if the value or its
hint is at fault. If the value cannot be taken apart, the names before the part that does not suit
have been defined, and a class that fails leaves its name standing for nil.
-/
namespace ScriptEngine
open Eval

/-- A statement that binds the names of a pattern. -/
structure Declaration where
  constant : Bool
  pattern : Pattern
  hint : Option String
  init : Option Expr

def Stmt.declaration? : Stmt → Option Declaration
  | .declare p hint init _ => some ⟨false, p, hint, init⟩
  | .constant p init _ => some ⟨true, p, none, some init⟩
  | _ => none

namespace Declaration

/-- The value that is taken apart. -/
def initial (d : Declaration) (ev : Evaluator) (scope : ScopeRef) : Eval Value :=
  match d.init with
  | none => Eval.pure .nil
  | some e => ev.eval e scope

/-- How a value fails the hint. Only single names with a value are held to theirs. -/
def mismatch? (d : Declaration) (v : Value) : Option Failure :=
  match d.init, d.hint, d.pattern with
  | some _, some hint, .name n =>
    match checkHint hint n v with
    | .ok () => none
    | .error f => some f
  | _, _, _ => none

/-- What follows once the value is there. -/
def settle (d : Declaration) (scope : ScopeRef) (v : Value) : Eval Unit :=
  match d.mismatch? v with
  | some f => Eval.fail f
  | none => bindPattern scope d.constant d.pattern v

end Declaration

variable {n : Nat} {s : Stmt} {d : Declaration} {scope : ScopeRef} {m m' : Machine}
  {log : List ((q : Request) × q.Answer)} {sig : Signal}

theorem declaration_apply (hs : s.declaration? = some d) (n : Nat) (scope : ScopeRef)
    (m : Machine) :
    (Evaluator.bounded (n + 1)).exec s scope m =
      (d.initial (.bounded n) scope m).bind (andThen (d.settle scope)) := by
  cases s with
  | declare p hint init pos =>
    cases hs
    cases init with
    | none => rfl
    | some e =>
      change Eval.bind ((Evaluator.bounded n).eval e scope) _ m = _
      rw [bind_apply]
      refine congrArg _ (congrArg _ (funext fun v => ?_))
      unfold Declaration.settle Declaration.mismatch?
      cases hint with
      | none => rfl
      | some hint =>
        cases p with
        | name x =>
          change Eval.bind (Eval.ofExcept (checkHint hint x v)) (fun _ => _) = _
          dsimp only
          cases checkHint hint x v <;> rfl
        | _ => rfl
  | constant p init pos =>
    cases hs
    change Eval.bind ((Evaluator.bounded n).eval init scope) _ m = _
    rw [bind_apply]
    rfl
  | _ => cases hs

/-- Every scope there is stays as it is. There may be new ones. -/
def Scopes.KeptIn {α : Type} (before after : Scopes α) : Prop :=
  ∀ r f, before.frame? r = some f → after.frame? r = some f

/-- Endings with all of these scopes as they are. -/
def Ending.KeepsScopes {α : Type} (scopes : Scopes Value) : Ending α → Prop
  | .value _ m => scopes.KeptIn m.scopes
  | .stopped _ m => scopes.KeptIn m.scopes
  | .exhausted => True

/-- The ways in which a declaration fails, with the signal and the scopes that each of them leaves:
those that the value has left, or the names before the part that does not suit on top of them. -/
inductive Declaration.Fails (d : Declaration) (initial : Talk (Ending Value)) (scope : ScopeRef)
    (scopes : Scopes Value) (log : List ((q : Request) × q.Answer)) : Signal → Scopes Value → Prop
  /-- There is no value. -/
  | value {sig : Signal} {m : Machine} (h : initial.Run log (.stopped sig m))
      (hkept : scopes.KeptIn m.scopes) : Fails d initial scope scopes log sig m.scopes
  /-- The value is not what the hint says. -/
  | hint {v : Value} {m : Machine} {f : Failure} (h : initial.Run log (.value v m))
      (hkept : scopes.KeptIn m.scopes) (hf : d.mismatch? v = some f) :
      Fails d initial scope scopes log (.failed f) m.scopes
  /-- A part of the value does not suit: the names before it are defined. -/
  | shape {v : Value} {m : Machine} {before after : List Meeting} {e : Meeting}
      (h : initial.Run log (.value v m)) (hkept : scopes.KeptIn m.scopes)
      (hf : d.mismatch? v = none) (hmet : d.pattern.meetings v m.heap = before ++ e :: after)
      (hbefore : ∀ b ∈ before, b.suits) (he : e.suits = false) :
      Fails d initial scope scopes log (.failed e.refusal)
        (m.scopes.defineAll scope d.constant (Meeting.bindings before))

theorem declaration_fails (hs : s.declaration? = some d)
    (hquiet : (d.initial (.bounded n) scope m).Every (Ending.KeepsScopes m.scopes))
    (hrun : ((Evaluator.bounded (n + 1)).exec s scope m).Run log (.stopped sig m')) :
    d.Fails (d.initial (.bounded n) scope m) scope m.scopes log sig m'.scopes := by
  rw [declaration_apply hs] at hrun
  obtain ⟨first, r, last, rfl, hfirst, hlast⟩ := Dialogue.run_bind.1 hrun
  have hkept := hquiet.of_run hfirst
  cases r with
  | exhausted => cases hlast
  | stopped sig m₁ =>
    cases hlast
    rw [List.append_nil]
    exact .value hfirst hkept
  | value v m₁ =>
    change (d.settle scope v m₁).Run last _ at hlast
    unfold Declaration.settle at hlast
    cases hmismatch : d.mismatch? v with
    | some f =>
      rw [hmismatch] at hlast
      cases hlast
      rw [List.append_nil]
      exact .hint hfirst hkept hmismatch
    | none =>
      rw [hmismatch] at hlast
      dsimp only at hlast
      rcases Meeting.suits_or_first (d.pattern.meetings v m₁.heap) with
        hsuits | ⟨before, e, after, hmet, hbefore, he⟩
      · rw [bindPattern_of_suits scope d.constant hsuits] at hlast
        cases hlast
      · rw [bindPattern_of_refused scope d.constant hmet hbefore he] at hlast
        cases hlast
        rw [List.append_nil]
        exact .shape hfirst hkept hmismatch hmet hbefore he

theorem parentClass_keepsScopes {ev : Evaluator} {parent : Option Expr}
    (hquiet : ∀ e, parent = some e → (ev.eval e scope m).Every (Ending.KeepsScopes m.scopes)) :
    (parentClass ev parent scope m).Every (Ending.KeepsScopes m.scopes) := by
  cases parent with
  | none => exact fun _ _ h => h
  | some e =>
    change (Eval.bind (ev.eval e scope) _ m).Every _
    rw [bind_apply]
    refine (ev.eval e scope m).every_bind (hquiet e rfl) fun r hr => ?_
    cases r with
    | value v m₁ => cases v <;> exact hr
    | stopped sig m₁ => exact hr
    | exhausted => trivial

/-- A `let` or `const` statement that fails, with a value that changes no scope there is, leaves the
scopes as the value has left them, except that the names of the pattern before the part that does
not suit are defined. A class declaration that fails, with a superclass that changes no scope there
is, has defined its name as nil, and the scopes are those that the superclass has left. -/
theorem failed_declarations (n : Nat) (scope : ScopeRef) (m : Machine) :
    (∀ s d, s.declaration? = some d →
      (d.initial (.bounded n) scope m).Every (Ending.KeepsScopes m.scopes) →
      ∀ log sig m', ((Evaluator.bounded (n + 1)).exec s scope m).Run log (.stopped sig m') →
        d.Fails (d.initial (.bounded n) scope m) scope m.scopes log sig m'.scopes) ∧
    ∀ name parent methods p,
      (∀ e, parent = some e → ((Evaluator.bounded n).eval e scope (m.announcing name scope)).Every
        (Ending.KeepsScopes (m.announcing name scope).scopes)) →
      ∀ log sig m',
        ((Evaluator.bounded (n + 1)).exec (.classDecl name parent methods p) scope m).Run
          log (.stopped sig m') →
        (parentClass (.bounded n) parent scope (m.announcing name scope)).Run log
            (.stopped sig m') ∧
          (m.scopes.define scope name .nil false).KeptIn m'.scopes := by
  refine ⟨fun s d hs hquiet log sig m' hrun => declaration_fails hs hquiet hrun,
    fun name parent methods p hquiet log sig m' hrun => ?_⟩
  have hparent := parentClass_keepsScopes hquiet
  change (declareClass (.bounded n) name parent methods scope m).Run log _ at hrun
  rw [declareClass_apply] at hrun
  obtain ⟨first, r, last, rfl, hfirst, hlast⟩ := Dialogue.run_bind.1 hrun
  have hkept := hparent.of_run hfirst
  cases r with
  | value p m₁ => cases hlast
  | stopped sig m₁ =>
    cases hlast
    rw [List.append_nil]
    exact ⟨hfirst, hkept⟩
  | exhausted => cases hlast

/-- What `let [a, [b]] = [true, nil];` declares. -/
def halfwayDeclaration : Declaration :=
  { constant := false
    pattern := .array [(.name "a", false), (.array [(.name "b", false)], false)]
    hint := none
    init := some (.array [(.literal (.bool true) ⟨1, 18, 17⟩, false),
      (.literal .nil ⟨1, 24, 23⟩, false)] ⟨1, 17, 16⟩) }

def halfway : Stmt :=
  .declare halfwayDeclaration.pattern none halfwayDeclaration.init ⟨1, 1, 0⟩

/-- The machine after `halfway`. -/
def halfwayEnd : Machine :=
  { Machine.bare .default with
    scopes := Scopes.define .root .global "a" (.bool true) false
    heap := ⟨#[#[.bool true, .nil]], #[]⟩ }

theorem halfway_fails :
    halfway.declaration? = some halfwayDeclaration ∧
    (halfwayDeclaration.initial (.bounded 3) .global (.bare .default)).Every
      (Ending.KeepsScopes .root) ∧
    ((Evaluator.bounded 4).exec halfway .global (.bare .default)).Run []
      (.stopped (.failed .notArrayPattern) halfwayEnd) ∧
    halfwayDeclaration.Fails (halfwayDeclaration.initial (.bounded 3) .global (.bare .default))
      .global .root [] (.failed .notArrayPattern)
      (Scopes.define .root .global "a" (.bool true) false) := by
  have hquiet : (halfwayDeclaration.initial (.bounded 3) .global (.bare .default)).Every
      (Ending.KeepsScopes .root) := fun _ _ h => h
  have hrun : ((Evaluator.bounded 4).exec halfway .global (.bare .default)).Run []
      (.stopped (.failed .notArrayPattern) halfwayEnd) := .finished _
  exact ⟨rfl, hquiet, hrun,
    (failed_declarations 3 .global (.bare .default)).1 _ _ rfl hquiet [] _ _ hrun⟩

/-- The value of `halfway` changes no scope, and the statement fails, but the name `a` that was not
there before is there afterwards. -/
theorem halfway_leaves_name :
    (∃ v m, halfwayDeclaration.initial (.bounded 3) .global (.bare .default) =
      .finished (.value v m) ∧ m.scopes = .root) ∧
    ∃ m', (Evaluator.bounded 4).exec halfway .global (.bare .default) =
        .finished (.stopped (.failed .notArrayPattern) m') ∧
      ((Machine.bare .default).scopes.frame? .global).map Frame.names = some [] ∧
      (m'.scopes.frame? .global).map Frame.names = some ["a"] :=
  ⟨⟨_, _, rfl, rfl⟩, halfwayEnd, rfl, rfl, by decide +kernel⟩

end ScriptEngine
