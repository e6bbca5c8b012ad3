import ScriptEngine.Evaluation.Statement
import ScriptEngine.Proofs.Evaluation.Expression
import ScriptEngine.Proofs.Library.Surroundings

/-!
# Executing a statement keeps a regime

A statement defines names in its own scope, which therefore has to be open, and executes its parts
in this scope or in fresh ones. A block only uses a fresh one. Loops and imports are told apart from
all other statements, since they repeat code or bring in new one.
-/
namespace ScriptEngine
open Eval Regime

namespace Regime

variable {ι : Type}

/-- Signals that leave a loop. -/
def Escapes (R : Regime ι) : Signal → Prop
  | .returned v | .thrown v => R.Sound v
  | .failed _ => True
  | .broke | .continued => False

/-- A regime under which modules may run: they define their names in the global scope, and imports
are relative to their directory. -/
structure Imports (R : Regime ι) (inside : ι → ι → Prop) : Prop where
  global : R.opens .global
  push {i : ι} {g : Ground} (directory : Path) : R.keeps i g →
    ∃ j, inside i j ∧ R.keeps j { g with importers := directory :: g.importers }
  pop {i j : ι} {g : Ground} : inside i j → R.keeps j g →
    R.keeps i { g with importers := g.importers.tail }

end Regime

variable {ι : Type} {R : Regime ι} {i : ι} {ev ev' : Evaluator} {scope : ScopeRef}

theorem Regime.Escapes.passes {s : Signal} (h : R.Escapes s) : R.Passes s := by
  cases s with
  | returned v | thrown v => exact h
  | _ => trivial

theorem Regime.Leaves.escapes {s : Signal} (h : R.Leaves s) : R.Escapes s := by
  cases s with
  | thrown v => exact h
  | failed f => trivial
  | _ => exact h.elim

/-! Patterns -/

theorem getD_sound {items : Array Value} (hi : ∀ v ∈ items, R.Sound v) (k : Nat) :
    R.Sound (items.getD k .nil) := by
  rw [Array.getD_eq_getD_getElem?]
  cases hv : items[k]? with
  | none => trivial
  | some v => exact hi v (Array.mem_of_getElem? hv)

mutual

theorem bindPattern_gives (hs : R.opens scope) (constant : Bool) :
    ∀ (p : Pattern) {v : Value}, R.Sound v →
      R.Gives i (fun _ => True) (bindPattern scope constant p v) (bindPattern scope constant p v)
  | .name n, v, hv => by
    rw [bindPattern]
    exact define_gives hs n hv constant
  | .literal l, v, _ => by
    rw [bindPattern]
    exact Agree.pure trivial
  | .array elements, v, hv => by
    unfold bindPattern
    split
    next r =>
      exact Agree.bind (readArray_gives r) fun items hi =>
        bindElements_gives hs constant hi elements 0
    next => exact fail_gives _
  | .object fields, v, hv => by
    unfold bindPattern
    split
    next r => exact bindFields_gives hs constant r fields
    next => exact fail_gives _

theorem bindElements_gives (hs : R.opens scope) (constant : Bool) {items : Array Value}
    (hi : ∀ v ∈ items, R.Sound v) : ∀ (elements : List (Pattern × Bool)) (k : Nat),
      R.Gives i (fun _ => True) (bindElements scope constant items elements k)
        (bindElements scope constant items elements k)
  | [], k => by
    rw [bindElements]
    exact Agree.pure trivial
  | (p, spread) :: rest, k => by
    rw [bindElements]
    refine Agree.bind (V := R.Sound) ?_ fun part hpart =>
      Agree.bind (bindPattern_gives hs constant p hpart) fun _ _ =>
        bindElements_gives hs constant hi rest (k + 1)
    split
    · refine newArray_evals fun v hv => hi v ?_
      obtain ⟨k, hk, rfl⟩ := Array.mem_extract_iff_getElem.1 hv
      exact Array.getElem_mem _
    · exact Agree.pure (getD_sound hi k)

theorem bindFields_gives (hs : R.opens scope) (constant : Bool) (r : InstanceRef) :
    ∀ fields : List (String × Pattern), R.Gives i (fun _ => True)
      (bindFields scope constant r fields) (bindFields scope constant r fields)
  | [] => by
    rw [bindFields]
    exact Agree.pure trivial
  | (key, p) :: rest => by
    rw [bindFields]
    refine Agree.bind (Agree.read fun m hm => hm.2.heap.field (.object r) key) fun part hpart => ?_
    exact Agree.bind (bindPattern_gives hs constant p hpart) fun _ _ =>
      bindFields_gives hs constant r rest

end

/-! Statement by statement -/

theorem execAll_execs {body : List Stmt}
    (h : ∀ s ∈ body, R.Execs i (ev.exec s scope) (ev'.exec s scope)) :
    R.Execs i (ev.execAll body scope) (ev'.execAll body scope) :=
  Agree.forEach h

/-- Evaluating an expression on the way passes its signals on. -/
theorem bind_execs {e : Expr} {f f' : Value → Eval Unit}
    (he : R.Evals i (ev.eval e scope) (ev'.eval e scope))
    (hf : ∀ v, R.Sound v → R.Execs i (f v) (f' v)) :
    R.Execs i (Eval.bind (ev.eval e scope) f) (Eval.bind (ev'.eval e scope) f') :=
  Agree.bind (he.signals fun _ => Leaves.passes) hf

/-- Whatever is executed in a fresh scope may define names there. -/
theorem childScope_execs {f f' : ScopeRef → Eval Unit}
    (h : ∀ inner, R.opens inner → R.Execs i (f inner) (f' inner)) :
    R.Execs i (Eval.bind (Eval.childScope scope) f) (Eval.bind (Eval.childScope scope) f') :=
  Agree.bind ((childScope_gives scope).signals fun _ => Leaves.passes) h

/-- A block opens a scope of its own, wherever it stands. -/
theorem block_execs {body : List Stmt} {p : Text.Position} {n n' : Nat}
    (h : ∀ s ∈ body, ∀ inner, R.opens inner → R.Execs i (ev.exec s inner) (ev'.exec s inner)) :
    R.Execs i (execStep n ev (.block body p) scope) (execStep n' ev' (.block body p) scope) := by
  unfold execStep
  exact childScope_execs fun inner hinner => execAll_execs fun s hs => h s hs inner hinner

theorem parentClass_gives {parent : Option Expr}
    (h : ∀ e ∈ parent.toList, R.Evals i (ev.eval e scope) (ev'.eval e scope)) :
    R.Gives i (fun o => ∀ c : Class, o = some c → c.MadeOf R.code) (parentClass ev parent scope)
      (parentClass ev' parent scope) := by
  unfold parentClass
  cases parent with
  | none => exact Agree.pure (by simp)
  | some e =>
    refine Agree.bind (h e (by simp)) fun v hv => ?_
    cases v with
    | type cls => exact Agree.pure fun c hc => Option.some.inj hc ▸ hv
    | _ => exact fail_gives _

theorem methodScope_gives {parent : Option Class} (h : ∀ c, parent = some c → c.MadeOf R.code) :
    R.Gives i (fun _ => True) (methodScope parent scope) (methodScope parent scope) := by
  unfold methodScope
  cases parent with
  | none => exact Agree.pure trivial
  | some cls =>
    refine Agree.bind (childScope_gives scope) fun inner hinner => ?_
    refine Agree.bind (define_gives hinner "super" (v := .type cls) (h cls rfl) false) ?_
    exact fun _ _ => Agree.pure trivial

theorem declareClass_gives (hs : R.opens scope) {name : String} {parent : Option Expr}
    {methods : List Function} (hm : ∀ f ∈ methods, R.code f)
    (hp : ∀ e ∈ parent.toList, R.Evals i (ev.eval e scope) (ev'.eval e scope)) :
    R.Gives i (fun _ => True) (declareClass ev name parent methods scope)
      (declareClass ev' name parent methods scope) := by
  unfold declareClass
  refine Agree.bind (define_gives hs name (v := .nil) trivial false) fun _ _ => ?_
  refine Agree.bind (parentClass_gives hp) fun parent hparent => ?_
  refine Agree.bind (methodScope_gives hparent) fun inner _ => ?_
  refine Agree.bind freshId_gives fun id _ => define_gives hs name ?_ false
  refine Class.madeOf_mk (fun e he => ?_) hparent
  obtain ⟨f, hf, rfl⟩ := List.mem_map.1 he
  exact hm f (List.mem_reverse.1 hf)

theorem caught?_sound {s : Signal} (hs : R.Passes s) {v : Value} (h : s.caught? = some v) :
    R.Sound v := by
  cases s with
  | thrown w => exact Option.some.inj h ▸ hs
  | failed f =>
    rw [Signal.caught?] at h
    split at h
    · cases h
      trivial
    · cases h
  | _ => cases h

theorem runHandler_execs {handler : Stmt} (name : String) {caught : Value} (hc : R.Sound caught)
    (h : ∀ inner, R.opens inner → R.Execs i (ev.exec handler inner) (ev'.exec handler inner)) :
    R.Execs i (runHandler ev name caught handler scope)
      (runHandler ev' name caught handler scope) := by
  unfold runHandler
  refine childScope_execs fun inner hinner => ?_
  exact Agree.bind (execs_of_gives (define_gives hinner name hc false)) fun _ _ => h inner hinner

/-- A round of a loop takes the loop words for itself. -/
theorem loopRound_agree {condition : Expr} {body : Stmt} {step : Option Expr}
    (hc : R.Evals i (ev.eval condition scope) (ev'.eval condition scope))
    (hs : ∀ e ∈ step.toList, R.Evals i (ev.eval e scope) (ev'.eval e scope))
    (hb : R.Execs i (ev.exec body scope) (ev'.exec body scope)) :
    Agree R.exhaustion (R.Holds i) (fun _ => True) R.Escapes
      (loopRound ev condition body step scope) (loopRound ev' condition body step scope) := by
  have hstep (e : Expr) (he : e ∈ step.toList) :
      Agree R.exhaustion (R.Holds i) (fun _ => True) R.Escapes
        (Eval.bind (discard (ev.eval e scope)) fun _ => Eval.pure true)
        (Eval.bind (discard (ev'.eval e scope)) fun _ => Eval.pure true) := by
    have hdrop := (Agree.discard (hs e he)).signals fun _ => Leaves.escapes
    exact Agree.bind hdrop fun _ _ => Agree.pure trivial
  unfold loopRound
  refine Agree.bind (hc.signals fun _ => Leaves.escapes) fun v _ => ?_
  split
  · exact Agree.pure trivial
  · refine Agree.bind (Agree.attempt hb) fun outcome ho => ?_
    split
    · cases step with
      | none => exact Agree.pure trivial
      | some e => exact hstep e (by simp)
    · cases step with
      | none => exact Agree.pure trivial
      | some e => exact hstep e (by simp)
    · exact Agree.pure trivial
    next signal hcontinued hbroke =>
      refine Agree.stop ?_
      cases signal with
      | broke => exact (hbroke rfl).elim
      | continued => exact (hcontinued rfl).elim
      | _ => exact ho

/-- No loop word leaves a loop. -/
theorem loop_agree {condition : Expr} {body : Stmt} {step : Option Expr} {p : Text.Position}
    {n n' : Nat} (hx : R.exhaustion ≠ .absent)
    (hn : n = n' ∨ R.exhaustion = .leading ∧ n ≤ n')
    (hc : R.Evals i (ev.eval condition scope) (ev'.eval condition scope))
    (hs : ∀ e ∈ step.toList, R.Evals i (ev.eval e scope) (ev'.eval e scope))
    (hb : R.Execs i (ev.exec body scope) (ev'.exec body scope)) :
    Agree R.exhaustion (R.Holds i) (fun _ => True) R.Escapes
      (execStep n ev (.loop condition body step p) scope)
      (execStep n' ev' (.loop condition body step p) scope) := by
  unfold execStep
  refine Agree.iterate hx hn fun _ => ?_
  exact Agree.bind (loopRound_agree hc hs hb) fun _ _ => Agree.pure trivial

/-- The statements of the program that a file holds as a module. -/
def Stmt.InModule (s : Stmt) : Prop :=
  ∃ p contents program, Module.parse p contents = .ok program ∧ s ∈ program

/-- A module keeps what its statements keep while imports are relative to its directory. -/
theorem importModule_execs {inside : ι → ι → Prop} (hR : R.Imports inside) (spec : String)
    (h : ∀ j, inside i j → ∀ s, s.InModule → R.Execs j (ev.exec s .global) (ev'.exec s .global)) :
    R.Execs i (importModule ev spec) (importModule ev' spec) := by
  unfold importModule
  refine Agree.bind ((Library.resolve_gives spec).signals fun _ => Leaves.passes) fun path _ => ?_
  have hload : R.Gives i (fun r => ∀ program, r = .ok program → ∀ s ∈ program, s.InModule)
      (loadModule path) (loadModule path) :=
    Agree.bind (askOuter_gives (.readFile path)) fun _ _ => Agree.pure fun program h s hs =>
      ⟨path, _, program, h, hs⟩
  refine Agree.bind (hload.signals fun _ => Leaves.passes) fun contents hparsed => ?_
  cases contents with
  | error e => exact execs_of_gives (fail_gives (V := fun _ => True) _)
  | ok program =>
    refine Agree.bind (V := Agree.Tried (fun _ => True) R.Passes) ?_ fun outcome ho => ?_
    · unfold importingFrom
      refine Agree.bracket fun m hm => ?_
      obtain ⟨j, hj, hk⟩ := hR.push (path.parent?.getD ⟨""⟩) hm.1
      refine ⟨R.Holds j, ⟨hk, { hm.2 with }⟩, ?_, execAll_execs fun s hs => ?_⟩
      · exact fun m hm => ⟨hR.pop hj hm.1, { hm.2 with }⟩
      · exact h j hj s (hparsed program rfl s hs)
    · cases outcome with
      | ok _ => exact Agree.pure trivial
      | error signal => exact Agree.stop ho

/-- A statement keeps what its parts keep. -/
theorem execStep_execs {s : Stmt} {n n' : Nat} (hscope : R.opens scope)
    (hexpr : ∀ e ∈ s.exprs, R.Evals i (ev.eval e scope) (ev'.eval e scope))
    (hpart : ∀ t ∈ s.parts, ∀ inner, R.opens inner →
      R.Execs i (ev.exec t inner) (ev'.exec t inner))
    (hcode : ∀ f ∈ s.functions, R.code f)
    (hloop : s.isLoop → R.exhaustion ≠ .absent ∧ (n = n' ∨ R.exhaustion = .leading ∧ n ≤ n'))
    (himport : s.isImport → ∀ spec, R.Execs i (importModule ev spec) (importModule ev' spec)) :
    R.Execs i (execStep n ev s scope) (execStep n' ev' s scope) := by
  cases s with
  | block body p => exact block_execs hpart
  | loop condition body step p =>
    have hloop := loop_agree (p := p) (hloop rfl).1 (hloop rfl).2
      (hexpr condition (by simp [Stmt.exprs])) (fun e he => hexpr e (List.mem_cons_of_mem _ he))
      (hpart body (by simp [Stmt.parts]) scope hscope)
    exact hloop.signals fun _ => Escapes.passes
  | expression e p => exact execs_of_gives (Agree.discard (hexpr e (by simp [Stmt.exprs])))
  | print e p =>
    refine bind_execs (hexpr e (by simp [Stmt.exprs])) fun v _ => ?_
    exact execs_of_gives (Agree.bind (read_gives _) fun _ _ => write_agree _ _)
  | declare p hint init q =>
    unfold execStep
    cases init with
    | none => exact execs_of_gives (bindPattern_gives hscope false p trivial)
    | some e =>
      refine bind_execs (hexpr e (by simp [Stmt.exprs])) fun v hv => ?_
      have hbind := execs_of_gives (bindPattern_gives (i := i) hscope false p hv)
      split
      · exact Agree.bind (execs_of_gives (ofExcept_gives fun _ _ => trivial)) fun _ _ => hbind
      · exact hbind
  | constant p init q =>
    refine bind_execs (hexpr init (by simp [Stmt.exprs])) fun v hv => ?_
    exact execs_of_gives (bindPattern_gives hscope true p hv)
  | branch condition yes no p =>
    refine bind_execs (hexpr condition (by simp [Stmt.exprs])) fun v _ => ?_
    split
    · exact hpart yes (by simp [Stmt.parts]) scope hscope
    · cases no with
      | none => exact Agree.pure trivial
      | some s => exact hpart s (by simp [Stmt.parts]) scope hscope
  | function decl =>
    unfold execStep
    refine execs_of_gives (V := fun _ => True) (Agree.bind freshId_gives fun id _ => ?_)
    have hsound : R.Sound (.function id decl scope) := hcode decl List.mem_cons_self
    exact define_gives hscope decl.name hsound false
  | classDecl name parent methods p => exact execs_of_gives (declareClass_gives hscope hcode hexpr)
  | «return» value p =>
    unfold execStep
    cases value with
    | none => exact Agree.stop trivial
    | some e => exact bind_execs (hexpr e (by simp [Stmt.exprs])) fun v hv => Agree.stop hv
  | throw value p => exact bind_execs (hexpr value (by simp [Stmt.exprs])) fun v hv => Agree.stop hv
  | attempt body name handler p =>
    unfold execStep
    refine Agree.bind (Agree.attempt (hpart body (by simp [Stmt.parts]) scope hscope)) ?_
    intro outcome ho
    cases outcome with
    | ok _ => exact Agree.pure trivial
    | error signal =>
      dsimp only
      split
      next v hv =>
        exact runHandler_execs name (caught?_sound ho hv) (hpart handler (by simp [Stmt.parts]))
      next => exact Agree.stop ho
  | select value arms p =>
    refine bind_execs (hexpr value (by simp [Stmt.exprs])) fun v hv => ?_
    refine Agree.bind (V := fun o => ∀ arm, o = some arm → arm ∈ arms) ?_ fun o ho => ?_
    · exact Agree.read fun m _ arm harm => List.mem_of_find?_eq_some harm
    · cases o with
      | none => exact Agree.pure trivial
      | some arm =>
        refine childScope_execs fun inner hinner => ?_
        refine Agree.bind (execs_of_gives (bindPattern_gives hinner false arm.1 hv)) fun _ _ => ?_
        exact hpart arm.2 (List.mem_map_of_mem (ho arm rfl)) inner hinner
  | load path p =>
    refine bind_execs (hexpr path (by simp [Stmt.exprs])) fun v _ => ?_
    cases v with
    | text spec => exact himport rfl spec
    | _ => exact execs_of_gives (fail_gives (V := fun _ => True) _)
  | «break» p => exact Agree.stop trivial
  | «continue» p => exact Agree.stop trivial

end ScriptEngine
