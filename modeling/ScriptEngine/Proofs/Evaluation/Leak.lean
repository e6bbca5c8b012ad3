import ScriptEngine.Proofs.Engine.Termination
import ScriptEngine.Proofs.Evaluation.Import
import ScriptEngine.Proofs.Machine.Conduct

/-!
# Control words that leave modules

Calls keep `return` to themselves, and loops `break` and `continue`. An import keeps nothing: it
ends as the program of its file does. Still the words only come from somewhere: a statement is left
by a control word if the word stands in it, or in a program that was read meanwhile, outside all
functions, and outside all loops if it is a loop word.
-/
namespace ScriptEngine
open Eval Regime

/-- The words that leave what is around them. -/
inductive ControlWord where
  | returnWord
  | loopWord (word : LoopWord)

/-- The word that a signal was caused by. -/
def Signal.word? : Signal → Option ControlWord
  | .returned _ => some .returnWord
  | .broke => some (.loopWord .breakWord)
  | .continued => some (.loopWord .continueWord)
  | .thrown _ | .failed _ => none

/-- The word that a statement consists of. -/
def Stmt.word? : Stmt → Option ControlWord
  | .return _ _ => some .returnWord
  | .break _ => some (.loopWord .breakWord)
  | .continue _ => some (.loopWord .continueWord)
  | _ => none

/-- A control word stands in a statement where nothing around it takes it: outside functions, and
outside loops if it is a loop word. -/
inductive Stmt.Bares (w : ControlWord) : Stmt → Prop
  | own {s : Stmt} (h : s.word? = some w) : Stmt.Bares w s
  | part {s t : Stmt} (ht : t ∈ s.parts) (hloop : s.isLoop = true → w = .returnWord)
      (h : Stmt.Bares w t) : Stmt.Bares w s

/-- A program was read. -/
def HasRead (log : List Exchange) (program : Program) : Prop :=
  ∃ (p : Path) (contents : Except FileError (List UInt8)),
    ⟨.outer (.readFile p), contents⟩ ∈ log ∧ programIn p contents = .ok program

/-- A program was read that has a bare control word. -/
def HasReadBare (log : List Exchange) (w : ControlWord) : Prop :=
  ∃ program, HasRead log program ∧ ∃ s ∈ program, s.Bares w

theorem HasReadBare.mono {log log' : List Exchange} {w : ControlWord} (h : HasReadBare log w)
    (hlog : log ⊆ log') : HasReadBare log' w := by
  obtain ⟨program, ⟨p, contents, hmem, hparse⟩, hbare⟩ := h
  exact ⟨program, ⟨p, contents, hlog hmem, hparse⟩, hbare⟩

variable {α β : Type}

/-- An evaluation is left by control words only if they are admitted, or bare in a program that it
has read. -/
def Eval.LeftBy (admits : ControlWord → Prop) (x : Eval α) : Prop :=
  ∀ ⦃m : Machine⦄ ⦃log : List Exchange⦄ ⦃s : Signal⦄ ⦃m' : Machine⦄ ⦃w : ControlWord⦄,
    (x m).Run log (.stopped s m') → s.word? = some w → admits w ∨ HasReadBare log w

namespace Eval.LeftBy

variable {P Q : ControlWord → Prop} {x : Eval α} {f : α → Eval β}

theorem mono (h : LeftBy P x) (hPQ : ∀ w, P w → Q w) : LeftBy Q x :=
  fun _ _ _ _ _ hrun hw => (h hrun hw).imp_left (hPQ _)

/-- What ends with values, throws and failures only is not left by control words. -/
theorem of_gives {V : α → Prop} (h : (Regime.free .shared).Gives () V x x) : LeftBy P x := by
  intro m log s m' w hrun hw
  have hs := ((h.every (free_holds .shared m)).of_run hrun).1
  cases s with
  | thrown _ | failed _ => cases hw
  | _ => exact hs.elim

theorem stop {s : Signal} (h : ∀ w, s.word? = some w → P w) : LeftBy P (Eval.stop s : Eval α) := by
  intro m log s' m' w hrun hw
  cases hrun
  exact .inl (h w hw)

theorem pure (a : α) : LeftBy P (Eval.pure a) := by
  intro m log s m' w hrun
  cases hrun

theorem bind (hx : LeftBy P x) (hf : ∀ a, LeftBy P (f a)) : LeftBy P (Eval.bind x f) := by
  intro m log s m' w hrun hw
  obtain ⟨first, e, last, rfl, hfirst, hlast⟩ := run_bind.1 hrun
  cases e with
  | value a m₁ =>
    exact (hf a hlast hw).imp_right fun h => h.mono (List.subset_append_right _ _)
  | stopped s' m₁ =>
    cases hlast
    exact (hx hfirst hw).imp_right fun h => h.mono (List.subset_append_left _ _)
  | exhausted => cases hlast

/-- What is read off the machine may be used. -/
theorem read_bind {r : Machine → α} (h : ∀ m, LeftBy P (f (r m))) :
    LeftBy P (Eval.bind (Eval.read r) f) :=
  fun m _ _ _ _ hrun hw => h m hrun hw

/-- What is done with an outcome may pass on some of the control words that it has. -/
theorem attempt {K : ControlWord → Prop} {f : Except Signal α → Eval β} (hx : LeftBy P x)
    (hok : ∀ a, LeftBy Q (f (.ok a)))
    (herror : ∀ s, LeftBy (fun w => Q w ∨ s.word? = some w ∧ K w) (f (.error s)))
    (hPQ : ∀ w, P w → K w → Q w) : LeftBy Q (Eval.bind (Eval.attempt x) f) := by
  intro m log s m' w hrun hw
  obtain ⟨first, o, last, rfl, hfirst, hlast⟩ := run_bind.1 hrun
  rw [attempt_apply] at hfirst
  obtain ⟨first, e, _, rfl, hx', ⟨⟩⟩ := Dialogue.run_bind.1 hfirst
  rw [List.append_nil]
  have hinLast (h : HasReadBare last w) : HasReadBare (first ++ last) w :=
    h.mono (List.subset_append_right _ _)
  cases e with
  | value a m₁ => exact (hok a hlast hw).imp_right hinLast
  | stopped s' m₁ =>
    obtain (hQ | ⟨hw', hK⟩) | hread := herror s' hlast hw
    · exact .inl hQ
    · exact (hx hx' hw').imp (hPQ w · hK) fun h => h.mono (List.subset_append_left _ _)
    · exact .inr (hinLast hread)
  | exhausted => cases hlast

theorem foldList {f : β → α → Eval β} {xs : List α} (h : ∀ b, ∀ a ∈ xs, LeftBy P (f b a)) (b : β) :
    LeftBy P (Eval.foldList f xs b) := by
  induction xs generalizing b with
  | nil => exact pure b
  | cons a rest ih =>
    have hcons : Eval.foldList f (a :: rest) b = Eval.bind (f b a) (Eval.foldList f rest) :=
      funext fun m => by rw [foldList_cons, bind_apply]
    rw [hcons]
    exact bind (h b a List.mem_cons_self) (ih fun b a ha => h b a (List.mem_cons_of_mem _ ha))

theorem iterate {body : β → Eval (Option β)} (h : ∀ b, LeftBy P (body b)) (n : Nat) (b : β) :
    LeftBy P (Eval.iterate body n b) := by
  induction n generalizing b with
  | zero => exact fun _ _ _ _ _ hrun => by cases hrun
  | succ n ih =>
    have hsucc : Eval.iterate body (n + 1) b = Eval.bind (body b) (iterateNext body n) :=
      funext fun m => by rw [iterate_succ, bind_apply]
    rw [hsucc]
    refine bind (h b) fun o => ?_
    cases o with
    | some b => exact ih b
    | none => exact pure ()

end Eval.LeftBy

/-! Statement by statement -/

section

variable {ev : Evaluator} {scope : ScopeRef}

/-- A sequence of statements is left by the words of its statements. -/
theorem execAll_leftBy {body : List Stmt} {P : ControlWord → Prop}
    (h : ∀ s ∈ body, LeftBy P (ev.exec s scope)) : LeftBy P (ev.execAll body scope) :=
  LeftBy.foldList (fun _ => h) ()

/-- Running a module is left by the words that are bare in its program. -/
theorem runModule_leftBy (p : Path) {program : Program}
    (h : ∀ s ∈ program, LeftBy s.Bares (ev.exec s .global)) :
    LeftBy (fun w => ∃ s ∈ program, s.Bares w) (runModule ev p program) := by
  intro m log s m' w hrun hw
  rw [runModule_apply] at hrun
  obtain ⟨first, e, last, rfl, hfirst, hlast⟩ := Dialogue.run_bind.1 hrun
  have hbody : LeftBy (fun w => ∃ s ∈ program, s.Bares w) (ev.execAll program .global) :=
    execAll_leftBy fun s hs => (h s hs).mono fun _ hw => ⟨s, hs, hw⟩
  cases e with
  | stopped s' m₁ =>
    cases hlast
    rw [List.append_nil]
    exact hbody hfirst hw
  | value _ m₁ => cases hlast
  | exhausted => cases hlast

/-- A control word that leaves a file is bare in it, or in a program that it has read. -/
theorem runFile_reads (p : Path) (h : ∀ s, LeftBy s.Bares (ev.exec s .global))
    {contents : Except FileError (List UInt8)} {m m' : Machine} {log : List Exchange}
    {s : Signal} {w : ControlWord} (hrun : (runFile ev p contents m).Run log (.stopped s m'))
    (hw : s.word? = some w) :
    HasReadBare (⟨.outer (.readFile p), contents⟩ :: log) w := by
  cases hprogram : programIn p contents with
  | error e =>
    rw [runFile_error hprogram] at hrun
    cases hrun
    cases hw
  | ok program =>
    rw [runFile_ok hprogram] at hrun
    obtain hbare | hread := runModule_leftBy p (fun s _ => h s) hrun hw
    · exact ⟨program, ⟨p, contents, List.mem_cons_self, hprogram⟩, hbare⟩
    · exact hread.mono (List.subset_cons_self _ _)

/-- An import admits no control word by itself. -/
theorem importModule_leftBy (h : ∀ s, LeftBy s.Bares (ev.exec s .global)) (spec : String)
    (P : ControlWord → Prop) : LeftBy P (importModule ev spec) := by
  intro m log s m' w hrun hw
  rw [importModule_apply] at hrun
  cases hrun with
  | asking found hrun =>
    cases found with
    | none =>
      cases hrun
      cases hw
    | some p =>
      cases hrun with
      | asking contents hrun =>
        exact .inr ((runFile_reads p h hrun hw).mono (List.subset_cons_self _ _))

/-- A loop passes on only `return`. -/
theorem loopRound_leftBy {condition : Expr} {body : Stmt} {step : Option Expr}
    {P : ControlWord → Prop}
    (hc : (Regime.free .shared).Evals () (ev.eval condition scope) (ev.eval condition scope))
    (hs : ∀ e ∈ step.toList,
      (Regime.free .shared).Evals () (ev.eval e scope) (ev.eval e scope))
    (hb : LeftBy P (ev.exec body scope)) :
    LeftBy (fun w => w = .returnWord ∧ P w) (loopRound ev condition body step scope) := by
  have hstep (e : Expr) (he : e ∈ step.toList) : LeftBy (fun w => w = .returnWord ∧ P w)
      (Eval.bind (discard (ev.eval e scope)) fun _ => Eval.pure true) :=
    LeftBy.bind (LeftBy.of_gives (Agree.discard (hs e he))) fun _ => LeftBy.pure true
  unfold loopRound
  refine LeftBy.bind (LeftBy.of_gives hc) fun v => ?_
  split
  · exact LeftBy.pure false
  · refine LeftBy.attempt (K := fun w => w = .returnWord) hb (fun _ => ?_) (fun s => ?_)
      fun w hP hw => ⟨hw, hP⟩
    · cases step with
      | none => exact LeftBy.pure true
      | some e => exact hstep e (by simp)
    · cases s with
      | continued =>
        cases step with
        | none => exact LeftBy.pure true
        | some e => exact (hstep e (by simp)).mono fun _ => .inl
      | broke => exact LeftBy.pure false
      | returned v => exact LeftBy.stop fun w hw => .inr ⟨hw, (Option.some.inj hw).symm⟩
      | thrown _ | failed _ => exact LeftBy.stop fun w hw => by cases hw

/-- A statement is left by the words that are bare in it. -/
theorem execStep_leftBy {n : Nat} (hev : (Regime.free .shared).Keeps () ev ev)
    (h : ∀ s scope, LeftBy s.Bares (ev.exec s scope)) (s : Stmt) (scope : ScopeRef) :
    LeftBy s.Bares (execStep n ev s scope) := by
  have hpart {s t : Stmt} (ht : t ∈ s.parts) (hs : s.isLoop = false) (scope : ScopeRef) :
      LeftBy s.Bares (ev.exec t scope) :=
    (h t scope).mono fun w hw => .part ht (fun hloop => by rw [hs] at hloop; cases hloop) hw
  have heval (e : Expr) (scope : ScopeRef) {P : ControlWord → Prop} : LeftBy P (ev.eval e scope) :=
    LeftBy.of_gives (hev.eval e scope)
  have hsound (v : Value) : (Regime.free .shared).Sound v := v.madeOf_any
  unfold execStep
  cases s with
  | block body p =>
    refine LeftBy.bind (LeftBy.of_gives (childScope_gives scope)) fun inner => ?_
    exact execAll_leftBy fun s hs => hpart hs rfl inner
  | loop condition body step p =>
    have hround : LeftBy (fun w => w = .returnWord ∧ body.Bares w)
        (loopRound ev condition body step scope) :=
      loopRound_leftBy (hev.eval condition scope) (fun e _ => hev.eval e scope) (h body scope)
    have hadmits (w : ControlWord) (hw : w = .returnWord ∧ body.Bares w) :
        (Stmt.loop condition body step p).Bares w :=
      .part List.mem_cons_self (fun _ => hw.1) hw.2
    exact LeftBy.iterate (fun _ => LeftBy.bind (hround.mono hadmits) fun _ => LeftBy.pure _) n ()
  | expression e p => exact LeftBy.of_gives (Agree.discard (hev.eval e scope))
  | print e p =>
    exact LeftBy.of_gives (Agree.bind (hev.eval e scope) fun _ _ =>
      Agree.bind (read_gives _) fun _ _ => write_agree _ _)
  | declare p hint init q =>
    have hbind (v : Value) : (Regime.free .shared).Gives () (fun _ => True)
        (bindPattern scope false p v) (bindPattern scope false p v) :=
      bindPattern_gives trivial false p (hsound v)
    cases init with
    | none => exact LeftBy.of_gives (hbind .nil)
    | some e =>
      refine LeftBy.bind (heval e scope) fun v => ?_
      split
      · exact LeftBy.of_gives (Agree.bind (ofExcept_gives fun _ _ => trivial) fun _ _ => hbind v)
      · exact LeftBy.of_gives (hbind v)
  | constant p init q =>
    exact LeftBy.bind (heval init scope) fun v =>
      LeftBy.of_gives (bindPattern_gives trivial true p (hsound v))
  | branch condition yes no p =>
    refine LeftBy.bind (heval condition scope) fun v => ?_
    split
    · exact hpart (by simp [Stmt.parts]) rfl scope
    · cases no with
      | none => exact LeftBy.pure ()
      | some s => exact hpart (by simp [Stmt.parts]) rfl scope
  | function decl =>
    exact LeftBy.of_gives (Agree.bind freshId_gives fun id _ =>
      define_gives trivial _ (hsound _) false)
  | classDecl name parent methods p =>
    exact LeftBy.of_gives
      (declareClass_gives trivial (fun _ _ => trivial) fun e _ => hev.eval e scope)
  | «return» value p =>
    have hown : ∀ w, Signal.word? (.returned .nil) = some w → (Stmt.return value p).Bares w :=
      fun w hw => .own hw
    cases value with
    | none => exact LeftBy.stop hown
    | some e => exact LeftBy.bind (heval e scope) fun v => LeftBy.stop hown
  | throw value p =>
    exact LeftBy.bind (heval value scope) fun v => LeftBy.stop fun w hw => by cases hw
  | attempt body name handler p =>
    refine LeftBy.attempt (K := fun _ => True) (hpart (by simp [Stmt.parts]) rfl scope)
      (fun _ => LeftBy.pure ()) (fun s => ?_) fun w hw _ => hw
    dsimp only
    split
    · refine LeftBy.mono ?_ fun _ => .inl
      unfold runHandler
      refine LeftBy.bind (LeftBy.of_gives (childScope_gives scope)) fun inner => ?_
      refine LeftBy.bind (LeftBy.of_gives (define_gives trivial name (hsound _) false)) ?_
      exact fun _ => hpart (by simp [Stmt.parts]) rfl inner
    · exact LeftBy.stop fun w hw => .inr ⟨hw, trivial⟩
  | select value arms p =>
    refine LeftBy.bind (heval value scope) fun v => LeftBy.read_bind fun m => ?_
    cases harm : chosenArm? m.heap v arms with
    | none => exact LeftBy.pure ()
    | some arm =>
      refine LeftBy.bind (LeftBy.of_gives (childScope_gives scope)) fun inner => ?_
      refine LeftBy.bind (LeftBy.of_gives (bindPattern_gives trivial false _ (hsound v))) ?_
      exact fun _ => hpart (List.mem_map_of_mem (List.mem_of_find?_eq_some harm)) rfl inner
  | load path p =>
    refine LeftBy.bind (heval path scope) fun v => ?_
    cases v with
    | text spec => exact importModule_leftBy (fun s => h s .global) spec _
    | _ => exact LeftBy.stop fun w hw => by cases hw
  | «break» p => exact LeftBy.stop fun w hw => .own hw
  | «continue» p => exact LeftBy.stop fun w hw => .own hw

end

/-- What an import comes to once its file has been read: its program runs, and however it ends, so
does the import. -/
theorem importModule_run {ev : Evaluator} {spec : String} {m : Machine} {place : Path}
    {contents : Except FileError (List UInt8)} {program : Program}
    (hprogram : programIn place contents = .ok program) {rest : List Exchange} {r : Ending Unit} :
    (importModule ev spec m).Run
        (⟨.outer (.firstFile (Module.candidates m.settings.modulePaths spec m.importer?)),
          some place⟩ :: ⟨.outer (.readFile place), contents⟩ :: rest) r ↔
      ∃ e, (ev.execAll program .global (m.inside (place.parent?.getD ⟨""⟩))).Run rest e ∧
        r = e.afterImport := by
  have hrun : (runModule ev place program m).Run rest r ↔
      ∃ e, (ev.execAll program .global (m.inside (place.parent?.getD ⟨""⟩))).Run rest e ∧
        r = e.afterImport := by
    rw [runModule_apply, Dialogue.run_bind]
    constructor
    · rintro ⟨first, e, _, rfl, hfirst, ⟨⟩⟩
      exact ⟨e, by rwa [List.append_nil], rfl⟩
    · rintro ⟨e, he, rfl⟩
      exact ⟨rest, e, [], by rw [List.append_nil], he, .finished _⟩
  rw [← hrun, ← runFile_ok hprogram, importModule_apply]
  constructor
  · intro h
    cases h with
    | asking _ h =>
      cases h with
      | asking _ h => exact h
  · exact fun h => .asking _ (.asking _ h)

theorem exec_leftBy (n : Nat) (s : Stmt) (scope : ScopeRef) :
    LeftBy s.Bares ((Evaluator.bounded n).exec s scope) := by
  induction n generalizing s scope with
  | zero => exact fun _ _ _ _ _ hrun => by cases hrun
  | succ n ih => exact execStep_leftBy (free_keeps n) ih s scope

def Signal.isFailure : Signal → Bool
  | .failed _ => true
  | _ => false

/-- An import is left by a control word only if a program that it has read has the word outside all
functions, and outside all loops if it is a loop word. It ends as the program of its file ends, with
a control word as with anything else. Out of a whole program control words do not get: there they
are failures. -/
theorem import_ends_as_module (n : Nat) (m : Machine) :
    (∀ path p scope log s m' w, ((Evaluator.bounded n).exec (.load path p) scope m).Run log
      (.stopped s m') → s.word? = some w → HasReadBare log w) ∧
    (∀ spec place contents program rest r, programIn place contents = .ok program →
      ((importModule (.bounded n) spec m).Run
          (⟨.outer (.firstFile (Module.candidates m.settings.modulePaths spec m.importer?)),
            some place⟩ :: ⟨.outer (.readFile place), contents⟩ :: rest) r ↔
        ∃ e, ((Evaluator.bounded n).execAll program .global
            (m.inside (place.parent?.getD ⟨""⟩))).Run rest e ∧ r = e.afterImport)) ∧
    ∀ program, (interpret n program m).Every (Ending.StopsOnlyBy Signal.isFailure) := by
  refine ⟨fun path p scope log s m' w hrun hw => ?_, fun _ _ _ _ _ _ h => importModule_run h, ?_⟩
  · obtain hbare | hread := exec_leftBy n (.load path p) scope hrun hw
    · cases hbare with
      | own h => cases h
      | part ht => cases ht
    · exact hread
  · intro program
    have h : Agree .shared ((Regime.free .shared).Holds ()) (fun _ => True)
        (fun s => ∃ f, s = .failed f) (interpretBy (.bounded n) program)
        (interpretBy (.bounded n) program) :=
      interpretBy_agree fun s _ => (free_keeps n).exec s trivial
    refine every_stopsOnlyBy h ?_ (free_holds .shared m)
    rintro _ ⟨f, rfl⟩
    rfl

/-- Whether a file holds the program `return true;`. -/
def returnsTrue : Except ModuleError Program → Bool
  | .ok [.return (some (.literal (.bool true) _)) _] => true
  | _ => false

theorem eq_of_returnsTrue {r : Except ModuleError Program} (h : returnsTrue r = true) :
    ∃ p q, r = .ok [.return (some (.literal (.bool true) p)) q] := by
  unfold returnsTrue at h
  split at h
  next p q => exact ⟨p, q, rfl⟩
  next => cases h

/-- The statement `import "m";`. -/
def bareImport : Stmt := .load (.literal (.text "m") ⟨1, 15, 14⟩) ⟨1, 8, 7⟩

/-- If the file found for it is `return true;`, this import returns. -/
theorem bareImport_returns (scope : ScopeRef) (m : Machine) : ∃ log m₁,
    ((Evaluator.bounded 3).exec bareImport scope m).Run log
      (.stopped (.returned (.bool true)) m₁) := by
  obtain ⟨p, q, hprogram⟩ := eq_of_returnsTrue (r := programIn ⟨"m.fsk"⟩
    (.ok (Text.encode "return true;"))) (by decide +kernel)
  exact ⟨_, _, (importModule_run hprogram).2 ⟨_, .finished _, rfl⟩⟩

theorem bareImport_blames_module : ∃ log m₁,
    ((Evaluator.bounded 3).exec bareImport .global (.bare .default)).Run log
      (.stopped (.returned (.bool true)) m₁) ∧ HasReadBare log .returnWord := by
  obtain ⟨log, m₁, hrun⟩ := bareImport_returns .global (.bare .default)
  exact ⟨log, m₁, hrun, (import_ends_as_module 3 (.bare .default)).1 _ _ _ log _ m₁ _ hrun rfl⟩

/-- The function `fn() { import "m"; return false; }`. -/
def hasty : Function :=
  .mk "" [] [bareImport, .return (some (.literal (.bool false) ⟨1, 27, 26⟩)) ⟨1, 20, 19⟩] false none
    ⟨1, 1, 0⟩

/-- The module makes the importing function return. -/
theorem hasty_returns_true : ∃ log m₁, (callFunction (.bounded 3) hasty .global []
    (.bare .default)).Run log (.value (.bool true) m₁) := by
  have hbody (scope : ScopeRef) (m : Machine) : ∃ log m₁,
      ((Evaluator.bounded 3).execAll hasty.body scope m).Run log
        (.stopped (.returned (.bool true)) m₁) := by
    -- Of the two statements the first is executed only.
    obtain ⟨log, m₁, hrun⟩ := bareImport_returns scope m
    refine ⟨log, m₁, ?_⟩
    unfold Evaluator.execAll hasty Function.body Eval.forEach
    rw [foldList_cons]
    exact Dialogue.run_bind.2 ⟨log, _, [], by rw [List.append_nil], hrun, .finished _⟩
  have hinvoke (m : Machine) : ∃ log m₁,
      (invoke (.bounded 3) hasty .global [] m).Run log (.stopped (.returned (.bool true)) m₁) :=
    hbody ⟨m.scopes.size⟩ { m with scopes := (m.scopes.child .global).2 }
  obtain ⟨log, m₁, hrun⟩ := hinvoke { Machine.bare .default with depth := 1 }
  refine ⟨log, { m₁ with depth := m₁.depth - 1 }, ?_⟩
  rw [callFunction_apply]
  exact Dialogue.run_bind.2 ⟨log, _, [], by rw [List.append_nil], hrun, .finished _⟩

end ScriptEngine
