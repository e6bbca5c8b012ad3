import ScriptEngine.Engine.Script
import ScriptEngine.Proofs.Evaluation.Balance
import ScriptEngine.Proofs.Machine.Agreement

/-!
# Running a module

An import finds a file, reads it and runs the program in it. The program runs in the global scope
with the file's directory on top of the others, and however it ends, so does the import.

An import is relative to the directory of the innermost module in progress, whatever file it is
written in. While the program of a file runs and no other module does, this is the directory of the
file. Afterwards the directories are those from before, also for the functions that the file has
defined: their imports are relative to whatever module is in progress when they are called.
-/
namespace ScriptEngine
open Eval

/-- The program in the contents of a file. -/
def programIn (p : Path) (contents : Except FileError (List UInt8)) :
    Except ModuleError Program :=
  Module.parse p do
    match Text.decode? (← contents) with
    | some s => .ok s
    | none => .error .notText

/-- Runs the program of a file, imports being relative to its directory. -/
def runModule (ev : Evaluator) (p : Path) (program : Program) : Eval Unit := do
  match ← importingFrom (p.parent?.getD ⟨""⟩) (ev.execAll program .global) with
  | .ok () => return
  | .error signal => Eval.stop signal

/-- Runs what a file holds as a module. -/
def runFile (ev : Evaluator) (p : Path) (contents : Except FileError (List UInt8)) : Eval Unit :=
  match programIn p contents with
  | .error e => Eval.fail e.toFailure
  | .ok program => runModule ev p program

theorem runFile_error {ev : Evaluator} {p : Path} {contents : Except FileError (List UInt8)}
    {e : ModuleError} (h : programIn p contents = .error e) :
    runFile ev p contents = Eval.fail e.toFailure := by
  rw [runFile, h]

theorem runFile_ok {ev : Evaluator} {p : Path} {contents : Except FileError (List UInt8)}
    {program : Program} (h : programIn p contents = .ok program) :
    runFile ev p contents = runModule ev p program := by
  rw [runFile, h]

theorem importModule_eq (ev : Evaluator) (spec : String) :
    importModule ev spec = (do
      let p ← Library.resolve spec
      runFile ev p (← Eval.askOuter (.readFile p))) :=
  rfl

/-- A machine that runs a module of this directory. -/
def Machine.inside (m : Machine) (directory : Path) : Machine :=
  { m with importers := directory :: m.importers }

/-- A machine that has left the innermost module. -/
def Machine.outside (m : Machine) : Machine := { m with importers := m.importers.tail }

/-- The ending of an import whose module has ended like this. -/
def Ending.afterImport : Ending Unit → Ending Unit
  | .value () m => .value () m.outside
  | .stopped s m => .stopped s m.outside
  | .exhausted => .exhausted

/-- What running a module does. -/
theorem runModule_apply (ev : Evaluator) (p : Path) (program : Program) (m : Machine) :
    runModule ev p program m =
      (ev.execAll program .global (m.inside (p.parent?.getD ⟨""⟩))).bind fun r =>
        .finished r.afterImport := by
  unfold runModule importingFrom
  change Eval.bind (Eval.bind (Eval.attempt (ev.execAll program .global)) _) _
    (m.inside (p.parent?.getD ⟨""⟩)) = _
  rw [bind_apply, bind_apply, attempt_apply, Dialogue.bind_assoc, Dialogue.bind_assoc]
  refine congrArg _ (funext fun r => ?_)
  cases r with
  | value _ m => rfl
  | stopped s m => rfl
  | exhausted => rfl

/-- What an import asks for, and what it comes to. -/
theorem importModule_apply (ev : Evaluator) (spec : String) (m : Machine) :
    importModule ev spec m =
      .asking (.outer (.firstFile
          (Module.candidates m.settings.modulePaths spec m.importer?))) fun
        | none => Eval.fail (ModuleError.notFound spec).toFailure m
        | some p => .asking (.outer (.readFile p)) fun contents => runFile ev p contents m := by
  rw [importModule_eq]
  refine congrArg (Dialogue.asking _) (funext fun found => ?_)
  cases found <;> rfl

/-! What imports are relative to -/

open Regime

/-- The directory that imports of a module are relative to while it is in progress. -/
def Path.moduleDirectory (p : Path) : Path := p.parent?.getD ⟨""⟩

/-- Modules of other directories are in progress than these and some inside them. -/
def elsewhere (base : List Path) : Evaluator.Activity → Machine → Bool :=
  fun _ m => !decide (base <:+ m.importers)

/-- Calls leave the modules in progress alone. -/
def Regime.within (base : List Path) : Regime (List Path) where
  exhaustion := .shared
  code _ := True
  opens _ := True
  assigns _ := True
  keeps dirs g := g.importers = dirs ∧ base <:+ dirs
  inner dirs dirs' := dirs' = dirs
  child _ h := ⟨trivial, h⟩
  define _ _ _ _ h := h
  put _ _ _ h := h
  enter h _ := ⟨_, rfl, h⟩
  leave := by
    rintro dirs _ g rfl h
    exact h

theorem within_imports (base : List Path) :
    (Regime.within base).Imports fun dirs dirs' =>
      base <:+ dirs ∧ ∃ directory, dirs' = directory :: dirs where
  global := trivial
  push := by
    rintro dirs g directory ⟨h, hbase⟩
    exact ⟨directory :: dirs, ⟨hbase, directory, rfl⟩, congrArg (directory :: ·) h,
      hbase.trans (List.suffix_cons ..)⟩
  pop := by
    rintro dirs _ g ⟨hbase, directory, rfl⟩ ⟨h, -⟩
    exact ⟨congrArg List.tail h, hbase⟩

theorem within_keeps (base : List Path) (alarm : Failure) (n : Nat) (dirs : List Path) :
    (Regime.within base).Keeps dirs (.watched (elsewhere base) alarm n) (.bounded n) := by
  rw [← Evaluator.watched_nothing alarm n]
  refine watched_keeps rfl (fun _ => trivial) (fun _ => trivial) (fun dirs a m hm => ?_)
    (.inl ⟨_, within_imports base⟩) n dirs
  have hdirs : m.importers = dirs := hm.1.1
  have hbase : base <:+ m.importers := hdirs ▸ hm.1.2
  simp [elsewhere, hbase]

/-- The ending has the same modules in progress as a machine. -/
def Ending.KeepsImporters {α : Type} (m : Machine) : Ending α → Prop
  | .value _ m' | .stopped _ m' => m'.importers = m.importers
  | .exhausted => True

/-- What agrees with its watched form begins no activity elsewhere, and ends where it began. -/
theorem keepsImporters_of_agree {α : Type} {V : α → Prop} {S : Signal → Prop} {n : Nat}
    {m : Machine} (x : Evaluator → Eval α)
    (h : ∀ alarm, Agree .shared ((Regime.within m.importers).Holds m.importers) V S
      (x (.watched (elsewhere m.importers) alarm n)) (x (.bounded n))) :
    (x (.bounded n) m).Every (Ending.KeepsImporters m) ∧ Never (elsewhere m.importers) n x m := by
  have hm : (Regime.within m.importers).Holds m.importers m :=
    ⟨⟨rfl, List.suffix_refl _⟩, m.madeOf_any⟩
  have hsame (alarm : Failure) :
      x (.watched (elsewhere m.importers) alarm n) m = x (.bounded n) m :=
    (h alarm m hm).eq nofun
  refine ⟨?_, hsame⟩
  rw [← hsame (.exit 0)]
  refine Dialogue.every_mono ((h (.exit 0)).every hm) fun r hr => ?_
  cases r with
  | value _ m' | stopped _ m' => exact hr.2.1.1
  | exhausted => trivial

/-- Modules that are in progress stay so, in the same order, throughout whatever begins: an
expression, a statement or a call, whoever wrote the code that is called. An import is looked for
from the directory of the innermost one, which is the directory of the file for as long as the
program of the file is all that runs. When the program has ended, however it did, the modules in
progress are those from before. -/
theorem imports_relative_to_module_in_progress (n : Nat) (m : Machine) :
    (∀ e scope, Never (elsewhere m.importers) n (fun ev => ev.eval e scope) m) ∧
    (∀ s scope, Never (elsewhere m.importers) n (fun ev => ev.exec s scope) m) ∧
    (∀ callee args, Never (elsewhere m.importers) n (fun ev => ev.call callee args) m) ∧
    (∀ spec, ∃ next, importModule (.bounded n) spec m =
      .asking (.outer (.firstFile
        (Module.candidates m.settings.modulePaths spec m.importers.head?))) next) ∧
    ∀ p program,
      Never (elsewhere (p.moduleDirectory :: m.importers)) n
        (fun ev => ev.execAll program .global) (m.inside p.moduleDirectory) ∧
      (runModule (.bounded n) p program m).Every (Ending.KeepsImporters m) := by
  have hkeeps (m : Machine) (alarm : Failure) := within_keeps m.importers alarm n m.importers
  refine ⟨fun e scope => ?_, fun s scope => ?_, fun callee args => ?_, fun spec => ?_,
    fun p program => ?_⟩
  · exact (keepsImporters_of_agree (fun ev => ev.eval e scope) fun alarm =>
      (hkeeps m alarm).eval e scope).2
  · exact (keepsImporters_of_agree (fun ev => ev.exec s scope) fun alarm =>
      (hkeeps m alarm).exec s trivial).2
  · exact (keepsImporters_of_agree (fun ev => ev.call callee args) fun alarm =>
      (hkeeps m alarm).call callee args callee.madeOf_any fun v _ => v.madeOf_any).2
  · exact ⟨_, importModule_apply (.bounded n) spec m⟩
  · obtain ⟨hends, hnever⟩ := keepsImporters_of_agree (n := n) (m := m.inside p.moduleDirectory)
      (fun ev => ev.execAll program .global) fun alarm =>
        execAll_execs fun s _ => (hkeeps (m.inside p.moduleDirectory) alarm).exec s trivial
    refine ⟨hnever, ?_⟩
    rw [runModule_apply]
    refine Dialogue.every_bind _ hends fun r hr => ?_
    cases r with
    | value _ m' | stopped _ m' => exact congrArg List.tail hr
    | exhausted => trivial

/-- The lists of places that a program looks for files in, one after the other, if these are all
the files there are. -/
def Talk.searches {ρ : Type} (files : List (Path × String)) : Talk ρ → List (List Path)
  | .asking (.outer (.firstFile places)) next =>
    places :: searches files (next (places.find? fun p => (files.lookup p).isSome))
  | .asking (.outer (.readFile p)) next =>
    match files.lookup p with
    | some source => searches files (next (.ok (Text.encode source)))
    | none => []
  | _ => []

/-- The import in the function of the module is looked for from the main program. -/
theorem deferredImport_looked_for_from_caller :
    Talk.searches [(⟨"lib/a.fsk"⟩, "fn f() \x7b import \"b\"; \x7d"), (⟨"lib/b.fsk"⟩, "print 7;")]
        (runSource 12 "import \"lib/a\"; f();" (.bare .default)) =
      [Module.candidates [] "lib/a" none, Module.candidates [] "b" none] ∧
    ⟨"lib/b.fsk"⟩ ∈ Module.candidates [] "b" (some ⟨"lib"⟩) ∧
    ⟨"lib/b.fsk"⟩ ∉ Module.candidates [] "b" none := by
  decide +kernel

end ScriptEngine
