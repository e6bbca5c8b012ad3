import ScriptEngine.Engine.Script
import ScriptEngine.Proofs.Evaluation.Chain

/-!
# Termination without loops and imports

A program without loops and imports can only go on without end by calls. Calls of functions are
limited, and between two of them the code of the program is walked once, so all nesting but that of
chains of built-in functions is bounded by the size of the program and the limit. What remains are
those chains: the program terminates if and only if they do not grow without bound.
-/
namespace ScriptEngine
open Eval Regime

/-- Code of limited size without loops and imports, run at a known depth below a known limit. -/
def Regime.limited (x : Exhaustion) (size limit : Nat) : Regime Nat where
  exhaustion := x
  code f := f.Lacks Stmt.isLoopOrImport ∧ sizeOf f ≤ size
  opens _ := True
  assigns _ := True
  keeps d g := g.depth = d ∧ g.settings.maxCallDepth = limit
  inner d d' := d' = d + 1 ∧ d < limit
  child _ h := ⟨trivial, h⟩
  define _ _ _ _ h := h
  put _ _ _ h := h
  enter := by
    rintro d g ⟨rfl, rfl⟩ hlimit
    exact ⟨g.depth + 1, ⟨rfl, hlimit⟩, rfl, rfl⟩
  leave := by
    rintro d _ g ⟨rfl, -⟩ ⟨hd, hlimit⟩
    exact ⟨by simp [hd], hlimit⟩

section

variable {x : Exhaustion} {size limit k : Nat} {deeper : Eval Value}

/-- Code without loops and imports needs no more room than its size on top of what the calls in it
need. -/
theorem lacking_agree {d c : Nat}
    (hcalls : ∀ n n', c ≤ n → c ≤ n' → (Regime.limited x size limit).Calls d
      (callChained (.chained k deeper n) deeper k) (callChained (.chained k deeper n') deeper k))
    (n n' : Nat) :
    (∀ e : Expr, e.Lacks Stmt.isLoopOrImport → sizeOf e ≤ size → c + 2 + sizeOf e ≤ n →
      c + 2 + sizeOf e ≤ n' → ∀ scope, (Regime.limited x size limit).Evals d
        ((Evaluator.chained k deeper n).eval e scope)
        ((Evaluator.chained k deeper n').eval e scope)) ∧
    (∀ s : Stmt, s.Lacks Stmt.isLoopOrImport → sizeOf s ≤ size → c + 2 + sizeOf s ≤ n →
      c + 2 + sizeOf s ≤ n' → ∀ scope, (Regime.limited x size limit).Execs d
        ((Evaluator.chained k deeper n).exec s scope)
        ((Evaluator.chained k deeper n').exec s scope)) := by
  -- The parts of a node are smaller than the node by at least the one level that it takes itself.
  induction n generalizing n' with
  | zero => exact ⟨fun _ _ _ h => by omega, fun _ _ _ h => by omega⟩
  | succ n ih =>
    refine ⟨fun e he hsize hn hn' scope => ?_, fun s hs hsize hn hn' scope => ?_⟩
    · obtain ⟨n, rfl⟩ : ∃ l, n = l + 1 := ⟨n - 1, by omega⟩
      obtain ⟨n', rfl⟩ : ∃ l, n' = l + 2 := ⟨n' - 2, by omega⟩
      obtain ⟨hparts, hfunctions⟩ := he
      refine evalStep_evals (fun p hp => ?_) (hcalls n n' (by omega) (by omega)) (fun f hf => ?_)
        fun _ _ => trivial
      · have := Expr.sizeOf_part hp
        exact (ih (n' + 1)).1 p (hparts p hp) (by omega) (by omega) (by omega) scope
      · have := Expr.sizeOf_function hf
        exact ⟨hfunctions f hf, by omega⟩
    · obtain ⟨n', rfl⟩ : ∃ l, n' = l + 1 := ⟨n' - 1, by omega⟩
      obtain ⟨hown, hexprs, hparts, hfunctions⟩ := hs
      obtain ⟨hloop, hload⟩ := Bool.or_eq_false_iff.1 hown
      refine execStep_execs trivial (fun e he => ?_) (fun t ht inner _ => ?_) (fun f hf => ?_)
        (by simp [hloop]) (by simp [hload])
      · have := Stmt.sizeOf_expr he
        exact (ih n').1 e (hexprs e he) (by omega) (by omega) (by omega) scope
      · have := Stmt.sizeOf_part ht
        exact (ih n').2 t (hparts t ht) (by omega) (by omega) (by omega) inner
      · have := Stmt.sizeOf_function hf
        exact ⟨hfunctions f hf, by omega⟩

/-- The nesting that calls need at a depth, chains of built-in functions apart. -/
def nesting (size limit d : Nat) : Nat := (limit - d) * (size + 2)

theorem nesting_succ {d : Nat} (h : d < limit) :
    nesting size limit d = nesting size limit (d + 1) + size + 2 := by
  unfold nesting
  rw [show limit - d = limit - (d + 1) + 1 by omega, Nat.succ_mul]
  rfl

/-- With room for the calls that the limit allows, more room makes no difference. -/
theorem calls_agree
    (hdeeper : ∀ d, (Regime.limited x size limit).Evals d deeper deeper) (d j n n' : Nat)
    (hn : nesting size limit d ≤ n) (hn' : nesting size limit d ≤ n') :
    (Regime.limited x size limit).Calls d (callChained (.chained k deeper n) deeper j)
      (callChained (.chained k deeper n') deeper j) := by
  induction hl : limit - d generalizing d j n n' with
  | zero =>
    refine callChained_calls (fun decl _ d' hd' => ?_) (hdeeper d) j
    have := hd'.2
    omega
  | succ l ih =>
    refine callChained_calls (fun decl hdecl d' hd' => ?_) (hdeeper d) j
    obtain ⟨rfl, hd⟩ := hd'
    rw [nesting_succ hd] at hn hn'
    obtain ⟨⟨hdefaults, hbody⟩, hsize⟩ := hdecl
    have hcode := lacking_agree (c := nesting size limit (d + 1))
      (fun n n' hn hn' => ih (d + 1) k n n' hn hn' (by omega)) n n'
    refine ⟨fun p hp e he scope => ?_, fun s hs scope _ => ?_⟩
    · have := Function.sizeOf_default hp he
      exact hcode.1 e (hdefaults p hp e he) (by omega) (by omega) (by omega) scope
    · have := Function.sizeOf_body hs
      exact hcode.2 s (hbody s hs) (by omega) (by omega) (by omega) scope

end

/-! Whole programs -/

/-- Runs the statements of a program with a given evaluator. -/
def interpretBy (ev : Evaluator) (program : Program) : Eval Unit :=
  Eval.forEach (interpretStatement ev) program

/-- An ending with a value or a failure. -/
def Ending.Settled {α : Type} : Ending α → Prop
  | .value _ _ => True
  | .stopped s _ => ∃ f, s = .failed f
  | .exhausted => False

theorem Ending.Settled.ne_exhausted {α : Type} {r : Ending α} (h : r.Settled) :
    r ≠ .exhausted := by
  rintro rfl
  exact h

theorem Ending.Within.settled {α : Type} {I : Machine → Prop} {V : α → Prop} {r : Ending α}
    (h : r.Within .absent I V fun s => ∃ f, s = .failed f) : r.Settled := by
  cases r with
  | value _ _ => trivial
  | stopped s m => exact h.1
  | exhausted => exact h rfl

section

variable {ι : Type} {R : Regime ι} {i : ι} {ev ev' : Evaluator}

/-- All that leaves a statement of a program is a failure. -/
theorem interpretStatement_agree {s : Stmt}
    (h : R.Execs i (ev.exec s .global) (ev'.exec s .global)) :
    Agree R.exhaustion (R.Holds i) (fun _ => True) (fun s => ∃ f, s = .failed f)
      (interpretStatement ev s) (interpretStatement ev' s) := by
  unfold interpretStatement
  refine Agree.bind (Agree.attempt h) fun outcome _ => ?_
  cases outcome with
  | ok _ => exact Agree.pure trivial
  | error signal =>
    refine Agree.bind (V := fun _ => True) (Agree.read fun _ _ => trivial) fun f _ => ?_
    split
    · exact Agree.bind (write_agree _ _) fun _ _ => Agree.stop ⟨f, rfl⟩
    · exact Agree.stop ⟨f, rfl⟩

theorem interpretBy_agree {program : Program}
    (h : ∀ s ∈ program, R.Execs i (ev.exec s .global) (ev'.exec s .global)) :
    Agree R.exhaustion (R.Holds i) (fun _ => True) (fun s => ∃ f, s = .failed f)
      (interpretBy ev program) (interpretBy ev' program) :=
  Agree.forEach fun s hs => interpretStatement_agree (h s hs)

end

/-- What settles within a bound is all of what an evaluator that leads it comes to. -/
theorem interpretBy_eq {ev ev' : Evaluator} (h : (Regime.free .leading).Keeps () ev ev')
    {program : Program} {m : Machine} (hsettled : (interpretBy ev program m).Every Ending.Settled) :
    interpretBy ev program m = interpretBy ev' program m := by
  have hagree : Agree .leading ((Regime.free .leading).Holds ()) (fun _ => True)
      (fun s => ∃ f, s = .failed f) (interpretBy ev program) (interpretBy ev' program) :=
    interpretBy_agree fun s _ => h.exec s trivial
  refine (hagree m (free_holds .leading m)).eq_of_every ?_
  exact Dialogue.every_mono hsettled fun _ => Ending.Settled.ne_exhausted

/-! A fresh machine has built-in functions only. -/

section

variable {code : Function → Prop} {m : Machine}

theorem defineGlobal_madeOf (h : m.MadeOf code) (name : String) {v : Value} (hv : v.MadeOf code) :
    (m.defineGlobal name v).MadeOf code :=
  { h with scopes := h.scopes.define hv }

theorem withHeap_madeOf (h : m.MadeOf code) {heap : Heap} (hh : heap.MadeOf code) :
    { m with heap }.MadeOf code :=
  { h with heap := hh }

theorem addFunction_madeOf (h : m.MadeOf code) (n : Native) : (m.addFunction n).MadeOf code :=
  defineGlobal_madeOf (m := { m with nextId := m.nextId + 1 }) { h with } n.name trivial

theorem functionFields_madeOf (h : m.MadeOf code) (natives : List Native) :
    (∀ e ∈ (m.functionFields natives).1, e.2.MadeOf code) ∧
      (m.functionFields natives).2.MadeOf code := by
  induction natives generalizing m with
  | nil => exact ⟨by simp [Machine.functionFields], h⟩
  | cons n rest ih =>
    have hrest := ih (m := { m with nextId := m.nextId + 1 }) { h with }
    exact ⟨List.forall_mem_cons.2 ⟨trivial, hrest.1⟩, hrest.2⟩

theorem addObject_madeOf (h : m.MadeOf code) (object : String × List Native) :
    (m.addObject object).MadeOf code := by
  have hfields := functionFields_madeOf (m := { m with nextId := m.nextId + 1 }) { h with } object.2
  have hinstance : Instance.MadeOf code ⟨.mk m.nextId object.1 none [] [], _⟩ :=
    ⟨Class.madeOf_mk (by simp) (by simp), Fields.madeOf_ofList hfields.1⟩
  exact defineGlobal_madeOf (withHeap_madeOf hfields.2 (hfields.2.heap.newInstance hinstance)) _
    trivial

theorem bare_madeOf (settings : Settings) : (Machine.bare settings).MadeOf code where
  scopes := by simp [Scopes.MadeOf, Machine.bare, Scopes.root]
  heap := ⟨by simp [Machine.bare, Heap.empty], by simp [Machine.bare, Heap.empty]⟩
  promiseClass := Class.madeOf_mk (by simp) (by simp)
  objectClass := Class.madeOf_mk (by simp) (by simp)

theorem fresh_madeOf (settings : Settings) : (Machine.fresh settings).MadeOf code := by
  refine List.foldlRecOn _ _ ?_ fun m h object _ => addObject_madeOf h object
  refine defineGlobal_madeOf ?_ "Promise" (Class.madeOf_mk (by simp) (by simp))
  exact List.foldlRecOn _ _ (bare_madeOf settings) fun m h n _ => addFunction_madeOf h n

end

theorem fresh_limited (x : Exhaustion) (size : Nat) (settings : Settings) :
    (Regime.limited x size settings.maxCallDepth).Holds 0 (.fresh settings) :=
  ⟨⟨rfl, rfl⟩, fresh_madeOf settings⟩

/-- How deep a program is nested at most, chains of built-in functions apart. -/
noncomputable def Program.nesting (program : Program) (settings : Settings) : Nat :=
  ScriptEngine.nesting (sizeOf program) settings.maxCallDepth 0 + 2 + sizeOf program

/-- With room for its nesting, a program without loops and imports comes to the same as with any
more room. -/
theorem interpretBy_chained_agree {x : Exhaustion} (settings : Settings) {program : Program}
    (h : ∀ s ∈ program, s.Lacks Stmt.isLoopOrImport) (k : Nat) {deeper : Eval Value}
    (hdeeper : ∀ d, (Regime.limited x (sizeOf program) settings.maxCallDepth).Evals d deeper deeper)
    {n n' : Nat} (hn : program.nesting settings ≤ n) (hn' : program.nesting settings ≤ n') :
    Agree x ((Regime.limited x (sizeOf program) settings.maxCallDepth).Holds 0) (fun _ => True)
      (fun s => ∃ f, s = .failed f) (interpretBy (.chained k deeper n) program)
      (interpretBy (.chained k deeper n') program) := by
  unfold Program.nesting at hn hn'
  refine interpretBy_agree fun s hs => ?_
  have hsize := List.sizeOf_lt_of_mem hs
  have hcode := lacking_agree (calls_agree (k := k) hdeeper 0 k) n n'
  exact hcode.2 s (h s hs) (by omega) (by omega) (by omega) .global

/-- A program without loops and imports terminates if and only if there is a bound on the number of
built-in functions that call each other in a row. For chains that are cut off by a failure it
terminates whatever their bound is, within a nesting that does not depend on it. -/
theorem terminates_iff_chains_bounded (settings : Settings) (program : Program)
    (h : ∀ s ∈ program, s.Lacks Stmt.isLoopOrImport) :
    ∃ n, (∀ k, (interpretBy (.chained k (Eval.fail (.stackOverflow settings.maxCallDepth)) n)
        program (.fresh settings)).Every Ending.Settled) ∧
      ((∃ b, (interpret b program (.fresh settings)).Every Ending.Settled) ↔
        ∃ k, (interpretBy (.chained k Eval.exhausted n) program (.fresh settings)).Every
          Ending.Settled) := by
  refine ⟨program.nesting settings, fun k => ?_, ?_, ?_⟩
  · have hagree := interpretBy_chained_agree (x := .absent) settings h k
      (fun _ => fail_gives (.stackOverflow settings.maxCallDepth))
      (Nat.le_refl (program.nesting settings)) (Nat.le_refl (program.nesting settings))
    exact Dialogue.every_mono (hagree.every (fresh_limited _ _ _)) fun _ => Ending.Within.settled
  · rintro ⟨b, hb⟩
    -- Chains as long as the bound are enough, and room beyond the nesting makes no difference.
    have hroom := (bounded_chained b Eval.exhausted b).1 (Nat.le_refl b)
      (max b (program.nesting settings)) (Nat.le_max_left _ _)
    have hagree := interpretBy_chained_agree (x := .shared) settings h b
      (fun _ => exhausted_agree rfl) (Nat.le_refl (program.nesting settings))
      (Nat.le_max_right b (program.nesting settings))
    refine ⟨b, ?_⟩
    rw [(hagree _ (fresh_limited _ _ _)).eq nofun, ← interpretBy_eq hroom hb]
    exact hb
  · rintro ⟨k, hk⟩
    refine ⟨program.nesting settings * (k + 2), ?_⟩
    rw [interpretBy_eq (chained_bounded k _ _ (Nat.le_refl _)) hk] at hk
    exact hk

end ScriptEngine
