import ScriptEngine.Proofs.Engine.Termination
import ScriptEngine.Proofs.Evaluation.Classes
import ScriptEngine.Proofs.Evaluation.Reserved
import ScriptEngine.Proofs.Scope.Definitions

/-!
# Methods and the classes that declare them

A method is found along the chain of classes and bound to the value it is read from by a frame of
its own. Inside of the method `this` is looked up in that frame, and `super` in the scope that the
declaration of the class has made, whatever the class of the value is. Both frames bind reserved
words only, so they last.
-/
namespace ScriptEngine
open Eval Regime

variable {m : Machine} {c : Class} {name : String} {this : Value}

/-! Frames of methods last -/

theorem keepsMethods_of_keepsReserved {isOpen : ScopeRef → Prop} {s t : Scopes Value}
    (h : s.KeepsReserved isOpen t)
    (hopen : ∀ r, isOpen r → r = .global ∨ s.Receptive r) : s.KeepsMethods t := by
  refine .of_frames fun r name v outer hr hname hf => ?_
  have hword : ¬ Unreserved name := by
    rcases hname with rfl | rfl
    · decide
    · decide
  have hreserved : Frame.Reserved ⟨#[⟨name, v, false⟩], outer⟩ := List.forall_mem_singleton.2 hword
  refine h.frame (fun hisOpen => ?_) hf hreserved
  rcases hopen r hisOpen with hglobal | hreceptive
  · exact hr hglobal
  · obtain ⟨hthis, hsuper⟩ := hreceptive _ hf
    rcases hname with rfl | rfl
    · simp [Frame.slot?] at hthis
    · simp [Frame.slot?] at hsuper

/-- A later machine, in which everything that has been set up for methods is still there. -/
structure Machine.Sustains (m m' : Machine) : Prop where
  frames : m.scopes.KeepsMethods m'.scopes
  size_le : m.scopes.size ≤ m'.scopes.size
  code : m'.MadeOf (Function.AssignsOnly Unreserved)

open Classical in
/-- Something has been lost that was set up for methods. -/
noncomputable def unsustained (m : Machine) : Evaluator.Activity → Machine → Bool :=
  fun _ m' => !decide (m.Sustains m')

def Ending.Sustained {α : Type} (m : Machine) : Ending α → Prop
  | .value _ m' | .stopped _ m' => m.Sustains m'
  | .exhausted => True

/-- Methods are sustained throughout an evaluation, whenever anything begins, and in the end. -/
structure Eval.SustainsMethods {α : Type} (n : Nat) (x : Evaluator → Eval α) (m : Machine) :
    Prop where
  ends : (x (.bounded n) m).Every (Ending.Sustained m)
  never : Never (unsustained m) n x m

section

variable {isOpen : ScopeRef → Prop} {n : Nat}
  (hopen : ∀ r, isOpen r → r = .global ∨ m.scopes.Receptive r)

include hopen

theorem sustains_of_holds {m' : Machine} (h : (Regime.naming isOpen m.scopes).Holds () m') :
    m.Sustains m' :=
  ⟨keepsMethods_of_keepsReserved h.1 hopen, h.1.size_le, h.2⟩

theorem naming_keeps_methods (hglobal : isOpen .global) (alarm : Failure) (n : Nat) :
    (Regime.naming isOpen m.scopes).KeepsOn (Expr.AssignsOnly Unreserved)
      (Stmt.AssignsOnly Unreserved) () (.watched (unsustained m) alarm n) (.bounded n) :=
  naming_keeps hglobal
    (fun _ _ hm' => by simpa [unsustained] using sustains_of_holds hopen hm') alarm n

/-- What agrees with its watched form under the regime sustains methods. -/
theorem sustainsMethods_of_agree {α : Type} {V : α → Prop} {S : Signal → Prop}
    (hm : m.MadeOf (Function.AssignsOnly Unreserved)) (x : Evaluator → Eval α)
    (h : ∀ alarm, Agree .shared ((Regime.naming isOpen m.scopes).Holds ()) V S
      (x (.watched (unsustained m) alarm n)) (x (.bounded n))) : Eval.SustainsMethods n x m := by
  have hholds : (Regime.naming isOpen m.scopes).Holds () m := ⟨.refl _, hm⟩
  have hsame (alarm : Failure) : x (.watched (unsustained m) alarm n) m = x (.bounded n) m :=
    (h alarm m hholds).eq nofun
  refine ⟨?_, hsame⟩
  rw [← hsame (.exit 0)]
  refine Dialogue.every_mono ((h (.exit 0)).every hholds) fun r hr => ?_
  cases r with
  | value _ m' | stopped _ m' => exact sustains_of_holds hopen hr.2
  | exhausted => trivial

end

/-- Frames of methods last through every expression, every call, and every statement in a scope that
is not itself such a frame. -/
theorem methods_last (n : Nat) (hm : m.MadeOf (Function.AssignsOnly Unreserved)) :
    (∀ e : Expr, e.AssignsOnly Unreserved → ∀ scope,
      Eval.SustainsMethods n (fun ev => ev.eval e scope) m) ∧
    (∀ s : Stmt, s.AssignsOnly Unreserved → ∀ scope, m.scopes.Receptive scope →
      Eval.SustainsMethods n (fun ev => ev.exec s scope) m) ∧
    (∀ callee args, callee.MadeOf (Function.AssignsOnly Unreserved) →
      (∀ v ∈ args, v.MadeOf (Function.AssignsOnly Unreserved)) →
      Eval.SustainsMethods n (fun ev => ev.call callee args) m) ∧
    (∀ decl : Function, decl.AssignsOnly Unreserved → ∀ closure args,
      (∀ v ∈ args, v.MadeOf (Function.AssignsOnly Unreserved)) →
      Eval.SustainsMethods n (fun ev => callFunction ev decl closure args) m) := by
  have hglobal : ∀ r, r = .global → r = .global ∨ m.scopes.Receptive r := fun _ => .inl
  refine ⟨fun e he scope => ?_, fun s hs scope hscope => ?_, fun callee args hcallee hargs => ?_,
    fun decl hdecl closure args hargs => ?_⟩
  · exact sustainsMethods_of_agree hglobal hm _ fun alarm =>
      (naming_keeps_methods hglobal rfl alarm n).eval e scope he
  · have hopen : ∀ r, r = .global ∨ r = scope → r = .global ∨ m.scopes.Receptive r := by
      rintro r (hr | rfl)
      · exact .inl hr
      · exact .inr hscope
    exact sustainsMethods_of_agree hopen hm _ fun alarm =>
      (naming_keeps_methods hopen (.inl rfl) alarm n).exec s hs (.inl (.inr rfl))
  · exact sustainsMethods_of_agree hglobal hm _ fun alarm =>
      (naming_keeps_methods hglobal rfl alarm n).call callee args hcallee hargs
  · have hruns (alarm : Failure) := callFunction_evals (i := ()) (fun _ _ =>
      (naming_keeps_methods hglobal rfl alarm n).runs (naming_covers _ _) hdecl) closure hargs
    exact sustainsMethods_of_agree hglobal hm _ hruns

/-! What a declaration makes -/

/-- A frame with another name than reserved words is no frame of a method, whatever is defined in
it. -/
theorem keepsMethods_define {s : Scopes Value} {r : ScopeRef} {f : Frame Value}
    (hf : s.frame? r = some f) (hmixed : ¬ f.Reserved) (name : String) (v : Value)
    (constant : Bool) : s.KeepsMethods (s.define r name v constant) := by
  have hkeeps : s.KeepsReserved (fun _ => False) (s.define r name v constant) := by
    refine (Scopes.KeepsReserved.refl s).modify (fun r' g _ hg hreserved heq => ?_)
      fun _ => Frame.Reserved.of_define
    obtain rfl : r = r' := congrArg ScopeRef.mk heq
    rw [hf] at hg
    cases hg
    exact hmixed hreserved
  exact keepsMethods_of_keepsReserved hkeeps nofun

/-- The frame of a scope in which a name has been defined. -/
theorem Scopes.exists_mixed_of_define {s : Scopes Value} {r : ScopeRef} (hr : r.index < s.size)
    {name : String} (hname : Unreserved name) (v : Value) (constant : Bool) :
    ∃ f, (s.define r name v constant).frame? r = some f ∧ ¬ f.Reserved := by
  obtain ⟨i, hslot, -⟩ := Frame.slot?_define s[r.index] name v constant
  refine ⟨s[r.index].define name v constant, ?_,
    fun h => h name (Frame.mem_names_of_slot? hslot) hname⟩
  rw [Scopes.define, Scopes.frame?, Array.getElem?_modify, if_pos rfl,
    Array.getElem?_eq_getElem hr]
  rfl

theorem Scopes.fresh_ne_global {s : Scopes Value} (h : 0 < s.size) :
    (⟨s.size⟩ : ScopeRef) ≠ .global := by
  intro heq
  exact Nat.ne_of_gt h (congrArg ScopeRef.index heq)

/-- A class without parent has its methods in the scope of the declaration. -/
theorem declaring_none {scope : ScopeRef} (hscope : scope.index < m.scopes.size) (name : String)
    (decls : List Function) :
    ∃ c, (m.declaring name none decls scope).scopes.get? scope name = some (.type c) ∧
      c.HasBody decls scope ∧ c.parent = none ∧
      c.Declared (m.declaring name none decls scope).scopes := by
  refine ⟨.declared m.nextId name none decls scope, Scopes.get?_define hscope ..,
    Class.declared_hasBody .., rfl, ?_⟩
  intro d hd p hp
  simp_all [Class.declared]

/-- The methods of a class with a parent have a scope of their own, which knows the parent. -/
theorem declaring_some {scope : ScopeRef} {f : Frame Value} (hf : m.scopes.frame? scope = some f)
    (hmixed : ¬ f.Reserved) (name : String) (decls : List Function) (s : Class) :
    ∃ c inner, (m.declaring name (some s) decls scope).scopes.get? scope name = some (.type c) ∧
      c.HasBody decls inner ∧ c.parent = some s ∧
      (m.declaring name (some s) decls scope).scopes.KnowsSuper inner s ∧
      (s.Declared m.scopes → c.Declared (m.declaring name (some s) decls scope).scopes) := by
  have hscope := (Array.getElem?_eq_some_iff.1 hf).1
  let pushed : Scopes Value := m.scopes.push ⟨#[⟨"super", .type s, false⟩], some scope⟩
  have hkept : pushed.KeepsMethods (m.declaring name (some s) decls scope).scopes :=
    keepsMethods_define (Scopes.frame?_push _ hf) hmixed ..
  have hknows : pushed.KnowsSuper ⟨m.scopes.size⟩ s :=
    ⟨Scopes.fresh_ne_global (Nat.zero_lt_of_lt hscope), some scope, Scopes.frame?_push_new ..⟩
  refine ⟨.declared m.nextId name (some s) decls ⟨m.scopes.size⟩, ⟨m.scopes.size⟩,
    Scopes.get?_define ?_ .., Class.declared_hasBody .., rfl, hkept.knows hknows, fun hs => ?_⟩
  · simpa [Scopes.forMethods] using Nat.lt_succ_of_lt hscope
  · intro d hd p hp e he
    rw [Class.declared, Class.chain_mk] at hd
    rcases List.mem_cons.1 hd with rfl | hd
    · cases hp
      obtain ⟨g, -, rfl⟩ := List.mem_map.1 he
      exact hkept.knows hknows
    · exact (hs.mono (.trans (.push ..) hkept)) d hd p hp e he

/-- A declaration that succeeds binds its name to a class of its body, with the parent that the
superclass evaluates to. -/
theorem classDecl_run {n : Nat} {scope : ScopeRef} {parent : Option Expr} {decls : List Function}
    {p : Text.Position} {log : List ((q : Request) × q.Answer)} {m' : Machine}
    (hm : m.MadeOf (Function.AssignsOnly Unreserved)) (hname : Unreserved name)
    (hscope : scope.index < m.scopes.size)
    (hparent : ∀ e ∈ parent, Expr.AssignsOnly Unreserved e)
    (h : ((Evaluator.bounded (n + 1)).exec (.classDecl name parent decls p) scope m).Run log
      (.value () m')) :
    ∃ c inner, m'.scopes.get? scope name = some (.type c) ∧ c.HasBody decls inner ∧
      c.parent.isSome = parent.isSome ∧
      (parent = none → inner = scope ∧ c.Declared m'.scopes) ∧
      ∀ e s, parent = some e → c.parent = some s →
        m'.scopes.KnowsSuper inner s ∧
        ∃ m₁, ((Evaluator.bounded n).eval e scope (m.announcing name scope)).Run log
            (.value (.type s) m₁) ∧
          (s.Declared m₁.scopes → c.Declared m'.scopes) := by
  change (declareClass (.bounded n) name parent decls scope m).Run log (.value () m') at h
  rw [declareClass_apply] at h
  obtain ⟨first, found, m₁, last, rfl, hfirst, hlast⟩ := exists_run_of_andThen h
  cases hlast
  cases parent with
  | none =>
    cases hfirst
    have hsize : scope.index < (m.announcing name scope).scopes.size := by
      simpa [Machine.announcing, Scopes.define] using hscope
    obtain ⟨c, hget, hbody, hnone, hdeclared⟩ := declaring_none hsize name decls
    refine ⟨c, scope, hget, hbody, by simp [hnone], fun _ => ⟨rfl, hdeclared⟩, ?_⟩
    intro e s he
    cases he
  | some e =>
    obtain ⟨s, rfl, hrun⟩ := parentClass_run hfirst
    have hholds : (Regime.naming (· = .global) (m.announcing name scope).scopes).Holds ()
        (m.announcing name scope) := ⟨.refl _, { hm with scopes := hm.scopes.define trivial }⟩
    have hkeeps := bounded_naming_keeps (· = .global) rfl (m.announcing name scope).scopes n
    have hends := ((hkeeps.eval e scope (hparent e rfl)).every hholds).of_run hrun
    obtain ⟨f, hf, hmixed⟩ := Scopes.exists_mixed_of_define hscope hname Value.nil false
    obtain ⟨g, hg, hmixed'⟩ := hends.2.1.mixed hf hmixed
    obtain ⟨c, inner, hget, hbody, hsome, hknows, hdeclared⟩ :=
      declaring_some hg hmixed' name decls s
    refine ⟨c, inner, hget, hbody, by simp [hsome], fun h => ?_, fun e' s' he hs' => ?_⟩
    · cases h
    · cases he
      obtain rfl : s = s' := Option.some.inj (hsome.symm.trans hs')
      exact ⟨hknows, m₁, by simpa using hrun, hdeclared⟩

/-- Methods are found along the chain of superclasses, and what they find there stays the same. -/
structure Machine.DispatchesMethods (n : Nat) (m : Machine) : Prop where
  /-- A property of an instance is its own field, else the nearest method, bound to the instance,
  else the nearest built-in method, else a failure. -/
  lookup {r : InstanceRef} {i : Instance} (name : String) : m.heap.instance? r = some i →
    property (.object r) name m = .finished (m.propertyOf r i name)
  /-- Binding a method makes a frame for it and leaves those of other methods alone. The scope of a
  method of a declared class knows the parent of the class that declares the method. -/
  binds {c d : Class} {name : String} {method : Method} (this : Value) :
    c.nearest? name = some (d, method) →
      (m.binding method this).scopes.Binds ⟨m.scopes.size⟩ this method.scope ∧
      m.scopes.KeepsMethods (m.binding method this).scopes ∧
      (c.Declared m.scopes → ∀ p, d.parent = some p →
        p.Declared m.scopes ∧ m.scopes.KnowsSuper method.scope p)
  /-- Inside of a bound method `this` is the value that it is bound to. -/
  receiver {b q r : ScopeRef} {this : Value} (p : Text.Position) : m.scopes.Binds b this q →
    m.scopes.InMethod b r →
    (Evaluator.bounded (n + 1)).eval (.this p) r m = .finished (.value this m)
  /-- Inside of a method of a class with a parent, `super` is the nearest method from the parent
  on, bound to the same value. -/
  superclass {b q r : ScopeRef} {this : Value} {s : Class} (name : String) (p : Text.Position) :
    m.scopes.Binds b this q → m.scopes.KnowsSuper q s → m.scopes.InMethod b r →
    (Evaluator.bounded (n + 1)).eval (.super name p) r m =
      .finished (m.dispatch s name this (.stopped (.failed (.undefinedProperty name)) m))
  /-- A call of a bound method runs its body in a fresh scope, which is inside of the method. -/
  invokes (b : ScopeRef) (decl : Function) (args : List Value) :
    invoke (.bounded n) decl b args m =
      (bindParams (.bounded n) ⟨m.scopes.size⟩ decl.params args).bind
        (fun _ => (Evaluator.bounded n).execAll decl.body ⟨m.scopes.size⟩)
        { m with scopes := (m.scopes.child b).2 } ∧
    Scopes.InMethod (m.scopes.child b).2 b ⟨m.scopes.size⟩
  /-- A fresh scope inside of a method, that of a call or a block or a closure of it, is inside of
  it as well, and a scope stays inside unless `this` or `super` is defined anew. -/
  body {b r : ScopeRef} : m.scopes.InMethod b r →
    Scopes.InMethod (m.scopes.child r).2 b (m.scopes.child r).1 ∧
    (∀ place name v constant, name ≠ "this" → name ≠ "super" →
      Scopes.InMethod (m.scopes.define place name v constant) b r) ∧
    ∀ place v, Scopes.InMethod (m.scopes.put place v) b r
  /-- What has been set up for methods outlasts fresh scopes, definitions in scopes for statements
  and assignments to names. -/
  frames : (∀ r, m.scopes.KeepsMethods (m.scopes.child r).2) ∧
    (∀ r name v constant, m.scopes.Receptive r →
      m.scopes.KeepsMethods (m.scopes.define r name v constant)) ∧
    ∀ r name place v, Unreserved name → m.scopes.target r name = .ok place →
      m.scopes.KeepsMethods (m.scopes.put place v)
  /-- It lasts whatever is evaluated, executed or called. -/
  expressions (e : Expr) (scope : ScopeRef) : e.AssignsOnly Unreserved →
    Eval.SustainsMethods n (fun ev => ev.eval e scope) m
  statements (s : Stmt) (scope : ScopeRef) : s.AssignsOnly Unreserved → m.scopes.Receptive scope →
    Eval.SustainsMethods n (fun ev => ev.exec s scope) m
  calls (callee : Value) (args : List Value) : callee.MadeOf (Function.AssignsOnly Unreserved) →
    (∀ v ∈ args, v.MadeOf (Function.AssignsOnly Unreserved)) →
    Eval.SustainsMethods n (fun ev => ev.call callee args) m
  functions (decl : Function) (closure : ScopeRef) (args : List Value) :
    decl.AssignsOnly Unreserved → (∀ v ∈ args, v.MadeOf (Function.AssignsOnly Unreserved)) →
    Eval.SustainsMethods n (fun ev => callFunction ev decl closure args) m
  /-- A declaration makes a class of its body, with the last method of each name. -/
  declares {name : String} {scope : ScopeRef} {parent : Option Expr} {decls : List Function}
    {p : Text.Position} {log : List ((q : Request) × q.Answer)} {m' : Machine} :
    Unreserved name → scope.index < m.scopes.size →
    (∀ e ∈ parent, Expr.AssignsOnly Unreserved e) →
    ((Evaluator.bounded (n + 1)).exec (.classDecl name parent decls p) scope m).Run log
      (.value () m') →
    ∃ c inner, m'.scopes.get? scope name = some (.type c) ∧ c.HasBody decls inner ∧
      c.parent.isSome = parent.isSome ∧
      (parent = none → inner = scope ∧ c.Declared m'.scopes) ∧
      ∀ e s, parent = some e → c.parent = some s →
        m'.scopes.KnowsSuper inner s ∧
        ∃ m₁, ((Evaluator.bounded n).eval e scope (m.announcing name scope)).Run log
            (.value (.type s) m₁) ∧
          (s.Declared m₁.scopes → c.Declared m'.scopes)
  /-- A class takes the arguments of the nearest constructor and gives a fresh instance. -/
  accepts (c : Class) (args : List Value) : c.Takes args.length →
    (Evaluator.bounded (n + 1)).call (.type c) args m = m.constructed n c args
  refuses (c : Class) (args : List Value) : ¬ c.Takes args.length →
    (Evaluator.bounded (n + 1)).call (.type c) args m =
      .finished (.stopped (.failed (.arity c.arity.describe args.length)) m)

/-- Methods are dispatched along the chain of superclasses on every machine with code that has been
parsed, which assigns to no reserved word. -/
theorem methods_dispatched (n : Nat) (m : Machine) (hglobal : 0 < m.scopes.size)
    (hm : m.MadeOf (Function.AssignsOnly Unreserved)) : m.DispatchesMethods n := by
  obtain ⟨hexpressions, hstatements, hcalls, hfunctions⟩ := methods_last n hm
  exact {
    lookup := fun name hi => property_object hi name
    binds := fun this hnearest => by
      refine ⟨⟨Scopes.fresh_ne_global hglobal, Scopes.frame?_push_new ..⟩, .push ..,
        fun hdeclared p hp => ?_⟩
      obtain ⟨hd, hmethod⟩ := Class.mem_chain_of_nearest? hnearest
      exact ⟨hdeclared.parent hd hp, hdeclared _ hd p hp _ hmethod⟩
    receiver := fun _ hb hr => lookup_of_get? (hb.this hr)
    invokes := fun _ _ _ => ⟨rfl, Scopes.Inside.here.child⟩
    body := fun hr => ⟨hr.child, fun place name v constant hthis hsuper =>
      hr.define (by simp [hthis, hsuper]) place v constant, hr.put⟩
    superclass := fun name _ hb hq hr =>
      super_dispatches ((hb.super hr).trans hq.get?) (hb.this hr) name
    frames := by
      have hrefl {isOpen} : m.scopes.KeepsReserved isOpen m.scopes := .refl _
      refine ⟨fun r => .push .., fun r name v constant hr => ?_,
        fun r name place v hname hplace => ?_⟩
      · exact keepsMethods_of_keepsReserved (hrefl.define (.inl rfl) name v constant)
          (by rintro _ rfl; exact .inr hr)
      · exact keepsMethods_of_keepsReserved (hrefl.put hname hplace v) fun _ => False.elim
    expressions := fun e scope he => hexpressions e he scope
    statements := fun s scope hs => hstatements s hs scope
    calls := hcalls
    functions := fun decl closure args hdecl => hfunctions decl hdecl closure args
    declares := classDecl_run hm
    accepts := fun c args h =>
      (callStep_type _ c args m).trans (by
        rw [if_pos ((accepts_iff_takes c _).2 h), instantiate_apply])
    refuses := fun c args h =>
      (callStep_type _ c args m).trans (if_neg fun ha => h ((accepts_iff_takes c _).1 ha)) }

/-! The classes `class A { m() {} }` and `class B < A { m() { return super.m(); } }` -/

def baseMethod : Function := .mk "m" [] [] false none ⟨1, 11, 10⟩

def derivedMethod : Function :=
  .mk "m" [] [.return (some (.call (.super "m" ⟨1, 47, 46⟩) [] ⟨1, 54, 53⟩)) ⟨1, 40, 39⟩] false none
    ⟨1, 34, 33⟩

def baseClass : Class := .declared 2 "A" none [baseMethod] .global

def derivedClass : Class := .declared 3 "B" (some baseClass) [derivedMethod] ⟨1⟩

/-- A machine with both classes and an instance of the second one. -/
def derivedMachine : Machine :=
  (((Machine.bare .default).declaring "A" none [baseMethod] .global).declaring "B" (some baseClass)
    [derivedMethod] .global).creating derivedClass

/-- A machine in the body of the second method. -/
def inDerivedMethod : Machine :=
  let bound := derivedMachine.binding ⟨derivedMethod, ⟨1⟩⟩ (.object ⟨0⟩)
  { bound with scopes := (bound.scopes.child ⟨2⟩).2 }

theorem Class.declared_madeOf {code : Function → Prop} {parent : Option Class}
    {decls : List Function} (hdecls : ∀ f ∈ decls, code f)
    (hparent : ∀ p, parent = some p → p.MadeOf code) (id : Nat) (name : String)
    (inner : ScopeRef) : (Class.declared id name parent decls inner).MadeOf code := by
  refine Class.madeOf_mk (fun e he => ?_) hparent
  obtain ⟨f, hf, rfl⟩ := List.mem_map.1 he
  exact hdecls f (List.mem_reverse.1 hf)

section

variable {code : Function → Prop} (hm : m.MadeOf code)

include hm

theorem Machine.MadeOf.declaring {parent : Option Class} {decls : List Function}
    (hdecls : ∀ f ∈ decls, code f) (hparent : ∀ p, parent = some p → p.MadeOf code)
    (name : String) (scope : ScopeRef) : (m.declaring name parent decls scope).MadeOf code := by
  have hclass := Class.declared_madeOf hdecls hparent m.nextId name
  cases parent with
  | none => exact { hm with scopes := hm.scopes.define (hclass scope) }
  | some p =>
    have hinner : Scopes.MadeOf code (m.scopes.forMethods (some p) scope).2 := by
      rw [Scopes.forMethods, ← Scopes.define_child]
      exact (hm.scopes.child scope).define (hparent p rfl)
    exact { hm with scopes := hinner.define (hclass _) }

theorem Machine.MadeOf.binding (method : Method) {this : Value} (hthis : this.MadeOf code) :
    (m.binding method this).MadeOf code := by
  refine { hm with scopes := ?_ }
  rw [Machine.binding, Scopes.bound, ← Scopes.define_child]
  exact (hm.scopes.child _).define hthis

theorem Machine.MadeOf.creating {c : Class} (hc : c.MadeOf code) : (m.creating c).MadeOf code :=
  { hm with heap := hm.heap.newInstance ⟨hc, nofun⟩ }

end

theorem derivedMethod_assigns : derivedMethod.AssignsOnly Unreserved := by
  have hsuper : Expr.AssignsOnly Unreserved (.super "m" ⟨1, 47, 46⟩) := ⟨nofun, nofun, nofun⟩
  have hcall : Expr.AssignsOnly Unreserved (.call (.super "m" ⟨1, 47, 46⟩) [] ⟨1, 54, 53⟩) :=
    ⟨nofun, List.forall_mem_singleton.2 hsuper, nofun⟩
  refine ⟨nofun, List.forall_mem_singleton.2 ⟨?_, nofun, nofun⟩⟩
  exact List.forall_mem_singleton.2 hcall

theorem derivedMachine_madeOf : derivedMachine.MadeOf (Function.AssignsOnly Unreserved) := by
  have hbaseMethod : ∀ f ∈ [baseMethod], f.AssignsOnly Unreserved :=
    List.forall_mem_singleton.2 ⟨nofun, nofun⟩
  have hderivedMethod : ∀ f ∈ [derivedMethod], f.AssignsOnly Unreserved :=
    List.forall_mem_singleton.2 derivedMethod_assigns
  have hnone : ∀ p : Class, none = some p → p.MadeOf (Function.AssignsOnly Unreserved) := nofun
  have hbase : ∀ p, some baseClass = some p → p.MadeOf (Function.AssignsOnly Unreserved) := by
    rintro _ ⟨⟩
    exact Class.declared_madeOf hbaseMethod hnone ..
  have hm := (bare_madeOf .default).declaring hbaseMethod hnone "A" .global
  exact (hm.declaring hderivedMethod hbase "B" .global).creating
    (Class.declared_madeOf hderivedMethod hbase ..)

theorem inDerivedMethod_madeOf : inDerivedMethod.MadeOf (Function.AssignsOnly Unreserved) := by
  have hthis : (Value.object ⟨0⟩).MadeOf (Function.AssignsOnly Unreserved) := trivial
  have hbound := derivedMachine_madeOf.binding ⟨derivedMethod, ⟨1⟩⟩ hthis
  exact { hbound with scopes := hbound.scopes.child ⟨2⟩ }

theorem inDerivedMethod_binds : inDerivedMethod.scopes.Binds ⟨2⟩ (.object ⟨0⟩) ⟨1⟩ :=
  ⟨by decide, rfl⟩

theorem inDerivedMethod_knows : inDerivedMethod.scopes.KnowsSuper ⟨1⟩ baseClass :=
  ⟨by decide, some .global, rfl⟩

theorem inDerivedMethod_inside : inDerivedMethod.scopes.InMethod ⟨2⟩ ⟨3⟩ :=
  .within (f := ⟨#[], some ⟨2⟩⟩) rfl (fun _ _ => Frame.slot?_empty ..) rfl .here

theorem derivedMethod_reaches_base :
    property (.object ⟨0⟩) "m" derivedMachine =
      .finished (derivedMachine.bound ⟨derivedMethod, ⟨1⟩⟩ (.object ⟨0⟩)) ∧
    (Evaluator.bounded 1).eval (.super "m" ⟨1, 47, 46⟩) ⟨3⟩ inDerivedMethod =
      .finished (inDerivedMethod.bound ⟨baseMethod, .global⟩ (.object ⟨0⟩)) :=
  ⟨(methods_dispatched 0 derivedMachine (by decide) derivedMachine_madeOf).lookup (r := ⟨0⟩)
      (i := ⟨derivedClass, .empty⟩) "m" rfl,
    (methods_dispatched 0 inDerivedMethod (by decide) inDerivedMethod_madeOf).superclass "m" _
      inDerivedMethod_binds inDerivedMethod_knows inDerivedMethod_inside⟩

end ScriptEngine
