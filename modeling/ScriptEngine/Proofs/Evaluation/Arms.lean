import ScriptEngine.Engine.Script
import ScriptEngine.Proofs.Evaluation.Classes
import ScriptEngine.Proofs.Evaluation.Destructuring

/-!
# Arms that are taken

An arm is taken when its pattern fits, and then the pattern is bound. All that a fitting pattern
meets outside of elements that take the rest suits. What stands inside such an element is not looked
at before the arm is taken, so that is where binding can still fail.
-/
namespace ScriptEngine
open Eval

variable {h g : Heap} {p : Pattern} {v : Value} {m : Machine}

/-! Inside of an element that takes the rest -/

mutual

theorem Pattern.inRest_inside : ∀ (p : Pattern) (v : Value) (h : Heap),
    ∀ e ∈ (p.inside true v h).1, e.inRest
  | .name _, _, _ => by
    rw [Pattern.inside]
    nofun
  | .literal _, _, _ => by
    rw [Pattern.inside]
    nofun
  | .array elements, v, h => by
    unfold Pattern.inside
    split
    · exact Pattern.inRest_elementsMeet _ elements 0 h
    · nofun
  | .object fields, v, h => by
    unfold Pattern.inside
    split
    · exact Pattern.inRest_fieldsMeet _ fields h
    · nofun

theorem Pattern.inRest_elementsMeet (items : Array Value) :
    ∀ (elements : List (Pattern × Bool)) (i : Nat) (h : Heap),
      ∀ e ∈ (Pattern.elementsMeet true items elements i h).1, e.inRest
  | [], _, _ => by
    rw [Pattern.elementsMeet]
    nofun
  | (p, spread) :: rest, i, h => by
    rw [Pattern.elementsMeet, List.forall_mem_cons, List.forall_mem_append]
    exact ⟨rfl, Pattern.inRest_inside p _ _, Pattern.inRest_elementsMeet items rest _ _⟩

theorem Pattern.inRest_fieldsMeet (r : InstanceRef) :
    ∀ (fields : List (String × Pattern)) (h : Heap),
      ∀ e ∈ (Pattern.fieldsMeet true r fields h).1, e.inRest
  | [], _ => by
    rw [Pattern.fieldsMeet]
    nofun
  | (key, p) :: rest, h => by
    rw [Pattern.fieldsMeet, List.forall_mem_cons, List.forall_mem_append]
    exact ⟨rfl, Pattern.inRest_inside p _ _, Pattern.inRest_fieldsMeet r rest _⟩

end

theorem Pattern.inRest_rest (items : Array Value) (p : Pattern) (i : Nat) (h : Heap) :
    ∀ e ∈ (Pattern.elementsMeet false items [(p, true)] i h).1, e.inRest := by
  rw [Pattern.elementsMeet, Pattern.elementsMeet, List.append_nil, List.forall_mem_cons]
  exact ⟨rfl, Pattern.inRest_inside p _ _⟩

/-! Outside of it -/

/-- Elements that fit are a last one that takes the rest, or the first one fits the first item and
the others the others. -/
theorem Pattern.elementsFit_cons {spread : Bool} {rest : List (Pattern × Bool)}
    {items : List Value} (hfit : Pattern.elementsFit h ((p, spread) :: rest) items) :
    (spread ∧ rest = []) ∨
      ∃ v others, items = v :: others ∧ p.fits h v ∧ Pattern.elementsFit h rest others := by
  cases rest with
  | nil =>
    cases spread with
    | true => exact .inl ⟨rfl, rfl⟩
    | false =>
      match items with
      | [] => simp [Pattern.elementsFit] at hfit
      | [v] =>
        simp only [Pattern.elementsFit, Bool.false_eq_true, if_false] at hfit
        exact .inr ⟨v, [], rfl, hfit, by simp [Pattern.elementsFit]⟩
      | _ :: _ :: _ => simp [Pattern.elementsFit] at hfit
  | cons q rest =>
    cases items with
    | nil => simp [Pattern.elementsFit] at hfit
    | cons v others =>
      simp only [Pattern.elementsFit, Bool.and_eq_true] at hfit
      exact .inr ⟨v, others, rfl, hfit⟩

mutual

/-- What a fitting pattern meets outside of elements that take the rest suits, also when further
arrays have been made since. -/
theorem Pattern.suits_of_fits : ∀ (p : Pattern) (v : Value) (g : Heap), h.AddsArrays g →
    p.fits h v → ∀ e ∈ ⟨p, v, g, false⟩ :: (p.inside false v g).1, e.inRest ∨ e.suits
  | .name n, v, g, _, _ => by
    rw [Pattern.inside]
    simp [Meeting.suits]
  | .literal l, v, g, _, _ => by
    rw [Pattern.inside]
    simp [Meeting.suits]
  | .array elements, v, g, hg, hfit => by
    cases v with
    | array r =>
      rw [Pattern.fits] at hfit
      rw [Pattern.inside, List.forall_mem_cons]
      refine ⟨.inr rfl, ?_⟩
      by_cases hr : r.index < h.arrays.size
      · refine Pattern.suits_of_elementsFit _ elements 0 g hg ?_
        rwa [hg.array hr, List.drop_zero]
      · -- An array that is not there has no items, whatever has been put in its place.
        have hnone : (h.array r).toList = [] := by
          simp [Heap.array, Array.getD_eq_getD_getElem?, Nat.le_of_not_lt hr]
        rw [hnone] at hfit
        match elements with
        | [] =>
          rw [Pattern.elementsMeet]
          nofun
        | (p, spread) :: rest =>
          obtain ⟨rfl, rfl⟩ | ⟨_, _, hitems, -⟩ := Pattern.elementsFit_cons hfit
          · exact fun e he => .inl (Pattern.inRest_rest _ p 0 g e he)
          · cases hitems
    | _ => simp [Pattern.fits] at hfit
  | .object fields, v, g, hg, hfit => by
    cases v with
    | object r =>
      rw [Pattern.fits] at hfit
      rw [Pattern.inside, List.forall_mem_cons]
      exact ⟨.inr rfl, Pattern.suits_of_fieldsFit r fields g hg hfit⟩
    | _ => simp [Pattern.fits] at hfit

theorem Pattern.suits_of_elementsFit (items : Array Value) :
    ∀ (elements : List (Pattern × Bool)) (i : Nat) (g : Heap), h.AddsArrays g →
      Pattern.elementsFit h elements (items.toList.drop i) →
      ∀ e ∈ (Pattern.elementsMeet false items elements i g).1, e.inRest ∨ e.suits
  | [], _, _, _, _ => by
    rw [Pattern.elementsMeet]
    nofun
  | (p, spread) :: rest, i, g, hg, hfit => by
    obtain ⟨rfl, rfl⟩ | ⟨v, others, hitems, hp, hrest⟩ := Pattern.elementsFit_cons hfit
    · exact fun e he => .inl (Pattern.inRest_rest items p i g e he)
    rw [Pattern.elementsMeet, ← List.cons_append, List.forall_mem_append]
    have hpart := (hg.trans (g.part_addsArrays items spread i)).trans
      (Pattern.inside_addsArrays (false || spread) p (g.part items spread i).1 _)
    refine ⟨?_, Pattern.suits_of_elementsFit items rest (i + 1) _ hpart ?_⟩
    · cases spread with
      | true =>
        -- No source text has such an element before others, but then it takes the rest all the
        -- same.
        rw [List.forall_mem_cons]
        exact ⟨.inl rfl, fun e he => .inl (Pattern.inRest_inside p _ _ e he)⟩
      | false =>
        have hv : items.getD i .nil = v := by
          rw [Array.getD_eq_getD_getElem?, ← Array.getElem?_toList, ← List.head?_drop, hitems]
          rfl
        have hselect : g.part items false i = (v, g) := by
          rw [← hv]
          rfl
        rw [hselect]
        exact Pattern.suits_of_fits p v g hg hp
    · rwa [← List.drop_drop, hitems]

theorem Pattern.suits_of_fieldsFit (r : InstanceRef) :
    ∀ (fields : List (String × Pattern)) (g : Heap), h.AddsArrays g →
      Pattern.fieldsFit h fields r →
      ∀ e ∈ (Pattern.fieldsMeet false r fields g).1, e.inRest ∨ e.suits
  | [], _, _, _ => by
    rw [Pattern.fieldsMeet]
    nofun
  | (key, p) :: rest, g, hg, hfit => by
    rw [Pattern.fieldsFit, Bool.and_eq_true] at hfit
    obtain ⟨hfield, hrest⟩ := hfit
    rw [Pattern.fieldsMeet, ← List.cons_append, List.forall_mem_append, hg.field?]
    refine ⟨?_, Pattern.suits_of_fieldsFit r rest _ (hg.trans (Pattern.inside_addsArrays ..)) hrest⟩
    cases hkey : h.field? r key with
    | none => simp [hkey] at hfield
    | some v =>
      rw [hkey] at hfield
      exact Pattern.suits_of_fits p v g hg hfield

end

/-! Elements that take the rest under a name -/

mutual

/-- Whether elements that take the rest do not take it apart. -/
def Pattern.restsWhole : Pattern → Bool
  | .name _ => true
  | .literal _ => true
  | .array elements => Pattern.elementsWhole elements
  | .object fields => Pattern.fieldsWhole fields

def Pattern.elementsWhole : List (Pattern × Bool) → Bool
  | [] => true
  | (.name _, true) :: rest => Pattern.elementsWhole rest
  | (.literal _, true) :: rest => Pattern.elementsWhole rest
  | (_, true) :: _ => false
  | (p, false) :: rest => p.restsWhole && Pattern.elementsWhole rest

def Pattern.fieldsWhole : List (String × Pattern) → Bool
  | [] => true
  | (_, p) :: rest => p.restsWhole && Pattern.fieldsWhole rest

end

mutual

theorem Pattern.suits_of_restsWhole : ∀ (p : Pattern) (v : Value) (h : Heap), p.restsWhole →
    ∀ e ∈ (p.inside false v h).1, e.inRest → e.suits
  | .name _, _, _, _ => by
    rw [Pattern.inside]
    nofun
  | .literal _, _, _, _ => by
    rw [Pattern.inside]
    nofun
  | .array elements, v, h, hwhole => by
    rw [Pattern.restsWhole] at hwhole
    unfold Pattern.inside
    split
    · exact Pattern.suits_of_elementsWhole _ elements 0 h hwhole
    · nofun
  | .object fields, v, h, hwhole => by
    rw [Pattern.restsWhole] at hwhole
    unfold Pattern.inside
    split
    · exact Pattern.suits_of_fieldsWhole _ fields h hwhole
    · nofun

theorem Pattern.suits_of_elementsWhole (items : Array Value) :
    ∀ (elements : List (Pattern × Bool)) (i : Nat) (h : Heap), Pattern.elementsWhole elements →
      ∀ e ∈ (Pattern.elementsMeet false items elements i h).1, e.inRest → e.suits
  | [], _, _, _ => by
    rw [Pattern.elementsMeet]
    nofun
  | (.name n, true) :: rest, i, h, hwhole => by
    rw [Pattern.elementsWhole] at hwhole
    rw [Pattern.elementsMeet, List.forall_mem_cons, Pattern.inside]
    exact ⟨fun _ => rfl, Pattern.suits_of_elementsWhole items rest _ _ hwhole⟩
  | (.literal l, true) :: rest, i, h, hwhole => by
    rw [Pattern.elementsWhole] at hwhole
    rw [Pattern.elementsMeet, List.forall_mem_cons, Pattern.inside]
    exact ⟨fun _ => rfl, Pattern.suits_of_elementsWhole items rest _ _ hwhole⟩
  | (.array _, true) :: _, _, _, hwhole => by simp [Pattern.elementsWhole] at hwhole
  | (.object _, true) :: _, _, _, hwhole => by simp [Pattern.elementsWhole] at hwhole
  | (p, false) :: rest, i, h, hwhole => by
    rw [Pattern.elementsWhole, Bool.and_eq_true] at hwhole
    rw [Pattern.elementsMeet, List.forall_mem_cons, List.forall_mem_append]
    exact ⟨nofun, Pattern.suits_of_restsWhole p _ _ hwhole.1,
      Pattern.suits_of_elementsWhole items rest _ _ hwhole.2⟩

theorem Pattern.suits_of_fieldsWhole (r : InstanceRef) :
    ∀ (fields : List (String × Pattern)) (h : Heap), Pattern.fieldsWhole fields →
      ∀ e ∈ (Pattern.fieldsMeet false r fields h).1, e.inRest → e.suits
  | [], _, _ => by
    rw [Pattern.fieldsMeet]
    nofun
  | (key, p) :: rest, h, hwhole => by
    rw [Pattern.fieldsWhole, Bool.and_eq_true] at hwhole
    rw [Pattern.fieldsMeet, List.forall_mem_cons, List.forall_mem_append]
    exact ⟨nofun, Pattern.suits_of_restsWhole p _ _ hwhole.1,
      Pattern.suits_of_fieldsWhole r rest _ hwhole.2⟩

end

/-! Taking an arm -/

/-- A match statement evaluates the value, binds the pattern of the arm in a fresh frame and
executes the body there. -/
theorem select_run {n : Nat} {value : Expr} {arms : List (Pattern × Stmt)} {body : Stmt}
    (pos : Text.Position) {scope : ScopeRef} {m₀ : Machine}
    {log log' : List ((q : Request) × q.Answer)} {r : Ending Unit}
    (hchosen : chosenArm? m.heap v arms = some (p, body))
    (hvalue : ((Evaluator.bounded n).eval value scope m₀).Run log (.value v m))
    (hbody : ((bindPattern ⟨m.scopes.size⟩ false p v (m.opening scope)).bind
      (andThen fun _ => (Evaluator.bounded n).exec body ⟨m.scopes.size⟩)).Run log' r) :
    ((Evaluator.bounded (n + 1)).exec (.select value arms pos) scope m₀).Run (log ++ log') r := by
  have hread : Eval.read (fun m => chosenArm? m.heap v arms) m =
      .finished (.value (some (p, body)) m) := by
    rw [← hchosen]
    rfl
  change (Eval.bind ((Evaluator.bounded n).eval value scope) _ m₀).Run _ _
  rw [bind_apply]
  refine Dialogue.run_bind.2 ⟨log, _, log', rfl, hvalue, ?_⟩
  simp only [andThen]
  rw [bind_of_value hread]
  change (Eval.bind (bindPattern ⟨m.scopes.size⟩ false p v) _ (m.opening scope)).Run log' r
  rw [bind_apply]
  exact hbody

/-- Of a fitting pattern only what stands inside of elements that take the rest is in question. -/
theorem Pattern.all_suit_iff (hfit : p.fits h v) :
    (∀ e ∈ p.meetings v h, e.suits) ↔ ∀ e ∈ p.meetings v h, e.inRest → e.suits := by
  have houtside := Pattern.suits_of_fits p v h (.refl h) hfit
  exact ⟨fun hsuits e he _ => hsuits e he,
    fun hrest e he => (houtside e he).elim (hrest e he) id⟩

/-- Names that are defined in a fresh frame are all that is there. -/
theorem Machine.Binds.fresh {m' : Machine} {scope : ScopeRef} {constant : Bool}
    {bs : List (String × Value)}
    (hbinds : (m.opening scope).Binds m' ⟨m.scopes.size⟩ constant bs) :
    ∃ f, m'.scopes.frame? ⟨m.scopes.size⟩ = some f ∧ f.parent = some scope ∧
      ∀ name, name ∈ f.names ↔ name ∈ bs.map Prod.fst := by
  obtain ⟨f, hf, hdefines⟩ := hbinds.frame _ (Scopes.frame?_child m.scopes scope)
  refine ⟨f, hf, hdefines.parent, fun name => ?_⟩
  rw [hdefines.names, Frame.mem_foldl_addName]
  simp [Frame.names]

/-- Where the pattern of an arm fits, binding it in a fresh frame succeeds just if all parts inside
of elements that take the rest suit, in particular if none of these takes the rest apart. Then the
frame has the names of the pattern and the body of the arm follows. Otherwise one of those parts is
refused, and with it the match statement. -/
theorem fitting_arm_binds (h : p.fits m.heap v) (scope : ScopeRef) :
    let inner : ScopeRef := ⟨m.scopes.size⟩
    let bound := bindPattern inner false p v (m.opening scope)
    ((∃ m', bound = .finished (.value () m')) ↔
      ∀ e ∈ p.meetings v m.heap, e.inRest → e.suits) ∧
    (p.restsWhole → ∃ m', bound = .finished (.value () m')) ∧
    ((∃ m' f, bound = .finished (.value () m') ∧ m'.scopes.frame? inner = some f ∧
        f.parent = some scope ∧ ∀ name, name ∈ f.names ↔ name ∈ p.names) ∨
      ∃ e m', e ∈ p.meetings v m.heap ∧ e.inRest ∧ e.suits = false ∧
        bound = .finished (.stopped (.failed e.refusal) m')) ∧
    ∀ n value arms body pos m₀ log, chosenArm? m.heap v arms = some (p, body) →
      ((Evaluator.bounded n).eval value scope m₀).Run log (.value v m) →
        (∀ m', bound = .finished (.value () m') → ∀ log' r,
          ((Evaluator.bounded n).exec body inner m').Run log' r →
          ((Evaluator.bounded (n + 1)).exec (.select value arms pos) scope m₀).Run
            (log ++ log') r) ∧
        ∀ s m', bound = .finished (.stopped s m') →
          ((Evaluator.bounded (n + 1)).exec (.select value arms pos) scope m₀).Run log
            (.stopped s m') := by
  intro inner bound
  have hbound : (∃ m', bound = .finished (.value () m')) ↔
      ∀ e ∈ p.meetings v m.heap, e.inRest → e.suits :=
    (bindPattern_value_iff inner false p v (m.opening scope)).trans (Pattern.all_suit_iff h)
  refine ⟨hbound, fun hwhole => hbound.2 ?_, ?_, ?_⟩
  · rw [Pattern.meetings, List.forall_mem_cons]
    exact ⟨nofun, Pattern.suits_of_restsWhole p v m.heap hwhole⟩
  · rcases Meeting.suits_or_first (p.meetings v m.heap) with
      hsuits | ⟨before, e, after, hmet, hbefore, he⟩
    · have hsuits' : ∀ e ∈ p.meetings v (m.opening scope).heap, e.suits := hsuits
      obtain ⟨m', hm', hnames, hbinds, -⟩ := bindPattern_binds inner false hsuits'
      obtain ⟨f, hf, hparent, hmem⟩ := hbinds.fresh
      exact .inl ⟨m', f, hm', hf, hparent, fun name => hnames ▸ hmem name⟩
    · have hmem : e ∈ p.meetings v m.heap := by simp [hmet]
      have hin : e.inRest :=
        (Pattern.suits_of_fits p v m.heap (.refl _) h e hmem).resolve_right (by simp [he])
      have hmet' : p.meetings v (m.opening scope).heap = before ++ e :: after := hmet
      exact .inr ⟨e, _, hmem, hin, he, bindPattern_of_refused inner false hmet' hbefore he⟩
  · intro n value arms body pos m₀ log hchosen hvalue
    have hrun {log' r} (hbody : (bound.bind (andThen fun _ =>
        (Evaluator.bounded n).exec body inner)).Run log' r) :
        ((Evaluator.bounded (n + 1)).exec (.select value arms pos) scope m₀).Run (log ++ log') r :=
      select_run pos hchosen hvalue hbody
    refine ⟨fun m' hm' log' r hbody => hrun ?_, fun s m' hm' => ?_⟩
    · rw [hm']
      exact hbody
    · rw [← List.append_nil log]
      refine hrun ?_
      rw [hm']
      exact .finished _

/-- The arrays `[true, [false, nil], nil, nil]` and `[false, nil]`. -/
def nested : Machine :=
  { Machine.bare .default with
    heap := ⟨#[#[.bool true, .array ⟨1⟩, .nil, .nil], #[.bool false, .nil]], #[]⟩ }

/-- The pattern `[a, [b, nil], ...c]`. -/
def unnesting : Pattern :=
  .array [(.name "a", false), (.array [(.name "b", false), (.literal .nil, false)], false),
    (.name "c", true)]

theorem unnesting_binds :
    unnesting.fits nested.heap (.array ⟨0⟩) = true ∧
      ∃ m', bindPattern ⟨nested.scopes.size⟩ false unnesting (.array ⟨0⟩) (nested.opening .global) =
        .finished (.value () m') := by
  have h : unnesting.fits nested.heap (.array ⟨0⟩) = true := by decide +kernel
  exact ⟨h, (fitting_arm_binds h .global).2.1 (by decide)⟩

/-- The failure that something ends with before it asks for anything. -/
def Talk.refusal? {α : Type} : Talk (Ending α) → Option String
  | .finished (.stopped (.failed f) _) => some f.message
  | _ => none

/-- In its first arm the rest of the array is taken for an instance. -/
def grasping : String :=
  "match ([true]) \x7b [...\x7bb\x7d] -> print b; c -> print c; \x7d"

/-- The machine on which `grasping` chooses an arm for the array `[true]`. -/
def boxed : Machine := { Machine.bare .default with heap := ⟨#[#[.bool true]], #[]⟩ }

theorem grasping_chosen_and_refused :
    (match Grammar.parse grasping with
      | .ok [.select _ ((p, _) :: _) _] =>
        p.fits boxed.heap (.array ⟨0⟩) &&
          (bindPattern ⟨boxed.scopes.size⟩ false p (.array ⟨0⟩) (boxed.opening .global)).refusal? ==
            some "Cannot destructure non-object value."
      | _ => false) = true := by
  decide +kernel

end ScriptEngine
