import ScriptEngine.Proofs.Grammar.Names
import ScriptEngine.Proofs.Program.Rendering

/-!
# Parsed expressions respect the levels

What a production reads is leveled if what the productions below it read is, and it only assigns to
names that are among the tokens. So is everything that the parser reads, at any depth and inside
functions and templates.
-/
namespace ScriptEngine

/-- An expression that respects the levels and assigns only to some names. -/
structure Expr.Regular (allowed : String → Prop) (e : Expr) : Prop where
  leveled : e.Leveled
  assigns : e.AssignsOnly allowed

structure Function.Regular (allowed : String → Prop) (f : Function) : Prop where
  leveled : f.Leveled
  assigns : f.AssignsOnly allowed

structure Stmt.Regular (allowed : String → Prop) (s : Stmt) : Prop where
  leveled : s.Leveled
  assigns : s.AssignsOnly allowed

theorem Expr.Regular.part {allowed : String → Prop} {e p : Expr} (h : e.Regular allowed)
    (hp : p ∈ e.parts) : p.Regular allowed := by
  obtain ⟨⟨-, hleveled, -⟩, ⟨-, hassigns, -⟩⟩ := h
  exact ⟨hleveled p hp, hassigns p hp⟩

namespace Grammar
open Text (Position)

/-- Two steps in a row succeed only if both do. -/
theorem ok_of_bind {ε α β : Type} {x : Except ε α} {f : α → Except ε β} {b : β}
    (h : (x >>= f) = .ok b) : ∃ a, x = .ok a ∧ f a = .ok b := by
  cases x with
  | error e => cases h
  | ok a => exact ⟨a, rfl, h⟩

theorem ok_of_mapError {ε ε' α : Type} {x : Except ε α} {f : ε → ε'} {a : α}
    (h : x.mapError f = .ok a) : x = .ok a := by
  cases x with
  | error e => cases h
  | ok b => exact congrArg _ (Except.ok.inj h)

/-- Whatever a parser reads off tokens with such names has a property, and the tokens that are left
have such names. -/
def Gives {α : Type} (allowed : String → Prop) (p : Parser α) (P : α → Prop) : Prop :=
  ∀ tokens a rest, Token.NamesIn allowed tokens → p.run tokens = .ok (a, rest) →
    P a ∧ Token.NamesIn allowed rest

variable {allowed : String → Prop}

namespace Gives

variable {α β : Type} {P Q : α → Prop} {R : β → Prop} {p : Parser α} {f : α → Parser β}

theorem keeps (h : Gives allowed p P) : KeepsNames allowed p where
  names_left _ _ _ hnames hrun := (h _ _ _ hnames hrun).2

theorem pure {a : α} (h : P a) : Gives allowed (Pure.pure a) P := by
  intro tokens b rest hnames hrun
  cases hrun
  exact ⟨h, hnames⟩

theorem lift {x : Except ParseError α} (h : ∀ a, x = .ok a → P a) :
    Gives allowed (liftM x : Parser α) P := by
  intro tokens a rest hnames hrun
  cases x with
  | error e => cases hrun
  | ok b =>
    cases hrun
    exact ⟨h _ rfl, hnames⟩

theorem bind (hp : Gives allowed p P) (hf : ∀ a, P a → Gives allowed (f a) R) :
    Gives allowed (p >>= f) R := by
  intro tokens b rest hnames hrun
  obtain ⟨r, hfirst, hrun⟩ := ok_of_bind hrun
  obtain ⟨hr, hleft⟩ := hp _ _ _ hnames hfirst
  exact hf r.1 hr _ _ _ hleft hrun

theorem any [h : KeepsNames allowed p] : Gives allowed p fun _ => True :=
  fun _ _ _ hnames hrun => ⟨trivial, h.names_left hnames hrun⟩

/-- Nothing needs to be known about the first of two parsers. -/
theorem after [KeepsNames allowed p] (hf : ∀ a, Gives allowed (f a) R) :
    Gives allowed (p >>= f) R :=
  bind any fun a _ => hf a

theorem peek : Gives allowed Grammar.peek fun t => ∀ n, t.lexeme = .name n → allowed n := by
  intro tokens t rest hnames hrun
  cases tokens with
  | nil => cases hrun
  | cons first tokens =>
    cases hrun
    exact ⟨hnames t List.mem_cons_self, hnames⟩

theorem mono (h : Gives allowed p P) (hPQ : ∀ a, P a → Q a) : Gives allowed p Q :=
  fun tokens a rest hnames hrun => (h tokens a rest hnames hrun).imp (hPQ a) id

/-- Both ways of a choice are gone on from alike. -/
theorem ite {q : Parser α} {c : Prop} [Decidable c] (hp : Gives allowed p P)
    (hq : Gives allowed q P) (hf : ∀ a, P a → Gives allowed (f a) R) :
    Gives allowed (if c then p >>= f else q >>= f) R := by
  split
  · exact bind hp hf
  · exact bind hq hf

theorem map (h : Gives allowed p P) {g : α → β} (hg : ∀ a, P a → R (g a)) :
    Gives allowed (g <$> p) R := by
  rw [map_eq_pure_bind]
  exact bind h fun a ha => pure (hg a ha)

theorem fail {e : ParseError} : Gives allowed (Grammar.fail e) P := nofun

theorem unexpected {expected : String} : Gives allowed (Grammar.unexpected expected) P := by
  apply Gives.after
  intro t
  split
  · exact fail
  · exact fail

end Gives

/-! Lists of items -/

section

variable {α : Type} {P : α → Prop} {item : Parser α}

theorem items_gives {more : Parser Bool} [KeepsNames allowed more] {item : Parser (α × Bool)}
    (h : Gives allowed item fun x => P x.1) (n : Nat) :
    Gives allowed (items more item n) fun xs => ∀ x ∈ xs, P x := by
  induction n with
  | zero => exact .pure (by simp)
  | succ n ih =>
    apply Gives.after
    intro again
    split
    · refine .bind h fun (a, again) ha => ?_
      dsimp only
      split
      · refine .bind ih fun xs hxs => .pure ?_
        simpa using ⟨ha, hxs⟩
      · exact .pure (by simpa using ha)
    · exact .pure (by simp)

/-- An item and whether a comma follows. -/
theorem commaItem_gives (h : Gives allowed item P) :
    Gives allowed (do return (← item, ← accept .comma) : Parser (α × Bool)) fun x => P x.1 :=
  .bind h fun _ ha => .after fun _ => .pure ha

theorem commaItems_gives (d : Deeper) (close : Symbol) (h : Gives allowed item P) :
    Gives allowed (commaItems d close item) fun xs => ∀ x ∈ xs, P x :=
  items_gives (commaItem_gives h) _

theorem itemsUntil_gives (d : Deeper) (close : Symbol) (h : Gives allowed item P) :
    Gives allowed (itemsUntil d close item) fun xs => ∀ x ∈ xs, P x :=
  items_gives (.bind h fun _ ha => .pure ha) _

theorem closedList_gives (d : Deeper) (expected : String) (h : Gives allowed item P) :
    Gives allowed (closedList d expected item) fun xs => ∀ x ∈ xs, P x :=
  .after fun _ => .ite (.pure nofun) (items_gives (commaItem_gives h) _) fun _ hxs =>
    .after fun _ => .pure hxs

end

/-- An expression of this level or tighter; a name that it consists of may be assigned to. -/
structure AtLevel (allowed : String → Prop) (l : Expr.Level) (e : Expr) : Prop where
  regular : e.Regular allowed
  level : l ≤ e.level
  target : ∀ n p, e = .name n p → allowed n

theorem AtLevel.loosen {l l' : Expr.Level} {e : Expr} (h : AtLevel allowed l e) (hl : l' ≤ l) :
    AtLevel allowed l' e :=
  { h with level := Nat.le_trans hl h.level }

/-- What is read for each goal. -/
def Goal.Good (allowed : String → Prop) : (goal : Goal) → goal.Result → Prop
  | .expression => Expr.Regular allowed
  | .unary => AtLevel allowed .unary
  | .statement => Stmt.Regular allowed
  | .bindingPattern | .matchPattern | .typeName => fun _ => True

/-- The parsers one level deeper read nothing that breaks the levels or assigns to other names;
these may be those in the code of templates. -/
class Deeper.Good (allowed : String → Prop) (d : Deeper) : Prop where
  names : ∀ n, Unreserved n → allowed n
  parse : ∀ goal, Gives allowed (d.parse goal) (goal.Good allowed)

instance {d : Deeper} [hd : d.Good allowed] (goal : Goal) : KeepsNames allowed (d.parse goal) :=
  (hd.parse goal).keeps

/-- The operators of a level are the infix operators that are of it. -/
def OperatorsAt (operators : Operators) (l : Expr.Level) : Prop :=
  ∀ x, operators x = (x.operator?.filter fun i => i.level = l).map Infix.join

theorem OperatorsAt.exists_operator {operators : Operators} {l : Expr.Level}
    (h : OperatorsAt operators l) {x : Lexeme} {join : Join} (hx : operators x = some join) :
    ∃ i : Infix, i.level = l ∧ x.operator? = some i ∧ join = i.join := by
  rw [h, Option.map_eq_some_iff] at hx
  obtain ⟨i, hi, rfl⟩ := hx
  simp only [Option.filter_eq_some_iff, decide_eq_true_eq] at hi
  exact ⟨i, hi.2, hi.1, rfl⟩

/-- The operators that the grammar has for a level. -/
def operatorsOf : Expr.Level → Operators
  | .pipe => pipeOperators
  | .coalesce => coalesceOperators
  | .either => eitherOperators
  | .both => bothOperators
  | .equality => equalityOperators
  | .comparison => comparisonOperators
  | .sum => sumOperators
  | .product => productOperators
  | .assignment | .unary | .postfixed | .primary => fun _ => none

theorem operatorsOf_at (l : Expr.Level) : OperatorsAt (operatorsOf l) l := by
  intro x
  cases x with
  | symbol s => cases l <;> cases s <;> rfl
  | keyword k => cases l <;> cases k <;> rfl
  | _ => cases l <;> rfl

section

variable {d : Deeper} (hd : d.Good allowed)
include hd

theorem parameter_gives :
    Gives allowed (parameter d) fun p => ∀ e, p.2 = some e → e.Regular allowed := by
  apply Gives.after; intro p
  apply Gives.after; intro _
  apply Gives.after; intro given
  split
  · refine .bind (hd.parse .expression) fun e he => .pure ?_
    rintro _ ⟨⟩
    exact he
  · exact .pure nofun

theorem parameters_gives :
    Gives allowed (parameters d) fun ps => ∀ p ∈ ps, ∀ e, p.2 = some e → e.Regular allowed :=
  closedList_gives d _ (parameter_gives hd)

theorem body_gives : Gives allowed (body d) fun body => ∀ s ∈ body, s.Regular allowed :=
  .after fun _ => .bind (itemsUntil_gives d _ (hd.parse .statement)) fun _ h =>
    .after fun _ => .pure h

omit hd in
theorem regular_function {f : Function}
    (hdefaults : ∀ p ∈ f.params, ∀ e, p.2 = some e → e.Regular allowed)
    (hbody : ∀ s ∈ f.body, s.Regular allowed) : f.Regular allowed where
  leveled := ⟨fun p hp e he => (hdefaults p hp e he).leveled, fun s hs => (hbody s hs).leveled⟩
  assigns := ⟨fun p hp e he => (hdefaults p hp e he).assigns, fun s hs => (hbody s hs).assigns⟩

theorem functionRest_gives (name : String) (isAsync : Bool) (position : Position) :
    Gives allowed (functionRest d name isAsync position) (Function.Regular allowed) :=
  .after fun _ => .bind (parameters_gives hd) fun _ hparams => .after fun _ =>
    .bind (body_gives hd) fun _ hbody => .pure (regular_function hparams hbody)

omit hd in
/-- An expression that makes no function respects the levels if its root and its parts do. -/
theorem leveled_of_parts {e : Expr} (hfits : e.Fits) (hfunctions : e.functions = [])
    (hparts : ∀ p ∈ e.parts, p.Leveled) : e.Leveled :=
  ⟨hfits, hparts, by simp [hfunctions]⟩

omit hd in
theorem regular_of_parts {e : Expr} (hfits : e.Fits) (hfunctions : e.functions = [])
    (hassigned : ∀ n ∈ e.assigned, allowed n) (hparts : ∀ p ∈ e.parts, p.Regular allowed) :
    e.Regular allowed where
  leveled := leveled_of_parts hfits hfunctions fun p hp => (hparts p hp).leveled
  assigns := ⟨hassigned, fun p hp => (hparts p hp).assigns, by simp [hfunctions]⟩

omit hd in
/-- An expression that is no name, assigns nothing itself and makes no function. -/
theorem atLevel {l : Expr.Level} {e : Expr} (hlevel : l ≤ e.level) (hfits : e.Fits)
    (hfunctions : e.functions = []) (hassigned : e.assigned = none) (hname : ∀ n p, e ≠ .name n p)
    (hparts : ∀ p ∈ e.parts, p.Regular allowed) : AtLevel allowed l e where
  regular := regular_of_parts hfits hfunctions (by simp [hassigned]) hparts
  level := hlevel
  target n p h := absurd h (hname n p)

omit hd in
theorem function_atLevel {f : Function} (h : f.Regular allowed) :
    AtLevel allowed .primary (.function f) where
  regular.leveled := ⟨trivial, nofun, List.forall_mem_singleton.2 h.leveled⟩
  regular.assigns := ⟨nofun, nofun, List.forall_mem_singleton.2 h.assigns⟩
  level := Nat.le_refl _
  target := nofun

omit hd in
/-- A statement is regular if its expressions, its parts and the functions that it makes are. -/
theorem regular_stmt {s : Stmt} (hfunctions : ∀ f ∈ s.functions, f.Regular allowed)
    (hexprs : ∀ e ∈ s.exprs, e.Regular allowed) (hparts : ∀ t ∈ s.parts, t.Regular allowed) :
    s.Regular allowed where
  leveled := ⟨fun e he => (hexprs e he).leveled, fun t ht => (hparts t ht).leveled,
    fun f hf => (hfunctions f hf).leveled⟩
  assigns := ⟨fun e he => (hexprs e he).assigns, fun t ht => (hparts t ht).assigns,
    fun f hf => (hfunctions f hf).assigns⟩

theorem arrowRest_gives {params : List (Pattern × Option Expr)}
    (hparams : ∀ p ∈ params, ∀ e, p.2 = some e → e.Regular allowed) (position : Position) :
    Gives allowed (arrowRest d params position) (AtLevel allowed .primary) := by
  refine .after fun block => ?_
  split
  · exact .bind (body_gives hd) fun _ hbody =>
      .pure (function_atLevel (regular_function hparams hbody))
  · refine .after fun p => .bind (hd.parse .expression) fun e he =>
      .pure (function_atLevel (regular_function hparams (List.forall_mem_singleton.2 ?_)))
    exact regular_stmt nofun (List.forall_mem_singleton.2 he) nofun

theorem templateParts_regular {chunks : List TemplateChunk} {parts : List (Sum String Expr)}
    (h : templateParts d chunks = .ok parts) :
    ∀ e ∈ parts.filterMap Sum.getRight?, e.Regular allowed := by
  induction chunks generalizing parts with
  | nil =>
    cases h
    nofun
  | cons chunk rest ih =>
    cases chunk with
    | text s =>
      obtain ⟨tail, hrest, h⟩ := ok_of_bind h
      cases h
      simpa using ih hrest
    | code source position =>
      obtain ⟨tokens, hscan, h⟩ := ok_of_bind h
      obtain ⟨⟨e, left⟩, he, h⟩ := ok_of_bind h
      obtain ⟨⟨⟨⟩, _⟩, -, h⟩ := ok_of_bind h
      obtain ⟨tail, hrest, h⟩ := ok_of_bind h
      cases h
      have hnames : Token.NamesIn allowed tokens := fun t ht n hn =>
        hd.names n (scanAt_names (ok_of_mapError hscan) t ht n hn)
      exact List.forall_mem_cons.2 ⟨(hd.parse .expression _ _ _ hnames he).1, ih hrest⟩

theorem arrayElement_gives : Gives allowed (arrayElement d) fun x => x.1.Regular allowed :=
  .after fun _ => .bind (hd.parse .expression) fun _ he => .pure he

theorem arrayLiteral_gives : Gives allowed (arrayLiteral d) (AtLevel allowed .primary) := by
  refine .after fun p => .after fun _ => .bind (commaItems_gives d _ (arrayElement_gives hd))
    fun elements h => .after fun _ => .pure (atLevel (Nat.le_refl _) trivial rfl rfl nofun ?_)
  exact List.forall_mem_map.2 h

theorem objectField_gives : Gives allowed (objectField d) fun x => x.2.Regular allowed := by
  apply Gives.after; intro p
  apply Gives.after; intro key
  apply Gives.after; intro given
  split
  · exact .bind (hd.parse .expression) fun _ he => .pure he
  · exact .pure (regular_of_parts trivial rfl nofun nofun)

theorem objectLiteral_gives : Gives allowed (objectLiteral d) (AtLevel allowed .primary) := by
  refine .after fun p => .after fun _ => .bind (commaItems_gives d _ (objectField_gives hd))
    fun fields h => .after fun _ => .pure (atLevel (Nat.le_refl _) trivial rfl rfl nofun ?_)
  exact List.forall_mem_map.2 h

theorem parenthesized_gives (p : Position) :
    Gives allowed (parenthesized d p) (AtLevel allowed .primary) := by
  apply Gives.after
  intro tokens
  split
  · exact .fail
  · exact .after fun _ => .bind (parameters_gives hd) fun _ h => .after fun _ =>
      arrowRest_gives hd h p
  · refine .after fun _ => .bind (hd.parse .expression) fun inner h => .after fun _ =>
      .pure (atLevel (Nat.le_refl _) trivial rfl rfl nofun ?_)
    exact List.forall_mem_singleton.2 h

theorem functionLiteral_gives (p : Position) :
    Gives allowed (functionLiteral d p) (AtLevel allowed .primary) :=
  .after fun _ => .after fun _ => .bind (functionRest_gives hd _ _ p) fun _ h =>
    .pure (function_atLevel h)

theorem primary_gives : Gives allowed (primary d) (AtLevel allowed .primary) := by
  have hleaf {e : Expr} (hlevel : e.level = .primary) (hfits : e.Fits)
      (hfunctions : e.functions = []) (hassigned : e.assigned = none)
      (hname : ∀ n p, e = .name n p → allowed n) (hparts : e.parts = []) :
      AtLevel allowed .primary e :=
    ⟨regular_of_parts hfits hfunctions (by simp [hassigned]) (by simp [hparts]),
      Nat.le_of_eq (congrArg _ hlevel.symm), hname⟩
  refine .bind .peek fun t ht => ?_
  dsimp only
  split
  case h_6 chunks _ =>
    exact .after fun _ => .bind (.lift fun parts h => templateParts_regular hd h) fun parts h =>
      .pure (atLevel (Nat.le_refl _) trivial rfl rfl nofun h)
  case h_8 =>
    exact .after fun _ => .after fun _ => .after fun _ =>
      .pure (hleaf rfl trivial rfl rfl nofun rfl)
  case h_9 n hn =>
    refine .after fun second => .after fun _ => ?_
    split
    · refine .after fun _ => arrowRest_gives hd ?_ t.position
      simp
    · refine .pure (hleaf rfl trivial rfl rfl ?_ rfl)
      rintro _ _ ⟨⟩
      exact ht n hn
  case h_10 => exact parenthesized_gives hd t.position
  case h_11 => exact arrayLiteral_gives hd
  case h_12 => exact objectLiteral_gives hd
  case h_13 => exact functionLiteral_gives hd t.position
  case h_14 => exact functionLiteral_gives hd t.position
  case h_15 => exact .unexpected
  all_goals exact .after fun _ => .pure (hleaf rfl trivial rfl rfl nofun rfl)

theorem accessesOf_gives (n : Nat) {e : Expr} (he : AtLevel allowed .postfixed e) :
    Gives allowed (accessesOf d n e) (AtLevel allowed .postfixed) := by
  induction n generalizing e with
  | zero => exact .pure he
  | succ n ih =>
    have hget (name : String) (optional : Bool) (p : Position) :
        AtLevel allowed .postfixed (.get e name optional p) :=
      atLevel (Nat.le_refl _) he.level rfl rfl nofun (List.forall_mem_singleton.2 he.regular)
    apply Gives.after
    intro t
    split
    · refine .after fun _ => .bind (closedList_gives d _ (hd.parse .expression)) fun args h => ih ?_
      exact atLevel (Nat.le_refl _) he.level rfl rfl nofun
        (List.forall_mem_cons.2 ⟨he.regular, h⟩)
    · exact .after fun _ => .after fun name => ih (hget name false _)
    · exact .after fun _ => .after fun name => ih (hget name true _)
    · refine .after fun _ => .bind (hd.parse .expression) fun key h => .after fun _ => ih ?_
      refine atLevel (Nat.le_refl _) he.level rfl rfl nofun
        (List.forall_mem_cons.2 ⟨he.regular, ?_⟩)
      exact List.forall_mem_singleton.2 h
    · exact .pure he

theorem access_gives : Gives allowed (access d) (AtLevel allowed .postfixed) :=
  .bind (primary_gives hd) fun _ h => accessesOf_gives hd d.bound (h.loosen (by decide))

theorem unary_gives : Gives allowed (unary d) (AtLevel allowed .unary) := by
  have hunary (op : UnaryOp) (p : Position) :
      Gives allowed (do return Expr.unary op (← d.parse .unary) p : Parser Expr)
        (AtLevel allowed .unary) :=
    .bind (hd.parse .unary) fun e he => .pure
      (atLevel (Nat.le_refl _) he.level rfl rfl nofun (List.forall_mem_singleton.2 he.regular))
  apply Gives.after
  intro t
  split
  · exact .after fun _ => hunary .not _
  · exact .after fun _ => hunary .negate _
  · exact .after fun _ => .bind (hd.parse .unary) fun e he => .pure
      (atLevel (Nat.le_refl _) he.level rfl rfl nofun (List.forall_mem_singleton.2 he.regular))
  · exact .after fun _ => hd.parse .unary
  · exact .mono (access_gives hd) fun e he => he.loosen (by decide)

omit hd in
theorem join_atLevel {i : Infix} {left right : Expr} (hleft : AtLevel allowed i.level left)
    (hright : right.Regular allowed) (hlevel : i.level < right.level) (p : Position) :
    AtLevel allowed i.level (i.join left right p) := by
  have hparts := List.forall_mem_cons.2 ⟨hleft.regular, List.forall_mem_singleton.2 hright⟩
  cases i with
  | binary op => exact atLevel (Nat.le_refl _) ⟨hleft.level, hlevel⟩ rfl rfl nofun hparts
  | logical op => exact atLevel (Nat.le_refl _) ⟨hleft.level, hlevel⟩ rfl rfl nofun hparts

omit hd in
theorem chainRest_gives {operators : Operators} {operand : Parser Expr} {l tighter : Expr.Level}
    (hoperators : OperatorsAt operators l)
    (hoperand : Gives allowed operand (AtLevel allowed tighter))
    (hl : l < tighter) (n : Nat) {left : Expr} (hleft : AtLevel allowed l left) :
    Gives allowed (chainRest operators operand n left) (AtLevel allowed l) := by
  induction n generalizing left with
  | zero => exact .pure hleft
  | succ n ih =>
    apply Gives.after
    intro t
    split
    next => exact .pure hleft
    next join hjoin =>
      obtain ⟨i, rfl, -, rfl⟩ := hoperators.exists_operator hjoin
      refine .after fun _ => .bind hoperand fun right hright => ih ?_
      exact join_atLevel hleft hright.regular (Nat.lt_of_lt_of_le hl hright.level) _

omit hd in
theorem chain_gives {operators : Operators} {operand : Parser Expr} {l tighter : Expr.Level}
    (hoperators : OperatorsAt operators l)
    (hoperand : Gives allowed operand (AtLevel allowed tighter))
    (hl : l < tighter) : Gives allowed (chain d operators operand) (AtLevel allowed l) :=
  .bind hoperand fun _ h => chainRest_gives hoperators hoperand hl d.bound
    (h.loosen (Nat.le_of_lt hl))

theorem pipe_gives : Gives allowed (pipe d) (AtLevel allowed .pipe) := by
  have hproduct := chain_gives (d := d) (operatorsOf_at .product) (unary_gives hd) (by decide)
  have hsum := chain_gives (d := d) (operatorsOf_at .sum) hproduct (by decide)
  have hcomparison := chain_gives (d := d) (operatorsOf_at .comparison) hsum (by decide)
  have hequality := chain_gives (d := d) (operatorsOf_at .equality) hcomparison (by decide)
  have hboth := chain_gives (d := d) (operatorsOf_at .both) hequality (by decide)
  have heither := chain_gives (d := d) (operatorsOf_at .either) hboth (by decide)
  have hcoalesce := chain_gives (d := d) (operatorsOf_at .coalesce) heither (by decide)
  exact chain_gives (operatorsOf_at .pipe) hcoalesce (by decide)

omit hd in
theorem assignTo?_regular {target value e : Expr} {p : Position} {l : Expr.Level}
    (ht : AtLevel allowed l target) (hv : value.Regular allowed)
    (h : assignTo? target value p = some e) : e.Regular allowed := by
  obtain ⟨hfits, -, -⟩ := ht.regular.leveled
  cases target with
  | name n q =>
    cases h
    refine regular_of_parts trivial rfl ?_ (List.forall_mem_singleton.2 hv)
    rintro _ ⟨⟩
    exact ht.target n q rfl
  | get object n optional q =>
    cases h
    refine regular_of_parts hfits rfl nofun (List.forall_mem_cons.2 ?_)
    exact ⟨ht.regular.part List.mem_cons_self, List.forall_mem_singleton.2 hv⟩
  | index object key q =>
    cases h
    refine regular_of_parts hfits rfl nofun (List.forall_mem_cons.2 ⟨?_, List.forall_mem_cons.2 ?_⟩)
    · exact ht.regular.part List.mem_cons_self
    · exact ⟨ht.regular.part (List.mem_cons_of_mem _ List.mem_cons_self),
        List.forall_mem_singleton.2 hv⟩
  | _ => cases h

theorem expression_gives : Gives allowed (expression d) (Expr.Regular allowed) := by
  refine .bind (pipe_gives hd) fun target ht => .after fun p => .after fun assigned => ?_
  split
  · refine .bind (hd.parse .expression) fun value hv => ?_
    split
    next h => exact .pure (assignTo?_regular ht hv h)
    next => exact .fail
  · exact .pure ht.regular

omit hd in
theorem optional_gives {α : Type} {P : α → Prop} {p : Parser α} (h : Gives allowed p P) :
    Gives allowed (some <$> p) fun o => ∀ a ∈ o.toList, P a :=
  .map h fun _ ha => List.forall_mem_singleton.2 ha

theorem declaration_gives (p : Position) : Gives allowed (declaration d p) (Stmt.Regular allowed) :=
  .after fun _ => .after fun _ => .after fun _ =>
    .ite (optional_gives (expression_gives hd)) (.pure nofun) fun _ h => .after fun _ =>
      .pure (regular_stmt nofun h nofun)

theorem constantDeclaration_gives (p : Position) :
    Gives allowed (constantDeclaration d p) (Stmt.Regular allowed) := by
  have hrest (pattern : Pattern) :
      Gives allowed (do
        let init ← expression d
        optionalSemicolon
        return .constant pattern init p : Parser Stmt) (Stmt.Regular allowed) :=
    .bind (expression_gives hd) fun e he => .after fun _ =>
      .pure (regular_stmt nofun (List.forall_mem_singleton.2 he) nofun)
  refine .after fun pattern => .after fun _ => .after fun given => ?_
  split
  · exact hrest pattern
  · exact .after fun _ => .after fun _ => hrest pattern

theorem functionDeclaration_gives (isAsync : Bool) :
    Gives allowed (functionDeclaration d isAsync) (Stmt.Regular allowed) :=
  .after fun p => .after fun _ => .after fun n => .bind (functionRest_gives hd n isAsync p)
    fun _ h => .pure (regular_stmt (List.forall_mem_singleton.2 h) nofun nofun)

theorem method_gives : Gives allowed (method d) (Function.Regular allowed) :=
  .after fun isAsync => .after fun _ => .after fun p => .after fun n =>
    functionRest_gives hd n isAsync p

omit hd in
theorem parentClass_gives :
    Gives allowed parentClass fun parent => ∀ e ∈ parent.toList, e.Regular allowed := by
  apply Gives.after
  intro given
  split
  · exact .after fun p => .after fun n => .pure (List.forall_mem_singleton.2
      (regular_of_parts trivial rfl nofun nofun))
  · exact .pure nofun

theorem classDeclaration_gives : Gives allowed (classDeclaration d) (Stmt.Regular allowed) :=
  .after fun _ => .after fun _ => .after fun _ => .bind parentClass_gives fun _ hparent =>
    .after fun _ => .bind (itemsUntil_gives d _ (method_gives hd)) fun _ hmethods =>
      .after fun _ => .pure (regular_stmt hmethods hparent nofun)

theorem condition_gives (word : String) : Gives allowed (condition d word) (Expr.Regular allowed) :=
  .after fun _ => .bind (expression_gives hd) fun _ h => .after fun _ => .pure h

theorem branch_gives (p : Position) : Gives allowed (branch d p) (Stmt.Regular allowed) := by
  refine .after fun _ => .bind (condition_gives hd _) fun c hc => .bind (hd.parse .statement)
    fun yes hyes => .after fun _ =>
      .ite (optional_gives (hd.parse .statement)) (.pure nofun) fun no hno => .pure ?_
  exact regular_stmt nofun (List.forall_mem_singleton.2 hc) (List.forall_mem_cons.2 ⟨hyes, hno⟩)

theorem conditionalLoop_gives (p : Position) :
    Gives allowed (conditionalLoop d p) (Stmt.Regular allowed) :=
  .after fun _ => .bind (condition_gives hd _) fun _ hc =>
    .bind (hd.parse .statement) fun _ hbody =>
    .pure (regular_stmt nofun (List.forall_mem_singleton.2 hc) (List.forall_mem_singleton.2 hbody))

theorem loopStart_gives :
    Gives allowed (loopStart d) fun start => ∀ s ∈ start.toList, s.Regular allowed := by
  apply Gives.after
  intro empty
  split
  · exact .pure nofun
  · refine .after fun p => .after fun declared => ?_
    split
    · exact .bind (declaration_gives hd p) fun s hs => .pure (List.forall_mem_singleton.2 hs)
    · exact .bind (expression_gives hd) fun e he => .after fun _ => .pure
        (List.forall_mem_singleton.2 (regular_stmt nofun (List.forall_mem_singleton.2 he) nofun))

theorem countingLoop_gives (p : Position) :
    Gives allowed (countingLoop d p) (Stmt.Regular allowed) := by
  have hendless : Gives allowed (Expr.literal (.bool true) <$> here) (Expr.Regular allowed) :=
    .map .any fun _ _ => regular_of_parts trivial rfl nofun nofun
  refine .after fun _ => .after fun _ => .bind (loopStart_gives hd) fun start hstart =>
    .after fun _ => .ite hendless (expression_gives hd) fun c hc => .after fun _ => .after fun _ =>
      .ite (.pure nofun) (optional_gives (expression_gives hd)) fun step hstep => .after fun _ =>
        .bind (hd.parse .statement) fun body hbody => ?_
  have hloop : (Stmt.loop c body step p).Regular allowed :=
    regular_stmt nofun (List.forall_mem_cons.2 ⟨hc, hstep⟩) (List.forall_mem_singleton.2 hbody)
  cases start with
  | none => exact .pure hloop
  | some s =>
    refine .pure (regular_stmt nofun nofun (List.forall_mem_cons.2 ⟨?_, ?_⟩))
    · exact hstart s List.mem_cons_self
    · exact List.forall_mem_singleton.2 hloop

theorem attempt_gives (p : Position) : Gives allowed (attempt d p) (Stmt.Regular allowed) := by
  refine .after fun _ => .bind (hd.parse .statement) fun s hs => .after fun _ => .after fun _ =>
    .after fun n => .after fun _ => .bind (hd.parse .statement) fun handler hh => .pure ?_
  exact regular_stmt nofun nofun (List.forall_mem_cons.2 ⟨hs, List.forall_mem_singleton.2 hh⟩)

theorem arm_gives : Gives allowed (arm d) fun a => a.2.Regular allowed :=
  .after fun _ => .after fun _ => .bind (hd.parse .statement) fun _ h => .after fun _ => .pure h

theorem selection_gives (p : Position) : Gives allowed (selection d p) (Stmt.Regular allowed) := by
  refine .after fun _ => .bind (condition_gives hd _) fun value hv => .after fun _ =>
    .bind (itemsUntil_gives d _ (arm_gives hd)) fun arms harms => .after fun _ => .pure ?_
  exact regular_stmt nofun (List.forall_mem_singleton.2 hv) (List.forall_mem_map.2 harms)

theorem closedExpression_gives : Gives allowed (closedExpression d) (Expr.Regular allowed) :=
  .bind (expression_gives hd) fun _ h => .after fun _ => .pure h

theorem returnStatement_gives (p : Position) :
    Gives allowed (returnStatement d p) (Stmt.Regular allowed) :=
  .after fun _ => .after fun _ => .after fun _ => .after fun _ =>
    .ite (.pure nofun) (optional_gives (expression_gives hd)) fun _ h => .after fun _ =>
      .pure (regular_stmt nofun h nofun)

theorem statement_gives : Gives allowed (statement d) (Stmt.Regular allowed) := by
  have hclosed (form : Expr → Stmt) (hform : ∀ e, e.Regular allowed → (form e).Regular allowed) :
      Gives allowed (do return form (← closedExpression d) : Parser Stmt) (Stmt.Regular allowed) :=
    .bind (closedExpression_gives hd) fun e he => .pure (hform e he)
  have hexpression (p : Position) :=
    hclosed (.expression · p) fun e he => regular_stmt nofun (List.forall_mem_singleton.2 he) nofun
  refine .after fun t => .after fun second => ?_
  split
  · exact .after fun _ => declaration_gives hd _
  · exact .after fun _ => constantDeclaration_gives hd _
  · split
    · exact hexpression _
    · exact functionDeclaration_gives hd false
  · split
    · exact .after fun _ => functionDeclaration_gives hd true
    · exact hexpression _
  · exact classDeclaration_gives hd
  · exact .bind (body_gives hd) fun _ h => .pure (regular_stmt nofun nofun h)
  · exact branch_gives hd _
  · exact conditionalLoop_gives hd _
  · exact countingLoop_gives hd _
  · exact returnStatement_gives hd _
  · exact .after fun _ => hclosed (.throw · _) fun e he =>
      regular_stmt nofun (List.forall_mem_singleton.2 he) nofun
  · exact .after fun _ => hclosed (.print · _) fun e he =>
      regular_stmt nofun (List.forall_mem_singleton.2 he) nofun
  · exact .after fun _ => hclosed (.load · _) fun e he =>
      regular_stmt nofun (List.forall_mem_singleton.2 he) nofun
  · exact attempt_gives hd _
  · exact selection_gives hd _
  · exact .after fun _ => .after fun _ => .pure (regular_stmt nofun nofun nofun)
  · exact .after fun _ => .after fun _ => .pure (regular_stmt nofun nofun nofun)
  · exact hexpression _

theorem produce_gives (goal : Goal) : Gives allowed (produce d goal) (goal.Good allowed) := by
  cases goal with
  | expression => exact expression_gives hd
  | unary => exact unary_gives hd
  | statement => exact statement_gives hd
  | bindingPattern => exact Gives.any (p := bindingPattern d)
  | matchPattern => exact Gives.any (p := matchPattern d)
  | typeName => exact Gives.any (p := typeName d)

theorem statements_gives :
    Gives allowed (statements d) fun program => ∀ s ∈ program, s.Regular allowed :=
  items_gives (.bind (hd.parse .statement) fun _ hs => .pure hs) _

end

section

variable (hallowed : ∀ n, Unreserved n → allowed n)
include hallowed

/-- Whatever is parsed, at any depth, respects the levels and assigns to no other names. -/
theorem parseWithin_gives (n : Nat) (goal : Goal) :
    Gives allowed (parseWithin n goal) (goal.Good allowed) := by
  induction n generalizing goal with
  | zero => exact .after fun _ => .fail
  | succ n ih =>
    exact produce_gives (d := ⟨n, parseWithin n⟩) ⟨hallowed, ih⟩ goal

theorem parseTokens_regular {tokens : List Token} {program : Program}
    (hnames : Token.NamesIn allowed tokens) (h : parseTokens tokens = .ok program) :
    ∀ s ∈ program, s.Regular allowed := by
  have hfinished : Token.NamesIn allowed (finished tokens) := by
    unfold finished
    split
    · exact List.forall_mem_singleton.2 nofun
    · split
      · exact hnames
      · exact List.forall_mem_append.2 ⟨hnames, List.forall_mem_singleton.2 nofun⟩
  let d : Deeper := ⟨depthBound tokens, parseWithin (depthBound tokens)⟩
  have hd : d.Good allowed := ⟨hallowed, parseWithin_gives hallowed _⟩
  have hrun : ((statements d).run (finished tokens)).map Prod.fst = .ok program := h
  cases hresult : (statements d).run (finished tokens) with
  | error e =>
    rw [hresult] at hrun
    cases hrun
  | ok result =>
    rw [hresult] at hrun
    cases hrun
    exact (statements_gives hd _ _ _ hfinished hresult).1

end

end Grammar

end ScriptEngine
