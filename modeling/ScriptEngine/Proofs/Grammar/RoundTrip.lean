import ScriptEngine.Proofs.Grammar.Operands

/-!
# The parser inverts rendering

Every level of the grammar reads the expressions of its level back from their tokens and stops at
what does not continue them. The loop over the operators of a level is followed along the left side
of the tree, and an assignment is read as its target first.
-/
namespace ScriptEngine.Grammar
open Text (Position)

/-! Infix operators -/

section

variable {d : Deeper} {n : Nat} {operators : Operators} {operand : Parser Expr}
  {l tighter : Expr.Level}

theorem chainRest_run_join {i : Infix} (hoperators : OperatorsAt operators i.level) {t : Token}
    (ht : t.lexeme.canonical = i.lexeme) {left right : Expr} {m : Nat} {us rest : List Token}
    (hright : operand.run us = .ok (right, rest)) :
    (chainRest operators operand (m + 1) left).run (t :: us) =
      (chainRest operators operand m (i.join left right t.position)).run rest := by
  have hi := Infix.operator?_of_canonical ht
  have hjoin : operators t.lexeme = some i.join := by
    rw [hoperators, hi, Option.filter_some, if_pos (decide_eq_true rfl), Option.map_some]
  have hfinish : t.lexeme ≠ .finish := fun h => by simp [h, Lexeme.operator?] at hi
  rw [chainRest, run_bind_of peek_run]
  simp only [hjoin]
  rw [run_bind_of (advance_run hfinish), run_bind_of hright]

theorem chainRest_run_end (hoperators : OperatorsAt operators l) {rest : List Token}
    (hrest : EndsAt l rest) (m : Nat) (left : Expr) :
    (chainRest operators operand m left).run rest = .ok (left, rest) := by
  cases m with
  | zero => rfl
  | succ m =>
    obtain ⟨t, rest, rfl, ht⟩ := hrest
    rw [chainRest, run_bind_of peek_run]
    split
    next => rfl
    next join hjoin =>
      obtain ⟨i, rfl, hi, -⟩ := hoperators.exists_operator hjoin
      exact absurd (ht _ (Lexeme.continues_of_operator? hi)) (Nat.lt_irrefl _)

/-- The loop over the operators of a level reads an expression along its left side. -/
theorem chain_reached (hoperators : OperatorsAt operators l) (hl : .assignment < l ∧ l < .unary)
    (hnext : tighter.rank = l.rank + 1) (hoperand : Reads operand tighter (n + 1))
    (hbound : n ≤ d.bound) {e : Expr} {tokens rest : List Token} (h : Spells l e tokens)
    (hn : tokens.length < n + 1) (hrest : EndsAt tighter rest) :
    Reached (chain d operators operand) (chainRest operators operand) n e tokens rest := by
  have hlt {k : Expr.Level} : l < k ↔ tighter ≤ k := by
    rw [Expr.Level.lt_def, Expr.Level.le_def, hnext, Nat.lt_iff_add_one_le]
  obtain ⟨hplain, hleveled, hlevel, hlexemes⟩ := h
  induction hplain generalizing tokens rest with
  | @intro e own parts ih =>
    have hspells {k : Expr.Level} (hk : k ≤ e.level) : Spells k e tokens :=
      ⟨⟨own, parts⟩, hleveled, hk, hlexemes⟩
    by_cases hroot : l < e.level
    · obtain ⟨e', hrun, hview⟩ := hoperand e tokens rest (hspells (hlt.1 hroot)) hn hrest
      exact .start hrun hview (hspells hlevel).ne_nil hbound
    · have hsame : l = e.level :=
        Expr.Level.rank_injective (Nat.le_antisymm hlevel (Nat.not_lt.1 hroot))
      obtain ⟨i, left, right, p, rfl⟩ := e.exists_join (hsame ▸ hl.1) (hsame ▸ hl.2)
      rw [Infix.level_join] at hsame
      subst hsame
      obtain ⟨hleft, hright⟩ := (Infix.fits_join ..).1 (hspells hlevel).fits
      have hleftMem : left ∈ (i.join left right p).parts := by simp [Infix.parts_join]
      have hrightMem : right ∈ (i.join left right p).parts := by simp [Infix.parts_join]
      rw [Infix.render_join] at hlexemes
      obtain ⟨ts, us, rfl, hts, hus⟩ := lexemes_eq_append hlexemes
      obtain ⟨t, us, rfl, ht, hus⟩ := lexemes_eq_cons hus
      rw [List.length_append, List.length_cons] at hn
      -- The operator ends the left side for the tighter level, but not for this one.
      have hends : EndsAt tighter (t :: (us ++ rest)) := endsAt_cons (by
        rw [Lexeme.continues_of_operator? (Infix.operator?_of_canonical ht)]
        rintro _ ⟨⟩
        exact hlt.2 (Nat.le_refl _))
      have hreached := ih left hleftMem (by omega) hends
        ((hspells hlevel).leveled_part hleftMem) hleft hts
      obtain ⟨right', hrightRun, hrightView⟩ := hoperand right us rest
        ((hspells hlevel).part hrightMem (hlt.1 hright) hus) (by omega) hrest
      refine hreached.round (by omega) (by simp) (by simp) fun m left' hview => ?_
      exact ⟨_, chainRest_run_join hoperators ht hrightRun,
        by rw [Infix.unplaced_join, Infix.unplaced_join, hview, hrightView]⟩

theorem chain_reads (hoperators : OperatorsAt operators l) (hl : .assignment < l ∧ l < .unary)
    (hnext : tighter.rank = l.rank + 1) (hoperand : Reads operand tighter (n + 1))
    (hbound : n ≤ d.bound) : Reads (chain d operators operand) l (n + 1) := by
  intro e tokens rest h hn hrest
  have htighter : l ≤ tighter := by
    rw [Expr.Level.le_def, hnext]
    exact Nat.le_succ _
  have hreached := chain_reached hoperators hl hnext hoperand hbound h hn (hrest.mono htighter)
  exact hreached.stop fun m e' => chainRest_run_end hoperators hrest m e'

end

/-! Assignments -/

theorem unplaced_eq_name {e : Expr} {n : String} {p : Position}
    (h : e.unplaced = (Expr.name n p).unplaced) : ∃ q, e = .name n q := by
  cases e <;> simp [Expr.unplaced] at h
  exact ⟨_, by rw [h]⟩

theorem unplaced_eq_get {e target : Expr} {n : String} {optional : Bool} {p : Position}
    (h : e.unplaced = (Expr.get target n optional p).unplaced) :
    ∃ target' q, e = .get target' n optional q ∧ target'.unplaced = target.unplaced := by
  cases e <;> simp [Expr.unplaced] at h
  obtain ⟨htarget, rfl, rfl⟩ := h
  exact ⟨_, _, rfl, htarget⟩

theorem unplaced_eq_index {e target key : Expr} {p : Position}
    (h : e.unplaced = (Expr.index target key p).unplaced) :
    ∃ target' key' q, e = .index target' key' q ∧ target'.unplaced = target.unplaced ∧
      key'.unplaced = key.unplaced := by
  cases e <;> simp [Expr.unplaced] at h
  exact ⟨_, _, _, rfl, h⟩

section

variable {d : Deeper} {n : Nat} (hd : Reads (d.parse .expression) .assignment n)
  (hunary : Reads (d.parse .unary) .unary n) (hbound : n ≤ d.bound)
include hd hunary hbound

theorem pipe_reads : Reads (pipe d) .pipe (n + 1) := by
  have hlevel {l tighter : Expr.Level} {operand : Parser Expr} (hl : .assignment < l ∧ l < .unary)
      (hnext : tighter.rank = l.rank + 1) (hoperand : Reads operand tighter (n + 1)) :
      Reads (chain d (operatorsOf l) operand) l (n + 1) :=
    chain_reads (operatorsOf_at l) hl hnext hoperand hbound
  have hproduct : Reads (product d) .product (n + 1) :=
    hlevel (by decide) rfl (unary_reads hd hbound hunary)
  have hsum : Reads (sum d) .sum (n + 1) := hlevel (by decide) rfl hproduct
  have hcomparison : Reads (comparison d) .comparison (n + 1) := hlevel (by decide) rfl hsum
  have hequality : Reads (equality d) .equality (n + 1) := hlevel (by decide) rfl hcomparison
  have hboth : Reads (both d) .both (n + 1) := hlevel (by decide) rfl hequality
  have heither : Reads (either d) .either (n + 1) := hlevel (by decide) rfl hboth
  have hcoalesce : Reads (coalesce d) .coalesce (n + 1) := hlevel (by decide) rfl heither
  exact hlevel (by decide) rfl hcoalesce

theorem assignment_run {target value e : Expr} {ts us rest : List Token} {t : Token}
    (htarget : Spells .pipe target ts) (ht : t.lexeme = .symbol .equal)
    (hvalue : Spells .assignment value us) (hn : (ts ++ t :: us).length < n + 1)
    (hrest : EndsAt .assignment rest)
    (hassign : ∀ target' value' : Expr, target'.unplaced = target.unplaced →
      value'.unplaced = value.unplaced →
        ∃ e', assignTo? target' value' t.position = some e' ∧ e'.unplaced = e.unplaced) :
    ∃ e', (expression d).run (ts ++ t :: us ++ rest) = .ok (e', rest) ∧
      e'.unplaced = e.unplaced := by
  simp only [List.length_append, List.length_cons] at hn
  have hpos := List.length_pos_iff.2 htarget.ne_nil
  have hends : EndsAt .pipe (t :: (us ++ rest)) :=
    endsAt_cons (by rw [ht]; rintro _ ⟨⟩; decide)
  obtain ⟨target', hrun, hview⟩ :=
    pipe_reads hd hunary hbound target ts _ htarget (by omega) hends
  obtain ⟨value', hvalueRun, hvalueView⟩ := hd value us rest hvalue (by omega) hrest
  obtain ⟨e', he, heview⟩ := hassign target' value' hview hvalueView
  refine ⟨e', ?_, heview⟩
  rw [List.append_assoc, List.cons_append, expression, run_bind_of hrun, run_bind_of here_run,
    run_bind_of (accept_run_true ht), if_pos rfl, run_bind_of hvalueRun]
  simp only [he]
  rfl

theorem expression_reads : Reads (expression d) .assignment (n + 1) := by
  intro e tokens rest h hn hrest
  have hlexemes := h.lexemes
  have hfits := h.fits
  have hpipe (hl : .pipe ≤ e.level) :
      ∃ e', (expression d).run (tokens ++ rest) = .ok (e', rest) ∧ e'.unplaced = e.unplaced := by
    obtain ⟨e', hrun, hview⟩ :=
      pipe_reads hd hunary hbound e tokens rest (h.atLevel hl) hn (hrest.mono (by decide))
    refine ⟨e', ?_, hview⟩
    have hequal : NextNot (.symbol .equal) rest := hrest.ne rfl (Nat.le_refl _)
    obtain ⟨t, rest, rfl, -⟩ := hrest
    rw [expression, run_bind_of hrun, run_bind_of here_run, run_bind_of (accept_run_false hequal)]
    rfl
  cases e with
  | assign m value p =>
    rw [Expr.render] at hlexemes
    obtain ⟨t, ts, rfl, ht, hts⟩ := lexemes_eq_cons_exact hlexemes rfl
    obtain ⟨q, us, rfl, hq, hus⟩ := lexemes_eq_cons_exact hts rfl
    have htarget : Spells .pipe (.name m p) [t] :=
      ⟨⟨rfl, List.forall_mem_nil _⟩, leveled_of_parts trivial rfl (List.forall_mem_nil _),
        (by decide : Expr.Level.pipe ≤ .primary),
        by rw [Expr.render, lexemes, List.map_singleton, ht]; rfl⟩
    have hvalue := h.part (k := .assignment) List.mem_cons_self (Nat.zero_le _) hus
    change ∃ e', (expression d).run ([t] ++ q :: us ++ rest) = _ ∧ _
    refine assignment_run hd hunary hbound htarget hq hvalue hn hrest fun target' value' h1 h2 => ?_
    obtain ⟨-, rfl⟩ := unplaced_eq_name h1
    exact ⟨_, rfl, by rw [Expr.unplaced, Expr.unplaced, h2]⟩
  | set target m value p =>
    have hrender : (Expr.set target m value p).render =
        (Expr.get target m false p).render ++ .symbol .equal :: value.render := by
      rw [Expr.render, Expr.render, List.append_assoc]
      rfl
    rw [hrender] at hlexemes
    obtain ⟨ts, us, rfl, hts, hus⟩ := lexemes_eq_append hlexemes
    obtain ⟨q, us, rfl, hq, hus⟩ := lexemes_eq_cons_exact hus rfl
    have hsub : ∀ q ∈ (Expr.get target m false p).parts, q ∈ (Expr.set target m value p).parts := by
      simp [Expr.parts]
    have htarget : Spells .pipe (.get target m false p) ts :=
      ⟨⟨rfl, fun q hq => h.plain_part (hsub q hq)⟩,
        leveled_of_parts hfits rfl fun q hq => h.leveled_part (hsub q hq),
        (by decide : Expr.Level.pipe ≤ .postfixed), hts⟩
    have hvalue := h.part (k := .assignment) (p := value) (by simp [Expr.parts]) (Nat.zero_le _) hus
    refine assignment_run hd hunary hbound htarget hq hvalue hn hrest fun target' value' h1 h2 => ?_
    obtain ⟨object, -, rfl, h3⟩ := unplaced_eq_get h1
    exact ⟨_, rfl, by rw [Expr.unplaced, Expr.unplaced, h2, h3]⟩
  | indexSet target key value p =>
    have hrender : (Expr.indexSet target key value p).render =
        (Expr.index target key p).render ++ .symbol .equal :: value.render := by
      rw [Expr.render, Expr.render, List.append_assoc _ [_]]
      rfl
    rw [hrender] at hlexemes
    obtain ⟨ts, us, rfl, hts, hus⟩ := lexemes_eq_append hlexemes
    obtain ⟨q, us, rfl, hq, hus⟩ := lexemes_eq_cons_exact hus rfl
    have hsub : ∀ q ∈ (Expr.index target key p).parts,
        q ∈ (Expr.indexSet target key value p).parts := by
      simp [Expr.parts]
    have htarget : Spells .pipe (.index target key p) ts :=
      ⟨⟨rfl, fun q hq => h.plain_part (hsub q hq)⟩,
        leveled_of_parts hfits rfl fun q hq => h.leveled_part (hsub q hq),
        (by decide : Expr.Level.pipe ≤ .postfixed), hts⟩
    have hvalue := h.part (k := .assignment) (p := value) (by simp [Expr.parts]) (Nat.zero_le _) hus
    refine assignment_run hd hunary hbound htarget hq hvalue hn hrest fun target' value' h1 h2 => ?_
    obtain ⟨object, key', -, rfl, h3, h4⟩ := unplaced_eq_index h1
    exact ⟨_, rfl, by rw [Expr.unplaced, Expr.unplaced, h2, h3, h4]⟩
  | binary op | logical op => exact hpipe op.pipe_le_level
  | _ => exact hpipe (by simp [Expr.level, Expr.Level.le_def, Expr.Level.rank])

end

/-- A parser that may nest `n` levels deep reads all expressions of at most `n` tokens. -/
theorem parseWithin_reads (n : Nat) : Reads (parseWithin n .expression) .assignment n ∧
    Reads (parseWithin n .unary) .unary n := by
  induction n with
  | zero => exact ⟨nofun, nofun⟩
  | succ n ih =>
    exact ⟨expression_reads (d := ⟨n, parseWithin n⟩) ih.1 ih.2 (Nat.le_refl n),
      unary_reads (d := ⟨n, parseWithin n⟩) ih.1 (Nat.le_refl n) ih.2⟩

theorem length_lt_depthBound (tokens : List Token) : tokens.length < depthBound tokens := by
  have hweight : tokens.length ≤ (tokens.map tokenWeight).foldr Nat.add 0 := by
    induction tokens with
    | nil => exact Nat.le_refl _
    | cons t tokens ih =>
      have ht : 1 ≤ tokenWeight t := by
        unfold tokenWeight
        split <;> omega
      simp only [List.map_cons, List.foldr_cons, List.length_cons, Nat.add_eq] at ih ⊢
      omega
  unfold depthBound
  omega

theorem finished_append (tokens : List Token) (t : Token) (rest : List Token) :
    finished (tokens ++ t :: rest) = tokens ++ finished (t :: rest) := by
  have hlast : (tokens ++ t :: rest).getLast? = (t :: rest).getLast? := by
    rw [List.getLast?_append, List.getLast?_cons, Option.some_or]
  unfold finished
  rw [hlast]
  cases hrest : (t :: rest).getLast? with
  | none => simp at hrest
  | some u =>
    simp only
    split
    · rfl
    · exact List.append_assoc ..

theorem finished_cons (t : Token) (rest : List Token) :
    ∃ rest', finished (t :: rest) = t :: rest' := by
  unfold finished
  split
  next h => simp at h
  next u h =>
    split
    · exact ⟨rest, rfl⟩
    · exact ⟨_, rfl⟩

/-- The parser reads every expression without functions and templates that respects the levels back
from its tokens, up to positions, and stops at the following token if that cannot continue an
expression. Conversely every expression that it reads, from any tokens, respects the levels. -/
theorem parseExpression_inverts_render :
    (∀ (e : Expr) (tokens : List Token) (t : Token) (rest : List Token), e.Plain → e.Leveled →
      lexemes tokens = e.render → t.lexeme.continues = none →
        ∃ e', parseExpression (tokens ++ t :: rest) = .ok (e', finished (t :: rest)) ∧
          e'.unplaced = e.unplaced) ∧
    ∀ (tokens : List Token) (e : Expr) (rest : List Token),
      parseExpression tokens = .ok (e, rest) → e.Leveled := by
  refine ⟨fun e tokens t rest hplain hleveled hlexemes ht => ?_, fun tokens e rest h => ?_⟩
  · have hlength : tokens.length < depthBound (tokens ++ t :: rest) :=
      Nat.lt_of_le_of_lt (by simp) (length_lt_depthBound _)
    obtain ⟨rest', hrest'⟩ := finished_cons t rest
    have hends : EndsAt .assignment (finished (t :: rest)) := by
      rw [hrest']
      exact endsAt_of_none ht
    rw [parseExpression, finished_append]
    have hspells : Spells .assignment e tokens := ⟨hplain, hleveled, Nat.zero_le _, hlexemes⟩
    exact (parseWithin_reads _).1 e tokens _ hspells hlength hends
  · have hnames : Token.NamesIn (fun _ => True) (finished tokens) := fun _ _ _ _ => trivial
    exact (parseWithin_gives (fun _ _ => trivial) _ .expression _ _ _ hnames h).1.leveled

/-- The tokens of `a - b - c * d`, one column each. -/
def differences : List Token :=
  [⟨.name "a", ⟨1, 1, 0⟩⟩, ⟨.symbol .minus, ⟨1, 2, 1⟩⟩, ⟨.name "b", ⟨1, 3, 2⟩⟩,
    ⟨.symbol .minus, ⟨1, 4, 3⟩⟩, ⟨.name "c", ⟨1, 5, 4⟩⟩, ⟨.symbol .star, ⟨1, 6, 5⟩⟩,
    ⟨.name "d", ⟨1, 7, 6⟩⟩]

theorem differences_group_left :
    ∃ e', parseExpression (differences ++ [⟨.symbol .semicolon, ⟨1, 8, 7⟩⟩]) =
        .ok (e', [⟨.symbol .semicolon, ⟨1, 8, 7⟩⟩, ⟨.finish, ⟨1, 8, 7⟩⟩]) ∧
      e'.unplaced = (Expr.binary .subtract
        (.binary .subtract (.name "a" default) (.name "b" default) default)
        (.binary .multiply (.name "c" default) (.name "d" default) default) default).unplaced := by
  have hname (n : String) : (Expr.name n default).Plain ∧ (Expr.name n default).Leveled :=
    ⟨⟨rfl, nofun⟩, leveled_of_parts trivial rfl nofun⟩
  have hbinary (op : BinaryOp) {left right : Expr} (hleft : left.Plain ∧ left.Leveled)
      (hright : right.Plain ∧ right.Leveled)
      (hfits : op.level ≤ left.level ∧ op.level < right.level) :
      (Expr.binary op left right default).Plain ∧ (Expr.binary op left right default).Leveled :=
    ⟨⟨rfl, List.forall_mem_cons.2 ⟨hleft.1, List.forall_mem_singleton.2 hright.1⟩⟩,
      leveled_of_parts hfits rfl
        (List.forall_mem_cons.2 ⟨hleft.2, List.forall_mem_singleton.2 hright.2⟩)⟩
  have hleft := hbinary .subtract (hname "a") (hname "b") (by decide)
  have hright := hbinary .multiply (hname "c") (hname "d") (by decide)
  obtain ⟨hplain, hleveled⟩ := hbinary .subtract hleft hright (by decide)
  refine parseExpression_inverts_render.1 _ differences _ [] hplain hleveled ?_ rfl
  simp [Expr.render, lexemes, differences, Lexeme.canonical, BinaryOp.symbol]

end ScriptEngine.Grammar
