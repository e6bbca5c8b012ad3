import ScriptEngine.Proofs.Grammar.Reading

/-!
# Reading operands back

Primaries, calls and accesses, and unary operators are read back from their tokens, whatever follows
that does not continue them. The loop over accesses is followed along the left side of the tree.
-/
namespace ScriptEngine.Grammar
open Text (Position)

/-- Tokens of an expression that binds at least as tightly as a level. -/
structure Spells (l : Expr.Level) (e : Expr) (tokens : List Token) : Prop where
  plain : e.Plain
  leveled : e.Leveled
  level : l ≤ e.level
  lexemes : lexemes tokens = e.render

/-- A parser reads every expression of a level back from fewer than `n` tokens and stops at what
follows, provided that this does not continue the expression. -/
def Reads (p : Parser Expr) (l : Expr.Level) (n : Nat) : Prop :=
  ∀ e tokens rest, Spells l e tokens → tokens.length < n → EndsAt l rest →
    ∃ e', p.run (tokens ++ rest) = .ok (e', rest) ∧ e'.unplaced = e.unplaced

theorem Spells.ne_nil {l : Expr.Level} {e : Expr} {tokens : List Token} (h : Spells l e tokens) :
    tokens ≠ [] := by
  rintro rfl
  obtain ⟨x, xs, k, hx, -⟩ := e.render_begins h.plain h.leveled
  have := h.lexemes
  rw [hx] at this
  cases this

/-- The first token of an expression begins one. -/
theorem Spells.begins {l : Expr.Level} {e : Expr} {tokens : List Token} (h : Spells l e tokens) :
    ∃ t ts k, tokens = t :: ts ∧ t.lexeme.begins = some k ∧
      (.postfixed ≤ e.level → k = .primary) := by
  obtain ⟨x, xs, k, hx, hbegins, hk⟩ := e.render_begins h.plain h.leveled
  have hx' := h.lexemes
  rw [hx] at hx'
  obtain ⟨t, ts, rfl, ht, -⟩ := lexemes_eq_cons_exact hx' (Lexeme.hasSign_of_begins hbegins)
  exact ⟨t, ts, k, rfl, by rw [ht, hbegins], hk⟩

theorem Spells.plain_part {l : Expr.Level} {e p : Expr} {tokens : List Token}
    (h : Spells l e tokens) (hp : p ∈ e.parts) : p.Plain := by
  obtain ⟨-, hparts⟩ := h.plain
  exact hparts p hp

theorem Spells.leveled_part {l : Expr.Level} {e p : Expr} {tokens : List Token}
    (h : Spells l e tokens) (hp : p ∈ e.parts) : p.Leveled := by
  obtain ⟨-, hparts, -⟩ := h.leveled
  exact hparts p hp

theorem Spells.fits {l : Expr.Level} {e : Expr} {tokens : List Token} (h : Spells l e tokens) :
    e.Fits := by
  obtain ⟨hfits, -, -⟩ := h.leveled
  exact hfits

theorem Spells.part {l k : Expr.Level} {e p : Expr} {tokens ts : List Token}
    (h : Spells l e tokens) (hp : p ∈ e.parts) (hk : k ≤ p.level)
    (hts : Grammar.lexemes ts = p.render) : Spells k p ts :=
  ⟨h.plain_part hp, h.leveled_part hp, hk, hts⟩

theorem Spells.atLevel {l k : Expr.Level} {e : Expr} {tokens : List Token} (h : Spells l e tokens)
    (hk : k ≤ e.level) : Spells k e tokens :=
  ⟨h.plain, h.leveled, hk, h.lexemes⟩

section

variable {d : Deeper} {n : Nat} (hd : Reads (d.parse .expression) .assignment n)
  (hbound : n ≤ d.bound)

theorem literal_run {t : Token} {value : Literal} (h : t.lexeme = value.lexeme)
    (rest : List Token) :
    (primary d).run (t :: rest) = .ok (.literal value t.position, rest) := by
  have hfinish : t.lexeme ≠ .finish := by
    rw [h]
    cases value with
    | bool b => cases b <;> nofun
    | _ => nofun
  have hrun : (literal value t.position).run (t :: rest) =
      .ok (.literal value t.position, rest) := by
    rw [literal, run_bind_of (advance_run hfinish)]
    rfl
  rw [primary, run_bind_of peek_run]
  cases value with
  | bool b => cases b <;> simp only [h, Literal.lexeme] <;> exact hrun
  | _ => simp only [h, Literal.lexeme]; exact hrun

theorem name_run {t : Token} {n : String} (h : t.lexeme = .name n) {rest : List Token}
    (hrest : EndsAt .primary rest) :
    (primary d).run (t :: rest) = .ok (.name n t.position, rest) := by
  have harrow := any_isSymbol_of_ne (s := .thickArrow) (hrest.ne rfl (Nat.le_refl _))
  rw [primary, run_bind_of peek_run]
  simp only [h]
  rw [run_bind_of peekSecond_run, run_bind_of (advance_run (by simp [h])), harrow]
  rfl

theorem this_run {t : Token} (h : t.lexeme = .keyword .thisWord) (rest : List Token) :
    (primary d).run (t :: rest) = .ok (.this t.position, rest) := by
  rw [primary, run_bind_of peek_run]
  simp only [h]
  rw [run_bind_of (advance_run (by simp [h]))]
  rfl

theorem super_run {t dot u : Token} {method : String} (ht : t.lexeme = .keyword .superWord)
    (hdot : dot.lexeme = .symbol .dot) (hu : u.lexeme = .name method) (rest : List Token) :
    (primary d).run (t :: dot :: u :: rest) = .ok (.super method t.position, rest) := by
  have hname : name.run (u :: rest) = .ok (method, rest) := by
    rw [name, run_bind_of peek_run, hu]
    change (advance >>= fun _ => pure method).run (u :: rest) = _
    rw [run_bind_of (advance_run (by simp [hu]))]
    rfl
  rw [primary, run_bind_of peek_run]
  simp only [ht]
  rw [run_bind_of (advance_run (by simp [ht])), run_bind_of (expect_run hdot _), run_bind_of hname]
  rfl

include hd

theorem grouping_reads {inner : Expr} {p : Position} {tokens rest : List Token}
    (h : Spells .primary (.grouping inner p) tokens) (hn : tokens.length < n + 1)
    (hrest : EndsAt .primary rest) :
    ∃ e', (primary d).run (tokens ++ rest) = .ok (e', rest) ∧
      e'.unplaced = (Expr.grouping inner p).unplaced := by
  have hlexemes := h.lexemes
  rw [Expr.render] at hlexemes
  obtain ⟨t, ts, u, rfl, ht, hts, hu⟩ := lexemes_eq_enclosed hlexemes rfl rfl
  have hinner := h.part (k := .assignment) List.mem_cons_self (Nat.zero_le _) hts
  rw [length_enclosed] at hn
  obtain ⟨e', hrun, hview⟩ :=
    hd inner ts (u :: rest) hinner (by omega) (endsAt_of_none (by rw [hu]; rfl))
  have harrow : arrowAhead? 0 (t :: (ts ++ u :: rest)) = some false := by
    rw [arrowAhead?_start ht, render_skipped hinner.plain ts _ 1 hts Nat.one_pos,
      arrowAhead_last hu, any_isSymbol_of_ne (hrest.ne rfl (Nat.le_refl _))]
  refine ⟨.grouping e' t.position, ?_, by rw [Expr.unplaced, Expr.unplaced, hview]⟩
  simp only [List.cons_append, List.append_assoc, List.nil_append]
  rw [primary, run_bind_of peek_run]
  simp only [ht]
  rw [parenthesized, run_bind_of (a := t :: (ts ++ u :: rest)) rfl]
  simp only [harrow]
  rw [run_bind_of (advance_run (by simp [ht])), run_bind_of hrun, run_bind_of (expect_run hu _)]
  rfl

/-- An expression as an item of a list. -/
theorem expression_readsItem {e : Expr} (hplain : e.Plain) (hleveled : e.Leveled) (close : Symbol)
    (hclose : (Lexeme.symbol close).begins = none) :
    ReadsItem (d.parse .expression) Expr.render Expr.unplaced close n e where
  opens tokens htokens := by
    have h : Spells .assignment e tokens := ⟨hplain, hleveled, Nat.zero_le _, htokens⟩
    obtain ⟨t, ts, k, rfl, ht, -⟩ := h.begins
    exact ⟨t, ts, rfl, fun h => by simp [h, hclose] at ht⟩
  run tokens rest htokens hn hrest :=
    hd e tokens rest ⟨hplain, hleveled, Nat.zero_le _, htokens⟩ hn hrest

theorem arrayElement_readsItem {x : Expr × Bool} (hplain : x.1.Plain) (hleveled : x.1.Leveled) :
    ReadsItem (arrayElement d) (fun x => (if x.2 then [.symbol .dots] else []) ++ x.1.render)
      (fun x => (x.1.unplaced, x.2)) .closeBracket n x := by
  obtain ⟨e, spread⟩ := x
  have he := expression_readsItem hd hplain hleveled .closeBracket rfl
  have hdots := expression_readsItem hd hplain hleveled .dots rfl
  cases spread with
  | true =>
    constructor
    · intro tokens htokens
      obtain ⟨t, ts, rfl, ht, -⟩ := lexemes_eq_cons_exact htokens rfl
      exact ⟨t, ts, rfl, by simp [ht]⟩
    · intro tokens rest htokens hn hrest
      obtain ⟨t, ts, rfl, ht, hts⟩ := lexemes_eq_cons_exact htokens rfl
      obtain ⟨e', hrun, hview⟩ := he.run ts rest hts (Nat.lt_of_succ_lt hn) hrest
      refine ⟨(e', true), ?_, by simpa using hview⟩
      rw [arrayElement, List.cons_append, run_bind_of (accept_run_true ht), run_bind_of hrun]
      rfl
  | false =>
    refine ⟨he.opens, fun tokens rest htokens hn hrest => ?_⟩
    obtain ⟨e', hrun, hview⟩ := he.run tokens rest htokens hn hrest
    refine ⟨(e', false), ?_, by simpa using hview⟩
    obtain ⟨t, ts, rfl, ht⟩ := hdots.opens tokens htokens
    rw [arrayElement, List.cons_append, run_bind_of (accept_run_false (nextNot_cons ht _)),
      ← List.cons_append, run_bind_of hrun]
    rfl

theorem objectField_readsItem {x : String × Expr} (hplain : x.2.Plain) (hleveled : x.2.Leveled) :
    ReadsItem (objectField d) (fun x => .text x.1 :: .symbol .colon :: x.2.render)
      (fun x => (x.1, x.2.unplaced)) .closeBrace n x := by
  constructor
  · intro tokens htokens
    obtain ⟨t, ts, rfl, ht, -⟩ := lexemes_eq_cons_exact htokens rfl
    exact ⟨t, ts, rfl, by simp [ht]⟩
  · intro tokens rest htokens hn hrest
    obtain ⟨t, ts, rfl, ht, h⟩ := lexemes_eq_cons_exact htokens rfl
    obtain ⟨u, us, rfl, hu, hus⟩ := lexemes_eq_cons_exact h rfl
    obtain ⟨e', hrun, hview⟩ := hd x.2 us rest ⟨hplain, hleveled, Nat.zero_le _, hus⟩
      (Nat.lt_of_succ_lt (Nat.lt_of_succ_lt hn)) hrest
    refine ⟨(x.1, e'), ?_, by simp [hview]⟩
    rw [objectField, List.cons_append, List.cons_append, run_bind_of here_run,
      run_bind_of (propertyName_run ht), run_bind_of (accept_run_true hu), if_pos rfl,
      run_bind_of hrun]
    rfl

include hbound

theorem array_reads {elements : List (Expr × Bool)} {p : Position} {tokens : List Token}
    (h : Spells .primary (.array elements p) tokens) (hn : tokens.length < n + 1)
    (rest : List Token) :
    ∃ e', (primary d).run (tokens ++ rest) = .ok (e', rest) ∧
      e'.unplaced = (Expr.array elements p).unplaced := by
  have hlexemes := h.lexemes
  rw [Expr.render] at hlexemes
  obtain ⟨t, ts, u, rfl, ht, hts, hu⟩ := lexemes_eq_enclosed hlexemes rfl rfl
  have hitems : ∀ x ∈ elements, ReadsItem (arrayElement d) _ _ .closeBracket n x := fun x hx =>
    arrayElement_readsItem hd (h.plain_part (List.mem_map_of_mem hx))
      (h.leveled_part (List.mem_map_of_mem hx))
  rw [length_enclosed] at hn
  obtain ⟨ys, hys, hview⟩ := commaItems_run hitems hbound hts (by omega) hu rfl (by decide) rest
  refine ⟨.array ys t.position, ?_, by rw [Expr.unplaced, Expr.unplaced, hview]⟩
  simp only [List.cons_append, List.append_assoc, List.nil_append]
  rw [primary, run_bind_of peek_run]
  simp only [ht]
  rw [arrayLiteral, run_bind_of here_run, run_bind_of (expect_run ht _), run_bind_of hys,
    run_bind_of (expect_run hu _)]
  rfl

theorem object_reads {fields : List (String × Expr)} {p : Position} {tokens : List Token}
    (h : Spells .primary (.object fields p) tokens) (hn : tokens.length < n + 1)
    (rest : List Token) :
    ∃ e', (primary d).run (tokens ++ rest) = .ok (e', rest) ∧
      e'.unplaced = (Expr.object fields p).unplaced := by
  have hlexemes := h.lexemes
  rw [Expr.render] at hlexemes
  obtain ⟨t, ts, u, rfl, ht, hts, hu⟩ := lexemes_eq_enclosed hlexemes rfl rfl
  have hitems : ∀ x ∈ fields, ReadsItem (objectField d) _ _ .closeBrace n x := fun x hx =>
    objectField_readsItem hd (h.plain_part (List.mem_map_of_mem hx))
      (h.leveled_part (List.mem_map_of_mem hx))
  rw [length_enclosed] at hn
  obtain ⟨ys, hys, hview⟩ := commaItems_run hitems hbound hts (by omega) hu rfl (by decide) rest
  refine ⟨.object ys t.position, ?_, by rw [Expr.unplaced, Expr.unplaced, hview]⟩
  simp only [List.cons_append, List.append_assoc, List.nil_append]
  rw [primary, run_bind_of peek_run]
  simp only [ht]
  rw [objectLiteral, run_bind_of here_run, run_bind_of (expect_run ht _), run_bind_of hys,
    run_bind_of (expect_run hu _)]
  rfl

theorem primary_reads : Reads (primary d) .primary (n + 1) := by
  intro e tokens rest h hn hrest
  have hlexemes := h.lexemes
  have hlevel := h.level
  cases e with
  | literal value p =>
    rw [Expr.render] at hlexemes
    obtain ⟨t, ts, rfl, ht, hts⟩ :=
      lexemes_eq_cons_exact hlexemes (Lexeme.hasSign_of_begins value.begins_lexeme)
    obtain rfl := lexemes_eq_nil hts
    exact ⟨_, literal_run ht rest, by rw [Expr.unplaced, Expr.unplaced]⟩
  | name m p =>
    rw [Expr.render] at hlexemes
    obtain ⟨t, ts, rfl, ht, hts⟩ := lexemes_eq_cons_exact hlexemes rfl
    obtain rfl := lexemes_eq_nil hts
    exact ⟨_, name_run ht hrest, by rw [Expr.unplaced, Expr.unplaced]⟩
  | this p =>
    rw [Expr.render] at hlexemes
    obtain ⟨t, ts, rfl, ht, hts⟩ := lexemes_eq_cons_exact hlexemes rfl
    obtain rfl := lexemes_eq_nil hts
    exact ⟨_, this_run ht rest, by rw [Expr.unplaced, Expr.unplaced]⟩
  | super method p =>
    rw [Expr.render] at hlexemes
    obtain ⟨t, ts, rfl, ht, hts⟩ := lexemes_eq_cons_exact hlexemes rfl
    obtain ⟨dot, ts, rfl, hdot, hts⟩ := lexemes_eq_cons_exact hts rfl
    obtain ⟨u, ts, rfl, hu, hts⟩ := lexemes_eq_cons_exact hts rfl
    obtain rfl := lexemes_eq_nil hts
    exact ⟨_, super_run ht hdot hu rest, by rw [Expr.unplaced, Expr.unplaced]⟩
  | grouping inner p => exact grouping_reads hd h hn hrest
  | array elements p => exact array_reads hd hbound h hn rest
  | object fields p => exact object_reads hd hbound h hn rest
  | function | template =>
    obtain ⟨hown, -⟩ := h.plain
    cases hown
  | binary op | logical op =>
    exact absurd hlevel (Nat.not_le.2 (Nat.lt_trans op.level_lt (by decide)))
  | _ => simp [Expr.level, Expr.Level.le_def, Expr.Level.rank] at hlevel

end

/-! Loops that extend what was read -/

/-- On the tokens of `e` a parser comes to where its loop has read `e`, with enough rounds left for
`n` tokens in all. -/
def Reached (p : Parser Expr) (loop : Nat → Expr → Parser Expr) (n : Nat) (e : Expr)
    (tokens rest : List Token) : Prop :=
  ∃ e' m, p.run (tokens ++ rest) = (loop m e').run rest ∧ e'.unplaced = e.unplaced ∧
    n + 1 ≤ m + tokens.length

namespace Reached

variable {p : Parser Expr} {loop : Nat → Expr → Parser Expr} {n : Nat} {e : Expr}
  {tokens rest : List Token}

/-- Before the first round. -/
theorem start {k : Nat} {e' : Expr} (hrun : p.run (tokens ++ rest) = .ok (e', rest))
    (hview : e'.unplaced = e.unplaced) (htokens : tokens ≠ []) (hk : n ≤ k) :
    Reached (p >>= loop k) loop n e tokens rest := by
  have hpos := List.length_pos_iff.2 htokens
  exact ⟨e', k, run_bind_of hrun, hview, by omega⟩

/-- One round more: it takes at least one token. -/
theorem round {left : Expr} {ts us : List Token} (h : Reached p loop n left ts us)
    (hts : ts.length ≤ n) (htokens : tokens ++ rest = ts ++ us)
    (hlength : ts.length < tokens.length)
    (hround : ∀ m left', left'.unplaced = left.unplaced →
      ∃ e', (loop (m + 1) left').run us = (loop m e').run rest ∧ e'.unplaced = e.unplaced) :
    Reached p loop n e tokens rest := by
  obtain ⟨left', m, hrun, hview, hm⟩ := h
  obtain ⟨m, rfl⟩ : ∃ m', m = m' + 1 := ⟨m - 1, by omega⟩
  obtain ⟨e', hstep, he⟩ := hround m left' hview
  exact ⟨e', m, by rw [htokens, hrun, hstep], he, by omega⟩

/-- After the last round. -/
theorem stop (h : Reached p loop n e tokens rest)
    (hstop : ∀ m e', (loop m e').run rest = .ok (e', rest)) :
    ∃ e', p.run (tokens ++ rest) = .ok (e', rest) ∧ e'.unplaced = e.unplaced := by
  obtain ⟨e', m, hrun, hview, -⟩ := h
  exact ⟨e', hrun.trans (hstop m e'), hview⟩

end Reached

/-! Calls and accesses -/

section

variable {d : Deeper} {m : Nat} {e : Expr} {t u : Token} {us rest : List Token}

theorem accessesOf_run_call {args : List Expr} (ht : t.lexeme = .symbol .openParen)
    (hargs : (closedList d "')' after arguments" (d.parse .expression)).run us = .ok (args, rest)) :
    (accessesOf d (m + 1) e).run (t :: us) =
      (accessesOf d m (.call e args t.position)).run rest := by
  rw [accessesOf, run_bind_of peek_run]
  simp only [ht]
  rw [run_bind_of (advance_run (by simp [ht])), run_bind_of hargs]

theorem accessesOf_run_get {n : String} {optional : Bool}
    (ht : t.lexeme = .symbol (if optional then .questionDot else .dot)) (hu : u.lexeme = .text n) :
    (accessesOf d (m + 1) e).run (t :: u :: rest) =
      (accessesOf d m (.get e n optional t.position)).run rest := by
  rw [accessesOf, run_bind_of peek_run]
  cases optional <;> simp only [Bool.false_eq_true, if_false, if_true] at ht <;> simp only [ht] <;>
    rw [run_bind_of (advance_run (by simp [ht])), run_bind_of (propertyName_run hu)]

theorem accessesOf_run_index {key : Expr} (ht : t.lexeme = .symbol .openBracket)
    (hkey : (d.parse .expression).run us = .ok (key, u :: rest))
    (hu : u.lexeme = .symbol .closeBracket) :
    (accessesOf d (m + 1) e).run (t :: us) =
      (accessesOf d m (.index e key t.position)).run rest := by
  rw [accessesOf, run_bind_of peek_run]
  simp only [ht]
  rw [run_bind_of (advance_run (by simp [ht])), run_bind_of hkey, run_bind_of (expect_run hu _)]

theorem accessesOf_run_end (hrest : EndsAt .postfixed rest) :
    (accessesOf d m e).run rest = .ok (e, rest) := by
  cases m with
  | zero => rfl
  | succ m =>
    obtain ⟨t, rest, rfl, ht⟩ := hrest
    have hnone (s : Symbol) (hs : (Lexeme.symbol s).continues = some .postfixed) :
        t.lexeme ≠ .symbol s := by
      rintro h
      exact absurd (ht _ (h ▸ hs)) (Nat.lt_irrefl _)
    rw [accessesOf, run_bind_of peek_run]
    split
    next h => exact absurd h (hnone .openParen rfl)
    next h => exact absurd h (hnone .dot rfl)
    next h => exact absurd h (hnone .questionDot rfl)
    next h => exact absurd h (hnone .openBracket rfl)
    next => rfl

end

section

variable {d : Deeper} {n : Nat} (hd : Reads (d.parse .expression) .assignment n)
  (hbound : n ≤ d.bound)
include hd hbound

/-- The loop over accesses reads an expression along its left side. -/
theorem access_reached {e : Expr} {tokens rest : List Token} (h : Spells .postfixed e tokens)
    (hn : tokens.length < n + 1) (hrest : EndsAt .primary rest) :
    Reached (access d) (accessesOf d) n e tokens rest := by
  obtain ⟨hplain, hleveled, hlevel, hlexemes⟩ := h
  induction hplain generalizing tokens rest with
  | @intro e own parts ih =>
    have hspells {k : Expr.Level} (hk : k ≤ e.level) : Spells k e tokens :=
      ⟨⟨own, parts⟩, hleveled, hk, hlexemes⟩
    have hfits := (hspells hlevel).fits
    -- What is called or accessed is read first, since an access can follow it.
    have htarget {target : Expr} {ts : List Token} {t : Token} (us : List Token)
        (hp : target ∈ e.parts) (hl : .postfixed ≤ target.level)
        (hts : lexemes ts = target.render) (hlength : ts.length < n + 1)
        (ht : t.lexeme.continues = some .postfixed) :
        Reached (access d) (accessesOf d) n target ts (t :: us) := by
      have hends : EndsAt .primary (t :: us) := endsAt_cons (by rw [ht]; rintro _ ⟨⟩; decide)
      exact ih target hp hlength hends ((hspells hlevel).leveled_part hp) hl hts
    have hprimary (hl : .primary ≤ e.level) :
        Reached (access d) (accessesOf d) n e tokens rest := by
      obtain ⟨e', hrun, hview⟩ := primary_reads hd hbound e tokens rest (hspells hl) hn hrest
      exact .start hrun hview (hspells hl).ne_nil hbound
    cases e with
    | call callee args p =>
      rw [Expr.render, List.append_assoc] at hlexemes
      obtain ⟨ts, us, rfl, hts, hus⟩ := lexemes_eq_append hlexemes
      obtain ⟨t, us, u, rfl, ht, hus, hu⟩ := lexemes_eq_enclosed hus rfl rfl
      rw [List.length_append, length_enclosed] at hn
      have hitems : ∀ a ∈ args, ReadsItem (d.parse .expression) Expr.render Expr.unplaced
          .closeParen n a := fun a ha =>
        expression_readsItem hd ((hspells hlevel).plain_part (List.mem_cons_of_mem _ ha))
          ((hspells hlevel).leveled_part (List.mem_cons_of_mem _ ha)) _ rfl
      obtain ⟨args', hargs, hviews⟩ := closedList_run hitems hbound hus (by omega) hu
        "')' after arguments" rest
      have hcallee := htarget (us ++ u :: rest) List.mem_cons_self hfits hts (by omega)
        (by rw [ht]; rfl)
      refine hcallee.round (by omega) (by simp) (by simp) fun m f hview => ?_
      exact ⟨_, accessesOf_run_call ht hargs, by rw [Expr.unplaced, Expr.unplaced, hview, hviews]⟩
    | get target name optional p =>
      rw [Expr.render] at hlexemes
      obtain ⟨ts, us, rfl, hts, hus⟩ := lexemes_eq_append hlexemes
      obtain ⟨t, us, rfl, ht, hus⟩ := lexemes_eq_cons_exact hus rfl
      obtain ⟨u, us, rfl, hu, hus⟩ := lexemes_eq_cons_exact hus rfl
      obtain rfl := lexemes_eq_nil hus
      rw [List.length_append] at hn
      have hobject := htarget (u :: rest) List.mem_cons_self hfits hts (by omega)
        (by rw [ht]; cases optional <;> rfl)
      refine hobject.round (by omega) (by simp) (by simp) fun m f hview => ?_
      exact ⟨_, accessesOf_run_get ht hu, by rw [Expr.unplaced, Expr.unplaced, hview]⟩
    | index target key p =>
      rw [Expr.render, List.append_assoc] at hlexemes
      obtain ⟨ts, us, rfl, hts, hus⟩ := lexemes_eq_append hlexemes
      obtain ⟨t, us, u, rfl, ht, hus, hu⟩ := lexemes_eq_enclosed hus rfl rfl
      rw [List.length_append, length_enclosed] at hn
      have hkey : Spells .assignment key us :=
        (hspells hlevel).part (by simp [Expr.parts]) (Nat.zero_le _) hus
      obtain ⟨key', hkeyRun, hkeyView⟩ := hd key us (u :: rest) hkey (by omega)
        (endsAt_of_none (by rw [hu]; rfl))
      have hobject := htarget (us ++ u :: rest) List.mem_cons_self hfits hts (by omega)
        (by rw [ht]; rfl)
      refine hobject.round (by omega) (by simp) (by simp) fun m f hview => ?_
      exact ⟨_, accessesOf_run_index ht hkeyRun hu,
        by rw [Expr.unplaced, Expr.unplaced, hview, hkeyView]⟩
    | binary op | logical op =>
      exact absurd hlevel (Nat.not_le.2 (Nat.lt_trans op.level_lt (by decide)))
    | assign | set | indexSet | unary | await =>
      simp [Expr.level, Expr.Level.le_def, Expr.Level.rank] at hlevel
    | _ => exact hprimary (Nat.le_refl _)

theorem access_reads : Reads (access d) .postfixed (n + 1) := by
  intro e tokens rest h hn hrest
  have hreached := access_reached hd hbound h hn (hrest.mono (by decide))
  exact hreached.stop fun m e' => accessesOf_run_end hrest

theorem unary_reads (hunary : Reads (d.parse .unary) .unary n) :
    Reads (unary d) .unary (n + 1) := by
  intro e tokens rest h hn hrest
  have hlexemes := h.lexemes
  have hlevel := h.level
  have hoperand {operand : Expr} {ts : List Token} (hp : operand ∈ e.parts)
      (hl : .unary ≤ operand.level) (hts : lexemes ts = operand.render) (hlength : ts.length < n) :=
    hunary operand ts rest (h.part hp hl hts) hlength hrest
  have haccess (hl : .postfixed ≤ e.level) :
      ∃ e', (unary d).run (tokens ++ rest) = .ok (e', rest) ∧ e'.unplaced = e.unplaced := by
    obtain ⟨e', hrun, hview⟩ := access_reads hd hbound e tokens rest (h.atLevel hl) hn
      (hrest.mono (by decide))
    refine ⟨e', ?_, hview⟩
    obtain ⟨t, ts, k, rfl, ht, hk⟩ := h.begins
    obtain rfl := hk hl
    rw [← hrun, unary, List.cons_append, run_bind_of peek_run]
    split
    next h => cases h ▸ ht
    next h => cases h ▸ ht
    next h => cases h ▸ ht
    next h => cases h ▸ ht
    next => rfl
  cases e with
  | unary op operand p =>
    rw [Expr.render] at hlexemes
    obtain ⟨t, ts, rfl, ht, hts⟩ := lexemes_eq_cons_exact hlexemes rfl
    obtain ⟨e', hrun, hview⟩ := hoperand List.mem_cons_self h.fits hts (Nat.lt_of_succ_lt_succ hn)
    refine ⟨.unary op e' t.position, ?_, by rw [Expr.unplaced, Expr.unplaced, hview]⟩
    rw [unary, List.cons_append, run_bind_of peek_run]
    cases op <;> simp only [UnaryOp.symbol] at ht <;> simp only [ht] <;>
      rw [run_bind_of (advance_run (by simp [ht])), run_bind_of hrun] <;> rfl
  | await operand p =>
    rw [Expr.render] at hlexemes
    obtain ⟨t, ts, rfl, ht, hts⟩ := lexemes_eq_cons_exact hlexemes rfl
    obtain ⟨e', hrun, hview⟩ := hoperand List.mem_cons_self h.fits hts (Nat.lt_of_succ_lt_succ hn)
    refine ⟨.await e' t.position, ?_, by rw [Expr.unplaced, Expr.unplaced, hview]⟩
    rw [unary, List.cons_append, run_bind_of peek_run]
    simp only [ht]
    rw [run_bind_of (advance_run (by simp [ht])), run_bind_of hrun]
    rfl
  | binary op | logical op => exact absurd hlevel (Nat.not_le.2 op.level_lt)
  | assign | set | indexSet => simp [Expr.level, Expr.Level.le_def, Expr.Level.rank] at hlevel
  | _ => exact haccess (by simp [Expr.level, Expr.Level.le_def, Expr.Level.rank])

end

end ScriptEngine.Grammar
