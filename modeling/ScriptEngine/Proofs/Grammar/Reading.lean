import ScriptEngine.Proofs.Grammar.Precedence
import ScriptEngine.Proofs.Grammar.Tracking

/-!
# Reading what was rendered

The tokens of an expression are its lexemes at any places. Here is what the small parsers do on
tokens whose lexemes are known: the cursor, the look ahead for arrow functions, and lists with
commas between the items.
-/
namespace ScriptEngine.Grammar
open Text (Position)

/-- The lexemes of tokens, each operator in one spelling. -/
def lexemes (tokens : List Token) : List Lexeme := tokens.map fun t => t.lexeme.canonical

theorem lexemes_eq_nil {tokens : List Token} (h : lexemes tokens = []) : tokens = [] :=
  List.map_eq_nil_iff.1 h

theorem lexemes_eq_cons {tokens : List Token} {x : Lexeme} {xs : List Lexeme}
    (h : lexemes tokens = x :: xs) :
    ∃ t ts, tokens = t :: ts ∧ t.lexeme.canonical = x ∧ lexemes ts = xs := by
  obtain ⟨t, ts, rfl, ht, hts⟩ := List.map_eq_cons_iff.1 h
  exact ⟨t, ts, rfl, ht, hts⟩

theorem lexemes_eq_append {tokens : List Token} {xs ys : List Lexeme}
    (h : lexemes tokens = xs ++ ys) :
    ∃ ts us, tokens = ts ++ us ∧ lexemes ts = xs ∧ lexemes us = ys := by
  obtain ⟨ts, us, rfl, hts, hus⟩ := List.map_eq_append_iff.1 h
  exact ⟨ts, us, rfl, hts, hus⟩

/-- A lexeme that has only one spelling. -/
theorem lexemes_eq_cons_exact {tokens : List Token} {x : Lexeme} {xs : List Lexeme}
    (h : lexemes tokens = x :: xs) (hx : x.hasSign = false) :
    ∃ t ts, tokens = t :: ts ∧ t.lexeme = x ∧ lexemes ts = xs := by
  obtain ⟨t, ts, rfl, ht, hts⟩ := lexemes_eq_cons h
  exact ⟨t, ts, rfl, Lexeme.canonical_eq ht hx, hts⟩

/-- Lexemes between two that have only one spelling. -/
theorem lexemes_eq_enclosed {tokens : List Token} {x y : Lexeme} {xs : List Lexeme}
    (h : lexemes tokens = x :: xs ++ [y]) (hx : x.hasSign = false) (hy : y.hasSign = false) :
    ∃ t ts u, tokens = t :: ts ++ [u] ∧ t.lexeme = x ∧ lexemes ts = xs ∧ u.lexeme = y := by
  obtain ⟨ts, us, rfl, hts, hus⟩ := lexemes_eq_append h
  obtain ⟨t, ts, rfl, ht, hts⟩ := lexemes_eq_cons_exact hts hx
  obtain ⟨u, us, rfl, hu, hus⟩ := lexemes_eq_cons_exact hus hy
  obtain rfl := lexemes_eq_nil hus
  exact ⟨t, ts, u, rfl, ht, hts, hu⟩

theorem length_enclosed (t u : Token) (ts : List Token) :
    (t :: ts ++ [u]).length = ts.length + 2 := by
  simp

/-- The token at the front does not continue an expression of this level. -/
def EndsAt (l : Expr.Level) (rest : List Token) : Prop :=
  ∃ t ts, rest = t :: ts ∧ ∀ k ∈ t.lexeme.continues, k < l

theorem EndsAt.mono {l k : Expr.Level} {rest : List Token} (h : EndsAt l rest) (hl : l ≤ k) :
    EndsAt k rest := by
  obtain ⟨t, ts, rfl, ht⟩ := h
  exact ⟨t, ts, rfl, fun j hj => Nat.lt_of_lt_of_le (ht j hj) hl⟩

theorem endsAt_cons {l : Expr.Level} {t : Token} {rest : List Token}
    (h : ∀ k ∈ t.lexeme.continues, k < l) : EndsAt l (t :: rest) :=
  ⟨t, rest, rfl, h⟩

theorem endsAt_of_none {l : Expr.Level} {t : Token} {rest : List Token}
    (h : t.lexeme.continues = none) : EndsAt l (t :: rest) :=
  endsAt_cons (by simp [h])

/-- A token is next, and it is another one. -/
def NextNot (x : Lexeme) (tokens : List Token) : Prop :=
  ∃ t ts, tokens = t :: ts ∧ t.lexeme ≠ x

theorem nextNot_cons {x : Lexeme} {t : Token} (ht : t.lexeme ≠ x) (tokens : List Token) :
    NextNot x (t :: tokens) :=
  ⟨t, tokens, rfl, ht⟩

/-- What continues an expression of this level or tighter is not next. -/
theorem EndsAt.ne {l k : Expr.Level} {rest : List Token} {x : Lexeme} (h : EndsAt l rest)
    (hx : x.continues = some k) (hk : l ≤ k) : NextNot x rest := by
  obtain ⟨t, ts, rfl, ht⟩ := h
  refine nextNot_cons ?_ ts
  rintro rfl
  exact absurd (ht k hx) (Nat.not_lt.2 hk)

/-! The cursor -/

section

variable {α β : Type} {t : Token} {tokens : List Token} {s : Symbol}

theorem run_bind_of {p : Parser α} {f : α → Parser β} {tokens rest : List Token} {a : α}
    (h : p.run tokens = .ok (a, rest)) : (p >>= f).run tokens = (f a).run rest := by
  rw [StateT.run_bind, h]
  rfl

theorem peek_run : peek.run (t :: tokens) = .ok (t, t :: tokens) := rfl

theorem here_run : here.run (t :: tokens) = .ok (t.position, t :: tokens) := rfl

theorem peekSecond_run :
    peekSecond.run (t :: tokens) = .ok (tokens.head?.map Token.lexeme, t :: tokens) := by
  cases tokens <;> rfl

theorem advance_run (h : t.lexeme ≠ .finish) : advance.run (t :: tokens) = .ok ((), tokens) := by
  have hfinish : Lexeme.isFinish t.lexeme = false := by
    cases ht : t.lexeme <;> first | rfl | exact absurd ht h
  change Except.ok ((), if Lexeme.isFinish t.lexeme then t :: tokens else tokens) = _
  rw [hfinish]
  rfl

theorem isSymbol_iff {x : Lexeme} : Lexeme.isSymbol s x = true ↔ x = .symbol s := by
  cases x with
  | symbol t => simpa [Lexeme.isSymbol] using eq_comm
  | _ => simp [Lexeme.isSymbol]

theorem any_isSymbol_of_ne (h : NextNot (.symbol s) tokens) :
    (tokens.head?.map Token.lexeme).any (Lexeme.isSymbol s) = false := by
  obtain ⟨t, ts, rfl, ht⟩ := h
  exact Bool.eq_false_iff.2 fun hs => ht (isSymbol_iff.1 hs)

theorem isNext_run_false (h : NextNot (.symbol s) tokens) :
    (isNext s).run tokens = .ok (false, tokens) := by
  obtain ⟨t, ts, rfl, ht⟩ := h
  change Except.ok (Lexeme.isSymbol s t.lexeme, t :: ts) = _
  rw [Bool.eq_false_iff.2 fun hs => ht (isSymbol_iff.1 hs)]

theorem isNext_run_true (h : t.lexeme = .symbol s) :
    (isNext s).run (t :: tokens) = .ok (true, t :: tokens) := by
  change Except.ok (Lexeme.isSymbol s t.lexeme, t :: tokens) = _
  rw [isSymbol_iff.2 h]

theorem accept_run_true (h : t.lexeme = .symbol s) :
    (accept s).run (t :: tokens) = .ok (true, tokens) := by
  unfold accept
  rw [run_bind_of (isNext_run_true h), if_pos rfl, run_bind_of (advance_run (by simp [h]))]
  rfl

theorem accept_run_false (h : NextNot (.symbol s) tokens) :
    (accept s).run tokens = .ok (false, tokens) := by
  unfold accept
  rw [run_bind_of (isNext_run_false h)]
  rfl

theorem expect_run (h : t.lexeme = .symbol s) (expected : String) :
    (expect s expected).run (t :: tokens) = .ok ((), tokens) := by
  unfold expect
  rw [run_bind_of (accept_run_true h)]
  rfl

theorem propertyName_run {n : String} (h : t.lexeme = .text n) :
    propertyName.run (t :: tokens) = .ok (n, tokens) := by
  unfold propertyName
  rw [run_bind_of peek_run, h]
  change (advance >>= fun _ => pure n).run (t :: tokens) = _
  rw [run_bind_of (advance_run (by simp [h]))]
  rfl

end

/-! Looking ahead for an arrow -/

/-- Neither a parenthesis nor the end. -/
def isFlat : Lexeme → Bool
  | .symbol .openParen | .symbol .closeParen | .finish => false
  | _ => true

/-- Looking ahead inside parentheses passes over tokens with these lexemes. -/
def Skipped (xs : List Lexeme) : Prop :=
  ∀ tokens rest depth, lexemes tokens = xs → 0 < depth →
    arrowAhead depth (tokens ++ rest) = arrowAhead depth rest

namespace Skipped

theorem nil : Skipped [] := by
  intro tokens rest depth h _
  rw [lexemes_eq_nil h, List.nil_append]

theorem append {xs ys : List Lexeme} (hxs : Skipped xs) (hys : Skipped ys) :
    Skipped (xs ++ ys) := by
  intro tokens rest depth h hdepth
  obtain ⟨ts, us, rfl, hts, hus⟩ := lexemes_eq_append h
  rw [List.append_assoc, hxs ts _ depth hts hdepth, hys us _ depth hus hdepth]

theorem cons {x : Lexeme} {xs : List Lexeme} (hx : isFlat x) (hxs : Skipped xs) :
    Skipped (x :: xs) := by
  intro tokens rest depth h hdepth
  obtain ⟨t, ts, rfl, rfl, hts⟩ := lexemes_eq_cons h
  have hne {y : Lexeme} (hy : isFlat y.canonical = false) : t.lexeme ≠ y := by
    intro ht
    rw [ht, hy] at hx
    cases hx
  rw [List.cons_append, arrowAhead_plain depth (hne rfl) (hne rfl) (hne rfl)]
  exact hxs ts rest depth hts hdepth

/-- A pair of parentheses is passed over with what is inside. -/
theorem parenthesized {xs : List Lexeme} (hxs : Skipped xs) :
    Skipped (.symbol .openParen :: xs ++ [.symbol .closeParen]) := by
  intro tokens rest depth h hdepth
  obtain ⟨t, ts, rfl, ht, h⟩ := lexemes_eq_cons_exact h rfl
  obtain ⟨ts, us, rfl, hts, h⟩ := lexemes_eq_append h
  obtain ⟨u, us, rfl, hu, h⟩ := lexemes_eq_cons_exact h rfl
  obtain rfl := lexemes_eq_nil h
  obtain ⟨depth, rfl⟩ : ∃ k, depth = k + 1 := ⟨depth - 1, by omega⟩
  simp only [List.append_assoc, List.cons_append, List.nil_append]
  rw [arrowAhead_open _ ht, hxs ts _ (depth + 2) hts (Nat.succ_pos _), arrowAhead_close _ hu]

theorem commaJoined {xss : List (List Lexeme)} (h : ∀ xs ∈ xss, Skipped xs) :
    Skipped (commaJoined xss) := by
  induction xss with
  | nil => exact nil
  | cons xs xss ih =>
    cases xss with
    | nil =>
      rw [commaJoined_singleton]
      exact h xs List.mem_cons_self
    | cons ys yss =>
      rw [commaJoined_cons_cons]
      refine append (h xs List.mem_cons_self) (cons rfl (ih fun zs hzs => ?_))
      exact h zs (List.mem_cons_of_mem _ hzs)

end Skipped

/-- The parentheses in an expression are balanced. -/
theorem render_skipped {e : Expr} (h : e.Plain) : Skipped e.render := by
  induction h with
  | @intro e own parts ih =>
    cases e with
    | literal value p =>
      rw [Expr.render]
      cases value with
      | bool b => cases b <;> exact .cons rfl .nil
      | _ => exact .cons rfl .nil
    | name | this =>
      rw [Expr.render]
      exact .cons rfl .nil
    | super =>
      rw [Expr.render]
      exact .cons rfl (.cons rfl (.cons rfl .nil))
    | assign n value p =>
      rw [Expr.render]
      exact .cons rfl (.cons rfl (ih value List.mem_cons_self))
    | binary op left right p =>
      rw [Expr.render]
      refine .append (ih left List.mem_cons_self) (.cons ?_ (ih right (by simp [Expr.parts])))
      cases op <;> rfl
    | logical op left right p =>
      rw [Expr.render]
      refine .append (ih left List.mem_cons_self) (.cons ?_ (ih right (by simp [Expr.parts])))
      cases op <;> rfl
    | unary op operand p =>
      rw [Expr.render]
      refine .cons ?_ (ih operand List.mem_cons_self)
      cases op <;> rfl
    | await operand p =>
      rw [Expr.render]
      exact .cons rfl (ih operand List.mem_cons_self)
    | grouping inner p =>
      rw [Expr.render]
      exact .parenthesized (ih inner List.mem_cons_self)
    | call callee args p =>
      rw [Expr.render, List.append_assoc]
      refine .append (ih callee List.mem_cons_self) (.parenthesized (.commaJoined ?_))
      exact List.forall_mem_map.2 fun a ha => ih a (List.mem_cons_of_mem _ ha)
    | get target n optional p =>
      rw [Expr.render]
      refine .append (ih target List.mem_cons_self) (.cons ?_ (.cons rfl .nil))
      cases optional <;> rfl
    | set target n value p =>
      rw [Expr.render]
      exact .append (ih target List.mem_cons_self)
        (.cons rfl (.cons rfl (.cons rfl (ih value (by simp [Expr.parts])))))
    | index target key p =>
      rw [Expr.render]
      have hkey := ih key (by simp [Expr.parts])
      exact .append (.append (ih target List.mem_cons_self) (.cons rfl hkey)) (.cons rfl .nil)
    | indexSet target key value p =>
      rw [Expr.render]
      have hkey := ih key (by simp [Expr.parts])
      have hvalue := ih value (by simp [Expr.parts])
      exact .append (.append (ih target List.mem_cons_self) (.cons rfl hkey))
        (.cons rfl (.cons rfl hvalue))
    | array elements p =>
      rw [Expr.render]
      refine .append (.cons rfl (.commaJoined ?_)) (.cons rfl .nil)
      refine List.forall_mem_map.2 fun x hx => ?_
      refine .append ?_ (ih x.1 (List.mem_map_of_mem hx))
      split
      · exact .cons rfl .nil
      · exact .nil
    | object fields p =>
      rw [Expr.render]
      refine .append (.cons rfl (.commaJoined ?_)) (.cons rfl .nil)
      refine List.forall_mem_map.2 fun x hx => ?_
      exact .cons rfl (.cons rfl (ih x.2 (List.mem_map_of_mem hx)))
    | function | template => cases own

/-! Lists of items -/

/-- One item, and the comma that may follow. -/
theorem items_run_succ {α : Type} {more : Parser Bool} {item : Parser α} {k : Nat}
    {tokens rest left : List Token} {y : α} {again : Bool}
    (hmore : more.run tokens = .ok (true, tokens)) (hitem : item.run tokens = .ok (y, rest))
    (hcomma : (accept .comma).run rest = .ok (again, left)) :
    (items more (do return (← item, ← accept .comma)) (k + 1)).run tokens =
      (if again then do return y :: (← items more (do return (← item, ← accept .comma)) k)
        else return [y] : Parser (List α)).run left := by
  have hpair : (do return (← item, ← accept .comma) : Parser (α × Bool)).run tokens =
      .ok ((y, again), left) := by
    rw [run_bind_of hitem, run_bind_of hcomma]
    rfl
  rw [items, run_bind_of hmore, if_pos rfl, run_bind_of hpair]

/-- A parser reads an item back from fewer than `n` tokens, up to what ends an expression. The item
does not begin with the symbol that closes the list. -/
structure ReadsItem {α γ : Type} (item : Parser α) (write : α → List Lexeme) (view : α → γ)
    (close : Symbol) (n : Nat) (x : α) : Prop where
  opens (tokens : List Token) : lexemes tokens = write x →
    ∃ t ts, tokens = t :: ts ∧ t.lexeme ≠ .symbol close
  run (tokens rest : List Token) : lexemes tokens = write x → tokens.length < n →
    EndsAt .assignment rest → ∃ y, item.run (tokens ++ rest) = .ok (y, rest) ∧ view y = view x

section

variable {α γ : Type} {more : Parser Bool} {item : Parser α} {write : α → List Lexeme}
  {view : α → γ} {close : Symbol} {n : Nat} {xs : List α}
  (hitems : ∀ x ∈ xs, ReadsItem item write view close n x)
include hitems

/-- Items with commas between them are read back, up to what is neither a comma nor continues the
last item. -/
theorem items_run {k : Nat} (hxs : xs ≠ []) {tokens rest : List Token}
    (htokens : lexemes tokens = commaJoined (xs.map write)) (hn : tokens.length < n)
    (hk : tokens.length ≤ k) (hends : EndsAt .assignment rest)
    (hrest : NextNot (.symbol .comma) rest)
    (hmore : ∀ t ts rest, t.lexeme ≠ .symbol close →
      more.run (t :: ts ++ rest) = .ok (true, t :: ts ++ rest)) :
    ∃ ys, (items more (do return (← item, ← accept .comma)) k).run (tokens ++ rest) =
      .ok (ys, rest) ∧ ys.map view = xs.map view := by
  induction xs generalizing tokens k with
  | nil => exact absurd rfl hxs
  | cons x xs ih =>
    have hx := hitems x List.mem_cons_self
    cases xs with
    | nil =>
      rw [List.map_singleton, commaJoined_singleton] at htokens
      obtain ⟨y, hy, hview⟩ := hx.run tokens rest htokens hn hends
      obtain ⟨t, ts, rfl, ht⟩ := hx.opens tokens htokens
      obtain ⟨k, rfl⟩ : ∃ k', k = k' + 1 := ⟨k - 1, by rw [List.length_cons] at hk; omega⟩
      refine ⟨[y], ?_, by simp [hview]⟩
      rw [items_run_succ (hmore t ts _ ht) hy (accept_run_false hrest)]
      rfl
    | cons x' xs =>
      rw [List.map_cons, List.map_cons, commaJoined_cons_cons] at htokens
      obtain ⟨ts, us, rfl, hts, h⟩ := lexemes_eq_append htokens
      obtain ⟨comma, us, rfl, hcomma, hus⟩ := lexemes_eq_cons_exact h rfl
      have hlength : (ts ++ comma :: us).length = ts.length + (us.length + 1) := by simp
      obtain ⟨k, rfl⟩ : ∃ k', k = k' + 1 := ⟨k - 1, by omega⟩
      have hcommaEnds : EndsAt .assignment (comma :: (us ++ rest)) :=
        endsAt_of_none (by rw [hcomma]; rfl)
      obtain ⟨y, hy, hview⟩ := hx.run ts _ hts (by omega) hcommaEnds
      obtain ⟨ys, hys, hviews⟩ := ih (fun x hx => hitems x (List.mem_cons_of_mem _ hx))
        (List.cons_ne_nil _ _) (k := k) hus (by omega) (by omega)
      obtain ⟨t, ts, rfl, ht⟩ := hx.opens ts hts
      refine ⟨y :: ys, ?_, by simp [hview, hviews]⟩
      rw [List.append_assoc, List.cons_append (a := comma), items_run_succ (hmore t ts _ ht) hy
        (accept_run_true hcomma), if_pos rfl, run_bind_of hys]
      rfl

/-- The items of a literal, up to the symbol that closes it. -/
theorem commaItems_run {d : Deeper} (hbound : n ≤ d.bound) {tokens : List Token} {u : Token}
    (htokens : lexemes tokens = commaJoined (xs.map write)) (hn : tokens.length < n)
    (hu : u.lexeme = .symbol close) (hclose : (Lexeme.symbol close).continues = none)
    (hcomma : close ≠ .comma) (rest : List Token) :
    ∃ ys, (commaItems d close item).run (tokens ++ u :: rest) = .ok (ys, u :: rest) ∧
      ys.map view = xs.map view := by
  by_cases hxs : xs = []
  · subst hxs
    obtain rfl := lexemes_eq_nil htokens
    refine ⟨[], ?_, rfl⟩
    unfold commaItems
    obtain ⟨k, hk⟩ : ∃ k, d.bound = k + 1 := ⟨d.bound - 1, by omega⟩
    have hmore : (return !(← isNext close) : Parser Bool).run (u :: rest) =
        .ok (false, u :: rest) := by
      rw [run_bind_of (isNext_run_true hu)]
      rfl
    rw [hk, items, List.nil_append, run_bind_of hmore]
    rfl
  · have hends : EndsAt .assignment (u :: rest) := endsAt_of_none (by rw [hu, hclose])
    refine items_run hitems hxs htokens hn (by omega) hends ?_ ?_
    · exact nextNot_cons (by simpa [hu] using hcomma) rest
    · intro t ts rest ht
      rw [List.cons_append, run_bind_of (isNext_run_false (nextNot_cons ht _))]
      rfl

end

/-- The items of a list in parentheses, with the closing one. -/
theorem closedList_run {α γ : Type} {item : Parser α} {write : α → List Lexeme} {view : α → γ}
    {n : Nat} {xs : List α} (hitems : ∀ x ∈ xs, ReadsItem item write view .closeParen n x)
    {d : Deeper} (hbound : n ≤ d.bound) {tokens : List Token} {u : Token}
    (htokens : lexemes tokens = commaJoined (xs.map write)) (hn : tokens.length < n)
    (hu : u.lexeme = .symbol .closeParen) (expected : String) (rest : List Token) :
    ∃ ys, (closedList d expected item).run (tokens ++ u :: rest) = .ok (ys, rest) ∧
      ys.map view = xs.map view := by
  by_cases hxs : xs = []
  · subst hxs
    obtain rfl := lexemes_eq_nil htokens
    refine ⟨[], ?_, rfl⟩
    rw [closedList, List.nil_append, run_bind_of (isNext_run_true hu), if_pos rfl]
    change (expect .closeParen expected >>= fun _ => pure []).run (u :: rest) = _
    rw [run_bind_of (expect_run hu expected)]
    rfl
  · have hends : EndsAt .assignment (u :: rest) := endsAt_of_none (by rw [hu]; rfl)
    obtain ⟨ys, hys, hviews⟩ := items_run hitems hxs htokens hn
      (Nat.le_trans (Nat.le_of_lt hn) hbound) hends (nextNot_cons (by simp [hu]) rest)
      (fun _ _ _ _ => rfl : ∀ t ts rest, _ → (pure true : Parser Bool).run (t :: ts ++ rest) = _)
    have hseparated : (commaSeparated d item).run (tokens ++ u :: rest) = .ok (ys, u :: rest) := hys
    obtain ⟨x, xs, rfl⟩ := List.exists_cons_of_ne_nil hxs
    have hopen : NextNot (.symbol .closeParen) (tokens ++ u :: rest) := by
      obtain ⟨zs, hzs⟩ := exists_commaJoined_cons (write x) (xs.map write)
      obtain ⟨ts, us, rfl, hts, -⟩ := lexemes_eq_append (htokens.trans hzs)
      obtain ⟨t, ts, rfl, ht⟩ := (hitems x List.mem_cons_self).opens ts hts
      exact nextNot_cons ht _
    refine ⟨ys, ?_, hviews⟩
    rw [closedList, run_bind_of (isNext_run_false hopen), if_neg Bool.false_ne_true,
      run_bind_of hseparated, run_bind_of (expect_run hu expected)]
    rfl

end ScriptEngine.Grammar
