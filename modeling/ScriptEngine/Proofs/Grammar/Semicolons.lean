import ScriptEngine.Proofs.Grammar.Faultless
import ScriptEngine.Proofs.Grammar.StatementForm

/-!
# Semicolons behind statements

Some statements may end in a semicolon. The others end in a closing brace of their own and take
none, and a statement that ends in another one does what that one does. So a semicolon that is put
behind a statement is taken with it, or it is where the parser looks for the next statement.
-/
namespace ScriptEngine.Grammar
open Text (Position)

variable {α β : Type}

/-- Whether the last of the tokens is a semicolon. -/
def endsInSemicolon (tokens : List Token) : Bool :=
  tokens.getLast?.any fun t => Lexeme.isSymbol .semicolon t.lexeme

/-- A parser has taken `used` before the token `u` and made `a` of it. If it is `opened` it takes a
semicolon that is put there with it, and else it stops before it. -/
def Extends (opened : Bool) (p : Parser α) (a : α) (used : List Token) (u : Token) : Prop :=
  ∀ semi v more, semi.lexeme = .symbol .semicolon → v.lexeme = u.lexeme →
    p.run (used ++ semi :: v :: more) = .ok (a, if opened then v :: more else semi :: v :: more)

namespace Extends

variable {opened : Bool} {p : Parser α} {f : α → Parser β} {a : α} {b : β} {used used' : List Token}
  {u : Token}

/-- What goes on without taking a token. -/
theorem bind_of_looks (hp : Extends opened p a used u)
    (hf : ∀ v more, v.lexeme = u.lexeme ∨ v.lexeme = .symbol .semicolon →
      (f a).run (v :: more) = .ok (b, v :: more)) : Extends opened (p >>= f) b used u := by
  intro semi v more hsemi hv
  rw [run_bind_of (hp semi v more hsemi hv)]
  cases opened with
  | true => exact hf v more (.inl hv)
  | false => exact hf semi (v :: more) (.inr hsemi)

/-- What stands before, and looks no further than the first token of the rest. -/
theorem after (hne : used' ≠ [])
    (hp : ∀ w ∈ used'.head?, ∀ more, p.run (used ++ w :: more) = .ok (a, w :: more))
    (hf : Extends opened (f a) b used' u) : Extends opened (p >>= f) b (used ++ used') u := by
  intro semi v more hsemi hv
  obtain ⟨w, used', rfl⟩ := List.exists_cons_of_ne_nil hne
  rw [List.append_assoc, List.cons_append, run_bind_of (hp w rfl _)]
  exact hf semi v more hsemi hv

end Extends

theorem optionalSemicolon_run_cons (t : Token) (more : List Token) :
    optionalSemicolon.run (t :: more) =
      .ok ((), if Lexeme.isSymbol .semicolon t.lexeme then more else t :: more) := by
  change ((fun _ => ()) <$> accept .semicolon).run (t :: more) = _
  rw [StateT.run_map]
  cases ht : Lexeme.isSymbol .semicolon t.lexeme with
  | true =>
    rw [accept_run_true (isSymbol_iff.1 ht)]
    rfl
  | false =>
    rw [accept_run_false (nextNot_cons (fun h => by simp [isSymbol_iff.2 h] at ht) more)]
    rfl

theorem acceptWord_run_cons (w : Keyword) (t : Token) (more : List Token) :
    (acceptWord w).run (t :: more) = .ok (Lexeme.isKeyword w t.lexeme,
      if Lexeme.isKeyword w t.lexeme then more else t :: more) := by
  rw [acceptWord_eq, takeIf, peek_run_cons]
  cases ht : Lexeme.isKeyword w t.lexeme with
  | true =>
    rw [if_pos rfl, run_bind_of (advance_run (by simp [isKeyword_iff.1 ht]))]
    rfl
  | false => rfl

theorem endsInSemicolon_append (used : List Token) {used' : List Token} (hne : used' ≠ []) :
    endsInSemicolon (used ++ used') = endsInSemicolon used' := by
  rw [endsInSemicolon, List.getLast?_append_of_ne_nil used hne, endsInSemicolon]

/-- After a semicolon of its own a statement leaves another one, and it takes the first one. -/
theorem terminated_extends {i o : Nat} {front : Parser α} {g : α → Stmt} {t u : Token}
    {more rest : List Token} {s : Stmt} (hfront : NearsightedAt t terminator i o front)
    (hrun : (terminated front g).run (t :: more) = .ok (s, u :: rest)) :
    ∃ used, more = used ++ u :: rest ∧
      Extends (!endsInSemicolon (t :: used)) (terminated front g) s (t :: used) u := by
  obtain ⟨a, mid, hfirst, hlast⟩ := exists_of_run_bind hrun
  obtain ⟨used, rfl, htakes⟩ := hfront hfirst
  cases mid with
  | nil => cases hlast
  | cons v mid =>
    rw [run_bind_of (optionalSemicolon_run_cons v mid)] at hlast
    obtain ⟨rfl, hmid⟩ := Prod.mk.inj (Except.ok.inj hlast)
    have hrun' (v' : Token) (more' : List Token) (hv' : v' = v ∨ Stops terminator v') :
        (terminated front g).run (t :: used ++ v' :: more') =
          .ok (g a, if Lexeme.isSymbol .semicolon v'.lexeme then more' else v' :: more') := by
      rw [terminated, run_bind_of (htakes.again v rfl v' more' hv'),
        run_bind_of (optionalSemicolon_run_cons v' more')]
      rfl
    cases hv : Lexeme.isSymbol .semicolon v.lexeme with
    | true =>
      rw [hv, if_pos rfl] at hmid
      subst hmid
      refine ⟨used ++ [v], by simp, fun semi w more hsemi hw => ?_⟩
      have hends : endsInSemicolon (t :: used ++ [v]) = true := by
        rw [endsInSemicolon_append _ (List.cons_ne_nil v [])]
        exact hv
      have hrun := hrun' v (semi :: w :: more) (.inl rfl)
      rw [hv, if_pos rfl] at hrun
      rw [← List.cons_append, hends, List.append_assoc]
      exact hrun
    | false =>
      rw [hv, if_neg Bool.false_ne_true] at hmid
      obtain ⟨rfl, rfl⟩ := List.cons.inj hmid
      refine ⟨used, rfl, fun semi w more hsemi hw => ?_⟩
      have hends : endsInSemicolon (t :: used) = false := by
        refine Bool.eq_false_iff.2 fun h => ?_
        obtain ⟨last, hlast, hsymbol⟩ := (Option.any_eq_true _ _).1 h
        exact htakes.last last hlast ⟨_, rfl, isSymbol_iff.1 hsymbol⟩
      have hrun := hrun' semi (w :: more) (.inr ⟨_, rfl, hsemi⟩)
      rw [isSymbol_iff.2 hsemi, if_pos rfl] at hrun
      rw [hends, hrun]
      rfl

/-- At one depth a semicolon behind a statement is taken with it or left. -/
def ExtendsAt (n : Nat) : Prop :=
  ∀ ⦃tokens s u rest⦄, (parseWithin n .statement).run tokens = .ok (s, u :: rest) →
    ∃ used, tokens = used ++ u :: rest ∧ used ≠ [] ∧
      Extends (takesSemicolon n tokens && !endsInSemicolon used) (parseWithin n .statement) s used u

theorem after_of_run {p : Parser α} {tokens rest : List Token} {a : α}
    (h : p.run tokens = .ok (a, rest)) (next : List Token → Bool) :
    after p tokens next = next rest := by
  rw [after, h]

theorem branch_extends {n : Nat} {t u : Token} {more rest : List Token} {s : Stmt}
    (hbelow : ExtendsAt n) (hguard : NearsightedAt t none 0 0 (guard n "if")) (position : Position)
    (hrun : (branch (below n) position).run (t :: more) = .ok (s, u :: rest)) :
    ∃ used, more = used ++ u :: rest ∧
      Extends (after (guard n "if") (t :: more) (fun yes =>
          after (parseWithin n .statement) yes fun rest =>
            match (acceptWord .elseWord).run rest with
            | .ok (true, no) => takesSemicolon n no
            | _ => takesSemicolon n yes) && !endsInSemicolon (t :: used))
        (branch (below n) position) s (t :: used) u := by
  rw [branch_eq] at hrun ⊢
  obtain ⟨c, mid, hfirst, hrest⟩ := exists_of_run_bind hrun
  obtain ⟨yes, mid', hyes, hlast⟩ := exists_of_run_bind hrest
  obtain ⟨used, rfl, htakes⟩ := hguard hfirst
  rw [after_of_run hfirst, after_of_run hyes]
  cases mid' with
  | nil => cases hlast
  | cons v mid' =>
    rw [run_bind_of (acceptWord_run_cons .elseWord v mid')] at hlast
    rw [acceptWord_run_cons]
    cases hv : Lexeme.isKeyword .elseWord v.lexeme with
    | true =>
      rw [hv, if_pos rfl, if_pos rfl] at hlast
      obtain ⟨no, rest', hno, hend⟩ := exists_of_run_bind hlast
      obtain ⟨rfl, rfl⟩ := Prod.mk.inj (Except.ok.inj hend)
      obtain ⟨used', rfl, hyes'⟩ := nearsightedBelow n .statement 0 hyes
      obtain ⟨used'', rfl, hne, hextends⟩ := hbelow hno
      have hgiven (more : List Token) :
          (acceptWord .elseWord).run (v :: more) = .ok (true, more) := by
        rw [acceptWord_run_cons, hv, if_pos rfl]
      refine ⟨used ++ (used' ++ v :: used''), by simp, ?_⟩
      have hends : endsInSemicolon (t :: (used ++ (used' ++ v :: used''))) =
          endsInSemicolon used'' := by
        rw [← endsInSemicolon_append (t :: (used ++ (used' ++ [v]))) hne]
        simp
      have hmid : used' ++ v :: used'' ≠ [] := by simp
      rw [if_pos rfl, hends]
      change Extends _ _ _ (t :: used ++ (used' ++ v :: used'')) u
      have htakes' : Takes none 1 0 0 (guard n "if") c (t :: used)
          ((used' ++ v :: used'') ++ u :: rest) := by simpa using htakes
      refine .after hmid (fun w hw => htakes'.same hw) ?_
      have hyes'' : Takes none 1 0 0 (parseWithin n .statement) yes used'
          ((v :: used'') ++ u :: rest) := hyes'
      refine .after (List.cons_ne_nil v used'') (fun w hw => hyes''.same hw) ?_
      change Extends _ _ _ ([v] ++ used'') u
      refine .after hne (fun w _ more => hgiven _) ?_
      exact hextends.bind_of_looks fun w more _ => rfl
    | false =>
      rw [hv, if_neg Bool.false_ne_true, if_neg Bool.false_ne_true] at hlast
      obtain ⟨rfl, hmid⟩ := Prod.mk.inj (Except.ok.inj hlast)
      obtain ⟨rfl, rfl⟩ := List.cons.inj hmid
      obtain ⟨used', rfl, hne, hextends⟩ := hbelow hyes
      refine ⟨used ++ used', by simp, ?_⟩
      rw [if_neg Bool.false_ne_true, ← List.cons_append, endsInSemicolon_append _ hne]
      refine .after hne (fun w hw => htakes.same hw) (hextends.bind_of_looks fun w more hw => ?_)
      have hword : Lexeme.isKeyword .elseWord w.lexeme = false := by
        obtain hw | hw := hw
        · rw [hw, hv]
        · rw [hw]
          rfl
      rw [run_bind_of (acceptWord_run_cons .elseWord w more), hword]
      rfl

theorem Form.extends {n : Nat} {t u : Token} {p : Parser Stmt} {takes : List Token → Bool}
    {more rest : List Token} {s : Stmt} (hbelow : ExtendsAt n) (h : Form n t p takes)
    (hrun : p.run (t :: more) = .ok (s, u :: rest)) :
    ∃ used, more = used ++ u :: rest ∧
      Extends (takes (t :: more) && !endsInSemicolon (t :: used)) p s (t :: used) u := by
  cases h with
  | simple hfront =>
    simpa only [Bool.true_and] using terminated_extends (hfront 0) hrun
  | braced hp =>
    obtain ⟨used, rfl, htakes⟩ := hp 0 hrun
    refine ⟨used, rfl, fun semi v more hsemi _ => ?_⟩
    exact htakes.again u rfl semi (v :: more) (.inr ⟨_, rfl, hsemi⟩)
  | ending hhead =>
    obtain ⟨a, mid, hfirst, hrest⟩ := exists_of_run_bind hrun
    obtain ⟨s', rest', hlast, hend⟩ := exists_of_run_bind hrest
    obtain ⟨rfl, rfl⟩ := Prod.mk.inj (Except.ok.inj hend)
    obtain ⟨used, rfl, htakes⟩ := hhead 0 hfirst
    obtain ⟨used', rfl, hne, hextends⟩ := hbelow hlast
    refine ⟨used ++ used', by simp, ?_⟩
    beta_reduce
    rw [after_of_run hfirst, ← List.cons_append, endsInSemicolon_append _ hne]
    exact .after hne (fun w hw => htakes.same hw) (hextends.bind_of_looks fun _ _ _ => rfl)
  | branch hguard position => exact branch_extends hbelow (hguard 0) position hrun

theorem statement_extends {n : Nat} (hbelow : ExtendsAt n) : ExtendsAt (n + 1) := by
  intro tokens s u rest hrun
  cases tokens with
  | nil => cases hrun
  | cons t more =>
    obtain ⟨p, takes, h⟩ := exists_form (nearsightedBelow n) t (more.head?.map Token.lexeme)
    have hp := hrun
    change (statement (below n)).run (t :: more) = _ at hp
    rw [(h.run more rfl).1] at hp
    obtain ⟨used, rfl, hextends⟩ := h.form.extends hbelow hp
    refine ⟨t :: used, rfl, List.cons_ne_nil _ _, fun semi v more' hsemi hv => ?_⟩
    rw [(h.run _ rfl).2, ← hextends semi v more' hsemi hv]
    cases used with
    | nil =>
      -- The semicolon is the second token now, which may decide the form.
      obtain hsame | ⟨e, he⟩ := h.again semi (v :: more') hsemi
      · exact hsame
      · cases he.symm.trans (hextends semi v more' hsemi hv)
    | cons w used => exact (h.run (w :: used ++ semi :: v :: more') rfl).1

/-- At every depth a semicolon that is put behind a statement is taken with it, if it takes one and
has none, or is left. -/
theorem extendsAt (n : Nat) : ExtendsAt n := by
  induction n with
  | zero =>
    intro tokens s u rest hrun
    cases tokens <;> cases hrun
  | succ n ih => exact statement_extends ih

/-! Whole programs -/

/-- Whole statements lead from some tokens to the rest of them. -/
inductive Reaches (n : Nat) : List Token → List Token → Prop
  | here (tokens : List Token) : Reaches n tokens tokens
  | next {tokens rest tokens' : List Token} {s : Stmt}
    (hrun : (parseWithin n .statement).run tokens = .ok (s, rest)) (h : Reaches n rest tokens') :
    Reaches n tokens tokens'

/-- At most `k` statements from the front of the tokens. -/
def readUpTo (n k : Nat) (tokens : List Token) : Except ParseError Program :=
  ((items (return !(← atEnd)) (do return (← parseWithin n .statement, true)) k).run tokens).map
    Prod.fst

/-- Where no statement begins an operand is missing. -/
theorem statement_run_of_none {d : Deeper} {l : Lexeme} {e : ParseError}
    (hl : l = .symbol .semicolon ∨ l = .finish) (position : Position) (more : List Token)
    (h : (unary d).run (⟨l, position⟩ :: more) = .error e) :
    (statement d).run (⟨l, position⟩ :: more) = .error e := by
  have hstatement : (statement d).run (⟨l, position⟩ :: more) =
      (terminated (expression d) (.expression · position)).run (⟨l, position⟩ :: more) := by
    rw [← closedExpression_bind]
    obtain rfl | rfl := hl <;> cases more <;> rfl
  rw [hstatement]
  exact run_bind_error (expression_run_error h)

theorem exists_error_of_finish (n : Nat) (position : Position) (more : List Token) :
    ∃ e, (parseWithin n .statement).run (⟨.finish, position⟩ :: more) = .error e := by
  cases n with
  | zero => exact ⟨_, rfl⟩
  | succ n => exact ⟨_, statement_run_of_none (.inr rfl) position more rfl⟩

theorem not_finish_of_run {n : Nat} {t : Token} {more rest : List Token} {s : Stmt}
    (h : (parseWithin n .statement).run (t :: more) = .ok (s, rest)) :
    Lexeme.isFinish t.lexeme = false := by
  refine Bool.eq_false_iff.2 fun hfinish => ?_
  obtain ⟨l, position⟩ := t
  obtain rfl := isFinish_iff.1 hfinish
  obtain ⟨e, he⟩ := exists_error_of_finish n position more
  cases he.symm.trans h

theorem readUpTo_cons {n k : Nat} {t : Token} (ht : Lexeme.isFinish t.lexeme = false)
    (more : List Token) : readUpTo n (k + 1) (t :: more) =
      ((parseWithin n .statement).run (t :: more)).bind fun x =>
        (readUpTo n k x.2).map (x.1 :: ·) := by
  have hmore : (return !(← atEnd) : Parser Bool).run (t :: more) = .ok (true, t :: more) := by
    change Except.ok (!Lexeme.isFinish t.lexeme, t :: more) = _
    rw [ht]
    rfl
  rw [readUpTo, items, run_bind_of hmore, if_pos rfl, bind_assoc]
  simp only [pure_bind, if_true]
  rw [StateT.run_bind]
  cases (parseWithin n .statement).run (t :: more) with
  | error e => rfl
  | ok x =>
    change Except.map Prod.fst (StateT.run (_ >>= fun program => pure (x.1 :: program)) x.2) = _
    rw [StateT.run_bind]
    change _ = Except.map (x.1 :: ·) (Except.map Prod.fst _)
    cases (items (return !(← atEnd)) (do return (← parseWithin n .statement, true)) k).run x.2 <;>
      rfl

/-- The next statement comes before the others. -/
theorem readUpTo_of_run {n k : Nat} {tokens rest : List Token} {s : Stmt}
    (h : (parseWithin n .statement).run tokens = .ok (s, rest)) :
    readUpTo n (k + 1) tokens = (readUpTo n k rest).map (s :: ·) := by
  cases tokens with
  | nil => cases n <;> cases h
  | cons t more =>
    rw [readUpTo_cons (not_finish_of_run h), h]
    rfl

theorem readUpTo_semicolon {n : Nat} (hn : n ≠ 0) (k : Nat) {t : Token}
    (ht : t.lexeme = .symbol .semicolon) (more : List Token) : readUpTo n (k + 1) (t :: more) =
      .error (.unexpectedToken "expression" (.symbol .semicolon) t.position) := by
  obtain ⟨n, rfl⟩ := Nat.exists_eq_succ_of_ne_zero hn
  obtain ⟨l, position⟩ := t
  obtain rfl : l = .symbol .semicolon := ht
  have hrun : (parseWithin (n + 1) .statement).run (⟨.symbol .semicolon, position⟩ :: more) =
      .error (.unexpectedToken "expression" (.symbol .semicolon) position) :=
    statement_run_of_none (.inl rfl) position more rfl
  rw [readUpTo_cons rfl, hrun]
  rfl

/-- Whole statements are read alike, whatever follows the next token. -/
theorem Reaches.readUpTo_eq {n : Nat} {tokens tokens' : List Token} (h : Reaches n tokens tokens')
    (hne : tokens' ≠ []) : ∃ used done, tokens = used ++ tokens' ∧ done.length ≤ used.length ∧
      ∀ more, more.head? = tokens'.head? → ∀ k,
        readUpTo n (k + done.length) (used ++ more) = (readUpTo n k more).map (done ++ ·) := by
  induction h with
  | here tokens =>
    refine ⟨[], [], rfl, Nat.le_refl 0, fun more _ k => ?_⟩
    change readUpTo n k more = (readUpTo n k more).map id
    cases readUpTo n k more <;> rfl
  | @next tokens rest tokens' s hrun h ih =>
    obtain ⟨used', done, rfl, hdone, hread⟩ := ih hne
    obtain ⟨used, rfl, htakes⟩ := nearsightedBelow n .statement 0 hrun
    refine ⟨used ++ used', s :: done, by simp, ?_, fun more hmore k => ?_⟩
    · have := htakes.enough
      simp only [List.length_append, List.length_cons]
      omega
    · have hhead : (used' ++ more).head? = (used' ++ tokens').head? := by
        rw [List.head?_append, List.head?_append, hmore]
      cases hlist : used' ++ more with
      | nil =>
        rw [hlist] at hhead
        exact absurd (List.append_eq_nil_iff.1 (List.head?_eq_none_iff.1 hhead.symm)).2 hne
      | cons w tail =>
        rw [hlist] at hhead
        have hstatement := htakes.again w hhead.symm w tail (.inl rfl)
        rw [List.append_assoc, hlist, List.length_cons, ← Nat.add_assoc, readUpTo_of_run hstatement,
          ← hlist, hread more hmore k]
        cases readUpTo n k more <;> rfl

theorem readUpTo_finish (n k : Nat) {t : Token} (ht : t.lexeme = .finish) (more : List Token) :
    readUpTo n k (t :: more) = .ok [] := by
  obtain ⟨l, position⟩ := t
  obtain rfl : l = .finish := ht
  cases k <;> rfl

theorem finished_concat (tokens : List Token) (t : Token) :
    finished (tokens ++ [t]) = tokens ++ t ::
      if Lexeme.isFinish t.lexeme then [] else [⟨.finish, t.position⟩] := by
  unfold finished
  rw [List.getLast?_concat]
  cases ht : Lexeme.isFinish t.lexeme <;> simp [ht]

/-- The finish is put behind the last token if it is missing. -/
theorem eq_finish_of_finished {tokens rest : List Token} {u : Token}
    (h : finished tokens = tokens ++ u :: rest) : u.lexeme = .finish ∧ rest = [] := by
  obtain rfl | ⟨init, t, rfl⟩ := tokens.eq_nil_or_concat
  · obtain ⟨rfl, rfl⟩ := List.cons.inj h
    exact ⟨rfl, rfl⟩
  · rw [List.concat_eq_append, finished_concat, List.append_assoc, List.append_cancel_left_eq] at h
    have hrest := (List.cons.inj h).2
    split at hrest
    · cases hrest
    · obtain ⟨rfl, rfl⟩ := List.cons.inj hrest
      exact ⟨rfl, rfl⟩

/-- What is read ends with the finish, which may stand elsewhere once a token is put before it. -/
theorem exists_of_finished {front back rest : List Token} {u semi : Token}
    (h : finished (front ++ back) = front ++ u :: rest) (hsemi : semi.lexeme = .symbol .semicolon) :
    ∃ v more, finished (front ++ semi :: back) = front ++ semi :: v :: more ∧
      v.lexeme = u.lexeme ∧ ∀ n k, readUpTo n k (v :: more) = readUpTo n k (u :: rest) := by
  obtain rfl | ⟨init, t, rfl⟩ := back.eq_nil_or_concat
  · rw [List.append_nil] at h
    obtain ⟨hu, rfl⟩ := eq_finish_of_finished h
    refine ⟨⟨.finish, semi.position⟩, [], ?_, hu.symm, fun n k => ?_⟩
    · rw [finished_concat, hsemi]
      rfl
    · rw [readUpTo_finish n k rfl, readUpTo_finish n k hu]
  · rw [List.concat_eq_append, ← List.append_assoc, finished_concat, List.append_assoc,
      List.append_cancel_left_eq] at h
    refine ⟨u, rest, ?_, rfl, fun _ _ => rfl⟩
    rw [← h, List.concat_eq_append, ← List.cons_append, ← List.append_assoc, finished_concat]
    simp

theorem parseTokens_eq {n : Nat} {tokens : List Token} (hn : depthBound tokens ≤ n) :
    parseTokens tokens = readUpTo n n (finished tokens) :=
  (statements_run_of_le hn).symm

/-- The place between `front` and `back` is right behind a statement, which is the first one of
`last`. -/
def EndsStatement (n : Nat) (front back last : List Token) : Prop :=
  ∃ s u rest, Reaches n (finished (front ++ back)) last ∧
    (parseWithin n .statement).run last = .ok (s, u :: rest) ∧
    finished (front ++ back) = front ++ u :: rest

/-- A semicolon that is put behind a statement changes nothing if the statement takes one and has
none. Behind any other statement it is refused, for an expression is expected there. -/
theorem parseTokens_insert_semicolon {n : Nat} {front back last : List Token} {program : Program}
    {semi : Token} (hparse : parseTokens (front ++ back) = .ok program)
    (hn : depthBound (front ++ back) + 2 ≤ n) (hends : EndsStatement n front back last)
    (hsemi : semi.lexeme = .symbol .semicolon) :
    parseTokens (front ++ semi :: back) =
      if takesSemicolon n last && !endsInSemicolon front then .ok program
      else .error (.unexpectedToken "expression" (.symbol .semicolon) semi.position) := by
  obtain ⟨s, u, rest, hreach, hrun, hfront⟩ := hends
  obtain ⟨used, rfl, hne, hextends⟩ := extendsAt n hrun
  obtain ⟨v, more, hfinished, hv, hsame⟩ := exists_of_finished hfront hsemi
  obtain ⟨used', done, hused, hdone, hread⟩ := hreach.readUpTo_eq (by simp)
  obtain rfl : front = used' ++ used := by
    have hsplit : front ++ u :: rest = used' ++ used ++ u :: rest := by
      rw [← hfront, hused, List.append_assoc]
    exact List.append_cancel_right hsplit
  have hweight : weight (used' ++ used ++ semi :: back) = weight (used' ++ used ++ back) + 1 := by
    have hone : tokenWeight semi = 1 := tokenWeight_of_ne (by simp [hsemi])
    simp only [weight_append, weight_cons, hone]
    omega
  obtain ⟨k, hk⟩ : ∃ k, n = k + 2 + done.length := by
    have hlength := length_le_weight (used' ++ used ++ back)
    rw [depthBound_eq] at hn
    simp only [List.length_append] at hlength
    exact ⟨n - 2 - done.length, by omega⟩
  have hread' {tokens : List Token} (h : tokens.head? = (used ++ u :: rest).head?) :
      readUpTo n n (used' ++ tokens) = (readUpTo n (k + 2) tokens).map (done ++ ·) := by
    rw [← hread tokens h, ← hk]
  rw [parseTokens_eq (Nat.le_of_add_right_le hn), hused, hread' rfl, readUpTo_of_run hrun] at hparse
  have hhead : (used ++ semi :: v :: more).head? = (used ++ u :: rest).head? := by
    obtain ⟨w, used, rfl⟩ := List.exists_cons_of_ne_nil hne
    rfl
  have hbound : depthBound (used' ++ used ++ semi :: back) ≤ n := by
    rw [depthBound_eq] at hn ⊢
    omega
  rw [parseTokens_eq hbound, hfinished, List.append_assoc, hread' hhead,
    readUpTo_of_run (hextends semi v more hsemi hv), endsInSemicolon_append _ hne]
  cases takesSemicolon n (used ++ u :: rest) && !endsInSemicolon used with
  | true => simpa only [if_true, hsame] using hparse
  | false =>
    rw [if_neg Bool.false_ne_true, if_neg Bool.false_ne_true,
      readUpTo_semicolon (by omega) k hsemi]
    rfl

/-- The tokens of `{}` and of `print x` behind it, with nothing to end them. -/
def blockThenPrint : List Token :=
  [⟨.symbol .openBrace, ⟨1, 1, 0⟩⟩, ⟨.symbol .closeBrace, ⟨1, 2, 1⟩⟩,
    ⟨.keyword .printWord, ⟨1, 4, 3⟩⟩, ⟨.name "x", ⟨1, 10, 9⟩⟩]

/-- A semicolon at the end of `{} print x` changes nothing. -/
theorem blockThenPrint_semicolon :
    parseTokens (blockThenPrint ++ []) =
        .ok [.block [] ⟨1, 1, 0⟩, .print (.name "x" ⟨1, 10, 9⟩) ⟨1, 4, 3⟩] ∧
      EndsStatement 12 blockThenPrint [] (blockThenPrint.drop 2 ++ [⟨.finish, ⟨1, 10, 9⟩⟩]) ∧
      parseTokens (blockThenPrint ++ [⟨.symbol .semicolon, ⟨1, 11, 10⟩⟩]) =
        .ok [.block [] ⟨1, 1, 0⟩, .print (.name "x" ⟨1, 10, 9⟩) ⟨1, 4, 3⟩] := by
  have hends : EndsStatement 12 blockThenPrint []
      (blockThenPrint.drop 2 ++ [⟨.finish, ⟨1, 10, 9⟩⟩]) :=
    ⟨.print (.name "x" ⟨1, 10, 9⟩) ⟨1, 4, 3⟩, ⟨.finish, ⟨1, 10, 9⟩⟩, [],
      .next (s := .block [] ⟨1, 1, 0⟩) rfl (.here _), rfl, rfl⟩
  exact ⟨rfl, hends, parseTokens_insert_semicolon rfl (by decide) hends rfl⟩

/-- Behind the block in `{} print x` a semicolon is refused. -/
theorem block_semicolon_refused :
    parseTokens (blockThenPrint.take 2 ++ blockThenPrint.drop 2) =
        .ok [.block [] ⟨1, 1, 0⟩, .print (.name "x" ⟨1, 10, 9⟩) ⟨1, 4, 3⟩] ∧
      EndsStatement 12 (blockThenPrint.take 2) (blockThenPrint.drop 2)
        (blockThenPrint ++ [⟨.finish, ⟨1, 10, 9⟩⟩]) ∧
      endsInSemicolon (blockThenPrint.take 2) = false ∧
      parseTokens (blockThenPrint.take 2 ++ ⟨.symbol .semicolon, ⟨1, 3, 2⟩⟩ ::
          blockThenPrint.drop 2) =
        .error (.unexpectedToken "expression" (.symbol .semicolon) ⟨1, 3, 2⟩) :=
  ⟨rfl, ⟨.block [] ⟨1, 1, 0⟩, ⟨.keyword .printWord, ⟨1, 4, 3⟩⟩, _, .here _, rfl, rfl⟩, rfl, rfl⟩

end ScriptEngine.Grammar
