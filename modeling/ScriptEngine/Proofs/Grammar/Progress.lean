import ScriptEngine.Proofs.Grammar.Cursor

/-!
# Parsers that make progress

A parser that is run on tokens with a finish token among them takes tokens from the front, and none
from the finish token on, or it ends with an error that is to be blamed on the text. How many levels
it may nest makes no difference as long as there are more of them than the tokens weigh.
-/
namespace ScriptEngine

/-- Errors that are faults of the parser: the recursion ran out of its bound, or something that was
looked at is not there. -/
def ParseError.IsFault : ParseError → Prop
  | .tooDeep _ | .invalid .outOfRange _ => True
  | _ => False

namespace Grammar
open Text (Position)

variable {α β : Type}

/-- Tokens up to the first finish token, and what begins with it. -/
structure Closed (tokens rest : List Token) : Prop where
  plain : ∀ t ∈ tokens, Lexeme.isFinish t.lexeme = false
  ends : ∃ finish more, rest = finish :: more ∧ Lexeme.isFinish finish.lexeme = true

theorem Closed.suffix {used left rest : List Token} (h : Closed (used ++ left) rest) :
    Closed left rest :=
  ⟨fun t ht => h.plain t (List.mem_append_right used ht), h.ends⟩

theorem length_le_weight (tokens : List Token) : tokens.length ≤ weight tokens := by
  induction tokens with
  | nil => simp
  | cons t tokens ih =>
    have := tokenWeight_pos t
    rw [List.length_cons, weight_cons]
    omega

/-- How a run on `tokens` with `rest` behind them ends: it has taken `s` or more of them and nothing
of the rest, or it fails, and not by a fault. -/
inductive Proceeds (s : Nat) (tokens rest : List Token) : Except ParseError (α × List Token) → Prop
  | ok {a : α} {used left : List Token} (htokens : tokens = used ++ left) (hs : s ≤ used.length) :
    Proceeds s tokens rest (.ok (a, left ++ rest))
  | error {e : ParseError} (he : ¬e.IsFault) : Proceeds s tokens rest (.error e)

section

variable {s s' : Nat} {tokens used left rest : List Token} {x : Except ParseError (α × List Token)}

theorem Proceeds.weaken (h : Proceeds s tokens rest x) (hs : s' ≤ s) :
    Proceeds s' tokens rest x := by
  cases h with
  | ok htokens hused => exact .ok htokens (Nat.le_trans hs hused)
  | error he => exact .error he

theorem Proceeds.extend (h : Proceeds s' left rest x) (hs : s ≤ used.length) :
    Proceeds (s + s') (used ++ left) rest x := by
  cases h with
  | @ok a us _ hleft hs' =>
    subst hleft
    refine .ok (List.append_assoc ..).symm ?_
    rw [List.length_append]
    omega
  | error he => exact .error he

end

/-- On tokens of a weight below `k`, up to a finish token, both parsers do the same, and they take
`s` tokens if they succeed. -/
def Steady (s k : Nat) (p q : Parser α) : Prop :=
  ∀ ⦃tokens rest⦄, Closed tokens rest → weight tokens < k →
    q.run (tokens ++ rest) = p.run (tokens ++ rest) ∧
      Proceeds s tokens rest (p.run (tokens ++ rest))

/-- The same if `t` is the next token. -/
def SteadyAt (t : Token) (s k : Nat) (p q : Parser α) : Prop :=
  ∀ ⦃tokens rest⦄, Closed (t :: tokens) rest → weight (t :: tokens) < k →
    q.run (t :: (tokens ++ rest)) = p.run (t :: (tokens ++ rest)) ∧
      Proceeds s (t :: tokens) rest (p.run (t :: (tokens ++ rest)))

variable {p q : Parser α} {f g : α → Parser β} {s s' k k' : Nat} {t : Token}

namespace Steady

theorem mono (h : Steady s k p q) (hs : s' ≤ s) (hk : k' ≤ k) : Steady s' k' p q :=
  fun _ _ hclosed hweight =>
    (h hclosed (Nat.lt_of_lt_of_le hweight hk)).imp id fun hout => hout.weaken hs

theorem weak (h : Steady s k p q) : Steady 0 k p q := h.mono (Nat.zero_le s) (Nat.le_refl k)

theorem zero : Steady s 0 p q := fun _ _ _ hweight => absurd hweight (Nat.not_lt_zero _)

/-- What is left for the second of two parsers weighs less than `k'` if the first takes enough. -/
theorem bind' (hp : Steady s k p q) (hf : ∀ a, Steady s' k' (f a) (g a)) (hk : k ≤ k' + s) :
    Steady (s + s') k (p >>= f) (q >>= g) := by
  intro tokens rest hclosed hweight
  obtain ⟨hsame, hout⟩ := hp hclosed hweight
  rw [StateT.run_bind, StateT.run_bind, hsame]
  revert hout
  generalize p.run (tokens ++ rest) = x
  intro hout
  cases hout with
  | @ok a used left htokens hused =>
    subst htokens
    rw [weight_append] at hweight
    have hlength := length_le_weight used
    obtain ⟨hsame', hout'⟩ := hf a hclosed.suffix (by omega)
    exact ⟨hsame', hout'.extend hused⟩
  | error he => exact ⟨rfl, .error he⟩

theorem bind (hp : Steady s k p q) (hf : ∀ a, Steady 0 k (f a) (g a)) :
    Steady s k (p >>= f) (q >>= g) :=
  bind' hp hf (Nat.le_add_right k s)

/-- The first parser need not take anything. -/
theorem after (hp : Steady 0 k p q) (hf : ∀ a, Steady s k (f a) (g a)) :
    Steady s k (p >>= f) (q >>= g) := by
  have h := bind' hp hf (Nat.le_refl k)
  rwa [Nat.zero_add] at h

/-- After a token is taken, less weight is left. -/
theorem andThen (hp : Steady 1 (k + 1) p q) (hf : ∀ a, Steady 0 k (f a) (g a)) :
    Steady 1 (k + 1) (p >>= f) (q >>= g) :=
  bind' hp hf (Nat.le_refl _)

theorem pure (a : α) : Steady 0 k (Pure.pure a : Parser α) (Pure.pure a) :=
  fun tokens _ _ _ => ⟨rfl, .ok (List.nil_append tokens).symm (Nat.zero_le _)⟩

theorem map (h : Steady s k p q) (g : α → β) : Steady s k (g <$> p) (g <$> q) := by
  rw [map_eq_pure_bind, map_eq_pure_bind]
  exact h.bind fun a => pure (g a)

/-- One of two parsers, and then what goes on with the result. -/
theorem choose {c : Prop} [Decidable c] {p' q' : Parser α} (hp : Steady 0 k p q)
    (hq : Steady 0 k p' q') (hf : ∀ a, Steady 0 k (f a) (g a)) :
    Steady 0 k (if c then p >>= f else p' >>= f) (if c then q >>= g else q' >>= g) := by
  split
  · exact hp.bind hf
  · exact hq.bind hf

theorem fail {e : ParseError} (he : ¬e.IsFault) :
    Steady s k (Grammar.fail e : Parser α) (Grammar.fail e) :=
  fun _ _ _ _ => ⟨rfl, .error he⟩

/-- A parser that starts by looking at the next token: there is one. -/
theorem peek {f g : Token → Parser β}
    (hfinish : ∀ t, Lexeme.isFinish t.lexeme = true → Steady s k (f t) (g t))
    (hnext : ∀ t, Lexeme.isFinish t.lexeme = false → SteadyAt t s k (f t) (g t)) :
    Steady s k (Grammar.peek >>= f) (Grammar.peek >>= g) := by
  intro tokens rest hclosed hweight
  cases tokens with
  | nil =>
    obtain ⟨finish, more, rfl, hfinish'⟩ := hclosed.ends
    exact hfinish finish hfinish' hclosed hweight
  | cons t tokens => exact hnext t (hclosed.plain t List.mem_cons_self) hclosed hweight

end Steady

namespace SteadyAt

theorem of_steady (h : Steady s k p q) : SteadyAt t s k p q :=
  fun _ _ hclosed hweight => h hclosed hweight

theorem weaken (h : SteadyAt t s k p q) (hs : s' ≤ s) : SteadyAt t s' k p q :=
  fun _ _ hclosed hweight => (h hclosed hweight).imp id fun hout => hout.weaken hs

/-- Nothing is to be shown if the next token weighs too much. -/
theorem of_weight (h : tokenWeight t < k → SteadyAt t s k p q) : SteadyAt t s k p q := by
  intro tokens rest hclosed hweight
  refine h ?_ hclosed hweight
  rw [weight_cons] at hweight
  omega

/-- The next token is taken. -/
theorem advance {f g : Unit → Parser β} (h : Steady s k (f ()) (g ())) :
    SteadyAt t (s + 1) (k + 1) (Grammar.advance >>= f) (Grammar.advance >>= g) := by
  intro tokens rest hclosed hweight
  have hpos := tokenWeight_pos t
  rw [weight_cons] at hweight
  have hstep (f : Unit → Parser β) :
      (Grammar.advance >>= f).run (t :: (tokens ++ rest)) = (f ()).run (tokens ++ rest) := by
    rw [StateT.run_bind]
    change (f ()).run (if Lexeme.isFinish t.lexeme then _ else tokens ++ rest) = _
    rw [hclosed.plain t List.mem_cons_self, if_neg Bool.false_ne_true]
  rw [hstep, hstep, Nat.add_comm s 1]
  have hclosed' : Closed ([t] ++ tokens) rest := hclosed
  obtain ⟨hsame, hout⟩ := h hclosed'.suffix (by omega)
  have hone : 1 ≤ [t].length := Nat.le_refl 1
  exact ⟨hsame, hout.extend hone⟩

/-- A parser that looks at the token after the next one, or finds that there is none. -/
theorem peekSecond {f g : Option Lexeme → Parser β} (h : ∀ x, SteadyAt t s k (f x) (g x)) :
    SteadyAt t s k (Grammar.peekSecond >>= f) (Grammar.peekSecond >>= g) :=
  fun _ _ hclosed hweight => h _ hclosed hweight

/-- The look ahead from an opening parenthesis has an answer. -/
theorem arrow {f g : List Token → Parser β} (ht : t.lexeme = .symbol .openParen)
    (h : ∀ ts b, arrowAhead? 0 ts = some b → SteadyAt t s k (f ts) (g ts)) :
    SteadyAt t s k (get >>= f) (get >>= g) :=
  fun _ _ hclosed hweight => h _ _ (arrowAhead?_start ht _) hclosed hweight

end SteadyAt

/-! The cursor -/

namespace Steady

theorem look (f : Token → α) :
    Steady 0 k (do return f (← Grammar.peek) : Parser α) (do return f (← Grammar.peek)) :=
  .peek (fun _ _ => .pure _) fun _ _ => .of_steady (.pure _)

theorem here : Steady 0 k Grammar.here Grammar.here := look _

theorem isNext (c : Symbol) : Steady 0 k (Grammar.isNext c) (Grammar.isNext c) := look _

theorem atEnd : Steady 0 k Grammar.atEnd Grammar.atEnd := look _

theorem peekSecond : Steady 0 k Grammar.peekSecond Grammar.peekSecond :=
  fun tokens _ _ _ => ⟨rfl, .ok (List.nil_append tokens).symm (Nat.zero_le _)⟩

/-- At the finish token nothing is taken. -/
theorem advance : Steady 0 k Grammar.advance Grammar.advance := by
  intro tokens rest hclosed hweight
  cases tokens with
  | nil =>
    obtain ⟨finish, more, rfl, hfinish⟩ := hclosed.ends
    have hstay : Grammar.advance.run (finish :: more) = .ok ((), finish :: more) := by
      change Except.ok ((), if Lexeme.isFinish finish.lexeme then finish :: more else more) = _
      rw [hfinish, if_pos rfl]
    rw [List.nil_append, hstay]
    exact ⟨rfl, .ok (List.nil_append []).symm (Nat.zero_le _)⟩
  | cons t tokens =>
    have hstep : Grammar.advance.run (t :: (tokens ++ rest)) = .ok ((), tokens ++ rest) := by
      change Except.ok ((), if Lexeme.isFinish t.lexeme then _ else tokens ++ rest) = _
      rw [hclosed.plain t List.mem_cons_self, if_neg Bool.false_ne_true]
    rw [List.cons_append, hstep]
    exact ⟨rfl, .ok List.singleton_append.symm (Nat.zero_le _)⟩

theorem unexpected (expected : String) :
    Steady s k (Grammar.unexpected expected : Parser α) (Grammar.unexpected expected) := by
  refine .peek (fun t ht => ?_) fun t ht => ?_
  · rw [if_pos ht]
    exact .fail nofun
  · rw [ht]
    exact .of_steady (.fail nofun)

/-- An error that tells where it was found. -/
theorem failHere {form : InvalidForm} (hform : form ≠ .outOfRange) :
    Steady s k (do Grammar.fail (.invalid form (← Grammar.here)) : Parser α)
      (do Grammar.fail (.invalid form (← Grammar.here))) := by
  refine here.after fun p => .fail ?_
  cases form <;> first | exact id | exact absurd rfl hform

section

variable {kind : Lexeme → Bool}

theorem takeIf_bind {f g : Bool → Parser β} (hfinish : kind .finish = false)
    (htrue : Steady s k (f true) (g true)) (hfalse : Steady (s + 1) (k + 1) (f false) (g false)) :
    Steady (s + 1) (k + 1) (takeIf kind >>= f) (takeIf kind >>= g) := by
  rw [Grammar.takeIf_bind, Grammar.takeIf_bind]
  refine .peek (fun t ht => ?_) fun t _ => ?_
  · rw [isFinish_iff.1 ht, hfinish]
    exact hfalse
  · split
    next => exact .advance htrue
    next => exact .of_steady hfalse

theorem takeIf : Steady 0 k (takeIf kind) (takeIf kind) := by
  have hkind : Steady 0 k (do return kind (← Grammar.peek).lexeme : Parser Bool)
      (do return kind (← Grammar.peek).lexeme) := look _
  have heq : Grammar.takeIf kind = (do return kind (← Grammar.peek).lexeme : Parser Bool) >>=
      fun b => if b then Grammar.advance >>= fun _ => Pure.pure true else Pure.pure false := by
    simp only [Grammar.takeIf, bind_assoc, pure_bind]
  rw [heq]
  exact hkind.bind fun b => by
    split
    · exact advance.bind fun _ => .pure true
    · exact .pure false

end

theorem accept_bind {c : Symbol} {f g : Bool → Parser β} (htrue : Steady s k (f true) (g true))
    (hfalse : Steady (s + 1) (k + 1) (f false) (g false)) :
    Steady (s + 1) (k + 1) (Grammar.accept c >>= f) (Grammar.accept c >>= g) := by
  rw [accept_eq]
  exact takeIf_bind rfl htrue hfalse

theorem acceptWord_bind {w : Keyword} {f g : Bool → Parser β}
    (htrue : Steady s k (f true) (g true)) (hfalse : Steady (s + 1) (k + 1) (f false) (g false)) :
    Steady (s + 1) (k + 1) (Grammar.acceptWord w >>= f) (Grammar.acceptWord w >>= g) := by
  rw [acceptWord_eq]
  exact takeIf_bind rfl htrue hfalse

theorem expect (c : Symbol) (expected : String) :
    Steady 1 k (Grammar.expect c expected) (Grammar.expect c expected) := by
  cases k with
  | zero => exact .zero
  | succ k =>
    unfold Grammar.expect
    refine accept_bind ?_ ?_
    · exact .pure ()
    · exact .unexpected expected

theorem expectWord (w : Keyword) (expected : String) :
    Steady 1 k (Grammar.expectWord w expected) (Grammar.expectWord w expected) := by
  cases k with
  | zero => exact .zero
  | succ k =>
    unfold Grammar.expectWord
    refine acceptWord_bind ?_ ?_
    · exact .pure ()
    · exact .unexpected expected

theorem accept (c : Symbol) : Steady 0 k (Grammar.accept c) (Grammar.accept c) := by
  rw [accept_eq]
  exact takeIf

theorem acceptWord (w : Keyword) : Steady 0 k (Grammar.acceptWord w) (Grammar.acceptWord w) := by
  rw [acceptWord_eq]
  exact takeIf

theorem optionalSemicolon : Steady 0 k Grammar.optionalSemicolon Grammar.optionalSemicolon :=
  (accept .semicolon).map _

theorem name : Steady 1 k Grammar.name Grammar.name := by
  cases k with
  | zero => exact .zero
  | succ k =>
    refine .peek (fun t ht => ?_) fun t _ => ?_
    · simp only [isFinish_iff.1 ht]
      exact .unexpected _
    · split
      next n _ => exact .advance (.pure n)
      next => exact .of_steady (.unexpected _)

theorem propertyName : Steady 1 k Grammar.propertyName Grammar.propertyName := by
  cases k with
  | zero => exact .zero
  | succ k =>
    refine .peek (fun t ht => ?_) fun t _ => ?_
    · simp only [isFinish_iff.1 ht]
      exact .unexpected _
    · split
      next n _ => exact .advance (.pure n)
      next n _ => exact .advance (.pure n)
      next w _ => exact .advance (.pure w.spelling)
      next => exact .of_steady (.unexpected _)

/-! Lists of items -/

/-- Every item takes a token, so the loop comes to its end before its bound. -/
theorem items {more more' : Parser Bool} {item item' : Parser (α × Bool)} {n m : Nat}
    (hmore : Steady 0 k more more') (hitem : Steady 1 k item item') (hn : k ≤ n) (hm : k ≤ m) :
    Steady 0 k (Grammar.items more item n) (Grammar.items more' item' m) := by
  induction k generalizing n m with
  | zero => exact .zero
  | succ k ih =>
    obtain ⟨n, rfl⟩ : ∃ l, n = l + 1 := ⟨n - 1, by omega⟩
    obtain ⟨m, rfl⟩ : ∃ l, m = l + 1 := ⟨m - 1, by omega⟩
    have hrest := ih (hmore.mono (Nat.le_refl 0) (Nat.le_succ k))
      (hitem.mono (Nat.le_refl 1) (Nat.le_succ k)) (Nat.le_of_succ_le_succ hn)
      (Nat.le_of_succ_le_succ hm)
    refine hmore.after fun again => ?_
    split
    · refine (hitem.andThen fun (a, again) => ?_).weak
      dsimp only
      split
      · exact hrest.bind fun _ => .pure _
      · exact .pure _
    · exact .pure _

variable {d d' : Deeper} {item item' : Parser α} (hn : k ≤ d.bound) (hm : k ≤ d'.bound)
include hn hm

theorem commaItems (close : Symbol) (hitem : Steady 1 k item item') :
    Steady 0 k (Grammar.commaItems d close item) (Grammar.commaItems d' close item') :=
  .items ((isNext close).bind fun _ => .pure _)
    (hitem.bind fun _ => (accept .comma).bind fun _ => .pure _) hn hm

theorem itemsUntil (close : Symbol) (hitem : Steady 1 k item item') :
    Steady 0 k (Grammar.itemsUntil d close item) (Grammar.itemsUntil d' close item') :=
  .items ((isNext close).bind fun _ => atEnd.bind fun _ => .pure _)
    (hitem.bind fun _ => .pure _) hn hm

theorem commaSeparated (hitem : Steady 1 k item item') :
    Steady 0 k (Grammar.commaSeparated d item) (Grammar.commaSeparated d' item') :=
  .items (.pure true) (hitem.bind fun _ => (accept .comma).bind fun _ => .pure _) hn hm

/-- The closing parenthesis is taken as well. -/
theorem closedList (expected : String) (hitem : Steady 1 k item item') :
    Steady 1 k (Grammar.closedList d expected item) (Grammar.closedList d' expected item') := by
  have hclose (xs : List α) : Steady 1 k
      (do Grammar.expect .closeParen expected; return xs : Parser (List α))
      (do Grammar.expect .closeParen expected; return xs) :=
    (expect .closeParen expected).bind fun _ => .pure xs
  refine (isNext .closeParen).after fun closed => ?_
  split
  · exact (Steady.pure []).after hclose
  · exact (commaSeparated hn hm hitem).after hclose

end Steady

end Grammar

end ScriptEngine
