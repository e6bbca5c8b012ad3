import ScriptEngine.Proofs.Grammar.Weight

/-!
# Parsing tokens that are cut off

A parser is run twice: on tokens that are cut off and on the tokens as they go on. Both runs take
the same steps until the first has used up what is left of the cut, where it ends or succeeds. That
the parsers may differ in their bounds makes it the statement that a bound which is large enough
does not matter.
-/
namespace ScriptEngine.Grammar
open Text (Position)

/-! The look ahead starts at an opening parenthesis and ends at the one that closes it, so its count
of open parentheses is never asked to go below zero. -/

/-- Whether the look ahead finds an arrow. -/
def arrowAhead (depth : Nat) (tokens : List Token) : Bool := (arrowAhead? depth tokens).getD false

section

variable {t : Token} {rest : List Token} (depth : Nat)

@[simp] theorem arrowAhead_nil : arrowAhead depth [] = false := rfl

theorem arrowAhead?_open (ht : t.lexeme = .symbol .openParen) :
    arrowAhead? depth (t :: rest) = arrowAhead? (depth + 1) rest := by
  simp only [arrowAhead?, ht]

theorem arrowAhead_open (ht : t.lexeme = .symbol .openParen) :
    arrowAhead depth (t :: rest) = arrowAhead (depth + 1) rest := by
  rw [arrowAhead, arrowAhead?_open depth ht, arrowAhead]

theorem arrowAhead_close (ht : t.lexeme = .symbol .closeParen) :
    arrowAhead (depth + 2) (t :: rest) = arrowAhead (depth + 1) rest := by
  simp only [arrowAhead, arrowAhead?, ht]

/-- The parenthesis that closes the first one decides. -/
theorem arrowAhead_last (ht : t.lexeme = .symbol .closeParen) :
    arrowAhead 1 (t :: rest) =
      (rest.head?.map Token.lexeme).any (Lexeme.isSymbol .thickArrow) := by
  simp only [arrowAhead, arrowAhead?, ht, Option.getD_some]

theorem arrowAhead_finish (ht : t.lexeme = .finish) : arrowAhead depth (t :: rest) = false := by
  simp only [arrowAhead, arrowAhead?, ht, Option.getD_some]

/-- All other tokens are passed over. -/
theorem arrowAhead_plain (hopen : t.lexeme ≠ .symbol .openParen)
    (hclose : t.lexeme ≠ .symbol .closeParen) (hfinish : t.lexeme ≠ .finish) :
    arrowAhead depth (t :: rest) = arrowAhead depth rest := by
  rw [arrowAhead, arrowAhead?.eq_def]
  dsimp only
  split <;> first | contradiction | rfl

end

/-- While a parenthesis is open, the count does not go below zero. -/
theorem arrowAhead?_of_open {depth : Nat} (hdepth : 0 < depth) (tokens : List Token) :
    arrowAhead? depth tokens = some (arrowAhead depth tokens) := by
  suffices hsome : (arrowAhead? depth tokens).isSome by
    obtain ⟨b, hb⟩ := Option.isSome_iff_exists.1 hsome
    rw [arrowAhead, hb, Option.getD_some]
  induction tokens generalizing depth with
  | nil => rfl
  | cons t rest ih =>
    rw [arrowAhead?.eq_def]
    dsimp only
    split
    next => exact ih (Nat.succ_pos depth)
    next =>
      match depth with
      | 1 => rfl
      | depth + 2 => exact ih (Nat.succ_pos depth)
    next => rfl
    next => exact ih hdepth

/-- The look ahead from an opening parenthesis has an answer. -/
theorem arrowAhead?_start {t : Token} (ht : t.lexeme = .symbol .openParen) (rest : List Token) :
    arrowAhead? 0 (t :: rest) = some (arrowAhead 1 rest) := by
  rw [arrowAhead?_open 0 ht, arrowAhead?_of_open Nat.one_pos]

/-! Two runs -/

/-- The tokens `used` close no parenthesis opened before them but `i`, and leave `o` open. -/
def Balanced (i o : Nat) (used : List Token) : Prop :=
  ∀ n tail, arrowAhead (n + i + 1) (used ++ tail) = arrowAhead (n + o + 1) tail

theorem Balanced.nil (i : Nat) : Balanced i i [] := fun _ _ => rfl

theorem Balanced.append {i j o : Nat} {ts us : List Token} (hts : Balanced i j ts)
    (hus : Balanced j o us) : Balanced i o (ts ++ us) := fun n tail => by
  rw [List.append_assoc, hts, hus]

theorem Balanced.lift {i o : Nat} {ts : List Token} (h : Balanced i o ts) :
    Balanced (i + 1) (o + 1) ts := fun n tail => by
  simpa [Nat.add_right_comm, Nat.add_assoc, Nat.add_comm 1] using h (n + 1) tail

theorem Balanced.open {t : Token} (ht : t.lexeme = .symbol .openParen) (i : Nat) :
    Balanced i (i + 1) [t] := fun _ _ => arrowAhead_open _ ht

theorem Balanced.close {t : Token} (ht : t.lexeme = .symbol .closeParen) (i : Nat) :
    Balanced (i + 1) i [t] := fun _ _ => arrowAhead_close _ ht

theorem Balanced.plain {t : Token} (hopen : t.lexeme ≠ .symbol .openParen)
    (hclose : t.lexeme ≠ .symbol .closeParen) (hfinish : t.lexeme ≠ .finish) (i : Nat) :
    Balanced i i [t] := fun _ _ => arrowAhead_plain _ hopen hclose hfinish

theorem Balanced.of_eq {t : Token} {l : Lexeme} (ht : t.lexeme = l)
    (hl : l ≠ .symbol .openParen ∧ l ≠ .symbol .closeParen ∧ l ≠ .finish) (i : Nat) :
    Balanced i i [t] :=
  .plain (ht ▸ hl.1) (ht ▸ hl.2.1) (ht ▸ hl.2.2) i

/-- Tokens up to a finish token, and tokens that may come instead of it: no parenthesis before
opens the parameters of an arrow function unless it does so in both. -/
structure Cut (tokens : List Token) (finish : Token) (rest : List Token) : Prop where
  plain : ∀ t ∈ tokens, Lexeme.isFinish t.lexeme = false
  ends : Lexeme.isFinish finish.lexeme = true
  arrows : ∀ front t back, tokens = front ++ t :: back → t.lexeme = .symbol .openParen →
    arrowAhead 1 (back ++ [finish]) = arrowAhead 1 (back ++ rest)

namespace Cut

variable {tokens used left : List Token} {finish : Token} {rest : List Token}

theorem self (hplain : ∀ t ∈ tokens, Lexeme.isFinish t.lexeme = false)
    (hfinish : Lexeme.isFinish finish.lexeme = true) : Cut tokens finish [finish] :=
  ⟨hplain, hfinish, fun _ _ _ _ _ => rfl⟩

theorem suffix (h : Cut (used ++ left) finish rest) : Cut left finish rest where
  plain t ht := h.plain t (List.mem_append_right used ht)
  ends := h.ends
  arrows front t back hleft := h.arrows (used ++ front) t back (by rw [hleft, List.append_assoc])

theorem nil (h : Cut tokens finish rest) : Cut [] finish [finish] := self (by simp) h.ends

end Cut

/-- The errors that a run on tokens which are cut off ends with at the cut. All but the first are
worded like errors in a text that is complete. -/
inductive CutShort (tokens : List Token) (finish : Token) : ParseError → Prop
  | ended (expected : String) : CutShort tokens finish (.unexpectedEnd expected finish.position)
  | constant : CutShort tokens finish (.invalid .constantWithoutValue finish.position)
  | rest : CutShort tokens finish (.invalid .restNotLast finish.position)
  | minus {front : List Token} {t : Token} (htokens : tokens = front ++ [t])
    (ht : t.lexeme = .symbol .minus) :
    CutShort tokens finish (.unexpectedToken "match pattern" (.symbol .minus) t.position)

theorem CutShort.append {used left : List Token} {finish : Token} {e : ParseError}
    (h : CutShort left finish e) : CutShort (used ++ left) finish e := by
  cases h with
  | ended expected => exact .ended expected
  | constant => exact .constant
  | rest => exact .rest
  | @minus front t htokens ht =>
    have happend : used ++ left = (used ++ front) ++ [t] := by rw [htokens, List.append_assoc]
    exact .minus happend ht

/-- The code of an interpolation ends where an expression has to go on. -/
def BreaksOff (t : Token) : Prop :=
  ∃ chunks source position tokens expected p, t.lexeme = .template chunks ∧
    .code source position ∈ chunks ∧ Token.scanAt position source = .ok tokens ∧
    parseExpression tokens = .error (.unexpectedEnd expected p)

/-- An error before the cut is an unexpected end only if it is that of an interpolation. -/
def Fatal (tokens : List Token) (e : ParseError) : Prop :=
  ∀ expected p, e = .unexpectedEnd expected p → ∃ t ∈ tokens, BreaksOff t

variable {α β : Type}

/-- A run that uses up all tokens, or ends at the cut. It takes tokens of weight `s` at least, finds
`i` parentheses open and leaves `o` open. -/
inductive Finishes (s i o : Nat) (tokens : List Token) (finish : Token) :
    Except ParseError (α × List Token) → Prop
  | whole {a : α} (hweight : s ≤ weight tokens) (hbalanced : Balanced i o tokens) :
    Finishes s i o tokens finish (.ok (a, [finish]))
  | cut {e : ParseError} (he : CutShort tokens finish e)
    (hopen : ∀ n, arrowAhead (n + i + 1) (tokens ++ [finish]) = false) :
    Finishes s i o tokens finish (.error e)

/-- How the results of two runs are related, the first on `tokens` with the finish token after them,
the second on `tokens` with `rest` after them. -/
inductive Outcome (s i o : Nat) (tokens : List Token) (finish : Token) (rest : List Token) :
    Except ParseError (α × List Token) → Except ParseError (α × List Token) → Prop
  | same {a : α} {used left : List Token} (htokens : tokens = used ++ left) (hleft : left ≠ [])
    (hweight : s ≤ weight used) (hbalanced : Balanced i o used) :
    Outcome s i o tokens finish rest (.ok (a, left ++ [finish])) (.ok (a, left ++ rest))
  | fatal {e e' : ParseError} (htokens : tokens ≠ []) (he : Fatal tokens e)
    (hsame : rest = [finish] → e' = e) : Outcome s i o tokens finish rest (.error e) (.error e')
  | finishes {x y : Except ParseError (α × List Token)} (hx : Finishes s i o tokens finish x)
    (hsame : rest = [finish] → y = x) : Outcome s i o tokens finish rest x y

/-- On tokens of a weight below `k`, the second parser goes on as the first. -/
def Tracks (s i o k : Nat) (p q : Parser α) : Prop :=
  ∀ ⦃tokens finish rest⦄, Cut tokens finish rest → weight tokens < k →
    Outcome s i o tokens finish rest (p.run (tokens ++ [finish])) (q.run (tokens ++ rest))

/-- The same if `front` stands at the front of the tokens. -/
def TracksAt (front : List Token) (s i o k : Nat) (p q : Parser α) : Prop :=
  ∀ ⦃tokens finish rest⦄, Cut (front ++ tokens) finish rest → weight (front ++ tokens) < k →
    Outcome s i o (front ++ tokens) finish rest (p.run (front ++ (tokens ++ [finish])))
      (q.run (front ++ (tokens ++ rest)))

/-- Both parsers do the same when only these tokens are left, and finish. -/
def FinishAlike (s i o : Nat) (tokens : List Token) (finish : Token) (p q : Parser α) : Prop :=
  q.run (tokens ++ [finish]) = p.run (tokens ++ [finish]) ∧
    Finishes s i o tokens finish (p.run (tokens ++ [finish]))

section

variable {s s' i j o k k' : Nat} {tokens used left rest : List Token} {finish : Token}
  {x y : Except ParseError (α × List Token)}

theorem Balanced.cut {i o : Nat} (h : Balanced i o used) (hfinish : Lexeme.isFinish finish.lexeme)
    (n : Nat) : arrowAhead (n + i + 1) (used ++ [finish]) = false := by
  rw [h, arrowAhead_finish _ (isFinish_iff.1 hfinish)]

theorem Finishes.extend (h : Finishes s' j o left finish x) (hweight : s ≤ weight used)
    (hbalanced : Balanced i j used) : Finishes (s + s') i o (used ++ left) finish x := by
  cases h with
  | whole hs' hleft =>
    refine .whole ?_ (hbalanced.append hleft)
    rw [weight_append]
    omega
  | cut he hopen =>
    refine .cut he.append fun n => ?_
    rw [List.append_assoc, hbalanced]
    exact hopen n

theorem Finishes.weaken (h : Finishes s i o tokens finish x) (hs : s' ≤ s) :
    Finishes s' i o tokens finish x := by
  cases h with
  | whole hweight hbalanced => exact .whole (Nat.le_trans hs hweight) hbalanced
  | cut he hopen => exact .cut he hopen

theorem Outcome.weaken (h : Outcome s i o tokens finish rest x y) (hs : s' ≤ s) :
    Outcome s' i o tokens finish rest x y := by
  cases h with
  | same htokens hleft hweight hbalanced =>
    exact .same htokens hleft (Nat.le_trans hs hweight) hbalanced
  | fatal hne he hsame => exact .fatal hne he hsame
  | finishes hx hsame => exact .finishes (hx.weaken hs) hsame

/-- One more parenthesis may be open before. -/
theorem Outcome.lift (h : Outcome s i o tokens finish rest x y) :
    Outcome s (i + 1) (o + 1) tokens finish rest x y := by
  cases h with
  | same htokens hleft hweight hbalanced => exact .same htokens hleft hweight hbalanced.lift
  | fatal hne he hsame => exact .fatal hne he hsame
  | finishes hx hsame =>
    refine .finishes ?_ hsame
    cases hx with
    | whole hweight hbalanced => exact .whole hweight hbalanced.lift
    | cut he hopen =>
      refine .cut he fun n => ?_
      rw [← hopen (n + 1), Nat.add_right_comm n 1 i, Nat.add_assoc n i 1]

theorem Outcome.extend (h : Outcome s' j o left finish rest x y) (hweight : s ≤ weight used)
    (hbalanced : Balanced i j used) : Outcome (s + s') i o (used ++ left) finish rest x y := by
  cases h with
  | @same a us _ hleft hne hs' hus =>
    subst hleft
    refine .same (List.append_assoc ..).symm hne ?_ (hbalanced.append hus)
    rw [weight_append]
    omega
  | fatal hne he hsame =>
    refine .fatal (by simp [hne]) (fun expected p heq => ?_) hsame
    obtain ⟨t, ht, hbreaks⟩ := he expected p heq
    exact ⟨t, List.mem_append_right _ ht, hbreaks⟩
  | finishes hx hsame => exact .finishes (hx.extend hweight hbalanced) hsame

/-- When nothing is left, the run finishes. -/
theorem Outcome.finishes_of_nil (h : Outcome s i o [] finish rest x y) :
    Finishes s i o [] finish x := by
  cases h with
  | same htokens hleft => exact absurd (List.nil_eq_append_iff.1 htokens).2 hleft
  | fatal htokens => exact absurd rfl htokens
  | finishes hx => exact hx

/-- Where the tokens as they go on are accepted, an error before is one at the cut. -/
theorem Outcome.of_ok {b : α × List Token} (h : Outcome s i o tokens finish rest x (.ok b)) :
    (∃ a, x = .ok a) ∨ ∃ e, x = .error e ∧ CutShort tokens finish e := by
  cases h with
  | same => exact .inl ⟨_, rfl⟩
  | finishes hx =>
    cases hx with
    | whole => exact .inl ⟨_, rfl⟩
    | cut he => exact .inr ⟨_, rfl, he⟩

theorem Outcome.eq_of_self (h : Outcome s i o tokens finish [finish] x y) : y = x := by
  cases h with
  | same => rfl
  | fatal _ _ hsame => rw [hsame rfl]
  | finishes _ hsame => exact hsame rfl

end

variable {p q : Parser α} {f g : α → Parser β} {s s' i j o k k' : Nat} {t : Token}

theorem FinishAlike.outcome {tokens : List Token} {finish : Token}
    (h : FinishAlike s i o tokens finish p q) :
    Outcome s i o tokens finish [finish] (p.run (tokens ++ [finish]))
      (q.run (tokens ++ [finish])) :=
  .finishes h.2 fun _ => h.1

theorem FinishAlike.bind {tokens : List Token} {finish : Token}
    (hp : FinishAlike s i j tokens finish p q)
    (hf : ∀ a, FinishAlike s' j o [] finish (f a) (g a)) :
    FinishAlike (s + s') i o tokens finish (p >>= f) (q >>= g) := by
  obtain ⟨hsame, hx⟩ := hp
  unfold FinishAlike
  rw [StateT.run_bind, StateT.run_bind, hsame]
  revert hx
  generalize p.run (tokens ++ [finish]) = x
  intro hx
  cases hx with
  | @whole a hweight hbalanced =>
    obtain ⟨hsame', hx'⟩ := hf a
    have hextended := hx'.extend hweight hbalanced
    rw [List.append_nil] at hextended
    exact ⟨hsame', hextended⟩
  | cut he hopen => exact ⟨rfl, .cut he hopen⟩

namespace Tracks

theorem mono (h : Tracks s i o k p q) (hs : s' ≤ s) (hk : k' ≤ k) : Tracks s' i o k' p q :=
  fun _ _ _ hcut hweight => (h hcut (Nat.lt_of_lt_of_le hweight hk)).weaken hs

theorem weak (h : Tracks s i o k p q) : Tracks 0 i o k p q := h.mono (Nat.zero_le s) (Nat.le_refl k)

/-- No tokens weigh nothing at all. -/
theorem zero : Tracks s i o 0 p q := fun _ _ _ _ hweight => absurd hweight (Nat.not_lt_zero _)

theorem lift (h : Tracks s i o k p q) : Tracks s (i + 1) (o + 1) k p q :=
  fun _ _ _ hcut hweight => (h hcut hweight).lift

/-- When no token is left. -/
theorem finishAlike (h : Tracks s i o k p q) (hk : 0 < k) {finish : Token}
    (hfinish : Lexeme.isFinish finish.lexeme = true) : FinishAlike s i o [] finish p q := by
  have hcut : Cut [] finish [finish] := Cut.self (by simp) hfinish
  have hout := h hcut hk
  exact ⟨hout.eq_of_self, hout.finishes_of_nil⟩

/-- What is left for the second of two parsers weighs less than `k'` if the first takes enough. -/
theorem bind' (hp : Tracks s i j k p q) (hf : ∀ a, Tracks s' j o k' (f a) (g a))
    (hk : k ≤ k' + s) : Tracks (s + s') i o k (p >>= f) (q >>= g) := by
  intro tokens finish rest hcut hweight
  have hfirst := hp hcut hweight
  rw [StateT.run_bind, StateT.run_bind]
  revert hfirst
  generalize p.run (tokens ++ [finish]) = x
  generalize q.run (tokens ++ rest) = y
  intro hfirst
  cases hfirst with
  | @same a used left htokens hleft hused hbalanced =>
    subst htokens
    rw [weight_append] at hweight
    exact (hf a hcut.suffix (by omega)).extend hused hbalanced
  | fatal hne he hsame => exact .fatal hne he hsame
  | finishes hx hsame =>
    cases hx with
    | @whole a hused hbalanced =>
      obtain ⟨hsame', hx'⟩ := (hf a).finishAlike (by omega) hcut.ends
      have hextended := hx'.extend hused hbalanced
      rw [List.append_nil] at hextended
      refine .finishes hextended fun hrest => ?_
      rw [hsame hrest]
      exact hsame'
    | cut he hopen =>
      refine .finishes (.cut he hopen) fun hrest => ?_
      rw [hsame hrest]
      rfl

theorem bind (hp : Tracks s i j k p q) (hf : ∀ a, Tracks 0 j o k (f a) (g a)) :
    Tracks s i o k (p >>= f) (q >>= g) :=
  bind' hp hf (Nat.le_add_right k s)

/-- The first parser need not take anything. -/
theorem after (hp : Tracks 0 i j k p q) (hf : ∀ a, Tracks s j o k (f a) (g a)) :
    Tracks s i o k (p >>= f) (q >>= g) := by
  have h := bind' hp hf (Nat.le_refl k)
  rwa [Nat.zero_add] at h

/-- After a token is taken, less weight is left. -/
theorem andThen (hp : Tracks 1 i j (k + 1) p q) (hf : ∀ a, Tracks 0 j o k (f a) (g a)) :
    Tracks 1 i o (k + 1) (p >>= f) (q >>= g) :=
  bind' hp hf (Nat.le_refl _)

theorem pure (a : α) : Tracks 0 i i k (Pure.pure a : Parser α) (Pure.pure a) := by
  intro tokens finish rest hcut hweight
  cases tokens with
  | nil => exact .finishes (.whole (Nat.zero_le _) (.nil i)) fun hrest => by rw [hrest]
  | cons t tokens =>
    exact .same (List.nil_append _).symm (List.cons_ne_nil t tokens) (Nat.zero_le _) (.nil i)

/-- One of two parsers, and then what goes on with the result. -/
theorem choose {c : Prop} [Decidable c] {p' q' : Parser α} (hp : Tracks 0 i j k p q)
    (hq : Tracks 0 i j k p' q') (hf : ∀ a, Tracks 0 j o k (f a) (g a)) :
    Tracks 0 i o k (if c then p >>= f else p' >>= f) (if c then q >>= g else q' >>= g) := by
  split
  · exact hp.bind hf
  · exact hq.bind hf

theorem map (h : Tracks s i o k p q) (g : α → β) : Tracks s i o k (g <$> p) (g <$> q) := by
  rw [map_eq_pure_bind, map_eq_pure_bind]
  exact h.bind fun a => pure (g a)

/-- A parser that starts by looking at the next token. -/
theorem peek {f g : Token → Parser β}
    (hfinish : ∀ t, Lexeme.isFinish t.lexeme = true → FinishAlike s i o [] t (f t) (g t))
    (hnext : ∀ t, Lexeme.isFinish t.lexeme = false → TracksAt [t] s i o k (f t) (g t)) :
    Tracks s i o k (Grammar.peek >>= f) (Grammar.peek >>= g) := by
  intro tokens finish rest hcut hweight
  cases tokens with
  | nil =>
    obtain ⟨hsame, hx⟩ := hfinish finish hcut.ends
    refine .finishes hx fun hrest => ?_
    rw [hrest]
    exact hsame
  | cons t tokens => exact hnext t (hcut.plain t List.mem_cons_self) hcut hweight

end Tracks

namespace TracksAt

variable {front : List Token}

theorem of_tracks (h : Tracks s i o k p q) : TracksAt front s i o k p q := by
  intro tokens finish rest hcut hweight
  rw [← List.append_assoc, ← List.append_assoc]
  exact h hcut hweight

theorem weaken (h : TracksAt front s i o k p q) (hs : s' ≤ s) : TracksAt front s' i o k p q :=
  fun _ _ _ hcut hweight => (h hcut hweight).weaken hs

theorem peek {f g : Token → Parser β} (h : TracksAt (t :: front) s i o k (f t) (g t)) :
    TracksAt (t :: front) s i o k (Grammar.peek >>= f) (Grammar.peek >>= g) :=
  fun _ _ _ hcut hweight => h hcut hweight

/-- Nothing is to be shown if the next token weighs too much. -/
theorem of_weight (h : tokenWeight t < k → TracksAt (t :: front) s i o k p q) :
    TracksAt (t :: front) s i o k p q := by
  intro tokens finish rest hcut hweight
  refine h ?_ hcut hweight
  rw [List.cons_append, weight_cons] at hweight
  omega

/-- The next token is taken. -/
theorem advance' {f g : Unit → Parser β} (hbalanced : Balanced i j [t])
    (h : tokenWeight t < k + 1 → TracksAt front s j o k (f ()) (g ())) :
    TracksAt (t :: front) (s + 1) i o (k + 1) (Grammar.advance >>= f) (Grammar.advance >>= g) := by
  intro tokens finish rest hcut hweight
  have hpos := tokenWeight_pos t
  have hcut' : Cut ([t] ++ (front ++ tokens)) finish rest := hcut
  rw [List.cons_append] at hcut hweight ⊢
  rw [weight_cons] at hweight
  have hstep (tail : List Token) (f : Unit → Parser β) :
      (Grammar.advance >>= f).run (t :: tail) = (f ()).run tail := by
    rw [StateT.run_bind]
    change (f ()).run (if Lexeme.isFinish t.lexeme then t :: tail else tail) = _
    rw [hcut.plain t List.mem_cons_self, if_neg Bool.false_ne_true]
  rw [List.cons_append, List.cons_append, hstep, hstep, Nat.add_comm s 1]
  have hnext := h (by omega) hcut'.suffix (by omega)
  have hused : 1 ≤ weight [t] := hpos
  exact hnext.extend hused hbalanced

theorem advance {f g : Unit → Parser β} (hbalanced : Balanced i j [t])
    (h : tokenWeight t < k + 1 → Tracks s j o k (f ()) (g ())) :
    TracksAt (t :: front) (s + 1) i o (k + 1) (Grammar.advance >>= f) (Grammar.advance >>= g) :=
  advance' hbalanced fun ht => of_tracks (h ht)

theorem advance_again {f g : Unit → Parser β} (hbalanced : Balanced i j [t])
    (h : Tracks s j o k (f ()) (g ())) :
    TracksAt (t :: front) (s + 1) i o k (Grammar.advance >>= f) (Grammar.advance >>= g) := by
  cases k with
  | zero => exact fun _ _ _ _ hweight => absurd hweight (Nat.not_lt_zero _)
  | succ k => exact advance hbalanced fun _ => h.mono (Nat.le_refl s) (Nat.le_succ k)

/-- A parser that looks whether a parenthesis opens the parameters of an arrow function. -/
theorem arrow {f g : List Token → Parser β} (ht : t.lexeme = .symbol .openParen)
    (h : ∀ ts us b, arrowAhead? 0 ts = some b → arrowAhead? 0 us = some b →
      TracksAt [t] s i o k (f ts) (g us)) :
    TracksAt [t] s i o k (get >>= f) (get >>= g) := by
  intro tokens finish rest hcut hweight
  have hahead : arrowAhead? 0 (t :: (tokens ++ rest)) =
      some (arrowAhead 1 (tokens ++ [finish])) := by
    rw [arrowAhead?_start ht, hcut.arrows [] t tokens rfl ht]
  exact h _ _ _ (arrowAhead?_start ht _) hahead hcut hweight

/-- A parser that looks at the token after the next one. Where there is none, it has to finish. -/
theorem peekSecond {f g : Option Lexeme → Parser β}
    (h : ∀ u, TracksAt [t, u] s i o k (f (some u.lexeme)) (g (some u.lexeme)))
    (hlast : ∀ finish, Lexeme.isFinish finish.lexeme = true →
      FinishAlike s i o [t] finish (f (some .finish)) (g (some .finish))) :
    TracksAt [t] s i o k (Grammar.peekSecond >>= f) (Grammar.peekSecond >>= g) := by
  intro tokens finish rest hcut hweight
  cases tokens with
  | nil =>
    obtain ⟨hsame, hx⟩ := hlast finish hcut.ends
    have hsecond (f : Option Lexeme → Parser β) :
        (Grammar.peekSecond >>= f).run [t, finish] = (f (some .finish)).run [t, finish] := by
      rw [← isFinish_iff.1 hcut.ends]
      rfl
    change Outcome s i o _ finish rest ((Grammar.peekSecond >>= f).run [t, finish])
      ((Grammar.peekSecond >>= g).run (t :: rest))
    rw [hsecond]
    refine .finishes hx fun hrest => ?_
    rw [hrest, hsecond]
    exact hsame
  | cons u tokens => exact h u hcut hweight

/-- A parser that looks at the token after the next one and does not mind it. -/
theorem peekSecond_any {f g : Option Lexeme → Parser β}
    (h : ∀ x y, TracksAt [t] s i o k (f x) (g y)) :
    TracksAt [t] s i o k (Grammar.peekSecond >>= f) (Grammar.peekSecond >>= g) :=
  fun _ _ _ hcut hweight => h _ _ hcut hweight

end TracksAt

end ScriptEngine.Grammar
