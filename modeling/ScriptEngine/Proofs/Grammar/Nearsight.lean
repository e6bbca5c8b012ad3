import Mathlib
import ScriptEngine.Proofs.Grammar.Cursor
import ScriptEngine.Proofs.Grammar.Reading

/-!
# Parsers look one token ahead

What a parser takes, and what it makes of it, depends on the tokens it takes and on the next one
only: what follows the next one may be anything. The productions that a semicolon can end do not
even tell the next token from a semicolon, and they never end in one themselves.
-/
namespace ScriptEngine.Grammar
open Text (Position)

variable {α β : Type} {stop : Option Symbol} {s s' i j o : Nat} {t : Token}

theorem exists_of_run_bind {p : Parser α} {f : α → Parser β} {tokens rest : List Token} {b : β}
    (h : (p >>= f).run tokens = .ok (b, rest)) :
    ∃ a mid, p.run tokens = .ok (a, mid) ∧ (f a).run mid = .ok (b, rest) := by
  obtain ⟨⟨a, mid⟩, hfirst, hsecond⟩ := ok_of_bind h
  exact ⟨a, mid, hfirst, hsecond⟩

/-- A token of a lexeme that ends whatever comes before it. -/
def Stops (stop : Option Symbol) (t : Token) : Prop := ∃ c ∈ stop, t.lexeme = .symbol c

theorem not_stops_none : ¬Stops none t := fun ⟨_, hc, _⟩ => nomatch hc

theorem not_stops_of_symbol {c : Symbol} (ht : t.lexeme = .symbol c) (hc : c ∉ stop) :
    ¬Stops stop t := by
  rintro ⟨c', hc', ht'⟩
  obtain rfl : c = c' := by simpa using ht.symm.trans ht'
  exact hc hc'

theorem not_stops_of_ne (ht : ∀ c, t.lexeme ≠ .symbol c) : ¬Stops stop t :=
  fun ⟨c, _, hc⟩ => ht c hc

/-- Of some tokens a parser has taken `used` and made `a` of it, and so it does whatever follows, if
only the next token is the same or one that stops. -/
structure Takes (stop : Option Symbol) (s i o : Nat) (p : Parser α) (a : α)
    (used rest : List Token) : Prop where
  enough : s ≤ used.length
  balanced : Balanced i o used
  last : ∀ t ∈ used.getLast?, ¬Stops stop t
  again : ∀ u ∈ rest.head?, ∀ u' more, u' = u ∨ Stops stop u' →
    p.run (used ++ u' :: more) = .ok (a, u' :: more)

/-- Whenever the parser succeeds it looks no further than that. It takes `s` tokens at least, finds
`i` parentheses open and leaves `o` open. -/
def Nearsighted (stop : Option Symbol) (s i o : Nat) (p : Parser α) : Prop :=
  ∀ ⦃tokens a rest⦄, p.run tokens = .ok (a, rest) →
    ∃ used, tokens = used ++ rest ∧ Takes stop s i o p a used rest

/-- The same if `t` is the next token, which the parser takes. -/
def NearsightedAt (t : Token) (stop : Option Symbol) (i o : Nat) (p : Parser α) : Prop :=
  ∀ ⦃more a rest⦄, p.run (t :: more) = .ok (a, rest) →
    ∃ used, more = used ++ rest ∧ Takes stop 1 i o p a (t :: used) rest

theorem Takes.weaken {p : Parser α} {a : α} {used rest : List Token}
    (h : Takes stop s i o p a used rest) (hs : s' ≤ s) : Takes stop s' i o p a used rest :=
  { h with enough := Nat.le_trans hs h.enough }

/-- What is taken is taken again if the rest begins with the same token. -/
theorem Takes.same {p : Parser α} {a : α} {used used' rest : List Token}
    (h : Takes stop s i o p a used (used' ++ rest)) {u : Token} (hu : u ∈ used'.head?)
    (more : List Token) : p.run (used ++ u :: more) = .ok (a, u :: more) :=
  h.again u (by rw [List.head?_append, Option.mem_def.1 hu]; rfl) u more (.inl rfl)

/-- What the second of two parsers takes stands behind what the first takes, which sees the first
token of it. -/
theorem Takes.bind {stop' : Option Symbol} {p : Parser α} {f : α → Parser β} {a : α} {b : β}
    {used used' rest : List Token} (hp : Takes stop' s i j p a used (used' ++ rest))
    (hf : Takes stop s' j o (f a) b used' rest) (hstop : stop' = stop ∨ 1 ≤ s') :
    Takes stop (s + s') i o (p >>= f) b (used ++ used') rest where
  enough := by
    rw [List.length_append]
    exact Nat.add_le_add hp.enough hf.enough
  balanced := hp.balanced.append hf.balanced
  last t ht := by
    rcases used'.eq_nil_or_concat with rfl | ⟨init, last, rfl⟩
    · have henough := hf.enough
      obtain rfl := hstop.resolve_right (by simpa using henough)
      exact hp.last t (by simpa using ht)
    · exact hf.last t (by simpa using ht)
  again u hu u' more hu' := by
    have hfirst : p.run (used ++ (used' ++ u' :: more)) = .ok (a, used' ++ u' :: more) := by
      cases used' with
      | nil =>
        have henough := hf.enough
        obtain rfl := hstop.resolve_right (by simpa using henough)
        exact hp.again u hu u' more hu'
      | cons v used' => exact hp.same rfl _
    rw [List.append_assoc, run_bind_of hfirst]
    exact hf.again u hu u' more hu'

namespace Nearsighted

variable {p : Parser α} {f : α → Parser β}

theorem mono (h : Nearsighted stop s i o p) (hs : s' ≤ s) : Nearsighted stop s' i o p := by
  intro tokens a rest hrun
  obtain ⟨used, hused, htakes⟩ := h hrun
  exact ⟨used, hused, htakes.weaken hs⟩

theorem weak (h : Nearsighted stop s i o p) : Nearsighted stop 0 i o p := h.mono (Nat.zero_le s)

/-- Only the same next token is as good as the next token. -/
theorem strict (h : Nearsighted stop s i o p) : Nearsighted none s i o p := by
  intro tokens a rest hrun
  obtain ⟨used, hused, htakes⟩ := h hrun
  refine ⟨used, hused, htakes.enough, htakes.balanced, fun _ _ => not_stops_none, ?_⟩
  exact fun u hu u' more hu' => htakes.again u hu u' more (.inl (hu'.resolve_right not_stops_none))

theorem bind' {stop' : Option Symbol} (hp : Nearsighted stop' s i j p)
    (hf : ∀ a, Nearsighted stop s' j o (f a)) (hstop : stop' = stop ∨ 1 ≤ s') :
    Nearsighted stop (s + s') i o (p >>= f) := by
  intro tokens b rest hrun
  obtain ⟨a, mid, hfirst, hsecond⟩ := exists_of_run_bind hrun
  obtain ⟨used, rfl, hused⟩ := hp hfirst
  obtain ⟨used', rfl, hused'⟩ := hf a hsecond
  exact ⟨used ++ used', (List.append_assoc ..).symm, hused.bind hused' hstop⟩

theorem bind (hp : Nearsighted stop s i j p) (hf : ∀ a, Nearsighted stop 0 j o (f a)) :
    Nearsighted stop s i o (p >>= f) :=
  hp.bind' hf (.inl rfl)

/-- The first parser need not take anything. -/
theorem after (hp : Nearsighted stop 0 i j p) (hf : ∀ a, Nearsighted stop s j o (f a)) :
    Nearsighted stop s i o (p >>= f) := by
  have h := hp.bind' hf (.inl rfl)
  rwa [Nat.zero_add] at h

/-- If the second parser takes something, the first is not followed by what stops. -/
theorem enclosed (hp : Nearsighted none s i j p) (hf : ∀ a, Nearsighted stop 1 j o (f a)) :
    Nearsighted stop 1 i o (p >>= f) :=
  (hp.bind' hf (.inr (Nat.le_refl 1))).mono (Nat.le_add_left 1 s)

theorem pure (a : α) : Nearsighted stop 0 i i (Pure.pure a : Parser α) := by
  intro tokens b rest hrun
  obtain ⟨rfl, rfl⟩ := Prod.mk.inj (Except.ok.inj hrun)
  exact ⟨[], rfl, Nat.le_refl 0, .nil i, nofun, fun _ _ _ _ _ => rfl⟩

theorem map (h : Nearsighted stop s i o p) (g : α → β) : Nearsighted stop s i o (g <$> p) := by
  rw [map_eq_pure_bind]
  exact h.bind fun a => pure (g a)

/-- One of two parsers, and then what goes on with the result. -/
theorem choose {c : Prop} [Decidable c] {p' : Parser α} (hp : Nearsighted stop 0 i j p)
    (hp' : Nearsighted stop 0 i j p') (hf : ∀ a, Nearsighted stop s j o (f a)) :
    Nearsighted stop s i o (if c then p >>= f else p' >>= f) := by
  split
  · exact hp.after hf
  · exact hp'.after hf

theorem of_error (h : ∀ tokens, ∃ e, p.run tokens = .error e) : Nearsighted stop s i o p := by
  intro tokens a rest hrun
  obtain ⟨e, he⟩ := h tokens
  cases he.symm.trans hrun

theorem fail (e : ParseError) : Nearsighted stop s i o (Grammar.fail e : Parser α) :=
  of_error fun _ => ⟨e, rfl⟩

end Nearsighted

namespace NearsightedAt

variable {p : Parser α} {f : α → Parser β}

theorem of_nearsighted (h : Nearsighted stop 1 i o p) : NearsightedAt t stop i o p := by
  intro more a rest hrun
  obtain ⟨used, hused, htakes⟩ := h hrun
  cases used with
  | nil => exact absurd htakes.enough (by simp)
  | cons u used =>
    obtain ⟨rfl, rfl⟩ := List.cons.inj hused
    exact ⟨used, rfl, htakes⟩

theorem strict (h : NearsightedAt t stop i o p) : NearsightedAt t none i o p := by
  intro more a rest hrun
  obtain ⟨used, hused, htakes⟩ := h hrun
  refine ⟨used, hused, htakes.enough, htakes.balanced, fun _ _ => not_stops_none, ?_⟩
  exact fun u hu u' more hu' => htakes.again u hu u' more (.inl (hu'.resolve_right not_stops_none))

theorem fail (e : ParseError) : NearsightedAt t stop i o (Grammar.fail e : Parser α) :=
  of_nearsighted (.fail e)

theorem bind' {stop' : Option Symbol} (hp : NearsightedAt t stop' i j p)
    (hf : ∀ a, Nearsighted stop s j o (f a)) (hstop : stop' = stop ∨ 1 ≤ s) :
    NearsightedAt t stop i o (p >>= f) := by
  intro more b rest hrun
  obtain ⟨a, mid, hfirst, hsecond⟩ := exists_of_run_bind hrun
  obtain ⟨used, rfl, hused⟩ := hp hfirst
  obtain ⟨used', rfl, hused'⟩ := hf a hsecond
  refine ⟨used ++ used', (List.append_assoc ..).symm, ?_⟩
  exact (hused.bind hused' hstop).weaken (Nat.le_add_right 1 s)

theorem bind (hp : NearsightedAt t stop i j p) (hf : ∀ a, Nearsighted stop 0 j o (f a)) :
    NearsightedAt t stop i o (p >>= f) :=
  hp.bind' hf (.inl rfl)

/-- The next token is taken. -/
theorem taken (ht : t.lexeme ≠ .finish) (hstop : ¬Stops stop t) (hbalanced : Balanced i o [t]) :
    NearsightedAt t stop i o Grammar.advance := by
  intro more a rest hrun
  obtain ⟨-, rfl⟩ := Prod.mk.inj (Except.ok.inj ((advance_run ht).symm.trans hrun))
  refine ⟨[], rfl, Nat.le_refl 1, hbalanced, ?_, fun _ _ u' more _ => advance_run ht⟩
  rintro _ ⟨⟩
  exact hstop

theorem advance {f : Unit → Parser β} (ht : t.lexeme ≠ .finish)
    (hstop : ¬Stops stop t) (hbalanced : Balanced i j [t])
    (hf : Nearsighted stop 0 j o (f ())) : NearsightedAt t stop i o (Grammar.advance >>= f) :=
  (taken ht hstop hbalanced).bind' (fun _ => hf) (.inl rfl)

/-- The next token is of a lexeme that neither stops nor opens or closes a parenthesis. -/
theorem advance_plain {f : Unit → Parser β} {l : Lexeme} (ht : t.lexeme = l)
    (hl : l ≠ .symbol .openParen ∧ l ≠ .symbol .closeParen ∧ l ≠ .finish)
    (hstop : ∀ c ∈ stop, l ≠ .symbol c) (hf : Nearsighted stop 0 i o (f ())) :
    NearsightedAt t stop i o (Grammar.advance >>= f) := by
  refine .advance (ht ▸ hl.2.2) ?_ (.of_eq ht hl i) hf
  rintro ⟨c, hc, h⟩
  exact hstop c hc (ht.symm.trans h)

end NearsightedAt

/-! Looking at the next token -/

theorem peek_run_cons (more : List Token) (f : Token → Parser β) :
    (peek >>= f).run (t :: more) = (f t).run (t :: more) := rfl

theorem exists_of_run_peek {f : Token → Parser β} {tokens rest : List Token} {b : β}
    (h : (peek >>= f).run tokens = .ok (b, rest)) :
    ∃ t more, tokens = t :: more ∧ (f t).run (t :: more) = .ok (b, rest) := by
  cases tokens with
  | nil => cases h
  | cons t more => exact ⟨t, more, rfl, h⟩

theorem exists_error_of_unexpected (expected : String) (tokens : List Token) :
    ∃ e, (unexpected expected : Parser α).run tokens = .error e := by
  cases tokens with
  | nil => exact ⟨_, rfl⟩
  | cons t more =>
    rw [unexpected, peek_run_cons]
    split <;> exact ⟨_, rfl⟩

theorem exists_of_run_expect {c : Symbol} {expected : String} {tokens rest : List Token} {x : Unit}
    (h : (expect c expected).run tokens = .ok (x, rest)) :
    ∃ t, tokens = t :: rest ∧ t.lexeme = .symbol c := by
  unfold expect at h
  rw [accept_eq, Grammar.takeIf_bind] at h
  obtain ⟨t, more, rfl, hrest⟩ := exists_of_run_peek h
  cases hkind : Lexeme.isSymbol c t.lexeme with
  | true =>
    have hsymbol := isSymbol_iff'.1 hkind
    rw [hkind, if_pos rfl, run_bind_of (advance_run (by simp [hsymbol]))] at hrest
    obtain ⟨-, rfl⟩ := Prod.mk.inj (Except.ok.inj hrest)
    exact ⟨t, rfl, hsymbol⟩
  | false =>
    obtain ⟨e, he⟩ := exists_error_of_unexpected (α := Unit) expected (t :: more)
    rw [hkind, if_neg Bool.false_ne_true] at hrest
    cases he.symm.trans hrest

/-- A look at the token after the next one that does not matter. -/
theorem NearsightedAt.peekSecond_bind {p : Parser β} (hp : NearsightedAt t stop i o p) :
    NearsightedAt t stop i o (peekSecond >>= fun _ => p) := by
  have hrun (more : List Token) : (peekSecond >>= fun _ => p).run (t :: more) = p.run (t :: more) :=
    run_bind_of peekSecond_run
  intro more a rest h
  obtain ⟨used, hused, htakes⟩ := hp ((hrun more).symm.trans h)
  exact ⟨used, hused, { htakes with
    again := fun u hu u' more' hu' => (hrun _).trans (htakes.again u hu u' more' hu') }⟩

namespace Nearsighted

/-- Some tokens are taken; on the others, and on those that stop, the parser is `g`. -/
theorem peek_or {f : Token → Parser β} {g : Parser β} (hs : s ≤ 1)
    (hf : ∀ t, f t = g ∨ NearsightedAt t stop i o (f t)) (hstop : ∀ t, Stops stop t → f t = g)
    (hg : Nearsighted stop s i o g) : Nearsighted stop s i o (Grammar.peek >>= f) := by
  intro tokens b rest hrun
  obtain ⟨t, more, rfl, ht⟩ := exists_of_run_peek hrun
  obtain heq | hat := hf t
  · rw [heq] at ht
    obtain ⟨used, hused, htakes⟩ := hg ht
    refine ⟨used, hused, htakes.enough, htakes.balanced, htakes.last, fun u hu u' more' hu' => ?_⟩
    rw [← htakes.again u hu u' more' hu']
    cases used with
    | nil =>
      obtain rfl : t :: more = rest := hused
      obtain rfl : t = u := by simpa using hu
      have hsame : f u' = g := by
        obtain rfl | hu' := hu'
        · exact heq
        · exact hstop u' hu'
      rw [List.nil_append, peek_run_cons, hsame]
    | cons v used =>
      obtain ⟨rfl, -⟩ := List.cons.inj hused
      rw [List.cons_append, peek_run_cons, heq]
  · obtain ⟨used, rfl, htakes⟩ := hat ht
    exact ⟨t :: used, rfl, { htakes.weaken hs with again := htakes.again }⟩

/-- The next token is taken. -/
theorem peek {f : Token → Parser β} (hf : ∀ t, NearsightedAt t stop i o (f t)) :
    Nearsighted stop 1 i o (Grammar.peek >>= f) := by
  intro tokens b rest hrun
  obtain ⟨t, more, rfl, ht⟩ := exists_of_run_peek hrun
  obtain ⟨used, rfl, htakes⟩ := hf t ht
  exact ⟨t :: used, rfl, { htakes with again := htakes.again }⟩

/-- A look at the next token, which is then taken. -/
theorem look_bind {g : Token → α} {f : α → Parser β} (hf : ∀ a, Nearsighted stop 1 i o (f a)) :
    Nearsighted stop 1 i o ((do return g (← Grammar.peek)) >>= f) := by
  rw [bind_assoc]
  exact .peek fun t => .of_nearsighted (by simpa using hf (g t))

/-- A look at the next token, which stays the same. -/
theorem look (g : Token → α) : Nearsighted none 0 i i (do return g (← Grammar.peek)) := by
  intro tokens b rest hrun
  obtain ⟨t, more, rfl, ht⟩ := exists_of_run_peek hrun
  obtain ⟨rfl, rfl⟩ := Prod.mk.inj (Except.ok.inj ht)
  refine ⟨[], rfl, Nat.le_refl 0, .nil i, nofun, fun u hu u' more' hu' => ?_⟩
  obtain rfl := hu'.resolve_right not_stops_none
  obtain rfl : t = u' := by simpa using hu
  rfl

theorem unexpected (expected : String) :
    Nearsighted stop s i o (Grammar.unexpected expected : Parser α) :=
  of_error (exists_error_of_unexpected expected)

theorem takeIf_bind {kind : Lexeme → Bool} {f : Bool → Parser β} (hs : s ≤ 1)
    (hfinish : kind .finish = false) (hstop : ∀ c ∈ stop, kind (.symbol c) = false)
    (hbalanced : ∀ t : Token, kind t.lexeme = true → Balanced i j [t])
    (htrue : Nearsighted stop 0 j o (f true)) (hfalse : Nearsighted stop s i o (f false)) :
    Nearsighted stop s i o (takeIf kind >>= f) := by
  have hstops {t : Token} (ht : Stops stop t) : kind t.lexeme = false := by
    obtain ⟨c, hc, ht⟩ := ht
    rw [ht, hstop c hc]
  rw [Grammar.takeIf_bind]
  refine .peek_or hs (fun t => ?_) (fun t ht => by rw [hstops ht, if_neg Bool.false_ne_true]) hfalse
  cases hkind : kind t.lexeme with
  | false => exact .inl (if_neg Bool.false_ne_true)
  | true =>
    rw [if_pos rfl]
    refine .inr (.advance ?_ (fun ht => ?_) (hbalanced t hkind) htrue)
    · rintro h
      simp [h, hfinish] at hkind
    · rw [hstops ht] at hkind
      cases hkind

theorem accept_bind {c : Symbol} {f : Bool → Parser β} (hs : s ≤ 1) (hc : Shift c i j)
    (hstop : c ∉ stop) (htrue : Nearsighted stop 0 j o (f true))
    (hfalse : Nearsighted stop s i o (f false)) :
    Nearsighted stop s i o (Grammar.accept c >>= f) := by
  rw [accept_eq]
  refine takeIf_bind hs rfl (fun d hd => ?_) (fun t ht => hc.balanced (isSymbol_iff'.1 ht)) htrue
    hfalse
  exact Bool.eq_false_iff.2 fun h => hstop (by cases isSymbol_iff'.1 h; exact hd)

theorem acceptWord_bind {w : Keyword} {f : Bool → Parser β} (hs : s ≤ 1)
    (htrue : Nearsighted stop 0 i o (f true)) (hfalse : Nearsighted stop s i o (f false)) :
    Nearsighted stop s i o (Grammar.acceptWord w >>= f) := by
  rw [acceptWord_eq]
  exact takeIf_bind hs rfl (fun _ _ => rfl)
    (fun t ht => balanced_of_keyword (isKeyword_iff.1 ht) i) htrue hfalse

theorem accept {c : Symbol} (hc : Shift c i i) (hstop : c ∉ stop) :
    Nearsighted stop 0 i i (Grammar.accept c) := by
  have h : Nearsighted stop 0 i i (Grammar.accept c >>= fun b => Pure.pure b) :=
    accept_bind (Nat.zero_le 1) hc hstop (.pure true) (.pure false)
  rwa [bind_pure] at h

theorem acceptWord (w : Keyword) : Nearsighted stop 0 i i (Grammar.acceptWord w) := by
  have h : Nearsighted stop 0 i i (Grammar.acceptWord w >>= fun b => Pure.pure b) :=
    acceptWord_bind (Nat.zero_le 1) (.pure true) (.pure false)
  rwa [bind_pure] at h

theorem expect {c : Symbol} (hc : Shift c i o) (hstop : c ∉ stop) (expected : String) :
    Nearsighted stop 1 i o (Grammar.expect c expected) := by
  unfold Grammar.expect
  exact accept_bind (Nat.le_refl 1) hc hstop (.pure ()) (.unexpected expected)

theorem expectWord (w : Keyword) (expected : String) :
    Nearsighted stop 1 i i (Grammar.expectWord w expected) := by
  unfold Grammar.expectWord
  exact acceptWord_bind (Nat.le_refl 1) (.pure ()) (.unexpected expected)

theorem optionalSemicolon : Nearsighted none 0 i i Grammar.optionalSemicolon :=
  (accept (.plain (by decide)) (Option.not_mem_none _)).map _

theorem name : Nearsighted stop 1 i i Grammar.name := by
  refine .peek fun t => ?_
  split
  next n hn => exact .advance_plain hn (by simp) (by simp) (.pure n)
  next => exact .of_nearsighted (.unexpected _)

theorem propertyName : Nearsighted stop 1 i i Grammar.propertyName := by
  refine .peek fun t => ?_
  split
  next n hn => exact .advance_plain hn (by simp) (by simp) (.pure n)
  next n hn => exact .advance_plain hn (by simp) (by simp) (.pure n)
  next w hw => exact .advance_plain hw (by simp) (by simp) (.pure _)
  next => exact .of_nearsighted (.unexpected _)

/-! Lists of items -/

theorem items {more : Parser Bool} {item : Parser (α × Bool)} (hmore : Nearsighted none 0 i i more)
    (hitem : Nearsighted none 0 i i item) (n : Nat) :
    Nearsighted none 0 i i (Grammar.items more item n) := by
  induction n with
  | zero => exact .pure []
  | succ n ih =>
    refine hmore.after fun again => ?_
    split
    · refine hitem.after fun (a, again) => ?_
      dsimp only
      split
      · exact ih.bind fun _ => .pure _
      · exact .pure _
    · exact .pure _

variable {d : Deeper} {item : Parser α}

/-- An item and the comma that may follow. -/
theorem commaed (hitem : Nearsighted none 0 i i item) :
    Nearsighted none 0 i i (do return (← item, ← Grammar.accept .comma)) :=
  hitem.bind fun _ => (accept (.plain (by decide)) (Option.not_mem_none _)).bind fun _ => .pure _

theorem commaItems (close : Symbol) (hitem : Nearsighted none 0 i i item) :
    Nearsighted none 0 i i (Grammar.commaItems d close item) :=
  .items ((look _).bind fun _ => .pure _) hitem.commaed d.bound

theorem itemsUntil (close : Symbol) (hitem : Nearsighted none 0 i i item) :
    Nearsighted none 0 i i (Grammar.itemsUntil d close item) :=
  .items ((look _).bind fun _ => (look _).bind fun _ => .pure _) (hitem.bind fun _ => .pure _)
    d.bound

theorem commaSeparated (hitem : Nearsighted none 0 i i item) :
    Nearsighted none 0 i i (Grammar.commaSeparated d item) :=
  .items (.pure true) hitem.commaed d.bound

end Nearsighted

/-- The items of a list in parentheses, before the closing one. -/
def listBefore (d : Deeper) (item : Parser α) : Parser (List α) := do
  if ← isNext .closeParen then return []
  commaSeparated d item

/-- What stands in a pair of parentheses whose opening one is taken. -/
def closing (expected : String) (p : Parser α) : Parser α := do
  let a ← p
  expect .closeParen expected
  return a

theorem closedList_eq (d : Deeper) (expected : String) (item : Parser α) :
    closedList d expected item = closing expected (listBefore d item) := by
  simp only [closedList, closing, listBefore, bind_assoc]
  refine congrArg (isNext .closeParen >>= ·) (funext fun closed => ?_)
  cases closed <;> simp

theorem listBefore_nearsighted {d : Deeper} {item : Parser α}
    (hitem : Nearsighted none 0 i i item) : Nearsighted none 0 i i (listBefore d item) := by
  refine (Nearsighted.look _).after fun closed => ?_
  split
  · exact .pure _
  · exact .commaSeparated hitem

theorem closing_nearsighted {p : Parser α} (hp : Nearsighted none 0 (i + 1) (i + 1) p)
    (hstop : .closeParen ∉ stop) (expected : String) :
    Nearsighted stop 1 (i + 1) i (closing expected p) :=
  hp.enclosed fun _ => (Nearsighted.expect .closes hstop _).bind fun _ => .pure _

/-- What may end a statement. -/
abbrev terminator : Option Symbol := some .semicolon

theorem lexeme_of_stops {t : Token} (ht : Stops terminator t) : t.lexeme = .symbol .semicolon := by
  obtain ⟨c, hc, ht⟩ := ht
  obtain rfl : Symbol.semicolon = c := by simpa using hc
  exact ht

/-- The tokens that may follow instead of the next one: a statement that goes on has to be told from
one that ends. -/
@[reducible] def Goal.stops : Goal → Option Symbol
  | .statement => none
  | .expression | .unary | .bindingPattern | .matchPattern | .typeName => terminator

/-- The parsers one level deeper are nearsighted. -/
def NearsightedBelow (d : Deeper) : Prop :=
  ∀ goal i, Nearsighted goal.stops 1 i i (d.parse goal)

end ScriptEngine.Grammar
