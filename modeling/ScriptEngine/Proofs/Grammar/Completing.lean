import ScriptEngine.Proofs.Grammar.Completion

/-!
# The cursor on what can be completed

What the cursor takes, and lists of what it takes, are completed word by word. A decision of a
parser is followed at the first word of the completion.
-/
namespace ScriptEngine.Grammar
open Text (Position)
open Filter (atTop Tendsto)
open Lexer (Word)

variable {α β : Type}

/-! The cursor -/

theorem isPlain_symbol (c : Symbol) : IsPlain (.symbol c) := ⟨nofun, nofun⟩

theorem isPlain_keyword (w : Keyword) : IsPlain (.keyword w) := ⟨nofun, nofun⟩

theorem isPlain_of_isSymbol {c : Symbol} {l : Lexeme} (h : Lexeme.isSymbol c l = true) :
    IsPlain l :=
  isSymbol_iff'.1 h ▸ isPlain_symbol c

theorem isPlain_of_isKeyword {w : Keyword} {l : Lexeme} (h : Lexeme.isKeyword w l = true) :
    IsPlain l :=
  isKeyword_iff.1 h ▸ isPlain_keyword w

section

variable {P : Nat → Parser α} {f : Token → Nat → Parser β} {s k : Nat}
  {stops : Lexeme → Prop} {fill : List Word} {t : Token} {front left : List Token}

theorem sound_singleton (ht : IsPlain t.lexeme) : Sound [t] :=
  List.forall_mem_singleton.2 fun ⟨chunks, _, _, _, _, _, hchunks, _⟩ => ht.2 chunks hchunks

theorem LeadsTo.advance (ht : t.lexeme ≠ .finish) :
    LeadsTo (fun m => Grammar.advance >>= fun _ => P m) [t] left P :=
  fun _ _ => .of_forall fun _ => run_bind_of (advance_run ht)

/-- The next token is seen. -/
theorem LeadsTo.peek : LeadsTo (fun m => Grammar.peek >>= fun t => f t m) [] (t :: left) (f t) := by
  intro tail htail
  obtain ⟨more, rfl⟩ := List.head?_eq_some_iff.1 (htail (List.cons_ne_nil t left))
  exact .of_forall fun _ => rfl

theorem Completed.advance (h : Completed stops P [] fill) (ht : t.lexeme ≠ .finish) :
    Completed stops (fun m => Grammar.advance >>= fun _ => P m) [t] fill :=
  h.extend (.advance ht)

/-- The first word of a completion is seen. -/
theorem Completed.peek {w : Word}
    (h : ∀ t : Token, t.lexeme = w.lexeme → Completed stops (f t) [t] fill) :
    Completed stops (fun m => Grammar.peek >>= fun t => f t m) [] (w :: fill) := by
  intro back t more hback ht
  obtain ⟨u, back, rfl, hu, hback⟩ := List.map_eq_cons_iff.1 hback
  exact h u hu back t more hback ht

/-- Nothing has to be completed, and the token behind is seen. -/
theorem Completed.peek_nil
    (h : ∀ t : Token, stops t.lexeme →
      ∃ a, ∀ more, Settles (f t) (t :: more) (.ok (a, t :: more))) :
    Completed stops (fun m => Grammar.peek >>= fun t => f t m) [] [] := by
  intro back t more hback ht
  obtain rfl := List.map_eq_nil_iff.1 hback
  obtain ⟨a, ha⟩ := h t ht
  exact ⟨a, ha more⟩

/-- What is done at the first token of a completion. -/
theorem Completed.peek_of {stops' : Lexeme → Prop} {Q : Nat → Parser β}
    (h : Completed stops Q [] fill) (hfollows : Follows stops fill stops')
    (hsame : ∀ t : Token, stops' t.lexeme → f t = Q) :
    Completed stops (fun m => Grammar.peek >>= fun t => f t m) [] fill := by
  intro back t more hback ht
  obtain ⟨a, ha⟩ := h back t more hback ht
  obtain ⟨u, rest, hrest, hu⟩ := hfollows.next hback ht more
  rw [List.nil_append, hrest] at ha ⊢
  exact ⟨a, .of_eq (.of_forall fun m => (run_bind_of peek_run).trans (by rw [hsame u hu])) ha⟩

/-- A completion that does not begin with a token of the kind. -/
theorem Completed.takeIf_bind {F : Bool → Nat → Parser β} {kind : Lexeme → Bool}
    (h : Completed stops (F false) [] fill) (hfollows : Follows stops fill (kind · = false)) :
    Completed stops (fun m => takeIf kind >>= fun given => F given m) [] fill := by
  simp only [Grammar.takeIf_bind]
  exact .peek_of h hfollows fun t ht => funext fun m => if_neg (by simp [ht])

theorem Completed.accept_bind {F : Bool → Nat → Parser β} {c : Symbol}
    (h : Completed stops (F false) [] fill) (hfollows : Follows stops fill (· ≠ .symbol c)) :
    Completed stops (fun m => accept c >>= fun given => F given m) [] fill := by
  simp only [accept_eq]
  exact h.takeIf_bind fun x hx => Bool.eq_false_iff.2 fun h => hfollows x hx (isSymbol_iff'.1 h)

theorem Alone.unexpected (expected : String) (finish : Token) :
    Alone s (fun _ => (Grammar.unexpected expected : Parser α)) finish := by
  obtain ⟨e, he⟩ := exists_error_of_unexpected (α := α) expected [finish]
  exact .inr ⟨e, .of_run fun _ => he⟩

end

namespace CompletesAt

variable {P : Nat → Parser α} {f : Token → Nat → Parser β} {s s' k k' : Nat}
  {stops stops' : Lexeme → Prop} {fill : List Word} {t : Token} {front : List Token}

theorem of_completes (h : Completes s k stops fill P) : CompletesAt front s k stops P :=
  fun _ _ hcut hlength => h.prospect hcut hlength

theorem mono (h : CompletesAt front s k stops P) (hs : s' ≤ s) (hk : k' ≤ k) :
    CompletesAt front s' k' stops P :=
  fun _ _ hcut hlength => (h hcut (Nat.lt_of_lt_of_le hlength hk)).mono hs fun _ => id

theorem congr {Q : Nat → Parser α} (h : CompletesAt front s k stops P)
    (heq : ∀ᶠ m in atTop, Q m = P m) : CompletesAt front s k stops Q :=
  fun _ _ hcut hlength => (h hcut hlength).of_leadsTo fun _ _ =>
    heq.mono fun m hm => by rw [hm, List.nil_append]

/-- The next token is taken. -/
theorem advance' (ht : t.lexeme ≠ .finish) (hsound : Sound [t])
    (h : CompletesAt front s k stops P) :
    CompletesAt (t :: front) (s + 1) (k + 1) stops fun m => Grammar.advance >>= fun _ => P m := by
  intro tokens finish hcut hlength
  have hcut' : Cut ([t] ++ (front ++ tokens)) finish [finish] := hcut
  rw [Nat.add_comm s 1]
  exact (h hcut'.suffix (Nat.lt_of_succ_lt_succ hlength)).extend (Nat.le_refl 1) hsound
    (.advance ht)

theorem advance (ht : IsPlain t.lexeme) (h : Completes s k stops fill P) :
    CompletesAt (t :: front) (s + 1) (k + 1) stops fun m => Grammar.advance >>= fun _ => P m :=
  advance' ht.1 (sound_singleton ht) (of_completes h)

/-- Two tokens are taken. -/
theorem advance_twice {u : Token} (ht : IsPlain t.lexeme) (hu : IsPlain u.lexeme)
    (h : Completes s k stops fill P) : CompletesAt [t, u] (s + 1 + 1) (k + 1 + 1) stops
      fun m => Grammar.advance >>= fun _ => Grammar.advance >>= fun _ => P m :=
  advance' ht.1 (sound_singleton ht) (advance hu h)

theorem unexpected (ht : Lexeme.isFinish t.lexeme = false) (expected : String) :
    CompletesAt (t :: front) s k stops fun _ => (Grammar.unexpected expected : Parser α) := by
  intro tokens finish _ _
  refine .refused (e := .unexpectedToken expected t.lexeme t.position) (.of_run fun _ => ?_) nofun
  rw [Grammar.unexpected, List.cons_append, List.cons_append, run_bind_of peek_run, ht]
  rfl

/-- An error at the next token. -/
theorem failHere (form : InvalidForm) :
    CompletesAt (t :: front) s k stops
      fun _ => (do Grammar.fail (.invalid form (← Grammar.here)) : Parser α) :=
  fun _ _ _ _ => .refused (e := .invalid form t.position) (.of_run fun _ => rfl) nofun

/-- A look at the token after the next one, which is not the last to be taken. Where there is none,
that has to be considered. -/
theorem peekSecond {f : Option Lexeme → Nat → Parser β}
    (h : ∀ u, CompletesAt [t, u] (s + 1) k stops (f (some u.lexeme)))
    (hlast : ∀ finish : Token, Lexeme.isFinish finish.lexeme = true → Prospect (s + 1) stops
      (fun m => Grammar.peekSecond >>= fun second => f second m) [t] finish) :
    CompletesAt [t] (s + 1) k stops fun m => Grammar.peekSecond >>= fun second => f second m := by
  intro tokens finish hcut hlength
  cases tokens with
  | nil => exact hlast finish hcut.ends
  | cons u tokens => exact (h u hcut hlength).of_second fun _ _ => rfl

/-- The same where the parsers need more than one token. -/
theorem peekSecond_word {f : Option Lexeme → Nat → Parser β} {w : Word}
    (h : ∀ u, CompletesAt [t, u] (s + 1) k stops (f (some u.lexeme)))
    (hfill : ∀ u : Token, u.lexeme = w.lexeme → Completed stops (f (some u.lexeme)) [t, u] fill)
    (halone : ∀ finish : Token, Lexeme.isFinish finish.lexeme = true →
      ∃ e, Settles (f (some finish.lexeme)) [t, finish] (.error e)) :
    CompletesAt [t] (s + 1) k stops fun m => Grammar.peekSecond >>= fun second => f second m := by
  refine .peekSecond h fun finish hfinish => ?_
  obtain ⟨e, he⟩ := halone finish hfinish
  refine .short he (show Completed stops _ [t] (w :: fill) from fun back v more hback hv => ?_)
  obtain ⟨u, back, rfl, hu, hback⟩ := List.map_eq_cons_iff.1 hback
  exact hfill u hu back v more hback hv

/-- A look at the token after the next one that does not matter. -/
theorem peekSecond_any {f : Option Lexeme → Nat → Parser β} (hsame : ∀ x, f x = f none)
    (h : CompletesAt [t] s k stops (f none)) :
    CompletesAt [t] s k stops fun m => Grammar.peekSecond >>= fun second => f second m := by
  obtain ⟨g, rfl⟩ : ∃ g, f = fun _ => g := ⟨f none, funext hsame⟩
  exact h

end CompletesAt

namespace Completes

variable {P : Nat → Parser α} {F : Bool → Nat → Parser β} {f : Token → Nat → Parser β}
  {s s' k k' : Nat} {stops : Lexeme → Prop} {fill fill' : List Word} {t : Token}

/-- A parser that starts by looking at the next token. -/
theorem peek (hstarts : Completed stops (fun m => Grammar.peek >>= fun t => f t m) [] fill)
    (halone : ∀ t : Token, Lexeme.isFinish t.lexeme = true → Alone s (f t) t)
    (hnext : ∀ t : Token, Lexeme.isFinish t.lexeme = false → CompletesAt [t] s k stops (f t)) :
    Completes s k stops fill fun m => Grammar.peek >>= fun t => f t m where
  starts := hstarts
  alone := halone
  goes tokens finish hne hcut hlength := by
    obtain ⟨t, tokens, rfl⟩ := List.exists_cons_of_ne_nil hne
    exact Prospect.of_leadsTo (hnext t (hcut.plain t List.mem_cons_self) hcut hlength) .peek

theorem look (g : Token → α) : Completes 0 k stops [] fun _ => do return g (← Grammar.peek) :=
  .peek (.peek_nil fun t _ => ⟨g t, fun _ => .of_run fun _ => rfl⟩)
    (fun t _ => .inl ⟨rfl, g t, .of_run fun _ => rfl⟩) fun t _ => .of_completes (.pure (g t))

theorem here : Completes 0 k stops [] fun _ => Grammar.here := look _

/-- Whether a token of a kind is taken decides how it goes on; a completion begins without one. -/
theorem takeIf_bind {kind : Lexeme → Bool}
    (hkind : ∀ l, kind l = true → IsPlain l) (htrue : Completes s' k stops fill' (F true))
    (hfalse : Completes s k' stops fill (F false)) (hs : s ≤ s' + 1) (hk : k' ≤ k + 1)
    (hfollows : Follows stops fill (kind · = false)) :
    Completes s k' stops fill fun m => takeIf kind >>= fun given => F given m := by
  simp only [Grammar.takeIf_bind]
  refine .peek ?_ (fun t ht => ?_) fun t ht => ?_
  · exact hfalse.starts.peek_of hfollows fun t ht => funext fun m => if_neg (by simp [ht])
  · have hnone : kind t.lexeme = false :=
      Bool.eq_false_iff.2 fun h => (hkind _ h).1 (isFinish_iff.1 ht)
    simp only [hnone, Bool.false_eq_true, if_false]
    exact hfalse.alone t ht
  · by_cases h : kind t.lexeme
    · simp only [h, if_true]
      exact (CompletesAt.advance (hkind _ h) htrue).mono hs hk
    · simp only [h]
      exact .of_completes hfalse

/-- The same if a completion begins with a token of the kind. -/
theorem takeIf_bind_word {kind : Lexeme → Bool} {w : Word} (hw : kind w.lexeme = true)
    (hkind : ∀ l, kind l = true → IsPlain l) (htrue : Completes s' k stops fill (F true))
    (halone : ∀ t : Token, Lexeme.isFinish t.lexeme = true → Alone s (F false) t)
    (hfalse : ∀ t : Token, Lexeme.isFinish t.lexeme = false →
      CompletesAt [t] s k' stops (F false)) (hs : s ≤ s' + 1) (hk : k' ≤ k + 1) :
    Completes s k' stops (w :: fill) fun m => takeIf kind >>= fun given => F given m := by
  simp only [Grammar.takeIf_bind]
  refine .peek (.peek fun t ht => ?_) (fun t ht => ?_) fun t ht => ?_
  · rw [← ht] at hw
    simp only [hw, if_true]
    exact htrue.starts.advance (hkind _ hw).1
  · have hnone : kind t.lexeme = false :=
      Bool.eq_false_iff.2 fun h => (hkind _ h).1 (isFinish_iff.1 ht)
    simp only [hnone, Bool.false_eq_true, if_false]
    exact halone t ht
  · by_cases h : kind t.lexeme
    · simp only [h, if_true]
      exact (CompletesAt.advance (hkind _ h) htrue).mono hs hk
    · simp only [h]
      exact hfalse t ht

theorem accept_bind {c : Symbol} (htrue : Completes s' k stops fill' (F true))
    (hfalse : Completes s k stops fill (F false)) (hfollows : Follows stops fill (· ≠ .symbol c))
    (hs : s ≤ 1) :
    Completes s k stops fill fun m => Grammar.accept c >>= fun given => F given m := by
  simp only [accept_eq]
  refine takeIf_bind (fun _ => isPlain_of_isSymbol) htrue hfalse (by omega) (Nat.le_succ k)
    fun x hx => ?_
  exact Bool.eq_false_iff.2 fun h => hfollows x hx (isSymbol_iff'.1 h)

/-- After the symbol fewer tokens are left. -/
theorem accept_andThen {c : Symbol} (htrue : Completes s' k stops fill' (F true))
    (hfalse : Completes s (k + 1) stops fill (F false))
    (hfollows : Follows stops fill (· ≠ .symbol c)) (hs : s ≤ 1) :
    Completes s (k + 1) stops fill fun m => Grammar.accept c >>= fun given => F given m := by
  simp only [accept_eq]
  refine takeIf_bind (fun _ => isPlain_of_isSymbol) htrue hfalse (by omega) (Nat.le_refl _)
    fun x hx => ?_
  exact Bool.eq_false_iff.2 fun h => hfollows x hx (isSymbol_iff'.1 h)

theorem acceptWord_bind {w : Keyword} (htrue : Completes s' k stops fill' (F true))
    (hfalse : Completes s k stops fill (F false)) (hfollows : Follows stops fill (· ≠ .keyword w))
    (hs : s ≤ 1) :
    Completes s k stops fill fun m => Grammar.acceptWord w >>= fun given => F given m := by
  simp only [acceptWord_eq]
  refine takeIf_bind (fun _ => isPlain_of_isKeyword) htrue hfalse (by omega) (Nat.le_succ k)
    fun x hx => ?_
  exact Bool.eq_false_iff.2 fun h => hfollows x hx (isKeyword_iff.1 h)

theorem accept (c : Symbol) : Completes 0 k (· ≠ .symbol c) [] fun _ => Grammar.accept c := by
  have h : Completes 0 k (· ≠ .symbol c) [] fun _ => Grammar.accept c >>= fun b => Pure.pure b :=
    accept_bind (pure true) (pure false) .same (Nat.zero_le 1)
  simpa only [bind_pure] using h

theorem acceptWord (w : Keyword) :
    Completes 0 k (· ≠ .keyword w) [] fun _ => Grammar.acceptWord w := by
  have h : Completes 0 k (· ≠ .keyword w) []
      fun _ => Grammar.acceptWord w >>= fun b => Pure.pure b :=
    acceptWord_bind (pure true) (pure false) .same (Nat.zero_le 1)
  simpa only [bind_pure] using h

/-- The same if a completion begins with the symbol. -/
theorem accept_bind_word {c : Symbol} (htrue : Completes s' k stops fill (F true))
    (halone : ∀ t : Token, Lexeme.isFinish t.lexeme = true → Alone s (F false) t)
    (hfalse : ∀ t : Token, Lexeme.isFinish t.lexeme = false →
      CompletesAt [t] s k stops (F false)) (hs : s ≤ 1) :
    Completes s k stops (.symbol c :: fill)
      fun m => Grammar.accept c >>= fun given => F given m := by
  simp only [accept_eq]
  exact takeIf_bind_word (isSymbol_iff'.2 rfl) (fun _ => isPlain_of_isSymbol) htrue halone hfalse
    (by omega) (Nat.le_succ k)

theorem expect (c : Symbol) (expected : String) :
    Completes 1 k stops [.symbol c] fun _ => Grammar.expect c expected := by
  unfold Grammar.expect
  exact accept_bind_word (F := fun given _ => do unless given do Grammar.unexpected expected)
    (pure ()) (fun t _ => .unexpected expected t) (fun t ht => .unexpected ht expected)
    (Nat.le_refl 1)

theorem expectWord (w : Keyword) (expected : String) :
    Completes 1 k stops [.keyword w] fun _ => Grammar.expectWord w expected := by
  unfold Grammar.expectWord
  simp only [acceptWord_eq]
  exact takeIf_bind_word (F := fun given _ => do unless given do Grammar.unexpected expected)
    (isKeyword_iff.2 rfl) (fun _ => isPlain_of_isKeyword) (pure ())
    (fun t _ => .unexpected expected t) (fun t ht => .unexpected ht expected) (Nat.le_refl 1)
    (Nat.le_succ k)

theorem optionalSemicolon : Completes 0 k stops [.symbol .semicolon]
    fun _ => Grammar.optionalSemicolon := by
  have h : Completes 0 k stops [.symbol .semicolon] fun _ => Grammar.accept .semicolon := by
    have hbind : Completes 0 k stops [.symbol .semicolon]
        fun _ => Grammar.accept .semicolon >>= fun b => Pure.pure b :=
      accept_bind_word (pure true) (fun t _ => .inl ⟨rfl, false, .of_run fun _ => rfl⟩)
        (fun t _ => .of_completes (pure false)) (Nat.zero_le 1)
    simpa only [bind_pure] using hbind
  exact h.map _

end Completes

/-- A name for what has none yet. -/
def someName : Word :=
  .name "x" ⟨'x', [], rfl, rfl, List.forall_mem_nil _⟩ (by intro k; cases k <;> decide)

namespace Completes

variable {s k : Nat} {stops : Lexeme → Prop}

theorem name : Completes 1 k stops [someName] fun _ => Grammar.name := by
  refine .peek (.peek fun t ht => ?_) (fun t ht => ?_) fun t ht => ?_
  · rw [ht]
    exact (Completed.pure _).advance (by rw [ht]; nofun)
  · rw [isFinish_iff.1 ht]
    exact .unexpected _ t
  · split
    next n hn =>
      exact (CompletesAt.advance (by simp [IsPlain, hn]) (pure n)).mono (Nat.le_refl 1)
        (Nat.le_succ k)
    next => exact .unexpected ht _

theorem propertyName : Completes 1 k stops [someName] fun _ => Grammar.propertyName := by
  have htaken {t : Token} (ht : IsPlain t.lexeme) (n : String) :
      CompletesAt [t] 1 k stops fun _ => (do advance; return n : Parser String) :=
    (CompletesAt.advance ht (pure n)).mono (Nat.le_refl 1) (Nat.le_succ k)
  refine .peek (.peek fun t ht => ?_) (fun t ht => ?_) fun t ht => ?_
  · rw [ht]
    exact (Completed.pure _).advance (by rw [ht]; nofun)
  · rw [isFinish_iff.1 ht]
    exact .unexpected _ t
  · split
    next n hn => exact htaken (by simp [IsPlain, hn]) n
    next n hn => exact htaken (by simp [IsPlain, hn]) n
    next w hw => exact htaken (by simp [IsPlain, hw]) _
    next => exact .unexpected ht _

/-- A look at whether a symbol is next, which a completion does not begin with. -/
theorem isNext_bind {F : Bool → Nat → Parser β} {fill : List Word} {c : Symbol}
    (htrue : ∀ t : Token, t.lexeme = .symbol c → CompletesAt [t] s k stops (F true))
    (hfalse : Completes s k stops fill (F false)) (hfollows : Follows stops fill (· ≠ .symbol c)) :
    Completes s k stops fill fun m => isNext c >>= fun given => F given m := by
  simp only [isNext, bind_assoc, pure_bind]
  refine .peek (hfalse.starts.peek_of hfollows fun t ht => ?_) (fun t ht => ?_) fun t ht => ?_
  · rw [Bool.eq_false_iff.2 (mt isSymbol_iff'.1 ht)]
  · rw [isFinish_iff.1 ht]
    exact hfalse.alone t ht
  · cases h : Lexeme.isSymbol c t.lexeme with
    | true => exact htrue t (isSymbol_iff'.1 h)
    | false => exact .of_completes hfalse

/-- A look at whether a symbol is next, which a completion begins with. -/
theorem isNext_bind_word {F : Bool → Nat → Parser β} {fill : List Word} {c : Symbol}
    (htrue : Completes s k stops fill (F true)) (hfollows : Follows stops fill (· = .symbol c))
    (halone : ∀ t : Token, Lexeme.isFinish t.lexeme = true → Alone s (F false) t)
    (hfalse : ∀ t : Token, Lexeme.isFinish t.lexeme = false → CompletesAt [t] s k stops (F false)) :
    Completes s k stops fill fun m => isNext c >>= fun given => F given m := by
  simp only [isNext, bind_assoc, pure_bind]
  refine .peek (htrue.starts.peek_of hfollows fun t ht => ?_) (fun t ht => ?_) fun t ht => ?_
  · rw [isSymbol_iff'.2 ht]
  · rw [isFinish_iff.1 ht]
    exact halone t ht
  · cases h : Lexeme.isSymbol c t.lexeme with
    | true => exact .of_completes htrue
    | false => exact hfalse t ht

end Completes

/-! Loops -/

/-- Nothing is to be shown where no tokens are few enough. -/
theorem CompletesAt.of_pos {P : Nat → Parser α} {s k : Nat} {stops : Lexeme → Prop} {t : Token}
    {front : List Token} (h : ∀ k', k = k' + 1 → CompletesAt (t :: front) s k stops P) :
    CompletesAt (t :: front) s k stops P := by
  cases k with
  | zero => exact fun _ _ _ hlength => absurd hlength (Nat.not_lt_zero _)
  | succ k => exact h k rfl

theorem eventually_succ {b : Nat → Nat} (hb : Tendsto b atTop atTop) :
    ∀ᶠ m in atTop, b m = (b m - 1) + 1 :=
  (hb.eventually_ge_atTop 1).mono fun _ hm => (Nat.sub_add_cancel hm).symm

theorem tendsto_pred {b : Nat → Nat} (hb : Tendsto b atTop atTop) :
    Tendsto (fun m => b m - 1) atTop atTop :=
  (Filter.tendsto_sub_atTop_nat 1).comp hb

section

variable {s k : Nat} {stops stops' : Lexeme → Prop} {fill fill' : List Word}

/-- A parser that looks whether there is anything to be done. A completion does nothing. -/
theorem Completes.of_look (look : Lexeme → Bool) {P Q : Nat → Parser α} {a : α}
    (hP : ∀ᶠ m in atTop, ∀ t rest, (P m).run (t :: rest) =
      if look t.lexeme then (Q m).run (t :: rest) else .ok (a, t :: rest))
    (hstops : ∀ x, stops x → look x = false)
    (halone : ∀ t : Token, Lexeme.isFinish t.lexeme = true → look t.lexeme = true → Alone 0 Q t)
    (hgoes : ∀ t : Token, Lexeme.isFinish t.lexeme = false → CompletesAt [t] 0 k stops Q) :
    Completes 0 k stops [] P := by
  have hskip {t : Token} (ht : look t.lexeme = false) (rest : List Token) :
      Settles P (t :: rest) (.ok (a, t :: rest)) :=
    hP.mono fun m hm => by rw [hm, ht, if_neg Bool.false_ne_true]
  have hleads {t : Token} (ht : look t.lexeme = true) (tokens : List Token) :
      LeadsTo P [] (t :: tokens) Q := by
    intro tail htail
    obtain ⟨more, rfl⟩ := List.head?_eq_some_iff.1 (htail (List.cons_ne_nil t tokens))
    exact hP.mono fun m hm => by rw [List.nil_append, hm, ht, if_pos rfl]
  refine ⟨fun back t more hback ht => ?_, fun t ht => ?_, fun tokens finish hne hcut hlength => ?_⟩
  · obtain rfl := List.map_eq_nil_iff.1 hback
    exact ⟨a, hskip (hstops _ ht) more⟩
  · cases hlook : look t.lexeme with
    | false => exact .inl ⟨rfl, a, hskip hlook []⟩
    | true =>
      refine (halone t ht hlook).imp (.imp_right fun ⟨b, hb⟩ => ⟨b, ?_⟩) fun ⟨e, he⟩ => ⟨e, ?_⟩
      · exact .of_eq (hP.mono fun m hm => by rw [hm, hlook, if_pos rfl]) hb
      · exact .of_eq (hP.mono fun m hm => by rw [hm, hlook, if_pos rfl]) he
  · obtain ⟨t, tokens, rfl⟩ := List.exists_cons_of_ne_nil hne
    cases hlook : look t.lexeme with
    | false =>
      refine .taken (a := a) (List.nil_append _).symm hne (Nat.le_refl 0) .nil fun tail htail => ?_
      obtain ⟨more, rfl⟩ := List.head?_eq_some_iff.1 htail
      exact hskip hlook more
    | true =>
      exact (hgoes t (hcut.plain t List.mem_cons_self) hcut hlength).of_leadsTo (hleads hlook _)

/-- An item, and the others if a comma follows. -/
def commaed (item : Parser α) (others : Parser (List α)) : Parser (List α) := do
  let x ← item
  if ← accept .comma then (x :: ·) <$> others else return [x]

theorem items_commaed_succ (more : Parser Bool) (item : Parser α) (n : Nat) :
    items more (do return (← item, ← accept .comma)) (n + 1) =
      more >>= fun again => if again then
        commaed item (items more (do return (← item, ← accept .comma)) n) else pure [] := by
  simp only [items, commaed, bind_assoc, pure_bind, map_eq_pure_bind]

theorem items_plain_succ (more : Parser Bool) (item : Parser α) (n : Nat) :
    items more (do return (← item, true)) (n + 1) =
      more >>= fun again => if again then
        item >>= fun x => (x :: ·) <$> items more (do return (← item, true)) n
      else pure [] := by
  simp only [items, bind_assoc, pure_bind, map_eq_pure_bind, if_true]

variable {item : Nat → Parser α} {others : Nat → Parser (List α)} {close : Symbol}

theorem Completes.commaed (hitem : Completes 1 (k + 1) stops fill item)
    (hothers : Completes 0 k stops fill' others) (hcomma : Follows stops [] (· ≠ .symbol .comma)) :
    Completes 1 (k + 1) stops fill fun m => Grammar.commaed (item m) (others m) := by
  have hmore (x : α) : Completes 0 k stops [] fun m => Grammar.accept .comma >>= fun given =>
      if given then (x :: ·) <$> others m else Pure.pure [x] :=
    .accept_bind (F := fun given m => if given then (x :: ·) <$> others m else Pure.pure [x])
      (hothers.map (x :: ·)) (.pure [x]) hcomma (Nat.zero_le 1)
  have h := hitem.andThen hmore fun x hx => hx
  rwa [List.append_nil] at h

/-- Items with commas between them, up to a token that closes. -/
theorem Completes.items_commaed (look : Lexeme → Bool) {more : Parser Bool}
    (hmore : ∀ t rest, more.run (t :: rest) = .ok (look t.lexeme, t :: rest))
    (hstops : ∀ x, stops x → look x = false ∧ x ≠ .symbol .comma)
    (hitem : Completes 1 k stops fill item) {b : Nat → Nat} (hb : Tendsto b atTop atTop) :
    Completes 0 k stops []
      fun m => items more (do return (← item m, ← Grammar.accept .comma)) (b m) := by
  induction k using Nat.strongRecOn generalizing b with
  | _ k ih =>
    refine .of_look look (a := []) (Q := fun m => Grammar.commaed (item m)
      (items more (do return (← item m, ← Grammar.accept .comma)) (b m - 1))) ?_
      (fun x hx => (hstops x hx).1) (fun t ht _ => ?_) fun t _ => .of_pos fun k' hk' => ?_
    · refine (eventually_succ hb).mono fun m hm t rest => ?_
      rw [hm, items_commaed_succ, run_bind_of (hmore t rest)]
      split <;> rfl
    · obtain ⟨h, -⟩ | ⟨e, he⟩ := hitem.alone t ht
      · cases h
      · exact .inr ⟨e, he.bind_error⟩
    · subst hk'
      have hothers := ih k' (Nat.lt_succ_self k') (hitem.mono (Nat.le_refl 1) (Nat.le_succ k'))
        (tendsto_pred hb)
      exact .of_completes (hitem.commaed hothers fun x hx => (hstops x hx).2).weak

/-- Items one after another, up to a token that closes. -/
theorem Completes.items_plain (look : Lexeme → Bool) {more : Parser Bool}
    (hmore : ∀ t rest, more.run (t :: rest) = .ok (look t.lexeme, t :: rest))
    (hstops : ∀ x, stops x → look x = false ∧ stops' x)
    (hitem : Completes 1 k stops' fill item) {b : Nat → Nat} (hb : Tendsto b atTop atTop) :
    Completes 0 k stops [] fun m => items more (do return (← item m, true)) (b m) := by
  induction k using Nat.strongRecOn generalizing b with
  | _ k ih =>
    refine .of_look look (a := []) (Q := fun m => item m >>= fun x => (x :: ·) <$>
      items more (do return (← item m, true)) (b m - 1)) ?_
      (fun x hx => (hstops x hx).1) (fun t ht _ => ?_) fun t _ => .of_pos fun k' hk' => ?_
    · refine (eventually_succ hb).mono fun m hm t rest => ?_
      rw [hm, items_plain_succ, run_bind_of (hmore t rest)]
      split <;> rfl
    · obtain ⟨h, -⟩ | ⟨e, he⟩ := hitem.alone t ht
      · cases h
      · exact .inr ⟨e, he.bind_error⟩
    · subst hk'
      have hothers := ih k' (Nat.lt_succ_self k') (hitem.mono (Nat.le_refl 1) (Nat.le_succ k'))
        (tendsto_pred hb)
      exact .of_completes (hitem.andThen (fun x => hothers.map (x :: ·))
        fun x hx => (hstops x hx).2).weak

/-- At least one item. -/
theorem Completes.items_some (hitem : Completes 1 k stops fill item)
    (hcomma : Follows stops [] (· ≠ .symbol .comma)) {b : Nat → Nat} (hb : Tendsto b atTop atTop) :
    Completes 1 k stops fill
      fun m => items (Pure.pure true) (do return (← item m, ← Grammar.accept .comma)) (b m) := by
  induction k using Nat.strongRecOn generalizing b with
  | _ k ih =>
    have hfirst : ∀ᶠ m in atTop,
        items (Pure.pure true) (do return (← item m, ← Grammar.accept .comma)) (b m) =
          Grammar.commaed (item m)
            (items (Pure.pure true) (do return (← item m, ← Grammar.accept .comma)) (b m - 1)) := by
      refine (eventually_succ hb).mono fun m hm => ?_
      conv_lhs => rw [hm, items_commaed_succ]
      rfl
    refine Completes.congr ⟨?_, fun t ht => ?_, fun tokens finish hne hcut hlength => ?_⟩ hfirst
    · have hlast (x : α) : Completed stops (fun m => Grammar.accept .comma >>= fun given =>
          if given then (x :: ·) <$> items (Pure.pure true)
            (do return (← item m, ← Grammar.accept .comma)) (b m - 1) else Pure.pure [x]) [] [] :=
        Completed.accept_bind (F := fun given m => if given then (x :: ·) <$> items (Pure.pure true)
          (do return (← item m, ← Grammar.accept .comma)) (b m - 1) else Pure.pure [x])
          (.pure [x]) hcomma
      have h := hitem.starts.bind hlast fun x hx => hx
      rwa [List.append_nil] at h
    · obtain ⟨h, -⟩ | ⟨e, he⟩ := hitem.alone t ht
      · cases h
      · exact .inr ⟨e, he.bind_error⟩
    · obtain ⟨k, rfl⟩ : ∃ k', k = k' + 1 := ⟨k - 1, by omega⟩
      have hothers := ih k (Nat.lt_succ_self k) (hitem.mono (Nat.le_refl 1) (Nat.le_succ k))
        (tendsto_pred hb)
      exact (hitem.commaed hothers.weak hcomma).goes hne hcut hlength

/-! Lists -/

theorem Completes.commaItems (hclose : close ≠ .comma)
    (hitem : Completes 1 k (· = .symbol close) fill item) :
    Completes 0 k (· = .symbol close) [] fun m => Grammar.commaItems (below m) close (item m) := by
  refine .items_commaed (fun x => !Lexeme.isSymbol close x) (fun _ _ => rfl) ?_ hitem
    Filter.tendsto_id
  rintro _ rfl
  exact ⟨by simp [isSymbol_iff'], by simpa using hclose⟩

theorem Completes.itemsUntil (hitem : Completes 1 k stops' fill item)
    (hclose : stops' (.symbol close)) :
    Completes 0 k (· = .symbol close) [] fun m => Grammar.itemsUntil (below m) close (item m) := by
  refine .items_plain (fun x => !Lexeme.isSymbol close x && !Lexeme.isFinish x)
    (fun _ _ => rfl) ?_ hitem Filter.tendsto_id
  rintro _ rfl
  exact ⟨by simp [isSymbol_iff'], hclose⟩

theorem Completes.closedList (hitem : Completes 1 k (· = .symbol .closeParen) fill item)
    (expected : String) : Completes 1 k stops [.symbol .closeParen]
      fun m => Grammar.closedList (below m) expected (item m) := by
  have hsome : Completes 1 k (· = .symbol .closeParen) fill
      fun m => Grammar.commaSeparated (below m) (item m) :=
    hitem.items_some (by rintro _ rfl; simp) Filter.tendsto_id
  have hbefore : Completes 0 k (· = .symbol .closeParen) []
      fun m => listBefore (below m) (item m) := by
    refine .of_look (fun x => !Lexeme.isSymbol .closeParen x) (a := [])
      (.of_forall fun m t rest => ?_) ?_ (fun t ht _ => hsome.weak.alone t ht)
      fun t _ => .of_completes hsome.weak
    · change (if Lexeme.isSymbol .closeParen t.lexeme then _ else _ : Parser (List α)).run _ = _
      cases Lexeme.isSymbol .closeParen t.lexeme <;> rfl
    · rintro _ rfl
      simp [isSymbol_iff']
  simp only [closedList_eq]
  refine hbefore.after (fun xs => ?_) fun _ _ => rfl
  exact (Completes.expect _ _).bind (fun _ => .pure xs) fun x hx => hx

end

end ScriptEngine.Grammar
