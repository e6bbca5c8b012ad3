import ScriptEngine.Proofs.Grammar.Tracking

/-!
# The cursor on tokens that are cut off
-/
namespace ScriptEngine.Grammar
open Text (Position)

variable {α β : Type} {p q : Parser α} {s i o k n m : Nat} {t : Token}

theorem run_bind_error {p : Parser α} {f : α → Parser β} {tokens : List Token} {e : ParseError}
    (h : p.run tokens = .error e) : (p >>= f).run tokens = .error e := by
  rw [StateT.run_bind, h]
  rfl

theorem Fatal.of_ne {tokens : List Token} {e : ParseError}
    (h : ∀ expected p, e ≠ .unexpectedEnd expected p) : Fatal tokens e :=
  fun expected p heq => absurd heq (h expected p)

/-- An error that is the same whatever follows. -/
theorem TracksAt.fail {e : ParseError} (h : ∀ expected p, e ≠ .unexpectedEnd expected p) :
    TracksAt [t] s i o k (Grammar.fail e : Parser α) (Grammar.fail e) :=
  fun _ _ _ _ _ => .fatal (List.cons_ne_nil _ _) (.of_ne h) fun _ => rfl

/-- An error that is found in the next token. -/
theorem TracksAt.fail_after {e : ParseError}
    (h : ∀ expected p, e = .unexpectedEnd expected p → BreaksOff t) :
    TracksAt [t] s i o k (do Grammar.advance; Grammar.fail e : Parser α)
      (do Grammar.advance; Grammar.fail e) :=
  fun _ _ _ _ _ => .fatal (List.cons_ne_nil _ _)
    (fun expected p he => ⟨t, List.mem_cons_self, h expected p he⟩) fun _ => rfl

/-- An error that is the same in both runs where nothing is left. -/
theorem FinishAlike.fail {e : ParseError} {finish : Token}
    (hfinish : Lexeme.isFinish finish.lexeme = true) (he : CutShort [] finish e) :
    FinishAlike s i o [] finish (Grammar.fail e : Parser α) (Grammar.fail e) :=
  ⟨rfl, .cut he fun _ => arrowAhead_finish _ (isFinish_iff.1 hfinish)⟩

theorem FinishAlike.pure {finish : Token} (a : α) :
    FinishAlike 0 i i [] finish (Pure.pure a : Parser α) (Pure.pure a) :=
  ⟨rfl, .whole (Nat.zero_le _) (.nil i)⟩

theorem FinishAlike.advance {finish : Token} {j : Nat} {f g : Unit → Parser α}
    (ht : Lexeme.isFinish t.lexeme = false) (hbalanced : Balanced i j [t])
    (h : FinishAlike s j o [] finish (f ()) (g ())) :
    FinishAlike (s + 1) i o [t] finish (Grammar.advance >>= f) (Grammar.advance >>= g) := by
  have hstep (f : Unit → Parser α) :
      (Grammar.advance >>= f).run ([t] ++ [finish]) = (f ()).run [finish] := by
    rw [StateT.run_bind]
    change (f ()).run (if Lexeme.isFinish t.lexeme then [t, finish] else [finish]) = _
    rw [ht, if_neg Bool.false_ne_true]
  obtain ⟨hsame, hx⟩ := h
  have hused : 1 ≤ weight [t] := tokenWeight_pos t
  unfold FinishAlike
  rw [hstep, hstep, Nat.add_comm s 1]
  exact ⟨hsame, hx.extend hused hbalanced⟩

namespace Tracks

theorem unexpected (expected : String) :
    Tracks s i o k (Grammar.unexpected expected : Parser α) (Grammar.unexpected expected) := by
  refine .peek (fun t ht => ?_) fun t ht => ?_
  · rw [if_pos ht]
    exact .fail ht (.ended expected)
  · rw [ht]
    exact .fail nofun

/-- An error that tells where the tokens are cut off. -/
theorem failHere {form : InvalidForm} (hform : form = .constantWithoutValue ∨ form = .restNotLast) :
    Tracks s i o k (do Grammar.fail (.invalid form (← here)) : Parser α)
      (do Grammar.fail (.invalid form (← here))) := by
  have heq : (do Grammar.fail (.invalid form (← here)) : Parser α) =
      Grammar.peek >>= fun t => Grammar.fail (.invalid form t.position) := by
    simp only [Grammar.here, bind_assoc, pure_bind]
  rw [heq]
  refine .peek (fun t ht => ?_) fun t _ => ?_
  · refine .fail ht ?_
    obtain rfl | rfl := hform
    · exact .constant
    · exact .rest
  · exact .fail nofun

theorem look (f : Token → α) :
    Tracks 0 i i k (do return f (← Grammar.peek) : Parser α) (do return f (← Grammar.peek)) :=
  .peek (fun _ _ => .pure _) fun _ _ => .of_tracks (.pure _)

theorem here : Tracks 0 i i k Grammar.here Grammar.here := look _

theorem isNext (c : Symbol) : Tracks 0 i i k (Grammar.isNext c) (Grammar.isNext c) := look _

theorem isNextWord (w : Keyword) : Tracks 0 i i k (Grammar.isNextWord w) (Grammar.isNextWord w) :=
  look _

theorem atEnd : Tracks 0 i i k Grammar.atEnd Grammar.atEnd := look _

end Tracks

/-! Taking a token of a kind -/

/-- Takes the next token if it is of a kind, and tells whether it was. -/
def takeIf (kind : Lexeme → Bool) : Parser Bool := do
  if kind (← peek).lexeme then
    advance
    return true
  return false

theorem accept_eq (c : Symbol) : accept c = takeIf (Lexeme.isSymbol c) := by
  simp only [accept, takeIf, isNext, bind_assoc, pure_bind]

theorem acceptWord_eq (w : Keyword) : acceptWord w = takeIf (Lexeme.isKeyword w) := by
  simp only [acceptWord, takeIf, isNextWord, bind_assoc, pure_bind]

theorem takeIf_bind (kind : Lexeme → Bool) (f : Bool → Parser β) :
    (takeIf kind >>= f) = Grammar.peek >>= fun t =>
      if kind t.lexeme then Grammar.advance >>= fun _ => f true else f false := by
  simp only [takeIf, bind_assoc]
  refine congrArg (Grammar.peek >>= ·) (funext fun t => ?_)
  split <;> simp

section

variable {kind : Lexeme → Bool} {f g : Bool → Parser β} {j : Nat}

theorem Tracks.takeIf_bind (hfinish : kind .finish = false)
    (hbalanced : ∀ t : Token, kind t.lexeme = true → Balanced i j [t])
    (htrue : Tracks s j o k (f true) (g true))
    (hfalse : Tracks (s + 1) i o (k + 1) (f false) (g false)) :
    Tracks (s + 1) i o (k + 1) (takeIf kind >>= f) (takeIf kind >>= g) := by
  rw [Grammar.takeIf_bind, Grammar.takeIf_bind]
  refine .peek (fun t ht => ?_) fun t _ => ?_
  · rw [isFinish_iff.1 ht, hfinish]
    exact hfalse.finishAlike (Nat.succ_pos k) ht
  · split
    next hkind => exact .advance (hbalanced t hkind) fun _ => htrue
    next => exact .of_tracks hfalse

theorem Tracks.takeIf (hfinish : kind .finish = false)
    (hbalanced : ∀ t : Token, kind t.lexeme = true → Balanced i i [t]) :
    Tracks 0 i i k (Grammar.takeIf kind) (Grammar.takeIf kind) := by
  cases k with
  | zero => exact .zero
  | succ k =>
    refine .peek (fun t ht => ?_) fun t _ => ?_
    · rw [isFinish_iff.1 ht, hfinish]
      exact .pure _
    · split
      next hkind =>
        have htaken : TracksAt [t] (0 + 1) i i (k + 1) (do advance; return true : Parser Bool)
            (do advance; return true) := .advance (hbalanced t hkind) fun _ => .pure true
        exact htaken.weaken (Nat.zero_le _)
      next => exact .of_tracks (.pure _)

end

theorem isSymbol_iff' {c : Symbol} {l : Lexeme} : Lexeme.isSymbol c l = true ↔ l = .symbol c := by
  cases l with
  | symbol d => simpa [Lexeme.isSymbol] using eq_comm
  | _ => simp [Lexeme.isSymbol]

theorem isKeyword_iff {w : Keyword} {l : Lexeme} :
    Lexeme.isKeyword w l = true ↔ l = .keyword w := by
  cases l with
  | keyword v => simpa [Lexeme.isKeyword] using eq_comm
  | _ => simp [Lexeme.isKeyword]

/-- How a symbol changes the number of open parentheses. -/
inductive Shift : Symbol → Nat → Nat → Prop
  | opens {i : Nat} : Shift .openParen i (i + 1)
  | closes {i : Nat} : Shift .closeParen (i + 1) i
  | plain {c : Symbol} {i : Nat} (hc : c ≠ .openParen ∧ c ≠ .closeParen) : Shift c i i

theorem Shift.balanced {c : Symbol} {i o : Nat} (h : Shift c i o) {t : Token}
    (ht : t.lexeme = .symbol c) : Balanced i o [t] := by
  cases h with
  | opens => exact .open ht i
  | closes => exact .close ht o
  | plain hc => exact .of_eq ht (by simpa using hc) i

theorem balanced_of_keyword {t : Token} {w : Keyword} (ht : t.lexeme = .keyword w) (i : Nat) :
    Balanced i i [t] :=
  .of_eq ht (by simp) i

namespace Tracks

variable {j : Nat}

theorem accept_bind {c : Symbol} {f g : Bool → Parser β} (hc : Shift c i j)
    (htrue : Tracks s j o k (f true) (g true))
    (hfalse : Tracks (s + 1) i o (k + 1) (f false) (g false)) :
    Tracks (s + 1) i o (k + 1) (Grammar.accept c >>= f) (Grammar.accept c >>= g) := by
  rw [accept_eq]
  exact takeIf_bind rfl (fun t ht => hc.balanced (isSymbol_iff'.1 ht)) htrue hfalse

theorem acceptWord_bind {w : Keyword} {f g : Bool → Parser β}
    (htrue : Tracks s i o k (f true) (g true))
    (hfalse : Tracks (s + 1) i o (k + 1) (f false) (g false)) :
    Tracks (s + 1) i o (k + 1) (Grammar.acceptWord w >>= f) (Grammar.acceptWord w >>= g) := by
  rw [acceptWord_eq]
  exact takeIf_bind rfl (fun t ht => balanced_of_keyword (isKeyword_iff.1 ht) i) htrue hfalse

theorem expect {c : Symbol} (hc : Shift c i o) (expected : String) :
    Tracks 1 i o k (Grammar.expect c expected) (Grammar.expect c expected) := by
  cases k with
  | zero => exact .zero
  | succ k =>
    unfold Grammar.expect
    refine accept_bind hc ?_ ?_
    · exact .pure ()
    · exact .unexpected expected

theorem expectWord (w : Keyword) (expected : String) :
    Tracks 1 i i k (Grammar.expectWord w expected) (Grammar.expectWord w expected) := by
  cases k with
  | zero => exact .zero
  | succ k =>
    unfold Grammar.expectWord
    refine acceptWord_bind ?_ ?_
    · exact .pure ()
    · exact .unexpected expected

theorem accept {c : Symbol} (hc : Shift c i i) :
    Tracks 0 i i k (Grammar.accept c) (Grammar.accept c) := by
  rw [accept_eq]
  exact takeIf rfl fun t ht => hc.balanced (isSymbol_iff'.1 ht)

theorem acceptWord (w : Keyword) :
    Tracks 0 i i k (Grammar.acceptWord w) (Grammar.acceptWord w) := by
  rw [acceptWord_eq]
  exact takeIf rfl fun t ht => balanced_of_keyword (isKeyword_iff.1 ht) i

theorem optionalSemicolon : Tracks 0 i i k Grammar.optionalSemicolon Grammar.optionalSemicolon :=
  (accept (.plain (by decide))).map _

theorem name : Tracks 1 i i k Grammar.name Grammar.name := by
  cases k with
  | zero => exact .zero
  | succ k =>
    refine .peek (fun t ht => ?_) fun t _ => ?_
    · simp only [isFinish_iff.1 ht]
      exact (Tracks.unexpected _).finishAlike (Nat.succ_pos k) ht
    · split
      next n hn =>
        exact .advance (.of_eq hn (by simp) i) fun _ => .pure n
      next => exact .of_tracks (.unexpected _)

theorem propertyName : Tracks 1 i i k Grammar.propertyName Grammar.propertyName := by
  cases k with
  | zero => exact .zero
  | succ k =>
    refine .peek (fun t ht => ?_) fun t _ => ?_
    · simp only [isFinish_iff.1 ht]
      exact (Tracks.unexpected _).finishAlike (Nat.succ_pos k) ht
    · split
      next n hn =>
        exact .advance (.of_eq hn (by simp) i) fun _ => .pure n
      next n hn =>
        exact .advance (.of_eq hn (by simp) i) fun _ => .pure n
      next w hw => exact .advance (balanced_of_keyword hw i) fun _ => .pure _
      next => exact .of_tracks (.unexpected _)

/-- A value that is read only to be refused. -/
theorem refused {e : ParseError} (h : ∀ expected p, e ≠ .unexpectedEnd expected p)
    {p q : Parser α} (hp : Tracks 1 i o k p q) :
    Tracks 1 i o k (p >>= fun _ => Grammar.fail e : Parser β) (q >>= fun _ => Grammar.fail e) := by
  intro tokens finish rest hcut hweight
  have hfirst := hp hcut hweight
  rw [StateT.run_bind, StateT.run_bind]
  revert hfirst
  generalize p.run (tokens ++ [finish]) = x
  generalize q.run (tokens ++ rest) = y
  intro hfirst
  cases hfirst with
  | @same a used left htokens hleft hused hbalanced =>
    have hne : tokens ≠ [] := by simp [htokens, hleft]
    exact .fatal hne (.of_ne h) fun _ => rfl
  | fatal hne he hsame => exact .fatal hne he hsame
  | finishes hx hsame =>
    cases hx with
    | @whole a hused hbalanced =>
      have hne : tokens ≠ [] := by
        rintro rfl
        exact absurd hused (Nat.not_succ_le_zero 0)
      cases y with
      | ok b => exact .fatal hne (.of_ne h) fun _ => rfl
      | error e' =>
        refine .fatal hne (.of_ne h) fun hrest => ?_
        cases hsame hrest
    | cut he hopen =>
      refine .finishes (.cut he hopen) fun hrest => ?_
      rw [hsame hrest]

/-! Lists of items -/

theorem items {more more' : Parser Bool} {item item' : Parser (α × Bool)}
    (hmore : Tracks 0 i i k more more') (hitem : Tracks 1 i i k item item') (hn : k ≤ n)
    (hm : k ≤ m) : Tracks 0 i i k (Grammar.items more item n) (Grammar.items more' item' m) := by
  induction k generalizing n m with
  | zero => exact .zero
  | succ k ih =>
    obtain ⟨n, rfl⟩ : ∃ l, n = l + 1 := ⟨n - 1, by omega⟩
    obtain ⟨m, rfl⟩ : ∃ l, m = l + 1 := ⟨m - 1, by omega⟩
    have hrest := ih (hmore.mono (Nat.le_refl 0) (Nat.le_succ k))
      (hitem.mono (Nat.le_refl 1) (Nat.le_succ k)) (Nat.le_of_succ_le_succ hn)
      (Nat.le_of_succ_le_succ hm)
    refine hmore.after fun again => ?_
    split
    · refine (hitem.andThen fun (a, again) => ?_).mono (Nat.zero_le 1) (Nat.le_refl _)
      dsimp only
      split
      · exact hrest.bind fun _ => .pure _
      · exact .pure _
    · exact .pure _

end Tracks

section

variable {d d' : Deeper} {item item' : Parser α} (hn : k ≤ d.bound) (hm : k ≤ d'.bound)
include hn hm

theorem Tracks.commaItems (close : Symbol) (hitem : Tracks 1 i i k item item') :
    Tracks 0 i i k (Grammar.commaItems d close item) (Grammar.commaItems d' close item') :=
  .items ((Tracks.isNext close).bind fun _ => .pure _)
    (hitem.bind fun _ => (Tracks.accept (.plain (by decide))).bind fun _ => .pure _)
    hn hm

theorem Tracks.itemsUntil (close : Symbol) (hitem : Tracks 1 i i k item item') :
    Tracks 0 i i k (Grammar.itemsUntil d close item) (Grammar.itemsUntil d' close item') :=
  .items ((Tracks.isNext close).bind fun _ => Tracks.atEnd.bind fun _ => .pure _)
    (hitem.bind fun _ => .pure _) hn hm

theorem Tracks.commaSeparated (hitem : Tracks 1 i i k item item') :
    Tracks 0 i i k (Grammar.commaSeparated d item) (Grammar.commaSeparated d' item') :=
  .items (.pure true)
    (hitem.bind fun _ => (Tracks.accept (.plain (by decide))).bind fun _ => .pure _)
    hn hm

/-- The closing parenthesis is taken as well. -/
theorem Tracks.closedList (expected : String) (hitem : Tracks 1 i i k item item') :
    Tracks 0 (i + 1) i k (Grammar.closedList d expected item)
      (Grammar.closedList d' expected item') := by
  have hclose (xs : List α) : Tracks 0 (i + 1) i k
      (do Grammar.expect .closeParen expected; return xs : Parser (List α))
      (do Grammar.expect .closeParen expected; return xs) :=
    ((Tracks.expect .closes expected).bind fun _ => .pure xs).mono (Nat.zero_le 1) (Nat.le_refl k)
  refine (Tracks.isNext .closeParen).after fun closed => ?_
  split
  · exact (Tracks.pure []).after hclose
  · exact (Tracks.commaSeparated hn hm hitem).lift.after hclose

end

end ScriptEngine.Grammar
