import ScriptEngine.Grammar.Parse

/-!
# Names among the tokens

Reserved words are no names. The names that a parser finds are those of the tokens that it is given,
so whatever is true of these is true of the names in what it reads.
-/
namespace ScriptEngine

/-- A spelling that is not taken by a reserved word. -/
def Unreserved (name : String) : Prop := Keyword.ofSpelling? name = none

instance : DecidablePred Unreserved := fun name =>
  inferInstanceAs (Decidable (Keyword.ofSpelling? name = none))

/-- Names among the tokens are of some kind. -/
def Token.NamesIn (allowed : String → Prop) (tokens : List Token) : Prop :=
  ∀ t ∈ tokens, ∀ n, t.lexeme = .name n → allowed n

namespace Lexer

/-- A lexeme that is no name, or an unreserved one. -/
def Proper (l : Lexeme) : Prop := ∀ n, l = .name n → Unreserved n

theorem nameOrKeyword_proper (s : String) : Proper (nameOrKeyword s) := by
  intro n hn
  unfold nameOrKeyword at hn
  split at hn
  · cases hn
  next hnone =>
    cases hn
    exact hnone

theorem scanText_proper {quote : Char} {start p q : Text.Position} {read cs rest : List Char}
    {l : Lexeme} (h : scanText quote start read p cs = .ok (l, q, rest)) : Proper l := by
  fun_induction scanText quote start read p cs <;> grind [Proper]

theorem scanTemplate_proper {start p q : Text.Position} {mode : TemplateMode}
    {chunks : List TemplateChunk} {read cs rest : List Char} {l : Lexeme}
    (h : scanTemplate start mode chunks read p cs = .ok (l, q, rest)) : Proper l := by
  fun_induction scanTemplate start mode chunks read p cs <;> grind [Proper]

theorem scanLexeme_proper {p q : Text.Position} {c : Char} {cs rest : List Char} {l : Lexeme}
    (h : scanLexeme p c cs = .ok (l, q, rest)) : Proper l := by
  unfold scanLexeme at h
  split at h
  · exact scanText_proper h
  split at h
  · exact scanTemplate_proper h
  split at h
  · have hnumber : (scanNumber p (c :: cs)).1 = l := congrArg Prod.fst (Except.ok.inj h)
    intro n hn
    rw [hn, scanNumber] at hnumber
    grind
  split at h
  · have hname : (scanName p (c :: cs)).1 = l := congrArg Prod.fst (Except.ok.inj h)
    exact hname ▸ nameOrKeyword_proper _
  · split at h
    next scanned hsymbol =>
      cases h
      obtain ⟨s, -, hs⟩ := List.exists_of_findSome?_eq_some hsymbol
      obtain ⟨r, -, hr⟩ := Option.map_eq_some_iff.1 hs
      cases hr
      intro n hn
      cases hn
    next => cases h

/-- The lexer reads reserved words as such. -/
theorem tokensFrom_proper {p : Text.Position} {cs : List Char} {tokens : List Token}
    (h : tokensFrom p cs = .ok tokens) : ∀ t ∈ tokens, Proper t.lexeme := by
  fun_induction tokensFrom p cs generalizing tokens with
  | case1 | case3 | case4 => cases h
  | case2 p cs q hskip =>
    obtain rfl := Except.ok.inj h
    exact List.forall_mem_singleton.2 nofun
  | case5 p cs q c rest hskip l r more hscan tokens htokens ih =>
    obtain rfl := Except.ok.inj h
    exact List.forall_mem_cons.2 ⟨scanLexeme_proper hscan, ih htokens⟩

end Lexer

theorem scanAt_names {origin : Text.Position} {source : String} {tokens : List Token}
    (h : Token.scanAt origin source = .ok tokens) : Token.NamesIn Unreserved tokens :=
  Lexer.tokensFrom_proper h

namespace Grammar
open Text (Position)

variable {α β : Type} {allowed : String → Prop} {p : Parser α} {f : α → Parser β}

/-- A parser that leaves no other names behind than it is given. -/
class KeepsNames (allowed : String → Prop) (p : Parser α) : Prop where
  names_left ⦃tokens : List Token⦄ ⦃a : α⦄ ⦃rest : List Token⦄ :
    Token.NamesIn allowed tokens → p.run tokens = .ok (a, rest) → Token.NamesIn allowed rest

namespace KeepsNames

@[grind .]
instance pure (a : α) : KeepsNames allowed (Pure.pure a : Parser α) where
  names_left tokens b rest hnames hrun := by
    obtain ⟨-, rfl⟩ := Prod.mk.inj (Except.ok.inj hrun)
    exact hnames

@[grind .]
instance fail (e : ParseError) : KeepsNames allowed (Grammar.fail e : Parser α) where
  names_left _ _ _ _ hrun := nomatch hrun

@[grind .]
theorem of_bind (hp : KeepsNames allowed p) (hf : ∀ a, KeepsNames allowed (f a)) :
    KeepsNames allowed (p >>= f) where
  names_left tokens b rest hnames hrun := by
    rw [StateT.run_bind] at hrun
    cases hfirst : p.run tokens with
    | error e =>
      rw [hfirst] at hrun
      cases hrun
    | ok first =>
      rw [hfirst] at hrun
      exact (hf first.1).names_left (hp.names_left hnames hfirst) hrun

instance bind [hp : KeepsNames allowed p] [hf : ∀ a, KeepsNames allowed (f a)] :
    KeepsNames allowed (p >>= f) :=
  of_bind hp hf

@[grind .]
instance map [KeepsNames allowed p] (g : α → β) : KeepsNames allowed (g <$> p) := by
  rw [map_eq_pure_bind]
  infer_instance

@[grind .]
instance discard [KeepsNames allowed p] : KeepsNames allowed (Functor.discard p) := map _

@[grind .]
instance lift (x : Except ParseError α) : KeepsNames allowed (liftM x : Parser α) where
  names_left tokens b rest hnames hrun := by
    cases x with
    | error e => cases hrun
    | ok a =>
      obtain ⟨-, rfl⟩ := Prod.mk.inj (Except.ok.inj hrun)
      exact hnames

/-! The cursor -/

@[grind .]
instance get : KeepsNames allowed (MonadState.get : Parser (List Token)) where
  names_left tokens a rest hnames hrun := by
    obtain ⟨-, rfl⟩ := Prod.mk.inj (Except.ok.inj hrun)
    exact hnames

@[grind .]
instance peek : KeepsNames allowed Grammar.peek where
  names_left tokens t rest hnames hrun := by
    cases tokens with
    | nil => cases hrun
    | cons first tokens =>
      obtain ⟨-, rfl⟩ := Prod.mk.inj (Except.ok.inj hrun)
      exact hnames

@[grind .]
instance advance : KeepsNames allowed Grammar.advance where
  names_left tokens a rest hnames hrun := by
    obtain ⟨-, rfl⟩ := Prod.mk.inj (Except.ok.inj hrun)
    cases tokens with
    | nil => exact hnames
    | cons t tokens =>
      dsimp only
      split
      · exact hnames
      · exact fun u hu => hnames u (List.mem_cons_of_mem t hu)

@[grind .]
instance peekSecond : KeepsNames allowed Grammar.peekSecond := bind

@[grind .]
instance here : KeepsNames allowed Grammar.here := bind

@[grind .]
instance atEnd : KeepsNames allowed Grammar.atEnd := bind

@[grind .]
instance isNext (s : Symbol) : KeepsNames allowed (Grammar.isNext s) := bind

@[grind .]
instance accept (s : Symbol) : KeepsNames allowed (Grammar.accept s) := by
  unfold Grammar.accept
  grind

@[grind .]
instance acceptWord (k : Keyword) : KeepsNames allowed (Grammar.acceptWord k) := by
  unfold Grammar.acceptWord isNextWord
  grind

@[grind .]
instance unexpected (expected : String) :
    KeepsNames allowed (Grammar.unexpected expected : Parser α) := by
  unfold Grammar.unexpected
  grind

@[grind .]
instance expect (s : Symbol) (expected : String) :
    KeepsNames allowed (Grammar.expect s expected) := by
  unfold Grammar.expect
  grind

@[grind .]
instance expectWord (k : Keyword) (expected : String) :
    KeepsNames allowed (Grammar.expectWord k expected) := by
  unfold Grammar.expectWord
  grind

@[grind .]
instance name : KeepsNames allowed Grammar.name := by
  unfold Grammar.name
  grind

@[grind .]
instance propertyName : KeepsNames allowed Grammar.propertyName := by
  unfold Grammar.propertyName
  grind

@[grind .]
instance optionalSemicolon : KeepsNames allowed Grammar.optionalSemicolon := discard

/-! Lists of items -/

@[grind .]
instance items {more : Parser Bool} {item : Parser (α × Bool)} [KeepsNames allowed more]
    [KeepsNames allowed item] (n : Nat) : KeepsNames allowed (Grammar.items more item n) := by
  induction n with
  | zero => exact pure []
  | succ n ih =>
    unfold Grammar.items
    grind

variable {d : Deeper}

@[grind .]
instance commaItems [KeepsNames allowed p] (close : Symbol) :
    KeepsNames allowed (Grammar.commaItems d close p) := by
  unfold Grammar.commaItems
  infer_instance

/-! Patterns and types -/

@[grind .]
instance patternElement {element : Parser Pattern} [KeepsNames allowed element] :
    KeepsNames allowed (Grammar.patternElement element) := by
  unfold Grammar.patternElement
  grind

@[grind .]
instance patternField {element : Parser Pattern} [KeepsNames allowed element] :
    KeepsNames allowed (Grammar.patternField element) := by
  unfold Grammar.patternField
  grind

@[grind .]
instance structuredPattern {element : Parser Pattern} [KeepsNames allowed element]
    (expected : String) :
    KeepsNames allowed (Grammar.structuredPattern d element expected) := by
  unfold Grammar.structuredPattern arrayPattern objectPattern
  grind

variable [hd : ∀ goal, KeepsNames allowed (d.parse goal)]

instance bindingPattern : KeepsNames allowed (Grammar.bindingPattern d) :=
  structuredPattern _

instance matchPattern : KeepsNames allowed (Grammar.matchPattern d) := by
  unfold Grammar.matchPattern
  have hstructured : KeepsNames allowed
      (Grammar.structuredPattern d (d.parse .matchPattern) "match pattern") := structuredPattern _
  grind

instance typeName : KeepsNames allowed (Grammar.typeName d) := by
  unfold Grammar.typeName
  have hinner := hd .typeName
  grind

instance typeAfter (sign : Symbol) : KeepsNames allowed (Grammar.typeAfter d sign) := by
  unfold Grammar.typeAfter
  have htype : KeepsNames allowed (Grammar.typeName d) := typeName
  grind

end KeepsNames

end Grammar

end ScriptEngine
