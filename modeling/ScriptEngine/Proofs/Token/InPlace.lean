import ScriptEngine.Proofs.Grammar.Weight
import ScriptEngine.Proofs.Token.Places

/-!
# Code inside templates

The lexer cuts the code of an interpolation out of a template and keeps the place where it starts.
Read from that place on its own, the code has tokens that stand where they say in the text as a
whole; so do the pieces of code in templates among them, and so on at every depth.
-/
namespace ScriptEngine
open Text (Position)

namespace Text

/-- Moving over the same characters keeps lines and columns the same. -/
theorem Position.after_congr {p q : Position} (hline : p.line = q.line)
    (hcolumn : p.column = q.column) (cs : List Char) :
    (p.after cs).line = (q.after cs).line ∧ (p.after cs).column = (q.after cs).column := by
  induction cs generalizing p q with
  | nil => exact ⟨hline, hcolumn⟩
  | cons c cs ih =>
    apply ih
    · unfold Position.step
      split <;> simp [hline]
    · unfold Position.step
      split <;> simp [hcolumn]

/-- These characters are in the text, and the line and column of `p` are those that counting gives
for what is before them. -/
def StandsAt (whole : List Char) (p : Position) (cs : List Char) : Prop :=
  ∃ before after, whole = before ++ cs ++ after ∧
    p.line = (Position.start.behind before).line ∧ p.column = (Position.start.behind before).column

namespace StandsAt

variable {whole as bs : List Char} {p : Position} {c : Char}

theorem self : StandsAt whole Position.start whole :=
  ⟨[], [], by simp, rfl, rfl⟩

theorem front (h : StandsAt whole p (as ++ bs)) : StandsAt whole p as := by
  obtain ⟨before, after, rfl, hplace⟩ := h
  exact ⟨before, bs ++ after, by simp, hplace⟩

theorem back (h : StandsAt whole p (as ++ bs)) : StandsAt whole (p.after as) bs := by
  obtain ⟨before, after, rfl, hline, hcolumn⟩ := h
  refine ⟨before ++ as, after, by simp, ?_⟩
  rw [← Position.after_eq_behind] at hline hcolumn ⊢
  rw [Position.after_append]
  exact Position.after_congr hline hcolumn as

theorem tail (h : StandsAt whole p (c :: bs)) : StandsAt whole (p.step c) bs := by
  rw [← List.singleton_append] at h
  exact h.back

end StandsAt

end Text

open Text (StandsAt)

/-- Read alone, these characters are one token with this lexeme, up to where its code stands. -/
def Lexeme.SpelledBy (l : Lexeme) (spelling : List Char) : Prop :=
  ∃ l' finish, Token.scan (String.ofList spelling) = .ok [⟨l', Position.start⟩, ⟨.finish, finish⟩] ∧
    l'.unplaced = l.unplaced

/-- All code among the chunks stands in the text where the chunks say. -/
def TemplateChunk.InPlace (whole : List Char) (chunks : List TemplateChunk) : Prop :=
  ∀ source origin, .code source origin ∈ chunks → StandsAt whole origin source.toList

theorem TemplateChunk.InPlace.nil {whole : List Char} : TemplateChunk.InPlace whole [] := by
  intro source origin hmem
  cases hmem

/-- A token stands in a text: its spelling is where its position says, and so is the code inside
it. -/
structure Token.InPlace (whole : List Char) (t : Token) : Prop where
  spelled : t.lexeme ≠ .finish →
    ∃ spelling, t.lexeme.SpelledBy spelling ∧ StandsAt whole t.position spelling
  code : ∀ chunks, t.lexeme = .template chunks → TemplateChunk.InPlace whole chunks

namespace Lexer
open Grammar (scanText_isPlain scanNumber_isPlain scanName_isPlain)

variable {whole : List Char}

theorem flushText_inPlace {chunks : List TemplateChunk} (h : TemplateChunk.InPlace whole chunks)
    (read : List Char) : TemplateChunk.InPlace whole (flushText chunks read) := by
  intro source origin hmem
  unfold flushText at hmem
  split at hmem
  · exact h source origin hmem
  · exact h source origin (by simpa using hmem)

theorem closeTemplate_inPlace {chunks : List TemplateChunk}
    (h : TemplateChunk.InPlace whole chunks) (read : List Char) :
    TemplateChunk.InPlace whole (closeTemplate chunks read) := by
  intro source origin hmem
  unfold closeTemplate at hmem
  split at hmem
  · exact h source origin (List.mem_reverse.1 hmem)
  · exact h source origin (by simpa using hmem)

/-- In the middle of a template, the code read so far stands with the rest of the text where the
code starts. -/
def TemplateMode.InPlace (whole read cs : List Char) : TemplateMode → Prop
  | .text => True
  | .code origin _ _ => StandsAt whole origin (read.reverse ++ cs)

theorem scanTemplate_inPlace {start p q : Position} {mode : TemplateMode}
    {chunks : List TemplateChunk} {read cs rest : List Char} {l : Lexeme}
    (h : scanTemplate start mode chunks read p cs = .ok (l, q, rest))
    (hcs : StandsAt whole p cs) (hmode : mode.InPlace whole read cs)
    (hchunks : TemplateChunk.InPlace whole chunks) :
    ∃ chunks', l = .template chunks' ∧ TemplateChunk.InPlace whole chunks' := by
  fun_induction scanTemplate start mode chunks read p cs with
  | case1 | case2 | case5 | case8 => cases h
  | case3 chunks read p cs origin ih =>
    exact ih h hcs.tail.tail hcs.tail.tail (flushText_inPlace hchunks read)
  | case4 chunks read p c cs =>
    cases h
    exact ⟨_, rfl, closeTemplate_inPlace hchunks read⟩
  | case6 chunks read p c hquote hslash e cs hplain ih =>
    exact ih h hcs.tail.tail trivial hchunks
  | case7 chunks read p c cs hplain hquote hslash ih => exact ih h hcs.tail trivial hchunks
  | case9 origin depth quote chunks read p c hslash e cs ih =>
    apply ih h hcs.tail.tail _ hchunks
    simpa [TemplateMode.InPlace] using hmode
  | case13 origin chunks read p c cs hquote hopen hclose ih =>
    apply ih h hcs.tail trivial
    -- What was read is all of the code.
    intro source place hmem
    obtain ⟨rfl, rfl⟩ | hmem := by simpa using hmem
    · rw [String.toList_ofList]
      exact hmode.front
    · exact hchunks source place hmem
  | case10 | case11 | case12 | case14 | case15 =>
    rename_i ih
    apply ih h hcs.tail _ hchunks
    simpa [TemplateMode.InPlace] using hmode

/-- Only a template is read as one. -/
theorem scanLexeme_template {p q : Position} {c : Char} {cs rest : List Char}
    {chunks : List TemplateChunk} (h : scanLexeme p c cs = .ok (.template chunks, q, rest)) :
    scanTemplate p .text [] [] (p.step c) cs = .ok (.template chunks, q, rest) := by
  unfold scanLexeme at h
  split at h
  · exact absurd rfl ((scanText_isPlain h).2 chunks)
  split at h
  · exact h
  split at h
  · have hnumber : (scanNumber p (c :: cs)).1 = .template chunks :=
      congrArg Prod.fst (Except.ok.inj h)
    exact absurd hnumber ((scanNumber_isPlain p (c :: cs)).2 chunks)
  split at h
  · have hname : (scanName p (c :: cs)).1 = .template chunks :=
      congrArg Prod.fst (Except.ok.inj h)
    exact absurd hname ((scanName_isPlain p (c :: cs)).2 chunks)
  split at h
  next scanned hsymbol =>
    cases h
    rw [scanSymbol?_eq] at hsymbol
    obtain ⟨_, -, ⟨⟩⟩ := Option.map_eq_some_iff.1 hsymbol
  next => cases h

theorem scanLexeme_inPlace {p q : Position} {c : Char} {cs rest : List Char} {l : Lexeme}
    (hstarts : StartsToken (c :: cs)) (h : scanLexeme p c cs = .ok (l, q, rest))
    (hcs : StandsAt whole p (c :: cs)) :
    Token.InPlace whole ⟨l, p⟩ ∧ StandsAt whole q rest := by
  obtain ⟨x, -, htoken, hspelling, rfl, halone⟩ := scanLexeme_piece (g := []) hstarts h
  have hx := hcs
  rw [hspelling] at hx
  unfold Piece.ReadsAlone at halone
  rw [htoken] at halone
  refine ⟨⟨fun _ => ⟨x.spelling, halone, hx.front⟩, ?_⟩, hx.back⟩
  rintro chunks rfl
  obtain ⟨_, ⟨⟩, hchunks⟩ :=
    scanTemplate_inPlace (scanLexeme_template h) hcs.tail trivial TemplateChunk.InPlace.nil
  exact hchunks

theorem tokensFrom_inPlace {p : Position} {cs : List Char} {tokens : List Token}
    (h : tokensFrom p cs = .ok tokens) (hcs : StandsAt whole p cs) :
    ∀ t ∈ tokens, t.InPlace whole := by
  fun_induction tokensFrom p cs generalizing tokens with
  | case1 | case3 | case4 => cases h
  | case2 p cs q hskip =>
    obtain rfl := Except.ok.inj h
    refine List.forall_mem_singleton.2 ⟨fun hfinish => absurd rfl hfinish, ?_⟩
    rintro _ ⟨⟩
  | case5 p cs q c rest hskip l r more hscan tokens htokens ih =>
    obtain rfl := Except.ok.inj h
    obtain ⟨g, rfl, rfl, -, hstarts⟩ := skipTrivia_gap hskip
    obtain ⟨htoken, hmore⟩ := scanLexeme_inPlace hstarts hscan hcs.back
    exact List.forall_mem_cons.2 ⟨htoken, ih htokens hmore⟩

end Lexer

/-- The tokens of a piece of a text, read from the line and column where it stands, stand in the
text. -/
theorem Token.scanAt_inPlace {whole : List Char} {origin : Position} {source : String}
    {tokens : List Token} (h : Token.scanAt origin source = .ok tokens)
    (hsource : StandsAt whole origin source.toList) : ∀ t ∈ tokens, t.InPlace whole :=
  Lexer.tokensFrom_inPlace h hsource

end ScriptEngine
