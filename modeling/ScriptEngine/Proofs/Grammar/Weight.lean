import ScriptEngine.Grammar.Parse

/-!
# The weight of a text

The weight of tokens bounds how deep their parse may nest. A text weighs at most its length: a token
takes a character or more, and code in a template weighs two more than its characters, which the
signs around it make up for.
-/
namespace ScriptEngine.Grammar
open Text (Position)
open Lexer (TemplateMode scanTemplate scanLexeme)

/-- How many levels of nesting the tokens may bring. -/
def weight (tokens : List Token) : Nat := (tokens.map tokenWeight).foldr Nat.add 0

@[simp] theorem weight_nil : weight [] = 0 := rfl

@[simp] theorem weight_cons (t : Token) (tokens : List Token) :
    weight (t :: tokens) = tokenWeight t + weight tokens := rfl

@[simp] theorem weight_append (ts us : List Token) : weight (ts ++ us) = weight ts + weight us := by
  induction ts with
  | nil => simp
  | cons t ts ih => rw [List.cons_append, weight_cons, weight_cons, ih, Nat.add_assoc]

theorem depthBound_eq (tokens : List Token) : depthBound tokens = 2 * weight tokens + 2 := rfl

theorem tokenWeight_pos (t : Token) : 1 ≤ tokenWeight t := by
  unfold tokenWeight
  split <;> omega

theorem isFinish_iff {l : Lexeme} : Lexeme.isFinish l = true ↔ l = .finish := by
  cases l <;> simp [Lexeme.isFinish]

/-- What chunks may bring. -/
def chunksWeight (chunks : List TemplateChunk) : Nat :=
  (chunks.map chunkWeight).foldr Nat.add 0

@[simp] theorem chunksWeight_nil : chunksWeight [] = 0 := rfl

@[simp] theorem chunksWeight_cons (c : TemplateChunk) (chunks : List TemplateChunk) :
    chunksWeight (c :: chunks) = chunkWeight c + chunksWeight chunks := rfl

theorem chunksWeight_reverse (chunks : List TemplateChunk) :
    chunksWeight chunks.reverse = chunksWeight chunks := by
  have happend (cs ds : List TemplateChunk) :
      chunksWeight (cs ++ ds) = chunksWeight cs + chunksWeight ds := by
    induction cs with
    | nil => simp
    | cons c cs ih => rw [List.cons_append, chunksWeight_cons, chunksWeight_cons, ih, Nat.add_assoc]
  induction chunks with
  | nil => rfl
  | cons c chunks ih =>
    rw [List.reverse_cons, happend, ih, chunksWeight_cons, chunksWeight_nil, chunksWeight_cons]
    omega

theorem tokenWeight_template {t : Token} {chunks : List TemplateChunk}
    (ht : t.lexeme = .template chunks) : tokenWeight t = chunksWeight chunks + 1 := by
  rw [tokenWeight, ht]
  rfl

theorem chunksWeight_flushText (chunks : List TemplateChunk) (read : List Char) :
    chunksWeight (Lexer.flushText chunks read) = chunksWeight chunks := by
  unfold Lexer.flushText
  split <;> simp [chunkWeight]

theorem chunksWeight_closeTemplate (chunks : List TemplateChunk) (read : List Char) :
    chunksWeight (Lexer.closeTemplate chunks read) = chunksWeight chunks := by
  unfold Lexer.closeTemplate
  split <;> simp only [chunksWeight_reverse, chunksWeight_cons, chunkWeight, Nat.zero_add]

/-- What the code that a template scanner is in will weigh if it ends here. -/
def openWeight : TemplateMode → List Char → Nat
  | .text, _ => 0
  | .code .., read => read.length + 2

theorem scanTemplate_weight {start p p' : Position} {mode : TemplateMode}
    {chunks : List TemplateChunk} {read cs rest : List Char} {l : Lexeme}
    (h : scanTemplate start mode chunks read p cs = .ok (l, p', rest)) :
    ∃ all, l = .template all ∧ chunksWeight all + rest.length + 1 ≤
      chunksWeight chunks + openWeight mode read + cs.length := by
  fun_induction scanTemplate start mode chunks read p cs with
  | case1 | case2 | case5 | case8 => cases h
  | case4 chunks read p c cs hplain hquote =>
    obtain ⟨rfl, rfl, rfl⟩ : _ = l ∧ _ = p' ∧ cs = rest := by simpa using h
    exact ⟨_, rfl, by simp [chunksWeight_closeTemplate, openWeight, Nat.add_assoc]⟩
  | _ =>
    rename_i ih
    obtain ⟨all, rfl, hall⟩ := ih h
    refine ⟨all, rfl, ?_⟩
    simp only [chunksWeight_flushText, chunksWeight_cons, chunkWeight, openWeight, List.length_cons,
      List.length_reverse, List.length_nil, String.length_ofList] at hall ⊢
    omega

/-- Lexemes that weigh as little as a lexeme can. -/
theorem tokenWeight_of_ne {t : Token} (h : ∀ chunks, t.lexeme ≠ .template chunks) :
    tokenWeight t = 1 := by
  unfold tokenWeight
  split
  next chunks hl => exact absurd hl (h chunks)
  next => rfl

/-- Lexemes that hold no code and do not end the tokens. -/
def IsPlain (l : Lexeme) : Prop := l ≠ .finish ∧ ∀ chunks, l ≠ .template chunks

theorem scanText_isPlain {quote : Char} {start p p' : Position} {read cs rest : List Char}
    {l : Lexeme} (h : Lexer.scanText quote start read p cs = .ok (l, p', rest)) : IsPlain l := by
  fun_induction Lexer.scanText quote start read p cs with
  | case1 | case3 => cases h
  | case2 =>
    obtain ⟨rfl, -⟩ := Prod.mk.inj (Except.ok.inj h)
    simp [IsPlain]
  | case4 _ _ _ _ _ _ _ ih | case5 _ _ _ _ _ _ ih => exact ih h

theorem scanNumber_isPlain (p : Position) (cs : List Char) : IsPlain (Lexer.scanNumber p cs).1 := by
  simp only [Lexer.scanNumber]
  split
  · split <;> simp [IsPlain]
  · simp [IsPlain]

theorem scanName_isPlain (p : Position) (cs : List Char) : IsPlain (Lexer.scanName p cs).1 := by
  simp only [Lexer.scanName, Lexer.nameOrKeyword]
  split <;> simp [IsPlain]

/-- A token weighs no more than what it takes. -/
theorem scanLexeme_weight {p p' q : Position} {c : Char} {cs rest : List Char} {l : Lexeme}
    (h : scanLexeme p c cs = .ok (l, p', rest)) :
    l ≠ .finish ∧ tokenWeight ⟨l, q⟩ + rest.length ≤ cs.length + 1 := by
  have hlength : rest.length < cs.length + 1 := Lexer.scanLexeme_length h
  have hplain (hl : IsPlain l) :
      l ≠ .finish ∧ tokenWeight ⟨l, q⟩ + rest.length ≤ cs.length + 1 := by
    rw [tokenWeight_of_ne hl.2]
    exact ⟨hl.1, by omega⟩
  unfold scanLexeme at h
  split at h
  · exact hplain (scanText_isPlain h)
  split at h
  · obtain ⟨chunks, rfl, hchunks⟩ := scanTemplate_weight h
    refine ⟨nofun, ?_⟩
    rw [tokenWeight_template rfl]
    simp only [chunksWeight_nil, openWeight] at hchunks
    omega
  split at h
  · have hscanned := scanNumber_isPlain p (c :: cs)
    rw [Except.ok.inj h] at hscanned
    exact hplain hscanned
  split at h
  · have hscanned := scanName_isPlain p (c :: cs)
    rw [Except.ok.inj h] at hscanned
    exact hplain hscanned
  split at h
  next scanned hsymbol =>
    obtain ⟨s, -, hs⟩ := List.exists_of_findSome?_eq_some hsymbol
    obtain ⟨after, -, rfl⟩ := Option.map_eq_some_iff.1 hs
    obtain ⟨rfl, -⟩ := Prod.mk.inj (Except.ok.inj h)
    exact hplain (by simp [IsPlain])
  next => cases h

/-- The tokens of a text are plain up to the last and weigh no more than the text. -/
theorem tokensFrom_weight {p : Position} {cs : List Char} {tokens : List Token}
    (h : Lexer.tokensFrom p cs = .ok tokens) :
    ∃ init finish, tokens = init ++ [finish] ∧ (∀ t ∈ init, Lexeme.isFinish t.lexeme = false) ∧
      Lexeme.isFinish finish.lexeme = true ∧ weight init ≤ cs.length := by
  fun_induction Lexer.tokensFrom p cs generalizing tokens with
  | case1 | case3 | case4 => cases h
  | case2 p cs q hskip =>
    obtain rfl := Except.ok.inj h
    exact ⟨[], _, rfl, by simp, rfl, Nat.zero_le _⟩
  | case5 p cs q c rest hskip l r more hscan tokens htokens ih =>
    obtain rfl := Except.ok.inj h
    obtain ⟨init, finish, rfl, hplain, hfinish, hweight⟩ := ih htokens
    obtain ⟨hne, hl⟩ := scanLexeme_weight (q := q) hscan
    have hskipped := Lexer.skipTrivia_length hskip
    rw [List.length_cons] at hskipped
    refine ⟨⟨l, q⟩ :: init, finish, rfl, ?_, hfinish, ?_⟩
    · refine List.forall_mem_cons.2 ⟨?_, hplain⟩
      exact Bool.eq_false_iff.2 fun hl => hne (isFinish_iff.1 hl)
    · rw [weight_cons]
      omega

end ScriptEngine.Grammar
