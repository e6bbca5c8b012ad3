import ScriptEngine.Proofs.Grammar.Productions

/-!
# Parsing ends without a fault

Whatever text or tokens the parser is given, it ends with a program or blames the text. Where it
starts over, for the code in a template, that code is shorter than the text.
-/
namespace ScriptEngine.Grammar
open Text (Position)

/-- The parsers for the elements of a pattern. -/
inductive ElementOf (d : Deeper) : Parser Pattern → Prop
  | binding : ElementOf d (d.parse .bindingPattern)
  | matched : ElementOf d (d.parse .matchPattern)

/-- The productions for patterns, expressions and statements, and for the parts of these that have
productions of their own, where they are entered with `first` as the next lexeme. -/
inductive Production (d : Deeper) (first : Lexeme) : {α : Type} → Parser α → Prop
  | pattern {element p : Parser Pattern} (helement : ElementOf d element)
    (hp : p ∈ [bindingPattern d, matchPattern d, arrayPattern d element, objectPattern d element]) :
    Production d first p
  | patternElement {element : Parser Pattern} (helement : ElementOf d element) :
    Production d first (patternElement element)
  | patternField {element : Parser Pattern} (helement : ElementOf d element) :
    Production d first (patternField element)
  | typeName : Production d first (typeName d)
  | expression {p : Parser Expr} (hp : p ∈ [expression d, pipe d, coalesce d, either d, both d,
      equality d, comparison d, sum d, product d, unary d, access d, primary d, arrayLiteral d,
      objectLiteral d, closedExpression d]) :
    Production d first p
  | condition (word : String) : Production d first (condition d word)
  | functionLiteral (position : Position) : Production d first (functionLiteral d position)
  | arrowRest (params : List (Pattern × Option Expr)) (position : Position) :
    Production d first (arrowRest d params position)
  | parenthesized (hfirst : first = .symbol .openParen) (position : Position) :
    Production d first (parenthesized d position)
  | arrayElement : Production d first (arrayElement d)
  | objectField : Production d first (objectField d)
  | parameter : Production d first (parameter d)
  | parameters : Production d first (parameters d)
  | body : Production d first (body d)
  | functionRest (name : String) (isAsync : Bool) (position : Position) :
    Production d first (functionRest d name isAsync position)
  | method : Production d first (method d)
  | loopStart : Production d first (loopStart d)
  | arm : Production d first (arm d)
  | statement {p : Parser Stmt} (position : Position) (isAsync : Bool)
    (hp : p ∈ [statement d, declaration d position, constantDeclaration d position,
      functionDeclaration d isAsync, classDeclaration d]) :
    Production d first p
  | entered {p : Parser Stmt} (hfirst : first ≠ .finish) (position : Position)
    (hp : p ∈ [branch d position, conditionalLoop d position, countingLoop d position,
      attempt d position, selection d position, returnStatement d position]) :
    Production d first p

theorem ElementOf.steady {k : Nat} {d : Deeper} (hd : SteadyBelow k d d) {element : Parser Pattern}
    (h : ElementOf d element) : Steady 1 k element element := by
  cases h with
  | binding => exact hd.parse .bindingPattern
  | matched => exact hd.parse .matchPattern

/-- A run from the lexeme `first` on. -/
def StartsWith (first : Lexeme) (tokens : List Token) : Prop :=
  ∃ t more, tokens = t :: more ∧ t.lexeme = first

/-- Every production takes a token if it succeeds. -/
theorem Production.proceeds {k : Nat} {d : Deeper} (hd : SteadyBelow k d d) {first : Lexeme}
    {α : Type} {p : Parser α} (hp : Production d first p) {tokens rest : List Token}
    (hclosed : Closed tokens rest) (hweight : weight tokens < k)
    (hstart : StartsWith first (tokens ++ rest)) :
    Proceeds 1 tokens rest (p.run (tokens ++ rest)) := by
  have heven {α : Type} {p : Parser α} (h : Steady 1 k p p) :
      Proceeds 1 tokens rest (p.run (tokens ++ rest)) := (h hclosed hweight).2
  have hlower {α : Type} {p : Parser α} (h : Steady 1 (k + 1) p p) :
      Proceeds 1 tokens rest (p.run (tokens ++ rest)) := (h hclosed (Nat.lt_succ_of_lt hweight)).2
  have hentered {α : Type} {p : Parser α} (hfirst : first ≠ .finish)
      (h : ∀ t : Token, t.lexeme = first → SteadyAt t 1 (k + 1) p p) :
      Proceeds 1 tokens rest (p.run (tokens ++ rest)) := by
    obtain ⟨t, more, hmore, rfl⟩ := hstart
    cases tokens with
    | nil =>
      obtain ⟨finish, _, rfl, hfinish⟩ := hclosed.ends
      obtain ⟨rfl, -⟩ := List.cons.inj hmore
      exact absurd (isFinish_iff.1 hfinish) hfirst
    | cons u tokens =>
      obtain ⟨rfl, -⟩ := List.cons.inj hmore
      exact (h u rfl hclosed (Nat.lt_succ_of_lt hweight)).2
  cases hp with
  | pattern helement hp =>
    have helement' := helement.steady hd
    simp only [List.mem_cons, List.not_mem_nil, or_false] at hp
    obtain rfl | rfl | rfl | rfl := hp
    · exact hlower (bindingPattern_steady hd)
    · exact hlower (matchPattern_steady hd)
    · exact hlower (arrayPattern_steady hd helement')
    · exact hlower (objectPattern_steady hd helement')
  | patternElement helement => exact heven (patternElement_steady (helement.steady hd))
  | patternField helement => exact heven (patternField_steady (helement.steady hd))
  | typeName => exact hlower (typeName_steady hd)
  | expression hp =>
    simp only [List.mem_cons, List.not_mem_nil, or_false] at hp
    obtain rfl | rfl | rfl | rfl | rfl | rfl | rfl | rfl | rfl | rfl | rfl | rfl | rfl | rfl |
      rfl := hp
    · exact hlower (expression_steady hd)
    · exact hlower (pipe_steady hd)
    · exact hlower (coalesce_steady hd)
    · exact hlower (either_steady hd)
    · exact hlower (both_steady hd)
    · exact hlower (equality_steady hd)
    · exact hlower (comparison_steady hd)
    · exact hlower (sum_steady hd)
    · exact hlower (product_steady hd)
    · exact hlower (unary_steady hd)
    · exact hlower (access_steady hd)
    · exact hlower (primary_steady hd)
    · exact hlower (arrayLiteral_steady hd)
    · exact hlower (objectLiteral_steady hd)
    · exact hlower (closedExpression_steady hd)
  | condition word => exact hlower (condition_steady hd word)
  | functionLiteral position => exact hlower (functionLiteral_steady hd position)
  | arrowRest params position => exact heven (arrowRest_steady hd params position)
  | parenthesized hfirst position =>
    subst hfirst
    exact hentered nofun fun t ht => parenthesized_steady hd ht position
  | arrayElement => exact heven (arrayElement_steady hd)
  | objectField => exact heven (objectField_steady hd)
  | parameter => exact hlower (parameter_steady hd)
  | parameters => exact heven (parameters_steady hd)
  | body => exact hlower (body_steady hd)
  | functionRest name isAsync position =>
    exact hlower (functionRest_steady hd name isAsync position)
  | method => exact hlower (method_steady hd)
  | loopStart => exact hlower (loopStart_steady hd)
  | arm => exact hlower (arm_steady hd)
  | statement position isAsync hp =>
    simp only [List.mem_cons, List.not_mem_nil, or_false] at hp
    obtain rfl | rfl | rfl | rfl | rfl := hp
    · exact hlower (statement_steady hd)
    · exact hlower (declaration_steady hd position)
    · exact hlower (constantDeclaration_steady hd position)
    · exact hlower (functionDeclaration_steady hd isAsync)
    · exact hlower (classDeclaration_steady hd)
  | entered hfirst position hp =>
    simp only [List.mem_cons, List.not_mem_nil, or_false] at hp
    obtain rfl | rfl | rfl | rfl | rfl | rfl := hp
    · exact hentered hfirst fun t _ => branch_steady hd t position
    · exact hentered hfirst fun t _ => conditionalLoop_steady hd t position
    · exact hentered hfirst fun t _ => countingLoop_steady hd t position
    · exact hentered hfirst fun t _ => attempt_steady hd t position
    · exact hentered hfirst fun t _ => selection_steady hd t position
    · exact hentered hfirst fun t _ => returnStatement_steady hd t position

/-! Whole texts -/

/-- Tokens with a finish token among them are closed by the first one. -/
theorem exists_closed {tokens : List Token} (h : ∃ t ∈ tokens, Lexeme.isFinish t.lexeme = true) :
    ∃ init rest, tokens = init ++ rest ∧ Closed init rest := by
  induction tokens with
  | nil => simp at h
  | cons t tokens ih =>
    cases ht : Lexeme.isFinish t.lexeme with
    | true => exact ⟨[], t :: tokens, rfl, List.forall_mem_nil _, t, tokens, rfl, ht⟩
    | false =>
      obtain ⟨u, hu, hfinish⟩ := h
      have hmore : u ∈ tokens := by
        obtain rfl | hu := List.mem_cons.1 hu
        · simp [ht] at hfinish
        · exact hu
      obtain ⟨init, rest, rfl, hclosed⟩ := ih ⟨u, hmore, hfinish⟩
      exact ⟨t :: init, rest, rfl, List.forall_mem_cons.2 ⟨ht, hclosed.plain⟩, hclosed.ends⟩

/-- What the parser is given has a finish token, whether the tokens had one or not. -/
theorem finished_closed (tokens : List Token) :
    ∃ init rest, finished tokens = init ++ rest ∧ Closed init rest ∧
      weight init < depthBound tokens := by
  have hfinish : ∃ t ∈ finished tokens, Lexeme.isFinish t.lexeme = true := by
    unfold finished
    split
    next => exact ⟨_, List.mem_singleton_self _, rfl⟩
    next t ht =>
      split
      next hfinish => exact ⟨t, List.mem_of_getLast? ht, hfinish⟩
      next => exact ⟨_, List.mem_append_right _ (List.mem_singleton_self _), rfl⟩
  have hweight : weight (finished tokens) ≤ weight tokens + 1 := by
    unfold finished
    split
    next => exact Nat.le_add_left 1 _
    next =>
      split
      next => exact Nat.le_succ _
      next => simp [tokenWeight]
  obtain ⟨init, rest, hsplit, hclosed⟩ := exists_closed hfinish
  rw [hsplit, weight_append] at hweight
  refine ⟨init, rest, hsplit, hclosed, ?_⟩
  rw [depthBound_eq]
  omega

/-- How deep the parser may nest makes no difference from the bound on. -/
theorem statements_run_of_le {tokens : List Token} {n : Nat} (hn : depthBound tokens ≤ n) :
    ((statements ⟨n, parseWithin n⟩).run (finished tokens)).map Prod.fst = parseTokens tokens := by
  obtain ⟨init, rest, hsplit, hclosed, hweight⟩ := finished_closed tokens
  have hsteady := statements_steady (steadyBelow_parseWithin (Nat.le_refl (depthBound tokens)) hn)
  rw [parseTokens, hsplit, (hsteady hclosed hweight).1]

theorem parseTokens_faultless {tokens : List Token} {e : ParseError}
    (h : parseTokens tokens = .error e) : ¬e.IsFault := by
  obtain ⟨init, rest, hsplit, hclosed, hweight⟩ := finished_closed tokens
  have hbelow := steadyBelow_parseWithin (Nat.le_refl (depthBound tokens)) (Nat.le_refl _)
  obtain ⟨-, hout⟩ := statements_steady hbelow hclosed hweight
  rw [parseTokens, hsplit] at h
  revert h hout
  generalize (statements ⟨_, parseWithin (depthBound tokens)⟩).run (init ++ rest) = x
  intro h hout
  cases hout with
  | ok => cases h
  | error he =>
    cases h
    exact he

theorem parse_faultless {source : String} {e : ParseError} (h : parse source = .error e) :
    ¬e.IsFault := by
  unfold parse at h
  split at h
  · cases h
    exact id
  · exact parseTokens_faultless h

theorem chunkWeight_le {c : TemplateChunk} {chunks : List TemplateChunk} (hc : c ∈ chunks) :
    chunkWeight c ≤ chunksWeight chunks := by
  induction chunks with
  | nil => cases hc
  | cons c' chunks ih =>
    rw [chunksWeight_cons]
    obtain rfl | hc := List.mem_cons.1 hc
    · omega
    · have := ih hc
      omega

theorem tokenWeight_le {t : Token} {tokens : List Token} (ht : t ∈ tokens) :
    tokenWeight t ≤ weight tokens := by
  induction tokens with
  | nil => cases ht
  | cons u tokens ih =>
    rw [weight_cons]
    obtain rfl | ht := List.mem_cons.1 ht
    · omega
    · have := ih ht
      omega

/-- The code of an interpolation is shorter than the text that it stands in. -/
theorem interpolation_shorter {text : String} {origin position : Position} {tokens : List Token}
    (hscan : Token.scanAt origin text = .ok tokens) {t : Token} (ht : t ∈ tokens)
    {chunks : List TemplateChunk} (hchunks : t.lexeme = .template chunks) {source : String}
    (hsource : .code source position ∈ chunks) : source.length < text.length := by
  obtain ⟨init, finish, rfl, -, hfinish, hweight⟩ := tokensFrom_weight hscan
  rw [String.length_toList] at hweight
  have hinit : t ∈ init := by
    obtain hinit | hlast := List.mem_append.1 ht
    · exact hinit
    · obtain rfl := List.mem_singleton.1 hlast
      rw [hchunks] at hfinish
      cases hfinish
  have hcode := chunkWeight_le hsource
  have htoken := tokenWeight_le hinit
  rw [tokenWeight_template hchunks] at htoken
  rw [chunkWeight] at hcode
  omega

/-- Parsing ends without a fault, with a program or with an error to be blamed on the text, for
every text and all tokens, and no bound on the depth is reached. Every production that succeeds has
taken a token, and none from the first finish token on. The code in a template, which is scanned and
parsed anew, is shorter than the text. -/
theorem parsing_ends_without_fault :
    (∀ source e, parse source = .error e → ¬e.IsFault) ∧
    (∀ tokens, (∀ e, parseTokens tokens = .error e → ¬e.IsFault) ∧
      ∀ n, depthBound tokens ≤ n →
        ((statements ⟨n, parseWithin n⟩).run (finished tokens)).map Prod.fst =
          parseTokens tokens) ∧
    (∀ tokens, ∃ init rest, finished tokens = init ++ rest ∧ Closed init rest ∧
      weight init < depthBound tokens) ∧
    (∀ n first tokens rest, Closed tokens rest → weight tokens < n →
      StartsWith first (tokens ++ rest) → ∀ {α : Type} (p : Parser α),
        Production ⟨n, parseWithin n⟩ first p → Proceeds 1 tokens rest (p.run (tokens ++ rest))) ∧
    ∀ text origin tokens, Token.scanAt origin text = .ok tokens → ∀ t ∈ tokens,
      ∀ chunks, t.lexeme = .template chunks → ∀ source position,
        .code source position ∈ chunks → source.length < text.length := by
  refine ⟨fun _ _ h => parse_faultless h, fun tokens => ⟨fun _ h => parseTokens_faultless h,
    fun _ hn => statements_run_of_le hn⟩, finished_closed, ?_, ?_⟩
  · intro n first tokens rest hclosed hweight hstart α p hp
    exact hp.proceeds (steadyBelow_parseWithin (Nat.le_refl n) (Nat.le_refl n)) hclosed hweight
      hstart
  · intro text origin tokens hscan t ht chunks hchunks source position hsource
    exact interpolation_shorter hscan ht hchunks hsource

end ScriptEngine.Grammar
