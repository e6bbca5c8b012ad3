import ScriptEngine.Proofs.Token.Writing
import ScriptEngine.Text.Blank

/-!
# Text that arrives in lines

Where a text is cut at the end of a line, either a literal or a comment is open there, or the lexer
reads what comes before the cut as it reads it alone.
-/
namespace ScriptEngine
open Text (Position)

/-- The code points of a set, one by one. -/
def Text.CodeRanges.members (ranges : Text.CodeRanges) : List Nat :=
  ranges.flatMap fun r => List.range' r.1 (r.2 + 1 - r.1)

theorem Text.CodeRanges.mem_members {ranges : Text.CodeRanges} {n : Nat}
    (h : ranges.covers n = true) : n ∈ ranges.members := by
  induction ranges with
  | nil => cases h
  | cons r rest ih =>
    rw [covers] at h
    split at h
    next => cases h
    next hlow =>
      rw [members, List.flatMap_cons, List.mem_append, List.mem_range'_1]
      obtain hhigh | hrest := Bool.or_eq_true_iff.1 h
      · have hn := of_decide_eq_true hhigh
        exact .inl (by omega)
      · exact .inr (ih hrest)

/-- Something that begins in the text does not end in it. -/
def LexError.IsOpen : LexError → Prop
  | .openComment _ | .openText _ | .openTemplate _ | .openInterpolation _ => True
  | .openEscape | .strayCharacter .. => False

namespace Lexer

/-- The text is empty or ends with a line break. -/
def WholeLines (cs : List Char) : Prop := ∀ c ∈ cs.getLast?, c = '\n'

namespace WholeLines

variable {c : Char} {cs as bs : List Char}

theorem nil : WholeLines [] := nofun

theorem tail (h : WholeLines (c :: cs)) : WholeLines cs := by
  cases cs with
  | nil => exact nil
  | cons d cs =>
    rw [WholeLines, List.getLast?_cons_cons] at h
    exact h

theorem of_append (h : WholeLines (as ++ bs)) : WholeLines bs := by
  induction as with
  | nil => exact h
  | cons c as ih => exact ih h.tail

theorem append (has : WholeLines as) (hbs : WholeLines bs) : WholeLines (as ++ bs) := by
  intro c hc
  rw [List.getLast?_append] at hc
  cases hlast : bs.getLast? with
  | none =>
    rw [hlast, Option.none_or] at hc
    exact has c hc
  | some b =>
    rw [hlast, Option.some_or] at hc
    exact hbs c (hlast.trans hc)

theorem ne_nil (h : WholeLines (c :: cs)) (hc : c ≠ '\n') : cs ≠ [] := by
  rintro rfl
  exact hc (h c rfl)

theorem mem (h : WholeLines cs) (hcs : cs ≠ []) : '\n' ∈ cs := by
  have hlast := List.getLast?_eq_some_getLast hcs
  rw [← h _ hlast]
  exact List.getLast_mem hcs

end WholeLines

variable {p q start : Position} {mode : Trivia} {cs rest read : List Char} {l : Lexeme}
  {e : LexError}

/-! Gaps -/

theorem skipTrivia_error (h : skipTrivia mode p cs = .error e) : e.IsOpen := by
  fun_induction skipTrivia mode p cs with
  | case1 =>
    obtain rfl := Except.error.inj h
    trivial
  | _ => simp_all

/-- What is skipped of whole lines is skipped whatever follows. -/
theorem skipTrivia_append (h : skipTrivia mode p cs = .ok (q, rest)) (hcs : WholeLines cs)
    (hline : mode = .line → cs ≠ []) (more : List Char) :
    skipTrivia mode p (cs ++ more) = skipTrivia .between q (rest ++ more) := by
  fun_induction skipTrivia mode p cs with
  | case1 => cases h
  | case2 mode p hmode =>
    obtain ⟨rfl, rfl⟩ := Prod.mk.inj (Except.ok.inj h)
    cases mode with
    | between => rfl
    | line => exact absurd rfl (hline rfl)
    | block start => exact (hmode start rfl).elim
  | case3 p cs ih => exact ih h hcs.tail.tail fun _ => hcs.tail.ne_nil (by decide)
  | case4 p cs ih => exact ih h hcs.tail.tail (by simp)
  | case5 p c cs hline hblock hgap ih =>
    rw [← ih h hcs.tail (by simp), List.cons_append, skipTrivia, if_pos hgap]
    all_goals
      rintro _ rfl
      exact absurd hgap (by decide)
  | case6 p c cs hline hblock hgap =>
    obtain ⟨rfl, rfl⟩ := Prod.mk.inj (Except.ok.inj h)
    rfl
  | case7 p c cs ih =>
    rw [List.cons_append, skipTrivia]
    refine ih h hcs.tail fun hmode => hcs.ne_nil ?_
    rintro rfl
    cases hmode
  | case8 start p cs ih => exact ih h hcs.tail.tail (by simp)
  | case9 start p c cs hclose ih =>
    rw [List.cons_append, skipTrivia]
    · exact ih h hcs.tail (by simp)
    · rintro more' rfl hmore
      obtain ⟨d, cs, rfl⟩ := List.exists_cons_of_ne_nil (hcs.ne_nil (by decide))
      obtain ⟨rfl, -⟩ := List.cons.inj hmore
      exact hclose cs rfl rfl

theorem StartsToken.append {c : Char} (h : StartsToken (c :: cs)) (hcs : WholeLines (c :: cs))
    (more : List Char) : StartsToken (c :: (cs ++ more)) := by
  refine ⟨h.1, fun hc d hd => h.2 hc d ?_⟩
  obtain ⟨e, cs, rfl⟩ := List.exists_cons_of_ne_nil (hcs.ne_nil (by rw [hc]; decide))
  exact hd

/-! Literals -/

theorem scanText_append {quote : Char}
    (h : scanText quote start read p cs = .ok (l, q, rest)) (more : List Char) :
    scanText quote start read p (cs ++ more) = .ok (l, q, rest ++ more) := by
  fun_induction scanText quote start read p cs with
  | case1 | case3 => cases h
  | case2 read p c cs hquote =>
    obtain ⟨rfl, rfl, rfl⟩ : _ = l ∧ _ = q ∧ cs = rest := by simpa using h
    rw [List.cons_append, scanText.eq_def]
    simp [hquote]
  | case4 read p c hquote hslash e cs ih => simpa [scanText, hquote, hslash] using ih h
  | case5 read p c cs hquote hslash ih =>
    rw [List.cons_append, scanText.eq_def]
    simpa [hquote, hslash] using ih h

theorem scanText_error {quote : Char} (h : scanText quote start read p cs = .error e)
    (hcs : WholeLines cs) : e.IsOpen := by
  fun_induction scanText quote start read p cs with
  | case1 =>
    obtain rfl := Except.error.inj h
    trivial
  | case2 => cases h
  | case3 read p c hquote hslash =>
    obtain rfl : c = '\\' := by simpa using hslash
    exact absurd rfl (hcs.ne_nil (by decide))
  | case4 read p c hquote hslash e cs ih => exact ih h hcs.tail.tail
  | case5 read p c cs hquote hslash ih => exact ih h hcs.tail

theorem scanTemplate_append {mode : TemplateMode} {chunks : List TemplateChunk}
    (h : scanTemplate start mode chunks read p cs = .ok (l, q, rest)) (more : List Char) :
    scanTemplate start mode chunks read p (cs ++ more) = .ok (l, q, rest ++ more) := by
  fun_induction scanTemplate start mode chunks read p cs with
  | case1 | case2 | case5 | case8 => cases h
  | case3 chunks read p cs origin ih => exact ih h
  | case4 chunks read p c cs hplain hquote =>
    obtain ⟨rfl, rfl, rfl⟩ : _ = l ∧ _ = q ∧ cs = rest := by simpa using h
    rw [List.cons_append, scanTemplate.eq_def]
    obtain rfl : c = '`' := by simpa using hquote
    simp
  | case6 chunks read p c hquote hslash e cs hplain ih =>
    obtain rfl : c = '\\' := by simpa using hslash
    exact ih h
  | case7 chunks read p c cs hplain hquote hslash ih =>
    -- A dollar sign at the end would leave the template open.
    have hplain' : ∀ cs', c = '$' → cs ++ more = '{' :: cs' → False := by
      rintro cs' rfl hmore
      cases cs with
      | nil => cases h
      | cons d cs => exact hplain cs rfl (by rw [(List.cons.inj hmore).1])
    rw [List.cons_append, scanTemplate.eq_def]
    simpa [hplain', hquote, hslash] using ih h
  | case9 origin depth quote chunks read p c hslash e cs ih =>
    obtain rfl : c = '\\' := by simpa using hslash
    exact ih h
  | case10 origin depth quote chunks read p c cs hslash ih =>
    rw [List.cons_append, scanTemplate.eq_def]
    simpa [hslash] using ih h
  | case11 | case12 | case13 | case14 | case15 =>
    rename_i ih
    rw [List.cons_append, scanTemplate.eq_def]
    have hnext := ih h
    clear ih h
    simp [*]

theorem scanTemplate_error {mode : TemplateMode} {chunks : List TemplateChunk}
    (h : scanTemplate start mode chunks read p cs = .error e) (hcs : WholeLines cs) :
    e.IsOpen := by
  fun_induction scanTemplate start mode chunks read p cs with
  | case1 | case2 =>
    obtain rfl := Except.error.inj h
    trivial
  | case4 => cases h
  | case5 chunks read p c hquote hslash =>
    obtain rfl : c = '\\' := by simpa using hslash
    exact absurd rfl (hcs.ne_nil (by decide))
  | case8 origin depth quote chunks read p c hslash =>
    obtain rfl : c = '\\' := by simpa using hslash
    exact absurd rfl (hcs.ne_nil (by decide))
  | case3 | case6 | case9 =>
    rename_i ih
    exact ih h hcs.tail.tail
  | case7 | case10 | case11 | case12 | case13 | case14 | case15 =>
    rename_i ih
    exact ih h hcs.tail

/-! Runs of characters -/

theorem takeWhile_append {f : Char → Bool} (hf : f '\n' = false) (hcs : '\n' ∈ cs)
    (more : List Char) : (cs ++ more).takeWhile f = cs.takeWhile f := by
  induction cs with
  | nil => cases hcs
  | cons c cs ih =>
    by_cases hc : f c
    · have hmem : '\n' ∈ cs := (List.mem_cons.1 hcs).resolve_left fun h => by simp [← h, hf] at hc
      rw [List.cons_append, List.takeWhile_cons_of_pos hc, List.takeWhile_cons_of_pos hc, ih hmem]
    · rw [List.cons_append, List.takeWhile_cons_of_neg hc, List.takeWhile_cons_of_neg hc]

theorem dropWhile_append {f : Char → Bool} (hf : f '\n' = false) (hcs : '\n' ∈ cs)
    (more : List Char) : (cs ++ more).dropWhile f = cs.dropWhile f ++ more := by
  induction cs with
  | nil => cases hcs
  | cons c cs ih =>
    by_cases hc : f c
    · have hmem : '\n' ∈ cs := (List.mem_cons.1 hcs).resolve_left fun h => by simp [← h, hf] at hc
      rw [List.cons_append, List.dropWhile_cons_of_pos hc, List.dropWhile_cons_of_pos hc, ih hmem]
    · rw [List.cons_append, List.dropWhile_cons_of_neg hc, List.dropWhile_cons_of_neg hc,
        List.cons_append]

theorem mem_dropWhile {f : Char → Bool} (hf : f '\n' = false) (hcs : '\n' ∈ cs) :
    '\n' ∈ cs.dropWhile f := by
  rw [← List.takeWhile_append_dropWhile (p := f) (l := cs)] at hcs
  refine (List.mem_append.1 hcs).resolve_left fun h => ?_
  exact Bool.false_ne_true (hf.symm.trans (List.mem_takeWhile_imp h))

theorem scanName_append (hcs : '\n' ∈ cs) (more : List Char) :
    scanName p (cs ++ more) =
      ((scanName p cs).1, (scanName p cs).2.1, (scanName p cs).2.2 ++ more) := by
  have hf : continuesName '\n' = false := by decide
  simp only [scanName, takeWhile_append hf hcs, dropWhile_append hf hcs]

theorem scanNumber_append (hcs : '\n' ∈ cs) (more : List Char) :
    scanNumber p (cs ++ more) =
      ((scanNumber p cs).1, (scanNumber p cs).2.1, (scanNumber p cs).2.2 ++ more) := by
  have hf : Char.isDigit '\n' = false := rfl
  have hrest := mem_dropWhile hf hcs
  simp only [scanNumber, takeWhile_append hf hcs, dropWhile_append hf hcs]
  obtain ⟨c, rest, hdrop⟩ := List.exists_cons_of_ne_nil (List.ne_nil_of_mem hrest)
  rw [hdrop] at hrest ⊢
  by_cases hpoint : c = '.'
  · subst hpoint
    have hmem : '\n' ∈ rest := (List.mem_cons.1 hrest).resolve_left (by decide)
    obtain ⟨d, rest, rfl⟩ := List.exists_cons_of_ne_nil (List.ne_nil_of_mem hmem)
    have htake := takeWhile_append hf hmem more
    have hdrop := dropWhile_append hf hmem more
    rw [List.cons_append] at htake hdrop
    simp only [List.cons_append, htake, hdrop]
    split <;> rfl
  · simp [hpoint]

theorem afterLead?_append {lead : List Char} (hlead : '\n' ∉ lead) (hcs : '\n' ∈ cs)
    (more : List Char) : afterLead? lead (cs ++ more) = (afterLead? lead cs).map (· ++ more) := by
  induction lead generalizing cs with
  | nil => rfl
  | cons d lead ih =>
    obtain ⟨c, cs, rfl⟩ := List.exists_cons_of_ne_nil (List.ne_nil_of_mem hcs)
    rw [List.cons_append, afterLead?, afterLead?]
    split
    next hc =>
      obtain rfl : d = c := by simpa using hc
      exact ih (List.not_mem_of_not_mem_cons hlead)
        ((List.mem_cons.1 hcs).resolve_left (List.ne_of_not_mem_cons hlead))
    next => rfl

theorem scanSymbol?_append (hcs : '\n' ∈ cs) (more : List Char) :
    scanSymbol? p (cs ++ more) =
      (scanSymbol? p cs).map fun scanned => (scanned.1, scanned.2.1, scanned.2.2 ++ more) := by
  have hspelling (s : Symbol) : '\n' ∉ s.spelling.toList := by cases s <;> decide
  unfold scanSymbol?
  rw [List.map_findSome?]
  refine congrArg (List.findSome? · _) (funext fun s => ?_)
  rw [afterLead?_append (hspelling s) hcs]
  simp [Option.map_map, Function.comp_def]

/-! Tokens -/

theorem scanLexeme_append {c : Char} (h : scanLexeme p c cs = .ok (l, q, rest))
    (hcs : WholeLines (c :: cs)) (more : List Char) :
    scanLexeme p c (cs ++ more) = .ok (l, q, rest ++ more) := by
  have hmem : '\n' ∈ c :: cs := hcs.mem (List.cons_ne_nil c cs)
  unfold scanLexeme at h ⊢
  split at h
  case isTrue hquote => rw [if_pos hquote, scanText_append h]
  case isFalse hquote =>
  rw [if_neg hquote]
  split at h
  case isTrue htick => rw [if_pos htick, scanTemplate_append h]
  case isFalse htick =>
  rw [if_neg htick]
  split at h
  case isTrue hdigit =>
    rw [if_pos hdigit, ← List.cons_append, scanNumber_append hmem, Except.ok.inj h]
  case isFalse hdigit =>
  rw [if_neg hdigit]
  split at h
  case isTrue hname => rw [if_pos hname, ← List.cons_append, scanName_append hmem, Except.ok.inj h]
  case isFalse hname =>
  rw [if_neg hname, ← List.cons_append, scanSymbol?_append hmem]
  split at h
  next scanned hscanned =>
    rw [hscanned, Except.ok.inj h]
    rfl
  next => cases h

/-- Either something is left open, or the error remains. -/
theorem scanLexeme_error {c : Char} (h : scanLexeme p c cs = .error e)
    (hcs : WholeLines (c :: cs)) :
    e.IsOpen ∨ ∀ more, scanLexeme p c (cs ++ more) = .error e := by
  have hmem : '\n' ∈ c :: cs := hcs.mem (List.cons_ne_nil c cs)
  unfold scanLexeme at h ⊢
  split at h
  case isTrue hquote => exact .inl (scanText_error h hcs.tail)
  case isFalse hquote =>
  split at h
  case isTrue htick => exact .inl (scanTemplate_error h hcs.tail)
  case isFalse htick =>
  split at h
  case isTrue hdigit => cases h
  case isFalse hdigit =>
  split at h
  case isTrue hname => cases h
  case isFalse hname =>
  refine .inr fun more => ?_
  rw [if_neg hquote, if_neg htick, if_neg hdigit, if_neg hname, ← List.cons_append,
    scanSymbol?_append hmem]
  split at h
  next => cases h
  next hnone =>
    rw [hnone]
    exact h

/-- What whole lines skip up to a token, they skip whatever follows. -/
theorem skipTrivia_token {c : Char} (h : skipTrivia .between p cs = .ok (q, c :: rest))
    (hcs : WholeLines cs) (more : List Char) :
    skipTrivia .between p (cs ++ more) = .ok (q, c :: (rest ++ more)) ∧
      WholeLines (c :: rest) := by
  obtain ⟨g, rfl, -, -, hstarts⟩ := skipTrivia_gap h
  have hrest : WholeLines (c :: rest) := hcs.of_append
  rw [skipTrivia_append h hcs (by simp)]
  exact ⟨(hstarts.append hrest more).skipTrivia q, hrest⟩

/-- The tokens of whole lines do not depend on what follows, and those that follow are read as if
the lines before were not there. -/
theorem tokensFrom_append {tokens : List Token} (h : tokensFrom p cs = .ok tokens)
    (hcs : WholeLines cs) :
    ∃ init finish, tokens = init ++ [finish] ∧
      ∀ more, tokensFrom p (cs ++ more) =
        (tokensFrom finish.position more).map (init ++ ·) := by
  fun_induction tokensFrom p cs generalizing tokens with
  | case1 | case3 | case4 => cases h
  | case2 p cs q hskip =>
    obtain rfl := Except.ok.inj h
    refine ⟨[], ⟨.finish, q⟩, rfl, fun more => ?_⟩
    rw [tokensFrom_eq, skipTrivia_append hskip hcs (by simp), List.nil_append, ← tokensFrom_eq]
    cases tokensFrom q more <;> rfl
  | case5 p cs q c rest hskip l r more hscan tokens htokens ih =>
    obtain rfl := Except.ok.inj h
    obtain ⟨hskip', hrest⟩ := skipTrivia_token hskip hcs []
    obtain ⟨used, rfl, -, -⟩ := scanLexeme_exact hscan
    obtain ⟨init, finish, rfl, hmore⟩ := ih htokens hrest.tail.of_append
    refine ⟨⟨l, q⟩ :: init, finish, rfl, fun more' => ?_⟩
    rw [tokensFrom_eq]
    simp only [(skipTrivia_token hskip hcs more').1, scanLexeme_append hscan hrest, hmore,
      Except.bind]
    cases tokensFrom finish.position more' <;> rfl

theorem tokensFrom_cons_error {c : Char} {r : Position} {more : List Char}
    (hmore : tokensFrom r more = .error e) (hskip : skipTrivia .between p cs = .ok (q, c :: rest))
    (hscan : scanLexeme q c rest = .ok (l, r, more)) : tokensFrom p cs = .error e := by
  rw [tokensFrom_eq]
  simp only [hskip, hscan, hmore, Except.bind, Except.map]

/-- Whole lines that have no tokens leave something open, or have none whatever follows. -/
theorem tokensFrom_error (h : tokensFrom p cs = .error e) (hcs : WholeLines cs) :
    e.IsOpen ∨ ∀ more tokens, tokensFrom p (cs ++ more) ≠ .ok tokens := by
  fun_induction tokensFrom p cs with
  | case1 p cs e' hskip =>
    obtain rfl := Except.error.inj h
    exact .inl (skipTrivia_error hskip)
  | case2 | case5 => cases h
  | case3 p cs q c rest hskip e' hscan =>
    obtain rfl := Except.error.inj h
    obtain ⟨-, hrest⟩ := skipTrivia_token hskip hcs []
    refine (scanLexeme_error hscan hrest).imp_right fun hlater more tokens => ?_
    rw [tokensFrom_eq]
    simp [(skipTrivia_token hskip hcs more).1, hlater, Except.bind]
  | case4 p cs q c rest hskip l r more hscan e' hmore ih =>
    obtain rfl := Except.error.inj h
    obtain ⟨-, hrest⟩ := skipTrivia_token hskip hcs []
    obtain ⟨used, rfl, -, -⟩ := scanLexeme_exact hscan
    refine (ih hmore hrest.tail.of_append).imp_right fun hlater more' tokens => ?_
    rw [tokensFrom_eq]
    simp only [(skipTrivia_token hskip hcs more').1, scanLexeme_append hscan hrest, Except.bind]
    cases htokens : tokensFrom r (more ++ more') with
    | ok tokens => exact absurd htokens (hlater more' tokens)
    | error => simp [Except.map]

/-! Blanks -/

/-- No token begins with this character. -/
def isStray (c : Char) : Bool :=
  !(c == '"' || c == '\'' || c == '`' || c.isDigit || startsName c) &&
    Symbol.longestFirst.all fun s => s.spelling.toList.head? != some c

/-- Blanks that separate no tokens begin none either. -/
theorem isStray_of_isBlank {c : Char} (h : Text.isBlank c = true) (hgap : isGap c = false) :
    isStray c = true := by
  have hall : Text.blanks.members.all
      (fun n => isGap (Char.ofNat n) || isStray (Char.ofNat n)) = true := by decide +kernel
  have hc := List.all_eq_true.1 hall _ (Text.CodeRanges.mem_members h)
  rwa [Char.ofNat_toNat, hgap, Bool.false_or] at hc

theorem scanLexeme_stray {c : Char} (h : isStray c = true) (p : Position) (cs : List Char) :
    scanLexeme p c cs = .error (.strayCharacter c p) := by
  have hsymbol : scanSymbol? p (c :: cs) = none := by
    refine List.findSome?_eq_none_iff.2 fun s hs => Option.map_eq_none_iff.2 ?_
    refine Option.eq_none_iff_forall_ne_some.2 fun rest hrest => ?_
    have hhead := List.all_eq_true.1 (Bool.and_eq_true_iff.1 h).2 s hs
    obtain ⟨d, lead, hlead⟩ := List.exists_cons_of_length_pos (spelling_length_pos s)
    rw [hlead] at hrest hhead
    obtain ⟨rfl, -⟩ := List.cons.inj (afterLead?_eq_some.1 hrest)
    simp at hhead
  unfold scanLexeme
  simp [isStray] at h
  simp [hsymbol, h.1]

theorem tokensFrom_gaps {ws : List Char} (hws : ∀ c ∈ ws, isGap c) (p : Position)
    (rest : List Char) : tokensFrom p (ws ++ rest) = tokensFrom (p.after ws) rest := by
  have hgap : Gap false ws := by
    induction ws with
    | nil => exact .nil
    | cons c ws ih =>
      exact .blank (hws c List.mem_cons_self) (ih fun d hd => hws d (List.mem_cons_of_mem c hd))
  rw [tokensFrom_eq, hgap.skipTrivia, ← tokensFrom_eq]

/-- Blanks at the start of a text are skipped, or the text has no tokens. -/
theorem tokensFrom_blanks {ws : List Char} (hws : ∀ c ∈ ws, Text.isBlank c = true) :
    (∀ c ∈ ws, isGap c) ∨ ∀ p rest tokens, tokensFrom p (ws ++ rest) ≠ .ok tokens := by
  induction ws with
  | nil => exact .inl nofun
  | cons c ws ih =>
    have hc := hws c List.mem_cons_self
    cases hgap : isGap c with
    | true =>
      refine (ih fun d hd => hws d (List.mem_cons_of_mem c hd)).imp
        (fun h => List.forall_mem_cons.2 ⟨hgap, h⟩) fun h p rest tokens => ?_
      have hstep := tokensFrom_gaps (List.forall_mem_singleton.2 hgap) p (ws ++ rest)
      rw [List.cons_append]
      exact hstep.trans_ne (h _ rest tokens)
    | false =>
      have hstray := isStray_of_isBlank hc hgap
      refine .inr fun p rest tokens => ?_
      have hstarts : StartsToken (c :: (ws ++ rest)) := by
        refine ⟨hgap, ?_⟩
        rintro rfl
        cases hstray
      rw [List.cons_append, tokensFrom_eq, hstarts.skipTrivia]
      simp only [Except.bind, scanLexeme_stray hstray]
      nofun

end Lexer

end ScriptEngine
