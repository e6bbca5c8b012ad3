import ScriptEngine.Token.Lexer
import Mathlib.Data.List.TakeWhile

/-!
# What a scanner uses up

A scanner takes the spelling of its token from the front of the text and stops where the spelling
ends: given that spelling alone, wherever it stands, it reads the same token. Only the places that a
template keeps for its code differ, so tokens are compared with these erased.
-/
namespace ScriptEngine
open Text (Position)

/-- The chunk with the place of its code erased. -/
def TemplateChunk.unplaced : TemplateChunk → TemplateChunk
  | .text content => .text content
  | .code source _ => .code source Position.start

/-- The lexeme with the places of its code erased. -/
def Lexeme.unplaced : Lexeme → Lexeme
  | .template chunks => .template (chunks.map TemplateChunk.unplaced)
  | l => l

namespace Lexer

/-- The mode with its code at another place. -/
def TemplateMode.placed (origin : Position) : TemplateMode → TemplateMode
  | .text => .text
  | .code _ depth quote => .code origin depth quote

/-- What is used up of a text literal reads the same alone, wherever the literal began. -/
theorem scanText_exact {quote : Char} {start p p' : Position} {read cs rest : List Char}
    {l : Lexeme} (h : scanText quote start read p cs = .ok (l, p', rest)) :
    ∃ used, cs = used ++ rest ∧ p' = p.after used ∧
      ∀ start' q, scanText quote start' read q used = .ok (l, q.after used, []) := by
  fun_induction scanText quote start read p cs with
  | case1 => cases h
  | case2 read p c cs hquote =>
    obtain ⟨rfl, rfl, rfl⟩ : _ = l ∧ _ = p' ∧ cs = rest := by simpa using h
    exact ⟨[c], rfl, rfl, fun start' q => by simp [scanText, hquote]⟩
  | case3 => cases h
  | case4 read p c hquote hslash e cs ih =>
    obtain ⟨used, rfl, rfl, halone⟩ := ih h
    exact ⟨c :: e :: used, rfl, rfl, fun start' q => by simp [scanText, hquote, hslash, halone]⟩
  | case5 read p c cs hquote hslash ih =>
    obtain ⟨used, rfl, rfl, halone⟩ := ih h
    refine ⟨c :: used, rfl, rfl, fun start' q => ?_⟩
    unfold scanText
    simp [hquote, hslash, halone]

theorem flushText_unplaced {chunks chunks' : List TemplateChunk} (read : List Char)
    (h : chunks'.map TemplateChunk.unplaced = chunks.map TemplateChunk.unplaced) :
    (flushText chunks' read).map TemplateChunk.unplaced =
      (flushText chunks read).map TemplateChunk.unplaced := by
  unfold flushText
  split <;> simp [h]

theorem closeTemplate_unplaced {chunks chunks' : List TemplateChunk} (read : List Char)
    (h : chunks'.map TemplateChunk.unplaced = chunks.map TemplateChunk.unplaced) :
    (closeTemplate chunks' read).map TemplateChunk.unplaced =
      (closeTemplate chunks read).map TemplateChunk.unplaced := by
  have hempty : chunks'.isEmpty = chunks.isEmpty := by
    simpa using congrArg List.isEmpty h
  unfold closeTemplate
  rw [hempty]
  split <;> simp [h]

/-- What is used up of a template reads the same alone up to places: neither where the template
began nor where the code read so far stands decides how it goes on. -/
theorem scanTemplate_exact {start p p' : Position} {mode : TemplateMode}
    {chunks : List TemplateChunk} {read cs rest : List Char} {l : Lexeme}
    (h : scanTemplate start mode chunks read p cs = .ok (l, p', rest)) :
    ∃ used, cs = used ++ rest ∧ p' = p.after used ∧
      ∀ start' origin' chunks' q,
        chunks'.map TemplateChunk.unplaced = chunks.map TemplateChunk.unplaced →
        ∃ l', l'.unplaced = l.unplaced ∧
          scanTemplate start' (mode.placed origin') chunks' read q used =
            .ok (l', q.after used, []) := by
  fun_induction scanTemplate start mode chunks read p cs with
  | case1 | case2 | case5 | case8 => cases h
  | case3 chunks read p cs origin ih =>
    obtain ⟨used, rfl, rfl, halone⟩ := ih h
    refine ⟨'$' :: '{' :: used, rfl, rfl, fun start' origin' chunks' q hchunks => ?_⟩
    exact halone start' ((q.step '$').step '{') _ _ (flushText_unplaced read hchunks)
  | case4 chunks read p c cs hplain hquote =>
    obtain ⟨rfl, rfl, rfl⟩ : _ = l ∧ _ = p' ∧ cs = rest := by simpa using h
    refine ⟨[c], rfl, rfl, fun start' origin' chunks' q hchunks =>
      ⟨.template (closeTemplate chunks' read), ?_, ?_⟩⟩
    · simp [Lexeme.unplaced, closeTemplate_unplaced read hchunks]
    · simp [scanTemplate, TemplateMode.placed, hquote]
  | case6 chunks read p c hquote hslash e cs hplain ih =>
    obtain ⟨used, rfl, rfl, halone⟩ := ih h
    refine ⟨c :: e :: used, rfl, rfl, fun start' origin' chunks' q hchunks => ?_⟩
    obtain rfl : c = '\\' := by simpa using hslash
    simpa [scanTemplate, TemplateMode.placed] using halone start' origin' chunks' _ hchunks
  | case7 chunks read p c cs hplain hquote hslash ih =>
    obtain ⟨used, rfl, rfl, halone⟩ := ih h
    refine ⟨c :: used, rfl, rfl, fun start' origin' chunks' q hchunks => ?_⟩
    -- A dollar sign opens no code here, so it opens none in what is used up either.
    have hplain' : ∀ cs, c = '$' → used = '{' :: cs → False :=
      fun cs hc hused => hplain _ hc (congrArg (· ++ rest) hused)
    rw [scanTemplate.eq_def]
    simpa [TemplateMode.placed, hplain', hquote, hslash] using
      halone start' origin' chunks' (q.step c) hchunks
  | case9 origin depth quote chunks read p c hslash e cs ih =>
    obtain ⟨used, rfl, rfl, halone⟩ := ih h
    refine ⟨c :: e :: used, rfl, rfl, fun start' origin' chunks' q hchunks => ?_⟩
    simpa [scanTemplate, TemplateMode.placed, hslash] using
      halone start' origin' chunks' _ hchunks
  | case13 origin chunks read p c cs hquote hopen hclose ih =>
    obtain ⟨used, rfl, rfl, halone⟩ := ih h
    refine ⟨c :: used, rfl, rfl, fun start' origin' chunks' q hchunks => ?_⟩
    have hchunks' : (TemplateChunk.code (String.ofList read.reverse) origin' :: chunks').map
        TemplateChunk.unplaced = (TemplateChunk.code (String.ofList read.reverse) origin ::
          chunks).map TemplateChunk.unplaced := by
      simp [TemplateChunk.unplaced, hchunks]
    rw [scanTemplate.eq_def]
    simpa [TemplateMode.placed, hquote, hopen, hclose] using
      halone start' origin' _ (q.step c) hchunks'
  | case10 | case11 | case12 | case14 | case15 =>
    -- One character of code is read, and the scan goes on in code.
    rename_i ih
    obtain ⟨used, rfl, rfl, halone⟩ := ih h
    refine ⟨_ :: used, rfl, rfl, fun start' origin' chunks' q hchunks => ?_⟩
    rw [scanTemplate.eq_def]
    clear ih h
    simpa [TemplateMode.placed, *] using halone start' origin' chunks' _ hchunks

theorem scanNumber_whole (q : Position) {whole : List Char} (hwhole : ∀ d ∈ whole, d.isDigit) :
    scanNumber q whole = (.number (Number.ofDigits whole []), q.after whole, []) := by
  simp [scanNumber, List.takeWhile_eq_self_iff.2 hwhole, List.dropWhile_eq_nil_iff.2 hwhole]

theorem scanNumber_fraction (q : Position) {whole fraction : List Char} {d : Char}
    (hwhole : ∀ d ∈ whole, d.isDigit) (hfraction : ∀ f ∈ d :: fraction, f.isDigit) :
    scanNumber q (whole ++ '.' :: d :: fraction) =
      (.number (Number.ofDigits whole (d :: fraction)), q.after (whole ++ '.' :: d :: fraction),
        []) := by
  have hpoint : ¬ '.'.isDigit := by decide
  have htake : (whole ++ '.' :: d :: fraction).takeWhile Char.isDigit = whole := by
    rw [List.takeWhile_append_of_pos hwhole, List.takeWhile_cons_of_neg hpoint, List.append_nil]
  have hdrop : (whole ++ '.' :: d :: fraction).dropWhile Char.isDigit = '.' :: d :: fraction := by
    rw [List.dropWhile_append_of_pos hwhole, List.dropWhile_cons_of_neg hpoint]
  simp only [scanNumber, htake, hdrop, hfraction d List.mem_cons_self, if_true,
    List.takeWhile_eq_self_iff.2 hfraction, List.dropWhile_eq_nil_iff.2 hfraction]

theorem scanNumber_exact {p p' : Position} {cs rest : List Char} {l : Lexeme}
    (h : scanNumber p cs = (l, p', rest)) :
    ∃ used, cs = used ++ rest ∧ p' = p.after used ∧
      ∀ q, scanNumber q used = (l, q.after used, []) := by
  have hwhole : ∀ d ∈ cs.takeWhile Char.isDigit, d.isDigit := fun _ => List.mem_takeWhile_imp
  have hsplit : cs = cs.takeWhile Char.isDigit ++ cs.dropWhile Char.isDigit :=
    List.takeWhile_append_dropWhile.symm
  simp only [scanNumber] at h
  split at h
  case h_1 d more hrest =>
    split at h
    case isTrue hd =>
      obtain ⟨rfl, rfl, rfl⟩ := by simpa using h
      have hfraction : ∀ f ∈ (d :: more).takeWhile Char.isDigit, f.isDigit :=
        fun _ => List.mem_takeWhile_imp
      rw [List.takeWhile_cons_of_pos hd] at hfraction ⊢
      refine ⟨_, ?_, rfl, fun q => scanNumber_fraction q hwhole hfraction⟩
      rw [List.dropWhile_cons_of_pos hd, List.append_assoc, List.cons_append, List.cons_append,
        List.takeWhile_append_dropWhile, ← hrest]
      exact hsplit
    case isFalse =>
      obtain ⟨rfl, rfl, rfl⟩ := by simpa using h
      exact ⟨_, hsplit, rfl, fun q => scanNumber_whole q hwhole⟩
  case h_2 =>
    obtain ⟨rfl, rfl, rfl⟩ := by simpa using h
    exact ⟨_, hsplit, rfl, fun q => scanNumber_whole q hwhole⟩

theorem scanName_exact {p p' : Position} {cs rest : List Char} {l : Lexeme}
    (h : scanName p cs = (l, p', rest)) :
    ∃ used, cs = used ++ rest ∧ p' = p.after used ∧
      ∀ q, scanName q used = (l, q.after used, []) := by
  obtain ⟨rfl, rfl, rfl⟩ := by simpa [scanName] using h
  refine ⟨cs.takeWhile continuesName, List.takeWhile_append_dropWhile.symm, rfl, fun q => ?_⟩
  have hname : ∀ c ∈ cs.takeWhile continuesName, continuesName c :=
    fun _ => List.mem_takeWhile_imp
  simp only [scanName, List.takeWhile_eq_self_iff.2 hname, List.dropWhile_eq_nil_iff.2 hname]

theorem afterLead?_eq_some {lead cs rest : List Char} :
    afterLead? lead cs = some rest ↔ cs = lead ++ rest := by
  fun_induction afterLead? lead cs <;> grind

/-- The spelling of a symbol is not read as a longer or another symbol. -/
theorem scanSymbol?_spelling (s : Symbol) (q : Position) :
    scanSymbol? q s.spelling.toList = some (.symbol s, q.after s.spelling.toList, []) := by
  cases s <;> rfl

theorem scanSymbol?_exact {p p' : Position} {cs rest : List Char} {l : Lexeme}
    (h : scanSymbol? p cs = some (l, p', rest)) :
    ∃ used, cs = used ++ rest ∧ p' = p.after used ∧
      ∀ q, scanSymbol? q used = some (l, q.after used, []) := by
  obtain ⟨s, -, hs⟩ := List.exists_of_findSome?_eq_some h
  obtain ⟨rest', hrest, heq⟩ := Option.map_eq_some_iff.1 hs
  obtain ⟨rfl, rfl, rfl⟩ := by simpa using heq
  exact ⟨s.spelling.toList, afterLead?_eq_some.1 hrest, rfl, scanSymbol?_spelling s⟩

/-- What was used up, if anything, begins with the first character. -/
theorem exists_cons_of_append {c : Char} {cs used rest : List Char} (h : c :: cs = used ++ rest)
    (hlength : rest.length < (c :: cs).length) :
    ∃ used', used = c :: used' ∧ cs = used' ++ rest := by
  rcases List.cons_eq_append_iff.1 h with ⟨rfl, rfl⟩ | ⟨used', rfl, rfl⟩
  · exact absurd hlength (Nat.lt_irrefl _)
  · exact ⟨used', rfl, rfl⟩

/-- One token takes its spelling and no more: what comes after has no say in it. -/
theorem scanLexeme_exact {p p' : Position} {c : Char} {cs rest : List Char} {l : Lexeme}
    (h : scanLexeme p c cs = .ok (l, p', rest)) :
    ∃ used, cs = used ++ rest ∧ p' = p.after (c :: used) ∧
      ∀ q, ∃ l', l'.unplaced = l.unplaced ∧
        scanLexeme q c used = .ok (l', q.after (c :: used), []) := by
  have hlength := scanLexeme_length h
  unfold scanLexeme at h ⊢
  split at h
  case isTrue hquote =>
    obtain ⟨used, rfl, rfl, halone⟩ := scanText_exact h
    exact ⟨used, rfl, rfl, fun q => ⟨l, rfl, by rw [if_pos hquote, halone]; rfl⟩⟩
  case isFalse hquote =>
  split at h
  case isTrue htick =>
    obtain ⟨used, rfl, rfl, halone⟩ := scanTemplate_exact h
    refine ⟨used, rfl, rfl, fun q => ?_⟩
    rw [if_neg hquote, if_pos htick]
    exact halone q q [] (q.step c) rfl
  case isFalse htick =>
  split at h
  case isTrue hdigit =>
    obtain ⟨used, hused, rfl, halone⟩ := scanNumber_exact (Except.ok.inj h)
    obtain ⟨used, rfl, rfl⟩ := exists_cons_of_append hused hlength
    refine ⟨used, rfl, rfl, fun q => ⟨l, rfl, ?_⟩⟩
    rw [if_neg hquote, if_neg htick, if_pos hdigit, halone]
  case isFalse hdigit =>
  split at h
  case isTrue hname =>
    obtain ⟨used, hused, rfl, halone⟩ := scanName_exact (Except.ok.inj h)
    obtain ⟨used, rfl, rfl⟩ := exists_cons_of_append hused hlength
    refine ⟨used, rfl, rfl, fun q => ⟨l, rfl, ?_⟩⟩
    rw [if_neg hquote, if_neg htick, if_neg hdigit, if_pos hname, halone]
  case isFalse hname =>
  split at h
  case h_1 scanned hsymbol =>
    obtain rfl := Except.ok.inj h
    obtain ⟨used, hused, rfl, halone⟩ := scanSymbol?_exact hsymbol
    obtain ⟨used, rfl, rfl⟩ := exists_cons_of_append hused hlength
    refine ⟨used, rfl, rfl, fun q => ⟨l, rfl, ?_⟩⟩
    rw [if_neg hquote, if_neg htick, if_neg hdigit, if_neg hname, halone]
  case h_2 => cases h

end Lexer
end ScriptEngine
