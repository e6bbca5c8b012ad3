import Mathlib
import ScriptEngine.Proofs.Token.Lossless

/-!
# Code that can stand in an interpolation

Inside an interpolation the template scanner looks at quotes and braces only. It takes exactly the
texts in which every quotation is closed and the braces outside of quotations come in pairs.
-/
namespace ScriptEngine.Lexer
open Text (Position)

/-- Neither a quote nor a brace. -/
def isNeutral (c : Char) : Bool := c != '"' && c != '\'' && c != '{' && c != '}'

theorem isNeutral_iff {c : Char} :
    isNeutral c ↔ c ≠ '"' ∧ c ≠ '\'' ∧ c ≠ '{' ∧ c ≠ '}' := by
  simp [isNeutral, and_assoc]

/-- A character that opens a quotation. -/
def IsQuote (c : Char) : Prop := c = '"' ∨ c = '\''

/-- What stands behind the opening quote of a quotation, with the closing quote. -/
inductive Quotation (quote : Char) : List Char → Prop
  | close : Quotation quote [quote]
  | escape {c : Char} {cs : List Char} (hcs : Quotation quote cs) :
    Quotation quote ('\\' :: c :: cs)
  | plain {c : Char} {cs : List Char} (hslash : c ≠ '\\') (hquote : c ≠ quote)
    (hcs : Quotation quote cs) : Quotation quote (c :: cs)

/-- All quotations are closed, and the braces outside of them come in pairs. -/
inductive Interpolable : List Char → Prop
  | nil : Interpolable []
  | neutral {c : Char} {cs : List Char} (hc : isNeutral c) (hcs : Interpolable cs) :
    Interpolable (c :: cs)
  | quotation {quote : Char} {body cs : List Char} (hquote : IsQuote quote)
    (hbody : Quotation quote body) (hcs : Interpolable cs) : Interpolable (quote :: (body ++ cs))
  | braces {inner cs : List Char} (hinner : Interpolable inner) (hcs : Interpolable cs) :
    Interpolable ('{' :: (inner ++ '}' :: cs))

namespace Interpolable

theorem append {as bs : List Char} (has : Interpolable as) (hbs : Interpolable bs) :
    Interpolable (as ++ bs) := by
  induction has with
  | nil => exact hbs
  | neutral hc _ ih => exact .neutral hc ih
  | quotation hquote hbody _ ih =>
    rw [List.cons_append, List.append_assoc]
    exact .quotation hquote hbody ih
  | braces hinner _ _ ih =>
    rw [List.cons_append, List.append_assoc, List.cons_append]
    exact .braces hinner ih

theorem of_neutral {cs : List Char} (h : ∀ c ∈ cs, isNeutral c) : Interpolable cs := by
  induction cs with
  | nil => exact .nil
  | cons c cs ih =>
    obtain ⟨hc, hcs⟩ := List.forall_mem_cons.1 h
    exact .neutral hc (ih hcs)

end Interpolable

/-! What is interpolable is taken -/

variable {start origin : Position} {chunks : List TemplateChunk}

theorem scanTemplate_quotation {quote : Char} {body : List Char} (hbody : Quotation quote body)
    (hquote : IsQuote quote) (depth : Nat) (read : List Char) (p : Position) (rest : List Char) :
    scanTemplate start (.code origin depth (some quote)) chunks read p (body ++ rest) =
      scanTemplate start (.code origin depth none) chunks (body.reverse ++ read) (p.after body)
        rest := by
  induction hbody generalizing read p with
  | close =>
    have hslash : ¬ quote = '\\' := by obtain rfl | rfl := hquote <;> decide
    rw [List.singleton_append, scanTemplate.eq_def]
    simp [hslash]
  | escape _ ih => simp [scanTemplate, ih]
  | @plain c cs hslash hne _ ih =>
    rw [List.cons_append, scanTemplate.eq_def]
    simp [hslash, hne, ih]

theorem scanTemplate_interpolable {cs : List Char} (hcs : Interpolable cs) (depth : Nat)
    (read : List Char) (p : Position) (rest : List Char) :
    scanTemplate start (.code origin depth none) chunks read p (cs ++ rest) =
      scanTemplate start (.code origin depth none) chunks (cs.reverse ++ read) (p.after cs)
        rest := by
  induction hcs generalizing depth read p rest with
  | nil => rfl
  | @neutral c cs hc _ ih =>
    obtain ⟨hdouble, hsingle, hopen, hclose⟩ := isNeutral_iff.1 hc
    rw [List.cons_append, scanTemplate.eq_def]
    simp [hdouble, hsingle, hopen, hclose, ih]
  | @quotation quote body cs hquote hbody _ ih =>
    have hopens : quote = '"' ∨ quote = '\'' := hquote
    rw [List.cons_append, List.append_assoc, scanTemplate.eq_def]
    simp [hopens, scanTemplate_quotation hbody hquote, ih, Position.after_append]
  | @braces inner cs _ _ hinner ih =>
    have hclose (read : List Char) (p : Position) (rest : List Char) :
        scanTemplate start (.code origin (depth + 1) none) chunks read p ('}' :: rest) =
          scanTemplate start (.code origin depth none) chunks ('}' :: read) (p.step '}') rest := by
      rw [scanTemplate.eq_def]
      simp
    rw [List.cons_append, List.append_assoc, List.cons_append, scanTemplate.eq_def]
    simp [hinner, hclose, ih, Position.after_append]

/-- The brace that opened the interpolation is closed. -/
theorem scanTemplate_interpolation {cs : List Char} (hcs : Interpolable cs) (p : Position)
    (rest : List Char) :
    scanTemplate start (.code origin 0 none) chunks [] p (cs ++ '}' :: rest) =
      scanTemplate start .text (.code (String.ofList cs) origin :: chunks) []
        (p.after (cs ++ ['}'])) rest := by
  rw [scanTemplate_interpolable hcs, scanTemplate.eq_def]
  simp [Position.after_append]

/-! Only what is interpolable is taken -/

/-- What ends the quotation that is open, if one is, then `depth` open braces, and then goes on as
code. -/
inductive Finishing : Nat → Option Char → List Char → Prop
  | code {cs : List Char} (hcs : Interpolable cs) : Finishing 0 none cs
  | brace {depth : Nat} {inner cs : List Char} (hinner : Interpolable inner)
    (hcs : Finishing depth none cs) : Finishing (depth + 1) none (inner ++ '}' :: cs)
  | quotation {depth : Nat} {quote : Char} {body cs : List Char} (hbody : Quotation quote body)
    (hcs : Finishing depth none cs) : Finishing depth (some quote) (body ++ cs)

namespace Finishing

/-- More code may stand in front. -/
theorem prepend {depth : Nat} {as cs : List Char} (has : Interpolable as)
    (hcs : Finishing depth none cs) : Finishing depth none (as ++ cs) := by
  cases hcs with
  | code hcs => exact .code (has.append hcs)
  | brace hinner hcs =>
    rw [← List.append_assoc]
    exact .brace (has.append hinner) hcs

theorem neutral {depth : Nat} {c : Char} {cs : List Char} (hc : isNeutral c)
    (hcs : Finishing depth none cs) : Finishing depth none (c :: cs) :=
  prepend (.neutral hc .nil) hcs

theorem opening {depth : Nat} {cs : List Char} (hcs : Finishing (depth + 1) none cs) :
    Finishing depth none ('{' :: cs) := by
  cases hcs with
  | @brace _ inner cs hinner hcs =>
    have hpair : Interpolable ('{' :: (inner ++ '}' :: [])) := .braces hinner .nil
    simpa using prepend hpair hcs

theorem closing {depth : Nat} {cs : List Char} (hcs : Finishing depth none cs) :
    Finishing (depth + 1) none ('}' :: cs) :=
  brace .nil hcs

theorem quoting {depth : Nat} {quote : Char} {cs : List Char} (hquote : IsQuote quote)
    (hcs : Finishing depth (some quote) cs) : Finishing depth none (quote :: cs) := by
  cases hcs with
  | @quotation _ _ body cs hbody hcs =>
    have hquoted : Interpolable (quote :: (body ++ [])) := .quotation hquote hbody .nil
    simpa using prepend hquoted hcs

theorem quoted {depth : Nat} {quote c : Char} {cs : List Char} (hslash : c ≠ '\\')
    (hcs : Finishing depth (if c == quote then none else some quote) cs) :
    Finishing depth (some quote) (c :: cs) := by
  by_cases hc : c = quote
  · subst hc
    rw [if_pos (beq_self_eq_true c)] at hcs
    exact quotation .close hcs
  · rw [if_neg (by simpa using hc)] at hcs
    cases hcs with
    | quotation hbody hcs => exact quotation (.plain hslash hc hbody) hcs

theorem escaped {depth : Nat} {quote c : Char} {cs : List Char}
    (hcs : Finishing depth (some quote) cs) : Finishing depth (some quote) ('\\' :: c :: cs) := by
  cases hcs with
  | quotation hbody hcs => exact quotation (.escape hbody) hcs

theorem interpolable {cs : List Char} (hcs : Finishing 0 none cs) : Interpolable cs := by
  cases hcs with
  | code hcs => exact hcs

end Finishing

/-- A scan that is in code and succeeds has found the end of the code. -/
theorem scanTemplate_code {m : TemplateMode} {depth : Nat} {quote : Option Char}
    {read cs : List Char} {p : Position} {scanned : Lexeme × Position × List Char}
    (h : scanTemplate start m chunks read p cs = .ok scanned)
    (hmode : m = .code origin depth quote) :
    ∃ code rest, cs = code ++ '}' :: rest ∧ Finishing depth quote code ∧
      scanTemplate start .text (.code (String.ofList (read.reverse ++ code)) origin :: chunks) []
        (p.after (code ++ ['}'])) rest = .ok scanned := by
  fun_induction scanTemplate start m chunks read p cs generalizing depth quote with
  | case1 | case2 | case5 | case8 => cases h
  | case3 | case4 | case6 | case7 => cases hmode
  | case9 origin depth quote chunks read p c hslash e cs ih =>
    cases hmode
    obtain ⟨code, rest, rfl, hcode, hscan⟩ := ih h rfl
    obtain rfl : c = '\\' := by simpa using hslash
    exact ⟨'\\' :: e :: code, rest, rfl, hcode.escaped, by simpa using hscan⟩
  | case10 origin depth quote chunks read p c cs hslash ih =>
    cases hmode
    obtain ⟨code, rest, rfl, hcode, hscan⟩ := ih h rfl
    exact ⟨c :: code, rest, rfl, hcode.quoted (by simpa using hslash), by simpa using hscan⟩
  | case11 origin depth chunks read p c cs hquote ih =>
    cases hmode
    obtain ⟨code, rest, rfl, hcode, hscan⟩ := ih h rfl
    exact ⟨c :: code, rest, rfl, hcode.quoting (by simpa [IsQuote] using hquote),
      by simpa using hscan⟩
  | case12 origin depth chunks read p c cs hquote hopen ih =>
    cases hmode
    obtain ⟨code, rest, rfl, hcode, hscan⟩ := ih h rfl
    obtain rfl : c = '{' := by simpa using hopen
    exact ⟨'{' :: code, rest, rfl, hcode.opening, by simpa using hscan⟩
  | case13 origin chunks read p c cs hquote hopen hclose =>
    cases hmode
    obtain rfl : c = '}' := by simpa using hclose
    exact ⟨[], cs, rfl, .code .nil, by simpa using h⟩
  | case14 origin chunks read p c cs hquote hopen hclose depth ih =>
    cases hmode
    obtain ⟨code, rest, rfl, hcode, hscan⟩ := ih h rfl
    obtain rfl : c = '}' := by simpa using hclose
    exact ⟨'}' :: code, rest, rfl, hcode.closing, by simpa using hscan⟩
  | case15 origin depth chunks read p c cs hquote hopen hclose ih =>
    cases hmode
    obtain ⟨code, rest, rfl, hcode, hscan⟩ := ih h rfl
    have hc : isNeutral c := by
      simp only [Bool.or_eq_true, beq_iff_eq, not_or] at hquote hopen hclose
      exact isNeutral_iff.2 ⟨hquote.1, hquote.2, hopen, hclose⟩
    exact ⟨c :: code, rest, rfl, hcode.neutral hc, by simpa using hscan⟩

/-! What the chunks say of the text -/

variable {p q : Position} {read cs rest : List Char} {l : Lexeme}

/-- The chunk of a text, which is left out where there is none. -/
def textChunks (s : String) : List TemplateChunk := if s = "" then [] else [.text s]

theorem flushText_eq (chunks : List TemplateChunk) (read : List Char) :
    flushText chunks read = (textChunks (String.ofList read.reverse)).reverse ++ chunks := by
  cases read <;> simp [flushText, textChunks, ← String.toList_inj]

theorem closeTemplate_eq {chunks : List TemplateChunk} (hchunks : chunks ≠ []) (read : List Char) :
    closeTemplate chunks read = chunks.reverse ++ textChunks (String.ofList read.reverse) := by
  cases read <;> simp [closeTemplate, textChunks, hchunks, ← String.toList_inj]

/-- The chunks that a template has so far stay in front, and what was read of a text is in one. -/
theorem scanTemplate_keeps {mode : TemplateMode}
    (h : scanTemplate start mode chunks read p cs = .ok (l, q, rest)) :
    ∃ all, l = .template all ∧ chunks.reverse <+: all ∧
      (mode = .text → ∀ c ∈ read, ∃ s, .text s ∈ all ∧ c ∈ s.toList) := by
  fun_induction scanTemplate start mode chunks read p cs with
  | case1 | case2 | case5 | case8 => cases h
  | case3 chunks read p cs origin ih =>
    obtain ⟨all, rfl, hall, -⟩ := ih h
    rw [flushText_eq, List.reverse_append, List.reverse_reverse] at hall
    refine ⟨all, rfl, (List.prefix_append _ _).trans hall, fun _ c hc => ?_⟩
    refine ⟨String.ofList read.reverse, hall.mem ?_, by simpa using hc⟩
    have hne : read ≠ [] := List.ne_nil_of_mem hc
    simp [textChunks, ← String.toList_inj, hne]
  | case4 chunks read p c cs hplain hquote =>
    cases h
    refine ⟨_, rfl, ?_, fun _ c hc => ?_⟩
    · unfold closeTemplate
      split <;> simp
    · have hne : read.isEmpty = false := by simpa using List.ne_nil_of_mem hc
      refine ⟨String.ofList read.reverse, ?_, by simpa using hc⟩
      simp [closeTemplate, hne]
  | case6 chunks read p c hquote hslash e cs hplain ih =>
    obtain ⟨all, hl, hall, htext⟩ := ih h
    exact ⟨all, hl, hall, fun hmode c hc => htext hmode c (List.mem_cons_of_mem _ hc)⟩
  | case7 chunks read p c cs hplain hquote hslash ih =>
    obtain ⟨all, hl, hall, htext⟩ := ih h
    exact ⟨all, hl, hall, fun hmode c hc => htext hmode c (List.mem_cons_of_mem _ hc)⟩
  | case13 origin chunks read p c cs hquote hopen hclose ih =>
    obtain ⟨all, hl, hall, -⟩ := ih h
    rw [List.reverse_cons] at hall
    exact ⟨all, hl, (List.prefix_append _ _).trans hall, by simp⟩
  | case9 | case10 | case11 | case12 | case14 | case15 =>
    rename_i ih
    obtain ⟨all, hl, hall, -⟩ := ih h
    exact ⟨all, hl, hall, by simp⟩

theorem isNeutral_of_unescape {c : Char} (h : isNeutral (unescape c)) : isNeutral c := by
  unfold unescape at h
  split at h <;> first | rfl | exact h

/-- A template whose texts have no quotes and braces is interpolable. -/
theorem scanTemplate_neutral {mode : TemplateMode} {all : List TemplateChunk}
    (h : scanTemplate start mode chunks read p cs = .ok (.template all, q, rest))
    (hmode : mode = .text) (hall : ∀ s, .text s ∈ all → ∀ c ∈ s.toList, isNeutral c) :
    ∃ used, cs = used ++ rest ∧ Interpolable used := by
  -- An interpolation is passed as a whole, which is why the induction is on the length.
  induction hn : cs.length using Nat.strongRecOn generalizing mode chunks read p cs with
  | ind n ih =>
  have hread {chunks' : List TemplateChunk} {read' cs' : List Char} {p' : Position}
      (h' : scanTemplate start .text chunks' read' p' cs' = .ok (.template all, q, rest)) :
      ∀ c ∈ read', isNeutral c := by
    obtain ⟨_, ⟨⟩, -, htext⟩ := scanTemplate_keeps h'
    intro c hc
    obtain ⟨s, hs, hmem⟩ := htext rfl c hc
    exact hall s hs c hmem
  revert h
  fun_cases scanTemplate start mode chunks read p cs with
  | case3 chunks read p cs =>
    intro h
    obtain ⟨code, more, rfl, hcode, hmore⟩ := scanTemplate_code h rfl
    have hless : more.length < n := by
      simp only [← hn, List.length_cons, List.length_append]
      omega
    obtain ⟨used, rfl, hused⟩ := ih more.length hless hmore rfl rfl
    refine ⟨'$' :: '{' :: (code ++ '}' :: used), by simp, ?_⟩
    exact .neutral rfl (.braces hcode.interpolable hused)
  | case4 chunks read p c cs hplain hquote =>
    intro h
    cases h
    obtain rfl : c = '`' := by simpa using hquote
    exact ⟨['`'], rfl, .neutral rfl .nil⟩
  | case6 chunks read p c hquote hslash e cs hplain =>
    intro h
    have hless : cs.length < n := by
      simp only [← hn, List.length_cons]
      omega
    obtain ⟨used, rfl, hused⟩ := ih cs.length hless h rfl rfl
    obtain rfl : c = '\\' := by simpa using hslash
    have he : isNeutral e := isNeutral_of_unescape (hread h _ List.mem_cons_self)
    exact ⟨'\\' :: e :: used, rfl, .neutral rfl (.neutral he hused)⟩
  | case7 chunks read p c cs hplain hquote hslash =>
    intro h
    obtain ⟨used, rfl, hused⟩ := ih cs.length (by simp [← hn]) h rfl rfl
    exact ⟨c :: used, rfl, .neutral (hread h c List.mem_cons_self) hused⟩
  | case1 | case5 => intro h; cases h
  | case2 | case8 | case9 | case10 | case11 | case12 | case13 | case14 | case15 => cases hmode

end ScriptEngine.Lexer
