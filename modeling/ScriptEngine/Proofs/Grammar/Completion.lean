import Mathlib.Order.Filter.AtTopBot.Basic
import ScriptEngine.Proofs.Grammar.StatementForm
import ScriptEngine.Proofs.Grammar.TrackedStatement
import ScriptEngine.Proofs.Token.Writing

/-!
# Parses that can be completed

Tokens that are cut off may be the start of something that the parser takes. For every production
there are lexemes that complete what is begun. Where it takes no completion, the tokens before the
cut show why: the code of an interpolation breaks off, or something is assigned to that cannot be.
-/
namespace ScriptEngine.Grammar
open Text (Position)
open Filter (atTop Tendsto)
open Lexer (Word)

variable {α β : Type}

/-! Bounds that are large enough -/

/-- A bound that is large enough has one below it that is. -/
theorem eventually_succ_iff {p : Nat → Prop} : (∀ᶠ m in atTop, p (m + 1)) ↔ ∀ᶠ m in atTop, p m := by
  conv_rhs => rw [← Filter.map_add_atTop_eq_nat 1]
  rfl

/-- Parsers, one for every bound, come to this from some bound on. -/
def Settles (P : Nat → Parser α) (tokens : List Token)
    (x : Except ParseError (α × List Token)) : Prop :=
  ∀ᶠ m in atTop, (P m).run tokens = x

/-- From some bound on they fail, though perhaps not in the same way. -/
def Fails (P : Nat → Parser α) (tokens : List Token) : Prop :=
  ∀ᶠ m in atTop, ∃ e, (P m).run tokens = .error e

section

variable {P Q : Nat → Parser α} {F : α → Nat → Parser β} {tokens rest : List Token} {a : α}
  {e : ParseError} {x : Except ParseError (α × List Token)}

theorem Settles.of_run (h : ∀ m, (P m).run tokens = x) : Settles P tokens x :=
  Filter.Eventually.of_forall h

theorem Settles.fails (h : Settles P tokens (.error e)) : Fails P tokens :=
  h.mono fun _ hm => ⟨e, hm⟩

theorem Settles.bind {y : Except ParseError (β × List Token)}
    (hP : Settles P tokens (.ok (a, rest))) (hF : Settles (F a) rest y) :
    Settles (fun m => P m >>= fun a => F a m) tokens y := by
  filter_upwards [hP, hF] with m hfirst hsecond
  rw [run_bind_of hfirst, hsecond]

theorem Settles.bind_error (h : Settles P tokens (.error e)) :
    Settles (fun m => P m >>= fun a => F a m) tokens (.error e) :=
  h.mono fun _ hm => run_bind_error hm

theorem Fails.bind (h : Fails P tokens) : Fails (fun m => P m >>= fun a => F a m) tokens :=
  h.mono fun _ ⟨e, hm⟩ => ⟨e, run_bind_error hm⟩

theorem Settles.of_eq {used : List Token} {Q : Nat → Parser α}
    (h : ∀ᶠ m in atTop, (P m).run used = (Q m).run tokens) (hQ : Settles Q tokens x) :
    Settles P used x := by
  filter_upwards [h, hQ] with m hm hx
  rw [hm, hx]

theorem Fails.of_eq {used : List Token} {Q : Nat → Parser α}
    (h : ∀ᶠ m in atTop, (P m).run used = (Q m).run tokens) (hQ : Fails Q tokens) :
    Fails P used := by
  filter_upwards [h, hQ] with m hm hx
  rwa [hm]

end

/-! What becomes of tokens that are cut off -/

/-- With the words `fill` behind them, the tokens are taken up to any token that stops. -/
def Completed (stops : Lexeme → Prop) (P : Nat → Parser α) (tokens : List Token)
    (fill : List Word) : Prop :=
  ∀ back t more, back.map Token.lexeme = fill.map Word.lexeme → stops t.lexeme →
    ∃ a, Settles P (tokens ++ (back ++ t :: more)) (.ok (a, t :: more))

/-- Somewhere in the tokens something is assigned to that cannot be: the target is read whatever
its value may be. -/
def Misassigns (tokens : List Token) : Prop :=
  ∃ front target sign value e, tokens = front ++ (target ++ sign :: value) ∧
    sign.lexeme = .symbol .equal ∧
    (∀ more, Settles (fun m => pipe (below m)) (target ++ sign :: more) (.ok (e, sign :: more))) ∧
    ∀ v p, assignTo? e v p = none

/-- No code of an interpolation breaks off in these tokens. -/
def Sound (tokens : List Token) : Prop := ∀ t ∈ tokens, ¬BreaksOff t

/-- Nothing that may follow the tokens makes up for what is wrong with them. -/
structure Stuck (P : Nat → Parser α) (tokens : List Token) (finish : Token) : Prop where
  flawed : (∃ t ∈ tokens, BreaksOff t) ∨ Misassigns tokens
  fails : ∀ rest, Cut tokens finish rest → Fails P (tokens ++ rest)

/-- What the parsers make of tokens that are cut off. They take `s` tokens at least. -/
inductive Prospect (s : Nat) (stops : Lexeme → Prop) (P : Nat → Parser α) (tokens : List Token)
    (finish : Token) : Prop
  /-- They do not get to the cut, and only the next token matters. -/
  | taken {a : α} {used left : List Token} (htokens : tokens = used ++ left) (hleft : left ≠ [])
    (hused : s ≤ used.length) (hsound : Sound used)
    (hruns : ∀ tail, tail.head? = left.head? → Settles P (used ++ tail) (.ok (a, tail)))
  /-- They take all tokens. -/
  | whole {a : α} {fill : List Word} (hused : s ≤ tokens.length) (hsound : Sound tokens)
    (hrun : Settles P (tokens ++ [finish]) (.ok (a, [finish])))
    (hfill : Completed stops P tokens fill)
  /-- They need more tokens. -/
  | short {e : ParseError} {fill : List Word}
    (hrun : Settles P (tokens ++ [finish]) (.error e)) (hfill : Completed stops P tokens fill)
  | stuck (h : Stuck P tokens finish)
  /-- They fail, and not for an unexpected end. -/
  | refused {e : ParseError} (hrun : Settles P (tokens ++ [finish]) (.error e))
    (he : ∀ expected p, e ≠ .unexpectedEnd expected p)

/-- What they do when only the finish token is left. -/
def Alone (s : Nat) (P : Nat → Parser α) (finish : Token) : Prop :=
  (s = 0 ∧ ∃ a, Settles P [finish] (.ok (a, [finish]))) ∨ ∃ e, Settles P [finish] (.error e)

/-- What begins with fewer than `k` tokens can be completed if nothing is wrong with it, and
`fill` completes nothing at all. -/
structure Completes (s k : Nat) (stops : Lexeme → Prop) (fill : List Word) (P : Nat → Parser α) :
    Prop where
  starts : Completed stops P [] fill
  alone : ∀ finish : Token, Lexeme.isFinish finish.lexeme = true → Alone s P finish
  goes : ∀ ⦃tokens finish⦄, tokens ≠ [] → Cut tokens finish [finish] → tokens.length < k →
    Prospect s stops P tokens finish

/-- The same for tokens with `front` at their front. -/
def CompletesAt (front : List Token) (s k : Nat) (stops : Lexeme → Prop) (P : Nat → Parser α) :
    Prop :=
  ∀ ⦃tokens finish⦄, Cut (front ++ tokens) finish [finish] → (front ++ tokens).length < k →
    Prospect s stops P (front ++ tokens) finish

section

variable {P Q : Nat → Parser α} {F : α → Nat → Parser β} {s s' k k' : Nat}
  {stops stops' : Lexeme → Prop} {fill fill' : List Word} {tokens used left : List Token}
  {finish : Token}

theorem Sound.append (hused : Sound used) (hleft : Sound left) : Sound (used ++ left) :=
  List.forall_mem_append.2 ⟨hused, hleft⟩

theorem Sound.nil : Sound [] := List.forall_mem_nil _

theorem Misassigns.append (h : Misassigns left) (used : List Token) :
    Misassigns (used ++ left) := by
  obtain ⟨front, target, sign, value, e, rfl, hsign, hruns, hnone⟩ := h
  exact ⟨used ++ front, target, sign, value, e, (List.append_assoc ..).symm, hsign, hruns, hnone⟩

theorem Completed.restrict (h : Completed stops P tokens fill) (hstops : ∀ x, stops' x → stops x) :
    Completed stops' P tokens fill :=
  fun back t more hback ht => h back t more hback (hstops _ ht)

/-- The first word of a completion is there. -/
theorem Completed.snoc {w : Word} (h : Completed stops P tokens (w :: fill)) {t : Token}
    (ht : t.lexeme = w.lexeme) : Completed stops P (tokens ++ [t]) fill := by
  intro back u more hback hu
  rw [List.append_assoc]
  exact h (t :: back) u more (by rw [List.map_cons, List.map_cons, ht, hback]) hu

/-- Parsers that are `Q` once they have taken the tokens `used`. -/
def LeadsTo (P : Nat → Parser α) (used left : List Token) (Q : Nat → Parser α) : Prop :=
  ∀ tail, (left ≠ [] → tail.head? = left.head?) →
    ∀ᶠ m in atTop, (P m).run (used ++ tail) = (Q m).run tail

theorem Completed.extend (h : Completed stops Q left fill) (hleads : LeadsTo P used left Q) :
    Completed stops P (used ++ left) fill := by
  intro back t more hback ht
  obtain ⟨a, ha⟩ := h back t more hback ht
  refine ⟨a, .of_eq ?_ ha⟩
  rw [List.append_assoc]
  refine hleads _ fun hleft => ?_
  obtain ⟨u, us, rfl⟩ := List.exists_cons_of_ne_nil hleft
  rfl

theorem Prospect.extend (h : Prospect s' stops Q left finish) (hused : s ≤ used.length)
    (hsound : Sound used) (hleads : LeadsTo P used left Q) :
    Prospect (s + s') stops P (used ++ left) finish := by
  have hwith (rest : List Token) : left ≠ [] → (left ++ rest).head? = left.head? := by
    intro hleft
    obtain ⟨u, us, rfl⟩ := List.exists_cons_of_ne_nil hleft
    rfl
  have hrun {x} (rest : List Token) (hx : Settles Q (left ++ rest) x) :
      Settles P ((used ++ left) ++ rest) x := by
    refine .of_eq ?_ hx
    rw [List.append_assoc]
    exact hleads _ (hwith rest)
  cases h with
  | @taken a used' left' htokens hleft' hused' hsound' hruns =>
    subst htokens
    refine .taken (a := a) (List.append_assoc ..).symm hleft' ?_ (hsound.append hsound')
      fun tail htail => ?_
    · rw [List.length_append]
      exact Nat.add_le_add hused hused'
    · refine .of_eq ?_ (hruns tail htail)
      rw [List.append_assoc]
      refine hleads _ fun _ => ?_
      rw [List.head?_append, List.head?_append, htail]
  | whole hused' hsound' hx hfill =>
    refine .whole ?_ (hsound.append hsound') (hrun _ hx) (hfill.extend hleads)
    rw [List.length_append]
    exact Nat.add_le_add hused hused'
  | short hx hfill => exact .short (hrun _ hx) (hfill.extend hleads)
  | stuck h =>
    refine .stuck ⟨?_, fun rest hcut => ?_⟩
    · refine h.flawed.imp (fun ⟨t, ht, hbreaks⟩ => ?_) (·.append used)
      exact ⟨t, List.mem_append_right _ ht, hbreaks⟩
    · refine .of_eq ?_ (h.fails rest hcut.suffix)
      rw [List.append_assoc]
      exact hleads _ (hwith rest)
  | refused hx he => exact .refused (hrun _ hx) he

theorem Prospect.mono (h : Prospect s stops P tokens finish) (hs : s' ≤ s)
    (hstops : ∀ x, stops' x → stops x) : Prospect s' stops' P tokens finish := by
  cases h with
  | taken htokens hleft hused hsound hruns =>
    exact .taken htokens hleft (Nat.le_trans hs hused) hsound hruns
  | whole hused hsound hrun hfill =>
    exact .whole (Nat.le_trans hs hused) hsound hrun (hfill.restrict hstops)
  | short hrun hfill => exact .short hrun (hfill.restrict hstops)
  | stuck h => exact .stuck h
  | refused hrun he => exact .refused hrun he

/-- Parsers that are `Q` before they have taken anything. -/
theorem Prospect.of_leadsTo (h : Prospect s stops Q left finish) (hleads : LeadsTo P [] left Q) :
    Prospect s stops P left finish := by
  have hextended := h.extend (Nat.le_refl 0) .nil hleads
  rwa [Nat.zero_add] at hextended

/-- Parsers that are `Q` where these two tokens are next, if they take the first of them. -/
theorem Prospect.of_second {t u : Token} {rest : List Token}
    (h : Prospect (s + 1) stops Q (t :: u :: rest) finish)
    (hsame : ∀ m more, (P m).run (t :: u :: more) = (Q m).run (t :: u :: more)) :
    Prospect (s + 1) stops P (t :: u :: rest) finish := by
  have hrun {x} (more : List Token) (hx : Settles Q (t :: u :: more) x) :
      Settles P (t :: u :: more) x := .of_eq (.of_forall fun m => hsame m more) hx
  have hfills {fill} (hfill : Completed stops Q (t :: u :: rest) fill) :
      Completed stops P (t :: u :: rest) fill := fun back v more hback hv => by
    obtain ⟨a, ha⟩ := hfill back v more hback hv
    exact ⟨a, hrun _ ha⟩
  cases h with
  | @taken a used left htokens hleft hused hsound hruns =>
    refine .taken (a := a) htokens hleft hused hsound fun tail htail => ?_
    obtain ⟨t', used, rfl⟩ :=
      List.exists_cons_of_length_pos (Nat.lt_of_lt_of_le (Nat.succ_pos s) hused)
    obtain ⟨rfl, hrest⟩ := List.cons.inj htokens
    replace hrest : u :: rest = used ++ left := hrest
    obtain ⟨more, hmore⟩ : ∃ more, used ++ tail = u :: more := by
      refine List.head?_eq_some_iff.1 ?_
      rw [List.head?_append, htail, ← List.head?_append, ← hrest, List.head?_cons]
    have ha := hruns tail htail
    rw [List.cons_append, hmore] at ha ⊢
    exact hrun more ha
  | whole hused hsound hx hfill => exact .whole hused hsound (hrun _ hx) (hfills hfill)
  | short hx hfill => exact .short (hrun _ hx) (hfills hfill)
  | stuck h =>
    refine .stuck ⟨h.flawed, fun rest hcut => ?_⟩
    exact .of_eq (.of_forall fun m => hsame m _) (h.fails rest hcut)
  | refused hx he => exact .refused (hrun _ hx) he

theorem Completed.of_succ (h : Completed stops (fun m => P (m + 1)) tokens fill) :
    Completed stops P tokens fill :=
  fun back t more hback ht => (h back t more hback ht).imp fun _ => eventually_succ_iff.1

theorem Prospect.of_succ (h : Prospect s stops (fun m => P (m + 1)) tokens finish) :
    Prospect s stops P tokens finish := by
  cases h with
  | taken htokens hleft hused hsound hruns =>
    exact .taken htokens hleft hused hsound fun tail htail =>
      eventually_succ_iff.1 (hruns tail htail)
  | whole hused hsound hrun hfill =>
    exact .whole hused hsound (eventually_succ_iff.1 hrun) hfill.of_succ
  | short hrun hfill => exact .short (eventually_succ_iff.1 hrun) hfill.of_succ
  | stuck h => exact .stuck ⟨h.flawed, fun rest hcut => eventually_succ_iff.1 (h.fails rest hcut)⟩
  | refused hrun he => exact .refused (eventually_succ_iff.1 hrun) he

theorem Prospect.of_nil (hstarts : Completed stops P [] fill) (h : Alone s P finish) :
    Prospect s stops P [] finish := by
  obtain ⟨rfl, a, hrun⟩ | ⟨e, hrun⟩ := h
  · exact .whole (Nat.le_refl 0) .nil hrun hstarts
  · exact .short hrun hstarts

theorem Prospect.alone (h : Prospect s stops P [] finish) : Alone s P finish := by
  cases h with
  | taken htokens hleft => exact absurd (List.nil_eq_append_iff.1 htokens).2 hleft
  | whole hused _ hrun => exact .inl ⟨Nat.le_zero.1 hused, _, hrun⟩
  | short hrun | refused hrun => exact .inr ⟨_, hrun⟩
  | stuck h =>
    obtain ⟨t, ht, -⟩ | ⟨front, target, sign, value, e, htokens, -⟩ := h.flawed
    · cases ht
    · simp at htokens

end

/-! Putting parsers together -/

/-- The token behind a completion, or the first of it, is one that stops. -/
def Follows (stops : Lexeme → Prop) (fill : List Word) (stops' : Lexeme → Prop) : Prop :=
  ∀ x, stops x → stops' ((fill.head?.map Word.lexeme).getD x)

/-- Whatever comes next. -/
def Anything : Lexeme → Prop := fun _ => True

section

variable {P Q : Nat → Parser α} {F : α → Nat → Parser β} {s s' k k' : Nat}
  {stops stops' : Lexeme → Prop} {fill fill' : List Word} {tokens used left : List Token}
  {finish : Token}

theorem Follows.anything : Follows stops fill Anything := fun _ _ => trivial

theorem Follows.same : Follows stops [] stops := fun _ hx => hx

/-- A completion that begins with this word. -/
theorem Follows.word {w : Word} (h : stops' w.lexeme) : Follows stops (w :: fill) stops' :=
  fun _ _ => h

/-- The token that is next where a completion stands. -/
theorem Follows.next (h : Follows stops fill stops') {back : List Token} {t : Token}
    (hback : back.map Token.lexeme = fill.map Word.lexeme) (ht : stops t.lexeme)
    (more : List Token) : ∃ u rest, back ++ t :: more = u :: rest ∧ stops' u.lexeme := by
  have hnext := h t.lexeme ht
  rw [← List.head?_map, ← hback] at hnext
  cases back with
  | nil => exact ⟨t, more, rfl, hnext⟩
  | cons u back => exact ⟨u, back ++ t :: more, rfl, hnext⟩

theorem Completed.pure (a : α) : Completed stops (fun _ => (Pure.pure a : Parser α)) [] [] := by
  intro back t more hback _
  obtain rfl := List.map_eq_nil_iff.1 hback
  exact ⟨a, .of_run fun _ => rfl⟩

theorem Completed.bind (hP : Completed stops' P tokens fill)
    (hF : ∀ a, Completed stops (F a) [] fill') (hfollows : Follows stops fill' stops') :
    Completed stops (fun m => P m >>= fun a => F a m) tokens (fill ++ fill') := by
  intro back t more hback ht
  rw [List.map_append] at hback
  obtain ⟨front, back, rfl, hfront, hback⟩ := List.map_eq_append_iff.1 hback
  obtain ⟨u, rest, hrest, hu⟩ := hfollows.next hback ht more
  obtain ⟨a, ha⟩ := hP front u rest hfront hu
  obtain ⟨b, hb⟩ := hF a back t more hback ht
  rw [List.nil_append, hrest] at hb
  rw [List.append_assoc, hrest]
  exact ⟨b, ha.bind hb⟩

theorem Alone.bind (hP : Alone s P finish) (hF : ∀ a, Alone s' (F a) finish) :
    Alone (s + s') (fun m => P m >>= fun a => F a m) finish := by
  obtain ⟨rfl, a, hrun⟩ | ⟨e, hrun⟩ := hP
  · obtain ⟨rfl, b, hrun'⟩ | ⟨e, hrun'⟩ := hF a
    · exact .inl ⟨rfl, b, hrun.bind hrun'⟩
    · exact .inr ⟨e, hrun.bind hrun'⟩
  · exact .inr ⟨e, hrun.bind_error⟩

/-- What is begun by the first parser is followed by what the second begins with. It is left to show
what becomes of tokens on which the first gets no further than to the second. -/
theorem Prospect.bind_of (hP : Prospect s stops' P tokens finish)
    (hstarts : ∀ a, Completed stops (F a) [] fill') (halone : ∀ a, Alone s' (F a) finish)
    (hfollows : Follows stops fill' stops')
    (htaken : ∀ a used left, tokens = used ++ left → left ≠ [] → s ≤ used.length → Sound used →
      (∀ tail, tail.head? = left.head? → Settles P (used ++ tail) (.ok (a, tail))) →
        Prospect (s + s') stops (fun m => P m >>= fun a => F a m) tokens finish) :
    Prospect (s + s') stops (fun m => P m >>= fun a => F a m) tokens finish := by
  cases hP with
  | taken htokens hleft hused hsound hruns => exact htaken _ _ _ htokens hleft hused hsound hruns
  | @whole a fill hused hsound hrun hfill =>
    obtain ⟨rfl, b, hrun'⟩ | ⟨e, hrun'⟩ := halone a
    · exact .whole hused hsound (hrun.bind hrun') (hfill.bind hstarts hfollows)
    · exact .short (hrun.bind hrun') (hfill.bind hstarts hfollows)
  | short hrun hfill => exact .short hrun.bind_error (hfill.bind hstarts hfollows)
  | stuck h => exact .stuck ⟨h.flawed, fun rest hcut => (h.fails rest hcut).bind⟩
  | refused hrun he => exact .refused hrun.bind_error he

/-- What is left for the second parser is completed. -/
theorem Prospect.bind (hP : Prospect s stops' P tokens finish)
    (hF : ∀ a, Completes s' k' stops fill' (F a)) (hfollows : Follows stops fill' stops')
    (hcut : Cut tokens finish [finish]) (hk : tokens.length < k' + s) :
    Prospect (s + s') stops (fun m => P m >>= fun a => F a m) tokens finish := by
  refine hP.bind_of (fun a => (hF a).starts) (fun a => (hF a).alone finish hcut.ends) hfollows
    fun a used left htokens hleft hused hsound hruns => ?_
  subst htokens
  rw [List.length_append] at hk
  refine ((hF a).goes hleft hcut.suffix (by omega)).extend hused hsound fun tail htail => ?_
  exact (hruns tail (htail hleft)).mono fun m hm => run_bind_of hm

end

namespace Completes

variable {P Q : Nat → Parser α} {F : α → Nat → Parser β} {s s' k k' : Nat}
  {stops stops' : Lexeme → Prop} {fill fill' : List Word}

theorem mono (h : Completes s k stops fill P) (hs : s' ≤ s) (hk : k' ≤ k) :
    Completes s' k' stops fill P where
  starts := h.starts
  alone finish hfinish :=
    (h.alone finish hfinish).imp_left fun ⟨hzero, hrun⟩ => ⟨by omega, hrun⟩
  goes _ _ hne hcut hlength :=
    (h.goes hne hcut (Nat.lt_of_lt_of_le hlength hk)).mono hs fun _ => id

theorem weak (h : Completes s k stops fill P) : Completes 0 k stops fill P :=
  h.mono (Nat.zero_le s) (Nat.le_refl k)

theorem restrict (h : Completes s k stops fill P) (hstops : ∀ x, stops' x → stops x) :
    Completes s k stops' fill P where
  starts := h.starts.restrict hstops
  alone := h.alone
  goes _ _ hne hcut hlength := (h.goes hne hcut hlength).mono (Nat.le_refl s) hstops

theorem prospect (h : Completes s k stops fill P) {tokens : List Token} {finish : Token}
    (hcut : Cut tokens finish [finish]) (hlength : tokens.length < k) :
    Prospect s stops P tokens finish := by
  cases tokens with
  | nil => exact .of_nil h.starts (h.alone finish hcut.ends)
  | cons t tokens => exact h.goes (List.cons_ne_nil t tokens) hcut hlength

/-- What is left for the second of two parsers is less than `k'` tokens if the first takes
enough. -/
theorem bind' (hP : Completes s k stops' fill P) (hF : ∀ a, Completes s' k' stops fill' (F a))
    (hfollows : Follows stops fill' stops') (hk : k ≤ k' + s) :
    Completes (s + s') k stops (fill ++ fill') (fun m => P m >>= fun a => F a m) where
  starts := hP.starts.bind (fun a => (hF a).starts) hfollows
  alone finish hfinish := (hP.alone finish hfinish).bind fun a => (hF a).alone finish hfinish
  goes _ _ hne hcut hlength :=
    (hP.goes hne hcut hlength).bind hF hfollows hcut (Nat.lt_of_lt_of_le hlength hk)

theorem bind (hP : Completes s k stops' fill P) (hF : ∀ a, Completes 0 k stops fill' (F a))
    (hfollows : Follows stops fill' stops') :
    Completes s k stops (fill ++ fill') (fun m => P m >>= fun a => F a m) :=
  hP.bind' hF hfollows (Nat.le_add_right k s)

/-- The first parser need not take anything. -/
theorem after (hP : Completes 0 k stops' fill P) (hF : ∀ a, Completes s k stops fill' (F a))
    (hfollows : Follows stops fill' stops') :
    Completes s k stops (fill ++ fill') (fun m => P m >>= fun a => F a m) := by
  have h := hP.bind' hF hfollows (Nat.le_refl k)
  rwa [Nat.zero_add] at h

/-- After a token is taken, fewer are left. -/
theorem andThen (hP : Completes 1 (k + 1) stops' fill P)
    (hF : ∀ a, Completes 0 k stops fill' (F a)) (hfollows : Follows stops fill' stops') :
    Completes 1 (k + 1) stops (fill ++ fill') (fun m => P m >>= fun a => F a m) :=
  hP.bind' hF hfollows (Nat.le_refl _)

theorem pure (a : α) : Completes 0 k stops [] fun _ => (Pure.pure a : Parser α) where
  starts := .pure a
  alone _ _ := .inl ⟨rfl, a, .of_run fun _ => rfl⟩
  goes _ _ hne _ _ :=
    .taken (List.nil_append _).symm hne (Nat.le_refl 0) .nil fun _ _ => .of_run fun _ => rfl

theorem map (h : Completes s k stops fill P) (g : α → β) :
    Completes s k stops fill (fun m => g <$> P m) := by
  have hbind : Completes s k stops (fill ++ []) (fun m => P m >>= fun a => Pure.pure (g a)) :=
    h.bind (fun a => pure (g a)) fun _ hx => hx
  simpa only [List.append_nil, ← map_eq_pure_bind] using hbind

/-- It does not matter from where the bound counts. -/
theorem of_succ (h : Completes s k stops fill fun m => P (m + 1)) : Completes s k stops fill P where
  starts := h.starts.of_succ
  alone finish hfinish := (h.alone finish hfinish).imp
    (.imp_right (.imp fun _ => eventually_succ_iff.1)) (.imp fun _ => eventually_succ_iff.1)
  goes _ _ hne hcut hlength := (h.goes hne hcut hlength).of_succ

/-- Parsers that are the same from some bound on. -/
theorem congr (h : Completes s k stops fill P) (heq : ∀ᶠ m in atTop, Q m = P m) :
    Completes s k stops fill Q := by
  have hleads (tokens : List Token) : LeadsTo Q [] tokens P := fun tail _ =>
    heq.mono fun m hm => by rw [hm, List.nil_append]
  refine ⟨h.starts.extend (hleads []), fun finish hfinish => ?_,
    fun tokens finish hne hcut hk => ?_⟩
  · exact ((Prospect.of_nil h.starts (h.alone finish hfinish)).of_leadsTo (hleads [])).alone
  · exact (h.goes hne hcut hk).of_leadsTo (hleads tokens)

end Completes

end ScriptEngine.Grammar
