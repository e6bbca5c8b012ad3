import ScriptEngine.Proofs.Grammar.Layout
import ScriptEngine.Proofs.Grammar.Productions
import ScriptEngine.Proofs.Grammar.Reading

/-!
# Parsers that lay nodes out

A parser is run on tokens that stand in a text, some of which were taken before. What it takes is
added to these, and the nodes that were laid out over them become the nodes that are laid out over
all. There is a rule for each way to put parsers together, and one that turns a token with the parts
around it into a node.
-/
namespace ScriptEngine.Grammar
open Text (Position)

/-- Tokens that stand in a text, of a weight below `k`, and what begins with the finish token. -/
structure Ready (whole : List Char) (k : Nat) (tokens rest : List Token) : Prop where
  closed : Closed tokens rest
  weight : weight tokens < k
  places : ∀ t ∈ tokens, t.InPlace whole

namespace Ready

variable {whole : List Char} {k k' : Nat} {t : Token} {tokens used left rest more : List Token}

theorem raise (h : Ready whole k' tokens rest) (hk : k' ≤ k) : Ready whole k tokens rest :=
  { h with weight := Nat.lt_of_lt_of_le h.weight hk }

theorem suffix (h : Ready whole k (used ++ left) rest) : Ready whole k left rest where
  closed := h.closed.suffix
  weight := by
    have hweight := h.weight
    rw [weight_append] at hweight
    omega
  places t ht := h.places t (List.mem_append_right used ht)

/-- There is a next token, since the finish token is never taken. -/
theorem exists_next (h : Ready whole k tokens rest) : ∃ t more, tokens ++ rest = t :: more := by
  obtain ⟨finish, more, rfl, -⟩ := h.closed.ends
  exact List.exists_cons_of_ne_nil (by simp)

/-- A next token that is not the finish token is one of those that stand in the text. -/
theorem next (h : Ready whole k tokens rest) (hnext : tokens ++ rest = t :: more)
    (ht : t.lexeme ≠ .finish) : ∃ left, tokens = t :: left ∧ more = left ++ rest := by
  cases tokens with
  | nil =>
    obtain ⟨finish, _, rfl, hfinish⟩ := h.closed.ends
    obtain ⟨rfl, -⟩ := List.cons.inj hnext
    exact absurd (isFinish_iff.1 hfinish) ht
  | cons u left =>
    obtain ⟨rfl, rfl⟩ := List.cons.inj hnext
    exact ⟨left, rfl, rfl⟩

theorem head (h : Ready whole k (t :: tokens) rest) : t.InPlace whole ∧ t.lexeme ≠ .finish := by
  refine ⟨h.places t List.mem_cons_self, fun ht => ?_⟩
  have hplain := h.closed.plain t List.mem_cons_self
  rw [isFinish_iff.2 ht] at hplain
  cases hplain

theorem tail (h : Ready whole (k + 1) (t :: tokens) rest) :
    Ready whole k tokens rest ∧ tokenWeight t ≤ k := by
  have hpos := tokenWeight_pos t
  have hweight := h.weight
  rw [weight_cons] at hweight
  have hsplit : Ready whole (k + 1) ([t] ++ tokens) rest := h
  exact ⟨{ hsplit.suffix with weight := by omega }, by omega⟩

/-- The tokens of a piece of the text that is read from the line and column where it stands. -/
theorem of_scan {origin : Position} {source : String} {tokens : List Token}
    (hscan : Token.scanAt origin source = .ok tokens)
    (hsource : Text.StandsAt whole origin source.toList) (hk : source.length < k) :
    ∃ init finish, tokens = init ++ [finish] ∧ Lexeme.isFinish finish.lexeme = true ∧
      Ready whole k init [finish] := by
  have hplaces := Token.scanAt_inPlace hscan hsource
  obtain ⟨init, finish, rfl, hplain, hfinish, hweight⟩ := tokensFrom_weight hscan
  rw [String.length_toList] at hweight
  refine ⟨init, finish, rfl, hfinish, ⟨hplain, finish, [], rfl, hfinish⟩, by omega, ?_⟩
  exact fun t ht => hplaces t (List.mem_append_left _ ht)

end Ready

variable {α β : Type} {whole : List Char} {k k' s : Nat} {p q : Parser α} {f : α → Parser β}
  {t : Token} {done : List Node} {N N' : α → List Node → Prop} {M : β → List Node → Prop}
  {nodes : α → List Node}

/-- If `done` is laid out over the tokens taken before and `t` is the next token, then after the
parser some nodes are laid out over all tokens taken, and these and what it makes are so related. -/
def LaysAt (whole : List Char) (t : Token) (done : List Node) (k : Nat) (p : Parser α)
    (N : α → List Node → Prop) : Prop :=
  ∀ ⦃front tokens rest more a left⦄, Spread whole front done → Ready whole k tokens rest →
    tokens ++ rest = t :: more → p.run (tokens ++ rest) = .ok (a, left) →
    ∃ used back ns, tokens = used ++ back ∧ left = back ++ rest ∧
      Spread whole (front ++ used) ns ∧ N a ns

/-- The same whatever the next token is. -/
def Lays (whole : List Char) (done : List Node) (k : Nat) (p : Parser α)
    (N : α → List Node → Prop) : Prop :=
  ∀ t, LaysAt whole t done k p N

/-- Just these nodes are laid out for what the parser makes. -/
abbrev Yields (whole : List Char) (k : Nat) (p : Parser α) (nodes : α → List Node) : Prop :=
  Lays whole [] k p fun a ns => ns = nodes a

theorem LaysAt.conseq (h : LaysAt whole t done k p N) (hN : ∀ a ns, N a ns → N' a ns) :
    LaysAt whole t done k p N' := by
  intro front tokens rest more a left hfront hready hnext hrun
  obtain ⟨used, back, ns, hused, hleft, hns, ha⟩ := h hfront hready hnext hrun
  exact ⟨used, back, ns, hused, hleft, hns, hN a ns ha⟩

theorem Lays.conseq (h : Lays whole done k p N) (hN : ∀ a ns, N a ns → N' a ns) :
    Lays whole done k p N' :=
  fun t => (h t).conseq hN

namespace LaysAt

theorem lower (h : LaysAt whole t done k p N) (hk : k' ≤ k) : LaysAt whole t done k' p N :=
  fun _ _ _ _ _ _ hfront hready => h hfront (hready.raise hk)

theorem pure {a : α} (h : N a done) : LaysAt whole t done k (Pure.pure a) N := by
  intro front tokens rest more b left hfront hready hnext hrun
  cases hrun
  rw [← List.append_nil front] at hfront
  exact ⟨[], tokens, done, rfl, rfl, hfront, h⟩

theorem fail {e : ParseError} : LaysAt whole t done k (Grammar.fail e) N := by
  intro front tokens rest more b left hfront hready hnext hrun
  cases hrun

theorem fail_bind {e : ParseError} : LaysAt whole t done k (Grammar.fail e >>= f) M := by
  intro front tokens rest more b left hfront hready hnext hrun
  cases hrun

theorem lift {x : Except ParseError α} (h : ∀ a, x = .ok a → N a done) :
    LaysAt whole t done k (liftM x : Parser α) N := by
  cases x with
  | error e => exact fail
  | ok a => exact pure (h a rfl)

theorem bind (hp : LaysAt whole t done k p N) (hf : ∀ a ns, N a ns → Lays whole ns k (f a) M) :
    LaysAt whole t done k (p >>= f) M := by
  intro front tokens rest more b left hfront hready hnext hrun
  obtain ⟨⟨a, middle⟩, hfirst, hrun⟩ := ok_of_bind hrun
  obtain ⟨us, back, ns, rfl, rfl, hns, ha⟩ := hp hfront hready hnext hfirst
  obtain ⟨u, more, hnext⟩ := hready.suffix.exists_next
  obtain ⟨vs, back, ms, rfl, rfl, hms, hb⟩ := hf a ns ha u hns hready.suffix hnext hrun
  rw [List.append_assoc] at hms
  exact ⟨us ++ vs, back, ms, (List.append_assoc ..).symm, rfl, hms, hb⟩

/-- Nodes before those that a parser lays out stay. -/
theorem frame (hp : LaysAt whole t [] k p N) (hN : ∀ a ns, N a ns → N' a (done ++ ns)) :
    LaysAt whole t done k p N' := by
  intro front tokens rest more a left hfront hready hnext hrun
  obtain ⟨used, back, ns, hused, hleft, hns, ha⟩ := hp .nil hready hnext hrun
  exact ⟨used, back, done ++ ns, hused, hleft, hfront.append hns, hN a ns ha⟩

/-- The nodes of the first of two parsers come after those laid out before. -/
theorem part (hp : LaysAt whole t [] k p N)
    (hf : ∀ a ns, N a ns → Lays whole (done ++ ns) k (f a) M) :
    LaysAt whole t done k (p >>= f) M := by
  have hframed : LaysAt whole t done k p fun a ns => ∃ ms, ns = done ++ ms ∧ N a ms :=
    hp.frame fun a ns ha => ⟨ns, rfl, ha⟩
  refine hframed.bind fun a ns hns => ?_
  obtain ⟨ms, rfl, ha⟩ := hns
  exact hf a ms ha

/-! Looking at the next token -/

theorem peek {f : Token → Parser β} (h : LaysAt whole t done k (f t) M) :
    LaysAt whole t done k (Grammar.peek >>= f) M := by
  intro front tokens rest more b left hfront hready hnext hrun
  refine h hfront hready hnext ?_
  rw [hnext] at hrun ⊢
  exact hrun

theorem here {f : Position → Parser β} (h : LaysAt whole t done k (f t.position) M) :
    LaysAt whole t done k (Grammar.here >>= f) M := by
  unfold Grammar.here
  rw [bind_assoc]
  exact peek h

theorem peekSecond {f : Option Lexeme → Parser β} (h : ∀ x, LaysAt whole t done k (f x) M) :
    LaysAt whole t done k (Grammar.peekSecond >>= f) M :=
  fun _ _ _ _ _ _ hfront hready hnext hrun => h _ hfront hready hnext hrun

theorem get {f : List Token → Parser β} (h : ∀ tokens, LaysAt whole t done k (f tokens) M) :
    LaysAt whole t done k (MonadState.get >>= f) M :=
  fun _ _ _ _ _ _ hfront hready hnext hrun => h _ hfront hready hnext hrun

theorem unexpected_bind {expected : String} :
    LaysAt whole t done k (Grammar.unexpected expected >>= f) M := by
  unfold Grammar.unexpected
  rw [bind_assoc]
  apply peek
  split
  · exact fail_bind
  · exact fail_bind

theorem unexpected {expected : String} : LaysAt whole t done k (Grammar.unexpected expected) N := by
  rw [← bind_pure (Grammar.unexpected expected)]
  exact unexpected_bind

theorem takeIf {kind : Lexeme → Bool} {f : Bool → Parser β}
    (htrue : kind t.lexeme = true →
      LaysAt whole t done k (Grammar.advance >>= fun _ => f true) M)
    (hfalse : LaysAt whole t done k (f false) M) :
    LaysAt whole t done k (Grammar.takeIf kind >>= f) M := by
  rw [takeIf_bind]
  apply peek
  split
  next h => exact htrue h
  next h => exact hfalse

theorem accept {c : Symbol} {f : Bool → Parser β}
    (htrue : t.lexeme = .symbol c → LaysAt whole t done k (Grammar.advance >>= fun _ => f true) M)
    (hfalse : LaysAt whole t done k (f false) M) :
    LaysAt whole t done k (Grammar.accept c >>= f) M := by
  rw [accept_eq]
  exact takeIf (fun h => htrue (isSymbol_iff'.1 h)) hfalse

theorem acceptWord {w : Keyword} {f : Bool → Parser β}
    (htrue : t.lexeme = .keyword w → LaysAt whole t done k (Grammar.advance >>= fun _ => f true) M)
    (hfalse : LaysAt whole t done k (f false) M) :
    LaysAt whole t done k (Grammar.acceptWord w >>= f) M := by
  rw [acceptWord_eq]
  exact takeIf (fun h => htrue (isKeyword_iff.1 h)) hfalse

theorem expect {c : Symbol} {expected : String} {f : Unit → Parser β}
    (h : t.lexeme = .symbol c → LaysAt whole t done k (Grammar.advance >>= f) M) :
    LaysAt whole t done k (Grammar.expect c expected >>= f) M := by
  unfold Grammar.expect
  rw [bind_assoc]
  exact accept h unexpected_bind

theorem expectWord {w : Keyword} {expected : String} {f : Unit → Parser β}
    (h : t.lexeme = .keyword w → LaysAt whole t done k (Grammar.advance >>= f) M) :
    LaysAt whole t done k (Grammar.expectWord w expected >>= f) M := by
  unfold Grammar.expectWord
  rw [bind_assoc]
  exact acceptWord h unexpected_bind

theorem name {f : String → Parser β}
    (h : ∀ n, t.lexeme = .name n →
      LaysAt whole t done k (Grammar.advance >>= fun _ => f n) M) :
    LaysAt whole t done k (Grammar.name >>= f) M := by
  unfold Grammar.name
  rw [bind_assoc]
  apply peek
  split
  next n hn =>
    rw [bind_assoc]
    exact h n hn
  next => exact unexpected_bind

theorem propertyName {f : String → Parser β}
    (h : ∀ n, t.lexeme.property? = some n →
      LaysAt whole t done k (Grammar.advance >>= fun _ => f n) M) :
    LaysAt whole t done k (Grammar.propertyName >>= f) M := by
  have hnext (n : String) (hn : t.lexeme.property? = some n) :
      LaysAt whole t done k ((Grammar.advance >>= fun _ => Pure.pure n) >>= f) M := by
    rw [bind_assoc]
    exact h n hn
  unfold Grammar.propertyName
  rw [bind_assoc]
  apply peek
  split
  next n hn => exact hnext n (by rw [hn]; rfl)
  next n hn => exact hnext n (by rw [hn]; rfl)
  next w hw => exact hnext w.spelling (by rw [hw]; rfl)
  next => exact unexpected_bind

/-! Taking the next token -/

/-- A token is taken, and it depends on what comes after it which nodes are laid out then. -/
theorem take {p : Unit → Parser α} (ht : t.lexeme ≠ .finish)
    (hp : t.InPlace whole → tokenWeight t ≤ k → Lays whole [] k (p ()) N)
    (hN : ∀ front back a ns, t.InPlace whole → Spread whole front done → Spread whole back ns →
      N a ns → ∃ ms, Spread whole (front ++ t :: back) ms ∧ N' a ms) :
    LaysAt whole t done (k + 1) (Grammar.advance >>= p) N' := by
  intro front tokens rest more a left hfront hready hnext hrun
  obtain ⟨tokens, rfl, rfl⟩ := hready.next hnext ht
  obtain ⟨htail, hweight⟩ := hready.tail
  obtain ⟨u, more, hnext⟩ := htail.exists_next
  have hrun : (p ()).run (tokens ++ rest) = .ok (a, left) := by
    rwa [List.cons_append, run_bind_of (advance_run ht)] at hrun
  obtain ⟨used, back, ns, rfl, rfl, hns, ha⟩ :=
    hp hready.head.1 hweight u .nil htail hnext hrun
  obtain ⟨ms, hms, ha⟩ := hN front used a ns hready.head.1 hfront hns ha
  exact ⟨t :: used, back, ms, rfl, rfl, hms, ha⟩

/-- A token between the nodes. -/
theorem skip {p : Unit → Parser α} (ht : t.lexeme ≠ .finish) (hp : Lays whole [] k (p ()) N) :
    LaysAt whole t [] (k + 1) (Grammar.advance >>= p) N :=
  take ht (fun _ _ => hp) fun front _ _ ns _ _ hback ha => ⟨ns, (Spread.skip hback).skips front, ha⟩

/-- A token becomes a node with the parts laid out before and after it. -/
theorem root {p : Unit → Parser α} (ht : t.lexeme ≠ .finish)
    (hp : Lays whole [] k (p ()) fun a ns => ∃ n : Node, n.Fits t done ns ∧ N a [n]) :
    LaysAt whole t done (k + 1) (Grammar.advance >>= p) N := by
  refine take ht (fun _ _ => hp) fun front back a ns hplace hfront hback ha => ?_
  obtain ⟨n, hn, ha⟩ := ha
  exact ⟨[n], spread_of_fits hn hplace ht hfront hback, ha⟩

theorem own {p : Unit → Parser α} {node : α → Node} (ht : t.lexeme ≠ .finish)
    (hp : Lays whole [] k (p ()) fun a ns => (node a).Fits t done ns) :
    LaysAt whole t done (k + 1) (Grammar.advance >>= p) fun a ns => ns = [node a] :=
  root ht (hp.conseq fun a _ ha => ⟨node a, ha, rfl⟩)

/-- The same with a parser that goes on from the node. -/
theorem join {node : α → Node} (ht : t.lexeme ≠ .finish)
    (hp : Lays whole [] k p fun a ns => (node a).Fits t done ns)
    (hf : ∀ a, Lays whole [node a] (k + 1) (f a) M) :
    LaysAt whole t done (k + 1) (Grammar.advance >>= fun _ => p >>= f) M := by
  rw [← bind_assoc]
  exact (own ht hp).bind fun a _ hns => hns ▸ hf a

/-- A statement that begins with its expression. -/
theorem led {p : Parser Expr} {s : Expr → Stmt}
    (hp : LaysAt whole t [] k p fun e ns => ns = [.expr e])
    (hs : ∀ e, s e = .expression e t.position ∨ s e = .return (some e) t.position) :
    LaysAt whole t [] k p fun e ns => ns = [.stmt (s e)] := by
  intro front tokens rest more e left hfront hready hnext hrun
  obtain ⟨used, back, _, rfl, rfl, he, rfl⟩ := hp .nil hready hnext hrun
  obtain ⟨u, us, rfl⟩ := List.exists_cons_of_ne_nil he.ne_nil
  obtain ⟨rfl, -⟩ := List.cons.inj hnext
  obtain ⟨hplace, hplain⟩ := hready.head
  have hstands : Stands whole (u :: us) (.stmt (s e)) := .led hplace hplain he (hs e)
  exact ⟨u :: us, back, _, rfl, rfl, hstands.spread.skips front, rfl⟩

end LaysAt

namespace Lays

theorem lower (h : Lays whole done k p N) (hk : k' ≤ k) : Lays whole done k' p N :=
  fun t => (h t).lower hk

theorem pure {a : α} (h : N a done) : Lays whole done k (Pure.pure a) N :=
  fun _ => .pure h

theorem fail {e : ParseError} : Lays whole done k (Grammar.fail e) N :=
  fun _ => .fail

theorem fail_bind {e : ParseError} : Lays whole done k (Grammar.fail e >>= f) M :=
  fun _ => .fail_bind

theorem bind (hp : Lays whole done k p N) (hf : ∀ a ns, N a ns → Lays whole ns k (f a) M) :
    Lays whole done k (p >>= f) M :=
  fun t => (hp t).bind hf

theorem peek {f : Token → Parser β} (h : ∀ t, LaysAt whole t done k (f t) M) :
    Lays whole done k (Grammar.peek >>= f) M :=
  fun t => .peek (h t)

theorem here {f : Position → Parser β} (h : ∀ t, LaysAt whole t done k (f t.position) M) :
    Lays whole done k (Grammar.here >>= f) M :=
  fun t => .here (h t)

/-- A parser that makes no nodes. -/
theorem of_steady (h : Steady s k p q) : Lays whole done k p fun _ ns => ns = done := by
  intro t front tokens rest more a left hfront hready hnext hrun
  obtain ⟨-, hout⟩ := h hready.closed hready.weight
  rw [hrun] at hout
  cases hout with
  | @ok _ used back htokens hs =>
    have hused := hfront.append (Spread.skips used .nil)
    rw [List.append_nil, List.append_nil] at hused
    exact ⟨used, back, done, htokens, rfl, hused, rfl⟩

/-- Nothing needs to be known about the first of two parsers, which makes no nodes. -/
theorem after (hp : Steady s k p q) (hf : ∀ a, Lays whole done k (f a) M) :
    Lays whole done k (p >>= f) M :=
  bind (of_steady hp) fun a _ hns => hns ▸ hf a

/-- The nodes of the first of two parsers come before those of the second. -/
theorem part (hp : Lays whole [] k p N) (hf : ∀ a ns, N a ns → Lays whole (done ++ ns) k (f a) M) :
    Lays whole done k (p >>= f) M :=
  fun t => (hp t).part hf

theorem parts (hp : Yields whole k p nodes) (hf : ∀ a, Lays whole (done ++ nodes a) k (f a) M) :
    Lays whole done k (p >>= f) M :=
  part hp fun a _ hns => hns ▸ hf a

/-- Nothing comes after the second of two parsers. -/
theorem last (hp : Lays whole [] k p N) (hN : ∀ a ns, N a ns → N' a (done ++ ns)) :
    Lays whole done k p N' :=
  fun t => (hp t).frame hN

/-- Both ways of a choice are gone on from alike. -/
theorem choose {c : Prop} [Decidable c] {q : Parser α} (hp : Yields whole k p nodes)
    (hq : Yields whole k q nodes) (hf : ∀ a, Lays whole (done ++ nodes a) k (f a) M) :
    Lays whole done k (if c then p >>= f else q >>= f) M := by
  split
  · exact parts hp hf
  · exact parts hq hf

theorem optional {node : α → Node} (hp : Yields whole k p fun a => [node a]) :
    Yields whole k (some <$> p) fun o => o.toList.map node := by
  rw [map_eq_pure_bind]
  exact parts hp fun a => pure rfl

end Lays

end ScriptEngine.Grammar
