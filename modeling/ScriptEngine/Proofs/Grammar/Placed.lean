import Mathlib
import ScriptEngine.Proofs.Grammar.Faultless
import ScriptEngine.Proofs.Grammar.Placing

/-!
# Every node stands where its token does

Each production lays the node that it makes out over the tokens that it takes, if the productions
below it do. So the whole parser lays a program out over its tokens, and the code of templates over
the tokens of that code.
-/
namespace ScriptEngine.Grammar
open Text (Position StandsAt)

/-- The nodes that are made for each goal. -/
def Goal.nodes : (goal : Goal) → goal.Result → List Node
  | .expression, e | .unary, e => [.expr e]
  | .statement, s => [.stmt s]
  | .bindingPattern, _ | .matchPattern, _ | .typeName, _ => []

/-- The parsers one level deeper lay out what they make. -/
structure Deeper.Placed (whole : List Char) (k : Nat) (d : Deeper) : Prop where
  steady : SteadyBelow k d d
  parse : ∀ goal, Yields whole k (d.parse goal) goal.nodes

section

variable {α : Type} {whole : List Char} {k : Nat}

/-! Lists of items -/

section

variable {d : Deeper} {nodes : α → List Node} {node : α → Node}

theorem items_yields {more more' : Parser Bool} {item : Parser (α × Bool)}
    (hmore : Steady 0 k more more') (hitem : Yields whole k item fun x => nodes x.1) (n : Nat) :
    Yields whole k (items more item n) fun xs => xs.flatMap nodes := by
  induction n with
  | zero => exact .pure rfl
  | succ n ih =>
    refine .after hmore fun again => ?_
    split
    · refine .parts hitem fun (a, again) => ?_
      dsimp only
      split
      · exact .parts ih fun xs => .pure (by simp)
      · exact .pure (by simp)
    · exact .pure rfl

theorem commaItem_yields {item : Parser α} (hitem : Yields whole k item nodes) :
    Yields whole k (do return (← item, ← accept .comma) : Parser (α × Bool)) fun x => nodes x.1 :=
  .parts hitem fun _ => .after (Steady.accept .comma) fun _ => .pure rfl

theorem commaItems_yields {item : Parser α} (close : Symbol)
    (hitem : Yields whole k item fun a => [node a]) :
    Yields whole k (commaItems d close item) fun xs => xs.map node := by
  simp only [List.map_eq_flatMap]
  exact items_yields ((Steady.isNext close).bind fun _ => .pure _) (commaItem_yields hitem) _

theorem itemsUntil_yields {item : Parser α} (close : Symbol)
    (hitem : Yields whole k item fun a => [node a]) :
    Yields whole k (itemsUntil d close item) fun xs => xs.map node := by
  simp only [List.map_eq_flatMap]
  exact items_yields ((Steady.isNext close).bind fun _ => Steady.atEnd.bind fun _ => .pure _)
    (.parts hitem fun _ => .pure rfl) _

theorem closedList_yields {item : Parser α} (expected : String)
    (hitem : Yields whole k item nodes) :
    Yields whole k (closedList d expected item) fun xs => xs.flatMap nodes := by
  have hitems : Yields whole k (commaSeparated d item) fun xs => xs.flatMap nodes :=
    items_yields (.pure true) (commaItem_yields hitem) _
  exact .after (Steady.isNext _) fun _ => .choose (.pure rfl) hitems fun _ =>
    .after (Steady.expect _ _) fun _ => .pure rfl

end

variable {d : Deeper} (hd : d.Placed whole k)
include hd

/-! Functions -/

theorem Deeper.Placed.pattern : Steady 1 k (bindingPattern d) (bindingPattern d) :=
  (bindingPattern_steady hd.steady).mono (Nat.le_refl 1) (Nat.le_succ k)

theorem Deeper.Placed.type (sign : Symbol) : Steady 0 k (typeAfter d sign) (typeAfter d sign) :=
  (typeAfter_steady hd.steady sign).mono (Nat.le_refl 0) (Nat.le_succ k)

theorem parameter_yields : Yields whole k (parameter d) fun p => p.2.toList.map .expr := by
  refine .after hd.pattern fun p => .after ((hd.type .colon).map _) fun _ =>
    .after (Steady.accept .equal) fun given => ?_
  split
  · exact .parts (hd.parse .expression) fun _ => .pure rfl
  · exact .pure rfl

theorem body_yields : Yields whole k (body d) fun body => body.map .stmt :=
  .after (Steady.expect _ _) fun _ => .parts (itemsUntil_yields _ (hd.parse .statement)) fun _ =>
    .after (Steady.expect _ _) fun _ => .pure rfl

theorem functionRest_lays (name : String) (isAsync : Bool) (position : Position) :
    Lays whole [] k (functionRest d name isAsync position) fun f ns =>
      f.name = name ∧ f.isAsync = isAsync ∧ f.position = position ∧ ns = f.nodes :=
  .after (Steady.expect _ _) fun _ => .parts (closedList_yields _ (parameter_yields hd)) fun _ =>
    .after (hd.type .thinArrow) fun _ => .parts (body_yields hd) fun _ =>
      .pure ⟨rfl, rfl, rfl, rfl⟩

theorem arrowRest_lays (params : List (Pattern × Option Expr)) (position : Position) :
    Lays whole [] k (arrowRest d params position) fun e ns =>
      ∃ f : Function, e = .function f ∧ f.params = params ∧ f.isAsync = false ∧
        f.position = position ∧ ns = f.body.map .stmt := by
  refine .after (Steady.isNext _) fun block => ?_
  split
  · exact .parts (body_yields hd) fun _ => .pure ⟨_, rfl, rfl, rfl, rfl, rfl⟩
  · refine .here fun t => ?_
    have hreturned := (hd.parse .expression t).led (s := fun e => .return (some e) t.position)
      fun _ => .inr rfl
    exact hreturned.bind fun e ns hns => .pure ⟨_, rfl, rfl, rfl, rfl, hns⟩

/-! Templates -/

omit hd in
/-- The code of an interpolation goes on to the finish token. -/
theorem finish_of_ended {t : Token} {more : List Token} {r : Unit × List Token}
    (h : (do unless ← atEnd do unexpected "end of template interpolation" : Parser Unit).run
      (t :: more) = .ok r) : Lexeme.isFinish t.lexeme = true := by
  cases ht : Lexeme.isFinish t.lexeme with
  | true => rfl
  | false =>
    rw [StateT.run_bind] at h
    obtain ⟨⟨ended, left⟩, hended, h⟩ := ok_of_bind h
    cases hended
    rw [ht, if_neg Bool.false_ne_true, unexpected, StateT.run_bind] at h
    obtain ⟨⟨u, left⟩, hnext, h⟩ := ok_of_bind h
    cases hnext
    rw [ht] at h
    cases h

theorem templateParts_interpolated {chunks : List TemplateChunk} {parts : List (Sum String Expr)}
    (hweight : chunksWeight chunks < k) (hplaces : TemplateChunk.InPlace whole chunks)
    (h : templateParts d chunks = .ok parts) : Interpolated whole chunks parts := by
  induction chunks generalizing parts with
  | nil =>
    cases h
    exact .nil
  | cons chunk rest ih =>
    rw [chunksWeight_cons] at hweight
    have hrest : TemplateChunk.InPlace whole rest :=
      fun source origin hmem => hplaces source origin (List.mem_cons_of_mem _ hmem)
    cases chunk with
    | text s =>
      obtain ⟨tail, htail, h⟩ := ok_of_bind h
      cases h
      exact .text (ih (by omega) hrest htail)
    | code source origin =>
      obtain ⟨tokens, hscan, h⟩ := ok_of_bind h
      obtain ⟨⟨e, left⟩, he, h⟩ := ok_of_bind h
      obtain ⟨⟨⟨⟩, _⟩, hend, h⟩ := ok_of_bind h
      obtain ⟨tail, htail, h⟩ := ok_of_bind h
      cases h
      have hscan := ok_of_mapError hscan
      rw [chunkWeight] at hweight
      obtain ⟨init, finish, rfl, -, hready⟩ :=
        Ready.of_scan (k := k) hscan (hplaces source origin List.mem_cons_self) (by omega)
      obtain ⟨t, more, hnext⟩ := hready.exists_next
      obtain ⟨used, back, _, rfl, rfl, he, rfl⟩ := hd.parse .expression t .nil hready hnext he
      have hback : back = [] := by
        cases back with
        | nil => rfl
        | cons u back =>
          have hu := finish_of_ended hend
          rw [hready.closed.plain u (by simp)] at hu
          cases hu
      rw [hback, List.append_nil] at hscan
      exact .code hscan he (ih (by omega) hrest htail)

theorem template_yields {t : Token} {chunks : List TemplateChunk}
    (ht : t.lexeme = .template chunks) :
    LaysAt whole t [] (k + 1)
      (do advance; return Expr.template (← templateParts d chunks) t.position)
      fun e ns => ns = [.expr e] := by
  have hplain : t.lexeme ≠ .finish := by simp [ht]
  have hparts (hplace : t.InPlace whole) (hweight : tokenWeight t ≤ k) : Lays whole [] k
      (do return Expr.template (← templateParts d chunks) t.position : Parser Expr) fun e ns =>
        ∃ parts, e = .template parts t.position ∧ Interpolated whole chunks parts ∧ ns = [] := by
    rw [tokenWeight_template ht] at hweight
    intro u
    apply LaysAt.bind (N := fun parts ns => Interpolated whole chunks parts ∧ ns = [])
    · refine .lift fun parts h => ⟨?_, rfl⟩
      exact templateParts_interpolated hd (by omega) (hplace.code chunks ht) h
    · exact fun parts ns hns => .pure ⟨parts, rfl, hns⟩
  refine .take hplain hparts fun front back e ns hplace hfront hback he => ⟨_, ?_, rfl⟩
  obtain ⟨parts, rfl, hinside, rfl⟩ := he
  have hown : OwnToken whole (.expr (.template parts t.position)) t :=
    ⟨hplace, hplain, rfl, chunks, ht⟩
  have hnode : Spread whole ([t] ++ back) [.expr (.template parts t.position)] :=
    .node (.template hown ht hinside) hback
  exact hnode.skips front

/-! Operands -/

theorem arrayElement_yields : Yields whole k (arrayElement d) fun x => [.expr x.1] :=
  .after (Steady.accept _) fun _ => .parts (hd.parse .expression) fun _ => .pure rfl

theorem arrayLiteral_yields : Yields whole (k + 1) (arrayLiteral d) fun e => [.expr e] := by
  refine .here fun t => .expect fun ht => .own (by simp [ht]) ?_
  exact .parts (commaItems_yields _ (arrayElement_yields hd)) fun _ =>
    .after (Steady.expect _ _) fun _ => .pure ⟨rfl, ht, rfl, rfl, rfl⟩

/-- The key of a field is a node only if it stands for a variable. -/
theorem objectField_yields : Yields whole (k + 1) (objectField d) fun x => [.expr x.2] := by
  refine .here fun t => .propertyName fun key hkey => ?_
  have hplain : t.lexeme ≠ .finish := by
    intro ht
    rw [ht] at hkey
    cases hkey
  have hfield : Lays whole [] k (do
      if ← accept .colon then return (key, ← d.parse .expression)
      return (key, .name key t.position) : Parser (String × Expr)) fun x ns =>
        ns = [.expr x.2] ∨ x.2 = .name key t.position ∧ ns = [] := by
    refine .after (Steady.accept _) fun given => ?_
    split
    · exact .parts (hd.parse .expression) fun _ => .pure (.inl rfl)
    · exact .pure (.inr ⟨rfl, rfl⟩)
  refine .take hplain (fun _ _ => hfield) ?_
  intro front back x ns hplace hfront hback hx
  refine ⟨[.expr x.2], ?_, rfl⟩
  obtain rfl | ⟨hname, rfl⟩ := hx
  · exact hfront.append (.skip hback)
  · rw [hname]
    exact spread_of_fits ⟨rfl, hkey, rfl, rfl, rfl⟩ hplace hplain hfront hback

theorem objectLiteral_yields : Yields whole (k + 1) (objectLiteral d) fun e => [.expr e] := by
  refine .here fun t => .expect fun ht => .own (by simp [ht]) ?_
  have hfield := (objectField_yields hd).lower (Nat.le_succ k)
  exact .parts (commaItems_yields _ hfield) fun _ =>
    .after (Steady.expect _ _) fun _ => .pure ⟨rfl, ht, rfl, rfl, rfl⟩

omit hd in
theorem arrow_fits {t : Token} {f : Function} {params : List (Pattern × Option Expr)}
    (hparams : f.params = params) (hasync : f.isAsync = false) (hposition : f.position = t.position)
    (ht : t.lexeme = .symbol .openParen ∨
      ∃ n, t.lexeme = .name n ∧ params = [(.name n, none)]) :
    (Node.expr (.function f)).Fits t []
      ((params.flatMap fun p => p.2.toList.map .expr) ++ f.body.map .stmt) where
  position := hposition
  marks := by
    rw [Node.Marks, hasync, if_neg Bool.false_ne_true, hparams]
    exact .inr ht
  inside := rfl
  before := rfl
  after := by
    rw [← hparams]
    rfl

theorem parenthesized_yields {t : Token} (ht : t.lexeme = .symbol .openParen) :
    LaysAt whole t [] (k + 1) (parenthesized d t.position) fun e ns => ns = [.expr e] := by
  have hplain : t.lexeme ≠ .finish := by simp [ht]
  refine .get fun tokens => ?_
  split
  · exact .fail
  · refine .own hplain (.parts (closedList_yields _ (parameter_yields hd)) fun params =>
      .after (Steady.expect _ _) fun _ => .last (arrowRest_lays hd params _) ?_)
    rintro _ _ ⟨f, rfl, hparams, hasync, hposition, rfl⟩
    exact arrow_fits hparams hasync hposition (.inl ht)
  · exact .own hplain (.parts (hd.parse .expression) fun inner =>
      .after (Steady.expect _ _) fun _ => .pure ⟨rfl, ht, rfl, rfl, rfl⟩)

theorem functionLiteral_yields (t : Token) :
    LaysAt whole t [] (k + 1) (functionLiteral d t.position) fun e ns => ns = [.expr e] := by
  have hrest (isAsync : Bool)
      (ht : t.lexeme = .keyword (if isAsync then .asyncWord else .fnWord)) : Lays whole [] k
        (do return .function (← functionRest d "" isAsync t.position) : Parser Expr)
        fun e ns => (Node.expr e).Fits t [] ns := by
    refine .part (functionRest_lays hd "" isAsync t.position) ?_
    rintro f _ ⟨-, hasync, hposition, rfl⟩
    refine .pure ⟨hposition, ?_, rfl, rfl, rfl⟩
    rw [Node.Marks, hasync]
    cases isAsync with
    | true => exact ht
    | false => exact .inl ht
  refine .acceptWord (fun ht => ?_) (.expectWord fun ht => ?_)
  · exact .own (by simp [ht]) (.after (Steady.expectWord _ _) fun _ => hrest true ht)
  · exact .own (by simp [ht]) (hrest false ht)

theorem primary_yields : Yields whole (k + 1) (primary d) fun e => [.expr e] := by
  refine .peek fun t => ?_
  have hleaf {e : Expr} (ht : t.lexeme ≠ .finish) (he : (Node.expr e).Fits t [] []) :
      LaysAt whole t [] (k + 1) (do advance; return e) fun e ns => ns = [.expr e] :=
    .own ht (.pure he)
  dsimp only
  split
  case h_1 hl => exact hleaf (by simp [hl]) ⟨rfl, .inl hl, rfl, rfl, rfl⟩
  case h_2 hl => exact hleaf (by simp [hl]) ⟨rfl, .inl hl, rfl, rfl, rfl⟩
  case h_3 hl => exact hleaf (by simp [hl]) ⟨rfl, .inl hl, rfl, rfl, rfl⟩
  case h_4 hl => exact hleaf (by simp [hl]) ⟨rfl, .inl hl, rfl, rfl, rfl⟩
  case h_5 hl => exact hleaf (by simp [hl]) ⟨rfl, .inl hl, rfl, rfl, rfl⟩
  case h_6 chunks hl => exact template_yields hd hl
  case h_7 hl => exact hleaf (by simp [hl]) ⟨rfl, hl, rfl, rfl, rfl⟩
  case h_8 hl =>
    exact .own (by simp [hl]) (.after (Steady.expect _ _) fun _ => .after Steady.name fun _ =>
      .pure ⟨rfl, hl, rfl, rfl, rfl⟩)
  case h_9 n hl =>
    refine .peekSecond fun second => ?_
    split
    · refine .own (by simp [hl]) (.after Steady.advance fun _ => .last (arrowRest_lays hd _ _) ?_)
      rintro _ _ ⟨f, rfl, hparams, hasync, hposition, rfl⟩
      exact arrow_fits hparams hasync hposition (.inr ⟨n, hl, rfl⟩)
    · exact hleaf (by simp [hl]) ⟨rfl, by rw [hl]; rfl, rfl, rfl, rfl⟩
  case h_10 hl => exact parenthesized_yields hd hl
  case h_11 => exact arrayLiteral_yields hd t
  case h_12 => exact objectLiteral_yields hd t
  case h_13 => exact functionLiteral_yields hd t
  case h_14 => exact functionLiteral_yields hd t
  case h_15 => exact .unexpected

theorem accessesOf_lays (n : Nat) (e : Expr) :
    Lays whole [.expr e] (k + 1) (accessesOf d n e) fun e' ns => ns = [.expr e'] := by
  induction n generalizing e with
  | zero => exact .pure rfl
  | succ n ih =>
    refine .peek fun t => ?_
    have hget (optional : Bool)
        (hl : t.lexeme = .symbol (if optional then .questionDot else .dot)) :
        Lays whole [] k propertyName fun name ns =>
          (Node.expr (.get e name optional t.position)).Fits t [.expr e] ns := by
      refine (Lays.of_steady Steady.propertyName).conseq fun name ns hns => ?_
      exact ⟨rfl, hl, rfl, rfl, hns.symm⟩
    split
    next hl =>
      have hcall : Lays whole [] k (closedList d "')' after arguments" (d.parse .expression))
          fun args ns => (Node.expr (.call e args t.position)).Fits t [.expr e] ns := by
        refine (closedList_yields _ (hd.parse .expression)).conseq fun args ns hns => ?_
        exact ⟨rfl, hl, rfl, rfl, List.map_eq_flatMap.trans hns.symm⟩
      exact .join (by simp [hl]) hcall fun args => ih _
    next hl => exact .join (by simp [hl]) (hget false hl) fun name => ih _
    next hl => exact .join (by simp [hl]) (hget true hl) fun name => ih _
    next hl =>
      have hindex : Lays whole [] k (d.parse .expression) fun key ns =>
          (Node.expr (.index e key t.position)).Fits t [.expr e] ns := by
        refine (hd.parse .expression).conseq fun key ns hns => ?_
        exact ⟨rfl, hl, rfl, rfl, hns.symm⟩
      exact .join (by simp [hl]) hindex fun key => .after (Steady.expect _ _) fun _ => ih _
    next => exact .pure rfl

theorem access_yields : Yields whole (k + 1) (access d) fun e => [.expr e] :=
  .parts (primary_yields hd) fun e => accessesOf_lays hd d.bound e

theorem unary_yields : Yields whole (k + 1) (unary d) fun e => [.expr e] := by
  refine .peek fun t => ?_
  split
  next hl =>
    exact .own (by simp [hl]) (.parts (hd.parse .unary) fun _ => .pure ⟨rfl, hl, rfl, rfl, rfl⟩)
  next hl =>
    exact .own (by simp [hl]) (.parts (hd.parse .unary) fun _ => .pure ⟨rfl, hl, rfl, rfl, rfl⟩)
  next hl =>
    exact .own (by simp [hl]) (.parts (hd.parse .unary) fun _ => .pure ⟨rfl, hl, rfl, rfl, rfl⟩)
  next hl => exact .skip (by simp [hl]) (hd.parse .unary)
  next => exact access_yields hd t

/-! Operators -/

omit hd in
theorem join_fits {t : Token} {i : Infix} (ht : t.lexeme.operator? = some i) (left right : Expr) :
    (Node.expr (i.join left right t.position)).Fits t [.expr left] [.expr right] := by
  cases i with
  | binary op => exact ⟨rfl, ht, rfl, rfl, rfl⟩
  | logical op => exact ⟨rfl, ht, rfl, rfl, rfl⟩

omit hd in
theorem chainRest_lays {operators : Operators} {operand : Parser Expr} {l : Expr.Level}
    (hoperators : OperatorsAt operators l)
    (hoperand : Yields whole (k + 1) operand fun e => [.expr e]) (n : Nat) (left : Expr) :
    Lays whole [.expr left] (k + 1) (chainRest operators operand n left) fun e ns =>
      ns = [.expr e] := by
  induction n generalizing left with
  | zero => exact .pure rfl
  | succ n ih =>
    refine .peek fun t => ?_
    split
    next => exact .pure rfl
    next join hjoin =>
      obtain ⟨i, -, hi, rfl⟩ := hoperators.exists_operator hjoin
      have ht : t.lexeme ≠ .finish := by
        intro ht
        rw [ht] at hi
        cases hi
      have hright : Lays whole [] k operand fun right ns =>
          (Node.expr (i.join left right t.position)).Fits t [.expr left] ns := by
        refine (hoperand.lower (Nat.le_succ k)).conseq fun right ns hns => ?_
        rw [hns]
        exact join_fits hi left right
      exact .join ht hright fun right => ih _

omit hd in
theorem chain_yields {operators : Operators} {operand : Parser Expr} {l : Expr.Level}
    (hoperators : OperatorsAt operators l)
    (hoperand : Yields whole (k + 1) operand fun e => [.expr e]) :
    Yields whole (k + 1) (chain d operators operand) fun e => [.expr e] :=
  .parts hoperand fun e => chainRest_lays hoperators hoperand d.bound e

theorem pipe_yields : Yields whole (k + 1) (pipe d) fun e => [.expr e] := by
  have hproduct := chain_yields (d := d) (operatorsOf_at .product) (unary_yields hd)
  have hsum := chain_yields (d := d) (operatorsOf_at .sum) hproduct
  have hcomparison := chain_yields (d := d) (operatorsOf_at .comparison) hsum
  have hequality := chain_yields (d := d) (operatorsOf_at .equality) hcomparison
  have hboth := chain_yields (d := d) (operatorsOf_at .both) hequality
  have heither := chain_yields (d := d) (operatorsOf_at .either) hboth
  have hcoalesce := chain_yields (d := d) (operatorsOf_at .coalesce) heither
  exact chain_yields (operatorsOf_at .pipe) hcoalesce

omit hd in
/-- An assignment takes over the parts of its target. -/
theorem assignTo?_spread {t : Token} {front back : List Token} {target value e : Expr}
    (h : assignTo? target value t.position = some e) (hplace : t.InPlace whole)
    (ht : t.lexeme = .symbol .equal) (htarget : Spread whole front [.expr target])
    (hvalue : Spread whole back [.expr value]) : Spread whole (front ++ t :: back) [.expr e] := by
  have hplain : t.lexeme ≠ .finish := by simp [ht]
  cases target with
  | name n q =>
    cases h
    exact spread_of_fits ⟨rfl, ht, rfl, rfl, rfl⟩ hplace hplain (htarget.dissolve rfl) hvalue
  | get object n optional q =>
    cases h
    exact spread_of_fits ⟨rfl, ht, rfl, rfl, rfl⟩ hplace hplain (htarget.dissolve rfl) hvalue
  | index object key q =>
    cases h
    exact spread_of_fits ⟨rfl, ht, rfl, rfl, rfl⟩ hplace hplain (htarget.dissolve rfl) hvalue
  | _ => cases h

theorem expression_yields : Yields whole (k + 1) (expression d) fun e => [.expr e] := by
  refine .parts (pipe_yields hd) fun target => .here fun t => .accept (fun ht => ?_) (.pure rfl)
  let N (e : Expr) (ns : List Node) : Prop :=
    ∃ value, assignTo? target value t.position = some e ∧ ns = [.expr value]
  refine .take (N := N) (by simp [ht]) (fun _ _ => .parts (hd.parse .expression) fun value => ?_) ?_
  · split
    next e he => exact .pure ⟨value, he, rfl⟩
    next => exact .fail
  · rintro front back e _ hplace hfront hback ⟨value, he, rfl⟩
    exact ⟨[.expr e], assignTo?_spread he hplace ht hfront hback, rfl⟩

/-! Declarations -/

theorem declaration_lays (p : Position) :
    Lays whole [] k (declaration d p) fun s ns =>
      ∃ pattern hint init, s = .declare pattern hint init p ∧ ns = init.toList.map .expr := by
  have hinit := (expression_yields hd).lower (Nat.le_succ k)
  exact .after hd.pattern fun _ => .after (hd.type .colon) fun _ =>
    .after (Steady.accept .equal) fun _ => .choose (.optional hinit) (.pure rfl) fun _ =>
      .after Steady.optionalSemicolon fun _ => .pure ⟨_, _, _, rfl, rfl⟩

theorem constantDeclaration_lays (p : Position) :
    Lays whole [] k (constantDeclaration d p) fun s ns =>
      ∃ pattern e, s = .constant pattern e p ∧ ns = [.expr e] := by
  have hinit := (expression_yields hd).lower (Nat.le_succ k)
  refine .after hd.pattern fun pattern => .after ((hd.type .colon).map _) fun _ =>
    .after (Steady.accept .equal) fun given => ?_
  split
  · exact .parts hinit fun e => .after Steady.optionalSemicolon fun _ => .pure ⟨_, _, rfl, rfl⟩
  · exact .after Steady.here fun _ => .fail_bind

theorem functionDeclaration_yields (isAsync : Bool) :
    Yields whole (k + 1) (functionDeclaration d isAsync) fun s => [.stmt s] := by
  refine .here fun t => .expectWord fun ht => .own (by simp [ht]) ?_
  refine .after Steady.name fun n => .part (functionRest_lays hd n isAsync t.position) ?_
  rintro f _ ⟨-, -, hposition, rfl⟩
  exact .pure ⟨hposition, ht, rfl, rfl, rfl⟩

theorem method_yields : Yields whole (k + 1) (method d) fun f => [.method f] := by
  refine .after (Steady.acceptWord _) fun isAsync => .after ((Steady.acceptWord _).map _) fun _ =>
    .here fun t => .name fun n ht => .own (by simp [ht]) ?_
  refine (functionRest_lays hd n isAsync t.position).conseq fun f ns hf => ?_
  obtain ⟨hname, -, hposition, rfl⟩ := hf
  exact ⟨hposition, by rw [Node.Marks, hname, ht], rfl, rfl, rfl⟩

omit hd in
theorem parentClass_yields :
    Yields whole (k + 1) parentClass fun parent => parent.toList.map .expr := by
  refine .after (Steady.accept _) fun given => ?_
  split
  · refine .here fun t => .name fun n ht => .root (by simp [ht]) ?_
    exact .pure ⟨.expr (.name n t.position), ⟨rfl, by rw [ht]; rfl, rfl, rfl, rfl⟩, rfl⟩
  · exact .pure rfl

theorem classDeclaration_yields :
    Yields whole (k + 1) (classDeclaration d) fun s => [.stmt s] := by
  have hparent : Yields whole (k + 1) parentClass fun parent => parent.toList.map .expr :=
    parentClass_yields
  have hmethod := (method_yields hd).lower (Nat.le_succ k)
  refine .here fun t => .expectWord fun ht => .own (by simp [ht]) ?_
  exact .after Steady.name fun n => .parts (hparent.lower (Nat.le_succ k)) fun parent =>
    .after (Steady.expect _ _) fun _ => .parts (itemsUntil_yields _ hmethod) fun methods =>
      .after (Steady.expect _ _) fun _ => .pure ⟨rfl, ht, rfl, rfl, rfl⟩

/-! Control flow -/

theorem condition_yields (word : String) : Yields whole k (condition d word) fun e => [.expr e] :=
  .after (Steady.expect _ _) fun _ => .parts ((expression_yields hd).lower (Nat.le_succ k)) fun _ =>
    .after (Steady.expect _ _) fun _ => .pure rfl

theorem branch_yields {t : Token} (ht : t.lexeme = .keyword .ifWord) :
    LaysAt whole t [] (k + 1) (branch d t.position) fun s ns => ns = [.stmt s] :=
  .own (by simp [ht]) (.parts (condition_yields hd _) fun _ => .parts (hd.parse .statement) fun _ =>
    .after (Steady.acceptWord _) fun _ => .choose (.optional (hd.parse .statement)) (.pure rfl)
      fun _ => .pure ⟨rfl, ht, rfl, rfl, rfl⟩)

theorem conditionalLoop_yields {t : Token} (ht : t.lexeme = .keyword .whileWord) :
    LaysAt whole t [] (k + 1) (conditionalLoop d t.position) fun s ns => ns = [.stmt s] :=
  .own (by simp [ht]) (.parts (condition_yields hd _) fun _ => .parts (hd.parse .statement) fun _ =>
    .pure ⟨rfl, .inl ht, rfl, rfl, rfl⟩)

theorem loopStart_yields :
    Yields whole (k + 1) (loopStart d) fun start => start.toList.map .stmt := by
  refine .after (Steady.accept _) fun empty => ?_
  split
  · exact .pure rfl
  · refine .here fun t => .acceptWord (fun ht => .root (by simp [ht]) ?_) ?_
    · refine .part (declaration_lays hd t.position) fun s ns hs => ?_
      obtain ⟨pattern, hint, init, rfl, rfl⟩ := hs
      exact .pure ⟨.stmt (.declare pattern hint init t.position), ⟨rfl, ht, rfl, rfl, rfl⟩, rfl⟩
    · have hled := (expression_yields hd t).led (s := fun e => .expression e t.position)
        fun _ => .inl rfl
      exact hled.bind fun e ns hns => .after (Steady.expect _ _) fun _ => .pure hns

/-- A condition that is left out stands where the semicolon after it does. -/
theorem loopCondition_lays {α : Type} {done : List Node} {M : α → List Node → Prop}
    {rest : Expr → Parser α} {endless : Bool} {expected : String}
    (hrest : ∀ c, Lays whole (done ++ [.expr c]) k (rest c) M) :
    Lays whole done k
      (if endless then do
        let c ← Expr.literal (.bool true) <$> here
        expect .semicolon expected
        rest c
      else do
        let c ← expression d
        expect .semicolon expected
        rest c) M := by
  split
  · intro t
    rw [map_eq_pure_bind, bind_assoc]
    refine .here ?_
    rw [pure_bind]
    refine .expect fun ht => ?_
    have hliteral : LaysAt whole t [] (k + 1)
        (do advance; return Expr.literal (.bool true) t.position) fun c ns => ns = [.expr c] :=
      .own (by simp [ht]) (.pure ⟨rfl, .inr ⟨rfl, ht⟩, rfl, rfl, rfl⟩)
    have hnext := (hliteral.lower (Nat.le_succ k)).part fun c ns hns => hns ▸ hrest c
    simpa only [bind_assoc, pure_bind] using hnext
  · exact .parts ((expression_yields hd).lower (Nat.le_succ k)) fun c =>
      .after (Steady.expect _ _) fun _ => hrest c

/-- What a counting loop becomes. -/
def counted (start : Option Stmt) (c : Expr) (body : Stmt) (step : Option Expr)
    (position : Position) : Stmt :=
  match start with
  | some start => .block [start, .loop c body step position] position
  | none => .loop c body step position

omit hd in
theorem counted_spread {t : Token} {front back : List Token} {start : Option Stmt} {c : Expr}
    {body : Stmt} {step : Option Expr} (ht : t.lexeme = .keyword .forWord)
    (hplace : t.InPlace whole) (hfront : Spread whole front [])
    (hback : Spread whole back
      (start.toList.map .stmt ++ (Node.stmt (.loop c body step t.position)).after)) :
    Spread whole (front ++ t :: back) [.stmt (counted start c body step t.position)] := by
  have hplain : t.lexeme ≠ .finish := by simp [ht]
  have hmarks : (Node.stmt (.loop c body step t.position)).Marks t.lexeme := by
    cases step with
    | none => exact .inr ht
    | some step => exact ht
  cases start with
  | none => exact spread_of_fits ⟨rfl, hmarks, rfl, rfl, rfl⟩ hplace hplain hfront hback
  | some start => exact (Stands.counting ⟨hplace, hplain, rfl, hmarks⟩ ht hback).spread.skips front

theorem countingLoop_yields {t : Token} (ht : t.lexeme = .keyword .forWord) :
    LaysAt whole t [] (k + 1) (countingLoop d t.position) fun s ns => ns = [.stmt s] := by
  have hstart := (loopStart_yields hd).lower (Nat.le_succ k)
  have hstep := (expression_yields hd).lower (Nat.le_succ k)
  let N (s : Stmt) (ns : List Node) : Prop :=
    ∃ start c body step, s = counted start c body step t.position ∧
      ns = start.toList.map .stmt ++ (Node.stmt (.loop c body step t.position)).after
  refine .take (N := N) (by simp [ht]) (fun _ _ => .after (Steady.expect _ _) fun _ =>
    .parts hstart fun start => .after (Steady.isNext _) fun endless =>
      loopCondition_lays hd fun c => .after (Steady.isNext _) fun closed =>
        .choose (.pure rfl) (.optional hstep) fun step => .after (Steady.expect _ _) fun _ =>
          .parts (hd.parse .statement) fun body => ?_) ?_
  · cases start with
    | none => exact .pure ⟨none, c, body, step, rfl, rfl⟩
    | some start => exact .pure ⟨some start, c, body, step, rfl, rfl⟩
  · rintro front back _ _ hplace hfront hback ⟨start, c, body, step, rfl, rfl⟩
    exact ⟨_, counted_spread ht hplace hfront hback, rfl⟩

theorem attempt_yields {t : Token} (ht : t.lexeme = .keyword .tryWord) :
    LaysAt whole t [] (k + 1) (attempt d t.position) fun s ns => ns = [.stmt s] :=
  .own (by simp [ht]) (.parts (hd.parse .statement) fun _ => .after (Steady.expectWord _ _) fun _ =>
    .after (Steady.expect _ _) fun _ => .after Steady.name fun _ =>
      .after (Steady.expect _ _) fun _ => .parts (hd.parse .statement) fun _ =>
        .pure ⟨rfl, ht, rfl, rfl, rfl⟩)

theorem arm_yields : Yields whole k (arm d) fun a => [.stmt a.2] := by
  have hpattern := (matchPattern_steady hd.steady).mono (Nat.le_refl 1) (Nat.le_succ k)
  exact .after hpattern fun _ => .after (Steady.expect _ _) fun _ => .parts (hd.parse .statement)
    fun _ => .after ((Steady.accept _).map _) fun _ => .pure rfl

theorem selection_yields {t : Token} (ht : t.lexeme = .keyword .matchWord) :
    LaysAt whole t [] (k + 1) (selection d t.position) fun s ns => ns = [.stmt s] :=
  .own (by simp [ht]) (.parts (condition_yields hd _) fun _ => .after (Steady.expect _ _) fun _ =>
    .parts (itemsUntil_yields _ (arm_yields hd)) fun _ => .after (Steady.expect _ _) fun _ =>
      .pure ⟨rfl, ht, rfl, rfl, rfl⟩)

/-! Statements -/

theorem closedExpression_yields : Yields whole (k + 1) (closedExpression d) fun e => [.expr e] :=
  .parts (expression_yields hd) fun _ => .after Steady.optionalSemicolon fun _ => .pure rfl

theorem returnStatement_yields {t : Token} (ht : t.lexeme = .keyword .returnWord) :
    LaysAt whole t [] (k + 1) (returnStatement d t.position) fun s ns => ns = [.stmt s] := by
  have hvalue := (expression_yields hd).lower (Nat.le_succ k)
  exact .own (by simp [ht]) (.after Steady.atEnd fun _ => .after (Steady.isNext _) fun _ =>
    .after (Steady.isNext _) fun _ => .choose (.pure rfl) (.optional hvalue) fun _ =>
      .after Steady.optionalSemicolon fun _ => .pure ⟨rfl, ht, rfl, rfl, rfl⟩)

theorem statement_yields : Yields whole (k + 1) (statement d) fun s => [.stmt s] := by
  have hexpression (t : Token) : LaysAt whole t [] (k + 1)
      (do return Stmt.expression (← closedExpression d) t.position) fun s ns => ns = [.stmt s] :=
    ((closedExpression_yields hd t).led (s := fun e => .expression e t.position)
      fun _ => .inl rfl).bind fun e ns hns => .pure hns
  have hclosed := (closedExpression_yields hd).lower (Nat.le_succ k)
  refine .peek fun t => .peekSecond fun second => ?_
  split
  case h_1 ht =>
    refine .root (by simp [ht]) ((declaration_lays hd t.position).conseq fun s ns hs => ?_)
    obtain ⟨pattern, hint, init, rfl, rfl⟩ := hs
    exact ⟨.stmt (.declare pattern hint init t.position), ⟨rfl, ht, rfl, rfl, rfl⟩, rfl⟩
  case h_2 ht =>
    refine .root (by simp [ht]) ((constantDeclaration_lays hd t.position).conseq fun s ns hs => ?_)
    obtain ⟨pattern, e, rfl, rfl⟩ := hs
    exact ⟨.stmt (.constant pattern e t.position), ⟨rfl, ht, rfl, rfl, rfl⟩, rfl⟩
  case h_3 ht =>
    split
    · exact hexpression t
    · exact functionDeclaration_yields hd false t
  case h_4 ht =>
    split
    · exact .skip (by simp [ht]) ((functionDeclaration_yields hd true).lower (Nat.le_succ k))
    · exact hexpression t
  case h_5 ht => exact classDeclaration_yields hd t
  case h_6 ht =>
    rw [body]
    simp only [bind_assoc, pure_bind]
    refine .expect fun _ => .own (by simp [ht]) ?_
    exact .parts (itemsUntil_yields _ (hd.parse .statement)) fun _ =>
      .after (Steady.expect _ _) fun _ => .pure ⟨rfl, ht, rfl, rfl, rfl⟩
  case h_7 ht => exact branch_yields hd ht
  case h_8 ht => exact conditionalLoop_yields hd ht
  case h_9 ht => exact countingLoop_yields hd ht
  case h_10 ht => exact returnStatement_yields hd ht
  case h_11 ht => exact .own (by simp [ht]) (.parts hclosed fun _ => .pure ⟨rfl, ht, rfl, rfl, rfl⟩)
  case h_12 ht => exact .own (by simp [ht]) (.parts hclosed fun _ => .pure ⟨rfl, ht, rfl, rfl, rfl⟩)
  case h_13 ht => exact .own (by simp [ht]) (.parts hclosed fun _ => .pure ⟨rfl, ht, rfl, rfl, rfl⟩)
  case h_14 ht => exact attempt_yields hd ht
  case h_15 ht => exact selection_yields hd ht
  case h_16 ht =>
    exact .own (by simp [ht]) (.after Steady.optionalSemicolon fun _ =>
      .pure ⟨rfl, ht, rfl, rfl, rfl⟩)
  case h_17 ht =>
    exact .own (by simp [ht]) (.after Steady.optionalSemicolon fun _ =>
      .pure ⟨rfl, ht, rfl, rfl, rfl⟩)
  case h_18 => exact hexpression t

theorem produce_yields (goal : Goal) : Yields whole (k + 1) (produce d goal) goal.nodes := by
  cases goal with
  | expression => exact expression_yields hd
  | unary => exact unary_yields hd
  | statement => exact statement_yields hd
  | bindingPattern => exact .of_steady (bindingPattern_steady hd.steady)
  | matchPattern => exact .of_steady (matchPattern_steady hd.steady)
  | typeName => exact .of_steady (typeName_steady hd.steady)

theorem statements_yields : Yields whole k (statements d) fun program => program.map .stmt := by
  simp only [List.map_eq_flatMap]
  exact items_yields (Steady.atEnd.bind fun _ => .pure _)
    (.parts (hd.parse .statement) fun _ => .pure rfl) _

end

/-- With enough levels to nest, every production lays out what it makes. -/
theorem parseWithin_yields {whole : List Char} {k n : Nat} (hn : k ≤ n) (goal : Goal) :
    Yields whole k (parseWithin n goal) goal.nodes := by
  induction k generalizing n goal with
  | zero => exact fun _ _ _ _ _ _ _ _ hready => absurd hready.weight (Nat.not_lt_zero _)
  | succ k ih =>
    obtain ⟨n, rfl⟩ : ∃ l, n = l + 1 := ⟨n - 1, by omega⟩
    have hn' := Nat.le_of_succ_le_succ hn
    exact produce_yields (d := ⟨n, parseWithin n⟩)
      ⟨steadyBelow_parseWithin hn' hn', fun goal => ih hn' goal⟩ goal

theorem parseTokens_spread {whole : List Char} {tokens : List Token} {finish : Token}
    {program : Program} (hfinish : Lexeme.isFinish finish.lexeme = true)
    (hready : Ready whole (depthBound (tokens ++ [finish])) tokens [finish])
    (h : parseTokens (tokens ++ [finish]) = .ok program) :
    ∃ used back, tokens = used ++ back ∧ Spread whole used (program.map .stmt) := by
  let d : Deeper :=
    ⟨depthBound (tokens ++ [finish]), parseWithin (depthBound (tokens ++ [finish]))⟩
  have hd : d.Placed whole (depthBound (tokens ++ [finish])) :=
    ⟨steadyBelow_parseWithin (Nat.le_refl _) (Nat.le_refl _), parseWithin_yields (Nat.le_refl _)⟩
  have h : ((statements d).run (tokens ++ [finish])).map Prod.fst = .ok program := by
    rw [← finished_of_ends hfinish]
    exact h
  obtain ⟨t, more, hnext⟩ := hready.exists_next
  cases hrun : (statements d).run (tokens ++ [finish]) with
  | error e =>
    rw [hrun] at h
    cases h
  | ok result =>
    obtain ⟨program', left⟩ := result
    rw [hrun] at h
    obtain rfl : program' = program := Except.ok.inj h
    obtain ⟨used, back, _, htokens, -, hspread, rfl⟩ :=
      statements_yields hd t .nil hready hnext hrun
    exact ⟨used, back, htokens, hspread⟩

/-- A program is laid out over the tokens of its text, up to the finish token at the latest. -/
theorem parse_spread {source : String} {program : Program} (h : parse source = .ok program) :
    ∃ tokens rest, Token.scan source = .ok (tokens ++ rest) ∧
      Spread source.toList tokens (program.map .stmt) := by
  unfold parse at h
  cases hscan : Token.scan source with
  | error e => simp [hscan] at h
  | ok tokens =>
    rw [hscan] at h
    obtain ⟨init, finish, rfl, hfinish, hready⟩ :=
      Ready.of_scan hscan .self (Nat.lt_succ_self source.length)
    have hweight : weight init < depthBound (init ++ [finish]) := by
      rw [depthBound_eq, weight_append]
      omega
    obtain ⟨used, back, rfl, hspread⟩ :=
      parseTokens_spread hfinish { hready with weight := hweight } h
    exact ⟨used, back ++ [finish], by rw [List.append_assoc], hspread⟩

/-- Every node of a program, however deep in templates it stands, has the line and column at which
the text has a token that is the node's own or that it begins with. The tokens of the program, and
those of the code in each template from the place of this code on, are laid out in order. -/
theorem nodes_in_place {source : String} {program : Program} (h : parse source = .ok program) :
    (∃ tokens rest, Token.scan source = .ok (tokens ++ rest) ∧
      Spread source.toList tokens (program.map .stmt)) ∧
    ∀ s ∈ program, ∀ n, Relation.ReflTransGen Node.Part (.stmt s) n →
      n.InPlace source.toList := by
  obtain ⟨tokens, rest, hscan, hspread⟩ := parse_spread h
  refine ⟨⟨tokens, rest, hscan, hspread⟩, fun s hs => ?_⟩
  exact hspread.settled _ (List.mem_map_of_mem hs)

/-- A template on two lines with another one in it, whose code begins on a third line. -/
def nestedTemplates : String := "`a\n$\x7b`$\x7b\n  x\x7d`\x7d`"

theorem nestedTemplates_in_place :
    ∃ program s, parse nestedTemplates = .ok program ∧ s ∈ program ∧
      Relation.ReflTransGen Node.Part (.stmt s) (.expr (.name "x" ⟨3, 3, 3⟩)) ∧
      (Node.expr (.name "x" ⟨3, 3, 3⟩)).InPlace nestedTemplates.toList := by
  let inner : Expr := .template [.inr (.name "x" ⟨3, 3, 3⟩)] ⟨2, 3, 0⟩
  let outer : Expr := .template [.inl "a\n", .inr inner] ⟨1, 1, 0⟩
  let s : Stmt := .expression outer ⟨1, 1, 0⟩
  have hparse : parse nestedTemplates = .ok [s] := by cbv
  have hpart : Relation.ReflTransGen Node.Part (.stmt s) (.expr (.name "x" ⟨3, 3, 3⟩)) :=
    .head (b := .expr outer) List.mem_cons_self <| .head (b := .expr inner) List.mem_cons_self <|
      .single List.mem_cons_self
  have hs : s ∈ [s] := List.mem_singleton_self s
  exact ⟨[s], s, hparse, hs, hpart, (nodes_in_place hparse).2 s hs _ hpart⟩

end ScriptEngine.Grammar
