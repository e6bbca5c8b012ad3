import Mathlib.Logic.Relation
import ScriptEngine.Proofs.Program.Rendering
import ScriptEngine.Proofs.Token.InPlace

/-!
# Trees laid out over tokens

Which token every node of a tree stands for. The tokens that a node was read from are those of the
parts before its own token, that token, and those of the parts after it; other tokens stand between
the parts. Code in a template is laid out over the tokens of that code. If all these tokens stand
where they say in the text as a whole, so do all nodes, however deep the templates are nested.
-/
namespace ScriptEngine
open Text (Position StandsAt)

/-- What has a place of its own in a tree. A function as an expression or a statement is one node
with that; a method has no other. -/
inductive Node where
  | expr (e : Expr)
  | stmt (s : Stmt)
  | method (f : Function)

/-- The defaults of the parameters and the statements of a function. -/
def Function.nodes (f : Function) : List Node :=
  (f.params.flatMap fun p => p.2.toList.map .expr) ++ f.body.map .stmt

/-- A property may be named by a name, a string or a reserved word. -/
def Lexeme.property? : Lexeme → Option String
  | .name n | .text n => some n
  | .keyword k => some k.spelling
  | _ => none

namespace Node

def position : Node → Position
  | expr e => e.position
  | stmt s => s.position
  | method f => f.position

/-- The parts that are written before a node's own token. -/
def before : Node → List Node
  | expr (.binary _ left _ _) | expr (.logical _ left _ _) => [expr left]
  | expr (.call callee _ _) => [expr callee]
  | expr (.get object _ _ _) | expr (.index object _ _) | expr (.set object _ _ _) => [expr object]
  | expr (.indexSet object key _ _) => [expr object, expr key]
  | _ => []

/-- The parts that are written after a node's own token, in this order. -/
def after : Node → List Node
  | expr (.assign _ part _) | expr (.set _ _ part _) | expr (.indexSet _ _ part _)
  | expr (.binary _ _ part _) | expr (.logical _ _ part _) | expr (.index _ part _)
  | expr (.unary _ part _) | expr (.grouping part _) | expr (.await part _) => [expr part]
  | expr (.call _ args _) => args.map expr
  | expr (.array elements _) => elements.map fun x => expr x.1
  | expr (.object fields _) => fields.map fun x => expr x.2
  | expr (.function f) | stmt (.function f) | method f => f.nodes
  | expr _ => []
  | stmt (.expression e _) | stmt (.print e _) | stmt (.constant _ e _) | stmt (.throw e _)
  | stmt (.load e _) => [expr e]
  | stmt (.declare _ _ value _) | stmt (.return value _) => value.toList.map expr
  | stmt (.block body _) => body.map stmt
  | stmt (.branch c yes no _) => expr c :: stmt yes :: no.toList.map stmt
  | stmt (.loop c body step _) => expr c :: (step.toList.map expr ++ [stmt body])
  | stmt (.classDecl _ parent methods _) => parent.toList.map expr ++ methods.map method
  | stmt (.attempt body _ handler _) => [stmt body, stmt handler]
  | stmt (.select value arms _) => expr value :: arms.map fun x => stmt x.2
  | stmt (.break _) | stmt (.continue _) => []

/-- The parts that are written inside a node's own token. -/
def inside : Node → List Node
  | expr (.template parts _) => (parts.filterMap Sum.getRight?).map expr
  | _ => []

/-- `m` is a part of `n`. -/
def Part (n m : Node) : Prop := m ∈ n.before ++ n.inside ++ n.after

/-- The lexemes that a node's own token may have. Only the condition that a counting loop leaves out
has the semicolon after it. -/
def Marks : Node → Lexeme → Prop
  | expr (.literal value _), x => x = value.lexeme ∨ value = .bool true ∧ x = .symbol .semicolon
  | expr (.name n _), x => x.property? = some n
  | expr (.assign ..), x | expr (.set ..), x | expr (.indexSet ..), x => x = .symbol .equal
  | expr (.binary op ..), x => x.operator? = some (.binary op)
  | expr (.logical op ..), x => x.operator? = some (.logical op)
  | expr (.unary op ..), x => x = .symbol op.symbol
  | expr (.grouping ..), x | expr (.call ..), x => x = .symbol .openParen
  | expr (.get _ _ optional _), x => x = .symbol (if optional then .questionDot else .dot)
  | expr (.index ..), x | expr (.array ..), x => x = .symbol .openBracket
  | expr (.this _), x => x = .keyword .thisWord
  | expr (.super ..), x => x = .keyword .superWord
  | expr (.await ..), x => x = .keyword .awaitWord
  | expr (.object ..), x => x = .symbol .openBrace
  | expr (.template ..), x => ∃ chunks, x = .template chunks
  | expr (.function f), x =>
    if f.isAsync then x = .keyword .asyncWord
    else x = .keyword .fnWord ∨ x = .symbol .openParen ∨
      ∃ n, x = .name n ∧ f.params = [(.name n, none)]
  | stmt (.expression ..), _ => False
  | stmt (.print ..), x => x = .keyword .printWord
  | stmt (.declare ..), x => x = .keyword .letWord
  | stmt (.constant ..), x => x = .keyword .constWord
  | stmt (.block ..), x => x = .symbol .openBrace
  | stmt (.branch ..), x => x = .keyword .ifWord
  | stmt (.loop _ _ none _), x => x = .keyword .whileWord ∨ x = .keyword .forWord
  | stmt (.loop _ _ (some _) _), x => x = .keyword .forWord
  | stmt (.function _), x => x = .keyword .fnWord
  | stmt (.classDecl ..), x => x = .keyword .classWord
  | stmt (.return ..), x => x = .keyword .returnWord
  | stmt (.throw ..), x => x = .keyword .throwWord
  | stmt (.attempt ..), x => x = .keyword .tryWord
  | stmt (.select ..), x => x = .keyword .matchWord
  | stmt (.load ..), x => x = .keyword .importWord
  | stmt (.break _), x => x = .keyword .breakWord
  | stmt (.continue _), x => x = .keyword .continueWord
  | method f, x => x = .name f.name

/-- The node has the place of this token, which may be its own, and these parts before and after
it. -/
structure Fits (t : Token) (before after : List Node) (n : Node) : Prop where
  position : n.position = t.position
  marks : n.Marks t.lexeme
  inside : n.inside = []
  before : n.before = before
  after : n.after = after

/-- The lexemes that a node without a token of its own may begin with: an expression as a statement
or as what a function returns, and the block that a counting loop becomes. -/
def Borrows : Node → Lexeme → Prop
  | stmt (.expression ..), _ | stmt (.return (some _) _), _ => True
  | stmt (.block [_, .loop ..] _), x => x = .keyword .forWord
  | _, _ => False

/-- A node has the line and column of a token that is its own, or that it begins with, and this
token stands in the text at that line and column. -/
def InPlace (whole : List Char) (n : Node) : Prop :=
  ∃ t : Token, t.InPlace whole ∧ t.lexeme ≠ .finish ∧ n.position = t.position ∧
    (n.Marks t.lexeme ∨ n.Borrows t.lexeme)

end Node

namespace Grammar

/-- A node's own token, and the text has it where it says. -/
structure OwnToken (whole : List Char) (n : Node) (t : Token) : Prop where
  place : t.InPlace whole
  plain : t.lexeme ≠ .finish
  position : n.position = t.position
  marks : n.Marks t.lexeme

mutual

/-- The node was read from these tokens. -/
inductive Stands (whole : List Char) : List Token → Node → Prop
  | own {front back : List Token} {t : Token} {n : Node} (ht : OwnToken whole n t)
      (hinside : n.inside = []) (hbefore : Spread whole front n.before)
      (hafter : Spread whole back n.after) : Stands whole (front ++ t :: back) n
  | template {t : Token} {chunks : List TemplateChunk} {parts : List (Sum String Expr)}
      (ht : OwnToken whole (.expr (.template parts t.position)) t)
      (hchunks : t.lexeme = .template chunks) (hparts : Interpolated whole chunks parts) :
      Stands whole [t] (.expr (.template parts t.position))
  /-- A statement that begins with its expression stands where this begins. -/
  | led {t : Token} {back : List Token} {e : Expr} {s : Stmt} (hplace : t.InPlace whole)
      (hplain : t.lexeme ≠ .finish) (he : Spread whole (t :: back) [.expr e])
      (hs : s = .expression e t.position ∨ s = .return (some e) t.position) :
      Stands whole (t :: back) (.stmt s)
  /-- A counting loop with a first clause is a block with the loop inside, at the same place. -/
  | counting {t : Token} {back : List Token} {start body : Stmt} {c : Expr} {step : Option Expr}
      (ht : OwnToken whole (.stmt (.loop c body step t.position)) t)
      (hfor : t.lexeme = .keyword .forWord)
      (hparts : Spread whole back
        (.stmt start :: (Node.stmt (.loop c body step t.position)).after)) :
      Stands whole (t :: back) (.stmt (.block [start, .loop c body step t.position] t.position))

/-- The nodes were read from these tokens, one after the other, with other tokens between. -/
inductive Spread (whole : List Char) : List Token → List Node → Prop
  | nil : Spread whole [] []
  | skip {t : Token} {tokens : List Token} {ns : List Node} (h : Spread whole tokens ns) :
      Spread whole (t :: tokens) ns
  | node {ts us : List Token} {n : Node} {ns : List Node} (hn : Stands whole ts n)
      (h : Spread whole us ns) : Spread whole (ts ++ us) (n :: ns)

/-- The parts of a template: each piece of code was read from the tokens that it has from its place
on. -/
inductive Interpolated (whole : List Char) :
    List TemplateChunk → List (Sum String Expr) → Prop
  | nil : Interpolated whole [] []
  | text {s : String} {chunks : List TemplateChunk} {parts : List (Sum String Expr)}
      (h : Interpolated whole chunks parts) :
      Interpolated whole (.text s :: chunks) (.inl s :: parts)
  | code {source : String} {origin : Position} {tokens : List Token} {finish : Token} {e : Expr}
      {chunks : List TemplateChunk} {parts : List (Sum String Expr)}
      (hscan : Token.scanAt origin source = .ok (tokens ++ [finish]))
      (he : Spread whole tokens [.expr e]) (h : Interpolated whole chunks parts) :
      Interpolated whole (.code source origin :: chunks) (.inr e :: parts)

end

section

variable {whole : List Char} {ts us : List Token} {n : Node} {ns ms : List Node}

theorem Spread.skips (front : List Token) (h : Spread whole us ns) :
    Spread whole (front ++ us) ns := by
  induction front with
  | nil => exact h
  | cons t front ih => exact .skip ih

theorem Spread.append : ∀ {ts us : List Token} {ns ms : List Node}, Spread whole ts ns →
    Spread whole us ms → Spread whole (ts ++ us) (ns ++ ms)
  | _, _, _, _, .nil, hus => hus
  | _, _, _, _, .skip h, hus => .skip (h.append hus)
  | _, _, _, _, .node hn h, hus => by
    rw [List.append_assoc, List.cons_append]
    exact .node hn (h.append hus)

theorem Stands.spread (h : Stands whole ts n) : Spread whole ts [n] := by
  rw [← List.append_nil ts]
  exact .node h .nil

theorem Stands.ne_nil (h : Stands whole ts n) : ts ≠ [] := by
  cases h with
  | own => simp
  | template | led | counting => exact List.cons_ne_nil _ _

theorem Spread.ne_nil (h : Spread whole ts (n :: ns)) : ts ≠ [] := by
  cases h with
  | skip => exact List.cons_ne_nil _ _
  | node hn => simp [hn.ne_nil]

/-- The tokens of the first node, with other tokens before them. -/
theorem Spread.stands : ∀ {ts : List Token} {ns : List Node}, Spread whole ts ns → ∀ {n ms},
    ns = n :: ms → ∃ front us back, ts = front ++ us ++ back ∧ Stands whole us n ∧
      Spread whole back ms
  | _, _, .nil, _, _, h => nomatch h
  | _, _, .skip h, _, _, hns => by
    obtain ⟨front, us, back, rfl, hn⟩ := stands h hns
    exact ⟨_ :: front, us, back, rfl, hn⟩
  | _, _, .node hn h, _, _, hns => by
    obtain ⟨rfl, rfl⟩ := List.cons.inj hns
    exact ⟨[], _, _, rfl, hn, h⟩

/-- A token in the text becomes a node with the parts before and after it. -/
theorem spread_of_fits {t : Token} {front back : List Token} (hn : n.Fits t ns ms)
    (hplace : t.InPlace whole) (hplain : t.lexeme ≠ .finish) (hfront : Spread whole front ns)
    (hback : Spread whole back ms) : Spread whole (front ++ t :: back) [n] := by
  refine Stands.spread (.own ⟨hplace, hplain, hn.position, hn.marks⟩ hn.inside ?_ ?_)
  · rwa [hn.before]
  · rwa [hn.after]

/-- An expression that does not get into the tree leaves its parts. -/
theorem Spread.dissolve {e : Expr} (h : Spread whole ts [.expr e])
    (hinside : (Node.expr e).inside = []) :
    Spread whole ts ((Node.expr e).before ++ (Node.expr e).after) := by
  obtain ⟨front, us, back, rfl, he, hback⟩ := h.stands rfl
  have hparts : Spread whole us ((Node.expr e).before ++ (Node.expr e).after) := by
    cases he with
    | own ht hinside hbefore hafter => exact hbefore.append (.skip hafter)
    | template ht hchunks hparts => exact .skip .nil
  have hall := (hparts.skips front).append hback
  rwa [List.append_nil] at hall

end

/-! Every node stands in the text -/

/-- The node and everything in it, at any depth, stand in the text. -/
def Settled (whole : List Char) (n : Node) : Prop :=
  ∀ m, Relation.ReflTransGen Node.Part n m → m.InPlace whole

section

variable {whole : List Char}

theorem settled_of_parts {n : Node} (hn : n.InPlace whole)
    (hparts : ∀ m, n.Part m → Settled whole m) : Settled whole n := by
  intro m hm
  obtain rfl | ⟨part, hpart, hm⟩ := hm.cases_head
  · exact hn
  · exact hparts part hpart m hm

theorem OwnToken.inPlace {n : Node} {t : Token} (h : OwnToken whole n t) : n.InPlace whole :=
  ⟨t, h.place, h.plain, h.position, .inl h.marks⟩

theorem OwnToken.settled {n : Node} {t : Token} (ht : OwnToken whole n t)
    (hparts : ∀ m ∈ n.before ++ n.inside ++ n.after, Settled whole m) : Settled whole n :=
  settled_of_parts ht.inPlace hparts

theorem settled_template {t : Token} {parts : List (Sum String Expr)}
    (ht : OwnToken whole (.expr (.template parts t.position)) t)
    (hparts : ∀ e ∈ parts.filterMap Sum.getRight?, Settled whole (.expr e)) :
    Settled whole (.expr (.template parts t.position)) := by
  apply ht.settled
  intro m hm
  have hm : m ∈ (parts.filterMap Sum.getRight?).map .expr ++ [] := hm
  rw [List.append_nil] at hm
  obtain ⟨e, he, rfl⟩ := List.mem_map.1 hm
  exact hparts e he

theorem settled_led {t : Token} {e : Expr} {s : Stmt} (hplace : t.InPlace whole)
    (hplain : t.lexeme ≠ .finish) (he : Settled whole (.expr e))
    (hs : s = .expression e t.position ∨ s = .return (some e) t.position) :
    Settled whole (.stmt s) := by
  obtain rfl | rfl := hs
  · refine settled_of_parts ⟨t, hplace, hplain, rfl, .inr trivial⟩ fun m hm => ?_
    rwa [List.mem_singleton.1 hm]
  · refine settled_of_parts ⟨t, hplace, hplain, rfl, .inr trivial⟩ fun m hm => ?_
    rwa [List.mem_singleton.1 hm]

theorem settled_counting {t : Token} {start body : Stmt} {c : Expr} {step : Option Expr}
    (ht : OwnToken whole (.stmt (.loop c body step t.position)) t)
    (hfor : t.lexeme = .keyword .forWord)
    (hparts : ∀ n ∈ .stmt start :: (Node.stmt (.loop c body step t.position)).after,
      Settled whole n) :
    Settled whole (.stmt (.block [start, .loop c body step t.position] t.position)) := by
  obtain ⟨hstart, hafter⟩ := List.forall_mem_cons.1 hparts
  have hloop : Settled whole (.stmt (.loop c body step t.position)) := ht.settled hafter
  refine settled_of_parts ⟨t, ht.place, ht.plain, rfl, .inr hfor⟩ ?_
  exact List.forall_mem_cons.2 ⟨hstart, List.forall_mem_singleton.2 hloop⟩

mutual

theorem Stands.settled : ∀ {ts : List Token} {n : Node}, Stands whole ts n → Settled whole n
  | _, _, .own ht hinside hbefore hafter => by
    apply ht.settled
    rw [hinside, List.append_nil]
    exact List.forall_mem_append.2 ⟨hbefore.settled, hafter.settled⟩
  | _, _, .template ht _ hparts => settled_template ht hparts.settled
  | _, _, .led hplace hplain he hs =>
    settled_led hplace hplain (he.settled _ List.mem_cons_self) hs
  | _, _, .counting ht hfor hparts => settled_counting ht hfor hparts.settled

theorem Spread.settled : ∀ {ts : List Token} {ns : List Node}, Spread whole ts ns →
    ∀ n ∈ ns, Settled whole n
  | _, _, .nil => by simp
  | _, _, .skip h => h.settled
  | _, _, .node hn h => List.forall_mem_cons.2 ⟨hn.settled, h.settled⟩

theorem Interpolated.settled : ∀ {chunks : List TemplateChunk} {parts : List (Sum String Expr)},
    Interpolated whole chunks parts → ∀ e ∈ parts.filterMap Sum.getRight?, Settled whole (.expr e)
  | _, _, .nil => by simp
  | _, _, .text h => by simpa using h.settled
  | _, _, .code _ he h =>
    List.forall_mem_cons.2 ⟨he.settled _ List.mem_cons_self, h.settled⟩

end

end

end Grammar

end ScriptEngine
