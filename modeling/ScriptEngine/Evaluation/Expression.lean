import ScriptEngine.Evaluation.Access
import ScriptEngine.Evaluation.Evaluator
import ScriptEngine.Evaluation.Operators

/-!
# Expressions
-/
namespace ScriptEngine

/-- Calls the right side with the left side, for functions that take one argument. -/
def pipe (ev : Evaluator) (argument function : Value) : Eval Value :=
  match function.arity? with
  | none => Eval.fail .pipeTarget
  | some arity => if arity.accepts 1 then ev.call function [argument] else Eval.fail .pipeArity

/-- A method of the class above, bound to the current instance. -/
def superMethod (method : String) (scope : ScopeRef) : Eval Value := do
  match ← Eval.lookup? scope "super" with
  | some (.type cls) =>
    let this ← Eval.lookup scope "this"
    match cls.method? method with
    | some m => bindMethod m this
    | none => Eval.fail (.undefinedProperty method)
  | _ => Eval.fail .superOutside

/-- Waits for instances that have a way to be waited for, and leaves all else as it is. -/
def awaitValue (ev : Evaluator) (v : Value) : Eval Value := do
  match v with
  | .object r =>
    match ← instanceProperty? r "wait" with
    | some wait => if wait.isCallable then ev.call wait [] else return v
    | none => return v
  | _ => return v

/-- Adds an element to the elements so far, or all elements of an array that is spread. -/
def addElement (ev : Evaluator) (scope : ScopeRef) (items : Array Value) (element : Expr × Bool) :
    Eval (Array Value) := do
  let v ← ev.eval element.1 scope
  if element.2 then
    match v with
    | .array r => Eval.read fun m => items ++ m.heap.array r
    | _ => Eval.fail .spreadNotArray
  else return items.push v

/-- Adds a part of a template to the text so far. -/
def addPart (ev : Evaluator) (scope : ScopeRef) (text : String) : Sum String Expr → Eval String
  | .inl chunk => Eval.pure (text ++ chunk)
  | .inr e => do return text ++ (← Eval.textOf (← ev.eval e scope))

def evalStep (ev : Evaluator) (e : Expr) (scope : ScopeRef) : Eval Value := do
  match e with
  | .literal l _ => return .ofLiteral l
  | .name n _ => Eval.lookup scope n
  | .assign n value _ =>
    let v ← ev.eval value scope
    Eval.assign scope n v
    return v
  | .binary op left right _ =>
    let l ← ev.eval left scope
    let r ← ev.eval right scope
    if op = .pipe then pipe ev l r
    else Eval.bind (Eval.read fun m => applyBinary m.heap op l r) Eval.ofExcept
  | .logical op left right _ =>
    let l ← ev.eval left scope
    if op.settledBy l then return l else ev.eval right scope
  | .unary op operand _ => Eval.ofExcept (applyUnary op (← ev.eval operand scope))
  | .grouping inner _ => ev.eval inner scope
  | .call callee args _ =>
    let f ← ev.eval callee scope
    ev.call f (← ev.evalAll args scope).toList
  | .get object name optional _ =>
    let o ← ev.eval object scope
    if optional && o.isNil then return .nil else property o name
  | .set object name value _ =>
    match ← ev.eval object scope with
    | .object r =>
      let v ← ev.eval value scope
      Eval.setField r name v
      return v
    | _ => Eval.fail .noFields
  | .index object key _ =>
    let o ← ev.eval object scope
    let k ← ev.eval key scope
    Eval.bind (Eval.read fun m => readIndex m.heap o k) Eval.ofExcept
  | .indexSet object key value _ =>
    let o ← ev.eval object scope
    let k ← ev.eval key scope
    let v ← ev.eval value scope
    writeIndex o k v
    return v
  | .this _ => Eval.lookup scope "this"
  | .super method _ => superMethod method scope
  | .await operand _ => awaitValue ev (← ev.eval operand scope)
  | .function decl => return .function (← Eval.freshId) decl scope
  | .array elements _ => Eval.newArray (← Eval.foldList (addElement ev scope) elements #[])
  | .object fields _ =>
    let fields ← Eval.foldList (fun (fs : Fields Value) field => do
      return fs.insert field.1 (← ev.eval field.2 scope)) fields .empty
    let cls ← Eval.read fun m => m.objectClass
    return .object (← Eval.newInstance cls fields)
  | .template parts _ => return .text (← Eval.foldList (addPart ev scope) parts "")

end ScriptEngine
