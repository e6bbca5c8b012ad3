import ScriptEngine.Evaluation.Call
import ScriptEngine.Evaluation.Expression
import ScriptEngine.Evaluation.Statement

/-!
# Bounded evaluation

The evaluator in which everything is nested at most `n` deep and no loop has more than `n` rounds.
-/
namespace ScriptEngine

def Evaluator.bounded : Nat → Evaluator
  | 0 => .exhausted
  | n + 1 =>
    { eval := fun e scope => evalStep (bounded n) e scope
      exec := fun s scope => execStep n (bounded n) s scope
      call := fun callee args => callStep (bounded n) callee args }

end ScriptEngine
