import ScriptEngine.Scope.Basic
import ScriptEngine.Text.Quoted

/-!
# Looking at scopes
-/
namespace ScriptEngine

/-- The names of a frame and whether there is a scope around it, for inspection. -/
def Frame.inspect {α : Type} (f : Frame α) : String :=
  "Env \x7b names: [" ++ ", ".intercalate (f.names.map Text.quoted) ++ "], has_enclosing: "
    ++ (if f.parent.isSome then "true" else "false") ++ " \x7d"

end ScriptEngine
