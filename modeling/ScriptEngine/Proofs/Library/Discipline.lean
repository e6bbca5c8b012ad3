import ScriptEngine.Library.Dispatch
import ScriptEngine.Proofs.Machine.Discipline

/-!
# Built-in functions and disciplines

Built-in functions that only ask the surroundings and make new arrays are allowed by every
discipline, and with a callback if the callback is.
-/
namespace ScriptEngine

/-- Whether a method writes to its array. -/
def ArrayMethod.changes : ArrayMethod → Bool
  | .push | .pop | .pushFront | .popFront => true
  | _ => false

namespace Library
open Eval

variable {D : Discipline} {call : Caller}

/-! Numbers, time and input -/

@[grind .]
theorem answer_allowed (x : Except Failure Value) : D.Allows (answer x) := Discipline.ofExcept x

@[grind .]
theorem now_allowed : D.Allows now := D.askOuter .now

@[grind .]
theorem sleepFor_allowed (x : Float) : D.Allows (sleepFor x) := D.sleep _

@[grind .]
theorem readInput_allowed (args : List Value) : D.Allows (readInput args) := by
  unfold readInput
  dsimp only
  split
  · refine D.bind (Discipline.textOf _) fun text => D.bind (Discipline.write _ _) fun _ => ?_
    exact D.bind (D.askOuter .readLine) fun line => by grind
  · exact D.bind (D.askOuter .readLine) fun line => by grind

@[grind .]
theorem randomBetween_allowed (low high : Int) : D.Allows (randomBetween low high) := by
  unfold randomBetween
  split
  · exact D.pure _
  · exact D.bind (D.askOuter (.random low high)) fun _ => D.pure _

@[grind .]
theorem systemFunction_allowed (f : SystemFunction) (args : List Value) :
    D.Allows (systemFunction f args) := by
  unfold systemFunction
  cases f <;> grind

@[grind .]
theorem dateFunction_allowed (f : DateFunction) (args : List Value) :
    D.Allows (dateFunction f args) := by
  unfold dateFunction
  cases f <;> grind

/-! Files -/

@[grind .]
theorem readLossy_allowed (p : String) : D.Allows (readLossy p) := by
  unfold readLossy
  refine D.bind (D.askOuter (.readFile ⟨p⟩)) fun contents => ?_
  grind

@[grind .]
theorem writeText_allowed (p contents : String) (append : Bool) :
    D.Allows (writeText p contents append) :=
  D.bind (D.askOuter (.writeFile ⟨p⟩ contents append)) fun _ => D.pure _

@[grind .]
theorem writeArguments_allowed (args : List Value) (append : Bool) :
    D.Allows (writeArguments args append) := by
  unfold writeArguments
  grind

@[grind .]
theorem withPath_allowed {args : List Value} {otherwise : Eval Value} {f : Path → Eval Value}
    (ho : D.Allows otherwise) (hf : ∀ p, D.Allows (f p)) :
    D.Allows (withPath args otherwise f) := by
  unfold withPath
  grind

@[grind .]
theorem askFlag_allowed (q : Path → OuterRequest) (h : ∀ p, (q p).Answer = Bool)
    (args : List Value) : D.Allows (askFlag q h args) :=
  withPath_allowed (D.pure _) fun p =>
    D.bind (D.askOuter (q p)) fun _ => D.pure _

@[grind .]
theorem fileFunction_allowed (f : FileFunction) (args : List Value) :
    D.Allows (fileFunction f args) := by
  unfold fileFunction
  cases f with
  | list =>
    refine withPath_allowed (D.newArray _) fun p => ?_
    exact D.bind (D.askOuter (.list p)) fun _ => D.newArray _
  | _ => grind

/-! Texts and JSON -/
@[grind .]
theorem newTexts_allowed (pieces : List (List Char)) : D.Allows (newTexts pieces) :=
  D.newArray _

@[grind .]
theorem withText_allowed (args : List Value) (name : String) (f : List Char → Value) :
    D.Allows (withText args name f) :=
  answer_allowed _

@[grind .]
theorem textMethod_allowed (method : TextMethod) (receiver : Option Value) (args : List Value) :
    D.Allows (textMethod method receiver args) := by
  unfold textMethod
  cases method <;> grind

@[grind .]
theorem textFunction_allowed (f : TextFunction) (args : List Value) :
    D.Allows (textFunction f args) := by
  unfold textFunction
  cases f <;> grind

/-! Paths of modules -/

@[grind .]
theorem resolve_allowed (spec : String) : D.Allows (Library.resolve spec) := by
  unfold Library.resolve
  refine D.bind (D.read _) fun places => ?_
  refine D.bind (D.askOuter (.firstFile places)) fun found => ?_
  grind

/-! Arrays -/

section

variable (hcall : ∀ callee args, D.Allows (call callee args))
include hcall

@[grind .]
theorem callWithItem_allowed (callback item : Value) (i : Nat) :
    D.Allows (callWithItem call callback item i) := by
  unfold callWithItem
  grind

theorem mapItems_allowed (callback : Value) (items : Array Value) :
    D.Allows (mapItems call callback items) :=
  D.bind (Discipline.mapList (fun _ => callWithItem_allowed hcall _ _ _) _) fun _ => D.newArray _

theorem filterItems_allowed (callback : Value) (items : Array Value) :
    D.Allows (filterItems call callback items) := by
  refine D.bind (Discipline.foldList (fun _ _ => ?_) _ _) fun _ => D.newArray _
  exact D.bind (callWithItem_allowed hcall _ _ _) fun _ => by grind

theorem visitItems_allowed (callback : Value) (items : Array Value) :
    D.Allows (visitItems call callback items) := by
  refine D.bind (Discipline.forEach (fun _ => ?_) _) fun _ => D.pure _
  exact Discipline.discard (callWithItem_allowed hcall _ _ _)

/-- Methods of arrays that leave the array as it is. -/
theorem arrayMethod_allowed {method : ArrayMethod} (h : method.changes = false)
    (receiver : Option Value) (args : List Value) :
    D.Allows (arrayMethod call method receiver args) := by
  unfold arrayMethod
  split
  · cases method with
    | push | pop | pushFront | popFront => cases h
    | join => exact D.bind (D.read _) fun _ => answer_allowed _
    | includes | indexOf => exact D.read _
    | slice => exact D.bind (D.bind (D.read _) Discipline.ofExcept) fun _ => D.newArray _
    | map => exact D.bind (D.read _) fun _ => mapItems_allowed hcall _ _
    | filter => exact D.bind (D.read _) fun _ => filterItems_allowed hcall _ _
    | forEach => exact D.bind (D.read _) fun _ => visitItems_allowed hcall _ _
  · exact Discipline.fail _

end

end Library

end ScriptEngine
