import ScriptEngine.Library.Time
import ScriptEngine.Library.Files
import ScriptEngine.Library.Network
import ScriptEngine.Proofs.Machine.Regime

/-!
# Built-in functions that deal with the surroundings

Time, files, timers, workers, fetching and serving change nothing that a regime is about: they hand
out texts, numbers and handles, and keep their own tables.
-/
namespace ScriptEngine.Library
open Eval Regime

variable {ι : Type} {R : Regime ι} {i : ι} {α : Type}

theorem argument_sound {args : List Value} (h : ∀ v ∈ args, R.Sound v) (k : Nat) :
    R.Sound (argument args k) := by
  unfold argument
  rw [List.getD_eq_getElem?_getD]
  cases hv : args[k]? with
  | none => trivial
  | some v => exact h v (List.mem_of_getElem? hv)

/-- An answer that is made from data without code. -/
theorem answer_map_evals (r : Except Failure α) {f : α → Value} (hf : ∀ a, R.Sound (f a)) :
    R.Evals i (answer (r.map f)) (answer (r.map f)) := by
  cases r with
  | ok a => exact Agree.pure (hf a)
  | error e => exact fail_gives e

theorem ofData_gives (r : Except Failure α) :
    R.Gives i (fun _ => True) (Eval.ofExcept r) (Eval.ofExcept r) :=
  ofExcept_gives fun _ _ => trivial

/-! Time and input -/

theorem now_gives : R.Gives i (fun _ => True) now now := askOuter_gives .now

theorem sleepFor_gives (x : Float) : R.Gives i (fun _ => True) (sleepFor x) (sleepFor x) :=
  ask_gives (.sleep (milliseconds x))

theorem readInput_evals (args : List Value) : R.Evals i (readInput args) (readInput args) := by
  unfold readInput
  split
  · refine Agree.bind (read_gives _) fun _ _ => Agree.bind (write_agree _ _) fun _ _ => ?_
    refine Agree.bind (askOuter_gives .readLine) fun line _ => ?_
    split
    · exact fail_gives _
    · exact Agree.pure trivial
    · exact Agree.pure trivial
  · refine Agree.bind (askOuter_gives .readLine) fun line _ => ?_
    split
    · exact fail_gives _
    · exact Agree.pure trivial
    · exact Agree.pure trivial

theorem randomBetween_evals (low high : Int) :
    R.Evals i (randomBetween low high) (randomBetween low high) := by
  unfold randomBetween
  split
  · exact Agree.pure trivial
  · exact Agree.bind (askOuter_gives (.random low high)) fun _ _ => Agree.pure trivial

theorem systemFunction_evals (f : SystemFunction) (args : List Value) :
    R.Evals i (systemFunction f args) (systemFunction f args) := by
  unfold systemFunction
  cases f with
  | clock => exact Agree.bind now_gives fun _ _ => Agree.pure trivial
  | input => exact readInput_evals args
  | sqrt => exact answer_map_evals _ fun _ => trivial
  | abs => exact answer_map_evals _ fun _ => trivial
  | exit =>
    dsimp only
    split
    · exact fail_gives _
    · exact fail_gives _
  | sleep =>
    dsimp only
    split
    · exact Agree.bind (sleepFor_gives _) fun _ _ => Agree.pure trivial
    · exact Agree.pure trivial
  | pause =>
    refine Agree.bind (ofData_gives _) fun x _ => ?_
    exact Agree.bind (sleepFor_gives x) fun _ _ => Agree.pure trivial
  | version => exact Agree.pure trivial
  | random =>
    refine Agree.bind (ofData_gives _) fun low _ => ?_
    exact Agree.bind (ofData_gives _) fun high _ => randomBetween_evals _ _
  | argCount => exact Agree.read fun _ _ => trivial
  | arg => exact Agree.read fun _ _ => trivial

theorem dateFunction_evals (f : DateFunction) (args : List Value) :
    R.Evals i (dateFunction f args) (dateFunction f args) := by
  unfold dateFunction
  cases f with
  | now => exact Agree.bind now_gives fun _ _ => Agree.pure trivial
  | timestamp => exact Agree.bind now_gives fun _ _ => Agree.pure trivial
  | format => exact answer_map_evals _ fun _ => trivial

/-! Files -/

theorem readLossy_gives (p : String) :
    R.Gives i (fun _ => True) (readLossy p) (readLossy p) := by
  unfold readLossy
  refine Agree.bind (askOuter_gives (.readFile ⟨p⟩)) fun contents _ => ?_
  split
  · exact Agree.pure trivial
  · exact Agree.pure trivial

theorem writeText_evals (p contents : String) (append : Bool) :
    R.Evals i (writeText p contents append) (writeText p contents append) :=
  Agree.bind (askOuter_gives (.writeFile ⟨p⟩ contents append)) fun _ _ => Agree.pure trivial

theorem writeArguments_evals (args : List Value) (append : Bool) :
    R.Evals i (writeArguments args append) (writeArguments args append) := by
  unfold writeArguments
  split
  · exact writeText_evals _ _ _
  · exact Agree.pure trivial

theorem withPath_evals {args : List Value} {otherwise : Eval Value} {f : Path → Eval Value}
    (ho : R.Evals i otherwise otherwise) (hf : ∀ p, R.Evals i (f p) (f p)) :
    R.Evals i (withPath args otherwise f) (withPath args otherwise f) := by
  unfold withPath
  split
  · exact hf _
  · exact ho

theorem askFlag_evals (q : Path → OuterRequest) (h : ∀ p, (q p).Answer = Bool)
    (args : List Value) : R.Evals i (askFlag q h args) (askFlag q h args) := by
  unfold askFlag
  refine withPath_evals (Agree.pure trivial) fun p => ?_
  exact Agree.bind (askOuter_gives (q p)) fun _ _ => Agree.pure trivial

theorem newTextArray_evals (texts : List String) :
    R.Evals i (Eval.newArray (texts.map Value.text).toArray)
      (Eval.newArray (texts.map Value.text).toArray) := by
  refine newArray_evals fun v hv => ?_
  obtain ⟨s, -, rfl⟩ := List.mem_map.1 (List.mem_toArray.1 hv)
  trivial

theorem fileFunction_evals (f : FileFunction) (args : List Value) :
    R.Evals i (fileFunction f args) (fileFunction f args) := by
  unfold fileFunction
  cases f with
  | readFile =>
    refine Agree.bind (ofData_gives _) fun p _ => ?_
    refine Agree.bind (readLossy_gives p) fun s _ => ?_
    split
    · exact Agree.pure trivial
    · exact Agree.pure trivial
  | writeFile =>
    refine Agree.bind (ofData_gives _) fun p _ => ?_
    exact Agree.bind (ofData_gives _) fun contents _ => writeText_evals _ _ _
  | «exists» => exact askFlag_evals _ _ args
  | readOrEmpty | read =>
    refine withPath_evals (Agree.pure trivial) fun p => ?_
    exact Agree.bind (readLossy_gives p.text) fun _ _ => Agree.pure trivial
  | write => exact writeArguments_evals args false
  | append => exact writeArguments_evals args true
  | delete => exact askFlag_evals _ _ args
  | makeDirectory => exact askFlag_evals _ _ args
  | list =>
    refine withPath_evals (newArray_evals (by simp)) fun p => ?_
    exact Agree.bind (askOuter_gives (.list p)) fun names _ => newTextArray_evals names

/-! Timers -/

theorem schedule_gives (callback : Value) (delay : Nat) (repeating : Bool) :
    R.Gives i (fun _ => True) (schedule callback delay repeating)
      (schedule callback delay repeating) :=
  Agree.bind now_gives fun _ _ => Agree.change fun _ hm => ⟨trivial, hm.same rfl rfl rfl rfl⟩

theorem cancel_gives (id : Nat) : R.Gives i (fun _ => True) (cancel id) (cancel id) :=
  Agree.change fun _ hm => ⟨trivial, hm.same rfl rfl rfl rfl⟩

theorem scheduleArguments_evals (args : List Value) (repeating : Bool) (name : String) :
    R.Evals i (scheduleArguments args repeating name) (scheduleArguments args repeating name) := by
  unfold scheduleArguments
  dsimp only
  split
  · exact fail_gives _
  · split
    · exact Agree.bind (schedule_gives _ _ _) fun _ _ => Agree.pure trivial
    · exact Agree.bind (schedule_gives _ _ _) fun _ _ => Agree.pure trivial
    · exact fail_gives _

theorem timerFunction_evals (f : TimerFunction) (args : List Value) :
    R.Evals i (timerFunction f args) (timerFunction f args) := by
  unfold timerFunction
  cases f with
  | setTimeout => exact scheduleArguments_evals args false _
  | setInterval => exact scheduleArguments_evals args true _
  | clearTimeout | clearInterval =>
    refine Agree.bind (ofData_gives _) fun x _ => ?_
    split
    · exact Agree.bind (Agree.discard (cancel_gives _)) fun _ _ => Agree.pure trivial
    · exact Agree.pure trivial

/-! Workers and tasks -/

theorem resolve_gives (spec : String) :
    R.Gives i (fun _ => True) (resolve spec) (resolve spec) := by
  unfold resolve
  refine Agree.bind (read_gives _) fun places _ => ?_
  refine Agree.bind (askOuter_gives (.firstFile places)) fun found _ => ?_
  split
  · exact Agree.pure trivial
  · exact fail_gives _

theorem startWorker_gives (spec : String) :
    R.Gives i (fun _ => True) (startWorker spec) (startWorker spec) := by
  unfold startWorker
  refine Agree.bind (resolve_gives spec) fun p _ => ?_
  refine Agree.bind (read_gives _) fun settings _ => ?_
  refine Agree.bind (ask_gives (.startWorker p settings)) fun link _ => ?_
  exact Agree.change fun m hm => ⟨trivial, hm.same rfl rfl rfl rfl⟩

theorem hostClass_gives (name : String) (methods : List Native) :
    R.Gives i (Class.MadeOf R.code) (hostClass name methods) (hostClass name methods) := by
  unfold hostClass
  exact Agree.bind freshId_gives fun _ _ => Agree.pure ⟨by simp, trivial⟩

/-- Handles are instances of classes of the host whose fields hold no code. -/
theorem handle_evals {name : String} {methods : List Native} {fields : List (String × Value)}
    (hf : ∀ e ∈ fields, R.Sound e.2) :
    R.Evals i
      (Eval.bind (hostClass name methods) fun cls =>
        Eval.bind (Eval.newInstance cls (.ofList fields)) fun r => Eval.pure (.object r))
      (Eval.bind (hostClass name methods) fun cls =>
        Eval.bind (Eval.newInstance cls (.ofList fields)) fun r => Eval.pure (.object r)) := by
  refine Agree.bind (hostClass_gives name methods) fun cls hc => ?_
  refine Agree.bind (newInstance_gives hc (Fields.madeOf_ofList hf)) fun _ _ => ?_
  exact Agree.pure trivial

theorem newHandle_evals (name : String) (methods : List Native) (id : Nat) :
    R.Evals i (newHandle name methods id) (newHandle name methods id) :=
  handle_evals (by simp [Sound, Value.ofNat, Value.MadeOf])

theorem removeWorker_gives (receiver : Option Value) :
    R.Gives i (fun _ => True) (removeWorker receiver) (removeWorker receiver) := by
  refine Agree.change fun m hm => ⟨trivial, ?_⟩
  split
  · exact hm
  · exact hm.same rfl rfl rfl rfl

theorem post_evals (link : LinkRef) (direction : Direction) (message : Value) :
    R.Evals i (post link direction message) (post link direction message) := by
  unfold post
  refine Agree.bind (read_gives _) fun text _ => ?_
  exact Agree.bind (ask_gives (.push link direction text)) fun _ _ => Agree.pure trivial

theorem poll_evals (link : Option LinkRef) (direction : Direction) :
    R.Evals i (poll link direction) (poll link direction) := by
  unfold poll
  split
  · exact newArray_evals (by simp)
  next l =>
    exact Agree.bind (ask_gives (.drain l direction)) fun messages _ => newTextArray_evals messages

theorem closeLink_gives (link : LinkRef) :
    R.Gives i (fun _ => True) (closeLink link) (closeLink link) :=
  ask_gives (.closeLink link)

theorem waitForTask_evals (receiver : Option Value) :
    R.Evals i (waitForTask receiver) (waitForTask receiver) := by
  unfold waitForTask
  refine Agree.bind (removeWorker_gives receiver) fun link _ => ?_
  split
  · exact Agree.pure trivial
  next link =>
    refine Agree.bind (ask_gives (.pop link .outbound)) fun message _ => ?_
    refine Agree.bind (closeLink_gives link) fun _ _ => ?_
    exact Agree.pure (Value.madeOf_text? message)

theorem startHandle_evals (name : String) (methods : List Native) (spec : Value) :
    R.Evals i
      (match spec with
        | .text spec => Eval.bind (startWorker spec) fun id => newHandle name methods id
        | _ => Eval.pure .nil)
      (match spec with
        | .text spec => Eval.bind (startWorker spec) fun id => newHandle name methods id
        | _ => Eval.pure .nil) := by
  split
  · exact Agree.bind (startWorker_gives _) fun id _ => newHandle_evals name methods id
  · exact Agree.pure trivial

theorem postOver_evals (direction : Direction) (message : Value) {x : Eval (Option LinkRef)}
    (hx : R.Gives i (fun _ => True) x x) :
    R.Evals i
      (Eval.bind x fun
        | none => Eval.pure (.bool false)
        | some link => post link direction message)
      (Eval.bind x fun
        | none => Eval.pure (.bool false)
        | some link => post link direction message) := by
  refine Agree.bind hx fun link _ => ?_
  split
  · exact Agree.pure trivial
  · exact post_evals _ _ _

theorem workerFunction_evals (f : WorkerFunction) (receiver : Option Value) (args : List Value) :
    R.Evals i (workerFunction f receiver args) (workerFunction f receiver args) := by
  unfold workerFunction
  cases f with
  | postOut => exact postOver_evals .outbound _ (read_gives _)
  | pollIn => exact Agree.bind (read_gives _) fun link _ => poll_evals link .inbound
  | startWorker => exact startHandle_evals _ _ _
  | startTask => exact startHandle_evals _ _ _
  | postIn => exact postOver_evals .inbound _ (read_gives _)
  | pollOut => exact Agree.bind (read_gives _) fun link _ => poll_evals link .outbound
  | terminate =>
    refine Agree.bind (removeWorker_gives receiver) fun link _ => ?_
    split
    · exact Agree.pure trivial
    · exact Agree.bind (closeLink_gives _) fun _ _ => Agree.pure trivial
  | wait => exact waitForTask_evals receiver

/-! Fetching and serving -/

theorem newPromise_gives : R.Gives i (fun _ => True) newPromise newPromise := by
  unfold newPromise
  refine Agree.bind (newArray_evals (by simp)) fun onResolve hresolve => ?_
  refine Agree.bind (newArray_evals (by simp)) fun onReject hreject => ?_
  refine Agree.bind (V := Class.MadeOf R.code) (Agree.read fun m hm => hm.2.promiseClass) ?_
  intro cls hc
  refine Agree.bind (newInstance_gives hc (Fields.madeOf_ofList ?_)) fun promise _ => ?_
  · simp [Value.MadeOf]
    exact ⟨hresolve, hreject⟩
  · refine Agree.bind (V := fun _ => True) ?_ fun ticket _ => Agree.pure trivial
    exact Agree.change fun m hm => ⟨trivial, hm.same rfl rfl rfl rfl⟩

theorem fetch_evals (url : String) : R.Evals i (fetch url) (fetch url) := by
  unfold fetch
  refine Agree.bind newPromise_gives fun ⟨ticket, promise⟩ _ => ?_
  refine Agree.bind (Agree.update fun m hm => hm.same rfl rfl rfl rfl) fun _ _ => ?_
  exact Agree.bind (ask_gives (.fetch ticket url)) fun _ _ => Agree.pure trivial

theorem listen_evals (port : Nat) (handler : Value) :
    R.Evals i (listen port handler) (listen port handler) := by
  unfold listen
  refine Agree.bind (ask_gives (.listen port)) fun opened _ => ?_
  split
  · exact fail_gives _
  · refine Agree.bind (V := fun _ => True) ?_ fun id _ => ?_
    · exact Agree.change fun m hm => ⟨trivial, hm.same rfl rfl rfl rfl⟩
    · exact handle_evals (by simp [Sound, Value.ofNat, Value.MadeOf])

theorem stopServer_gives (id : Nat) :
    R.Gives i (fun _ => True) (stopServer id) (stopServer id) := by
  unfold stopServer
  refine Agree.bind (V := fun _ => True) ?_ fun listener _ => ?_
  · refine Agree.change fun m hm => ⟨trivial, ?_⟩
    split
    · exact hm
    · exact hm.same rfl rfl rfl rfl
  · split
    · exact Agree.pure trivial
    next l =>
      exact Agree.bind (ask_gives (.stopListening l.reference)) fun _ _ => Agree.pure trivial

theorem respond_gives (id status : Nat) (body : String) :
    R.Gives i (fun _ => True) (respond id status body) (respond id status body) := by
  unfold respond
  refine Agree.bind (V := fun _ => True) ?_ fun connection _ => ?_
  · exact Agree.change fun m hm => ⟨trivial, hm.same rfl rfl rfl rfl⟩
  · split
    · exact Agree.pure trivial
    next c => exact Agree.bind (ask_gives (.reply c status body)) fun _ _ => Agree.pure trivial

theorem networkFunction_evals (f : NetworkFunction) (receiver : Option Value)
    (args : List Value) : R.Evals i (networkFunction f receiver args)
      (networkFunction f receiver args) := by
  unfold networkFunction
  cases f with
  | fetch => exact Agree.bind (ofData_gives _) fun url _ => fetch_evals url
  | listen =>
    refine Agree.bind (ofData_gives _) fun x _ => ?_
    refine Agree.bind (ofData_gives _) fun port _ => ?_
    dsimp only
    split
    · exact listen_evals port _
    · exact fail_gives _
  | closeServer =>
    refine Agree.bind (read_gives _) fun id _ => ?_
    split
    · exact Agree.pure trivial
    · exact Agree.bind (stopServer_gives _) fun _ _ => Agree.pure trivial
  | sendReply =>
    refine Agree.bind (read_gives _) fun id _ => ?_
    split
    · exact Agree.pure trivial
    · refine Agree.bind (read_gives _) fun body _ => ?_
      exact Agree.bind (respond_gives _ _ _) fun _ _ => Agree.pure trivial

end ScriptEngine.Library
