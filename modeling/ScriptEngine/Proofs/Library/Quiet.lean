import ScriptEngine.Proofs.Library.Discipline
import ScriptEngine.Proofs.Machine.Quiet

/-!
# Built-in functions report nothing

No built-in function writes to the diagnostic stream or looks at it, and those that call back do so
only as the callback does.
-/
namespace ScriptEngine.Library
open Eval

variable {call : Caller}

/-! Numbers, time and input -/

@[grind .]
theorem answer_quiet (x : Except Failure Value) : Quiet (answer x) := Quiet.ofExcept x

@[grind .]
theorem now_quiet : Quiet now := Quiet.askOuter rfl

@[grind .]
theorem sleepFor_quiet (x : Float) : Quiet (sleepFor x) := Quiet.ask rfl

@[grind .]
theorem readInput_quiet (args : List Value) : Quiet (readInput args) := by
  have hline : Quiet (Eval.askOuter .readLine) := Quiet.askOuter rfl
  unfold readInput
  dsimp only
  split
  · refine Quiet.bind (Quiet.textOf _) fun text => Quiet.bind (Quiet.write_output _) fun _ => ?_
    exact Quiet.bind hline fun line => by grind
  · exact Quiet.bind hline fun line => by grind

@[grind .]
theorem randomBetween_quiet (low high : Int) : Quiet (randomBetween low high) := by
  unfold randomBetween
  split
  · exact Quiet.pure _
  · exact Quiet.bind (Quiet.askOuter (q := .random low high) rfl) fun _ => Quiet.pure _

@[grind .]
theorem systemFunction_quiet (f : SystemFunction) (args : List Value) :
    Quiet (systemFunction f args) := by
  unfold systemFunction
  cases f <;> grind

@[grind .]
theorem dateFunction_quiet (f : DateFunction) (args : List Value) :
    Quiet (dateFunction f args) := by
  unfold dateFunction
  cases f <;> grind

/-! Files -/

@[grind .]
theorem readLossy_quiet (p : String) : Quiet (readLossy p) := by
  unfold readLossy
  refine Quiet.bind (Quiet.askOuter (q := .readFile ⟨p⟩) rfl) fun contents => ?_
  grind

@[grind .]
theorem writeText_quiet (p contents : String) (append : Bool) :
    Quiet (writeText p contents append) :=
  Quiet.bind (Quiet.askOuter (q := .writeFile ⟨p⟩ contents append) rfl) fun _ => Quiet.pure _

@[grind .]
theorem writeArguments_quiet (args : List Value) (append : Bool) :
    Quiet (writeArguments args append) := by
  unfold writeArguments
  grind

@[grind .]
theorem withPath_quiet {args : List Value} {otherwise : Eval Value} {f : Path → Eval Value}
    (ho : Quiet otherwise) (hf : ∀ p, Quiet (f p)) : Quiet (withPath args otherwise f) := by
  unfold withPath
  grind

@[grind .]
theorem askFlag_quiet {q : Path → OuterRequest} (hq : ∀ p, (Request.outer (q p)).isReport = false)
    (h : ∀ p, (q p).Answer = Bool) (args : List Value) : Quiet (askFlag q h args) :=
  withPath_quiet (Quiet.pure _) fun p => Quiet.bind (Quiet.askOuter (hq p)) fun _ => Quiet.pure _

@[grind .]
theorem fileFunction_quiet (f : FileFunction) (args : List Value) :
    Quiet (fileFunction f args) := by
  unfold fileFunction
  cases f with
  | list =>
    refine withPath_quiet (Quiet.newArray _) fun p => ?_
    exact Quiet.bind (Quiet.askOuter (q := .list p) rfl) fun _ => Quiet.newArray _
  | «exists» | delete | makeDirectory => exact askFlag_quiet (fun _ => rfl) _ _
  | _ => grind

/-! Texts and JSON -/

@[grind .]
theorem newTexts_quiet (pieces : List (List Char)) : Quiet (newTexts pieces) := Quiet.newArray _

@[grind .]
theorem withText_quiet (args : List Value) (name : String) (f : List Char → Value) :
    Quiet (withText args name f) :=
  answer_quiet _

@[grind .]
theorem textMethod_quiet (method : TextMethod) (receiver : Option Value) (args : List Value) :
    Quiet (textMethod method receiver args) := by
  unfold textMethod
  cases method <;> grind

@[grind .]
theorem textFunction_quiet (f : TextFunction) (args : List Value) :
    Quiet (textFunction f args) := by
  unfold textFunction
  cases f <;> grind

@[grind .]
theorem jsonFunction_quiet (f : JsonFunction) (args : List Value) :
    Quiet (jsonFunction f args) := by
  unfold jsonFunction
  cases f with
  | parse =>
    dsimp only
    split
    · split
      · exact Quiet.change fun _ _ => rfl
      · exact Quiet.pure' _
    · exact Quiet.pure' _
  | stringify => exact Quiet.bind' (Quiet.read fun _ _ => rfl) fun _ => answer_quiet _

/-! Timers -/

@[grind .]
theorem schedule_quiet (callback : Value) (delay : Nat) (repeating : Bool) :
    Quiet (schedule callback delay repeating) :=
  Quiet.bind now_quiet fun _ => Quiet.change fun _ _ => rfl

@[grind .]
theorem cancel_quiet (id : Nat) : Quiet (cancel id) := Quiet.change fun _ _ => rfl

@[grind .]
theorem scheduleArguments_quiet (args : List Value) (repeating : Bool) (name : String) :
    Quiet (scheduleArguments args repeating name) := by
  unfold scheduleArguments
  dsimp only
  split
  · exact Quiet.fail _
  · split
    · exact Quiet.bind (schedule_quiet _ _ _) fun _ => Quiet.pure _
    · exact Quiet.bind (schedule_quiet _ _ _) fun _ => Quiet.pure _
    · exact Quiet.fail _

@[grind .]
theorem timerFunction_quiet (f : TimerFunction) (args : List Value) :
    Quiet (timerFunction f args) := by
  unfold timerFunction
  cases f <;> grind

/-! Workers -/

@[grind .]
theorem resolve_quiet (spec : String) : Quiet (Library.resolve spec) := by
  unfold Library.resolve
  refine Quiet.bind (Quiet.read fun _ _ => rfl) fun places => ?_
  refine Quiet.bind (Quiet.askOuter (q := .firstFile places) rfl) fun found => ?_
  grind

@[grind .]
theorem startWorker_quiet (spec : String) : Quiet (startWorker spec) := by
  refine Quiet.bind (resolve_quiet spec) fun p => Quiet.bind (Quiet.read fun _ _ => rfl) fun s => ?_
  exact Quiet.bind (Quiet.ask (q := .startWorker p s) rfl) fun _ => Quiet.change fun _ _ => rfl

@[grind .]
theorem hostClass_quiet (name : String) (methods : List Native) :
    Quiet (hostClass name methods) := by
  unfold hostClass
  grind

@[grind .]
theorem newHandle_quiet (name : String) (methods : List Native) (id : Nat) :
    Quiet (newHandle name methods id) := by
  unfold newHandle
  grind

@[grind .]
theorem workerLink?_quiet (receiver : Option Value) : Quiet (workerLink? receiver) :=
  Quiet.read fun _ _ => rfl

@[grind .]
theorem removeWorker_quiet (receiver : Option Value) : Quiet (removeWorker receiver) := by
  unfold removeWorker
  grind

@[grind .]
theorem post_quiet (link : LinkRef) (direction : Direction) (message : Value) :
    Quiet (Library.post link direction message) := by
  refine Quiet.bind (Quiet.textOf message) fun text => ?_
  exact Quiet.bind (Quiet.ask (q := .push link direction text) rfl) fun _ => Quiet.pure _

@[grind .]
theorem poll_quiet (link : Option LinkRef) (direction : Direction) :
    Quiet (Library.poll link direction) := by
  cases link with
  | none => exact Quiet.newArray _
  | some l => exact Quiet.bind (Quiet.ask (q := .drain l direction) rfl) fun _ => Quiet.newArray _

@[grind .]
theorem closeLink_quiet (link : LinkRef) : Quiet (closeLink link) := Quiet.ask rfl

@[grind .]
theorem waitForTask_quiet (receiver : Option Value) : Quiet (waitForTask receiver) := by
  refine Quiet.bind (removeWorker_quiet receiver) fun link => ?_
  cases link with
  | none => exact Quiet.pure _
  | some l => exact Quiet.bind (Quiet.ask (q := .pop l .outbound) rfl) fun _ => by grind

@[grind .]
theorem workerFunction_quiet (f : WorkerFunction) (receiver : Option Value) (args : List Value) :
    Quiet (workerFunction f receiver args) := by
  unfold workerFunction
  cases f with
  | postOut =>
    refine Quiet.bind (Quiet.read fun _ _ => rfl) fun link => ?_
    cases link with
    | none => exact Quiet.pure _
    | some link => exact post_quiet link _ _
  | pollIn => exact Quiet.bind (Quiet.read fun _ _ => rfl) fun link => poll_quiet link _
  | startWorker | startTask =>
    dsimp only
    split
    · exact Quiet.bind (startWorker_quiet _) fun _ => newHandle_quiet _ _ _
    · exact Quiet.pure _
  | postIn =>
    refine Quiet.bind (workerLink?_quiet receiver) fun link => ?_
    cases link with
    | none => exact Quiet.pure _
    | some link => exact post_quiet link _ _
  | pollOut => exact Quiet.bind (workerLink?_quiet receiver) fun link => poll_quiet link _
  | terminate =>
    refine Quiet.bind (removeWorker_quiet receiver) fun link => ?_
    cases link with
    | none => exact Quiet.pure _
    | some link => exact Quiet.bind (closeLink_quiet link) fun _ => Quiet.pure _
  | wait => exact waitForTask_quiet receiver

/-! Promises -/

@[grind .]
theorem newPromise_quiet : Quiet newPromise := by
  refine Quiet.bind (Quiet.newArray _) fun _ => Quiet.bind (Quiet.newArray _) fun _ => ?_
  refine Quiet.bind (Quiet.read fun _ _ => rfl) fun cls => ?_
  refine Quiet.bind (Quiet.newInstance cls _) fun _ => ?_
  exact Quiet.bind (Quiet.change fun _ _ => rfl) fun _ => Quiet.pure _

@[grind .]
theorem takeCallbacks_quiet (queue : Option Value) : Quiet (takeCallbacks queue) := by
  unfold takeCallbacks
  split
  · refine Quiet.bind (Quiet.read fun _ _ => rfl) fun _ => ?_
    exact Quiet.bind (Quiet.update fun _ _ => rfl) fun _ => Quiet.pure _
  · exact Quiet.pure' _

@[grind .]
theorem takePromise_quiet (ticket : Nat) : Quiet (takePromise ticket) :=
  Quiet.change fun _ _ => rfl

/-! Servers -/

@[grind .]
theorem fetch_quiet (url : String) : Quiet (Library.fetch url) := by
  refine Quiet.bind newPromise_quiet fun x => Quiet.bind (Quiet.update fun _ _ => rfl) fun _ => ?_
  exact Quiet.bind (Quiet.ask (q := .fetch x.1 url) rfl) fun _ => Quiet.pure _

@[grind .]
theorem listen_quiet (port : Nat) (handler : Value) : Quiet (Library.listen port handler) := by
  refine Quiet.bind (Quiet.ask (q := .listen port) rfl) fun opened => ?_
  cases opened with
  | error message => exact Quiet.fail _
  | ok opened =>
    refine Quiet.bind (Quiet.change fun _ _ => rfl) fun id => ?_
    grind

@[grind .]
theorem stopServer_quiet (id : Nat) : Quiet (stopServer id) := by
  refine Quiet.bind ?_ fun listener => ?_
  · grind
  · cases listener with
    | none => exact Quiet.pure _
    | some l =>
      exact Quiet.bind (Quiet.ask (q := .stopListening l.reference) rfl) fun _ => Quiet.pure _

@[grind .]
theorem respond_quiet (id status : Nat) (body : String) : Quiet (respond id status body) := by
  refine Quiet.bind (Quiet.change fun _ _ => rfl) fun connection => ?_
  cases connection with
  | none => exact Quiet.pure _
  | some c => exact Quiet.bind (Quiet.ask (q := .reply c status body) rfl) fun _ => Quiet.pure _

@[grind .]
theorem networkFunction_quiet (f : NetworkFunction) (receiver : Option Value) (args : List Value) :
    Quiet (networkFunction f receiver args) := by
  unfold networkFunction
  cases f with
  | closeServer => exact Quiet.bind (Quiet.read fun _ _ => rfl) fun id => by grind
  | sendReply => exact Quiet.bind (Quiet.read fun _ _ => rfl) fun id => by grind
  | _ => grind

/-! What calls back -/

section

variable (hcall : ∀ callee args, Quiet (call callee args))
include hcall

@[grind .]
theorem callWithItem_quiet (callback item : Value) (i : Nat) :
    Quiet (callWithItem call callback item i) := by
  unfold callWithItem
  grind

omit hcall in
@[grind .]
theorem changeItems_quiet (r : ArrayRef) (value : Array Value → Value)
    (f : Array Value → Array Value) : Quiet (changeItems r value f) :=
  Quiet.bind (Quiet.read fun _ _ => rfl) fun _ =>
    Quiet.bind (Quiet.update fun _ _ => rfl) fun _ => Quiet.pure _

@[grind .]
theorem mapItems_quiet (callback : Value) (items : Array Value) :
    Quiet (mapItems call callback items) :=
  Quiet.bind (Quiet.mapList (fun _ => callWithItem_quiet hcall _ _ _) _) fun _ => Quiet.newArray _

@[grind .]
theorem filterItems_quiet (callback : Value) (items : Array Value) :
    Quiet (filterItems call callback items) := by
  refine Quiet.bind (Quiet.foldList (fun _ _ => ?_) _ _) fun _ => Quiet.newArray _
  exact Quiet.bind (callWithItem_quiet hcall _ _ _) fun _ => by grind

@[grind .]
theorem visitItems_quiet (callback : Value) (items : Array Value) :
    Quiet (visitItems call callback items) := by
  refine Quiet.bind (Quiet.forEach (fun _ => ?_) _) fun _ => Quiet.pure _
  exact Quiet.discard (callWithItem_quiet hcall _ _ _)

theorem arrayMethod_quiet (method : ArrayMethod) (receiver : Option Value) (args : List Value) :
    Quiet (arrayMethod call method receiver args) := by
  unfold arrayMethod
  split
  next r =>
    cases method with
    | map | filter | forEach => exact Quiet.bind' (Quiet.read fun _ _ => rfl) fun _ => by grind
    | join => exact Quiet.bind' (Quiet.read fun _ _ => rfl) fun _ => answer_quiet _
    | includes | indexOf => exact Quiet.read fun _ _ => rfl
    | slice =>
      have hslice : Quiet (Eval.read fun m => slice (m.heap.array r) args) :=
        Quiet.read fun _ _ => rfl
      exact Quiet.bind (Quiet.bind' hslice Quiet.ofExcept) fun _ => Quiet.newArray _
    | _ => exact changeItems_quiet _ _ _
  next => exact Quiet.fail _

theorem subscribe_quiet (settlement : Settlement) (receiver : Option Value) (args : List Value) :
    Quiet (subscribe call settlement receiver args) := by
  unfold subscribe
  refine Quiet.bind (Quiet.read fun _ _ => rfl) fun status => ?_
  split
  · split
    · exact Quiet.bind (Quiet.read fun _ _ => rfl) fun value => by grind
    · split
      · refine Quiet.bind (Quiet.read fun _ _ => rfl) fun queue => ?_
        split
        · exact Quiet.bind (Quiet.update fun _ _ => rfl) fun _ => Quiet.pure _
        · exact Quiet.pure _
      · exact Quiet.pure _
  · exact Quiet.pure _

theorem settle_quiet (ticket : Nat) (outcome : Fetched) : Quiet (settle call ticket outcome) := by
  unfold settle
  refine Quiet.bind (takePromise_quiet ticket) fun promise => ?_
  cases promise with
  | none => exact Quiet.pure _
  | some promise =>
    have hcalls (callbacks : List Value) (value : Value) :
        Quiet (Eval.forEach (fun callback => do discard (call callback [value])) callbacks) :=
      Quiet.forEach (fun callback => Quiet.discard (hcall _ _)) callbacks
    dsimp only
    split
    all_goals
      refine Quiet.bind (Quiet.setField _ _ _) fun _ => ?_
      refine Quiet.bind (Quiet.setField _ _ _) fun _ => ?_
      refine Quiet.bind (Quiet.read fun _ _ => rfl) fun queue => ?_
      refine Quiet.bind (takeCallbacks_quiet queue) fun callbacks => ?_
      refine Quiet.bind (Quiet.newArray _) fun _ => ?_
      refine Quiet.bind (Quiet.setField _ _ _) fun _ => ?_
      refine Quiet.bind (Quiet.newArray _) fun _ => ?_
      exact Quiet.bind (Quiet.setField _ _ _) fun _ => hcalls callbacks _

theorem handle_quiet (handler : Value) (request : Http.Request) (id : Nat) :
    Quiet (handle call handler request id) := by
  unfold handle
  grind

theorem dispatch_quiet (reference : ListenerRef) (request : Http.Request)
    (connection : ConnectionRef) : Quiet (dispatch call reference request connection) := by
  refine Quiet.bind (Quiet.read fun _ _ => rfl) fun handler => ?_
  cases handler with
  | none => exact Quiet.ask rfl
  | some handler =>
    exact Quiet.bind (Quiet.change fun _ _ => rfl) fun id => handle_quiet hcall handler request id

@[grind .]
theorem callNative_quiet (n : Native) (receiver : Option Value) (args : List Value) :
    Quiet (callNative call n receiver args) := by
  unfold callNative
  cases n with
  | array method => exact arrayMethod_quiet hcall method receiver args
  | promise method => cases method <;> exact subscribe_quiet hcall _ receiver args
  | _ => grind

end

end ScriptEngine.Library
