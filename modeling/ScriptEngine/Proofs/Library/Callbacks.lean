import ScriptEngine.Library.Dispatch
import ScriptEngine.Proofs.Library.Surroundings

/-!
# Built-in functions that work on data and call back

Methods of strings and arrays, JSON and promises. Those that take a callback keep a regime as far as
the calls they make do, so that a built-in function agrees with itself under two ways of calling
when these agree.
-/
namespace ScriptEngine.Library
open Eval Regime

variable {ι : Type} {R : Regime ι} {i : ι} {call call' : Caller}

/-! Strings and JSON -/

theorem newTexts_evals (pieces : List (List Char)) :
    R.Evals i (newTexts pieces) (newTexts pieces) := by
  refine newArray_evals fun v hv => ?_
  obtain ⟨cs, -, rfl⟩ := List.mem_map.1 (List.mem_toArray.1 hv)
  trivial

theorem positionOf_sound (needle cs : List Char) : R.Sound (positionOf needle cs) := by
  unfold positionOf
  split
  · trivial
  · trivial

theorem textMethod_evals (method : TextMethod) (receiver : Option Value) (args : List Value) :
    R.Evals i (textMethod method receiver args) (textMethod method receiver args) := by
  unfold textMethod
  split
  next s =>
    cases method with
    | split => exact Agree.bind (ofData_gives _) fun _ _ => newTexts_evals _
    | trim => exact Agree.pure trivial
    | substr =>
      refine Agree.bind (ofData_gives _) fun start _ => ?_
      split
      · exact Agree.pure trivial
      · exact Agree.bind (ofData_gives _) fun _ _ => Agree.pure trivial
    | startsWith => exact answer_map_evals _ fun _ => trivial
    | endsWith => exact answer_map_evals _ fun _ => trivial
    | toUpperCase => exact Agree.pure trivial
    | toLowerCase => exact Agree.pure trivial
    | replace =>
      dsimp only
      split
      · exact Agree.pure trivial
      · exact Agree.pure trivial
    | indexOf => exact answer_map_evals _ fun _ => positionOf_sound _ _
    | includes => exact answer_map_evals _ fun _ => trivial
  next => exact fail_gives _

theorem textFunction_evals (f : TextFunction) (args : List Value) :
    R.Evals i (textFunction f args) (textFunction f args) := by
  unfold textFunction
  cases f with
  | indexOf =>
    refine Agree.bind (ofData_gives _) fun _ _ => Agree.bind (ofData_gives _) fun _ _ => ?_
    exact Agree.pure (positionOf_sound _ _)
  | split =>
    refine Agree.bind (ofData_gives _) fun _ _ => Agree.bind (ofData_gives _) fun _ _ => ?_
    exact newTexts_evals _
  | length =>
    dsimp only
    split
    · exact Agree.pure trivial
    · exact Agree.read fun _ _ => trivial
    · exact Agree.pure trivial
  | substr =>
    refine Agree.bind (ofData_gives _) fun _ _ => Agree.bind (ofData_gives _) fun _ _ => ?_
    exact Agree.bind (ofData_gives _) fun _ _ => Agree.pure trivial

theorem jsonFunction_evals (f : JsonFunction) (args : List Value) :
    R.Evals i (jsonFunction f args) (jsonFunction f args) := by
  unfold jsonFunction
  cases f with
  | parse =>
    dsimp only
    split
    · split
      next j hj =>
        refine Agree.change fun m hm => ?_
        have hv := j.toValue_madeOf hm.2.objectClass hm.2.heap
        exact ⟨hv.1, hm.withHeap hv.2⟩
      next => exact Agree.pure trivial
    · exact Agree.pure trivial
  | stringify => exact Agree.bind (read_gives _) fun _ _ => answer_map_evals _ fun _ => trivial

/-! Arrays -/

theorem callWithItem_evals (hcall : R.Calls i call call') {callback item : Value}
    (hc : R.Sound callback) (hi : R.Sound item) (k : Nat) :
    R.Evals i (callWithItem call callback item k) (callWithItem call' callback item k) := by
  unfold callWithItem
  split
  · exact hcall callback _ hc (by simpa [Sound, Value.ofNat, Value.MadeOf] using hi)
  · exact hcall callback _ hc (by simpa using hi)

/-- The elements that a callback is called with. -/
theorem zipIdx_sound {items : Array Value} (h : ∀ v ∈ items, R.Sound v) :
    ∀ e ∈ items.toList.zipIdx, R.Sound e.1 :=
  fun _ he => h _ (Array.mem_toList_iff.1 (List.fst_mem_of_mem_zipIdx he))

theorem mapItems_evals (hcall : R.Calls i call call') {callback : Value} {items : Array Value}
    (hc : R.Sound callback) (hi : ∀ v ∈ items, R.Sound v) :
    R.Evals i (mapItems call callback items) (mapItems call' callback items) := by
  unfold mapItems
  refine Agree.bind (Agree.mapList fun e he => ?_) fun out hout => newArray_evals hout
  exact callWithItem_evals hcall hc (zipIdx_sound hi e he) e.2

theorem filterItems_evals (hcall : R.Calls i call call') {callback : Value} {items : Array Value}
    (hc : R.Sound callback) (hi : ∀ v ∈ items, R.Sound v) :
    R.Evals i (filterItems call callback items) (filterItems call' callback items) := by
  unfold filterItems
  refine Agree.bind (V := fun kept : Array Value => ∀ v ∈ kept, R.Sound v) ?_
    fun kept hkept => newArray_evals hkept
  refine Agree.foldList (fun kept hkept e he => ?_) (by simp)
  have hitem := zipIdx_sound hi e he
  refine Agree.bind (callWithItem_evals hcall hc hitem e.2) fun v _ => ?_
  split
  · refine Agree.pure fun w hw => ?_
    rcases Array.mem_push.1 hw with hw | rfl
    · exact hkept w hw
    · exact hitem
  · exact Agree.pure hkept

theorem visitItems_evals (hcall : R.Calls i call call') {callback : Value} {items : Array Value}
    (hc : R.Sound callback) (hi : ∀ v ∈ items, R.Sound v) :
    R.Evals i (visitItems call callback items) (visitItems call' callback items) := by
  unfold visitItems
  refine Agree.bind (Agree.forEach fun e he => ?_) fun _ _ => Agree.pure trivial
  exact Agree.discard (callWithItem_evals hcall hc (zipIdx_sound hi e he) e.2)

theorem changeItems_evals (r : ArrayRef) {value : Array Value → Value}
    {f : Array Value → Array Value}
    (hv : ∀ a : Array Value, (∀ v ∈ a, R.Sound v) → R.Sound (value a))
    (hf : ∀ a : Array Value, (∀ v ∈ a, R.Sound v) → ∀ v ∈ f a, R.Sound v) :
    R.Evals i (changeItems r value f) (changeItems r value f) := by
  unfold changeItems
  refine Agree.bind (Agree.read fun m hm => hv _ (hm.2.heap.array r)) fun v hv => ?_
  exact Agree.bind (modifyArray_gives r hf) fun _ _ => Agree.pure hv

theorem mem_of_mem_extract {items : Array Value} {first last : Nat} {v : Value}
    (h : v ∈ items.extract first last) : v ∈ items := by
  obtain ⟨k, hk, rfl⟩ := Array.mem_extract_iff_getElem.1 h
  exact Array.getElem_mem _

theorem mem_of_mem_pop {items : Array Value} {v : Value} (h : v ∈ items.pop) : v ∈ items := by
  rw [← Array.mem_toList_iff] at h ⊢
  exact List.dropLast_subset _ (Array.toList_pop ▸ h)

theorem slice_eq_extract {items part : Array Value} {args : List Value}
    (h : slice items args = .ok part) : ∃ first last, part = items.extract first last := by
  unfold slice at h
  extract_lets afterFirst at h
  obtain ⟨first, h⟩ : ∃ first, afterFirst first = .ok part := by
    split at h
    · exact exists_ok_of_bind h
    · exact exists_ok_of_bind h
  obtain ⟨last, h⟩ : ∃ last, (.ok (items.extract first last) : Except Failure _) = .ok part := by
    unfold afterFirst at h
    split at h
    · exact exists_ok_of_bind h
    · exact exists_ok_of_bind h
  cases h
  exact ⟨first, last, rfl⟩

theorem joined_sound {h : Heap} {items : Array Value} {args : List Value} {v : Value}
    (hv : joined h items args = .ok v) : R.Sound v := by
  unfold joined at hv
  split at hv
  · cases hv
    trivial
  · obtain ⟨separator, h⟩ := exists_ok_of_bind hv
    cases h
    trivial

theorem arrayMethod_evals (hcall : R.Calls i call call') (method : ArrayMethod)
    (receiver : Option Value) {args : List Value} (ha : ∀ v ∈ args, R.Sound v) :
    R.Evals i (arrayMethod call method receiver args) (arrayMethod call' method receiver args) := by
  have hfirst := argument_sound ha 0
  unfold arrayMethod
  split
  next r =>
    cases method with
    | push =>
      refine changeItems_evals r (fun _ _ => hfirst) fun a h v hv => ?_
      rcases Array.mem_push.1 hv with hv | rfl
      · exact h v hv
      · exact hfirst
    | pop =>
      refine changeItems_evals r (fun a h => ?_) fun a h v hv => h v (mem_of_mem_pop hv)
      cases hb : a.back? with
      | none => trivial
      | some v => exact h v (Array.mem_of_back? hb)
    | pushFront =>
      refine changeItems_evals r (fun _ _ => hfirst) fun a h v hv => ?_
      rcases Array.mem_append.1 hv with hv | hv
      · exact Array.mem_singleton.1 hv ▸ hfirst
      · exact h v hv
    | popFront =>
      refine changeItems_evals r (fun a h => ?_) fun a h v hv => ?_
      · rw [Array.getD_eq_getD_getElem?]
        cases hb : a[0]? with
        | none => trivial
        | some v => exact h v (Array.mem_of_getElem? hb)
      · exact h v (mem_of_mem_extract hv)
    | join =>
      refine Agree.bind (V := fun r => ∀ v, r = .ok v → R.Sound v) ?_ fun _ h => ofExcept_gives h
      exact Agree.read fun m _ v hv => joined_sound hv
    | includes => exact Agree.read fun _ _ => trivial
    | indexOf =>
      refine Agree.read fun m _ => ?_
      split
      · trivial
      · trivial
    | slice =>
      refine Agree.bind (V := fun part : Array Value => ∀ v ∈ part, R.Sound v) ?_
        fun part hpart => newArray_evals hpart
      refine Agree.bind (V := fun r => ∀ part, r = .ok part → ∀ v ∈ part, R.Sound v) ?_
        fun _ h => ofExcept_gives h
      refine Agree.read fun m hm part h v hv => ?_
      obtain ⟨first, last, rfl⟩ := slice_eq_extract h
      exact hm.2.heap.array r v (mem_of_mem_extract hv)
    | map =>
      exact Agree.bind (readArray_gives r) fun items hi => mapItems_evals hcall hfirst hi
    | filter =>
      exact Agree.bind (readArray_gives r) fun items hi => filterItems_evals hcall hfirst hi
    | forEach =>
      exact Agree.bind (readArray_gives r) fun items hi => visitItems_evals hcall hfirst hi
  next => exact fail_gives _

/-! Promises -/

/-- Calls back at once, registers the callback, or does nothing. -/
theorem subscribe_evals (hcall : R.Calls i call call') (settlement : Settlement)
    {receiver : Option Value} (hr : ∀ v, receiver = some v → R.Sound v) {args : List Value}
    (ha : ∀ v ∈ args, R.Sound v) :
    R.Evals i (subscribe call settlement receiver args)
      (subscribe call' settlement receiver args) := by
  have hpromise : R.Sound (receiver.getD .nil) := by
    cases receiver with
    | none => trivial
    | some v => exact hr v rfl
  have hcallback := argument_sound ha 0
  have hfield (key : String) : R.Evals i
      (Eval.read fun m => m.heap.field (receiver.getD .nil) key)
      (Eval.read fun m => m.heap.field (receiver.getD .nil) key) :=
    Agree.read fun m hm => hm.2.heap.field _ key
  unfold subscribe
  refine Agree.bind (hfield "status") fun status _ => ?_
  split
  · split
    · refine Agree.bind (hfield "value") fun value hvalue => ?_
      refine Agree.bind (Agree.discard (V := R.Sound) ?_) fun _ _ => Agree.pure hpromise
      exact hcall _ _ hcallback (by simpa using hvalue)
    · split
      · refine Agree.bind (hfield settlement.queue) fun queue _ => ?_
        split
        next r _ =>
          refine Agree.bind (modifyArray_gives r fun a h v hv => ?_) fun _ _ => Agree.pure hpromise
          rcases Array.mem_push.1 hv with hv | rfl
          · exact h v hv
          · exact hcallback
        next => exact Agree.pure hpromise
      · exact Agree.pure hpromise
  · exact Agree.pure hpromise

theorem promiseMethod_evals (hcall : R.Calls i call call') (method : PromiseMethod)
    {receiver : Option Value} (hr : ∀ v, receiver = some v → R.Sound v) {args : List Value}
    (ha : ∀ v ∈ args, R.Sound v) :
    R.Evals i (promiseMethod call method receiver args)
      (promiseMethod call' method receiver args) := by
  cases method with
  | onResolve => exact subscribe_evals hcall .resolved hr ha
  | onReject => exact subscribe_evals hcall .rejected hr ha

/-- Every built-in function keeps a regime that the calls it makes keep. -/
theorem callNative_evals (hcall : R.Calls i call call') (n : Native) {receiver : Option Value}
    (hr : ∀ v, receiver = some v → R.Sound v) {args : List Value}
    (ha : ∀ v ∈ args, R.Sound v) :
    R.Evals i (callNative call n receiver args) (callNative call' n receiver args) := by
  cases n with
  | array method => exact arrayMethod_evals hcall method receiver ha
  | text method => exact textMethod_evals method receiver args
  | textFunction f => exact textFunction_evals f args
  | system f => exact systemFunction_evals f args
  | file f => exact fileFunction_evals f args
  | timer f => exact timerFunction_evals f args
  | json f => exact jsonFunction_evals f args
  | date f => exact dateFunction_evals f args
  | worker f => exact workerFunction_evals f receiver args
  | promise method => exact promiseMethod_evals hcall method hr ha
  | network f => exact networkFunction_evals f receiver args

end ScriptEngine.Library
