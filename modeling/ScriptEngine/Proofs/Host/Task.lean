import ScriptEngine.Engine.Start
import ScriptEngine.Proofs.Host.Exchange
import ScriptEngine.Proofs.Machine.Agreement

/-!
# Waiting for a task

A spawner waits for a task and then once more. Its worker posts some messages, whatever becomes of
them, and closes its side of the link in the end; it may ask the surroundings in between. However
the two take turns, and however much room the link has, the first message is what the spawner gets.
-/
namespace ScriptEngine

open Library

/-- A talk that posts these messages on a link, whatever the answers are, and closes its side. -/
inductive Posts {σ : Type} (l : LinkRef) : List String → Talk σ → Prop
  | outer {q : OuterRequest} {next : q.Answer → Talk σ} {messages : List String}
      (h : ∀ a, Posts l messages (next a)) : Posts l messages (.asking (.outer q) next)
  | post {message : String} {messages : List String} {next : Bool → Talk σ}
      (h : ∀ b, Posts l messages (next b)) :
      Posts l (message :: messages) (.asking (.push l .outbound message) next)
  | close (r : σ) : Posts l [] (.asking (.closeOutbound l) fun _ => .finished r)

namespace Library

/-- Posts some values to the spawner. -/
def postAll (values : List Value) : Eval (Array Value) :=
  Eval.mapList (fun v => workerFunction .postOut none [v]) values

/-- Waits for a task two times. -/
def waitTwice (task : Value) : Eval (Value × Value) := do
  let first ← workerFunction .wait (some task) []
  let second ← workerFunction .wait (some task) []
  return (first, second)

/-- The link by which a handle is answered. -/
def taskLink? (task : Value) (m : Machine) : Option LinkRef :=
  (handleId? m.heap (some task)).bind m.workers.get?

/-- The machine when the worker of a handle is forgotten. -/
def forget (task : Value) (m : Machine) : Machine :=
  match handleId? m.heap (some task) with
  | none => m
  | some id => { m with workers := (m.workers.remove id).2 }

theorem removeWorker_eq (task : Value) (m : Machine) :
    removeWorker (some task) m = .finished (.value (taskLink? task m) (forget task m)) := by
  cases h : handleId? m.heap (some task) with
  | none => simp [removeWorker, Eval.change, taskLink?, forget, h]
  | some id =>
    simp [removeWorker, Eval.change, taskLink?, forget, h]
    rfl

theorem taskLink?_forget (task : Value) (m : Machine) : taskLink? task (forget task m) = none := by
  unfold taskLink? forget
  cases h : handleId? m.heap (some task) with
  | none => simp [h]
  | some id =>
    simp only [h, Option.bind_some, WorkerTable.remove, WorkerTable.get?]
    exact List.lookup_eq_none_iff.2 fun w hw => by
      simpa using Ne.symm (by simpa using (List.mem_filter.1 hw).2)

/-- What is made of the answer of a waiting pop. -/
def firstMessage (answer : Option String) : Value := (answer.map Value.text).getD .nil

theorem wait_eq (task : Value) (m : Machine) :
    workerFunction .wait (some task) [] m =
      match taskLink? task m with
      | none => .finished (.value .nil (forget task m))
      | some l => .asking (.pop l .outbound) fun answer => .asking (.closeLink l) fun _ =>
          .finished (.value (firstMessage answer) (forget task m)) := by
  have h := removeWorker_eq task m
  change (removeWorker (some task) >>= _) m = _
  change Eval.bind _ _ m = _
  rw [Eval.bind_apply, h]
  cases taskLink? task m with
  | none => rfl
  | some l => rfl

/-- Takes the first message of a task and lets the task go. -/
def awaiting {ρ : Type} (l : LinkRef) (r : Option String → ρ) : Talk ρ :=
  .asking (.pop l .outbound) fun answer => .asking (.closeLink l) fun _ => .finished (r answer)

/-- What two waits come to. -/
def waited (task : Value) (m : Machine) (answer : Option String) : Ending (Value × Value) :=
  .value (firstMessage answer, .nil) (forget task (forget task m))

theorem waitTwice_eq {task : Value} {m : Machine} {l : LinkRef} (h : taskLink? task m = some l) :
    waitTwice task m = awaiting l (waited task m) := by
  change Eval.bind _ _ m = _
  rw [Eval.bind_apply, wait_eq, h]
  refine congrArg (Dialogue.asking _) (funext fun answer =>
    congrArg (Dialogue.asking _) (funext fun _ => ?_))
  change Eval.bind _ _ (forget task m) = _
  rw [Eval.bind_apply, wait_eq, taskLink?_forget]
  rfl

theorem postOut_eq {m : Machine} {l : LinkRef} (h : m.link = some l) (v : Value) :
    workerFunction .postOut none [v] m =
      .asking (.push l .outbound (v.toText m.heap)) fun sent =>
        .finished (.value (.bool sent) m) := by
  change ((Eval.read fun m => m.link) >>= _) m = _
  change Eval.bind _ _ m = _
  rw [Eval.bind_apply]
  simp only [Eval.read, Dialogue.finished_bind, Eval.andThen, h]
  rfl

/-- A worker that posts some values does so whatever becomes of them. -/
theorem posts_postAll {σ : Type} {l : LinkRef} (values : List Value) {m : Machine}
    (h : m.link = some l) (r : Ending (Array Value) → σ) :
    Posts l (values.map fun v => v.toText m.heap)
      ((postAll values m).bind fun e => .asking (.closeOutbound l) fun _ => .finished (r e)) := by
  suffices hfold : ∀ out : Array Value, Posts l (values.map fun v => v.toText m.heap)
      ((Eval.foldList (fun (out : Array Value) v =>
          Eval.bind (workerFunction .postOut none [v]) fun b => Eval.pure (out.push b))
        values out m).bind fun e => .asking (.closeOutbound l) fun _ => .finished (r e)) from
    hfold #[]
  induction values with
  | nil => exact fun out => .close _
  | cons v values ih =>
    intro out
    rw [Eval.foldList_cons, Eval.bind_apply, postOut_eq h]
    exact .post fun sent => ih _

end Library

namespace Hub

variable {ρ σ : Type} {l : LinkRef} {bound : Nat}

/-- What a step of a worker that posts messages does to its link. -/
inductive Posted (l : LinkRef) (link : Link) (messages : List String) (hub : Hub) :
    Exchange → Hub → Talk σ → Prop
  | outer {q : OuterRequest} {a : q.Answer} {d : Talk σ} (hd : Posts l messages d) :
      Posted l link messages hub ⟨.outer q, a⟩ hub d
  | refused {message : String} {rest : List String} {d : Talk σ}
      (hmessages : messages = message :: rest) (hclosed : link.outbound.closed = true)
      (hd : Posts l rest d) : Posted l link messages hub ⟨.push l .outbound message, false⟩ hub d
  | stored {message : String} {rest : List String} {d : Talk σ}
      (hmessages : messages = message :: rest) (hopen : link.outbound.closed = false)
      (hd : Posts l rest d) :
      Posted l link messages hub ⟨.push l .outbound message, true⟩
        (hub.setLink l
          { link with outbound :=
              { link.outbound with items := link.outbound.items ++ [message] } }) d
  | closed {r : σ} {d : Talk σ} (hmessages : messages = []) (hd : d = .finished r) :
      Posted l link messages hub ⟨.closeOutbound l, ()⟩
        (hub.setLink l { link with outbound := link.outbound.close }) d

theorem push_cases {hub hub' : Hub} {link : Link} {message : String} {sent : Bool}
    (hlink : hub.link? l = some link) (h : hub.push l .outbound message = some (sent, hub')) :
    (link.outbound.closed = true ∧ sent = false ∧ hub' = hub) ∨
    (link.outbound.closed = false ∧ sent = true ∧
      hub' = hub.setLink l
        { link with outbound :=
            { link.outbound with items := link.outbound.items ++ [message] } }) := by
  rcases hpush : link.outbound.push message with ⟨pushed, c⟩
  simp only [push, hlink, channel, hpush] at h
  rw [Channel.push] at hpush
  by_cases hclosed : link.outbound.closed = true
  · rw [if_pos hclosed] at hpush
    cases hpush
    cases h
    exact .inl ⟨hclosed, rfl, rfl⟩
  · by_cases hroom : link.outbound.items.length < link.outbound.capacity
    · rw [if_neg hclosed, if_pos hroom] at hpush
      cases hpush
      cases h
      exact .inr ⟨eq_false_of_ne_true hclosed, rfl, rfl⟩
    · rw [if_neg hclosed, if_neg hroom] at hpush
      cases hpush
      cases h

theorem pop_cases {hub hub' : Hub} {link : Link} {answer : Option String}
    (hlink : hub.link? l = some link) (h : hub.pop l .outbound = some (answer, hub')) :
    (∃ message rest, answer = some message ∧ link.outbound.items = message :: rest ∧
      hub' = hub.setLink l { link with outbound := { link.outbound with items := rest } }) ∨
    (answer = none ∧ link.outbound.items = [] ∧ link.outbound.closed = true ∧ hub' = hub) := by
  simp only [pop, hlink, channel, Channel.pop] at h
  cases hitems : link.outbound.items with
  | cons message rest =>
    simp only [hitems] at h
    cases h
    exact .inl ⟨message, rest, rfl, rfl, rfl⟩
  | nil =>
    by_cases hclosed : link.outbound.closed = true
    · simp only [hitems, hclosed, if_true] at h
      cases h
      exact .inr ⟨rfl, rfl, hclosed, rfl⟩
    · simp [hitems, hclosed] at h

theorem posted_of_advance {hub hub' : Hub} {p p' : Activity σ} {e : Exchange} {link : Link}
    {messages : List String} (hd : Posts l messages p.talk) (hlink : hub.link? l = some link)
    (h : Advance bound hub p e hub' p') : Posted l link messages hub e hub' p'.talk := by
  generalize htalk : p.talk = d at hd
  cases hd with
  | outer hd =>
    obtain ⟨a, rfl, htalk', ⟨time, p₁, hanswer⟩ | ⟨r, -, rfl⟩⟩ := h.asked htalk
    · cases hanswer
    · exact htalk' ▸ .outer (hd a)
  | post hd =>
    obtain ⟨sent, rfl, htalk', ⟨time, p₁, hanswer⟩ | ⟨r, ⟨⟩, -⟩⟩ := h.asked htalk
    rcases push_cases hlink hanswer with ⟨hclosed, rfl, rfl⟩ | ⟨hopen, rfl, rfl⟩
    · exact htalk' ▸ .refused rfl hclosed (hd false)
    · exact htalk' ▸ .stored rfl hopen (hd true)
  | close r =>
    obtain ⟨⟨⟩, rfl, htalk', ⟨time, p₁, hanswer⟩ | ⟨r, ⟨⟩, -⟩⟩ := h.asked htalk
    have hhub : hub' = hub.setLink l { link with outbound := link.outbound.close } := by
      simp only [answer?, closeOutbound, hlink] at hanswer
      cases hanswer
      rfl
    exact hhub ▸ .closed rfl htalk'

/-- How far the spawner is, and what has become of the messages by then. -/
inductive Phase (l : LinkRef) (messages : List String) (r : Option String → ρ)
    (h : List (Party × Exchange)) (s : Pair ρ σ) : Prop
  /-- All that was posted is still in the link. -/
  | waiting {link : Link} {rest : List String} (hspawner : s.spawner.talk = awaiting l r)
      (hopen : (.spawner, ⟨.closeLink l, ()⟩) ∉ h) (hlink : s.hub.link? l = some link)
      (hroom : 0 < link.outbound.capacity) (hmessages : messages = link.outbound.items ++ rest)
      (hworker : link.outbound.closed = false ∧ Posts l rest s.worker.talk ∨
        link.outbound.closed = true ∧ rest = [] ∧ ∃ a, s.worker.talk = .finished a)
  | taken {link : Link}
      (hspawner : s.spawner.talk =
        .asking (.closeLink l) fun _ => .finished (r messages.head?))
      (hopen : (.spawner, ⟨.closeLink l, ()⟩) ∉ h) (hlink : s.hub.link? l = some link)
      (hworker : (∃ rest, Posts l rest s.worker.talk) ∨ ∃ a, s.worker.talk = .finished a)
  | letGo {link : Link} (hspawner : s.spawner.talk = .finished (r messages.head?))
      (hlink : s.hub.link? l = some link) (hclosed : link.outbound.closed = true)
      (hworker : (∃ rest, Posts l rest s.worker.talk) ∨ ∃ a, s.worker.talk = .finished a)

section

variable {messages : List String} {r : Option String → ρ} {h : List (Party × Exchange)}
  {s s' : Pair ρ σ} {e : Exchange}

theorem Phase.spawner (hp : Phase l messages r h s) (hs : Pair.Step bound s (.spawner, e) s') :
    Phase l messages r ((.spawner, e) :: h) s' := by
  cases hs with
  | spawner hadvance =>
    cases hp with
    | @waiting link rest hspawner hopen hlink hroom hmessages hworker =>
      obtain ⟨answer, rfl, htalk, ⟨time, p₁, hanswer⟩ | ⟨r, ⟨⟩, -⟩⟩ := hadvance.asked hspawner
      have hworking : (∃ rest, Posts l rest s.worker.talk) ∨ ∃ a, s.worker.talk = .finished a :=
        hworker.imp (fun hw => ⟨rest, hw.2⟩) fun hw => hw.2.2
      have hstill : (Party.spawner, (⟨.closeLink l, ()⟩ : Exchange)) ∉
          (.spawner, ⟨.pop l .outbound, answer⟩) :: h :=
        List.not_mem_cons_of_ne_of_not_mem nofun hopen
      rcases pop_cases hlink hanswer with ⟨message, left, rfl, hitems, rfl⟩ |
        ⟨rfl, hitems, hclosed, rfl⟩
      · have hfirst : messages.head? = some message := by rw [hmessages, hitems]; rfl
        exact .taken (hfirst ▸ htalk) hstill (link?_setLink hlink _) hworking
      · obtain ⟨hfalse, -⟩ | ⟨-, rfl, -⟩ := hworker
        · exact absurd (hclosed.symm.trans hfalse) nofun
        · have hnone : messages.head? = none := by rw [hmessages, hitems]; rfl
          exact .taken (hnone ▸ htalk) hstill hlink hworking
    | @taken link hspawner hopen hlink hworker =>
      obtain ⟨⟨⟩, rfl, htalk, ⟨time, p₁, hanswer⟩ | ⟨r, ⟨⟩, -⟩⟩ := hadvance.asked hspawner
      simp only [answer?, closeLink, hlink] at hanswer
      cases hanswer
      exact .letGo htalk (link?_setLink hlink _) rfl hworker
    | letGo hspawner => exact absurd hspawner hadvance.not_finished

theorem Phase.worker (hp : Phase l messages r h s) (hs : Pair.Step bound s (.worker, e) s') :
    Phase l messages r ((.worker, e) :: h) s' := by
  cases hs with
  | worker hadvance =>
    have hstill (hopen : (.spawner, ⟨.closeLink l, ()⟩) ∉ h) :
        (Party.spawner, (⟨.closeLink l, ()⟩ : Exchange)) ∉ (.worker, e) :: h :=
      List.not_mem_cons_of_ne_of_not_mem nofun hopen
    cases hp with
    | @waiting link rest hspawner hopen hlink hroom hmessages hworker =>
      obtain ⟨hclosed, hposts⟩ | ⟨-, -, a, hover⟩ := hworker
      · cases posted_of_advance hposts hlink hadvance with
        | outer hd =>
          exact .waiting hspawner (hstill hopen) hlink hroom hmessages (.inl ⟨hclosed, hd⟩)
        | refused _ hrefused => exact absurd (hclosed.symm.trans hrefused) nofun
        | @stored message rest d hrest hopen' hd =>
          refine .waiting hspawner (hstill hopen) (link?_setLink hlink _) hroom ?_
            (.inl ⟨hclosed, hd⟩)
          rw [hmessages, hrest, List.append_assoc]
          rfl
        | closed hrest hd =>
          exact .waiting hspawner (hstill hopen) (link?_setLink hlink _) hroom hmessages
            (.inr ⟨rfl, hrest, _, hd⟩)
      · exact absurd hover hadvance.not_finished
    | @taken link hspawner hopen hlink hworker =>
      obtain ⟨rest, hposts⟩ | ⟨a, hover⟩ := hworker
      · cases posted_of_advance hposts hlink hadvance with
        | outer hd => exact .taken hspawner (hstill hopen) hlink (.inl ⟨_, hd⟩)
        | refused _ _ hd => exact .taken hspawner (hstill hopen) hlink (.inl ⟨_, hd⟩)
        | stored _ _ hd =>
          exact .taken hspawner (hstill hopen) (link?_setLink hlink _) (.inl ⟨_, hd⟩)
        | closed _ hd =>
          exact .taken hspawner (hstill hopen) (link?_setLink hlink _) (.inr ⟨_, hd⟩)
      · exact absurd hover hadvance.not_finished
    | @letGo link hspawner hlink hclosed hworker =>
      obtain ⟨rest, hposts⟩ | ⟨a, hover⟩ := hworker
      · cases posted_of_advance hposts hlink hadvance with
        | outer hd => exact .letGo hspawner hlink hclosed (.inl ⟨_, hd⟩)
        | refused _ _ hd => exact .letGo hspawner hlink hclosed (.inl ⟨_, hd⟩)
        | stored _ hopen => exact absurd (hclosed.symm.trans hopen) nofun
        | closed _ hd => exact .letGo hspawner (link?_setLink hlink _) rfl (.inr ⟨_, hd⟩)
      · exact absurd hover hadvance.not_finished

theorem Phase.step {e : Party × Exchange} (hp : Phase l messages r h s)
    (hs : Pair.Step bound s e s') : Phase l messages r (e :: h) s' := by
  obtain ⟨party, e⟩ := e
  cases party with
  | spawner => exact hp.spawner hs
  | worker => exact hp.worker hs

/-! Nobody waits forever -/

theorem answer_nonempty (q : OuterRequest) : Nonempty q.Answer := by
  cases q with
  | write | waitUntil => exact ⟨()⟩
  | readLine => exact ⟨.ok none⟩
  | now => exact ⟨(0 : Nat)⟩
  | random => exact ⟨(0 : Int)⟩
  | readFile => exact ⟨.ok []⟩
  | writeFile | holds | delete | makeDirectory => exact ⟨true⟩
  | firstFile => exact ⟨none⟩
  | list => exact ⟨[]⟩

/-- A worker that posts messages goes on if there is room for one, or if none is taken any more. -/
theorem exists_advance_of_posts {hub : Hub} {link : Link} {p : Activity σ} {messages : List String}
    (hd : Posts l messages p.talk) (hlink : hub.link? l = some link)
    (hroom : link.outbound.closed = true ∨ link.outbound.items.length < link.outbound.capacity) :
    ∃ e hub' p', Advance bound hub p e hub' p' := by
  generalize htalk : p.talk = d at hd
  cases hd with
  | @outer q =>
    obtain ⟨a⟩ := answer_nonempty q
    exact ⟨_, _, _, .outer htalk a⟩
  | @post message =>
    have hanswer : ∃ a, hub.push l .outbound message = some a := by
      simp only [push, hlink, channel, Channel.push]
      by_cases hclosed : link.outbound.closed = true
      · simp [hclosed]
      · simp [hclosed, hroom.resolve_left hclosed]
    obtain ⟨⟨sent, hub'⟩, hanswer⟩ := hanswer
    exact ⟨_, _, _, .answered 0 htalk hanswer⟩
  | close r => exact ⟨_, _, _, .answered 0 htalk rfl⟩

theorem Phase.exists_step (hp : Phase l messages r h s) (hs : ¬ s.Over) :
    ∃ e s', Pair.Step bound s e s' := by
  have hspawner {hub : Hub} {a : Exchange} {p : Activity ρ}
      (ha : Advance bound s.hub s.spawner a hub p) : ∃ e s', Pair.Step bound s e s' :=
    ⟨_, _, .spawner ha⟩
  have hworker (hw : ∃ e hub p, Advance bound s.hub s.worker e hub p) :
      ∃ e s', Pair.Step bound s e s' := by
    obtain ⟨_, _, _, ha⟩ := hw
    exact ⟨_, _, .worker ha⟩
  cases hp with
  | @waiting link rest htalk _ hlink hroom _ hposts =>
    cases hitems : link.outbound.items with
    | cons message left =>
      have hanswer : s.hub.pop l .outbound = some (some message, s.hub.setLink l
          { link with outbound := { link.outbound with items := left } }) := by
        simp only [pop, hlink, channel, Channel.pop, hitems]
        rfl
      exact hspawner (.answered 0 htalk hanswer)
    | nil =>
      obtain ⟨-, hd⟩ | ⟨hclosed, -, -⟩ := hposts
      · exact hworker (exists_advance_of_posts hd hlink (.inr (by simpa [hitems] using hroom)))
      · have hanswer : s.hub.pop l .outbound = some (none, s.hub) := by
          simp [pop, hlink, channel, Channel.pop, hitems, hclosed]
        exact hspawner (.answered 0 htalk hanswer)
  | taken htalk => exact hspawner (.answered 0 htalk rfl)
  | letGo htalk hlink hclosed hposts =>
    obtain ⟨rest, hd⟩ | hover := hposts
    · exact hworker (exists_advance_of_posts hd hlink (.inl hclosed))
    · exact absurd ⟨⟨_, htalk⟩, hover⟩ hs

theorem Phase.refused {message : String} {b : Bool} (hp : Phase l messages r h s)
    (hclosed : (.spawner, ⟨.closeLink l, ()⟩) ∈ h)
    (hs : Pair.Step bound s (.worker, ⟨.push l .outbound message, b⟩) s') : b = false := by
  cases hp with
  | waiting _ hopen | taken _ hopen => exact absurd hclosed hopen
  | letGo _ hlink hshut hworker =>
    cases hs with
    | worker ha =>
      obtain ⟨rest, hd⟩ | ⟨a, hover⟩ := hworker
      · cases posted_of_advance hd hlink ha with
        | refused => rfl
        | stored _ hopen => exact absurd (hshut.symm.trans hopen) nofun
      · exact absurd hover ha.not_finished

end

/-- The two programs of a task at the start: the spawner has a link to the worker, and the worker
posts some messages on it. -/
structure Starts (l : LinkRef) (capacity : Nat) (messages : List String) (task : Value)
    (m : Machine) (s : Pair (Ending (Value × Value)) σ) : Prop where
  link : s.hub.link? l = some (.open capacity)
  handle : taskLink? task m = some l
  spawner : s.spawner.talk = waitTwice task m
  worker : Posts l messages s.worker.talk

theorem Starts.phase {capacity : Nat} {messages : List String} {task : Value} {m : Machine}
    {s : Pair (Ending (Value × Value)) σ} (hs : Starts l capacity messages task m s) :
    Phase l messages (waited task m) [] s :=
  .waiting (hs.spawner.trans (waitTwice_eq hs.handle)) nofun hs.link
    (Nat.le_max_right capacity 1) rfl (.inl ⟨rfl, hs.worker⟩)

theorem Phase.of_run {messages : List String} {r : Option String → ρ} {h : List (Party × Exchange)}
    {s₀ s : Pair ρ σ} (hrun : Pair.Run bound s₀ h s) (hp : Phase l messages r [] s₀) :
    Phase l messages r h s := by
  induction hrun with
  | start => exact hp
  | step _ next ih => exact ih.step next

/-- However the spawner and the worker take turns, and however much room the link has: the first
wait comes back with the first message, or with nothing if there is none, and the second wait with
nothing. Once the first wait has let the task go, no post of the worker goes through, whether it was
waiting or comes later. As long as not both have ended one of them can go on, and so both end. -/
theorem first_message_only {capacity : Nat} {messages : List String} {task : Value} {m : Machine}
    {s₀ s : Pair (Ending (Value × Value)) σ} {h : List (Party × Exchange)}
    (hs : Starts l capacity messages task m s₀) (r : Pair.Run bound s₀ h s) :
    (∀ e, s.spawner.talk = .finished e →
      ∃ m', e = .value ((messages.head?.map Value.text).getD .nil, .nil) m') ∧
    (∀ past message b, (.worker, ⟨.push l .outbound message, b⟩) :: past <:+ h →
      (.spawner, ⟨.closeLink l, ()⟩) ∈ past → b = false) ∧
    (¬ s.Over → ∃ e s', Pair.Step bound s e s') ∧
    ∃ later s', Pair.Run bound s later s' ∧ s'.Over := by
  have hp := Phase.of_run r hs.phase
  refine ⟨fun e he => ?_, fun past message b hpast hclosed => ?_, hp.exists_step, ?_⟩
  · cases hp with
    | waiting htalk | taken htalk => exact nomatch htalk.symm.trans he
    | letGo htalk =>
      cases htalk.symm.trans he
      exact ⟨_, rfl⟩
  · obtain ⟨s₁, s₂, r₁, next⟩ := r.before hpast
    exact (Phase.of_run r₁ hs.phase).refused hclosed next
  · exact Pair.exists_run_over (P := fun s => ∃ h, Phase l messages (waited task m) h s)
      (fun _ _ _ ⟨h, hp⟩ hs => ⟨_, hp.step hs⟩) (fun _ ⟨_, hp⟩ => hp.exists_step) s ⟨h, hp⟩

/-- A handle, the first object of a machine. -/
def onlyTask : Value := .object ⟨0⟩

/-- A machine with one worker, and a handle for it. -/
def spawning (l : LinkRef) : Machine :=
  { Machine.bare .default with
    heap := ⟨#[], #[⟨.plain, .ofList [("id", .number 1)]⟩]⟩
    workers := ⟨1, [(toNat 1, l)]⟩ }

/-- A machine that runs as a worker. -/
def working (l : LinkRef) : Machine := { Machine.bare .default with link := some l }

theorem taskLink?_spawning (l : LinkRef) : taskLink? onlyTask (spawning l) = some l := by
  have hid : handleId? (spawning l).heap (some onlyTask) = some (toNat 1) := rfl
  rw [taskLink?, hid]
  simp [spawning, WorkerTable.get?]

/-- A worker that posts more than its link has room for. -/
def chatty : Pair (Ending (Value × Value)) Unit where
  hub := { Hub.empty true with links := #[.open 1] }
  spawner := ⟨0, waitTwice onlyTask (spawning ⟨0⟩), none⟩
  worker := ⟨1, (postAll [.text "a", .text "b", .text "c"] (working ⟨0⟩)).bind fun _ =>
    .asking (.closeOutbound ⟨0⟩) fun _ => .finished (), none⟩

theorem chatty_starts :
    Starts ⟨0⟩ 1 ["a", "b", "c"] onlyTask (spawning ⟨0⟩) chatty where
  link := rfl
  handle := taskLink?_spawning ⟨0⟩
  spawner := rfl
  worker := posts_postAll (m := working ⟨0⟩) [.text "a", .text "b", .text "c"] rfl fun _ => ()

/-- The second post has to wait until the first message is taken, and the third one is refused. -/
def chattyHistory : List (Party × Exchange) :=
  [(.worker, ⟨.closeOutbound ⟨0⟩, ()⟩), (.worker, ⟨.push ⟨0⟩ .outbound "c", false⟩),
   (.spawner, ⟨.closeLink ⟨0⟩, ()⟩), (.worker, ⟨.push ⟨0⟩ .outbound "b", true⟩),
   (.spawner, ⟨.pop ⟨0⟩ .outbound, some "a"⟩), (.worker, ⟨.push ⟨0⟩ .outbound "a", true⟩)]

theorem chatty_run : ∃ s, Pair.Run 0 chatty chattyHistory s ∧ s.Over := by
  have hspawner : chatty.spawner.talk = _ := waitTwice_eq (taskLink?_spawning ⟨0⟩)
  have r₁ : Pair.Run 0 chatty [(.worker, ⟨.push ⟨0⟩ .outbound "a", true⟩)] _ :=
    .step .start (.worker (.answered 0 rfl rfl))
  have r₂ : Pair.Run 0 chatty ((.spawner, ⟨.pop ⟨0⟩ .outbound, some "a"⟩) :: _) _ :=
    .step r₁ (.spawner (.answered 0 hspawner rfl))
  have r₃ : Pair.Run 0 chatty ((.worker, ⟨.push ⟨0⟩ .outbound "b", true⟩) :: _) _ :=
    .step r₂ (.worker (.answered 0 rfl rfl))
  have r₄ : Pair.Run 0 chatty ((.spawner, ⟨.closeLink ⟨0⟩, ()⟩) :: _) _ :=
    .step r₃ (.spawner (.answered 0 rfl rfl))
  have r₅ : Pair.Run 0 chatty ((.worker, ⟨.push ⟨0⟩ .outbound "c", false⟩) :: _) _ :=
    .step r₄ (.worker (.answered 0 rfl rfl))
  have r₆ : Pair.Run 0 chatty ((.worker, ⟨.closeOutbound ⟨0⟩, ()⟩) :: _) _ :=
    .step r₅ (.worker (.answered 0 rfl rfl))
  exact ⟨_, r₆, ⟨_, rfl⟩, ⟨_, rfl⟩⟩

/-- The spawner gets the first message and then nothing. -/
theorem chatty_first : ∃ s e m', Starts ⟨0⟩ 1 ["a", "b", "c"] onlyTask (spawning ⟨0⟩) chatty ∧
    Pair.Run 0 chatty chattyHistory s ∧ s.spawner.talk = .finished e ∧
    e = .value (.text "a", .nil) m' := by
  obtain ⟨s, r, ⟨e, he⟩, -⟩ := chatty_run
  obtain ⟨hfirst, -, -, -⟩ := first_message_only chatty_starts r
  obtain ⟨m', hvalue⟩ := hfirst e he
  exact ⟨s, e, m', chatty_starts, r, he, hvalue⟩

end Hub

end ScriptEngine
