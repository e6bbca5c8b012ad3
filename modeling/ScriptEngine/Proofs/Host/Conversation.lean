import ScriptEngine.Proofs.Host.Standoff
import ScriptEngine.Proofs.Host.Task

/-!
# A spawner and its worker in conversation

A spawner posts messages to its worker and polls what comes back, and the worker does the same on
its side, each in an order of its own. Their link has bounded room in both directions and a post
waits for room, so the two may block each other; what they do tells whether that can happen.
-/
namespace ScriptEngine

open Library

namespace Library

/-- Posts a message or polls, with one function for each. -/
def messageOp (post poll : WorkerFunction) (receiver : Option Value) : MessageOp → Eval Value
  | .post v => workerFunction post receiver [v]
  | .poll => workerFunction poll receiver []

/-- Does all this in turn, whatever comes of it. -/
def converse (post poll : WorkerFunction) (receiver : Option Value) (ops : List MessageOp) :
    Eval Unit :=
  Eval.forEach (fun op => do let _ ← messageOp post poll receiver op) ops

/-- What a spawner does with the handle of its worker. -/
def converseWith (handle : Value) : List MessageOp → Eval Unit :=
  converse .postIn .pollOut (some handle)

/-- What a worker does. -/
def converseBack : List MessageOp → Eval Unit := converse .postOut .pollIn none

end Library

/-- Where the posts of a side go. -/
def Hub.Party.direction : Party → Direction
  | spawner => .inbound
  | worker => .outbound

/-- A talk that posts and polls in this order on a link, whatever the answers are. -/
inductive Converses {σ : Type} (l : LinkRef) (p : Hub.Party) : List MessageOp → Talk σ → Prop
  | ended (r : σ) : Converses l p [] (.finished r)
  | post {v : Value} {ops : List MessageOp} {message : String} {next : Bool → Talk σ}
      (h : ∀ sent, Converses l p ops (next sent)) :
      Converses l p (.post v :: ops) (.asking (.push l p.direction message) next)
  | poll {ops : List MessageOp} {next : List String → Talk σ}
      (h : ∀ messages, Converses l p ops (next messages)) :
      Converses l p (.poll :: ops) (.asking (.drain l p.other.direction) next)

theorem Converses.finished_iff {σ : Type} {l : LinkRef} {p : Hub.Party} {ops : List MessageOp}
    {d : Talk σ} (h : Converses l p ops d) : (∃ r, d = .finished r) ↔ ops = [] := by
  cases h with
  | ended r => exact ⟨fun _ => rfl, fun _ => ⟨r, rfl⟩⟩
  | post | poll => exact ⟨nofun, nofun⟩

namespace Library

/-- A machine with an array of messages. -/
def withMessages (m : Machine) (messages : List String) : Machine :=
  { m with heap := (m.heap.newArray (messages.map Value.text).toArray).2 }

/-- On machines with a property, which stays, the operations concern one side of a link. -/
structure Linked (l : LinkRef) (p : Hub.Party) (J : Machine → Prop) (op : MessageOp → Eval Value) :
    Prop where
  post {m : Machine} (h : J m) (v : Value) : op (.post v) m =
    .asking (.push l p.direction (v.toText m.heap)) fun sent => .finished (.value (.bool sent) m)
  poll {m : Machine} (h : J m) : op .poll m =
    .asking (.drain l p.other.direction) fun messages =>
      .finished (.value (.array ⟨m.heap.arrays.size⟩) (withMessages m messages))
  stays {m : Machine} (h : J m) (messages : List String) : J (withMessages m messages)

theorem workerLink?_eq {handle : Value} {l : LinkRef} {m : Machine}
    (h : taskLink? handle m = some l) :
    workerLink? (some handle) m = .finished (.value (some l) m) :=
  congrArg (fun link => Dialogue.finished (Ending.value link m)) h

theorem linked_spawner {l : LinkRef} (handle : Value) :
    Linked l .spawner (fun m => taskLink? handle m = some l)
      (messageOp .postIn .pollOut (some handle)) where
  post {m} h v := by
    change (workerLink? (some handle) >>= _) m = _
    change Eval.bind _ _ m = _
    rw [Eval.bind_apply, workerLink?_eq h]
    rfl
  poll {m} h := by
    change (workerLink? (some handle) >>= _) m = _
    change Eval.bind _ _ m = _
    rw [Eval.bind_apply, workerLink?_eq h]
    rfl
  stays h _ := h

theorem linked_worker {l : LinkRef} :
    Linked l .worker (fun m => m.link = some l) (messageOp .postOut .pollIn none) where
  post h v := postOut_eq h v
  poll {m} h := by
    change ((Eval.read fun m => m.link) >>= _) m = _
    change Eval.bind _ _ m = _
    rw [Eval.bind_apply]
    simp only [Eval.read, Dialogue.finished_bind, Eval.andThen, h]
    rfl
  stays h _ := h

theorem Linked.converses {l : LinkRef} {p : Hub.Party} {J : Machine → Prop}
    {post poll : WorkerFunction} {receiver : Option Value}
    (hlinked : Linked l p J (messageOp post poll receiver)) (ops : List MessageOp) {m : Machine}
    (h : J m) : Converses l p ops (converse post poll receiver ops m) := by
  induction ops generalizing m with
  | nil => exact .ended _
  | cons op ops ih =>
    have hcons : converse post poll receiver (op :: ops) m =
        (Eval.bind (messageOp post poll receiver op) (fun _ => Eval.pure ()) m).bind
          (Eval.andThen fun _ => converse post poll receiver ops) :=
      Eval.foldList_cons (fun _ op => Eval.bind (messageOp post poll receiver op) fun _ =>
        Eval.pure ()) op ops () m
    rw [hcons, Eval.bind_apply]
    cases op with
    | post v =>
      rw [hlinked.post h]
      exact .post fun sent => ih h
    | poll =>
      rw [hlinked.poll h]
      exact .poll fun messages => ih (hlinked.stays h messages)

end Library

namespace Hub
open Standoff

variable {ρ σ : Type} {bound c : Nat} {l : LinkRef} {hub hub' : Hub} {sent : Party → Nat}
  {p : Party} {a a' : Standing}

theorem channel_setChannel (link : Link) (d d' : Direction) (ch : Channel String) :
    channel (setChannel link d ch) d' = if d' = d then ch else channel link d' := by
  cases d <;> cases d' <;> rfl

theorem Party.direction_inj {p q : Party} : p.direction = q.direction ↔ p = q := by
  cases p <;> cases q <;> simp [direction]

/-- An open link with as much room in both directions, on which so many messages of either side
wait. -/
def Waits (l : LinkRef) (c : Nat) (hub : Hub) (sent : Party → Nat) : Prop :=
  ∃ link, hub.link? l = some link ∧ ∀ p : Party, (channel link p.direction).closed = false ∧
    (channel link p.direction).capacity = c ∧ (channel link p.direction).items.length = sent p

/-- What is done to one direction of the link changes only that. -/
theorem Waits.set {link : Link} (hlink : hub.link? l = some link)
    (h : ∀ p : Party, (channel link p.direction).closed = false ∧
      (channel link p.direction).capacity = c ∧ (channel link p.direction).items.length = sent p)
    (items : List String) :
    Waits l c (hub.setLink l (setChannel link p.direction
      { channel link p.direction with items })) (Function.update sent p items.length) := by
  refine ⟨_, link?_setLink hlink _, fun q => ?_⟩
  rw [channel_setChannel]
  by_cases hq : q = p
  · subst hq
    simp [h q]
  · simp [hq, Party.direction_inj, h q]

theorem Waits.push (h : Waits l c hub sent) (room : sent p < c) (message : String) :
    ∃ hub', hub.push l p.direction message = some (true, hub') ∧
      Waits l c hub' (Function.update sent p (sent p + 1)) := by
  obtain ⟨link, hlink, hch⟩ := h
  obtain ⟨hopen, hcapacity, hlength⟩ := hch p
  have hset := Waits.set (p := p) hlink hch ((channel link p.direction).items ++ [message])
  rw [List.length_append, hlength] at hset
  refine ⟨_, ?_, hset⟩
  simp [Hub.push, hlink, Channel.push, hopen, hcapacity, hlength, room]

theorem Waits.push_none (h : Waits l c hub sent) (hfull : ¬ sent p < c) (message : String) :
    hub.push l p.direction message = none := by
  obtain ⟨link, hlink, hch⟩ := h
  obtain ⟨hopen, hcapacity, hlength⟩ := hch p
  simp [Hub.push, hlink, Channel.push, hopen, hcapacity, hlength, hfull]

theorem Waits.drain (h : Waits l c hub sent) :
    Waits l c (hub.drain l p.direction).2 (Function.update sent p 0) := by
  obtain ⟨link, hlink, hch⟩ := h
  have hset := Waits.set (p := p) hlink hch []
  simpa [Hub.drain, Channel.drain, hlink] using hset

/-- A step of a side is a move. -/
theorem Advance.moves {act act' : Activity ρ} {e : Exchange} (h : Advance bound hub act e hub' act')
    (hw : Waits l c hub a.sent) (hconv : Converses l p (a.rest p) act.talk) :
    ∃ a', Moves c p a a' ∧ Waits l c hub' a'.sent ∧ Converses l p (a'.rest p) act'.talk ∧
      a'.rest p.other = a.rest p.other := by
  generalize htalk : act.talk = d at hconv
  generalize hops : a.rest p = ops at hconv
  cases hconv with
  | ended r => exact absurd htalk h.not_finished
  | @post v ops message next hnext =>
    obtain ⟨sent, rfl, htalk', ⟨time, act₁, hanswer⟩ | ⟨_, ⟨⟩, _⟩⟩ := h.asked htalk
    change hub.push l p.direction message = some (sent, hub') at hanswer
    by_cases room : a.sent p < c
    · obtain ⟨hub₁, hpush, hw'⟩ := hw.push room message
      cases hpush.symm.trans hanswer
      exact ⟨_, .post hops room, hw', by simpa [htalk'] using hnext true, by simp⟩
    · exact nomatch (hw.push_none room message).symm.trans hanswer
  | @poll ops next hnext =>
    obtain ⟨messages, rfl, htalk', ⟨time, act₁, hanswer⟩ | ⟨_, ⟨⟩, _⟩⟩ := h.asked htalk
    have hdrain : hub.drain l p.other.direction = (messages, hub') := Option.some.inj hanswer
    obtain rfl : (hub.drain l p.other.direction).2 = hub' := congrArg Prod.snd hdrain
    exact ⟨_, .poll hops, hw.drain, by simpa [htalk'] using hnext _, by simp⟩

/-- Every move is a step of the side. -/
theorem exists_advance {act : Activity ρ} (hconv : Converses l p (a.rest p) act.talk)
    (hw : Waits l c hub a.sent) (next : Moves c p a a') :
    ∃ e hub' act', Advance bound hub act e hub' act' ∧ Waits l c hub' a'.sent ∧
      Converses l p (a'.rest p) act'.talk ∧ a'.rest p.other = a.rest p.other := by
  cases next with
  | @post v ops hops room =>
    rw [hops] at hconv
    generalize htalk : act.talk = d at hconv
    cases hconv with
    | @post _ _ message next hnext =>
      obtain ⟨hub', hpush, hw'⟩ := hw.push room message
      exact ⟨_, hub', _, .answered 0 htalk hpush, hw', by simpa using hnext true, by simp⟩
  | @poll ops hops =>
    rw [hops] at hconv
    generalize htalk : act.talk = d at hconv
    cases hconv with
    | poll hnext =>
      exact ⟨_, _, _, .answered 0 htalk rfl, hw.drain, by simpa using hnext _, by simp⟩

/-- Two programs in conversation, and how far they have come. -/
structure Mirrors (l : LinkRef) (c : Nat) (s : Pair ρ σ) (a : Standing) : Prop where
  waits : Waits l c s.hub a.sent
  spawner : Converses l .spawner (a.rest .spawner) s.spawner.talk
  worker : Converses l .worker (a.rest .worker) s.worker.talk

/-- Both programs have something left to do and neither can go on. -/
def Pair.Deadlocked (bound : Nat) (s : Pair ρ σ) : Prop :=
  (∀ r, s.spawner.talk ≠ .finished r) ∧ (∀ r, s.worker.talk ≠ .finished r) ∧
    ∀ e s', ¬ Pair.Step bound s e s'

namespace Mirrors

variable {s s' : Pair ρ σ}

theorem step {e : Exchange} (hm : Mirrors l c s a) (h : Pair.Step bound s (p, e) s') :
    ∃ a', Moves c p a a' ∧ Mirrors l c s' a' := by
  cases h with
  | spawner h =>
    obtain ⟨a', next, hw, hconv, hother⟩ := h.moves hm.waits hm.spawner
    exact ⟨a', next, hw, hconv, hother.symm ▸ hm.worker⟩
  | worker h =>
    obtain ⟨a', next, hw, hconv, hother⟩ := h.moves hm.waits hm.worker
    exact ⟨a', next, hw, hother.symm ▸ hm.spawner, hconv⟩

theorem move (bound : Nat) (hm : Mirrors l c s a) (next : Moves c p a a') :
    ∃ e s', Pair.Step bound s (p, e) s' ∧ Mirrors l c s' a' := by
  cases p with
  | spawner =>
    obtain ⟨e, hub', act', h, hw, hconv, hother⟩ := exists_advance hm.spawner hm.waits next
    exact ⟨e, _, .spawner h, hw, hconv, hother.symm ▸ hm.worker⟩
  | worker =>
    obtain ⟨e, hub', act', h, hw, hconv, hother⟩ := exists_advance hm.worker hm.waits next
    exact ⟨e, _, .worker h, hw, hother.symm ▸ hm.spawner, hconv⟩

theorem run {h : List (Party × Exchange)} (hm : Mirrors l c s a) (r : Pair.Run bound s h s') :
    ∃ a', Reaches c a a' ∧ Mirrors l c s' a' := by
  induction r with
  | start => exact ⟨a, .start, hm⟩
  | step _ next ih =>
    obtain ⟨a₁, r₁, hm₁⟩ := ih
    obtain ⟨a₂, next₂, hm₂⟩ := hm₁.step next
    exact ⟨a₂, r₁.move next₂, hm₂⟩

theorem reach (bound : Nat) (hm : Mirrors l c s a) (r : Reaches c a a') :
    ∃ h s', Pair.Run bound s h s' ∧ Mirrors l c s' a' := by
  induction r with
  | start => exact ⟨[], s, .start, hm⟩
  | move _ next ih =>
    obtain ⟨h, s₁, r₁, hm₁⟩ := ih
    obtain ⟨e, s₂, next₂, hm₂⟩ := hm₁.move bound next
    exact ⟨_, s₂, r₁.step next₂, hm₂⟩

theorem deadlocked_iff (hm : Mirrors l c s a) : s.Deadlocked bound ↔ Stuck c a := by
  constructor
  · rintro ⟨hspawner, hworker, hno⟩ p
    refine ⟨fun hnil => ?_, fun a' next => ?_⟩
    · cases p with
      | spawner =>
        obtain ⟨r, hr⟩ := hm.spawner.finished_iff.2 hnil
        exact hspawner r hr
      | worker =>
        obtain ⟨r, hr⟩ := hm.worker.finished_iff.2 hnil
        exact hworker r hr
    · obtain ⟨e, s', next, -⟩ := hm.move bound next
      exact hno _ s' next
  · intro hstuck
    refine ⟨fun r hr => ?_, fun r hr => ?_, fun ⟨p, e⟩ s' h => ?_⟩
    · exact (hstuck .spawner).1 (hm.spawner.finished_iff.1 ⟨r, hr⟩)
    · exact (hstuck .worker).1 (hm.worker.finished_iff.1 ⟨r, hr⟩)
    · obtain ⟨a', next, -⟩ := hm.step h
      exact (hstuck p).2 a' next

end Mirrors

/-- Two programs in conversation may come to where neither can go on exactly if the sides may get
stuck. -/
theorem deadlocks_iff_jams {s : Pair ρ σ} (hm : Mirrors l c s a) :
    (∃ h s', Pair.Run bound s h s' ∧ s'.Deadlocked bound) ↔ Jams c a := by
  constructor
  · rintro ⟨h, s', r, hdead⟩
    obtain ⟨a', r', hm'⟩ := hm.run r
    exact ⟨a', r', hm'.deadlocked_iff.1 hdead⟩
  · rintro ⟨a', r', hstuck⟩
    obtain ⟨h, s', r, hm'⟩ := hm.reach bound r'
    exact ⟨h, s', r, hm'.deadlocked_iff.2 hstuck⟩

/-- Where the operations of two programs begin. -/
def bothBegin (mine its : List MessageOp) : Party → List MessageOp
  | .spawner => mine
  | .worker => its

/-- A spawner with a handle of its worker and the worker, on an open link that nothing was posted
on. -/
structure Acquainted (l : LinkRef) (capacity : Nat) (handle : Value) (hub : Hub) (m m' : Machine) :
    Prop where
  link : hub.link? l = some (.open capacity)
  spawner : taskLink? handle m = some l
  worker : m'.link = some l

/-- The two at the start of a conversation. -/
def conversation (hub : Hub) (handle : Value) (m m' : Machine) (mine its : List MessageOp) :
    Pair (Ending Unit) (Ending Unit) where
  hub := hub
  spawner := ⟨mainId, converseWith handle mine m, none⟩
  worker := ⟨mainId + 1, converseBack its m', none⟩

variable {capacity : Nat} {handle : Value} {m m' : Machine}

theorem Acquainted.mirrors (h : Acquainted l capacity handle hub m m') (mine its : List MessageOp) :
    Mirrors l (max capacity 1) (conversation hub handle m m' mine its)
      (.start (bothBegin mine its)) where
  waits := ⟨_, h.link, fun p => by cases p <;> exact ⟨rfl, rfl, rfl⟩⟩
  spawner := (linked_spawner handle).converses mine h.spawner
  worker := linked_worker.converses its h.worker

/-- Whatever a spawner and its worker post and poll on their link: they can take turns so that both
have something left to do and neither can go on exactly if one of them crosses the other. -/
theorem deadlock_iff_crosses (h : Acquainted l capacity handle hub m m')
    (mine its : List MessageOp) :
    (∃ past s, Pair.Run bound (conversation hub handle m m' mine its) past s ∧
      s.Deadlocked bound) ↔
    Crosses (max capacity 1) mine its ∨ Crosses (max capacity 1) its mine := by
  rw [deadlocks_iff_jams (h.mirrors mine its), jams_start_iff]
  constructor
  · rintro ⟨p, hp⟩
    cases p with
    | spawner => exact .inr hp
    | worker => exact .inl hp
  · rintro (hp | hp)
    · exact ⟨.worker, hp⟩
    · exact ⟨.spawner, hp⟩

/-- A hub with one link, which has room for so many messages in both directions. -/
def linking (capacity : Nat) : Hub := { Hub.empty true with links := #[.open capacity] }

theorem acquainted_linking (capacity : Nat) :
    Acquainted ⟨0⟩ capacity onlyTask (linking capacity) (spawning ⟨0⟩) (working ⟨0⟩) where
  link := rfl
  spawner := taskLink?_spawning ⟨0⟩
  worker := rfl

/-- With room for two messages, three posts on each side can block each other if both poll later,
and cannot if both poll before the third. -/
theorem three_posts_each :
    (∃ past s, Pair.Run 0 (conversation (linking 2) onlyTask (spawning ⟨0⟩) (working ⟨0⟩)
      [.post .nil, .post .nil, .post .nil, .poll]
      [.post .nil, .post .nil, .post .nil, .poll]) past s ∧ s.Deadlocked 0) ∧
    ¬ ∃ past s, Pair.Run 0 (conversation (linking 2) onlyTask (spawning ⟨0⟩) (working ⟨0⟩)
      [.post .nil, .post .nil, .poll, .post .nil]
      [.post .nil, .post .nil, .poll, .post .nil]) past s ∧ s.Deadlocked 0 := by
  rw [deadlock_iff_crosses (acquainted_linking 2), deadlock_iff_crosses (acquainted_linking 2)]
  decide

/-- With room for one message, two posts on both sides can block each other. -/
theorem two_posts_each_block :
    ∃ past s, Pair.Run 0 (conversation (linking 1) onlyTask (spawning ⟨0⟩) (working ⟨0⟩)
      [.post .nil, .post .nil] [.post .nil, .post .nil]) past s ∧ s.Deadlocked 0 := by
  rw [deadlocks_iff_jams ((acquainted_linking 1).mirrors _ _)]
  exact Crosses.jams (p := .spawner) (by decide)

end Hub

end ScriptEngine
