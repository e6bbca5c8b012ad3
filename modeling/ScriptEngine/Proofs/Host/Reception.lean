import ScriptEngine.Proofs.Engine.Arrivals
import ScriptEngine.Proofs.Host.Traffic

/-!
# The threads of the listeners

Every listener has a thread that accepts a connection, reads the request and posts it to the
program. Meanwhile the program takes up what was posted, closes its servers, ends early or has
nothing left to do, and at last it is dropped. What the program has not come to take up by then gets
no response.
-/
namespace ScriptEngine
open Desk

/-- How far a listener's thread is with a connection. -/
inductive Hand.Stage where
  | accepted (bytes : List UInt8)
  | read (request : Http.Request)

/-- What the thread of a listener has in hand. -/
structure Hand where
  listener : ListenerRef
  connection : ConnectionRef
  stage : Hand.Stage

/-- The connection whose request has been read. -/
def Hand.read? : Hand → Option ConnectionRef
  | ⟨_, _, .accepted _⟩ => none
  | ⟨_, c, .read _⟩ => some c

@[simp]
theorem Hand.filterMap_accepted (l : ListenerRef) (c : ConnectionRef) (bytes : List UInt8)
    (hands : List Hand) :
    (⟨l, c, .accepted bytes⟩ :: hands).filterMap Hand.read? = hands.filterMap Hand.read? := rfl

@[simp]
theorem Hand.filterMap_read (l : ListenerRef) (c : ConnectionRef) (request : Http.Request)
    (hands : List Hand) :
    (⟨l, c, .read request⟩ :: hands).filterMap Hand.read? = c :: hands.filterMap Hand.read? := rfl

/-- A program and the threads of its listeners. -/
structure Reception (ρ : Type) where
  hub : Hub
  program : Activity ρ
  hands : List Hand

namespace Reception

/-- What happens at a reception. -/
inductive Event where
  | accepted (c : ConnectionRef)
  | rejected (c : ConnectionRef)
  | read (c : ConnectionRef)
  | posted (c : ConnectionRef)
  | said (e : Exchange)

def Event.said? : Event → Option Exchange
  | said e => some e
  | accepted _ | rejected _ | read _ | posted _ => none

def Event.read? : Event → Option ConnectionRef
  | read c => some c
  | accepted _ | rejected _ | posted _ | said _ => none

def log (h : List Event) : List Exchange := h.filterMap Event.said?

def readIn (h : List Event) : List ConnectionRef := h.filterMap Event.read?

variable {ρ : Type} {bound : Nat} {s₀ s s' : Reception ρ} {h : List Event} {x : Event}

/-- One step of the program or of a thread. -/
inductive Step (bound : Nat) : Reception ρ → Event → Reception ρ → Prop
  | accept {s : Reception ρ} {l : ListenerRef} {p : OpenPort} (bytes : List UInt8)
      (hport : s.hub.ports[l.index]? = some p) (hopen : p.isOpen = true)
      (howner : p.owner = s.program.id) (hfree : ∀ hand ∈ s.hands, hand.listener ≠ l) :
      Step bound s (.accepted (s.hub.newConnection .visitor).1)
        { s with
          hub := (s.hub.newConnection .visitor).2
          hands := ⟨l, (s.hub.newConnection .visitor).1, .accepted bytes⟩ :: s.hands }
  | reject {hub : Hub} {program : Activity ρ} {before after : List Hand} {l : ListenerRef}
      {c : ConnectionRef} {bytes : List UInt8} {e : Http.RequestError}
      (hread : Http.readRequest bytes = .error e) :
      Step bound ⟨hub, program, before ++ ⟨l, c, .accepted bytes⟩ :: after⟩ (.rejected c)
        ⟨hub.reply c 400 (Http.reason 400), program, before ++ after⟩
  | read {hub : Hub} {program : Activity ρ} {before after : List Hand} {l : ListenerRef}
      {c : ConnectionRef} {bytes : List UInt8} {request : Http.Request}
      (hread : Http.readRequest bytes = .ok request) :
      Step bound ⟨hub, program, before ++ ⟨l, c, .accepted bytes⟩ :: after⟩ (.read c)
        ⟨hub, program, before ++ ⟨l, c, .read request⟩ :: after⟩
  | post {hub : Hub} {program : Activity ρ} {before after : List Hand} {l : ListenerRef}
      {c : ConnectionRef} {request : Http.Request} :
      Step bound ⟨hub, program, before ++ ⟨l, c, .read request⟩ :: after⟩ (.posted c)
        ⟨hub.deliver program.id (.request l request c), program, before ++ after⟩
  | advance {hub hub' : Hub} {p p' : Activity ρ} {hands : List Hand} {e : Exchange}
      (h : Hub.Advance bound hub p e hub' p') :
      Step bound ⟨hub, p, hands⟩ (.said e) ⟨hub', p', hands⟩

/-- Steps in a row, with what happened in order. -/
inductive Run (bound : Nat) (s₀ : Reception ρ) : List Event → Reception ρ → Prop
  | start : Run bound s₀ [] s₀
  | step {h : List Event} {s s' : Reception ρ} {x : Event} (r : Run bound s₀ h s)
      (next : Step bound s x s') : Run bound s₀ (h ++ [x]) s'

/-- A program of which a run is known goes on along it. -/
theorem Run.goesOn {hub hub' : Hub} {p : Activity ρ} {hands : List Hand} {e : Exchange}
    {rest : List Exchange} {result : ρ} (r : Run bound s₀ h ⟨hub, p, hands⟩)
    (hrun : p.talk.Run (e :: rest) result)
    (hanswer : (∃ q, e.1 = .outer q) ∧ hub' = hub ∨
      ∃ time, hub.answer? bound time (Hub.fallAsleep time p e.1) e.1 = some (e.2, hub')) :
    ∃ p', Run bound s₀ (h ++ [.said e]) ⟨hub', p', hands⟩ ∧ p'.id = p.id ∧
      p'.talk.Run rest result := by
  obtain ⟨p', hadvance, hid, hrest⟩ := Hub.advance_of_run hrun hanswer
  exact ⟨p', r.step (.advance hadvance), hid, hrest⟩

/-- A visitor that finds a listener and can be understood: its thread goes through with it. -/
theorem Run.visit {hub hub' : Hub} {p : Activity ρ} {hands : List Hand} {port : Nat}
    {bytes : List UInt8} {l : ListenerRef} {request : Http.Request} {c : ConnectionRef}
    (r : Run bound s₀ h ⟨hub, p, hands⟩) (hnetwork : hub.isolated = false)
    (hread : Http.readRequest bytes = .ok request)
    (hlistener : hub.listener? port = some (l, p.id)) (hfree : ∀ hand ∈ hands, hand.listener ≠ l)
    (hconnect : hub.connect port bytes = (some c, hub')) :
    Run bound s₀ (h ++ [.accepted c] ++ [.read c] ++ [.posted c]) ⟨hub', p, hands⟩ := by
  obtain ⟨o, hport, hopen, howner⟩ := Hub.listener?_open hlistener
  rw [Hub.connect_read hnetwork hread hlistener] at hconnect
  obtain ⟨hc, rfl⟩ := Prod.mk.inj hconnect
  obtain rfl := Option.some.inj hc
  have hreading {hub : Hub} {c : ConnectionRef} :
      Step bound ⟨hub, p, [] ++ ⟨l, c, .accepted bytes⟩ :: hands⟩ (.read c) _ := .read hread
  exact ((r.step (.accept bytes hport hopen howner hfree)).step hreading).step .post

/-- The connections that were accepted and have not been turned away: those in the hands of threads,
those in the mail, and those that have arrived. -/
def pool (s : Reception ρ) (log : List Exchange) : List ConnectionRef :=
  s.hands.map Hand.connection ++ (s.hub.mailed s.program.id ++ arrivalsIn log)

/-- The connections whose requests were read and have not arrived. -/
def underway (s : Reception ρ) : List ConnectionRef :=
  s.hands.filterMap Hand.read? ++ s.hub.mailed s.program.id

def Event.reply? (x : Event) : Option Reply := x.said?.bind Exchange.reply?

theorem log_append (h : List Event) (x : Event) : log (h ++ [x]) = log h ++ x.said?.toList := by
  cases hx : x.said? <;> simp [log, hx]

theorem readIn_append (h : List Event) (x : Event) :
    readIn (h ++ [x]) = readIn h ++ x.read?.toList := by
  cases hx : x.read? <;> simp [readIn, hx]

theorem repliesIn_log_append (h : List Event) (x : Event) :
    repliesIn (log (h ++ [x])) = repliesIn (log h) ++ x.reply?.toList := by
  rw [log_append, repliesIn_append, Event.reply?]
  cases x.said? with
  | none => rfl
  | some e => cases he : e.reply? <;> simp [repliesIn, he]

theorem Step.size_le (next : Step bound s x s') :
    s.hub.connections.size ≤ s'.hub.connections.size := by
  cases next with
  | accept => simp [Hub.newConnection]
  | reject => rw [Hub.size_reply]
  | read | post => exact Nat.le_refl _
  | advance h => exact h.traffic.2.size

/-- Connections pass from hand to hand; what comes in is new. -/
theorem Step.pool (next : Step bound s x s') (log : List Exchange) : ∃ new,
    (s'.pool (log ++ x.said?.toList)).Subperm (new ++ s.pool log) ∧ new.Nodup ∧
      ∀ c ∈ new, s.hub.connections.size ≤ c.index ∧ c.index < s'.hub.connections.size ∧
        s'.hub.response? c = none := by
  cases next with
  | accept bytes =>
    refine ⟨[(s.hub.newConnection .visitor).1], ?_, List.nodup_singleton _, ?_⟩
    · rw [Event.said?, Option.toList_none, List.append_nil]
      exact List.Subperm.refl _
    · simp [Hub.newConnection, Hub.response?]
  | @reject hub program before after l c bytes =>
    refine ⟨[], ?_, List.nodup_nil, List.forall_mem_nil _⟩
    have hhands : (before ++ after).Sublist (before ++ ⟨l, c, .accepted bytes⟩ :: after) :=
      (List.sublist_cons_self _ _).append_left _
    simp only [Reception.pool, Event.said?, Option.toList_none, List.append_nil, Hub.mailed_reply]
    exact ((hhands.map _).append (List.Sublist.refl _)).subperm
  | read =>
    refine ⟨[], ?_, List.nodup_nil, List.forall_mem_nil _⟩
    simp [Reception.pool, Event.said?, List.Subperm.refl]
  | post =>
    refine ⟨[], List.Perm.subperm (List.perm_iff_count.2 fun a => ?_), List.nodup_nil,
      List.forall_mem_nil _⟩
    simp [Reception.pool, Event.said?, Hub.mailed_deliver, Arrival.connection?, List.count_cons]
    omega
  | advance h =>
    obtain ⟨hid, htraffic⟩ := h.traffic
    obtain ⟨new, hnew, hnodup, hfresh⟩ := htraffic.mail
    refine ⟨new, List.Perm.subperm (List.perm_iff_count.2 fun a => ?_), hnodup, hfresh⟩
    have hcount := congrArg (List.count a) hnew
    simp [Reception.pool, Event.said?, hid] at hcount ⊢
    omega

/-- Requests that were read go on until they arrive. -/
theorem Step.underway (next : Step bound s x s') (log : List Exchange) :
    x.read?.toList ++ (s.underway ++ arrivalsIn log) ⊆
      s'.underway ++ arrivalsIn (log ++ x.said?.toList) := by
  cases next with
  | accept =>
    rw [Event.said?, Option.toList_none, List.append_nil]
    exact List.Subset.refl _
  | reject =>
    rw [Event.said?, Option.toList_none, List.append_nil]
    simp [Reception.underway, Event.read?]
  | read =>
    rw [Event.said?, Option.toList_none, List.append_nil]
    refine List.Perm.subset (List.perm_iff_count.2 fun a => ?_)
    simp [Reception.underway, Event.read?, List.count_cons]
    omega
  | post =>
    rw [Event.said?, Option.toList_none, List.append_nil]
    refine List.Perm.subset (List.perm_iff_count.2 fun a => ?_)
    simp [Reception.underway, Event.read?, Hub.mailed_deliver, Arrival.connection?,
      List.count_cons]
    omega
  | @advance hub hub' p p' hands e h =>
    obtain ⟨hid, htraffic⟩ := h.traffic
    obtain ⟨new, hnew, -⟩ := htraffic.mail
    have hmail : hub.mailed p.id ⊆ e.arrivals ++ hub'.mailed p.id :=
      hnew ▸ List.subset_append_left _ _
    intro c hc
    simp only [Reception.underway, Event.said?, Event.read?, Option.toList_none, List.nil_append,
      Option.toList_some, arrivalsIn_append, arrivalsIn_singleton, hid, List.mem_append] at hc ⊢
    rcases hc with (hc | hc) | hc
    · exact .inl (.inl hc)
    · exact (List.mem_append.1 (hmail hc)).elim (fun hc => .inr (.inr hc)) fun hc => .inl (.inr hc)
    · exact .inr (.inl hc)

/-- What is written to a connection: what the program says, and nothing else to those that were not
turned away. -/
theorem Step.response? {log : List Exchange} (next : Step bound s x s')
    (hdistinct : (s.pool log).Nodup) {c : ConnectionRef} (hc : c ∈ s'.pool (log ++ x.said?.toList))
    (hlt : c.index < s.hub.connections.size) : s'.hub.response? c =
      ((x.reply?.filter (·.connection = c)).map Reply.text).or (s.hub.response? c) := by
  cases next with
  | accept => exact Hub.response?_newConnection s.hub .visitor hlt
  | @reject hub program before after l c' =>
    have hne : c' ≠ c := by
      rintro rfl
      simp only [Reception.pool, Event.said?, Option.toList_none, List.append_nil, Hub.mailed_reply,
        List.map_append, List.map_cons, List.append_assoc, List.cons_append] at hc hdistinct
      exact (List.nodup_cons.1 (List.perm_middle.nodup_iff.1 hdistinct)).1 hc
    rw [Hub.response?_reply, if_neg fun h => hne h.1]
    rfl
  | read | post => rfl
  | advance h => exact h.traffic.2.responses c hlt

theorem Step.talk (next : Step bound s x s') {rest : List Exchange} {r : ρ}
    (hrun : s'.program.talk.Run rest r) : s.program.talk.Run (x.said?.toList ++ rest) r := by
  cases next with
  | accept | reject | read | post => exact hrun
  | advance h => exact h.run hrun

/-- A response stays. -/
theorem Step.response_stays (next : Step bound s x s') {c : ConnectionRef}
    (h : (s.hub.response? c).isSome) : (s'.hub.response? c).isSome := by
  have hlt : c.index < s.hub.connections.size := by
    by_contra hge
    simp [Hub.response?, hge] at h
  cases next with
  | accept => rwa [Hub.response?_newConnection s.hub .visitor hlt]
  | reject =>
    rw [Hub.response?_reply]
    split
    · rfl
    · exact h
  | read | post => exact h
  | advance h' =>
    rw [h'.traffic.2.responses c hlt]
    simp [h]

/-- What is true at every moment of a run. -/
structure Kept (s₀ : Reception ρ) (h : List Event) (s : Reception ρ) : Prop where
  talk {rest : List Exchange} {r : ρ} : s.program.talk.Run rest r →
    s₀.program.talk.Run (log h ++ rest) r
  distinct : (s.pool (log h)).Nodup
  known : ∀ c ∈ s.pool (log h), c.index < s.hub.connections.size
  read : readIn h ⊆ s.underway ++ arrivalsIn (log h)
  /-- Responses have been asked for. -/
  written {c : ConnectionRef} {text : String} : c ∈ s.pool (log h) →
    s.hub.response? c = some text → ∃ r ∈ repliesIn (log h), r.connection = c ∧ r.text = text
  /-- Responses that are asked for when the request has arrived are written. -/
  answered {first last : List Exchange} {e : Exchange} {r : Reply} :
    log h = first ++ e :: last → e.reply? = some r → r.connection ∈ arrivalsIn first →
      (s.hub.response? r.connection).isSome

theorem Kept.start (hhands : s.hands = []) (hmail : s.hub.mailed s.program.id = []) :
    Kept s [] s where
  talk hrun := hrun
  distinct := by simp [pool, hhands, hmail, log, arrivalsIn]
  known := by simp [pool, hhands, hmail, log, arrivalsIn]
  read := List.nil_subset _
  written hc := by simp [pool, hhands, hmail, log, arrivalsIn] at hc
  answered heq := by simp [log] at heq

theorem Kept.step (k : Kept s₀ h s) (next : Step bound s x s') : Kept s₀ (h ++ [x]) s' := by
  obtain ⟨new, hsub, hnodup, hnew⟩ := next.pool (log h)
  rw [← log_append] at hsub
  have hold {c : ConnectionRef} (hc : c ∈ s'.pool (log (h ++ [x]))) :
      c ∈ new ∨ c ∈ s.pool (log h) := List.mem_append.1 (hsub.subset hc)
  constructor
  case talk =>
    intro rest r hrun
    rw [log_append, List.append_assoc]
    exact k.talk (next.talk hrun)
  case distinct =>
    have hdisjoint : List.Disjoint new (s.pool (log h)) := fun c hc hc' =>
      Nat.not_lt.2 (hnew c hc).1 (k.known c hc')
    obtain ⟨l, hperm, hl⟩ := hsub
    exact hperm.nodup_iff.1 ((hnodup.append k.distinct hdisjoint).sublist hl)
  case known =>
    intro c hc
    rcases hold hc with hc | hc
    · exact (hnew c hc).2.1
    · exact (k.known c hc).trans_le next.size_le
  case read =>
    rw [readIn_append, log_append]
    intro c hc
    rcases List.mem_append.1 hc with hc | hc
    · exact next.underway (log h) (List.mem_append_right _ (k.read hc))
    · exact next.underway (log h) (List.mem_append_left _ hc)
  case written =>
    intro c text hc htext
    rw [repliesIn_log_append]
    rcases hold hc with hc' | hc'
    · exact absurd htext (by simp [(hnew c hc').2.2])
    · rw [log_append] at hc
      rw [next.response? k.distinct hc (k.known c hc'), Option.or_eq_some_iff] at htext
      rcases htext with htext | ⟨-, htext⟩
      · obtain ⟨r, hr, rfl⟩ := Option.map_eq_some_iff.1 htext
        obtain ⟨hr, hconnection⟩ := Option.filter_eq_some_iff.1 hr
        exact ⟨r, List.mem_append_right _ (by simp [hr]), by simpa using hconnection, rfl⟩
      · obtain ⟨r, hr, hrest⟩ := k.written hc' htext
        exact ⟨r, List.mem_append_left _ hr, hrest⟩
  case answered =>
    intro first last e r heq hr hc
    rw [log_append] at heq
    cases hx : x.said? with
    | none =>
      rw [hx, Option.toList_none, List.append_nil] at heq
      exact next.response_stays (k.answered heq hr hc)
    | some e' =>
      rw [hx, Option.toList_some] at heq
      rcases List.eq_nil_or_concat last with rfl | ⟨last, e'', rfl⟩
      · -- The response is asked for in this step, after the request has arrived.
        obtain ⟨hfirst, he⟩ := List.append_inj' heq rfl
        obtain rfl := List.singleton_inj.1 he
        subst hfirst
        have hpool : r.connection ∈ s.pool (log h) := by simp [pool, hc]
        have hpool' : r.connection ∈ s'.pool (log h ++ x.said?.toList) := by simp [pool, hc]
        have hreply : x.reply? = some r := by simp [Event.reply?, hx, hr]
        rw [next.response? k.distinct hpool' (k.known _ hpool), hreply]
        simp [Option.filter]
      · rw [List.concat_eq_append, ← List.cons_append, ← List.append_assoc] at heq
        exact next.response_stays (k.answered (List.append_inj' heq rfl).1 hr hc)

theorem Run.kept (r : Run bound s₀ h s) (hhands : s₀.hands = [])
    (hmail : s₀.hub.mailed s₀.program.id = []) : Kept s₀ h s := by
  induction r with
  | start => exact .start hhands hmail
  | step _ next ih => exact ih.step next

/-- A program on a hub, with nothing in the hands of threads. -/
def opening (hub : Hub) (talk : Talk ρ) : Reception ρ := ⟨hub, ⟨mainId, talk, none⟩, []⟩

/-- The connections whose requests were read but not taken up by a program that ended with this
machine: a thread has the request in hand, or it is in the mail, or in the queue of the loop. -/
def overlooked (s : Reception ρ) (m : Machine) : List ConnectionRef := s.underway ++ m.desk.queue

theorem underway_subset (s : Reception ρ) :
    s.underway ⊆ s.hands.map Hand.connection ++ s.hub.mailed s.program.id := by
  intro c hc
  rcases List.mem_append.1 hc with hc | hc
  · obtain ⟨⟨l, c', stage⟩, hhand, hread⟩ := List.mem_filterMap.1 hc
    cases stage with
    | accepted => cases hread
    | read =>
      cases hread
      exact List.mem_append_left _ (List.mem_map_of_mem hhand)
  · exact List.mem_append_right _ hc

/-- Requests that were overlooked are not among those taken up. -/
theorem Kept.apart (k : Kept s₀ h s) {m : Machine} {first : List ConnectionRef}
    (harrivals : arrivalsIn (log h) = first ++ m.desk.queue) :
    first.Nodup ∧ ∀ c ∈ s.overlooked m, c ∈ s.pool (log h) ∧ c ∉ first := by
  have hpool := k.distinct
  simp only [pool, harrivals, ← List.append_assoc] at hpool ⊢
  obtain ⟨hfirst, -, hqueue⟩ := List.nodup_append'.1 hpool
  obtain ⟨-, hnodup, hunderway⟩ := List.nodup_append'.1 hfirst
  refine ⟨hnodup, fun c hc => ?_⟩
  rcases List.mem_append.1 hc with hc | hc
  · have hmem := s.underway_subset hc
    exact ⟨List.mem_append_left _ (List.mem_append_left _ hmem), hunderway hmem⟩
  · exact ⟨List.mem_append_right _ hc, fun hfirst => hqueue (List.mem_append_right _ hfirst) hc⟩

/-- What came back is a response that was asked for when the request had arrived. -/
theorem Kept.response (k : Kept s₀ h s) {reply : Reply} (hreply : reply ∈ repliesIn (log h))
    (horder : ∀ first e last r, log h = first ++ e :: last → e.reply? = some r →
      r.connection ∈ arrivalsIn first) :
    ∃ r ∈ repliesIn (log h), r.connection = reply.connection ∧
      s.hub.response? reply.connection = some r.text := by
  obtain ⟨e, he, hreply⟩ := List.mem_filterMap.1 hreply
  obtain ⟨first, last, hsplit⟩ := List.append_of_mem he
  have harrived := horder first e last reply hsplit hreply
  have hpool : reply.connection ∈ s.pool (log h) := by simp [pool, hsplit, harrived]
  obtain ⟨text, htext⟩ := Option.isSome_iff_exists.1 (k.answered hsplit hreply harrived)
  obtain ⟨r, hr, heq, rfl⟩ := k.written hpool htext
  exact ⟨r, hr, heq, htext⟩

/-- However the threads of the listeners and a program take turns, once the program has been
dropped: a request that was read has got exactly one response from the program, and this is what
came back over its connection, unless it was overlooked; then nothing came back. The responses are
those that the history of the program's desk calls for, and a loop that ends by itself leaves
nothing in the queue. -/
theorem answered_unless_overlooked {n bound : Nat} {errands : List Errand} {m₀ m : Machine}
    {hub : Hub} {h : List Event} {s : Reception (Ending Unit)} (hservers : m₀.servers = .empty)
    (hqueue : m₀.desk.queue = []) (hmail : hub.mailed mainId = [])
    (r : Run bound (opening hub (lifetime n errands m₀)) h s)
    (hend : s.program.talk = .finished (.value () m)) :
    (∃ events, FullAccount (Evaluator.bounded n).call m₀ (log h) events m ∧
      Exact events (repliesIn (log h)) ∧ ∀ c ∈ readIn h,
      (c ∈ s.overlooked m → (∀ reply ∈ repliesIn (log h), reply.connection ≠ c) ∧
        s.hub.response? c = none) ∧
      (c ∉ s.overlooked m → ((repliesIn (log h)).map Reply.connection).count c = 1 ∧
        ∃ reply ∈ repliesIn (log h), reply.connection = c ∧
          s.hub.response? c = some reply.text)) ∧
    ∀ {m₁ m₂ : Machine} {last : List Exchange},
      (runLoop n m₁).Run last (.value () m₂) → m₂.desk.queue = [] := by
  refine ⟨?_, runLoop_stops⟩
  have k := r.kept rfl hmail
  have hrun : (lifetime n errands m₀).Run (log h) (.value () m) := by
    have htalk : s.program.talk.Run [] (.value () m) := hend ▸ .finished _
    exact List.append_nil (log h) ▸ k.talk htalk
  obtain ⟨events, haccount, hexact, harrivals, horder⟩ := lifetime_arrivals hservers hqueue hrun
  obtain ⟨hnodup, hapart⟩ := k.apart harrivals
  have hreplied {c : ConnectionRef} :
      (∃ reply ∈ repliesIn (log h), reply.connection = c) ↔ c ∈ taken events := by
    rw [← hexact.once.mem_iff, List.mem_map]
  refine ⟨events, haccount, hexact, fun c hc => ⟨fun hover => ?_, fun hover => ?_⟩⟩
  · obtain ⟨hpool, hnever⟩ := hapart c hover
    refine ⟨fun reply hreply heq => hnever (hreplied.1 ⟨reply, hreply, heq⟩), ?_⟩
    rw [Option.eq_none_iff_forall_ne_some]
    intro text htext
    obtain ⟨reply, hreply, heq, -⟩ := k.written hpool htext
    exact hnever (hreplied.1 ⟨reply, hreply, heq⟩)
  · have htaken : c ∈ taken events := by
      have hread := k.read hc
      simp only [overlooked, harrivals, List.mem_append] at hread hover
      tauto
    obtain ⟨reply, hreply, rfl⟩ := hreplied.2 htaken
    exact ⟨(hexact.once.count_eq _).trans (List.count_eq_one_of_mem hnodup htaken),
      k.response hreply horder⟩

/-- A handler that ends the program. -/
def quitter : Value := .native 0 (.system .exit) none

def quitting : List Errand := [⟨.listen 80 quitter, rfl⟩, ⟨.loop, rfl⟩]

/-- The request of both visitors. -/
def greeting : Http.Request := ⟨"GET", "/", ""⟩

def greetingBytes : List UInt8 := [71, 69, 84, 32, 47, 10, 10]

/-- What the program says when two visitors come at once. -/
def quittingLog : List Exchange :=
  [⟨.listen 80, (.ok (⟨0⟩, 80) : Except String (ListenerRef × Nat))⟩, ⟨.outer .now, (0 : Nat)⟩,
   ⟨.arrivals, [.request ⟨0⟩ greeting ⟨0⟩, .request ⟨0⟩ greeting ⟨1⟩]⟩,
   ⟨.reply ⟨0⟩ 500 (Http.reason 500), ()⟩, ⟨.stopListening ⟨0⟩, ()⟩]

theorem quittingLog_run : ∃ m,
    (lifetime 2 quitting (.bare .default)).Run quittingLog (.value () m) ∧ m.desk.queue = [⟨1⟩] :=
  ⟨_, .asking _ (.asking _ (.asking _ (.asking _ (.asking _ (.finished _))))), rfl⟩

/-- The hub while that program listens. -/
def quittingHub (connections : Array Connection) (mail : List (Nat × Arrival)) : Hub :=
  { Hub.empty false with ports := #[⟨80, mainId, true⟩], connections, mail }

theorem quittingHub_listen :
    (Hub.empty false).listen mainId 80 = (.ok (⟨0⟩, 80), quittingHub #[] []) := by
  simp [Hub.listen, Hub.portInUse, Hub.empty, quittingHub]

theorem quittingHub_listener (connections : Array Connection) (mail : List (Nat × Arrival)) :
    (quittingHub connections mail).listener? 80 = some (⟨0⟩, mainId) := by
  simp [Hub.listener?, quittingHub]

theorem greeting_read : Http.readRequest greetingBytes = .ok greeting := rfl

theorem quittingHub_connect (connections : Array Connection) (mail : List (Nat × Arrival)) :
    (quittingHub connections mail).connect 80 greetingBytes = (some ⟨connections.size⟩,
      quittingHub (connections.push ⟨.visitor, none⟩)
        (mail ++ [(mainId, .request ⟨0⟩ greeting ⟨connections.size⟩)])) :=
  Hub.connect_read rfl greeting_read (quittingHub_listener connections mail)

/-- Two visitors come, the request of the first one ends the program, and that of the second one is
left in the queue. -/
theorem quitting_run : ∃ h s m,
    Run 0 (opening (.empty false) (lifetime 2 quitting (.bare .default))) h s ∧
      s.program.talk = .finished (.value () m) ∧ readIn h = [⟨0⟩, ⟨1⟩] ∧ s.overlooked m = [⟨1⟩] ∧
        s.hub.response? ⟨1⟩ = none := by
  obtain ⟨m, hrun, hqueue⟩ := quittingLog_run
  have r₀ : Run 0 (opening (.empty false) (lifetime 2 quitting (.bare .default))) []
      ⟨.empty false, ⟨mainId, lifetime 2 quitting (.bare .default), none⟩, []⟩ := .start
  obtain ⟨p₁, r₁, hid₁, hrun⟩ := r₀.goesOn hrun (.inr ⟨0, congrArg some quittingHub_listen⟩)
  have hlistener := quittingHub_listener
  rw [← show p₁.id = mainId from hid₁] at hlistener
  have hfree {l : ListenerRef} : ∀ hand ∈ ([] : List Hand), hand.listener ≠ l :=
    List.forall_mem_nil _
  have r₂ := r₁.visit rfl greeting_read (hlistener _ _) hfree (quittingHub_connect _ _)
  have r₃ := r₂.visit rfl greeting_read (hlistener _ _) hfree (quittingHub_connect _ _)
  obtain ⟨p₂, r₄, hid₂, hrun⟩ := r₃.goesOn hrun (.inl ⟨⟨_, rfl⟩, rfl⟩)
  have hmail {hub : Hub} : hub.takeMail p₂.id = hub.takeMail mainId := by rw [hid₂.trans hid₁]
  obtain ⟨p₃, r₅, hid₃, hrun⟩ := r₄.goesOn hrun (.inr ⟨0, congrArg some hmail⟩)
  obtain ⟨p₄, r₆, -, hrun⟩ := r₅.goesOn hrun (.inr ⟨0, rfl⟩)
  obtain ⟨p₅, r₇, -, hrun⟩ := r₆.goesOn hrun (.inr ⟨0, rfl⟩)
  refine ⟨_, _, m, r₇, ?_, rfl, ?_, ?_⟩
  · generalize p₅.talk = talk at hrun
    cases hrun
    rfl
  · rw [overlooked, hqueue]
    rfl
  · rfl

/-- So not every request that was read has got a response when the program has been dropped. -/
theorem quitting_leaves_visitor : ∃ h s m,
    Run 0 (opening (.empty false) (lifetime 2 quitting (.bare .default))) h s ∧
      s.program.talk = .finished (.value () m) ∧ ∃ c ∈ readIn h, s.hub.response? c = none := by
  obtain ⟨h, s, m, r, hend, hread, -, hnone⟩ := quitting_run
  exact ⟨h, s, m, r, hend, ⟨1⟩, by simp [hread], hnone⟩

/-- The first of the two visitors gets one response and the second one none. -/
theorem quitting_answers_one : ∃ h, readIn h = [⟨0⟩, ⟨1⟩] ∧
    ((repliesIn (log h)).map Reply.connection).count ⟨0⟩ = 1 ∧
      ∀ reply ∈ repliesIn (log h), reply.connection ≠ ⟨1⟩ := by
  obtain ⟨h, s, m, r, hend, hread, hover, -⟩ := quitting_run
  obtain ⟨⟨events, -, -, hall⟩, -⟩ := answered_unless_overlooked rfl rfl rfl r hend
  refine ⟨h, hread, ?_, ?_⟩
  · exact ((hall ⟨0⟩ (by simp [hread])).2 (by simp [hover])).1
  · exact ((hall ⟨1⟩ (by simp [hread])).1 (by simp [hover])).1

end Reception

end ScriptEngine
