import ScriptEngine.Proofs.Host.Exchange
import ScriptEngine.Proofs.Library.Serving

/-!
# Mail and connections

What the hub's answers do to the mail of a program and to connections: mail is taken as a whole, new
mail of a program that is a request comes over a new connection, and what is written to a connection
stays there.
-/
namespace ScriptEngine
open Desk

/-- A response as it goes over the wire. -/
def Reply.text (r : Reply) : String := Http.response r.status r.body

namespace Hub

variable {ρ : Type} {hub hub' : Hub} {bound id : Nat}

/-- What came back over a connection. -/
def response? (hub : Hub) (c : ConnectionRef) : Option String :=
  hub.connections[c.index]?.bind Connection.response

/-- The connections whose requests are in the mail of a program. -/
def mailed (hub : Hub) (id : Nat) : List ConnectionRef :=
  (hub.takeMail id).1.filterMap Arrival.connection?

theorem mailed_deliver (hub : Hub) (id owner : Nat) (a : Arrival) :
    (hub.deliver owner a).mailed id =
      hub.mailed id ++ if owner = id then a.connection?.toList else [] := by
  by_cases howner : owner = id
  · cases ha : a.connection? <;> simp [mailed, takeMail, deliver, howner, ha]
  · simp [mailed, takeMail, deliver, howner]

@[simp]
theorem mailed_reply (hub : Hub) (id : Nat) (c : ConnectionRef) (status : Nat) (body : String) :
    (hub.reply c status body).mailed id = hub.mailed id := by
  unfold reply
  split
  · rfl
  · dsimp only
    split
    · rw [mailed_deliver]
      simp [Arrival.connection?, mailed, takeMail]
    · rfl

@[simp]
theorem size_reply (hub : Hub) (c : ConnectionRef) (status : Nat) (body : String) :
    (hub.reply c status body).connections.size = hub.connections.size := by
  unfold reply
  split
  · rfl
  · dsimp only
    split <;> simp [deliver]

theorem response?_reply (hub : Hub) (c c' : ConnectionRef) (status : Nat) (body : String) :
    (hub.reply c status body).response? c' =
      if c = c' ∧ c.index < hub.connections.size then some (Http.response status body)
      else hub.response? c' := by
  obtain ⟨i⟩ := c
  obtain ⟨j⟩ := c'
  unfold reply
  split
  next hnone =>
    have hge : ¬ i < hub.connections.size := by simpa using hnone
    simp [hge]
  next connection hsome =>
    have hlt : i < hub.connections.size := (Array.getElem?_eq_some_iff.1 hsome).1
    have hmodify : ((hub.connections.modify i fun x =>
        { x with response := some (Http.response status body) })[j]?.bind Connection.response) =
        if i = j then some (Http.response status body)
        else hub.connections[j]?.bind Connection.response := by
      rw [Array.getElem?_modify]
      by_cases hij : i = j
      · subst hij
        simp [hlt]
      · simp [hij]
    dsimp only
    split <;> simpa [response?, deliver, hlt] using hmodify

/-- What an answered request does to the mail of a program and to the connections: what was in the
mail has arrived or is still there, and what is added comes over a new connection. -/
structure Traffic (id : Nat) (hub : Hub) (e : Exchange) (hub' : Hub) : Prop where
  mail : ∃ new, e.arrivals ++ hub'.mailed id = hub.mailed id ++ new ∧ new.Nodup ∧
    ∀ c ∈ new, hub.connections.size ≤ c.index ∧ c.index < hub'.connections.size ∧
      hub'.response? c = none
  size : hub.connections.size ≤ hub'.connections.size
  responses : ∀ c, c.index < hub.connections.size →
    hub'.response? c = ((e.reply?.filter (·.connection = c)).map Reply.text).or (hub.response? c)

/-- Requests that have to do with neither. -/
theorem Traffic.quiet {e : Exchange} (harrivals : e.arrivals = []) (hreply : e.reply? = none)
    (hmail : hub'.mail = hub.mail) (hconnections : hub'.connections = hub.connections) :
    Traffic id hub e hub' where
  mail := ⟨[], by simp [harrivals, mailed, takeMail, hmail]⟩
  size := by rw [hconnections]
  responses c _ := by simp [hreply, response?, hconnections]

theorem traffic_takeMail (hub : Hub) (id : Nat) :
    Traffic id hub ⟨.arrivals, (hub.takeMail id).1⟩ (hub.takeMail id).2 where
  mail := by
    have hrest : (hub.takeMail id).2.mailed id = [] := by simp [mailed, takeMail]
    exact ⟨[], by rw [hrest]; rfl, List.nodup_nil, List.forall_mem_nil _⟩
  size := Nat.le_refl _
  responses _ _ := rfl

theorem traffic_reply (hub : Hub) (id : Nat) (c : ConnectionRef) (status : Nat) (body : String) :
    Traffic id hub ⟨.reply c status body, ()⟩ (hub.reply c status body) where
  mail := ⟨[], by simp [Exchange.arrivals]⟩
  size := (size_reply ..).ge
  responses c' hc' := by
    by_cases hc : c = c'
    · subst hc
      simp [response?_reply, hc', Exchange.reply?, Option.filter, Reply.text]
    · simp [response?_reply, hc, Exchange.reply?, Option.filter]

theorem traffic_deliver {e : Exchange} (harrivals : e.arrivals = []) (hreply : e.reply? = none)
    (hub : Hub) (owner : Nat) {a : Arrival} (ha : a.connection? = none) :
    Traffic id hub e (hub.deliver owner a) where
  mail := ⟨[], by simp [mailed_deliver, ha, harrivals]⟩
  size := Nat.le_refl _
  responses _ _ := by simp [hreply, response?, deliver]

theorem response?_newConnection (hub : Hub) (client : Client) {c : ConnectionRef}
    (hc : c.index < hub.connections.size) :
    (hub.newConnection client).2.response? c = hub.response? c := by
  simp [response?, newConnection, Array.getElem?_push_lt, hc]

/-- A request is posted over a new connection. -/
theorem traffic_posted {e : Exchange} (harrivals : e.arrivals = [])
    (hreply : e.reply? = none) (hub : Hub) (client : Client) (owner : Nat) (l : ListenerRef)
    (request : Http.Request) :
    Traffic id hub e ((hub.newConnection client).2.deliver owner
      (.request l request (hub.newConnection client).1)) where
  mail := by
    have hmailed : (hub.newConnection client).2.mailed id = hub.mailed id := rfl
    refine ⟨if owner = id then [(hub.newConnection client).1] else [], ?_, ?_, ?_⟩
    · rw [mailed_deliver, hmailed, harrivals]
      rfl
    · split <;> simp
    · intro c hc
      obtain rfl : c = ⟨hub.connections.size⟩ := by
        split at hc
        · exact List.mem_singleton.1 hc
        · cases hc
      simp [newConnection, deliver, response?]
  size := by simp [newConnection, deliver]
  responses c hc := by
    rw [hreply]
    exact response?_newConnection hub client hc

/-- A request is answered over its new connection at once. -/
theorem traffic_turnedAway {e : Exchange} (harrivals : e.arrivals = []) (hreply : e.reply? = none)
    (hub : Hub) (client : Client) (status : Nat) (body : String) :
    Traffic id hub e ((hub.newConnection client).2.reply (hub.newConnection client).1 status body)
    where
  mail := by
    refine ⟨[], ?_, List.nodup_nil, List.forall_mem_nil _⟩
    rw [mailed_reply, harrivals, List.append_nil]
    rfl
  size := by simp [newConnection]
  responses c hc := by
    have hne : (hub.newConnection client).1 ≠ c := by
      rintro rfl
      exact Nat.lt_irrefl _ hc
    rw [response?_reply, if_neg fun h => hne h.1, response?_newConnection hub client hc, hreply]
    rfl

theorem answer?_traffic {time : Nat} {p : Activity ρ} {q : Request} {a : q.Answer}
    (h : hub.answer? bound time p q = some (a, hub')) : Traffic p.id hub ⟨q, a⟩ hub' := by
  cases q with
  | outer => cases h
  | sleep | rest =>
    dsimp only [answer?] at h
    split at h
    · cases h
      exact .quiet rfl rfl rfl rfl
    · cases h
  | startWorker | stopListening =>
    cases h
    exact .quiet rfl rfl rfl rfl
  | push l d message =>
    change hub.push l d message = _ at h
    unfold push at h
    split at h
    · cases h
      exact .quiet rfl rfl rfl rfl
    · split at h
      all_goals cases h
      all_goals exact .quiet rfl rfl rfl rfl
  | pop l d =>
    change hub.pop l d = _ at h
    unfold pop at h
    split at h
    · cases h
      exact .quiet rfl rfl rfl rfl
    · split at h
      all_goals cases h
      all_goals exact .quiet rfl rfl rfl rfl
  | drain l d =>
    obtain rfl : (hub.drain l d).2 = hub' := congrArg Prod.snd (Option.some.inj h)
    unfold drain
    split <;> exact .quiet rfl rfl rfl rfl
  | closeLink l =>
    cases h
    unfold closeLink
    split <;> exact .quiet rfl rfl rfl rfl
  | closeOutbound l =>
    cases h
    unfold closeOutbound
    split <;> exact .quiet rfl rfl rfl rfl
  | listen port =>
    obtain rfl : (hub.listen p.id port).2 = hub' := congrArg Prod.snd (Option.some.inj h)
    unfold listen
    dsimp only
    split <;> split <;> exact .quiet rfl rfl rfl rfl
  | awaitReply c =>
    dsimp only [answer?] at h
    split at h
    · cases h
      exact .quiet rfl rfl rfl rfl
    · cases h
  | reply c status body =>
    cases h
    exact traffic_reply hub p.id c status body
  | arrivals =>
    cases h
    exact traffic_takeMail hub p.id
  | post e =>
    cases h
    exact traffic_deliver rfl rfl hub mainId rfl
  | fetch ticket url =>
    cases h
    unfold fetch
    split
    · exact traffic_deliver rfl rfl hub p.id rfl
    · exact traffic_posted rfl rfl hub _ _ _ _
  | connect port bytes =>
    obtain rfl : (hub.connect port bytes).2 = hub' := congrArg Prod.snd (Option.some.inj h)
    unfold connect
    dsimp only
    split
    · exact .quiet rfl rfl rfl rfl
    · split
      · exact traffic_turnedAway rfl rfl hub _ _ _
      · exact traffic_turnedAway rfl rfl hub _ _ _
      · exact traffic_posted rfl rfl hub _ _ _ _

theorem fallAsleep_id (time : Nat) (p : Activity ρ) (q : Request) :
    (fallAsleep time p q).id = p.id := by
  unfold fallAsleep
  split
  · split <;> rfl
  · rfl

theorem Advance.traffic {p p' : Activity ρ} {e : Exchange} (h : Advance bound hub p e hub' p') :
    p'.id = p.id ∧ Traffic p.id hub e hub' := by
  cases h with
  | answered time _ h =>
    rw [← fallAsleep_id time p]
    exact ⟨rfl, answer?_traffic h⟩
  | outer => exact ⟨rfl, .quiet rfl rfl rfl rfl⟩

theorem Advance.run {p p' : Activity ρ} {e : Exchange} {log : List Exchange} {r : ρ}
    (h : Advance bound hub p e hub' p') (hrun : p'.talk.Run log r) : p.talk.Run (e :: log) r := by
  cases h with
  | answered _ htalk | outer htalk =>
    rw [htalk]
    exact .asking _ hrun

/-- A program of which a run is known goes on along it. -/
theorem advance_of_run {p : Activity ρ} {e : Exchange} {rest : List Exchange} {r : ρ}
    (hrun : p.talk.Run (e :: rest) r)
    (h : (∃ q, e.1 = .outer q) ∧ hub' = hub ∨
      ∃ time, hub.answer? bound time (fallAsleep time p e.1) e.1 = some (e.2, hub')) :
    ∃ p', Advance bound hub p e hub' p' ∧ p'.id = p.id ∧ p'.talk.Run rest r := by
  obtain ⟨q, a⟩ := e
  obtain ⟨next, htalk, hnext⟩ : ∃ next, p.talk = .asking q next ∧ (next a).Run rest r := by
    cases htalk : p.talk with
    | finished =>
      rw [htalk] at hrun
      cases hrun
    | asking =>
      rw [htalk] at hrun
      cases hrun with
      | asking _ hrun => exact ⟨_, rfl, hrun⟩
  rcases h with ⟨⟨q, rfl⟩, rfl⟩ | ⟨time, h⟩
  · exact ⟨_, .outer htalk a, rfl, hnext⟩
  · exact ⟨_, .answered time htalk h, fallAsleep_id time p q, hnext⟩

theorem listener?_open {port owner : Nat} {l : ListenerRef}
    (h : hub.listener? port = some (l, owner)) :
    ∃ p, hub.ports[l.index]? = some p ∧ p.isOpen = true ∧ p.owner = owner := by
  unfold listener? at h
  split at h
  · cases h
  next i hi =>
    obtain ⟨hlt, hp, -⟩ := Array.findIdx?_eq_some_iff_getElem.1 hi
    rw [Array.getElem?_eq_getElem hlt] at h
    cases h
    exact ⟨_, Array.getElem?_eq_getElem hlt, (Bool.and_eq_true_iff.1 hp).1, rfl⟩

/-- A visitor that can be understood and finds a listener. -/
theorem connect_read {port owner : Nat} {bytes : List UInt8} {l : ListenerRef}
    {request : Http.Request} (hnetwork : hub.isolated = false)
    (hread : Http.readRequest bytes = .ok request)
    (hlistener : hub.listener? port = some (l, owner)) :
    hub.connect port bytes = (some (hub.newConnection .visitor).1,
      (hub.newConnection .visitor).2.deliver owner
        (.request l request (hub.newConnection .visitor).1)) := by
  have hsame : (hub.newConnection .visitor).2.listener? port = some (l, owner) := hlistener
  rw [connect, if_neg (by simp [hnetwork])]
  dsimp only
  rw [hread, hsame]

end Hub

end ScriptEngine
