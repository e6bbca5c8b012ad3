import ScriptEngine.Proofs.Host.Exchange
import Mathlib.Logic.Function.Basic

/-!
# When two sides block each other

Two sides send each other messages. A post needs room for its message, of which there is as much for
each side as the other has not yet polled; a poll takes all messages that wait. If both sides are at
a post and neither has room, both are stuck for good. From what the two want to do one can tell
whether the turns can fall that way: one side has to come to a run of posts that is longer than
there is room, with few enough posts before, while the other side still has more posts to do than
there is room.
-/
namespace ScriptEngine

/-- What a side does. -/
inductive MessageOp where
  | post (message : Value)
  | poll

namespace MessageOp

def isPost : MessageOp → Bool
  | post _ => true
  | poll => false

def isPoll (op : MessageOp) : Bool := !op.isPost

end MessageOp

namespace Hub

def Party.other : Party → Party
  | spawner => worker
  | worker => spawner

@[simp]
theorem Party.other_other (p : Party) : p.other.other = p := by cases p <;> rfl

@[simp]
theorem Party.other_ne (p : Party) : p.other ≠ p := by cases p <;> nofun

@[simp]
theorem Party.ne_other (p : Party) : p ≠ p.other := (other_ne p).symm

theorem Party.eq_or (p q : Party) : q = p ∨ q = p.other := by cases p <;> cases q <;> simp [other]

end Hub

namespace Standoff
open Hub

def posts (ops : List MessageOp) : Nat := ops.countP MessageOp.isPost

def polls (ops : List MessageOp) : Nat := ops.countP MessageOp.isPoll

@[simp] theorem posts_append (a b : List MessageOp) : posts (a ++ b) = posts a + posts b :=
  List.countP_append

@[simp] theorem polls_append (a b : List MessageOp) : polls (a ++ b) = polls a + polls b :=
  List.countP_append

@[simp] theorem posts_nil : posts [] = 0 := rfl

@[simp] theorem polls_nil : polls [] = 0 := rfl

@[simp] theorem posts_post (v : Value) (ops : List MessageOp) :
    posts (.post v :: ops) = posts ops + 1 :=
  List.countP_cons_of_pos rfl

@[simp] theorem polls_post (v : Value) (ops : List MessageOp) :
    polls (.post v :: ops) = polls ops :=
  List.countP_cons_of_neg nofun

@[simp] theorem posts_poll (ops : List MessageOp) : posts (.poll :: ops) = posts ops :=
  List.countP_cons_of_neg nofun

@[simp] theorem polls_poll (ops : List MessageOp) : polls (.poll :: ops) = polls ops + 1 :=
  List.countP_cons_of_pos rfl

/-- How many posts come before anything else. -/
def leadingPosts : List MessageOp → Nat
  | .post _ :: ops => leadingPosts ops + 1
  | _ => 0

@[simp] theorem leadingPosts_nil : leadingPosts [] = 0 := rfl

@[simp] theorem leadingPosts_post (v : Value) (ops : List MessageOp) :
    leadingPosts (.post v :: ops) = leadingPosts ops + 1 := rfl

@[simp] theorem leadingPosts_poll (ops : List MessageOp) : leadingPosts (.poll :: ops) = 0 := rfl

theorem leadingPosts_le_posts (ops : List MessageOp) : leadingPosts ops ≤ posts ops := by
  induction ops with
  | nil => exact Nat.le_refl 0
  | cons op ops ih =>
    cases op with
    | post v => simpa using ih
    | poll => exact Nat.zero_le _

theorem leadingPosts_append {run : List MessageOp} (h : ∀ op ∈ run, op.isPost)
    (ops : List MessageOp) : leadingPosts (run ++ ops) = run.length + leadingPosts ops := by
  induction run with
  | nil => simp
  | cons op run ih =>
    obtain ⟨hop, hrun⟩ := List.forall_mem_cons.1 h
    cases op with
    | poll => cases hop
    | post v =>
      rw [List.cons_append, leadingPosts_post, ih hrun, List.length_cons]
      omega

/-- How far the two sides have come: what each has still to do, and how many of its messages wait to
be polled by the other. -/
structure Standing where
  rest : Party → List MessageOp
  sent : Party → Nat

/-- What a side can do, if there is room for so many messages. -/
inductive Moves (c : Nat) (p : Party) (s : Standing) : Standing → Prop
  | post {v : Value} {ops : List MessageOp} (h : s.rest p = .post v :: ops) (room : s.sent p < c) :
      Moves c p s ⟨Function.update s.rest p ops, Function.update s.sent p (s.sent p + 1)⟩
  | poll {ops : List MessageOp} (h : s.rest p = .poll :: ops) :
      Moves c p s ⟨Function.update s.rest p ops, Function.update s.sent p.other 0⟩

/-- What may be reached when the sides move in any order. -/
inductive Reaches (c : Nat) (s₀ : Standing) : Standing → Prop
  | start : Reaches c s₀ s₀
  | move {s s' : Standing} {p : Party} (r : Reaches c s₀ s) (next : Moves c p s s') :
      Reaches c s₀ s'

/-- Both sides have something left to do and neither can move. -/
def Stuck (c : Nat) (s : Standing) : Prop :=
  ∀ p, s.rest p ≠ [] ∧ ∀ s', ¬ Moves c p s s'

/-- Whoever is stuck is about to post and has no room. -/
theorem stuck_iff {c : Nat} {s : Standing} :
    Stuck c s ↔ ∀ p, 0 < leadingPosts (s.rest p) ∧ c ≤ s.sent p := by
  constructor
  · intro h p
    obtain ⟨hrest, hno⟩ := h p
    match hops : s.rest p with
    | [] => exact absurd hops hrest
    | .poll :: ops => exact absurd (.poll hops) (hno _)
    | .post v :: ops =>
      refine ⟨by simp, Nat.le_of_not_lt fun hroom => ?_⟩
      exact hno _ (.post hops hroom)
  · intro h p
    obtain ⟨hposts, hfull⟩ := h p
    refine ⟨fun hrest => by simp [hrest] at hposts, fun s' hs' => ?_⟩
    cases hs' with
    | post _ room => exact Nat.not_lt.2 hfull room
    | poll hops => simp [hops] at hposts

/-- The second side comes to a run of more posts than there is room for, with no more posts before
than the polls in a first part of the other side make room for, while the rest of the other side has
more posts than there is room for. -/
def Crosses (c : Nat) (a b : List MessageOp) : Prop :=
  ∃ i < a.length, ∃ j < b.length, c < posts (a.drop i) ∧
    posts (b.take j) ≤ c * (polls (a.take i) + 1) ∧ c < leadingPosts (b.drop j)

instance (c : Nat) (a b : List MessageOp) : Decidable (Crosses c a b) :=
  inferInstanceAs (Decidable (∃ i < a.length, ∃ j < b.length, _))

theorem Crosses.of_append {c : Nat} {a₁ a₂ b₁ b₂ : List MessageOp} (ha : c < posts a₂)
    (hb : posts b₁ ≤ c * (polls a₁ + 1)) (hrun : c < leadingPosts b₂) :
    Crosses c (a₁ ++ a₂) (b₁ ++ b₂) := by
  have ha₂ : a₂ ≠ [] := fun h => by simp [h] at ha
  have hb₂ : b₂ ≠ [] := fun h => by simp [h] at hrun
  refine ⟨a₁.length, ?_, b₁.length, ?_, ?_⟩
  · simpa [List.length_pos_iff] using ha₂
  · simpa [List.length_pos_iff] using hb₂
  · simpa using ⟨ha, hb, hrun⟩

/-! Who is stuck has crossed -/

/-- What one side has done before the other polled its messages the last time, with the posts that
the other has done since. At the last poll the other had done few enough posts. -/
def Half (c : Nat) (mine its : List MessageOp) (sent run : Nat) : Prop :=
  ∃ before after early late, mine = before ++ after ∧ posts after = sent ∧
    its = early ++ late ∧ (∀ op ∈ late, op.isPost) ∧ late.length = run ∧
    posts early ≤ c * (polls before + 1)

namespace Half

variable {c sent run : Nat} {mine its : List MessageOp}

theorem post_mine (h : Half c mine its sent run) (v : Value) :
    Half c (mine ++ [.post v]) its (sent + 1) run := by
  obtain ⟨before, after, early, late, rfl, hsent, rest⟩ := h
  exact ⟨before, after ++ [.post v], early, late, by simp, by simp [hsent], rest⟩

theorem poll_mine (h : Half c mine its sent run) : Half c (mine ++ [.poll]) its sent run := by
  obtain ⟨before, after, early, late, rfl, hsent, rest⟩ := h
  exact ⟨before, after ++ [.poll], early, late, by simp, by simp [hsent], rest⟩

theorem post_its (h : Half c mine its sent run) (v : Value) :
    Half c mine (its ++ [.post v]) sent (run + 1) := by
  obtain ⟨before, after, early, late, hmine, hsent, rfl, hlate, hrun, hearly⟩ := h
  refine ⟨before, after, early, late ++ [.post v], hmine, hsent, by simp, ?_, by simp [hrun],
    hearly⟩
  intro op hop
  rcases List.mem_append.1 hop with hop | hop
  · exact hlate op hop
  · rw [List.mem_singleton.1 hop]
    rfl

/-- The other side polls. -/
theorem poll_its (h : posts its ≤ c * (polls mine + 1)) : Half c mine (its ++ [.poll]) 0 0 :=
  ⟨mine, [], its ++ [.poll], [], by simp, rfl, by simp, nofun, rfl, by simpa using h⟩

theorem crosses {more its' : List MessageOp} (h : Half c mine its sent run) (hfull : c ≤ sent)
    (hrun : c ≤ run) (hmore : 0 < leadingPosts more) (hits' : 0 < leadingPosts its') :
    Crosses c (mine ++ more) (its ++ its') := by
  obtain ⟨before, after, early, late, rfl, hsent, rfl, hlate, hlength, hearly⟩ := h
  rw [List.append_assoc, List.append_assoc]
  refine .of_append ?_ hearly ?_
  · rw [posts_append]
    have := leadingPosts_le_posts more
    omega
  · rw [leadingPosts_append hlate]
    omega

end Half

/-- What both sides have done, with the posts that each has done since its last poll. One of them
has done as many as the other has yet to get. -/
structure Tally (c : Nat) (ops done : Party → List MessageOp) (run : Party → Nat) (s : Standing) :
    Prop where
  begun : ∀ p, ops p = done p ++ s.rest p
  room : ∀ p, s.sent p ≤ c
  taken : ∀ p, posts (done p) ≤ c * polls (done p.other) + s.sent p
  half : ∀ p, Half c (done p) (done p.other) (s.sent p) (run p.other)
  unpolled : ∃ p, s.sent p ≤ run p

variable {c : Nat} {ops done : Party → List MessageOp} {run : Party → Nat} {s s' : Standing}
  {p : Party}

theorem Tally.post {v : Value} {rest : List MessageOp} (t : Tally c ops done run s)
    (h : s.rest p = .post v :: rest) (room : s.sent p < c) :
    Tally c ops (Function.update done p (done p ++ [.post v]))
      (Function.update run p (run p + 1))
      ⟨Function.update s.rest p rest, Function.update s.sent p (s.sent p + 1)⟩ where
  begun q := by
    rcases p.eq_or q with rfl | rfl
    · simp [t.begun q, h]
    · simp [t.begun p.other]
  room q := by
    rcases p.eq_or q with rfl | rfl
    · simpa using Nat.succ_le_of_lt room
    · simpa using t.room p.other
  taken q := by
    rcases p.eq_or q with rfl | rfl
    · have := t.taken q
      simp
      omega
    · simpa using t.taken p.other
  half q := by
    rcases p.eq_or q with rfl | rfl
    · simpa using (t.half q).post_mine v
    · simpa using (t.half p.other).post_its v
  unpolled := by
    obtain ⟨q, hq⟩ := t.unpolled
    refine ⟨q, ?_⟩
    rcases p.eq_or q with rfl | rfl
    · simpa using hq
    · simpa using hq

theorem Tally.poll {rest : List MessageOp} (t : Tally c ops done run s)
    (h : s.rest p = .poll :: rest) :
    Tally c ops (Function.update done p (done p ++ [.poll])) (Function.update run p 0)
      ⟨Function.update s.rest p rest, Function.update s.sent p.other 0⟩ where
  begun q := by
    rcases p.eq_or q with rfl | rfl
    · simp [t.begun q, h]
    · simp [t.begun p.other]
  room q := by
    rcases p.eq_or q with rfl | rfl
    · simpa using t.room q
    · simp
  taken q := by
    rcases p.eq_or q with rfl | rfl
    · simpa using t.taken q
    · have := t.taken p.other
      have := t.room p.other
      simp [Nat.mul_add] at *
      omega
  half q := by
    rcases p.eq_or q with rfl | rfl
    · simpa using (t.half q).poll_mine
    · have := t.taken p
      have := t.room p
      have hfew : posts (done p) ≤ c * (polls (done p.other) + 1) := by
        rw [Nat.mul_add]
        omega
      simpa using Half.poll_its hfew
  unpolled := ⟨p.other, by simp⟩

theorem Tally.move (t : Tally c ops done run s) (next : Moves c p s s') :
    ∃ done' run', Tally c ops done' run' s' := by
  cases next with
  | post h room => exact ⟨_, _, t.post h room⟩
  | poll h => exact ⟨_, _, t.poll h⟩

/-- Where both sides begin. -/
def Standing.start (ops : Party → List MessageOp) : Standing := ⟨ops, fun _ => 0⟩

theorem Reaches.tally (r : Reaches c (.start ops) s) : ∃ done run, Tally c ops done run s := by
  induction r with
  | start =>
    refine ⟨fun _ => [], fun _ => 0, ⟨fun _ => rfl, fun _ => Nat.zero_le c, by simp, fun p => ?_,
      .spawner, Nat.le_refl 0⟩⟩
    exact ⟨[], [], [], [], rfl, rfl, rfl, nofun, rfl, Nat.zero_le _⟩
  | move _ next ih =>
    obtain ⟨done, run, t⟩ := ih
    exact t.move next

theorem Reaches.crosses (r : Reaches c (.start ops) s) (h : Stuck c s) :
    ∃ p, Crosses c (ops p.other) (ops p) := by
  obtain ⟨done, run, t⟩ := r.tally
  obtain ⟨p, hp⟩ := t.unpolled
  obtain ⟨hmine, hfull⟩ := stuck_iff.1 h p
  obtain ⟨hits, hfull'⟩ := stuck_iff.1 h p.other
  have hhalf : Half c (done p.other) (done p) (s.sent p.other) (run p) := by
    simpa using t.half p.other
  refine ⟨p, ?_⟩
  rw [t.begun p, t.begun p.other]
  exact hhalf.crosses hfull' (hfull.trans hp) hits hmine

/-! Who has crossed can get stuck -/

theorem Reaches.after_move {s₁ : Standing} (next : Moves c p s s₁) (r : Reaches c s₁ s') :
    Reaches c s s' := by
  induction r with
  | start => exact .move .start next
  | move _ next ih => exact ih.move next

/-- The sides may move so that both get stuck. -/
def Jams (c : Nat) (s : Standing) : Prop := ∃ s', Reaches c s s' ∧ Stuck c s'

theorem Jams.of_move (next : Moves c p s s') (h : Jams c s') : Jams c s := by
  obtain ⟨s'', r, hstuck⟩ := h
  exact ⟨s'', r.after_move next, hstuck⟩

theorem exists_post {ops : List MessageOp} (h : 0 < leadingPosts ops) :
    ∃ v rest, ops = .post v :: rest ∧ leadingPosts ops = leadingPosts rest + 1 := by
  match ops, h with
  | .post v :: rest, _ => exact ⟨v, rest, rfl, rfl⟩

/-- One side is at a post and has no room; the other fills up its own. -/
theorem jams_of_full (hmine : 0 < leadingPosts (s.rest p)) (hfull : s.sent p = c)
    (hroom : s.sent p.other ≤ c) (hits : c < s.sent p.other + leadingPosts (s.rest p.other)) :
    Jams c s := by
  generalize hn : c - s.sent p.other = n
  induction n generalizing s with
  | zero =>
    refine ⟨s, .start, stuck_iff.2 fun q => ?_⟩
    rcases p.eq_or q with rfl | rfl
    · exact ⟨hmine, hfull.ge⟩
    · omega
  | succ n ih =>
    have hposts : 0 < leadingPosts (s.rest p.other) := by omega
    obtain ⟨v, rest, hrest, hlead⟩ := exists_post hposts
    refine .of_move (.post hrest (by omega)) (ih ?_ ?_ ?_ ?_ ?_)
    · simpa using hmine
    · simpa using hfull
    · simp
      omega
    · simp
      omega
    · simp
      omega

/-- One side goes on alone until it has no room, while the other is before a long run of posts. -/
theorem jams_of_run (hmine : c < s.sent p + posts (s.rest p)) (hroom : s.sent p ≤ c)
    (hroom' : s.sent p.other ≤ c) (hits : c < leadingPosts (s.rest p.other)) : Jams c s := by
  generalize hops : s.rest p = ops
  induction ops generalizing s with
  | nil =>
    rw [hops, posts_nil] at hmine
    omega
  | cons op ops ih =>
    rw [hops] at hmine
    cases op with
    | poll =>
      refine .of_move (.poll hops) (ih ?_ ?_ ?_ ?_ ?_)
      · simpa using hmine
      · simpa using hroom
      · simp
      · simpa using hits
      · simp
    | post v =>
      by_cases hfull : s.sent p < c
      · refine .of_move (.post hops hfull) (ih ?_ ?_ ?_ ?_ ?_)
        · simp at hmine ⊢
          omega
        · simpa using Nat.succ_le_of_lt hfull
        · simpa using hroom'
        · simpa using hits
        · simp
      · refine jams_of_full (p := p) (by simp [hops]) (by omega) hroom' (by omega)

/-- A list that is empty or ends with a poll. -/
def EndsPolled (ops : List MessageOp) : Prop := ops = [] ∨ ∃ before, ops = before ++ [.poll]

theorem EndsPolled.tail {op : MessageOp} {ops : List MessageOp} (h : EndsPolled (op :: ops)) :
    EndsPolled ops ∧ (ops = [] → op = .poll) := by
  obtain h | ⟨before, h⟩ := h
  · cases h
  · cases before with
    | nil =>
      obtain ⟨rfl, rfl⟩ := List.cons.inj h
      exact ⟨.inl rfl, fun _ => rfl⟩
    | cons _ before =>
      obtain ⟨-, rfl⟩ := List.cons.inj h
      exact ⟨.inr ⟨before, rfl⟩, fun hnil => by simp at hnil⟩

/-- A list begins with one that ends with a poll, if it has polls, and goes on with posts. -/
theorem exists_endsPolled (ops : List MessageOp) :
    ∃ before run, ops = before ++ run ∧ EndsPolled before ∧ ∀ op ∈ run, op.isPost := by
  induction ops using List.reverseRecOn with
  | nil => exact ⟨[], [], rfl, .inl rfl, nofun⟩
  | append_singleton ops op ih =>
    cases op with
    | poll => exact ⟨ops ++ [.poll], [], by simp, .inr ⟨ops, rfl⟩, nofun⟩
    | post v =>
      obtain ⟨before, run, rfl, hends, hrun⟩ := ih
      refine ⟨before, run ++ [.post v], by simp, hends, fun op hop => ?_⟩
      rcases List.mem_append.1 hop with hop | hop
      · exact hrun op hop
      · rw [List.mem_singleton.1 hop]
        rfl

/-- Both sides are on their ways to where the other one is before a run of posts. Its way ends with
a poll, and has no more posts than there will be room for. -/
structure Way (c : Nat) (p : Party) (mine its mine' its' : List MessageOp) (s : Standing) :
    Prop where
  here : s.rest p = mine ++ mine'
  there : s.rest p.other = its ++ its'
  room : ∀ q, s.sent q ≤ c
  polled : its = [] → s.sent p = 0
  ends : EndsPolled its
  few : s.sent p.other + posts its ≤ c * (polls mine + 1)

namespace Way

variable {mine its mine' its' : List MessageOp} {v : Value}

theorem poll_its (w : Way c p mine (.poll :: its) mine' its' s) :
    ∃ s', Moves c p.other s s' ∧ Way c p mine its mine' its' s' := by
  refine ⟨_, .poll w.there, ?_, ?_, fun q => ?_, fun _ => ?_, w.ends.tail.1, ?_⟩
  · simpa using w.here
  · simp
  · rcases p.eq_or q with rfl | rfl
    · simp
    · simpa using w.room p.other
  · simp
  · simpa using w.few

theorem post_its (w : Way c p mine (.post v :: its) mine' its' s) (hroom : s.sent p.other < c) :
    ∃ s', Moves c p.other s s' ∧ Way c p mine its mine' its' s' := by
  refine ⟨_, .post w.there hroom, ?_, ?_, fun q => ?_, fun hnil => ?_, w.ends.tail.1, ?_⟩
  · simpa using w.here
  · simp
  · rcases p.eq_or q with rfl | rfl
    · simpa using w.room q
    · simpa using Nat.succ_le_of_lt hroom
  · exact nomatch w.ends.tail.2 hnil
  · have := w.few
    simp at this ⊢
    omega

theorem poll_mine (w : Way c p (.poll :: mine) (.post v :: its) mine' its' s)
    (hfull : c ≤ s.sent p.other) :
    ∃ s', Moves c p s s' ∧ Way c p mine (.post v :: its) mine' its' s' := by
  refine ⟨_, .poll w.here, ?_, ?_, fun q => ?_, nofun, w.ends, ?_⟩
  · simp
  · simpa using w.there
  · rcases p.eq_or q with rfl | rfl
    · simpa using w.room q
    · simp
  · have := w.few
    simp [Nat.mul_add] at this ⊢
    omega

theorem post_mine {v' : Value} (w : Way c p (.post v' :: mine) (.post v :: its) mine' its' s)
    (hroom : s.sent p < c) :
    ∃ s', Moves c p s s' ∧ Way c p mine (.post v :: its) mine' its' s' := by
  refine ⟨_, .post w.here hroom, ?_, ?_, fun q => ?_, nofun, w.ends, ?_⟩
  · simp
  · simpa using w.there
  · rcases p.eq_or q with rfl | rfl
    · simpa using Nat.succ_le_of_lt hroom
    · simpa using w.room p.other
  · simpa using w.few

/-- On their ways the two may get stuck; else they do so where these end. -/
theorem jams (w : Way c p mine its mine' its' s) (hmore : c < posts mine')
    (hrun : c < leadingPosts its') : Jams c s := by
  generalize hn : mine.length + its.length = n
  induction n using Nat.strongRecOn generalizing s mine its with
  | _ n ih =>
    subst hn
    match mine, its, w with
    | mine, [], w =>
      refine jams_of_run (p := p) ?_ (w.room p) (w.room p.other) (by simpa [w.there] using hrun)
      rw [w.here, posts_append]
      omega
    | mine, .poll :: its, w =>
      obtain ⟨s', next, w'⟩ := w.poll_its
      exact .of_move next (ih _ (by simp) w' rfl)
    | mine, .post v :: its, w =>
      by_cases hroom : s.sent p.other < c
      · obtain ⟨s', next, w'⟩ := w.post_its hroom
        exact .of_move next (ih _ (by simp) w' rfl)
      · have hfull : c ≤ s.sent p.other := Nat.le_of_not_lt hroom
        match mine, w with
        | [], w =>
          -- Without a poll to come, the other side would have more posts than there is room for.
          have := w.few
          simp at this
          omega
        | .poll :: mine, w =>
          obtain ⟨s', next, w'⟩ := w.poll_mine hfull
          exact .of_move next (ih _ (by simp) w' rfl)
        | .post v' :: mine, w =>
          by_cases hroom' : s.sent p < c
          · obtain ⟨s', next, w'⟩ := w.post_mine hroom'
            exact .of_move next (ih _ (by simp) w' rfl)
          · refine ⟨s, .start, stuck_iff.2 fun q => ?_⟩
            rcases p.eq_or q with rfl | rfl
            · exact ⟨by simp [w.here], Nat.le_of_not_lt hroom'⟩
            · exact ⟨by simp [w.there], hfull⟩

end Way

theorem Crosses.jams {p : Party} (h : Crosses c (ops p.other) (ops p)) : Jams c (.start ops) := by
  obtain ⟨i, -, j, -, hmore, hfew, hrun⟩ := h
  obtain ⟨before, run, hj, hends, hposts⟩ := exists_endsPolled ((ops p).take j)
  have w : Way c p.other ((ops p.other).take i) before ((ops p.other).drop i)
      (run ++ (ops p).drop j) (.start ops) := by
    refine ⟨?_, ?_, fun _ => Nat.zero_le c, fun _ => rfl, hends, ?_⟩
    · simp [Standing.start]
    · rw [← List.append_assoc, ← hj]
      simp [Standing.start]
    · rw [hj, posts_append] at hfew
      simp [Standing.start]
      omega
  refine w.jams hmore ?_
  rw [leadingPosts_append hposts]
  omega

/-- Two sides may get stuck if one of them crosses the other, and only then. -/
theorem jams_start_iff {c : Nat} {ops : Party → List MessageOp} :
    Jams c (.start ops) ↔ ∃ p : Party, Crosses c (ops p.other) (ops p) := by
  constructor
  · rintro ⟨s, r, h⟩
    exact r.crosses h
  · rintro ⟨p, h⟩
    exact h.jams

/-- A side that never posts more than there is room for keeps both from getting stuck. -/
theorem not_jams_of_posts_le {c : Nat} {ops : Party → List MessageOp} {p : Party}
    (h : posts (ops p) ≤ c) : ¬ Jams c (.start ops) := by
  rw [jams_start_iff]
  rintro ⟨q, i, -, j, -, hmore, -, hrun⟩
  rcases p.eq_or q with rfl | rfl
  · have hj := leadingPosts_le_posts ((ops q).drop j)
    have hdrop : posts ((ops q).drop j) ≤ posts (ops q) :=
      (List.drop_sublist j _).countP_le
    omega
  · rw [Party.other_other] at hmore
    have hdrop : posts ((ops p).drop i) ≤ posts (ops p) := (List.drop_sublist i _).countP_le
    omega

end Standoff

end ScriptEngine
