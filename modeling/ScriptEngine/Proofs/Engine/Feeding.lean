import ScriptEngine.Proofs.Engine.Buffering
import ScriptEngine.Proofs.Machine.Quiet

/-!
# Lines and texts

A session that is fed a text with line breaks does what it does when it is fed the lines one by one,
as long as it asks for more after each of them but the last. Asking for more has no other effect
than to keep the text, and no text is kept otherwise.
-/
namespace ScriptEngine

namespace Text

variable {before after cs : List Char}

theorem trim_append (hbefore : ∀ c ∈ before, isBlank c = true)
    (hafter : ∀ c ∈ after, isBlank c = true) (hcs : ∀ c ∈ cs, isBlank c = false) :
    trim (before ++ (cs ++ after)) = cs := by
  have hstart : trimStart (before ++ (cs ++ after)) = trimStart (cs ++ after) :=
    List.dropWhile_append_of_pos hbefore
  have hend : trimEnd (cs ++ after) = cs := by
    have hafter' : ∀ c ∈ after.reverse, isBlank c = true := by simpa using hafter
    have hcs' : cs.reverse.dropWhile isBlank = cs.reverse :=
      List.dropWhile_eq_self_iff.2 fun h => by
        simpa using hcs _ (List.mem_reverse.1 (List.getElem_mem h))
    rw [trimEnd, List.reverse_append, List.dropWhile_append_of_pos hafter', hcs',
      List.reverse_reverse]
  rw [trim, hstart]
  cases cs with
  | nil =>
    have hnil : trimStart after = [] := List.dropWhile_eq_nil_iff.2 hafter
    rw [List.nil_append, hnil]
    rfl
  | cons c cs =>
    have hfirst : trimStart ((c :: cs) ++ after) = (c :: cs) ++ after := by
      have hc : isBlank c = false := hcs c (List.mem_cons_self ..)
      rw [trimStart, List.cons_append, List.dropWhile_cons_of_neg (by simp [hc])]
    rw [hfirst, hend]

/-- If a text with a line break trims to a word, what comes before the line break trims to that word
or to nothing. -/
theorem trim_of_break {front back word : List Char} (h : trim (front ++ '\n' :: back) = word)
    (hword : ∀ c ∈ word, isBlank c = false) : trim front = word ∨ trim front = [] := by
  obtain ⟨before, after, hsplit, hbefore, hafter⟩ := exists_of_trim (front ++ '\n' :: back)
  rw [h] at hsplit
  obtain ⟨rest, rfl, -⟩ | ⟨rest, rfl, hrest⟩ := List.append_eq_append_iff.1 hsplit
  · -- All of the front is blank.
    have hfront : ∀ c ∈ front, isBlank c = true := fun c hc =>
      hbefore c (List.mem_append_left rest hc)
    have htrim : trim (front ++ ([] ++ [])) = [] :=
      trim_append hfront (List.forall_mem_nil _) (List.forall_mem_nil _)
    exact .inr (by simpa using htrim)
  · obtain ⟨blank, rfl, hafter'⟩ | ⟨more, hmore, hbreak⟩ := List.append_eq_append_iff.1 hrest
    · have hblank : ∀ c ∈ blank, isBlank c = true := fun c hc =>
        hafter c (hafter' ▸ List.mem_append_left _ hc)
      exact .inl (trim_append hbefore hblank hword)
    · cases more with
      | nil =>
        obtain rfl : word = rest := hmore.trans (List.append_nil rest)
        exact .inl (by simpa using trim_append hbefore (List.forall_mem_nil _) hword)
      | cons c more =>
        obtain ⟨rfl, -⟩ := List.cons.inj hbreak
        exact absurd (hword '\n' (by simp [hmore])) (by decide)

end Text

namespace Repl

/-! What a line is read as -/

theorem reads_of_incomplete {r next : Repl} {line : String} (h : r.read line = .incomplete next) :
    r.Reads line := by
  intro hpending
  simp only [read, hpending] at h
  constructor
  · intro hquit
    simp [hquit] at h
  · intro hblank
    simp [hblank] at h

theorem reads_of_pending {r : Repl} (h : r.isPending = true) (line : String) : r.Reads line :=
  fun hfresh => absurd (h.symm.trans hfresh) nofun

theorem isPending_of_incomplete {r next : Repl} {line : String}
    (h : r.read line = .incomplete next) : next.isPending = true := by
  simp [isPending, pending_of_incomplete h]

theorem read_congr {r r' : Repl} {line line' : String} (h : r.Reads line) (h' : r'.Reads line')
    (htext : r.pending ++ line ++ "\n" = r'.pending ++ line' ++ "\n") :
    r.read line = r'.read line' := by
  simp only [read, h.guards.1, h.guards.2, h'.guards.1, h'.guards.2, htext]

theorem quit_unblank : ∀ c ∈ ".quit".toList, Text.isBlank c = false := by
  have hall : ".quit".toList.all (fun c => !Text.isBlank c) = true := rfl
  simpa using hall

/-- What follows a line that is not enough is read as if it had come together with that line. -/
theorem read_break {r next : Repl} {line : String} (h : r.read line = .incomplete next)
    (text : String) : r.read (line ++ "\n" ++ text) = next.read text := by
  have hline := reads_of_incomplete h
  have hboth : r.Reads (line ++ "\n" ++ text) := by
    intro hfresh
    obtain ⟨hquit, hblank⟩ := hline hfresh
    have hchars : (line ++ "\n" ++ text).toList = line.toList ++ '\n' :: text.toList := by simp
    rw [hchars]
    constructor
    · intro htrim
      exact (Text.trim_of_break htrim quit_unblank).elim hquit hblank
    · intro htrim
      exact (Text.trim_of_break htrim nofun).elim hblank hblank
  refine read_congr hboth (reads_of_pending (isPending_of_incomplete h) text) ?_
  rw [pending_of_incomplete h]
  simp only [String.append_assoc]

/-! What feeding a line comes to -/

theorem feed_incomplete {r next : Repl} {line : String} (h : r.read line = .incomplete next)
    (n : Nat) : feed n r line = pure (.ok .needMore, next) := by
  simp only [feed, h]

/-- A session that has text pending, or gets a text that is no command, does what the text says. -/
theorem feed_congr {r r' : Repl} {line line' : String} (h : r.read line = r'.read line')
    (hquit : r.read line ≠ .quit) (hblank : r.read line ≠ .blank) (n : Nat) :
    feed n r line = feed n r' line' := by
  cases hread : r.read line with
  | quit => exact absurd hread hquit
  | blank => exact absurd hread hblank
  | _ =>
    have hread' := h.symm.trans hread
    simp only [feed, hread, hread']

theorem fresh_of_command {r : Repl} {line : String}
    (h : r.read line = .quit ∨ r.read line = .blank) : r.isPending = false := by
  by_contra hpending
  have hreads := reads_of_pending (eq_true_of_ne_false hpending) line
  simp only [read, hreads.guards.1, hreads.guards.2, Bool.false_eq_true, if_false] at h
  cases hparse : Grammar.parse (r.pending ++ line ++ "\n") with
  | ok program => simp [hparse] at h
  | error e => cases e <;> simp [hparse] at h

theorem settled_returns {α : Type} {x : Eval α} {m : Machine} {log : List Exchange}
    {e : Ending (Except Failure α)} (h : (settled x m).Run log e) :
    e = .exhausted ∨ ∃ outcome m', e = .value outcome m' := by
  obtain ⟨first, e₁, last, rfl, hfirst, hlast⟩ := Eval.run_bind.1 h
  obtain ⟨e₀, -, rfl⟩ := Eval.run_attempt.1 hfirst
  cases e₀ with
  | exhausted =>
    cases hlast
    exact .inl rfl
  | value a m' =>
    cases hlast
    exact .inr ⟨_, _, rfl⟩
  | stopped s m' =>
    cases hlast
    exact .inr ⟨_, _, rfl⟩

/-- All that can become of a line. -/
theorem feed_cases {n : Nat} {r : Repl} {line : String} {m : Machine} {log : List Exchange}
    {e : Ending (Except Failure LineOutcome × Repl)} (h : (feed n r line m).Run log e) :
    (∃ next, r.read line = .incomplete next ∧ log = [] ∧ e = .value (.ok .needMore, next) m) ∨
    e = .exhausted ∨
    ∃ answer r' m', e = .value (answer, r') m' ∧ answer ≠ .ok .needMore ∧ r'.isPending = false := by
  cases hread : r.read line with
  | quit =>
    simp only [feed, hread] at h
    cases h
    exact .inr (.inr ⟨_, _, _, rfl, nofun, fresh_of_command (.inl hread)⟩)
  | blank =>
    simp only [feed, hread] at h
    cases h
    exact .inr (.inr ⟨_, _, _, rfl, nofun, fresh_of_command (.inr hread)⟩)
  | incomplete next =>
    rw [feed_incomplete hread] at h
    cases h
    exact .inl ⟨next, rfl, rfl, rfl⟩
  | invalid error =>
    simp only [feed, hread] at h
    obtain ⟨first, e₁, last, rfl, hfirst, hlast⟩ := Eval.run_bind.1 h
    obtain ⟨-, rfl⟩ := Eval.report_run.1 hfirst
    cases hlast
    exact .inr (.inr ⟨_, _, _, rfl, nofun, rfl⟩)
  | complete program =>
    simp only [feed, hread] at h
    obtain ⟨first, e₁, last, rfl, hfirst, hlast⟩ := Eval.run_bind.1 h
    obtain rfl | ⟨outcome, m', rfl⟩ := settled_returns hfirst
    · cases hlast
      exact .inr (.inl rfl)
    · cases outcome with
      | ok =>
        cases hlast
        exact .inr (.inr ⟨_, _, _, rfl, nofun, rfl⟩)
      | error f =>
        cases hlast
        exact .inr (.inr ⟨_, _, _, rfl, nofun, rfl⟩)

/-- Takes lines one by one. -/
def feedAll (n : Nat) : List String → Repl → Eval (List (Except Failure LineOutcome) × Repl)
  | [], r => return ([], r)
  | line :: rest, r => do
    let (answer, r) ← feed n r line
    let (answers, r) ← feedAll n rest r
    return (answer :: answers, r)

theorem feedAll_cons (n : Nat) (line : String) (rest : List String) (r : Repl) :
    feedAll n (line :: rest) r = (do
      let x ← feed n r line
      let y ← feedAll n rest x.2
      return (x.1 :: y.1, y.2)) := rfl

/-- After a line that is not enough the session goes on with the others. -/
theorem feedAll_incomplete {r next : Repl} {line : String} (h : r.read line = .incomplete next)
    (n : Nat) (rest : List String) :
    feedAll n (line :: rest) r = (do
      let y ← feedAll n rest next
      return (.ok .needMore :: y.1, y.2)) := by
  rw [feedAll_cons, feed_incomplete h]
  rfl

/-- A line is answered, unless the bound is used up, and text is pending then if the answer says
so. -/
theorem feed_pending {n : Nat} {r : Repl} {line : String} {m : Machine} {log : List Exchange}
    {e : Ending (Except Failure LineOutcome × Repl)} (h : (feed n r line m).Run log e) :
    e = .exhausted ∨ ∃ answer r' m', e = .value (answer, r') m' ∧
      (r'.isPending = true ↔ answer = .ok .needMore) := by
  obtain ⟨next, hread, -, rfl⟩ | rfl | ⟨answer, r', m', rfl, hanswer, hpending⟩ := feed_cases h
  · exact .inr ⟨_, _, _, rfl, iff_of_true (isPending_of_incomplete hread) rfl⟩
  · exact .inl rfl
  · exact .inr ⟨_, _, _, rfl, by simp [hpending, hanswer]⟩

/-- The last answer of a session tells whether text is pending then. -/
theorem feedAll_pending {n : Nat} {lines : List String} {line : String} {r : Repl} {m : Machine}
    {log : List Exchange} {e : Ending (List (Except Failure LineOutcome) × Repl)}
    (h : (feedAll n (lines ++ [line]) r m).Run log e) :
    e = .exhausted ∨ ∃ answers answer r' m', e = .value (answers ++ [answer], r') m' ∧
      answers.length = lines.length ∧ (r'.isPending = true ↔ answer = .ok .needMore) := by
  induction lines generalizing r m log e with
  | nil =>
    rw [List.nil_append, feedAll_cons] at h
    obtain ⟨_, e₁, _, rfl, hfeed, hrest⟩ := Eval.run_bind.1 h
    obtain rfl | ⟨answer, r', m', rfl, hpending⟩ := feed_pending hfeed
    · cases hrest
      exact .inl rfl
    · cases hrest
      exact .inr ⟨[], answer, r', m', rfl, rfl, hpending⟩
  | cons first lines ih =>
    rw [List.cons_append, feedAll_cons] at h
    obtain ⟨_, e₁, _, rfl, hfeed, hrest⟩ := Eval.run_bind.1 h
    obtain rfl | ⟨answer₁, r₁, m₁, rfl, -⟩ := feed_pending hfeed
    · cases hrest
      exact .inl rfl
    · obtain ⟨_, e₂, _, rfl, hlines, hend⟩ := Eval.run_bind.1 hrest
      obtain rfl | ⟨answers, answer, r', m', rfl, hlength, hpending⟩ := ih hlines
      · cases hend
        exact .inl rfl
      · cases hend
        exact .inr ⟨answer₁ :: answers, answer, r', m', rfl, by simp [hlength], hpending⟩

/-- Answers that ask for more. -/
def asking (k : Nat) : List (Except Failure LineOutcome) := List.replicate k (.ok .needMore)

/-- A session can come to be asked for more after the last of these lines. -/
def AsksAfter (n : Nat) (lines : List String) (r : Repl) (m : Machine) : Prop :=
  ∃ log answers r' m', (feedAll n lines r m).Run log (.value (answers ++ asking 1, r') m')

theorem AsksAfter.incomplete {n : Nat} {line : String} {r : Repl} {m : Machine}
    (h : AsksAfter n [line] r m) : ∃ next, r.read line = .incomplete next := by
  obtain ⟨log, answers, r', m', hrun⟩ := h
  rw [feedAll_cons] at hrun
  obtain ⟨_, e₁, _, rfl, hfeed, hrest⟩ := Eval.run_bind.1 hrun
  obtain ⟨next, hread, -, rfl⟩ | rfl | ⟨answer, r₁, m₁, rfl, hanswer, -⟩ := feed_cases hfeed
  · exact ⟨next, hread⟩
  · cases hrest
  · generalize hall : answers ++ asking 1 = all at hrest
    cases hrest
    have hlast := congrArg List.getLast? hall
    simp [asking] at hlast
    exact absurd hlast.symm hanswer

/-- The session is asked for more by the lines that are left, too. -/
theorem AsksAfter.tail {n : Nat} {line : String} {rest : List String} {r next : Repl} {m : Machine}
    (h : AsksAfter n (line :: rest) r m) (hread : r.read line = .incomplete next)
    (hrest : rest ≠ []) : AsksAfter n rest next m := by
  obtain ⟨log, answers, r', m', hrun⟩ := h
  rw [feedAll_incomplete hread] at hrun
  obtain ⟨log₁, e₁, _, rfl, hlines, hend⟩ := Eval.run_bind.1 hrun
  generalize hall : answers ++ asking 1 = all at hend
  obtain ⟨front, last, rfl⟩ : ∃ front last, rest = front ++ [last] :=
    ⟨_, _, (List.dropLast_concat_getLast hrest).symm⟩
  obtain rfl | ⟨answers₁, answer, r₁, m₁, rfl, -, -⟩ := feedAll_pending hlines
  · cases hend
  · cases hend
    have hlast : answer = .ok .needMore := by
      have := congrArg List.getLast? hall
      simp [asking, List.getLast?_cons] at this
      exact this.symm
    subst hlast
    exact ⟨log₁, answers₁, r₁, _, hlines⟩

theorem feedAll_eq_feed (n : Nat) {lines : List String} {r : Repl} {m : Machine}
    (hlines : lines ≠ [])
    (hasks : ∀ front back, lines = front ++ back → front ≠ [] → back ≠ [] → AsksAfter n front r m) :
    feedAll n lines r m = (do
      let x ← feed n r ("\n".intercalate lines)
      return (asking (lines.length - 1) ++ [x.1], x.2)) m := by
  induction lines generalizing r with
  | nil => exact absurd rfl hlines
  | cons line rest ih =>
    cases rest with
    | nil =>
      rw [String.intercalate_singleton]
      rfl
    | cons line' rest =>
      obtain ⟨next, hread⟩ :=
        (hasks [line] (line' :: rest) rfl (List.cons_ne_nil _ _) (List.cons_ne_nil _ _)).incomplete
      have hrest := ih (r := next) (List.cons_ne_nil _ _) fun front back hsplit hfront hback =>
        (hasks (line :: front) back (by rw [hsplit]; rfl) (List.cons_ne_nil _ _) hback).tail hread
          hfront
      -- What is pending now is no command, so the rest is read as if it had come with this line.
      have htext := read_break hread ("\n".intercalate (line' :: rest))
      have hcommand : ¬ (next.read ("\n".intercalate (line' :: rest)) = .quit ∨
          next.read ("\n".intercalate (line' :: rest)) = .blank) := fun h =>
        absurd ((isPending_of_incomplete hread).symm.trans (fresh_of_command h)) nofun
      have hfeed :=
        feed_congr htext.symm (fun h => hcommand (.inl h)) (fun h => hcommand (.inr h)) n
      rw [feedAll_incomplete hread, String.intercalate_cons_cons, ← hfeed]
      change Eval.bind _ _ m = Eval.bind _ _ m
      rw [Eval.bind_apply, Eval.bind_apply, hrest]
      change (Eval.bind _ _ m).bind _ = _
      rw [Eval.bind_apply, Dialogue.bind_assoc]
      refine congrArg (Dialogue.bind _) (funext fun e => ?_)
      cases e <;> rfl

/-- For every session, fresh or not, on every machine: once a line was taken, text is pending
exactly if the answer asked for more, whatever else the answer is. A line that is not enough has no
effect on the machine and says nothing to the host. Lines of which all but the last are not enough
do together what the text that they make does in one go, with the same answer in the end. -/
theorem buffering_transparent (n : Nat) (r : Repl) (m : Machine) :
    (∀ lines line log e, (feedAll n (lines ++ [line]) r m).Run log e →
      e = .exhausted ∨ ∃ answers answer r' m', e = .value (answers ++ [answer], r') m' ∧
        answers.length = lines.length ∧ (r'.isPending = true ↔ answer = .ok .needMore)) ∧
    (∀ line log r' m', (feed n r line m).Run log (.value (.ok .needMore, r') m') →
      log = [] ∧ m' = m) ∧
    ∀ lines, lines ≠ [] →
      (∀ front back, lines = front ++ back → front ≠ [] → back ≠ [] → AsksAfter n front r m) →
      feedAll n lines r m = (do
        let x ← feed n r ("\n".intercalate lines)
        return (asking (lines.length - 1) ++ [x.1], x.2)) m := by
  refine ⟨fun lines line log e => feedAll_pending, fun line log r' m' hrun => ?_,
    fun lines => feedAll_eq_feed n⟩
  obtain ⟨next, -, hlog, hvalue⟩ | ⟨⟨⟩⟩ | ⟨answer, _, _, hvalue, hanswer, -⟩ := feed_cases hrun
  · obtain ⟨-, hm⟩ := Ending.value.inj hvalue
    exact ⟨hlog, hm⟩
  · obtain ⟨hpair, -⟩ := Ending.value.inj hvalue
    exact absurd (Prod.mk.inj hpair).1.symm hanswer

theorem openBlock_asks (n : Nat) (m : Machine) : AsksAfter n ["\x7b"] empty m := by
  have hread : empty.read "\x7b" = .incomplete ⟨"\x7b\n"⟩ :=
    read_of_end (fun _ => ⟨by decide, by decide⟩) parse_openBlock
  have hrun : (feedAll n ["\x7b"] empty m).Run [] (.value (asking 1, ⟨"\x7b\n"⟩) m) := by
    rw [feedAll_incomplete hread]
    exact .finished _
  exact ⟨[], [], _, m, hrun⟩

/-- A block in two lines is the block with a line break in it. -/
theorem block_in_two_lines :
    AsksAfter 1 ["\x7b"] empty (Machine.bare .default) ∧
    feedAll 1 ["\x7b", "\x7d"] empty (Machine.bare .default) = (do
      let x ← feed 1 empty "\x7b\n\x7d"
      return (asking 1 ++ [x.1], x.2)) (Machine.bare .default) := by
  have hopen := openBlock_asks 1 (Machine.bare .default)
  refine ⟨hopen, (buffering_transparent 1 empty (Machine.bare .default)).2.2 ["\x7b", "\x7d"]
    (List.cons_ne_nil _ _) fun front back hsplit hfront hback => ?_⟩
  obtain ⟨line, front, rfl⟩ := List.exists_cons_of_ne_nil hfront
  obtain ⟨rfl, hrest⟩ := List.cons.inj hsplit
  obtain ⟨rfl, -⟩ | ⟨front, rfl, hnil⟩ := List.cons_eq_append_iff.1 hrest
  · exact hopen
  · exact absurd (List.append_eq_nil_iff.1 hnil.symm).2 hback

end Repl

end ScriptEngine
