import Tidemark.Proofs.Log.Atomic

/-!
# Writes to the log in memory

The log in memory leaves much to its writers: it stores an event in place of another one, and gives
up a position that nobody has reserved. What a writer may expect of a move is that every committed
position was assigned, so that the next one that is handed out is free, and that what is on record
stays (`Faithful`). In any history this is so, from the first move to the last, exactly if each of
them respects what is there (`faithful_iff_respects`): positions that were not assigned are not
given up, and no other event is committed where something is on record.

Where a position above the highest one is given up, a later append hands it out again and replaces
the tombstone (`exists_overwritten`).
-/

namespace Tidemark.MemoryLog

/-! ## Entries at a position -/

/-- The entry on record at a position. -/
def entryAt (log : MemoryLog) (p : Position) : Option Entry := log.events.lookup p

/-- Putting an entry changes what is on record at its position only. -/
theorem lookup_put (p q : Position) (e : Entry) (events : List (Position × Entry)) :
    (put p e events).lookup q = if q = p then some e else events.lookup q := by
  induction events with
  | nil =>
    by_cases hqp : q = p
    · simp [put, hqp]
    · rw [put, List.lookup_cons, beq_false_of_ne hqp, if_neg hqp]
  | cons x rest ih =>
    obtain ⟨r, f⟩ := x
    unfold put
    by_cases hqp : q = p
    · subst hqp
      rw [if_pos rfl] at ih ⊢
      split_ifs with hlt heq
      · simp
      · simp
      · rw [List.lookup_cons, beq_false_of_ne heq]
        exact ih
    · rw [if_neg hqp] at ih ⊢
      split_ifs with hlt heq
      · rw [List.lookup_cons, beq_false_of_ne hqp]
      · subst heq
        rw [List.lookup_cons, List.lookup_cons, beq_false_of_ne hqp]
      · rw [List.lookup_cons, List.lookup_cons, ih]

/-- Something is committed at a position exactly if an entry is on record there. -/
theorem mem_committed_iff {log : MemoryLog} {p : Position} :
    p ∈ log.committed ↔ ∃ e, log.entryAt p = some e := by
  rw [← Option.isSome_iff_exists, entryAt, List.lookup_isSome_iff, committed, List.mem_map]
  exact exists_congr fun x => and_congr_right fun _ => by rw [beq_iff_eq, eq_comm]

/-! ## Moves -/

/-- What is done to a log in memory. The time of a write may be any. -/
inductive Move where
  /-- Something is written as of a time. -/
  | write (w : LogWrite) (time : Timestamp)
  /-- Positions are reserved up to one of them. -/
  | raise (p : Position)

/-- The position that a move hands out, and what becomes of the log. -/
def play (log : MemoryLog) : Move → Option Position × MemoryLog
  | .write w time => (w.handedOut (w.inMemory log time).1, (w.inMemory log time).2)
  | .raise p => (none, log.setHighest p)

/-- A move asks for the next position. -/
def Move.Asks : Move → Prop
  | .write .reserve _ | .write (.append _ _) _ => True
  | _ => False

/-- What a writer may expect of a move. -/
structure Faithful (log : MemoryLog) (m : Move) : Prop where
  /-- Every committed position has been assigned. -/
  assigned : ∀ p ∈ (log.play m).2.committed, p ≤ (log.play m).2.highest
  /-- A position that is handed out is not committed. -/
  fresh : m.Asks → ∃ p, (log.play m).1 = some p ∧ p ∉ log.committed
  /-- What is on record stays. -/
  kept : ∀ p e, log.entryAt p = some e → (log.play m).2.entryAt p = some e

/-- A move respects what is in a log: it asks for a position only while there is another one,
commits no other event where something is on record, and gives up assigned positions only. -/
def Respects (log : MemoryLog) : Move → Prop
  | .write .reserve _ | .write (.append _ _) _ => log.highest < Position.last
  | .write (.commit p eventType data) time =>
    ∀ e, log.entryAt p = some e → e = ⟨eventType, data, time, false⟩
  | .write (.settle p) _ => p ≤ log.highest
  | .write (.persist _ _) _ | .raise _ => True

/-- The log after the first `n` moves of a history that begins with an empty log. -/
def replay (moves : ℕ → Move) : ℕ → MemoryLog
  | 0 => {}
  | n + 1 => ((replay moves n).play (moves n)).2

/-! ## One move -/

variable {log : MemoryLog}

/-- The next position can be reserved unless the highest one is the last. -/
theorem reserve_of_lt (hlow : 0 ≤ log.highest) (h : log.highest < Position.last) :
    log.reserve = .ok (log.highest + 1, { log with highest := log.highest + 1 }) := by
  have hfirst : Position.first ≤ 0 := by decide
  unfold reserve Position.next
  rw [if_pos ⟨by lia, by lia⟩]
  rfl

/-- Nothing can be reserved behind the last position. -/
theorem reserve_of_le (h : Position.last ≤ log.highest) : ∃ cause, log.reserve = .error cause := by
  unfold reserve Position.next
  rw [if_neg fun hfits => by have := hfits.2; lia]
  exact ⟨_, rfl⟩

/-- Nothing is handed out behind the last position. -/
theorem play_of_le {m : Move} (hm : m.Asks) (h : Position.last ≤ log.highest) :
    log.play m = (none, log) := by
  obtain ⟨cause, hreserve⟩ := reserve_of_le h
  cases m with
  | raise p => cases hm
  | write w time =>
    cases w with
    | reserve | append eventType data =>
      simp only [play, LogWrite.inMemory, append, hreserve]
      rfl
    | commit _ _ _ | settle _ | persist _ _ => cases hm

/-- Otherwise the next position is handed out, and all others stay as they are. -/
theorem play_of_lt {m : Move} (hm : m.Asks) (hlow : 0 ≤ log.highest)
    (h : log.highest < Position.last) :
    (log.play m).1 = some (log.highest + 1) ∧ (log.play m).2.highest = log.highest + 1 ∧
      ∀ q, q ≠ log.highest + 1 → (log.play m).2.entryAt q = log.entryAt q := by
  have hreserve := reserve_of_lt hlow h
  cases m with
  | raise p => cases hm
  | write w time =>
    cases w with
    | reserve =>
      have hplay : log.play (.write .reserve time) =
          (some (log.highest + 1), { log with highest := log.highest + 1 }) := by
        simp only [play, LogWrite.inMemory, hreserve]
        rfl
      rw [hplay]
      exact ⟨rfl, rfl, fun _ _ => rfl⟩
    | append eventType data =>
      simp only [play, LogWrite.inMemory, append, hreserve]
      exact ⟨rfl, rfl, fun q hq => (lookup_put _ q _ log.events).trans (if_neg hq)⟩
    | commit _ _ _ | settle _ | persist _ _ => cases hm

/-- Recording progress hands out nothing and writes no event. -/
theorem play_persist (log : MemoryLog) (shard : ShardName) (p : Position) (time : Timestamp) :
    (log.play (.write (.persist shard p) time)).2.highest = log.highest ∧
      (log.play (.write (.persist shard p) time)).2.events = log.events := by
  have heq : EventLog.persistMark shard p log time =
    ((EventLog.persistMark shard p log time).1, (EventLog.persistMark shard p log time).2) := rfl
  cases houtcome : (EventLog.persistMark shard p log time).1 with
  | error fault =>
    rw [houtcome] at heq
    exact ⟨(sameContents_of_persist heq).highest, (sameContents_of_persist heq).events⟩
  | ok updated =>
    rw [houtcome] at heq
    exact ⟨(persist_eq_ok heq).1, (persist_eq_ok heq).2.1⟩

/-- No move takes the highest position down. -/
theorem highest_le_play (hlow : 0 ≤ log.highest) (m : Move) :
    log.highest ≤ (log.play m).2.highest := by
  by_cases hm : m.Asks
  · rcases lt_or_ge log.highest Position.last with h | h
    · have := (play_of_lt hm hlow h).2.1
      lia
    · rw [play_of_le hm h]
  · cases m with
    | raise p => exact le_max_left _ _
    | write w time =>
      cases w with
      | reserve | append _ _ => exact absurd trivial hm
      | commit p eventType data => exact le_max_left _ _
      | settle p =>
        simp only [play, LogWrite.inMemory, settle]
        split_ifs <;> exact le_refl _
      | persist shard p => exact (play_persist log shard p time).1.ge

/-- A log in memory is in order: no position below the first was assigned, and none that was not is
committed. -/
structure Bounded (log : MemoryLog) : Prop where
  counted : 0 ≤ log.highest
  assigned : ∀ p ∈ log.committed, p ≤ log.highest

/-- A move that changes what is on record at one assigned position at most, and there only if
nothing is, is faithful. -/
theorem Bounded.faithful (h : Bounded log) {m : Move} (p : Position)
    (hp : p ≤ (log.play m).2.highest)
    (hothers : ∀ q, q ≠ p → (log.play m).2.entryAt q = log.entryAt q)
    (hsame : ∀ e, log.entryAt p = some e → (log.play m).2.entryAt p = some e)
    (hfresh : m.Asks → ∃ p, (log.play m).1 = some p ∧ p ∉ log.committed) : Faithful log m := by
  refine ⟨fun q hq => ?_, hfresh, fun q e hq => ?_⟩
  · by_cases hqp : q = p
    · rwa [hqp]
    · obtain ⟨e, he⟩ := mem_committed_iff.mp hq
      rw [hothers q hqp] at he
      exact (h.assigned q (mem_committed_iff.mpr ⟨e, he⟩)).trans (highest_le_play h.counted m)
  · by_cases hqp : q = p
    · rw [hqp] at hq ⊢
      exact hsame e hq
    · rw [hothers q hqp]
      exact hq

/-- A move that asks for a position is faithful exactly if there is another one. -/
theorem Bounded.faithful_of_asks (h : Bounded log) {m : Move} (hm : m.Asks) :
    Faithful log m ↔ log.highest < Position.last := by
  constructor
  · intro hfaithful
    by_contra hlast
    obtain ⟨p, hp, -⟩ := hfaithful.fresh hm
    rw [play_of_le hm (not_lt.mp hlast)] at hp
    cases hp
  · intro hlast
    obtain ⟨hhanded, hhighest, hothers⟩ := play_of_lt hm h.counted hlast
    have hfree : log.highest + 1 ∉ log.committed := fun hmem => by
      have := h.assigned _ hmem
      lia
    refine h.faithful (log.highest + 1) hhighest.ge hothers (fun e he => ?_)
      fun _ => ⟨_, hhanded, hfree⟩
    exact absurd (mem_committed_iff.mpr ⟨e, he⟩) hfree

/-- Committing an event is faithful exactly if no other one is on record. -/
theorem Bounded.faithful_commit (h : Bounded log) (p : Position) (eventType : String)
    (data : List UInt8) (time : Timestamp) :
    Faithful log (.write (.commit p eventType data) time) ↔
      ∀ e, log.entryAt p = some e → e = ⟨eventType, data, time, false⟩ := by
  have hput (q : Position) : (log.commit p ⟨eventType, data, time, false⟩).entryAt q =
      if q = p then some ⟨eventType, data, time, false⟩ else log.entryAt q := lookup_put p q _ _
  constructor
  · intro hfaithful e he
    have hkept : (log.commit p ⟨eventType, data, time, false⟩).entryAt p = some e :=
      hfaithful.kept p e he
    rw [hput, if_pos rfl] at hkept
    exact (Option.some.inj hkept).symm
  · intro hsame
    refine h.faithful p (le_max_right _ _) (fun q hq => (hput q).trans (if_neg hq)) (fun e he => ?_)
      False.elim
    rw [hsame e he]
    exact (hput p).trans (if_pos rfl)

/-- Giving up a position is faithful exactly if the position was assigned. -/
theorem Bounded.faithful_settle (h : Bounded log) (p : Position) (time : Timestamp) :
    Faithful log (.write (.settle p) time) ↔ p ≤ log.highest := by
  by_cases htaken : p ∈ log.committed
  · have hplay : log.play (.write (.settle p) time) = (none, log) := by
      simp only [play, LogWrite.inMemory, settle, isCommitted_iff.mpr htaken]
      rfl
    refine ⟨fun _ => h.assigned p htaken, fun hp => h.faithful p ?_ ?_ ?_ False.elim⟩ <;> rw [hplay]
    · exact hp
    · exact fun _ _ => rfl
    · exact fun _ he => he
  · have hplay : log.play (.write (.settle p) time) =
        (none, { log with events := put p ⟨tombstoneType, [], time, true⟩ log.events }) := by
      simp only [play, LogWrite.inMemory, settle, mt isCommitted_iff.mp htaken]
      rfl
    have hput (q : Position) := lookup_put p q ⟨tombstoneType, [], time, true⟩ log.events
    constructor
    · intro hfaithful
      have hassigned := hfaithful.assigned p
      rw [hplay] at hassigned
      exact hassigned (mem_fst_put.mpr (.inl rfl))
    · intro hp
      refine h.faithful p ?_ ?_ (fun e he => ?_) False.elim
      · rw [hplay]
        exact hp
      · rw [hplay]
        exact fun q hq => (hput q).trans (if_neg hq)
      · exact absurd (mem_committed_iff.mpr ⟨e, he⟩) htaken

/-- A move in a log that is in order is faithful exactly if it respects what is there. -/
theorem Bounded.faithful_iff (h : Bounded log) (m : Move) : Faithful log m ↔ Respects log m := by
  cases m with
  | raise p =>
    exact iff_of_true (h.faithful p (le_max_right _ _) (fun _ _ => rfl) (fun _ he => he) nofun)
      trivial
  | write w time =>
    cases w with
    | reserve | append eventType data => exact h.faithful_of_asks trivial
    | commit p eventType data => exact h.faithful_commit p eventType data time
    | settle p => exact h.faithful_settle p time
    | persist shard p =>
      obtain ⟨hhighest, hevents⟩ := play_persist log shard p time
      have hentries (q : Position) : (log.play (.write (.persist shard p) time)).2.entryAt q =
          log.entryAt q := by
        unfold entryAt
        rw [hevents]
      exact iff_of_true (h.faithful log.highest hhighest.ge (fun q _ => hentries q)
        (fun e he => (hentries _).trans he) nofun) trivial

/-! ## Histories -/

/-- A log is in order after moves that were faithful. -/
theorem bounded_replay {moves : ℕ → Move} {n : ℕ}
    (h : ∀ i < n, Faithful (replay moves i) (moves i)) : Bounded (replay moves n) := by
  induction n with
  | zero => exact ⟨le_refl _, by simp [replay, committed]⟩
  | succ n ih =>
    have hbounded := ih fun i hi => h i (hi.trans n.lt_succ_self)
    exact ⟨hbounded.counted.trans (highest_le_play hbounded.counted _),
      (h n n.lt_succ_self).assigned⟩

/-- The first moves of any history of a log in memory are faithful exactly if each of them respects
what it finds. If writers give up assigned positions only, commit no other event where something is
on record, and ask for no position behind the last one, then after each move every committed
position has been assigned, every position that was handed out was free, and nothing on record has
changed. If they do not, then one of these fails. -/
theorem faithful_iff_respects (moves : ℕ → Move) (n : ℕ) :
    (∀ i < n, Faithful (replay moves i) (moves i)) ↔
      ∀ i < n, Respects (replay moves i) (moves i) := by
  constructor
  · intro h i hi
    have hbounded := bounded_replay fun j (hj : j < i) => h j (hj.trans hi)
    exact (hbounded.faithful_iff _).mp (h i hi)
  · intro h i
    -- What was faithful before a move keeps the log in order for it.
    induction i using Nat.strong_induction_on with
    | _ i ih =>
      intro hi
      have hbounded := bounded_replay fun j (hj : j < i) => ih j hj (hj.trans hi)
      exact (hbounded.faithful_iff _).mpr (h i hi)

/-- Position 1 is given up in an empty log, and an event is appended. The append hands position 1
out although it was settled, and its event replaces the tombstone. -/
theorem exists_overwritten :
    ∃ moves : ℕ → Move, moves 0 = .write (.settle 1) default ∧
      moves 1 = .write (.append "e" []) default ∧
      (replay moves 1).committed = [1] ∧ (replay moves 1).highest = 0 ∧
      ((replay moves 1).play (moves 1)).1 = some 1 ∧
      (replay moves 1).entryAt 1 = some ⟨tombstoneType, [], default, true⟩ ∧
      (replay moves 2).entryAt 1 = some ⟨"e", [], default, false⟩ := by
  refine ⟨fun
    | 0 => .write (.settle 1) default
    | _ => .write (.append "e" []) default, rfl, rfl, ?_⟩
  decide +kernel

end Tidemark.MemoryLog
