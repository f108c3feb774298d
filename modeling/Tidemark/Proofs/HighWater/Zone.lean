import Tidemark.Proofs.HighWater.Safety

/-!
# What a safe zone lets pass

A pass in a safe zone treats a gap as permanent if something above it was committed since a given
time, the beginning of the zone. How old the reservations in the gap are is not stored anywhere.
`Timed` is what becomes of a log of which it is known when its positions were reserved.

A reservation that is younger than the zone is passed all the same, as long as nothing below it was
committed in the zone and something above it was (`passes_young_iff`).
-/

namespace Tidemark

/-- The order of times is transitive. -/
theorem Timestamp.le_trans {a b c : Timestamp} (hab : a ≤ b) (hbc : b ≤ c) : a ≤ c :=
  Int.le_trans hab hbc

/-- Of two times one is not after the other. -/
theorem Timestamp.le_of_not_le {a b : Timestamp} (h : ¬ a ≤ b) : b ≤ a :=
  Int.le_of_lt (Int.not_le.mp h)

namespace MemoryLog

/-- When a position was reserved, given the times of all reservations in their order. -/
def reservedAt (times : List Timestamp) (p : Position) : Option Timestamp := times[(p - 1).toNat]?

/-- The histories of a log that starts empty, with the times at which its positions were reserved.
These times do not decrease, and nothing is committed or given up before it was reserved. -/
inductive Timed : MemoryLog → List Timestamp → Prop where
  | empty : Timed {} []
  /-- A position is reserved. -/
  | reserved {log log' : MemoryLog} {times : List Timestamp} {p : Position} (now : Timestamp)
    (h : Timed log times) (hnow : ∀ t ∈ times, t ≤ now) (hr : log.reserve = .ok (p, log')) :
    Timed log' (times ++ [now])
  /-- An event is committed at an open position. -/
  | committed {log : MemoryLog} {times : List Timestamp} {p : Position} (e : Entry)
    (h : Timed log times) (hp : log.Open p) (he : ∀ t ∈ reservedAt times p, t ≤ e.timestamp) :
    Timed (log.commit p e) times
  /-- A position is given up, unless something is committed there. -/
  | settled {log : MemoryLog} {times : List Timestamp} {p : Position} (now : Timestamp)
    (h : Timed log times) (hp : 1 ≤ p ∧ p ≤ log.highest)
    (hnow : ∀ t ∈ reservedAt times p, t ≤ now) : Timed (log.settle p now) times
  /-- Some of the next calls are made to fail. -/
  | disturbed {log : MemoryLog} {times : List Timestamp} (h : Timed log times) (n m : Nat) :
    Timed { log with failNext := n, failPersists := m } times
  /-- A pass runs, in a safe zone or not, and succeeds or fails. -/
  | detected {log log' : MemoryLog} {times : List Timestamp} {outcome : Outcome Statistics}
    (zone : Option Timestamp) (now : Timestamp) (h : Timed log times)
    (hd : (Pass.reading zone).run log now = (outcome, log')) : Timed log' times

/-! ## When positions were committed -/

/-- Which positions were committed since a time. -/
theorem mem_committedSince {log : MemoryLog} {zone : Timestamp} {p : Position} :
    p ∈ log.committedSince zone ↔ ∃ e, (p, e) ∈ log.events ∧ zone ≤ e.timestamp := by
  simp [committedSince]

/-- What was committed since a later time was committed since an earlier one. -/
theorem committedSince_mono {log : MemoryLog} {zone zone' : Timestamp} (h : zone ≤ zone')
    {p : Position} (hp : p ∈ log.committedSince zone') : p ∈ log.committedSince zone := by
  obtain ⟨e, he, hzone⟩ := mem_committedSince.mp hp
  exact mem_committedSince.mpr ⟨e, he, Timestamp.le_trans h hzone⟩

/-- What was committed since a time is committed. -/
theorem committed_of_committedSince {log : MemoryLog} {zone : Timestamp} {p : Position}
    (hp : p ∈ log.committedSince zone) : p ∈ log.committed := by
  obtain ⟨e, he, -⟩ := mem_committedSince.mp hp
  exact List.mem_map_of_mem he

/-- An entry that has been put is there. -/
theorem mem_put_self (p : Position) (e : Entry) (events : List (Position × Entry)) :
    (p, e) ∈ put p e events := by
  induction events with
  | nil => simp [put]
  | cons x rest ih =>
    obtain ⟨q, f⟩ := x
    unfold put
    split_ifs <;> simp [ih]

/-- Putting an entry leaves those at other positions. -/
theorem mem_put_of_mem {p q : Position} {e f : Entry} {events : List (Position × Entry)}
    (h : (q, f) ∈ events) (hne : q ≠ p) : (q, f) ∈ put p e events := by
  induction events with
  | nil => cases h
  | cons x rest ih =>
    obtain ⟨r, g⟩ := x
    unfold put
    rcases List.mem_cons.mp h with heq | hmem
    · obtain ⟨rfl, rfl⟩ := Prod.mk.inj heq
      split_ifs with hlt hpq
      · simp
      · exact absurd hpq.symm hne
      · simp
    · split_ifs
      · simp [hmem]
      · simp [hmem]
      · simp [ih hmem]

/-! ## When positions were reserved -/

/-- A log and the times of its reservations fit together: there is one time for each position, the
times do not decrease, and whatever is committed was committed after it had been reserved. -/
structure Dated (log : MemoryLog) (times : List Timestamp) : Prop where
  sound : log.Sound
  counted : log.highest = times.length
  sorted : times.Pairwise (· ≤ ·)
  dated : ∀ p ∈ log.committed, ∀ t ∈ reservedAt times p, p ∈ log.committedSince t

/-- Every assigned position was reserved at some time. -/
theorem Dated.exists_reservedAt {log : MemoryLog} {times : List Timestamp} (h : Dated log times)
    {p : Position} (hp : 1 ≤ p ∧ p ≤ log.highest) : ∃ t, reservedAt times p = some t := by
  have hlt : (p - 1).toNat < times.length := by
    have := h.counted
    lia
  exact ⟨_, List.getElem?_eq_getElem hlt⟩

/-- Higher positions were not reserved earlier. -/
theorem Dated.reservedAt_mono {log : MemoryLog} {times : List Timestamp} (h : Dated log times)
    {p q : Position} {t u : Timestamp} (hp : 1 ≤ p) (hpq : p < q) (ht : reservedAt times p = some t)
    (hu : reservedAt times q = some u) : t ≤ u := by
  obtain ⟨hi, rfl⟩ := List.getElem?_eq_some_iff.mp ht
  obtain ⟨hj, rfl⟩ := List.getElem?_eq_some_iff.mp hu
  exact List.pairwise_iff_getElem.mp h.sorted _ _ hi hj (by lia)

/-- A further reservation fits if it is not earlier than those before it. -/
theorem Dated.reserve {log log' : MemoryLog} {times : List Timestamp} (h : Dated log times)
    {p : Position} {now : Timestamp} (hnow : ∀ t ∈ times, t ≤ now)
    (hr : log.reserve = .ok (p, log')) : Dated log' (times ++ [now]) := by
  have hgrown := Wrote.grown (.reserved hr) h.sound
  obtain ⟨rfl, rfl⟩ := reserve_eq_ok hr
  refine ⟨h.sound.of_grown hgrown, ?_, ?_, fun q hq t ht => ?_⟩
  · have := h.counted
    simp only [List.length_append, List.length_singleton]
    lia
  · exact List.pairwise_append.mpr ⟨h.sorted, List.pairwise_singleton _ _, by simpa using hnow⟩
  · -- What is committed was reserved before.
    have hassigned := h.sound.assigned q hq
    have hlt : (q - 1).toNat < times.length := by
      have := h.counted
      lia
    rw [reservedAt, List.getElem?_append_left hlt] at ht
    exact h.dated q hq t ht

/-- A commit at an open position fits if it is not earlier than the reservation. -/
theorem Dated.commit {log : MemoryLog} {times : List Timestamp} (h : Dated log times) {p : Position}
    {e : Entry} (hp : log.Open p) (he : ∀ t ∈ reservedAt times p, t ≤ e.timestamp) :
    Dated (log.commit p e) times := by
  refine ⟨h.sound.of_grown (Wrote.grown (.committed e hp) h.sound), ?_, h.sorted, ?_⟩
  · exact (max_eq_left hp.assigned.2).trans h.counted
  · intro q hq t ht
    rcases mem_fst_put.mp hq with rfl | hq
    · exact mem_committedSince.mpr ⟨e, mem_put_self _ _ _, he t ht⟩
    · obtain ⟨f, hf, hdate⟩ := mem_committedSince.mp (h.dated q hq t ht)
      have hne : q ≠ p := fun heq => hp.uncommitted (heq ▸ hq)
      exact mem_committedSince.mpr ⟨f, mem_put_of_mem hf hne, hdate⟩

/-- What writers have done and when does not depend on how the log counts its calls, nor on what is
on record. -/
theorem Dated.of_written {log log' : MemoryLog} {times : List Timestamp} (h : Dated log times)
    (hw : log'.toWritten = log.toWritten) (hsane : Pass.Sane log') : Dated log' times := by
  have hhigh : log'.highest = log.highest := congrArg Written.assigned hw
  have hcommitted : log'.committed = log.committed := congrArg Written.committed hw
  have hsince : log'.committedSince = log.committedSince := congrArg Written.since hw
  refine ⟨⟨hsane.kept, hsane.assigned, hsane.mark, ?_⟩, ?_, h.sorted, ?_⟩
  · rw [hhigh]; exact h.sound.counted
  · rw [hhigh]; exact h.counted
  · rw [hcommitted, hsince]; exact h.dated

/-- Along every history the log and the times of its reservations fit together. -/
theorem Timed.dated {log : MemoryLog} {times : List Timestamp} (h : Timed log times) :
    Dated log times := by
  induction h with
  | empty => exact ⟨sound_empty, rfl, .nil, by simp [MemoryLog.committed]⟩
  | reserved now _ hnow hr ih => exact ih.reserve hnow hr
  | committed e _ hp he ih => exact ih.commit hp he
  | @settled log times p now _ hp hnow ih =>
    by_cases hcommitted : log.isCommitted p = true
    · rw [settle, if_pos hcommitted]
      exact ih
    · -- A position that is given up is one at which a tombstone is committed.
      have hopen : log.Open p := ⟨hp, fun hmem => hcommitted (isCommitted_iff.mpr hmem)⟩
      have hsettle : log.settle p now = log.commit p ⟨tombstoneType, [], now, true⟩ := by
        rw [settle, if_neg hcommitted, MemoryLog.commit, max_eq_left hp.2]
      rw [hsettle]
      exact ih.commit hopen hnow
  | disturbed _ n m ih =>
    exact ih.of_written rfl (Pass.sane_of_sound (ih.sound.of_sameContents ⟨rfl, rfl, rfl⟩))
  | @detected log log' times outcome zone now _ hd ih =>
    have hsane := Pass.sane_of_sound ih.sound
    have hleaves := Pass.run_leaves hsane zone now
    rw [hd] at hleaves
    have hwritten : log'.toWritten = log.toWritten := by
      cases outcome with
      | error fault => exact hleaves.written
      | ok s => exact hleaves.2.2.2
    exact ih.of_written hwritten (hsane.of_leaves hleaves)

/-- Appending an event is a reservation and a commit in one. -/
theorem Timed.appended {log log' : MemoryLog} {times : List Timestamp} {p : Position}
    (now : Timestamp) (e : Entry) (h : Timed log times) (hnow : ∀ t ∈ times, t ≤ now)
    (he : now ≤ e.timestamp) (ha : log.append e = .ok (p, log')) :
    Timed log' (times ++ [now]) := by
  obtain ⟨⟨q, reserved⟩, hr, ha⟩ := bind_eq_ok.mp ha
  obtain ⟨rfl, rfl⟩ := Prod.mk.inj (Except.ok.inj ha)
  have hreserved := h.reserved now hnow hr
  have hsound := h.dated.sound
  have hcounted := h.dated.counted
  obtain ⟨rfl, rfl⟩ := reserve_eq_ok hr
  have hopen : Open { log with highest := log.highest + 1 } (log.highest + 1) := by
    refine ⟨⟨by lia, le_refl _⟩, fun hmem => ?_⟩
    have := hsound.assigned _ hmem
    lia
  have hcommit := hreserved.committed e hopen fun t ht => by
    have hindex : (log.highest + 1 - 1).toNat = times.length := by lia
    rw [reservedAt, hindex, List.getElem?_concat_length] at ht
    exact Option.mem_some.mp ht ▸ he
  rwa [MemoryLog.commit, max_self] at hcommit

/-! ## Young reservations -/

/-- Something was committed since a time, and all of it lies above a position. -/
def OnlyAbove (log : MemoryLog) (zone : Timestamp) (p : Position) : Prop :=
  log.committedSince zone ≠ [] ∧ ∀ q ∈ log.committedSince zone, p < q

/-- If something was committed above a position that was reserved after the beginning of the zone,
then something was committed in the zone. -/
theorem Dated.committedSince_of_above {log : MemoryLog} {times : List Timestamp}
    (h : Dated log times) {zone t : Timestamp} {p q : Position} (hp : 1 ≤ p)
    (ht : reservedAt times p = some t) (hyoung : ¬ t ≤ zone) (hq : q ∈ log.committed)
    (hpq : p < q) : q ∈ log.committedSince zone := by
  obtain ⟨u, hu⟩ := h.exists_reservedAt (h.sound.assigned q hq)
  have htu := h.reservedAt_mono hp hpq ht hu
  exact committedSince_mono (Timestamp.le_trans (Timestamp.le_of_not_le hyoung) htu)
    (h.dated q hq u hu)

/-- A scan that begins where something was committed in the zone below an open position stops before
that position. -/
theorem Sound.lt_of_endsRun {log : MemoryLog} (h : log.Sound) {p q m : Position}
    (hp : p ∉ log.committed) (hq : q ∈ log.committed) (hqp : q ≤ p) (hmark : log.mark ≤ p)
    (hrun : EndsRun log.committed (max q log.mark) m) : m < p := by
  by_contra hle
  have hstart : max q log.mark ∈ log.committed := by
    rcases le_total log.mark q with hmq | hqm
    · rwa [max_eq_left hmq]
    · rw [max_eq_right hqm]
      rcases h.mark with hzero | hmem
      · have := h.assigned q hq
        lia
      · exact hmem
  exact hp (hrun.covers hstart (le_refl _) (max_le hqp hmark) (not_lt.mp hle))

/-- Where something was committed in the zone, all of it above a position, the mark does not stay
below the position. -/
theorem le_of_onlyAbove {log : MemoryLog} {zone : Timestamp} {p m : Position}
    (hfinds : Pass.Finds log (some zone) m) (hp : p ≤ log.highest) (h : log.OnlyAbove zone p) :
    p ≤ m := by
  obtain ⟨hsome, habove⟩ := h
  cases hfinds with
  | caughtUp hhigh => exact le_trans hp (le_of_eq hhigh.symm)
  | run hs hrun =>
    cases hs with
    | @zone _ q hleast =>
      exact (lt_of_lt_of_le (habove q hleast.1) ((le_max_left _ _).trans hrun.above)).le
    | quiet hquiet => exact absurd hquiet hsome
  | nothing hs hbelow =>
    cases hs with
    | @zone _ q hleast =>
      have hlt : q < max q log.mark := hbelow q (committed_of_committedSince hleast.1)
      have hqmark : q < log.mark := (lt_max_iff.mp hlt).resolve_left (lt_irrefl q)
      exact (lt_trans (habove q hleast.1) hqmark).le
    | quiet hquiet => exact absurd hquiet hsome

/-- Where the mark is put above an open position that was reserved after the beginning of the zone,
everything committed in the zone lies above the position. -/
theorem Dated.onlyAbove_of_le {log : MemoryLog} {times : List Timestamp} (h : Dated log times)
    {zone t : Timestamp} {p m : Position} (hopen : log.Open p) (ht : reservedAt times p = some t)
    (hyoung : ¬ t ≤ zone) (hfinds : Pass.Finds log (some zone) m) (hmark : log.mark < p)
    (hpm : p ≤ m) : log.OnlyAbove zone p := by
  cases hfinds with
  | caughtUp hhigh => exact absurd hpm (not_le.mpr hmark)
  | nothing hs hbelow => exact absurd hpm (not_le.mpr hmark)
  | run hs hrun =>
    cases hs with
    | @zone _ q hleast =>
      refine ⟨List.ne_nil_of_mem hleast.1, fun r hr => ?_⟩
      -- Otherwise the scan begins below the position, and stops before it.
      by_contra hrp
      have hqp : q ≤ p := le_trans (hleast.2 hr) (not_lt.mp hrp)
      exact absurd hpm (not_le.mpr (h.sound.lt_of_endsRun hopen.uncommitted
        (committed_of_committedSince hleast.1) hqp hmark.le hrun))
    | quiet hquiet =>
      -- Something was committed above the position, and so in the zone.
      have hlt : p < m := lt_of_le_of_ne hpm fun heq => hopen.uncommitted (heq ▸ hrun.mem)
      have hmem : m ∈ log.committedSince zone :=
        h.committedSince_of_above hopen.assigned.1 ht hyoung hrun.mem hlt
      have hquiet : log.committedSince zone = [] := hquiet
      rw [hquiet] at hmem
      cases hmem

/-- A pass in a safe zone puts the mark above a position that is open and was reserved after the
beginning of the zone exactly if the mark was there already, or if something was committed in the
zone and all of it lies above the position. -/
theorem passes_young_iff {log log' : MemoryLog} {times : List Timestamp} {p : Position}
    {zone t now : Timestamp} {s : Statistics} (h : Timed log times) (hopen : log.Open p)
    (ht : reservedAt times p = some t) (hyoung : ¬ t ≤ zone)
    (hd : detectInSafeZone zone log now = (.ok s, log')) :
    p ≤ s.currentMark ↔ p ≤ log.mark ∨ log.OnlyAbove zone p := by
  have hdated := h.dated
  have hleaves : Pass.Leaves log (some zone) (.ok s) log' := by
    have hrun := Pass.run_leaves (Pass.sane_of_sound hdated.sound) (some zone) now
    rwa [show (Pass.reading (some zone)).run log now = (.ok s, log') from hd] at hrun
  have hfinds : Pass.Finds log (some zone) s.currentMark := hleaves.1
  constructor
  · intro hpm
    exact or_iff_not_imp_left.mpr fun hmark =>
      hdated.onlyAbove_of_le hopen ht hyoung hfinds (not_le.mp hmark) hpm
  · rintro (hmark | habove)
    · exact le_trans hmark hfinds.le
    · exact le_of_onlyAbove hfinds hopen.assigned.2 habove

/-- An event without contents that is committed at a time. -/
def blankAt (nanos : Int) : Entry := { blank with timestamp := ⟨nanos, false⟩ }

/-- A young reservation is not passed if something was committed below it in the zone: position 1,
which was reserved before the zone and committed late, keeps the mark below position 2. -/
theorem young_kept_of_late_commit :
    ∃ log s log', Timed log [⟨0, false⟩, ⟨3, false⟩, ⟨3, false⟩] ∧ log.Open 2 ∧
      detectInSafeZone ⟨2, false⟩ log ⟨5, false⟩ = (.ok s, log') ∧ s.currentMark < 2 := by
  let log : MemoryLog := { highest := 3, events := [(1, blankAt 4), (3, blankAt 3)] }
  let now : Timestamp := ⟨5, false⟩
  have h₁ : Timed { highest := 1 } [⟨0, false⟩] :=
    Timed.empty.reserved (p := 1) ⟨0, false⟩ (by simp) rfl
  have h₂ : Timed { highest := 2 } [⟨0, false⟩, ⟨3, false⟩] :=
    h₁.reserved (p := 2) ⟨3, false⟩ (by decide) rfl
  have h₃ : Timed { highest := 3, events := [(3, blankAt 3)] }
      [⟨0, false⟩, ⟨3, false⟩, ⟨3, false⟩] :=
    h₂.appended (p := 3) ⟨3, false⟩ (blankAt 3) (by decide) (by decide) rfl
  have h : Timed log [⟨0, false⟩, ⟨3, false⟩, ⟨3, false⟩] :=
    h₃.committed (p := 1) (blankAt 4) ⟨by decide, by decide⟩ (by decide)
  have hopen : log.Open 2 := ⟨by decide, by decide⟩
  have hd : detectInSafeZone ⟨2, false⟩ log now =
      (.ok ⟨0, 3, 1, 1, now, some now⟩, (detectInSafeZone ⟨2, false⟩ log now).2) :=
    Prod.ext (by decide +kernel) rfl
  refine ⟨log, _, _, h, hopen, hd, ?_⟩
  have hiff := passes_young_iff (p := 2) (t := ⟨3, false⟩) h hopen rfl (by decide) hd
  refine not_le.mp (hiff.not.mpr (not_or.mpr ⟨by decide, fun habove => ?_⟩))
  exact absurd (habove.2 1 (by decide)) (by decide)

/-- The mark is 1, and position 2 is open and was reserved after the beginning of the zone. Since
position 3 was committed in the zone, a pass in the zone puts the mark to 3. -/
theorem exists_young_passed :
    ∃ log times s log', Timed log times ∧ log.Open 2 ∧
      (∃ t, reservedAt times 2 = some t ∧ ¬ t ≤ ⟨2, false⟩) ∧ log.mark = 1 ∧
        detectInSafeZone ⟨2, false⟩ log ⟨5, false⟩ = (.ok s, log') ∧ s.currentMark = 3 := by
  let log₀ : MemoryLog := { highest := 3, events := [(1, blankAt 1), (3, blankAt 3)] }
  let now : Timestamp := ⟨5, false⟩
  let log := (detect log₀ now).2
  have h₁ : Timed { highest := 1, events := [(1, blankAt 1)] } [⟨0, false⟩] :=
    Timed.empty.appended (p := 1) ⟨0, false⟩ (blankAt 1) (by simp) (by decide) rfl
  have h₂ : Timed { highest := 2, events := [(1, blankAt 1)] } [⟨0, false⟩, ⟨3, false⟩] :=
    h₁.reserved (p := 2) ⟨3, false⟩ (by decide) rfl
  have h₃ : Timed log₀ [⟨0, false⟩, ⟨3, false⟩, ⟨3, false⟩] :=
    h₂.appended (p := 3) ⟨3, false⟩ (blankAt 3) (by decide) (by decide) rfl
  have h : Timed log [⟨0, false⟩, ⟨3, false⟩, ⟨3, false⟩] := h₃.detected none now rfl
  have hd : detectInSafeZone ⟨2, false⟩ log now =
      (.ok ⟨1, 3, 3, 3, now, some now⟩, (detectInSafeZone ⟨2, false⟩ log now).2) :=
    Prod.ext (by decide +kernel) rfl
  refine ⟨log, _, _, _, h, ⟨?_, ?_⟩, ⟨⟨3, false⟩, rfl, by decide⟩, ?_, hd, rfl⟩
  · decide +kernel
  · decide +kernel
  · decide +kernel

end MemoryLog

end Tidemark
