import Tidemark.HighWater.Agent
import Tidemark.Proofs.HighWater.Pass

/-!
# The mark on record and the published mark

Detection records a mark before it publishes it. A pass whose round trips others interrupt is right
about the mark on record at any time, as long as nobody else records one (`Pass.Informed`): so it
only ever raises the mark on record, and what it finds is not above it. The same holds of the loops
and of the whole agent, which never has two loops at a time (`Agent.Sound`). What detection does to
what the tasks share is an `Advance`.
-/

namespace Tidemark

open LogView

variable {L : Type} [EventLog L] [DetectedLog L]

/-! ## Advances -/

/-- What detection does to what the tasks share: the mark on record and the published mark go up,
nothing is published above the mark on record, and no other progress changes. -/
structure Advance (c c' : Commons L) : Prop where
  kept : Kept c.log → Kept c'.log
  others : ∀ i, i ≠ ShardName.highWater.identity → recorded c'.log i = recorded c.log i
  recorded : highWater c.log ≤ highWater c'.log
  published : c.tracker.mark.value ≤ c'.tracker.mark.value
  durable : c'.tracker.mark.value ≤ max c.tracker.mark.value (highWater c'.log)

namespace Advance

variable {c c' c'' : Commons L}

/-- Where shards see the same of the log and the same mark is published, nothing has to advance. -/
theorem of_sameView (h : SameView c.log c'.log) (ht : c'.tracker.mark = c.tracker.mark) :
    Advance c c' := by
  have hmark : highWater c'.log = highWater c.log := by rw [highWater, h.recorded, highWater]
  exact ⟨h.kept, fun i _ => by rw [h.recorded], hmark.ge, (congrArg Watched.value ht).ge,
    le_max_of_le_left (congrArg Watched.value ht).le⟩

/-- Doing nothing is an advance. -/
theorem refl (c : Commons L) : Advance c c := of_sameView (.refl _) rfl

/-- Taking a measurement is an advance. -/
theorem measure (c : Commons L) (f : Metrics → Metrics) : Advance c (c.measure f) :=
  of_sameView (.refl _) rfl

/-- An advance after an advance is an advance. -/
theorem trans (h : Advance c c') (h' : Advance c' c'') : Advance c c'' where
  kept := h'.kept ∘ h.kept
  others i hi := (h'.others i hi).trans (h.others i hi)
  recorded := le_trans h.recorded h'.recorded
  published := le_trans h.published h'.published
  durable := by
    have hdurable := h.durable
    have hdurable' := h'.durable
    have hrecorded := h'.recorded
    lia

/-- Recording the mark, if it goes up, is an advance. -/
theorem of_persist {p : Position} {now : Timestamp} {updated : Option Timestamp} {log' : L}
    (h : EventLog.persistMark .highWater p c.log now = (.ok updated, log'))
    (hp : highWater c.log ≤ p) : Advance c { c with log := log' } ∧ highWater log' = p := by
  obtain ⟨hkept, hrecorded, -⟩ := LawfulLog.persist_ok h
  have hmark : highWater log' = p := by rw [highWater, hrecorded, Function.update_self]
  refine ⟨⟨hkept, fun i hi => ?_, hp.trans hmark.ge, le_refl _, le_max_left _ _⟩, hmark⟩
  show LogView.recorded log' i = LogView.recorded c.log i
  rw [hrecorded, Function.update_of_ne hi]

end Advance

/-! ## Passes -/

namespace Pass

/-- What a pass knows of the mark on record is right. -/
def Informed (row : Position) : Pass → Prop
  | reading _ => True
  | locating _ known | scanning known | measuring known => known.lastMark = row
  | persisting known => row < known.currentMark

/-- What a round trip leads to is right about the mark on record. -/
def Next.Informed (row : Position) : Next → Prop
  | .more q => q.Informed row
  | .found s => s.currentMark ≤ row

/-- A pass that settles a mark finds the one on record or records a higher one. -/
theorem settle_informed {row : Position} {known : Statistics} (h : known.lastMark = row) :
    (settle known).Informed row := by
  unfold settle
  split_ifs with hchanged
  · have hlt : known.lastMark < known.currentMark := by simpa [Statistics.hasChanged] using hchanged
    exact h ▸ hlt
  · have hle : known.currentMark ≤ known.lastMark := by
      simpa [Statistics.hasChanged] using hchanged
    exact h ▸ hle

/-- A pass that begins to compute the mark is right about the mark on record. In a log in which
nothing was assigned, it does not touch it. -/
theorem compute_informed {row : Position} (hrow : 0 ≤ row) {known : Statistics}
    (hlast : known.lastMark = row) : (compute known).Informed row := by
  unfold compute
  split_ifs with hequal hempty
  · exact settle_informed hlast
  · exact hrow
  · exact hlast

/-- A round trip of an informed pass is an advance and leads on informed. -/
theorem step_informed {p : Pass} {c : Commons L} {now : Timestamp} {next : Next} {log' : L}
    (h : p.Informed (highWater c.log)) (hrow : 0 ≤ highWater c.log)
    (hstep : step p c.log now = (.ok next, log')) :
    Advance c { c with log := log' } ∧ next.Informed (highWater log') := by
  -- Most round trips change nothing, so that what is known stays right.
  have hasked (hview : SameView c.log log') (hnext : next.Informed (highWater c.log)) :
      Advance c { c with log := log' } ∧ next.Informed (highWater log') := by
    have hmark : highWater log' = highWater c.log := by rw [highWater, hview.recorded, highWater]
    exact ⟨.of_sameView hview rfl, hmark ▸ hnext⟩
  cases p with
  | reading zone =>
    -- The mark on record is read here, and nobody else records one before the pass is over.
    obtain ⟨raw, hask, hnext⟩ := reply_eq_ok hstep
    have hlast : raw.lastMark = highWater c.log := DetectedLog.statistics_eq hask
    refine hasked (DetectedLog.frame_statistics hask) ?_
    cases zone with
    | none => exact hnext ▸ compute_informed hrow hlast
    | some t => exact hnext ▸ hlast
  | locating zone known =>
    obtain ⟨found, hask, rfl⟩ := reply_eq_ok hstep
    refine hasked (DetectedLog.frame_earliest hask) ?_
    cases found <;> exact compute_informed hrow h
  | scanning known =>
    obtain ⟨found, hask, rfl⟩ := reply_eq_ok hstep
    refine hasked (DetectedLog.frame_firstGap hask) ?_
    cases found with
    | some mark => exact settle_informed h
    | none => exact h
  | measuring known =>
    obtain ⟨found, hask, rfl⟩ := reply_eq_ok hstep
    refine hasked (DetectedLog.frame_maxCommitted hask) ?_
    cases found with
    | some mark => exact settle_informed h
    | none =>
      refine settle_informed ?_
      unfold fallBack
      split_ifs <;> exact h
  | persisting known =>
    obtain ⟨updated, hpersist, rfl⟩ := reply_eq_ok hstep
    have hlt : highWater c.log < known.currentMark := h
    obtain ⟨hadvance, hmark⟩ := Advance.of_persist hpersist hlt.le
    exact ⟨hadvance, hmark.ge⟩

/-- A round trip that fails is an advance. -/
theorem advance_of_failed {p : Pass} {c : Commons L} {now : Timestamp} {fault : Fault} {log' : L}
    (hstep : step p c.log now = (.error fault, log')) : Advance c { c with log := log' } := by
  refine .of_sameView ?_ rfl
  cases p with
  | reading zone => exact DetectedLog.frame_statistics (reply_eq_error hstep)
  | locating zone known => exact DetectedLog.frame_earliest (reply_eq_error hstep)
  | scanning known => exact DetectedLog.frame_firstGap (reply_eq_error hstep)
  | measuring known => exact DetectedLog.frame_maxCommitted (reply_eq_error hstep)
  | persisting known => exact LawfulLog.persist_error (reply_eq_error hstep)

end Pass

/-! ## Scans -/

/-- What a step of a scan leads to is right about the mark on record. -/
def Scan.Next.Informed (row : Position) : Scan.Next → Prop
  | .more s => s.pass.Informed row
  | .ended (.ok found) => found.currentMark ≤ row
  | .ended (.error _) => True

/-- A step of an informed scan is an advance and leads on informed. -/
theorem Scan.step_informed {s : Scan} {c : Commons L} (h : s.pass.Informed (highWater c.log))
    (hrow : 0 ≤ highWater c.log) (now : Moment) :
    Advance c (s.step c now).2 ∧ (s.step c now).1.Informed (highWater (s.step c now).2.log) := by
  cases hstep : s.pass.step c.log (c.time now) with
  | mk outcome log' =>
    have hcall : c.call now s.pass.step = (outcome, { c with log := log' }) := by
      simp only [Commons.call, hstep]
    simp only [step, hcall]
    rcases outcome with (e | cause) | next
    · have hadvance := Pass.advance_of_failed (c := c) hstep
      dsimp only
      split_ifs
      · exact ⟨hadvance.trans (.measure _ _), trivial⟩
      · exact ⟨hadvance, trivial⟩
    · exact ⟨Pass.advance_of_failed (c := c) hstep, trivial⟩
    · obtain ⟨hadvance, hinformed⟩ := Pass.step_informed h hrow hstep
      cases next with
      | more q => exact ⟨hadvance, hinformed⟩
      | found found =>
        dsimp only
        exact ⟨hadvance.trans (.measure _ _), hinformed⟩

/-! ## Loops -/

/-- Publishing a mark that is not above the one on record is an advance. -/
theorem Detection.publish_advances (d : Detection) (c : Commons L) {s : Statistics}
    (h : s.currentMark ≤ highWater c.log) : Advance c (d.publish c s).2.2 := by
  have hmarked : Advance c { c with tracker := (c.tracker.markHighWater s.currentMark).2 } := by
    unfold Tracker.markHighWater
    split_ifs with hlt
    · exact ⟨id, fun _ _ => rfl, le_refl _, hlt.le, le_max_of_le_right h⟩
    · exact .refl c
  have hmeasured := hmarked.trans (.measure _ fun m =>
    (m.setHighWaterMark s.currentMark s.highestSequence).2)
  unfold publish
  dsimp only
  split
  · rename_i heq
    obtain ⟨-, rfl⟩ := Prod.mk.inj heq
    exact hmeasured
  · rename_i heq
    obtain ⟨-, rfl⟩ := Prod.mk.inj heq
    exact hmeasured

/-- A loop is right about the mark on record. -/
def LoopStage.Informed (row : Position) : LoopStage → Prop
  | .bootstrapping scan | .running _ _ (.detecting scan) | .running _ _ (.rescanning scan) =>
    scan.pass.Informed row
  | .opening _ | .running _ _ (.biding _ _) | .running _ _ (.sleeping _) => True

namespace DetectionLoop

/-- A part of a step of a loop is an advance and leads on informed. -/
structure Goes (c : Commons L) (out : Stepped L) : Prop where
  advance : Advance c out.2.2
  informed : ∀ l, out.1 = some l → l.stage.Informed (highWater out.2.2.log)

/-- A part of a step leads on informed after an advance. -/
theorem Goes.after {c c' : Commons L} {out : Stepped L} (h : Goes c' out) (hc : Advance c c') :
    Goes c out :=
  ⟨hc.trans h.advance, h.informed⟩

variable (l : DetectionLoop) (d : Detection) (c : Commons L) (now : Moment)

omit [EventLog L] [DetectedLog L] in
/-- A loop that ends does not go on. -/
theorem informed_of_none {row : Position} {l : Option DetectionLoop} (h : l = none) :
    ∀ l', l = some l' → l'.stage.Informed row := fun l' hl' => by
  rw [h] at hl'
  cases hl'

/-- A loop that ends does nothing. -/
theorem goes_none : Goes c (none, d, c) := ⟨.refl c, informed_of_none rfl⟩

/-- A loop moves on to a stage that is informed. -/
theorem unlessStopping_goes {stage : LoopStage} (h : stage.Informed (highWater c.log)) :
    Goes c (l.unlessStopping d c stage) := by
  unfold unlessStopping
  split_ifs
  · exact goes_none d c
  · exact ⟨.refl c, fun l' hl' => Option.some.inj hl' ▸ h⟩

/-- A loop that waits before the next round goes on. -/
theorem sleep_goes (previous : Statistics) (rhythm : Rhythm) (delay : Duration) :
    Goes c (l.sleep d c now previous rhythm delay) := by
  unfold sleep
  exact l.unlessStopping_goes d c trivial

/-- A loop that has published what it found goes on. -/
theorem publish_goes {found : Statistics} (h : found.currentMark ≤ highWater c.log)
    (rhythm : Rhythm) (delay : Duration) : Goes c (l.publish d c now found rhythm delay) := by
  have hadvance := d.publish_advances c h
  unfold publish
  split_ifs
  · exact goes_none d c
  · split
    · next heq =>
      rw [heq] at hadvance
      exact (l.sleep_goes _ _ now found rhythm delay).after hadvance
    · next heq =>
      rw [heq] at hadvance
      exact (goes_none _ _).after hadvance

/-- A loop that waits for writers, or begins to scan a safe zone, goes on. -/
theorem bide_goes (previous found : Statistics) (rhythm : Rhythm) :
    Goes c (l.bide d c now previous found rhythm) := by
  unfold bide
  split
  · exact goes_none d c
  · dsimp only
    split_ifs
    · exact ⟨.measure c _, fun l' hl' => Option.some.inj hl' ▸ trivial⟩
    · refine (l.unlessStopping_goes d _ ?_).after (.measure c _)
      trivial

/-- A loop goes on with what its scan has found. -/
theorem classify_goes {found : Statistics} (h : found.currentMark ≤ highWater c.log)
    (previous : Statistics) (rhythm : Rhythm) :
    Goes c (l.classify d c now previous found rhythm) := by
  let measured := c.measure (·.recordDetection (found.status previous))
  have hmeasured : Advance c measured := .measure c _
  unfold classify
  dsimp only
  split
  · exact (l.publish_goes d measured now h rhythm rhythm.fast).after hmeasured
  · exact (l.publish_goes d measured now h rhythm rhythm.slow).after hmeasured
  · exact (l.bide_goes d measured now previous found rhythm).after hmeasured

/-- A loop goes on after a scan that failed. -/
theorem recover_goes (previous : Statistics) (rhythm : Rhythm) (fault : Fault) :
    Goes c (l.recover d c now previous rhythm fault) := by
  cases fault with
  | error e => exact (l.sleep_goes d _ now previous rhythm rhythm.slow).after (.measure c _)
  | crash cause => exact goes_none d c

/-- A step of an informed loop is an advance and leads on informed. -/
theorem step_goes (h : l.stage.Informed (highWater c.log)) (hrow : 0 ≤ highWater c.log) :
    Goes c (l.step d c now) := by
  obtain ⟨stage, seen⟩ := l
  cases stage with
  | bootstrapping scan =>
    obtain ⟨hadvance, hinformed⟩ := scan.step_informed h hrow now
    simp only [step]
    split
    · next heq =>
      rw [heq] at hadvance hinformed
      exact ⟨hadvance, fun l' hl' => Option.some.inj hl' ▸ hinformed⟩
    · next heq =>
      -- The scan has recorded what it found, so that it may be published.
      rw [heq] at hadvance hinformed
      have hpublished := d.publish_advances _ hinformed
      split
      · next hpublish =>
        rw [hpublish] at hpublished
        exact ⟨hadvance.trans hpublished, fun l' hl' => Option.some.inj hl' ▸ trivial⟩
      · next hpublish =>
        rw [hpublish] at hpublished
        exact (goes_none _ _).after (hadvance.trans hpublished)
    · next heq =>
      rw [heq] at hadvance
      exact (goes_none d _).after (hadvance.trans (.measure _ _))
    · next heq =>
      rw [heq] at hadvance
      exact (goes_none d _).after hadvance
  | opening previous =>
    simp only [step]
    split
    · exact unlessStopping_goes _ d c trivial
    · exact goes_none d c
  | running previous rhythm activity =>
    cases activity with
    | detecting scan =>
      obtain ⟨hadvance, hinformed⟩ := scan.step_informed h hrow now
      simp only [step]
      split
      · next heq =>
        rw [heq] at hadvance hinformed
        exact ⟨hadvance, fun l' hl' => Option.some.inj hl' ▸ hinformed⟩
      · next heq =>
        rw [heq] at hadvance hinformed
        exact (classify_goes _ d _ now hinformed previous rhythm).after hadvance
      · next heq =>
        rw [heq] at hadvance
        exact (recover_goes _ d _ now previous rhythm _).after hadvance
    | biding due harbor =>
      simp only [step]
      split
      · exact ⟨.refl c, fun l' hl' => Option.some.inj hl' ▸ trivial⟩
      · exact goes_none d c
    | rescanning scan =>
      obtain ⟨hadvance, hinformed⟩ := scan.step_informed h hrow now
      simp only [step]
      split
      · next heq =>
        rw [heq] at hadvance hinformed
        exact ⟨hadvance, fun l' hl' => Option.some.inj hl' ▸ hinformed⟩
      · next heq =>
        rw [heq] at hadvance hinformed
        exact (publish_goes _ d _ now hinformed rhythm _).after hadvance
      · next heq =>
        rw [heq] at hadvance
        exact (recover_goes _ d _ now previous rhythm _).after hadvance
    | sleeping due =>
      simp only [step]
      split
      · exact unlessStopping_goes _ d c trivial
      · exact goes_none d c

end DetectionLoop

end Tidemark
