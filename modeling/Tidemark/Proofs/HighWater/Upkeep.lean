import Tidemark.Proofs.HighWater.Dating
import Tidemark.Proofs.HighWater.Signal

/-!
# Settings that detection can be kept up with

Some settings that a configuration accepts bring tasks down: a heartbeat whose period is zero ends
at once, a text whose parts add up to more than a duration holds crashes whoever reads it, and a
leading edge can be so long that no timestamp lies behind it. With all others
(`Config.Polling.Bearable`) a loop ends only for a reason that is none of the settings
(`DetectionLoop.Excused`), and the heartbeat ends when the agent is being stopped
(`Agent.Kept`).
-/

namespace Tidemark

/-! ## Settings -/

namespace Config.Polling

/-- The delays of a loop with these settings. -/
def rhythm (p : Polling) : Except Crash Rhythm := Detection.rhythm { config := p }

/-- Settings that bring down no task of an agent for as long as the clock of the world does not go
beyond a time. -/
structure Bearable (p : Polling) (latest : Timestamp) : Prop where
  /-- The heartbeat has a period. -/
  period : ∃ period, p.healthCheck = .ok period ∧ period ≠ .zero
  /-- The delays can be computed, and there is a time behind the leading edge. -/
  rhythm : ∃ rhythm, p.rhythm = .ok rhythm ∧ ∃ harbor, latest.plus rhythm.leadingEdge = .ok harbor

end Config.Polling

/-- There is a time so much later, if there is one that much later than a later time. -/
theorem Timestamp.plus_of_le {t latest harbor : Timestamp} {d : Duration}
    (h : latest.plus d = .ok harbor) (ht : t ≤ latest) : ∃ harbor, t.plus d = .ok harbor := by
  have hnanos : t.nanos ≤ latest.nanos := ht
  unfold plus at h ⊢
  split_ifs at h with hlast
  exact ⟨_, if_pos (by omega)⟩

/-- What was found can be published exactly if the distance of the mark to the highest position can
be represented. -/
theorem Detection.publish_eq_ok_iff {L : Type} (d : Detection) (c : Commons L)
    (found : Statistics) : (d.publish c found).1 = .ok () ↔
      (found.highestSequence - found.currentMark).Fits := by
  unfold publish Commons.measure? Metrics.setHighWaterMark Position.lead Position.distance
  split_ifs with hfits
  · exact iff_of_true rfl hfits
  · exact iff_of_false (fun heq => by cases heq) hfits

/-! ## Loops -/

/-- The scan that a loop makes. -/
def Activity.scan? : Activity → Option Scan
  | .detecting scan | .rescanning scan => some scan
  | .biding _ _ | .sleeping _ => none

/-- The scan that a loop makes. -/
def LoopStage.scan? : LoopStage → Option Scan
  | .bootstrapping scan => some scan
  | .opening _ => none
  | .running _ _ activity => activity.scan?

/-- A loop goes by the delays that are configured, and works on nothing that is dated after a
time. -/
def LoopStage.Regular (rhythm : Rhythm) (latest : Timestamp) : LoopStage → Prop
  | .bootstrapping scan => scan.pass.Dated latest
  | .opening previous => previous.timestamp ≤ latest
  | .running previous r activity =>
    r = rhythm ∧ previous.timestamp ≤ latest ∧ ∀ scan ∈ activity.scan?, scan.pass.Dated latest

section Loops

variable {L : Type} [EventLog L]

/-- A step of a scan crashes, or finds something that cannot be published. -/
def Scan.GoesWrong (s : Scan) (c : Commons L) (now : Moment) : Prop :=
  match (s.step c now).1 with
  | .ended (.ok found) => ¬ (found.highestSequence - found.currentMark).Fits
  | .ended (.error (.crash _)) => True
  | _ => False

/-- A scan that has found something goes wrong if that cannot be published. -/
theorem Scan.goesWrong_of_found {s : Scan} {c c' : Commons L} {now : Moment} {found : Statistics}
    (heq : s.step c now = (.ended (.ok found), c')) :
    s.GoesWrong c now ↔ ¬ (found.highestSequence - found.currentMark).Fits := by
  rw [GoesWrong, heq]

/-- A scan that has not found anything goes wrong if it crashes. -/
theorem Scan.goesWrong_of_fault {s : Scan} {c c' : Commons L} {now : Moment} {fault : Fault}
    (heq : s.step c now = (.ended (.error fault), c')) :
    s.GoesWrong c now ↔ ∃ cause, fault = .crash cause := by
  rw [GoesWrong, heq]
  cases fault <;> simp

/-- A step of a scan ends it with an error. -/
def Scan.Fails (s : Scan) (c : Commons L) (now : Moment) : Prop :=
  ∃ e, (s.step c now).1 = .ended (.error (.error e))

namespace DetectionLoop

/-- The settings are not to blame if the step of a loop ends it: the agent is being stopped, or the
scan of the loop goes wrong, or its first scan fails. -/
def Excused (l : DetectionLoop) (d : Detection) (c : Commons L) (now : Moment) : Prop :=
  d.stopping.value = true ∨ ∃ scan ∈ l.stage.scan?,
    scan.GoesWrong c now ∨ l.stage = .bootstrapping scan ∧ scan.Fails c now

/-- A part of a step of a loop leaves a regular one, or none for a reason. -/
structure Keeps (rhythm : Rhythm) (latest : Timestamp) (excuse : Prop) (out : Stepped L) :
    Prop where
  regular : ∀ l, out.1 = some l → l.stage.Regular rhythm latest
  excused : out.1 = none → excuse

variable {rhythm : Rhythm} {latest : Timestamp} {excuse : Prop}

omit [EventLog L] in
/-- The reason may be given in another way. -/
theorem Keeps.imp {out : Stepped L} (h : Keeps rhythm latest excuse out) {excuse' : Prop}
    (himp : excuse → excuse') : Keeps rhythm latest excuse' out :=
  ⟨h.regular, himp ∘ h.excused⟩

omit [EventLog L] in
/-- A loop that goes on regularly. -/
theorem Keeps.goesOn {l : DetectionLoop} {d : Detection} {c : Commons L}
    (h : l.stage.Regular rhythm latest) : Keeps rhythm latest excuse (some l, d, c) :=
  ⟨fun _ heq => Option.some.inj heq ▸ h, fun heq => (by cases heq)⟩

omit [EventLog L] in
/-- A loop that ends for a reason. -/
theorem Keeps.ends {d : Detection} {c : Commons L} (h : excuse) :
    Keeps rhythm latest excuse (none, d, c) := ⟨fun _ heq => (by cases heq), fun _ => h⟩

variable (l : DetectionLoop) (d : Detection) (c : Commons L) (now : Moment)

omit [EventLog L] in
/-- A loop that goes on unless the agent is being stopped. -/
theorem unlessStopping_keeps {stage : LoopStage} (h : stage.Regular rhythm latest) :
    Keeps rhythm latest (d.stopping.value = true) (l.unlessStopping d c stage) := by
  unfold unlessStopping
  split_ifs with hstopping
  · exact .ends hstopping
  · exact .goesOn h

variable {previous found : Statistics}

omit [EventLog L] in
/-- A loop that waits before the next round. -/
theorem sleep_keeps (h : previous.timestamp ≤ latest) (delay : Duration) :
    Keeps rhythm latest (d.stopping.value = true) (l.sleep d c now previous rhythm delay) :=
  l.unlessStopping_keeps d c ⟨rfl, h, fun _ hs => (by cases hs)⟩

omit [EventLog L] in
/-- A loop that publishes what it has found. -/
theorem publish_keeps (h : found.timestamp ≤ latest) (delay : Duration) :
    Keeps rhythm latest
      (d.stopping.value = true ∨ ¬ (found.highestSequence - found.currentMark).Fits)
      (l.publish d c now found rhythm delay) := by
  have hsame := d.publish_same c found
  have hfits := d.publish_eq_ok_iff c found
  unfold publish
  split_ifs with hstopping
  · exact .ends (.inl hstopping)
  · split
    · next d' c' heq =>
      rw [heq] at hsame
      refine (l.sleep_keeps d' c' now h delay).imp fun hset => .inl ?_
      rw [← hset, hsame.stopping]
    · next cause d' c' heq =>
      rw [heq] at hfits
      exact .ends (.inr (mt hfits.mpr (by simp)))

omit [EventLog L] in
/-- A loop that goes on after a scan that failed or crashed. -/
theorem recover_keeps (h : previous.timestamp ≤ latest) (fault : Fault) :
    Keeps rhythm latest (d.stopping.value = true ∨ ∃ cause, fault = .crash cause)
      (l.recover d c now previous rhythm fault) := by
  cases fault with
  | error e => exact (l.sleep_keeps d _ now h rhythm.slow).imp .inl
  | crash cause => exact .ends (.inr ⟨cause, rfl⟩)

/-- A loop that begins the next round. -/
theorem nextRound_keeps (h : previous.timestamp ≤ latest) :
    Keeps rhythm latest (d.stopping.value = true) (l.nextRound d c now previous rhythm) :=
  l.unlessStopping_keeps d c
    ⟨rfl, h, fun _ hs => Option.some.inj hs ▸ Scan.dated_begin c now none latest⟩

/-- A loop that begins to scan a safe zone. -/
theorem rescan_keeps (h : previous.timestamp ≤ latest) (harbor : Timestamp) :
    Keeps rhythm latest excuse (l.rescan d c now previous rhythm harbor) :=
  .goesOn ⟨rfl, h, fun _ hs => Option.some.inj hs ▸ Scan.dated_begin c now (some harbor) latest⟩

/-- A loop that gives time to writers, if there is a time behind the leading edge. -/
theorem bide_keeps (h : previous.timestamp ≤ latest) {harbor : Timestamp}
    (hharbor : latest.plus rhythm.leadingEdge = .ok harbor) :
    Keeps rhythm latest (d.stopping.value = true) (l.bide d c now previous found rhythm) := by
  obtain ⟨harbor, hplus⟩ := Timestamp.plus_of_le hharbor h
  unfold bide
  rw [hplus]
  dsimp only
  split_ifs
  · exact l.rescan_keeps d _ now h harbor
  · exact l.unlessStopping_keeps d _ ⟨rfl, h, fun _ hs => (by cases hs)⟩

/-- A loop that goes on after a scan. -/
theorem classify_keeps (hprevious : previous.timestamp ≤ latest) (hfound : found.timestamp ≤ latest)
    {harbor : Timestamp} (hharbor : latest.plus rhythm.leadingEdge = .ok harbor) :
    Keeps rhythm latest
      (d.stopping.value = true ∨ ¬ (found.highestSequence - found.currentMark).Fits)
      (l.classify d c now previous found rhythm) := by
  unfold classify
  dsimp only
  split
  · exact l.publish_keeps d _ now hfound _
  · exact l.publish_keeps d _ now hfound _
  · exact (l.bide_keeps d _ now hprevious hharbor).imp .inl

omit [EventLog L] in
/-- A loop that heeds the stop signal goes on unless it is set. -/
theorem heed_cases : (l.heed d = none ∧ d.stopping.value = true) ∨
    ∃ seen, l.heed d = some { l with seen := seen } := by
  unfold heed
  split_ifs with hnew hset
  · exact .inl ⟨rfl, hset⟩
  · exact .inr ⟨_, rfl⟩
  · exact .inr ⟨l.seen, rfl⟩

variable [TimelyLog L]

/-- A step of a regular loop leaves a regular one, or none for a reason that is none of the
settings. -/
theorem step_keeps (h : l.stage.Regular rhythm latest) (hrhythm : d.rhythm = .ok rhythm)
    {harbor : Timestamp} (hharbor : latest.plus rhythm.leadingEdge = .ok harbor)
    (hnow : c.time now ≤ latest) :
    Keeps rhythm latest (l.Excused d c now) (l.step d c now) := by
  obtain ⟨stage, seen⟩ := l
  cases stage with
  | bootstrapping scan =>
    have hdated : (scan.step c now).1.Dated latest := scan.step_dated h hnow
    have hwrong (hw : scan.GoesWrong c now) :
        Excused ⟨.bootstrapping scan, seen⟩ d c now := .inr ⟨scan, rfl, .inl hw⟩
    simp only [step]
    cases heq : scan.step c now with
    | mk next c' =>
      rw [heq] at hdated
      cases next with
      | more scan' => exact .goesOn hdated
      | ended outcome =>
        cases outcome with
        | ok found =>
          have hfits := d.publish_eq_ok_iff c' found
          dsimp only
          split
          · exact .goesOn hdated
          · next hpublish =>
            rw [hpublish] at hfits
            exact .ends (hwrong ((Scan.goesWrong_of_found heq).mpr (by simpa using hfits)))
        | error fault =>
          cases fault with
          | error e => exact .ends (.inr ⟨scan, rfl, .inr ⟨rfl, e, by rw [heq]⟩⟩)
          | crash cause => exact .ends (hwrong ((Scan.goesWrong_of_fault heq).mpr ⟨cause, rfl⟩))
  | opening previous =>
    simp only [step, hrhythm]
    exact (nextRound_keeps _ d c now h).imp .inl
  | running previous r activity =>
    obtain ⟨rfl, hprevious, hscan⟩ := h
    cases activity with
    | detecting scan =>
      have hdated : (scan.step c now).1.Dated latest := scan.step_dated (hscan scan rfl) hnow
      have hwrong (hw : d.stopping.value = true ∨ scan.GoesWrong c now) :
          Excused ⟨.running previous r (.detecting scan), seen⟩ d c now :=
        hw.imp id fun hw => ⟨scan, rfl, .inl hw⟩
      simp only [step]
      cases heq : scan.step c now with
      | mk next c' =>
        rw [heq] at hdated
        cases next with
        | more scan' => exact .goesOn ⟨rfl, hprevious, fun _ hs => Option.some.inj hs ▸ hdated⟩
        | ended outcome =>
          cases outcome with
          | ok found =>
            exact (classify_keeps _ d c' now hprevious hdated hharbor).imp fun hex =>
              hwrong (hex.imp id (Scan.goesWrong_of_found heq).mpr)
          | error fault =>
            exact (recover_keeps _ d c' now hprevious fault).imp fun hex =>
              hwrong (hex.imp id (Scan.goesWrong_of_fault heq).mpr)
    | biding due harbor =>
      rcases heed_cases ⟨.running previous r (.biding due harbor), seen⟩ d with
        ⟨hheed, hstopping⟩ | ⟨seen', hheed⟩
      · simp only [step, hheed]
        exact .ends (.inl hstopping)
      · simp only [step, hheed]
        exact rescan_keeps _ d c now hprevious harbor
    | rescanning scan =>
      have hdated : (scan.step c now).1.Dated latest := scan.step_dated (hscan scan rfl) hnow
      have hwrong (hw : d.stopping.value = true ∨ scan.GoesWrong c now) :
          Excused ⟨.running previous r (.rescanning scan), seen⟩ d c now :=
        hw.imp id fun hw => ⟨scan, rfl, .inl hw⟩
      simp only [step]
      cases heq : scan.step c now with
      | mk next c' =>
        rw [heq] at hdated
        cases next with
        | more scan' => exact .goesOn ⟨rfl, hprevious, fun _ hs => Option.some.inj hs ▸ hdated⟩
        | ended outcome =>
          cases outcome with
          | ok found =>
            exact (publish_keeps _ d c' now hdated r.fast).imp fun hex =>
              hwrong (hex.imp id (Scan.goesWrong_of_found heq).mpr)
          | error fault =>
            exact (recover_keeps _ d c' now hprevious fault).imp fun hex =>
              hwrong (hex.imp id (Scan.goesWrong_of_fault heq).mpr)
    | sleeping due =>
      rcases heed_cases ⟨.running previous r (.sleeping due), seen⟩ d with
        ⟨hheed, hstopping⟩ | ⟨seen', hheed⟩
      · simp only [step, hheed]
        exact .ends (.inl hstopping)
      · simp only [step, hheed]
        exact (nextRound_keeps _ d c now hprevious).imp .inl

end DetectionLoop

end Loops

/-! ## Agents -/

namespace Agent

/-- An agent that its settings have not brought down: its heartbeat has ended only if the agent is
being stopped, and its loops are regular. -/
structure Kept (config : Config.Polling) (rhythm : Rhythm) (latest : Timestamp) (a : Agent) :
    Prop where
  config : a.detection.config = config
  period : ∀ beat, a.heartbeat = some beat → beat.period ≠ .zero
  beats : ∀ beat, a.heartbeat = some beat → beat.ended = true → a.detection.stopping.value = true
  loops : ∀ x ∈ a.loops, x.2.stage.Regular rhythm latest

variable {L : Type} [EventLog L] {config : Config.Polling} {rhythm : Rhythm} {latest : Timestamp}
  {a : Agent}

omit [EventLog L] in
/-- An agent without loops and without a heartbeat. -/
theorem kept_new (config : Config.Polling) (rhythm : Rhythm) (latest : Timestamp) :
    (Agent.new config).Kept config rhythm latest :=
  ⟨rfl, fun _ h => (by cases h), fun _ h => (by cases h), fun _ h => (by cases h)⟩

omit [EventLog L] in
/-- An agent that goes on with another heartbeat. -/
theorem Kept.beat (h : a.Kept config rhythm latest) {beat : Heartbeat}
    (hperiod : beat.period ≠ .zero)
    (hended : beat.ended = true → a.detection.stopping.value = true) :
    ({ a with heartbeat := some beat } : Agent).Kept config rhythm latest :=
  ⟨h.config, fun _ heq => Option.some.inj heq ▸ hperiod, fun _ heq => Option.some.inj heq ▸ hended,
    h.loops⟩

omit [EventLog L] in
/-- An agent that has published something. -/
theorem Kept.redetect (h : a.Kept config rhythm latest) {d : Detection} (hd : a.detection.Same d) :
    ({ a with detection := d } : Agent).Kept config rhythm latest :=
  ⟨hd.config.trans h.config, h.period, fun beat hbeat hended =>
    (congrArg _ hd.stopping).trans (h.beats beat hbeat hended), h.loops⟩

omit [EventLog L] in
/-- An agent that adds a regular loop. -/
theorem Kept.addLoop (h : a.Kept config rhythm latest) {stage : LoopStage}
    (hstage : stage.Regular rhythm latest) (seen : Nat) :
    (a.addLoop stage seen).Kept config rhythm latest := by
  refine ⟨h.config, h.period, h.beats, fun x hx => ?_⟩
  rcases List.mem_append.mp hx with hx | hx
  · exact h.loops x hx
  · rw [List.mem_singleton.mp hx]
    exact hstage

omit [EventLog L] in
/-- An agent that moves a loop on. -/
theorem Kept.setLoop (h : a.Kept config rhythm latest) (k : Nat) {l : Option DetectionLoop}
    (hl : ∀ l', l = some l' → l'.stage.Regular rhythm latest) :
    (a.setLoop k l).Kept config rhythm latest := by
  refine ⟨h.config, h.period, h.beats, fun x hx => ?_⟩
  obtain ⟨⟨j, old⟩, hold, hx⟩ := List.mem_filterMap.mp hx
  dsimp only at hx
  split_ifs at hx
  · obtain ⟨l', hl', rfl⟩ := Option.map_eq_some_iff.mp hx
    exact hl l' hl'
  · cases hx
    exact h.loops _ hold

/-- An agent that replaces a dead loop. -/
theorem Kept.revive (h : a.Kept config rhythm latest) (c : Commons L) (now : Moment) (seen : Nat) :
    (a.revive c now seen).1.Kept config rhythm latest := by
  unfold Agent.revive
  split_ifs
  · have hcounted : ({ a with restarts := a.restarts + 1 } : Agent).Kept config rhythm latest :=
      ⟨h.config, h.period, h.beats, h.loops⟩
    have hstage : (LoopStage.bootstrapping (.begin_ c now none)).Regular rhythm latest :=
      Scan.dated_begin c now none latest
    exact hcounted.addLoop hstage seen
  · exact h

/-- A step of the heartbeat. -/
theorem Kept.stepHeartbeat (h : a.Kept config rhythm latest) (c : Commons L) (now : Moment) :
    (a.stepHeartbeat c now).1.Kept config rhythm latest := by
  unfold Agent.stepHeartbeat
  split
  · exact h
  · next beat hbeat =>
    have hperiod := h.period beat hbeat
    have hended := h.beats beat hbeat
    dsimp only
    split
    · rw [if_neg hperiod]
      exact h.beat hperiod hended
    · -- The heartbeat ends only where it has seen the stop signal set.
      split_ifs with hnew hset hset
      · exact h.beat hperiod fun _ => hset
      · exact h.beat hperiod hended
      · exact h.beat hperiod fun _ => hset
      · refine Kept.revive ?_ c now beat.seen
        exact h.beat hperiod hended

/-- A beat that comes late. -/
theorem Kept.lateBeat (h : a.Kept config rhythm latest) (c : Commons L) (now : Moment) :
    (a.lateBeat c now).1.Kept config rhythm latest := by
  unfold Agent.lateBeat
  split
  · next period seen due hbeat =>
    have hperiod : period ≠ .zero := h.period _ hbeat
    refine Kept.revive ?_ c now seen
    exact h.beat hperiod nofun
  · exact h

section Steps

variable [TimelyLog L] (h : a.Kept config rhythm latest) (hrhythm : config.rhythm = .ok rhythm)
  {harbor : Timestamp} (hharbor : latest.plus rhythm.leadingEdge = .ok harbor) {c : Commons L}
  {now : Moment} (hnow : c.time now ≤ latest)

include h hrhythm hharbor hnow

/-- A step of a loop that is made in time. -/
theorem Kept.keeps {k : Nat} {l : DetectionLoop} (hl : a.loops.lookup k = some l) :
    DetectionLoop.Keeps rhythm latest (l.Excused a.detection c now) (l.step a.detection c now) := by
  obtain ⟨before, after, hloops, -⟩ := List.lookup_eq_some_iff.mp hl
  have hregular : l.stage.Regular rhythm latest := h.loops (k, l) (by simp [hloops])
  exact l.step_keeps a.detection c now hregular (by rw [← hrhythm, ← h.config]; rfl) hharbor hnow

/-- A step of a task that is made in time. -/
theorem Kept.step (task : AgentTask) : (a.step c now task).1.Kept config rhythm latest := by
  cases task with
  | heartbeat => exact h.stepHeartbeat c now
  | loop k =>
    simp only [Agent.step]
    cases hl : a.loops.lookup k with
    | none => exact h
    | some l =>
      have hnext := h.redetect (l.step_published a.detection c now).1
      exact hnext.setLoop k (h.keeps hrhythm hharbor hnow hl).regular

end Steps

omit [EventLog L] in
/-- Setting off the loop and the heartbeat, which crashes only if what was found cannot be
published. -/
theorem Kept.launch (h : a.Kept config rhythm latest) {period : Duration}
    (hperiod : config.healthCheck = .ok period) (hzero : period ≠ .zero) {found : Statistics}
    (hfound : found.timestamp ≤ latest) (c : Commons L) :
    (a.launch c found).2.1.Kept config rhythm latest ∧
      ((a.launch c found).1 = .ok found ∨
        ¬ (found.highestSequence - found.currentMark).Fits ∧
          ∃ cause, (a.launch c found).1 = .error (.crash cause)) := by
  have hsame := a.detection.publish_same c found
  have hfits := a.detection.publish_eq_ok_iff c found
  unfold Agent.launch
  split
  · next cause d c' heq =>
    rw [heq] at hsame hfits
    exact ⟨h.redetect hsame, .inr ⟨mt hfits.mpr (by simp), cause, rfl⟩⟩
  · next d c' heq =>
    rw [heq] at hsame
    have hd : d.config.healthCheck = .ok period := by rw [hsame.config, h.config, hperiod]
    rw [hd]
    have hstage : (LoopStage.opening found).Regular rhythm latest := hfound
    have hadded := (h.redetect hsame).addLoop hstage d.stopping.version
    exact ⟨hadded.beat hzero nofun, .inl rfl⟩

/-! ### Beats -/

/-- A beat leaves no dead loop behind: it replaces the loop that the agent looks after if that is
dead. -/
structure BeatsOver (a : Agent) (a' : Agent) : Prop where
  alive : a'.isDead = false
  restarts : a'.restarts = a.restarts + if a.isDead then 1 else 0

/-- How many steps the heartbeat takes before the next one is a beat: it may be yet to begin, and it
may be yet to take note of the stop signal. -/
def delays (a : Agent) : ℕ :=
  match a.heartbeat with
  | none => 0
  | some beat =>
    (if beat.next.isNone then 1 else 0) + if a.detection.stopping.isNew beat.seen then 1 else 0

/-- An agent that looks after its loop beats. -/
theorem revive_beats (a : Agent) (c : Commons L) (now : Moment) (seen : Nat) :
    a.BeatsOver (a.revive c now seen).1 := by
  unfold Agent.revive
  split_ifs with hdead
  · exact ⟨by simp [isDead, isAlive, Agent.addLoop], by simp [Agent.addLoop, hdead]⟩
  · exact ⟨by simpa using hdead, by simp [hdead]⟩

/-- With each of its steps the heartbeat of a running agent beats or comes closer to that. -/
theorem Kept.beats_or_delays (h : a.Kept config rhythm latest) (hrunning : a.isRunning = true)
    (c : Commons L) (now : Moment) : a.BeatsOver (a.stepHeartbeat c now).1 ∨
      (a.stepHeartbeat c now).1.delays < a.delays := by
  obtain ⟨hsome, hset⟩ := Bool.and_eq_true_iff.mp hrunning
  obtain ⟨beat, hbeat⟩ := Option.isSome_iff_exists.mp hsome
  have hnot : a.detection.stopping.value = false := by simpa using hset
  have hperiod := h.period beat hbeat
  cases hnext : beat.next with
  | none =>
    simp only [Agent.stepHeartbeat, hbeat, hnext, if_neg hperiod]
    exact .inr (by simp [delays, hbeat, hnext])
  | some due =>
    cases hnew : a.detection.stopping.isNew beat.seen with
    | true =>
      have hseen : a.detection.stopping.isNew a.detection.stopping.version = false := by
        simp [Watched.isNew]
      simp only [Agent.stepHeartbeat, hbeat, hnext, hnew, hnot, Bool.false_eq_true, if_true,
        if_false]
      exact .inr (by simp [delays, hbeat, hnext, hnew, hseen])
    | false =>
      simp only [Agent.stepHeartbeat, hbeat, hnext, hnew, hnot, Bool.false_eq_true, if_false]
      have hbeats := revive_beats
        { a with heartbeat := some { beat with next := some (nextBeat due now beat.period) } }
        c now beat.seen
      exact .inl ⟨hbeats.alive, hbeats.restarts⟩

/-- A beat that comes late is one, or nothing happens. -/
theorem lateBeat_beats (a : Agent) (c : Commons L) (now : Moment) :
    a.BeatsOver (a.lateBeat c now).1 ∨ (a.lateBeat c now).1 = a := by
  unfold Agent.lateBeat
  split
  · next period seen due hbeat =>
    have hbeats := revive_beats
      { a with heartbeat := some ⟨period, seen, some (nextBeat due now period), false⟩ } c now seen
    exact .inl ⟨hbeats.alive, hbeats.restarts⟩
  · exact .inr rfl

/-- The heartbeat and the stop signal are the same. -/
structure SamePulse (a a' : Agent) : Prop where
  heartbeat : a'.heartbeat = a.heartbeat
  stopping : a'.detection.stopping = a.detection.stopping

omit [EventLog L] in
/-- The next beat is as far away where heartbeat and signal are the same. -/
theorem SamePulse.delays {a' : Agent} (h : SamePulse a a') : a'.delays = a.delays := by
  unfold Agent.delays
  rw [h.heartbeat, h.stopping]

/-- A step of a loop changes neither the heartbeat nor the signal. -/
theorem step_loop_pulse (a : Agent) (c : Commons L) (now : Moment) (k : Nat) :
    SamePulse a (a.step c now (.loop k)).1 := by
  have hstopping := (a.step_published c now (.loop k)).1.stopping
  refine ⟨?_, hstopping⟩
  simp only [Agent.step]
  split <;> rfl

/-! ### Loops -/

omit [EventLog L] in
/-- A loop is alive as long as it is on the list. -/
theorem isAlive_iff {k : Nat} : a.isAlive k = true ↔ ∃ l, (k, l) ∈ a.loops := by
  simp only [isAlive, List.any_eq_true, beq_iff_eq]
  constructor
  · rintro ⟨⟨j, l⟩, hl, hk⟩
    exact ⟨l, hk ▸ hl⟩
  · rintro ⟨l, hl⟩
    exact ⟨(k, l), hl, rfl⟩

omit [EventLog L] in
/-- The loops that are alive where none was removed. -/
theorem isAlive_of_loops {a' : Agent} (h : a.loops <+: a'.loops) {k : Nat}
    (hk : a.isAlive k = true) : a'.isAlive k = true := by
  obtain ⟨l, hl⟩ := isAlive_iff.mp hk
  exact isAlive_iff.mpr ⟨l, h.subset hl⟩

omit [EventLog L] in
/-- Moving a loop on leaves the others alive, and that one unless it has ended. -/
theorem isAlive_setLoop {j k : Nat} {l : Option DetectionLoop} (hk : a.isAlive k = true)
    (hl : k = j → l.isSome) : (a.setLoop j l).isAlive k = true := by
  obtain ⟨old, hold⟩ := isAlive_iff.mp hk
  rw [isAlive_iff]
  by_cases hkj : k = j
  · obtain ⟨l', hl'⟩ := Option.isSome_iff_exists.mp (hl hkj)
    exact ⟨l', List.mem_filterMap.mpr ⟨(k, old), hold, by simp [hkj, hl']⟩⟩
  · exact ⟨old, List.mem_filterMap.mpr ⟨(k, old), hold, by simp [hkj]⟩⟩

omit [EventLog L] in
/-- A beat removes no loop. -/
theorem Beaten.keeps_loops {c : Commons L} {out : Agent × Commons L} (h : Beaten a c out) :
    a.loops <+: out.1.loops := by
  cases h with
  | nothing => exact List.prefix_rfl
  | noted => exact List.prefix_rfl
  | replaced => exact List.prefix_append a.loops _

omit [EventLog L] in
/-- Setting off the loop and the heartbeat removes no loop. -/
theorem launch_keeps_loops (a : Agent) (c : Commons L) (found : Statistics) :
    a.loops <+: (a.launch c found).2.1.loops := by
  unfold Agent.launch
  split
  · exact List.prefix_rfl
  · dsimp only
    split <;> exact List.prefix_append a.loops _

/-- A step of a task leaves all loops alive but the one that has ended with it. -/
theorem isAlive_step (a : Agent) (c : Commons L) (now : Moment) (task : AgentTask) {k : Nat}
    (hk : a.isAlive k = true) : (a.step c now task).1.isAlive k = true ∨
      ∃ l, task = .loop k ∧ a.loops.lookup k = some l ∧ (l.step a.detection c now).1 = none := by
  cases task with
  | heartbeat => exact .inl (isAlive_of_loops (a.beaten_stepHeartbeat c now).keeps_loops hk)
  | loop j =>
    simp only [Agent.step]
    cases hl : a.loops.lookup j with
    | none => exact .inl hk
    | some l =>
      by_cases hend : k = j ∧ (l.step a.detection c now).1 = none
      · obtain ⟨rfl, hnone⟩ := hend
        exact .inr ⟨l, rfl, hl, hnone⟩
      · refine .inl (isAlive_setLoop (a := { a with detection := _ }) hk fun hkj => ?_)
        exact Option.isSome_iff_ne_none.mpr fun hnone => hend ⟨hkj, hnone⟩

end Agent

/-! ## Starting and stopping -/

section Calls

variable {L : Type} [EventLog L] {config : Config.Polling} {rhythm : Rhythm} {latest : Timestamp}
  {a : Agent}

omit [EventLog L] in
/-- An agent that is told to stop. -/
theorem Agent.Kept.stop (h : a.Kept config rhythm latest) : a.stop.2.Kept config rhythm latest :=
  ⟨h.config, h.period, fun _ _ _ => rfl, h.loops⟩

/-- An agent that someone begins to start. -/
theorem Agent.Kept.start (h : a.Kept config rhythm latest) (c : Commons L) (now : Moment) :
    (a.start c now).2.Kept config rhythm latest := by
  unfold Agent.start
  split_ifs with hsome
  · exact h
  · have hnone : a.heartbeat = none := Option.not_isSome_iff_eq_none.mp hsome
    refine ⟨h.config, h.period, fun beat hbeat => ?_, h.loops⟩
    rw [show ({ a with detection := _ } : Agent).heartbeat = a.heartbeat from rfl, hnone] at hbeat
    cases hbeat

namespace AgentCall

/-- Whoever starts an agent makes the first scan, which works on nothing that is dated after a time,
and the agent has no heartbeat meanwhile. -/
def Kept (latest : Timestamp) (a : Agent) : AgentCall → Prop
  | .starting scan => scan.pass.Dated latest ∧ a.heartbeat = none
  | _ => True

/-- The agent could not be started because of a crash. -/
def HasCrashed : AgentCall → Prop
  | .started (.error (.crash _)) => True
  | _ => False

/-- The settings are not to blame if whoever starts an agent crashes: the first scan goes wrong. -/
def Excused (c : Commons L) (now : Moment) : AgentCall → Prop
  | .starting scan => scan.GoesWrong c now
  | _ => False

omit [EventLog L] in
/-- While an agent does not get a heartbeat by itself, whoever starts it goes on. -/
theorem Kept.of_heartbeat {call : AgentCall} {a' : Agent} (h : call.Kept latest a)
    (hsome : a'.heartbeat.isSome = a.heartbeat.isSome) : call.Kept latest a' := by
  cases call with
  | starting scan =>
    refine ⟨h.1, ?_⟩
    rw [← Option.not_isSome_iff_eq_none, hsome, h.2]
    simp
  | _ => trivial

/-- Beginning to start an agent does not crash. -/
theorem kept_start (a : Agent) (c : Commons L) (now : Moment) (latest : Timestamp) :
    (a.start c now).1.Kept latest (a.start c now).2 ∧ ¬ (a.start c now).1.HasCrashed := by
  unfold Agent.start
  split_ifs with hsome
  · exact ⟨trivial, id⟩
  · exact ⟨⟨Scan.dated_begin c now none latest, Option.not_isSome_iff_eq_none.mp hsome⟩, id⟩

/-- A step of someone who starts or stops an agent keeps the agent, and crashes only if the settings
are not to blame. -/
theorem Kept.step [TimelyLog L] {call : AgentCall} (hcall : call.Kept latest a)
    (h : a.Kept config rhythm latest) {period : Duration}
    (hperiod : config.healthCheck = .ok period)
    (hzero : period ≠ .zero) {c : Commons L} {now : Moment} (hnow : c.time now ≤ latest) :
    (call.step a c now).2.1.Kept config rhythm latest ∧
      (call.step a c now).1.Kept latest (call.step a c now).2.1 ∧
        ((call.step a c now).1.HasCrashed → call.HasCrashed ∨ call.Excused c now) := by
  cases call with
  | starting scan =>
    obtain ⟨hdated, hnone⟩ := hcall
    have hnext := scan.step_dated hdated hnow
    simp only [AgentCall.step, Excused]
    cases heq : scan.step c now with
    | mk next c' =>
      rw [heq] at hnext
      cases next with
      | more scan' => exact ⟨h, ⟨hnext, hnone⟩, False.elim⟩
      | ended outcome =>
        cases outcome with
        | ok found =>
          obtain ⟨hkept, houtcome⟩ := h.launch hperiod hzero hnext c'
          refine ⟨hkept, trivial, fun hcrashed => .inr ?_⟩
          rcases houtcome with hok | ⟨hfits, -⟩
          · simp [HasCrashed, hok] at hcrashed
          · exact (Scan.goesWrong_of_found heq).mpr hfits
        | error fault =>
          cases fault with
          | error e => exact ⟨h, trivial, False.elim⟩
          | crash cause =>
            exact ⟨h, trivial, fun _ => .inr ((Scan.goesWrong_of_fault heq).mpr ⟨cause, rfl⟩)⟩
  | started outcome => exact ⟨h, trivial, .inl⟩
  | endingHeartbeat =>
    exact ⟨⟨h.config, fun _ heq => (by cases heq), fun _ heq => (by cases heq), h.loops⟩, trivial,
      False.elim⟩
  | endingLoop => exact ⟨⟨h.config, h.period, h.beats, h.loops⟩, trivial, False.elim⟩
  | stopped => exact ⟨h, trivial, False.elim⟩

/-- A step of someone who starts or stops an agent removes no loop. -/
theorem isAlive_step (call : AgentCall) (c : Commons L) (now : Moment) {k : Nat}
    (hk : a.isAlive k = true) : (call.step a c now).2.1.isAlive k = true := by
  cases call with
  | starting scan =>
    simp only [AgentCall.step]
    split
    · exact hk
    · exact hk
    · next found c' _ => exact Agent.isAlive_of_loops (a.launch_keeps_loops c' found) hk
  | _ => exact hk

/-- A step of someone who starts or stops a running agent leaves its heartbeat and the stop signal
alone, unless the agent is not running any more. -/
theorem Kept.pulse {call : AgentCall} (hcall : call.Kept latest a) (hrunning : a.isRunning = true)
    {c : Commons L} {now : Moment} (hstill : (call.step a c now).2.1.isRunning = true) :
    Agent.SamePulse a (call.step a c now).2.1 := by
  cases call with
  | starting scan =>
    rw [Agent.isRunning, hcall.2] at hrunning
    cases hrunning
  | endingHeartbeat => cases hstill
  | _ => exact ⟨rfl, rfl⟩

end AgentCall

end Calls

end Tidemark
