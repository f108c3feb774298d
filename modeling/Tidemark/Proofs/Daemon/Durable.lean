import Mathlib.Logic.Relation
import Tidemark.Proofs.Daemon.Marks
import Tidemark.Proofs.Log.Searched

/-!
# Nothing is visible before it is durable

Daemons that follow one another on a log are a `Succession`: one of them is in charge, with a call
of it that may be under way. What may remain of the daemons before it are their shards, since a
shutdown waits for the agent to end but does not wait for shards for ever. A `Step` of a succession
is a step of a task or of the call, a report of a failure, something that happens elsewhere, or a
restart, which may come at any time.

Whatever happens, the published mark does not lie above the high water mark on record, and neither
does the progress of any shard, nor any event that a shard is about to apply
(`rows_le_highWater`).
-/

namespace Tidemark

open LogView

variable {L π : Type}

/-! ## Successions -/

/-- Daemons that follow one another on a log. -/
structure Succession (L π : Type) where
  /-- The daemon in charge. -/
  daemon : Daemon L π
  /-- The call that starts it or shuts it down, while there is one. -/
  call : Option DaemonCall := none
  /-- The daemons before it, the last one first. -/
  former : List (Daemon L π) := []

/-- A daemon over another log. -/
def Daemon.over (d : Daemon L π) (log : L) : Daemon L π :=
  { d with commons := { d.commons with log := log } }

namespace Succession

/-- The log of a succession. -/
def log (x : Succession L π) : L := x.daemon.commons.log

variable [EventLog L] [DetectedLog L] [Projection π]

/-- The steps of a succession. -/
inductive Step : Succession L π → Succession L π → Prop where
  /-- A projection is registered. -/
  | registers {x : Succession L π} {p : π} {d : Daemon L π} (h : x.daemon.addProjection p = .ok d) :
    Step x { x with daemon := d }
  /-- The policy is changed. -/
  | rules {x : Succession L π} {change : Policy → Policy} {d : Daemon L π}
    (h : x.daemon.changePolicy change = .ok d) : Step x { x with daemon := d }
  /-- Someone begins to start the daemon. -/
  | starts {x : Succession L π} (now : Moment) (hcall : x.call = none) :
    Step x { x with daemon := (x.daemon.start now).2, call := some (x.daemon.start now).1 }
  /-- Someone begins to shut the daemon down. -/
  | stops {x : Succession L π} (hcall : x.call = none) :
    Step x { x with daemon := x.daemon.beginShutdown.2, call := some x.daemon.beginShutdown.1 }
  /-- The call takes a step. -/
  | calls {x : Succession L π} {call : DaemonCall} (now : Moment) (hcall : x.call = some call) :
    Step x { x with daemon := (call.step x.daemon now).2,
                    call := some (call.step x.daemon now).1 }
  /-- The call is over, or is given up. -/
  | returns {x : Succession L π} : Step x { x with call := none }
  /-- A task takes a step. -/
  | works {x : Succession L π} (now : Moment) (task : DaemonTask) :
    Step x { x with daemon := x.daemon.step now task }
  /-- Someone begins to report a failure. -/
  | reports {x : Succession L π} (shard : ShardName) (e : Failure) :
    Step x { x with daemon := (x.daemon.report shard e).2 }
  /-- Someone goes on reporting a failure. -/
  | reporting {x : Succession L π} (r : Reporting) (now : Moment) :
    Step x { x with daemon := (DaemonCall.step (.reporting r) x.daemon now).2 }
  /-- A task of a former daemon takes a step, other than of its agent. -/
  | lingers {x : Succession L π} {d : Daemon L π} {before after : List (Daemon L π)} (now : Moment)
    {task : DaemonTask} (htask : ∀ t, task ≠ .agent t) (hformer : x.former = before ++ d :: after) :
    Step x { x with daemon := x.daemon.over ((d.over x.log).step now task).commons.log,
                    former := before ++ (d.over x.log).step now task :: after }
  /-- Someone writes events, asks for something, or makes calls of the log fail from now on: what
  the tasks share is changed, but neither any progress nor the published mark. -/
  | elsewhere {x : Succession L π} {c : Commons L} (hlog : SameProgress x.log c.log)
    (hmark : c.tracker.mark = x.daemon.commons.tracker.mark) :
    Step x { x with daemon := { x.daemon with commons := c } }
  /-- Another daemon takes over, after the one before has crashed or was shut down. -/
  | restarts {x : Succession L π} (config : Config.Daemon) (origin : Timestamp) :
    Step x ⟨.new config x.log origin, none, x.daemon :: x.former⟩

/-- What holds of a succession at any time. -/
structure Sound (x : Succession L π) : Prop where
  daemon : x.daemon.Sound
  call : ∀ c, x.call = some c → c.Sound x.daemon
  former : ∀ d ∈ x.former, d.Backed (highWater x.log)

/-- A succession goes on sound where its daemon does. -/
theorem Sound.of_goes {x : Succession L π} (hx : x.Sound) {call : Option DaemonCall}
    {d : Daemon L π} (h : x.daemon.Goes call d) :
    Sound { x with daemon := d, call := call } ∧ highWater x.log ≤ highWater d.commons.log :=
  ⟨⟨h.sound, h.call, fun d' hd' => (hx.former d' hd').mono h.row⟩, h.row⟩

/-- A step of a succession keeps it sound, and the mark on record does not go down. -/
theorem Step.sound {x y : Succession L π} (h : Step x y) (hx : x.Sound) :
    y.Sound ∧ highWater x.log ≤ highWater y.log := by
  have hlog := hx.daemon.log
  have hbacked := hx.daemon.backed
  cases h with
  | registers h => exact hx.of_goes (hx.daemon.addProjection_goes hx.call h)
  | rules h => exact hx.of_goes (hx.daemon.changePolicy_goes hx.call h)
  | starts now hcall => exact hx.of_goes (hx.daemon.start_goes now)
  | stops hcall => exact hx.of_goes hx.daemon.beginShutdown_goes
  | calls now hcall => exact hx.of_goes (DaemonCall.step_goes hx.daemon (hx.call _ hcall) now)
  | returns => exact ⟨⟨hx.daemon, by simp, hx.former⟩, le_refl _⟩
  | works now task => exact hx.of_goes (hx.daemon.step_goes hx.call now task)
  | reports shard e =>
    exact hx.of_goes ((hbacked.report_tends hlog shard e).goes hx.daemon hx.call)
  | reporting r now =>
    exact hx.of_goes ((hbacked.reporting_tends hlog r now).goes hx.daemon hx.call)
  | @elsewhere c hsame hmark =>
    have htends : Tends x.daemon { x.daemon with commons := c } :=
      hbacked.tends_of_supervisor hlog hsame (congrArg Watched.value hmark) rfl rfl rfl id rfl
    exact hx.of_goes (htends.goes hx.daemon hx.call)
  | @lingers d before after now task htask hformer =>
    have hd : d.Backed (highWater x.log) := hx.former d (by simp [hformer])
    have hover : (d.over x.log).Backed (highWater x.log) := ⟨hd.mark, hd.named, hd.consumers⟩
    have htends := Daemon.Backed.step_tends (d := d.over x.log) hover hlog now htask
    -- The daemon in charge sees nothing of it but that some progress on record has changed.
    have hcharge : Tends x.daemon
        (x.daemon.over ((d.over x.log).step now task).commons.log) :=
      ⟨htends.log, htends.row, ⟨hbacked.mark, hbacked.named, hbacked.consumers⟩, rfl, id,
        fun hnone => ⟨hnone, rfl⟩⟩
    have hgoes := hcharge.goes hx.daemon hx.call
    refine ⟨⟨hgoes.sound, hgoes.call, fun d' hd' => ?_⟩, hgoes.row⟩
    rcases List.mem_append.mp hd' with hmem | hmem
    · exact (hx.former d' (by simp [hformer, hmem])).mono hgoes.row
    · rcases List.mem_cons.mp hmem with rfl | hmem
      · exact htends.backed.mono hgoes.row
      · exact (hx.former d' (by simp [hformer, hmem])).mono hgoes.row
  | restarts config origin =>
    refine ⟨⟨Daemon.sound_new hlog config origin, by simp, fun d hd => ?_⟩, le_refl _⟩
    rcases List.mem_cons.mp hd with rfl | hmem
    · exact hbacked
    · exact hx.former d hmem

/-- A run of a succession keeps it sound, and the mark on record does not go down. -/
theorem sound_of_run {x y : Succession L π} (h : Relation.ReflTransGen Step x y) (hx : x.Sound) :
    y.Sound ∧ highWater x.log ≤ highWater y.log := by
  induction h with
  | refl => exact ⟨hx, le_refl _⟩
  | tail _ hstep ih =>
    obtain ⟨hsound, hrow⟩ := hstep.sound ih.1
    exact ⟨hsound, le_trans ih.2 hrow⟩

end Succession

/-- The events that a consumer is about to hand to its projection. -/
def Consumer.pending (c : Consumer) : List EventRecord :=
  match c.stage with
  | .applying batch _ => batch.events
  | _ => []

/-- What a backed consumer is about to apply does not lie above the mark on record. -/
theorem Consumer.Backed.pending {row : Position} {c : Consumer} (h : c.Backed row) :
    ∀ e ∈ c.pending, e.sequence ≤ row := by
  obtain ⟨identity, stage, seenMark, seenControl, position⟩ := c
  cases stage with
  | applying b due =>
    have hordered : b.Ordered := h.ordered
    exact fun e he => le_trans (hordered.below e he) (le_trans hordered.read h.below)
  | _ => simp [Consumer.pending]

/-- Let daemons follow one another on a log in which no progress lies above the high water mark. At
any time the published mark does not lie above the mark on record, and neither does the progress of
any shard, nor any event that a consumer is about to apply. The mark on record never goes down, so
that after a crash it is not below what was consumed before. -/
theorem rows_le_highWater [EventLog L] [DetectedLog L] [Projection π] {log : L}
    (hkept : Kept log) (hrows : ∀ i, recorded log i ≤ highWater log) {config : Config.Daemon}
    {origin : Timestamp} {x : Succession L π}
    (h : Relation.ReflTransGen Succession.Step { daemon := .new config log origin } x) :
    x.daemon.highWaterMark ≤ highWater x.log ∧ (∀ i, recorded x.log i ≤ highWater x.log) ∧
      (∀ d ∈ x.daemon :: x.former, ∀ c ∈ d.consumers, ∀ e ∈ c.pending,
        e.sequence ≤ highWater x.log) ∧
      ∀ y, Relation.ReflTransGen Succession.Step x y → highWater x.log ≤ highWater y.log := by
  have hnew : Daemon.Sound (.new config log origin : Daemon L π) :=
    Daemon.sound_new ⟨hkept, hrows⟩ config origin
  obtain ⟨hx, -⟩ := Succession.sound_of_run h ⟨hnew, by simp, by simp⟩
  refine ⟨hx.daemon.backed.mark, hx.daemon.log.rows, fun d hd c hc => ?_,
    fun y hy => (Succession.sound_of_run hy hx).2⟩
  rcases List.mem_cons.mp hd with rfl | hformer
  · exact (hx.daemon.backed.consumers c hc).pending
  · exact ((hx.former d hformer).consumers c hc).pending

/-! ## Rehearsals -/

namespace Succession

/-- Whatever a writer does to the log of a succession is a step of it. -/
theorem Step.of_wrote [EventLog L] [SearchedLog L] [Projection π] {x : Succession L π} {log' : L}
    (h : SearchedLog.Wrote x.log log') : Step x { x with daemon := x.daemon.over log' } :=
  .elsewhere ⟨SearchedLog.kept_of_wrote h, SearchedLog.recorded_of_wrote h⟩ rfl

/-- What happens in a rehearsal, all of it at the beginning of the clock. -/
inductive Turn (π : Type) where
  | append (e : Entry)
  | register (p : π)
  | start
  | call
  | work (task : DaemonTask)
  | restart

variable [Projection π]

/-- A succession after a turn, which leaves it as it is if the turn is not possible. -/
def take (x : Succession MemoryLog π) : Turn π → Succession MemoryLog π
  | .append e =>
    match x.log.append e with
    | .ok (_, log) => { x with daemon := x.daemon.over log }
    | .error _ => x
  | .register p =>
    match x.daemon.addProjection p with
    | .ok d => { x with daemon := d }
    | .error _ => x
  | .start =>
    match x.call with
    | none => { x with daemon := (x.daemon.start 0).2, call := some (x.daemon.start 0).1 }
    | some _ => x
  | .call =>
    match x.call with
    | some call =>
      { x with daemon := (call.step x.daemon 0).2, call := some (call.step x.daemon 0).1 }
    | none => x
  | .work task => { x with daemon := x.daemon.step 0 task }
  | .restart => ⟨.new x.daemon.config x.log x.daemon.commons.origin, none, x.daemon :: x.former⟩

/-- A succession runs by taking turns. -/
theorem run_take (turns : List (Turn π)) (x : Succession MemoryLog π) :
    Relation.ReflTransGen Step x (turns.foldl take x) := by
  induction turns generalizing x with
  | nil => exact .refl
  | cons t turns ih =>
    refine .trans ?_ (ih (x.take t))
    cases t with
    | append e =>
      simp only [take]
      split
      · next h => exact .single (.of_wrote (.appended e h))
      · exact .refl
    | register p =>
      simp only [take]
      split
      · next h => exact .single (.registers h)
      · exact .refl
    | start =>
      simp only [take]
      split
      · next hcall => exact .single (.starts 0 hcall)
      · exact .refl
    | call =>
      simp only [take]
      split
      · next hcall => exact .single (.calls 0 hcall)
      · exact .refl
    | work task => exact .single (.works 0 task)
    | restart => exact .single (.restarts _ _)

end Succession

/-- A daemon finds and records the mark over two events, a third one is written, the shard consumes
up to the mark and records its progress, and then the daemon crashes and another one takes over. -/
theorem rows_le_highWater_over_restart :
    ∃ x : Succession MemoryLog Rehearsal.ScriptedProjection,
      x.log.committed = [1, 2, 3] ∧ recorded x.log "T:All" = 2 ∧ x.former.length = 1 ∧
        x.daemon.highWaterMark ≤ highWater x.log ∧ ∀ i, recorded x.log i ≤ highWater x.log := by
  let first : Succession MemoryLog Rehearsal.ScriptedProjection :=
    { daemon := .new {} {} ⟨0, false⟩ }
  let event : Succession.Turn Rehearsal.ScriptedProjection := .append ⟨"", [], ⟨0, false⟩, false⟩
  let turns := [event, event, .register { name := "T" }, .start] ++ List.replicate 5 .call ++
    event :: List.replicate 6 (.work (.consumer 0)) ++ [.restart]
  have hkept : Kept ({} : MemoryLog) := List.Pairwise.nil
  have hrows (i : String) : recorded ({} : MemoryLog) i ≤ highWater ({} : MemoryLog) := le_refl 0
  have hsound := rows_le_highWater hkept hrows (Succession.run_take turns first)
  exact ⟨turns.foldl Succession.take first, by decide +kernel, by decide +kernel,
    by decide +kernel, hsound.1, hsound.2.1⟩

end Tidemark
