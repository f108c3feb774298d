import Tidemark.Backoff
import Tidemark.Time.Grammar

/-!
# Configuration

The settings of a daemon. Durations are kept as they were written; where one is needed, a text
that does not denote a duration counts as the standard setting.
-/

namespace Tidemark.Config

/-- How the high water mark is polled. -/
structure Polling where
  /-- The delay after a pass that moved the mark. -/
  fastPollingTime : String := "250ms"
  /-- The delay after a pass that found nothing new, and after a failed pass. -/
  slowPollingTime : String := "1s"
  /-- How often the agent checks that detection is alive. -/
  healthCheckPollingTime : String := "5s"
  /-- The time that writers are given before a gap counts as permanent. -/
  leadingEdgeBuffer : String := "1s"
  deriving DecidableEq, Repr, Inhabited

namespace Polling

/-- The delay after a pass that moved the mark. -/
def fast (p : Polling) : Except Crash Duration := Duration.readOr p.fastPollingTime (.ofMillis 250)

/-- The delay after a pass that found nothing new. -/
def slow (p : Polling) : Except Crash Duration := Duration.readOr p.slowPollingTime (.ofSeconds 1)

/-- The period of the check that detection is alive. -/
def healthCheck (p : Polling) : Except Crash Duration :=
  Duration.readOr p.healthCheckPollingTime (.ofSeconds 5)

/-- The time after which a gap counts as permanent. -/
def leadingEdge (p : Polling) : Except Crash Duration :=
  Duration.readOr p.leadingEdgeBuffer (.ofSeconds 1)

/-- Short delays for tests. -/
def forTesting : Polling := ⟨"10ms", "20ms", "25ms", "30ms"⟩

end Polling

/-- How a retry block treats its items. -/
structure Retrying where
  /-- The attempts after which an item is given up. -/
  maximumAttempts : Nat := 3
  /-- The delays before the further attempts. -/
  backoff : List String := ["50ms", "100ms", "250ms"]
  /-- The items that may be in work at a time. -/
  maxConcurrency : Nat := 1
  /-- The items that may wait in the queue. -/
  queueCapacity : Nat := 1000
  deriving DecidableEq, Repr, Inhabited

namespace Retrying

/-- The readable delays of a list, or what went wrong with one of them. -/
def readDelays : List String → Except Crash (List Duration)
  | [] => .ok []
  | text :: rest =>
    match Duration.read text with
    | .ok d => (readDelays rest).map (d :: ·)
    | .error .unreadable => readDelays rest
    | .error (.crash cause) => .error cause

/-- The schedule of delays: those that can be read, and the standard one if none can. -/
def schedule (r : Retrying) : Except Crash Backoff :=
  (readDelays r.backoff).map fun
    | [] => .standard
    | delays => ⟨delays⟩

/-- Short delays for tests. -/
def forTesting : Retrying := ⟨3, ["1ms", "2ms", "5ms"], 2, 64⟩

end Retrying

/-- How shards consume. -/
structure Consuming where
  /-- The most events that are fetched at a time. -/
  batchSize : Nat := 500
  deriving DecidableEq, Repr, Inhabited

/-- The settings of detection, retries and shards. -/
structure Settings where
  highWater : Polling := {}
  retry : Retrying := {}
  shards : Consuming := {}
  deriving DecidableEq, Repr, Inhabited

/-- Where events are stored. -/
structure Store where
  /-- The path of the database; `:memory:` keeps it in memory. -/
  path : String := "events.db"
  /-- Changes are first written to a log of their own. -/
  walMode : Bool := true
  deriving DecidableEq, Repr, Inhabited

/-- A store in memory. -/
def Store.inMemory : Store := ⟨":memory:", false⟩

/-- The configuration of a daemon. -/
structure Daemon where
  settings : Settings := {}
  store : Store := {}
  deriving DecidableEq, Repr, Inhabited

/-- Short delays for tests, and a store in memory. -/
def Daemon.forTesting : Daemon :=
  { settings := { highWater := .forTesting, retry := .forTesting }, store := .inMemory }

end Tidemark.Config
