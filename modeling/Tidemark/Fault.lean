/-!
# Errors and crashes

A call of the library ends in one of three ways: with its answer, with an `Error` that the caller
is expected to handle, or with a `Crash` that ends the task which made the call. `Fault` is the
union of the last two, and `Outcome` is what a fallible call returns.

The wording of every error and crash is fixed here, in `Error.message` and `Crash.message`.
-/

namespace Tidemark

/-- Why an event store could not serve a call. -/
inductive StoreCause where
  /-- A query that has to answer with a row found none. -/
  | rowNotFound
  /-- No connection became free in time. -/
  | poolTimedOut
  /-- The store has been closed. -/
  | poolClosed
  /-- The database file could not be opened. -/
  | cannotOpen
  /-- An event is already stored at the position. -/
  | positionTaken
  deriving DecidableEq, Repr, Inhabited

/-- The wording of a store failure. -/
def StoreCause.message : StoreCause → String
  | .rowNotFound => "no rows returned by a query that expected to return at least one row"
  | .poolTimedOut => "pool timed out while waiting for an open connection"
  | .poolClosed => "attempted to acquire a connection on a closed pool"
  | .cannotOpen => "error returned from database: (code: 14) unable to open database file"
  | .positionTaken =>
    "error returned from database: (code: 1555) UNIQUE constraint failed: events.seq_id"

/-- A failure that the caller is expected to handle. -/
inductive Error where
  /-- The event store failed. -/
  | store (cause : StoreCause)
  /-- A setting or a name is not acceptable. -/
  | config (text : String)
  /-- The call is not allowed in the present state. -/
  | invalidState (expected actual : String)
  /-- No shard of that identity is registered. -/
  | shardNotFound (identity : String)
  /-- A failure that a test asked for. -/
  | injected (operation : String)
  /-- The component is shutting down. -/
  | shutdown
  /-- Anything else. -/
  | internal (text : String)
  deriving DecidableEq, Repr, Inhabited

namespace Error

/-- The wording of an error. -/
def message : Error → String
  | store cause => "Event store error: " ++ cause.message
  | config text => "Configuration error: " ++ text
  | invalidState expected actual => "Invalid state: expected " ++ expected ++ ", got " ++ actual
  | shardNotFound identity => "Unknown shard: " ++ identity
  | injected operation => "Injected failure during " ++ operation
  | shutdown => "Shutdown in progress"
  | internal text => "Internal error: " ++ text

/-- The short label under which errors of one sort are counted. -/
def kind : Error → String
  | store _ => "store"
  | config _ => "config"
  | invalidState _ _ => "invalid_state"
  | shardNotFound _ => "shard_not_found"
  | injected _ => "injected"
  | shutdown => "shutdown"
  | internal _ => "internal"

end Error

/-- A defect that ends the task in which it shows. -/
inductive Crash where
  /-- A sum of positions left the 64-bit range. -/
  | addOverflow
  /-- A difference of positions left the 64-bit range. -/
  | subtractOverflow
  /-- A duration would have more than `2^64 - 1` seconds. -/
  | durationOverflow
  /-- A moment of the clock would be too late to be represented. -/
  | momentOverflow
  /-- A timestamp would be too late to be represented. -/
  | timestampOverflow
  /-- A periodic timer was given a period of zero. -/
  | zeroPeriod
  /-- A queue or a bulkhead was given more places than can be counted. -/
  | tooManyPermits
  /-- A crash with a text of its own, raised by a projection, a handler or a log. -/
  | raised (text : String)
  deriving DecidableEq, Repr, Inhabited

/-- The wording of a crash. -/
def Crash.message : Crash → String
  | addOverflow => "attempt to add with overflow"
  | subtractOverflow => "attempt to subtract with overflow"
  | durationOverflow => "overflow in Duration::new"
  | momentOverflow => "overflow when adding duration to instant"
  | timestampOverflow => "`DateTime + TimeDelta` overflowed"
  | zeroPeriod => "`period` must be non-zero."
  | tooManyPermits =>
    "a semaphore may not have more than MAX_PERMITS permits (2305843009213693951)"
  | raised text => text

/-- The two ways in which a call can go wrong. -/
inductive Fault where
  | error (cause : Error)
  | crash (cause : Crash)
  deriving DecidableEq, Repr, Inhabited

/-- The result of a call that may go wrong. -/
abbrev Outcome (α : Type) := Except Fault α

end Tidemark
