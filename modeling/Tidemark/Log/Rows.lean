import Tidemark.Log.Basic

/-!
# Progress rows

The progress of all shards as it is kept in memory: one row for each identity, which is overwritten
in place. The rows are in no order that matters, and are put into that of the identities when they
are listed.
-/

namespace Tidemark

/-- The progress of all shards, with at most one row for an identity. -/
structure ProgressRows where
  rows : List Progress := []
  deriving Repr, Inhabited

namespace ProgressRows

/-- The position on record for an identity, zero if there is none, and when it was written. -/
def find (r : ProgressRows) (identity : String) : Position × Option Timestamp :=
  match r.rows.find? (·.shard == identity) with
  | some row => (row.sequence, row.lastUpdated)
  | none => (0, none)

/-- Overwrites the row of an identity in a list of rows, or adds it at the end. -/
def put (row : Progress) : List Progress → List Progress
  | [] => [row]
  | r :: rest => if r.shard = row.shard then row :: rest else r :: put row rest

/-- Records the position of an identity. -/
def record (r : ProgressRows) (row : Progress) : ProgressRows := ⟨put row r.rows⟩

/-- The rows in the order of their identities. -/
def listing (r : ProgressRows) : List Progress := r.rows.mergeSort fun a b => a.shard ≤ b.shard

end ProgressRows

end Tidemark
