import Tidemark.Fault

/-!
# Shard names

A shard consumes the events for one partition of one projection. Its name is the pair of the two,
and its identity is the text under which its progress is stored: the projection alone if the key
is empty, and otherwise the projection and the key with a colon between them. One name is set
aside for the high water mark.

Names are ordered by projection and then by key, identities as texts.
-/

namespace Tidemark

/-- The name of a progress row. -/
structure ShardName where
  projection : String
  key : String
  deriving DecidableEq, Repr, Inhabited

namespace ShardName

/-- The name of the row that holds the high water mark. -/
def highWater : ShardName := ⟨"HighWaterMark", ""⟩

/-- The shard of a projection that is not partitioned. -/
def whole (projection : String) : ShardName := ⟨projection, "All"⟩

/-- The name is the one of the high water mark. -/
def isHighWater (s : ShardName) : Bool := s == highWater

/-- The text under which the progress of a shard is stored. -/
def identity (s : ShardName) : String :=
  if s.key = "" then s.projection else s.projection ++ ":" ++ s.key

/-- The two parts of a text around its first colon, if it has one. -/
def splitColon : List Char → Option (List Char × List Char)
  | [] => none
  | c :: cs => if c = ':' then some ([], cs) else (splitColon cs).map fun (a, b) => (c :: a, b)

/-- Reads an identity: the projection ends at the first colon. -/
def parse (text : String) : Except Error ShardName :=
  if text = "" then .error (.config "shard name cannot be empty")
  else
    match splitColon text.toList with
    | none => .ok ⟨text, ""⟩
    | some ([], _) => .error (.config ("shard name '" ++ text ++ "' has no projection"))
    | some (projection, key) => .ok ⟨String.ofList projection, String.ofList key⟩

/-- The order of names: by projection, then by key. -/
def le (a b : ShardName) : Bool :=
  a.projection < b.projection || (a.projection == b.projection && a.key ≤ b.key)

end ShardName

end Tidemark
