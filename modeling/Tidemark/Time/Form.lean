import Tidemark.Json.Form
import Tidemark.Time.Rfc3339

/-!
# The forms of durations and timestamps

A duration is a record of seconds and nanoseconds, which admits no other fields. On reading, the
nanoseconds may exceed a second. A timestamp is a text.
-/

namespace Tidemark

open Json

/-- Reads a duration. -/
def Duration.ofJson? : Form Duration := fun v => do
  let extra := match v with
    | .object members => members.any fun m => !(m.1 == some "secs" || m.1 == some "nanos")
    | _ => false
  if extra then none
  else
    let r ← Record.read ["secs", "nanos"] v
    let secs ← r.required "secs" Form.unsigned64
    let nanos ← r.required "nanos" Form.unsigned32
    let d := Duration.ofParts secs nanos
    if d.seconds < Duration.secondsLimit then some d else none

/-- Writes a duration. -/
def Duration.toJson (d : Duration) : Value :=
  .record [("secs", .nat d.seconds), ("nanos", .nat d.nanos)]

/-- Reads a timestamp. -/
def Timestamp.ofJson? : Form Timestamp := fun v => (Form.string v).bind Rfc3339.read

/-- Writes a timestamp. -/
def Timestamp.toJson (t : Timestamp) : Value := .text (Rfc3339.write t)

end Tidemark
