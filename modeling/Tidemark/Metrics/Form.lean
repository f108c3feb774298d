import Tidemark.Json.Value
import Tidemark.Metrics.Basic

/-!
# The form of measurements

All measurements are one record. Its fields are named for the measurements and their labels.
Counters are numbers and gauges texts, since a gauge may hold more than a number has digits.
-/

namespace Tidemark.Metrics

open Json

/-- Writes all measurements, with a form of choice for the samples of a histogram. -/
def toJson (m : Metrics) (samples : List Duration → Value) : Value :=
  .record (m.counters.map (fun (c, n) => (c.text, .nat n))
    ++ m.gauges.map (fun (g, n) => (g.text, .text (toString n)))
    ++ m.histograms.map (fun (h, ds) => (h.text, samples ds)))

/-- Samples as the bits of their numbers of seconds. -/
def bitSamples (ds : List Duration) : Value := .array (ds.map fun d => .text (bitsText (seconds d)))

/-- Samples as their number. -/
def countSamples (ds : List Duration) : Value := .record [("samples", .nat ds.length)]

end Tidemark.Metrics
