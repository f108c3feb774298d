import Tidemark.Proofs.HighWater.Record
import Tidemark.Proofs.Shard.Run
import Tidemark.Proofs.Shard.Steering

/-!
# What shards record

A shard records no progress above the mark up to which it has fetched, and that mark was published
(`Posture.Below`). It records it under its identity, which is not the one of the high water mark
(`Surroundings.Backed`). So where the published mark does not lie above the one on record, a step of
a consumer leaves no progress above it either (`Consumer.step_backed`).
-/

namespace Tidemark

open LogView

/-! ## Names -/

/-- Shards other than the high water mark have other identities. -/
theorem ShardName.identity_ne_highWater {s : ShardName} (h : s.isHighWater = false) :
    s.identity ≠ highWater.identity := by
  obtain ⟨projection, key⟩ := s
  show identity ⟨projection, key⟩ ≠ "HighWaterMark"
  unfold identity
  split_ifs with hkey
  · rintro rfl
    rw [show key = "" from hkey] at h
    cases h
  · -- The identity of a partition contains a colon.
    intro hidentity
    have hcolon : ':' ∈ (projection ++ ":" ++ key).toList := by simp
    rw [show projection ++ ":" ++ key = "HighWaterMark" from hidentity] at hcolon
    exact absurd hcolon (by decide)

/-- The handles of shards are registered under their identities. -/
theorem Registry.identity_of_ofNames {names : List ShardName} {identity : String} {h : ShardHandle}
    (hfind : (ofNames names).find? identity = some h) : h.name.identity = identity := by
  have hregistered (names : List ShardName) (r : Registry)
      (hr : ∀ x ∈ r.entries, x.2.name.identity = x.1) :
      ∀ x ∈ (names.foldl register r).entries, x.2.name.identity = x.1 := by
    induction names generalizing r with
    | nil => exact hr
    | cons name names ih =>
      refine ih _ fun x hx => ?_
      rcases List.mem_append.mp hx with hold | hnew
      · exact hr x (List.mem_filter.mp hold).1
      · rw [List.mem_singleton.mp hnew]
  obtain ⟨before, after, hentries, -⟩ := List.lookup_eq_some_iff.mp hfind
  refine hregistered names {} (by simp) (identity, h) ?_
  rw [← ofNames, hentries]
  simp

/-- Progress is recorded under the identities of shards. -/
def Registry.Named (r : Registry) : Prop :=
  ∀ i, ((r.find? i).getD { name := ⟨i, ""⟩ }).name.identity = i

/-- The shards of a new registry record their progress under their identities. -/
theorem Registry.named_ofNames (names : List ShardName) : (ofNames names).Named := fun i => by
  cases hfind : (ofNames names).find? i with
  | none => simp [ShardName.identity]
  | some h => exact identity_of_ofNames hfind

/-! ## Postures -/

/-- What a consumer is to record does not lie above a position. -/
def Posture.Below (row : Position) : Posture → Prop
  | .free _ | .lost => True
  | .bound _ mark => mark ≤ row
  | .busy b | .stuck b _ => b.mark ≤ row

/-- What does not lie above a position does not lie above a higher one. -/
theorem Posture.Below.mono {row row' : Position} {q : Posture} (h : q.Below row)
    (hrow : row ≤ row') : q.Below row' := by
  cases q with
  | free position => trivial
  | lost => trivial
  | bound committed mark => exact le_trans h hrow
  | busy b => exact le_trans (a := b.mark) h hrow
  | stuck b saved => exact le_trans (a := b.mark) h hrow

/-- A consumer that goes into a round is below the published mark. -/
theorem Rounds.below {mark row : Position} {position : Option Position} {q : Posture}
    (h : Rounds mark position q) (hmark : mark ≤ row) : q.Below row := by
  cases h with
  | rests => trivial
  | fetches => exact hmark

/-- No beat records progress above a position that the published mark does not exceed. -/
theorem Beat.below {mark row : Position} {events : List EventRecord} {limit : Nat} {q q' : Posture}
    {r r' : Position} {d : Option Deed} (h : Beat mark events limit q r d q' r')
    (hmark : mark ≤ row) (ho : q.Ordered) (hq : q.Below row) (hr : r ≤ row) :
    r' ≤ row ∧ q'.Below row := by
  cases h with
  | rounds h => exact ⟨hr, h.below hmark⟩
  | loads h => exact ⟨hr, h.below hmark⟩
  | crashes => exact ⟨hr, trivial⟩
  | unbound => exact ⟨hr, trivial⟩
  | begins => exact ⟨hr, hq⟩
  | applies => exact ⟨hr, hq⟩
  | fails => exact ⟨hr, hq⟩
  | defers => exact ⟨hr, hq⟩
  | wrecks => exact ⟨hr, trivial⟩
  | runsOut => exact ⟨hr, hq⟩
  | saves => exact ⟨le_trans ho.ends (le_trans ho.read hq), hq⟩
  | refusesSave _ _ hq' =>
    rcases hq' with rfl | rfl
    · exact ⟨hr, hq⟩
    · exact ⟨hr, trivial⟩
  | closes _ _ hq' =>
    refine ⟨le_trans ho.read hq, ?_⟩
    rcases hq' with hq' | rfl
    · exact hq'.below hmark
    · trivial
  | refusesClose _ _ hq' =>
    rcases hq' with rfl | rfl
    · exact ⟨hr, hq⟩
    · exact ⟨hr, trivial⟩
  | passes _ _ hq' => exact ⟨hr, hq'.below hmark⟩
  | stays => exact ⟨hr, hq⟩
  | skips => exact ⟨hr, hq⟩
  | restarts hq' => exact ⟨hr, hq'.below hmark⟩

/-! ## Consumers -/

/-- A consumer that is in order, will record nothing above a position, and does not consume as the
high water mark. -/
structure Consumer.Backed (row : Position) (c : Consumer) : Prop where
  coherent : c.Coherent
  tidy : c.Tidy
  ordered : c.posture.Ordered
  below : c.posture.Below row
  identity : c.identity ≠ ShardName.highWater.identity

/-- A consumer stays backed as the mark on record goes up. -/
theorem Consumer.Backed.mono {row row' : Position} {c : Consumer} (h : c.Backed row)
    (hrow : row ≤ row') : c.Backed row' :=
  ⟨h.coherent, h.tidy, h.ordered, h.below.mono hrow, h.identity⟩

/-- No progress on record lies above the high water mark on record. -/
structure LogView.Backed {L : Type} [LogView L] (log : L) : Prop where
  kept : Kept log
  rows : ∀ i, recorded log i ≤ highWater log

/-- The high water mark on record is not negative, since it is not below absent progress. -/
theorem LogView.Backed.nonneg {L : Type} [EventLog L] [DetectedLog L] {log : L}
    (h : LogView.Backed log) : 0 ≤ highWater log := by
  obtain ⟨i, hi⟩ := DetectedLog.exists_unrecorded log
  exact hi ▸ h.rows i

/-- What is around a consumer records progress under the identities of shards, and neither the
published mark nor any progress on record lies above the high water mark on record. -/
structure Surroundings.Backed {L : Type} [LogView L] (s : Surroundings L) : Prop where
  log : LogView.Backed s.commons.log
  mark : s.mark ≤ highWater s.commons.log
  named : s.supervisor.shards.Named

/-- A step of a consumer leaves no progress above the high water mark on record, and the mark itself
as it is. -/
theorem Consumer.step_backed {L π : Type} [EventLog L] [LawfulLog L] [Projection π] {c : Consumer}
    {s : Surroundings L} (hc : c.Backed (highWater s.commons.log)) (hs : s.Backed) (p : π)
    (now : Moment) :
    (c.step p s now).1.Backed (highWater s.commons.log) ∧ (c.step p s now).2.2.Backed ∧
      highWater (c.step p s now).2.2.commons.log = highWater s.commons.log ∧
        (c.step p s now).2.2.mark = s.mark := by
  have hmoves := step_moves p s now hc.coherent hs.log.kept
  have hsteers := c.step_steers s p hc.tidy now
  generalize c.step p s now = out at hmoves hsteers
  obtain ⟨c', p', s'⟩ := out
  have hidentity : s.rowName c.identity = c.identity := hs.named c.identity
  have hrow : s'.row c.identity = recorded s'.commons.log c.identity := by
    rw [Surroundings.row, hmoves.name, hidentity]
  have hmark : highWater s'.commons.log = highWater s.commons.log :=
    hmoves.others _ (hidentity.symm ▸ hc.identity.symm)
  obtain ⟨hbelow, hposture⟩ := hmoves.beat.below hs.mark hc.ordered hc.below (hs.log.rows _)
  refine ⟨⟨hmoves.coherent, hsteers.tidy, ?_, hposture, hmoves.identity ▸ hc.identity⟩,
    ⟨⟨hmoves.kept hs.log.kept, fun i => ?_⟩, ?_, fun i => ?_⟩, hmark, hmoves.mark⟩
  · exact hmoves.beat.ordered (LawfulLog.stored_pairwise hs.log.kept) hc.ordered
  · -- Only the row of the shard itself is changed.
    rw [hmark]
    by_cases hi : i = c.identity
    · rwa [hi, ← hrow]
    · rw [hmoves.others i (hidentity.symm ▸ hi)]
      exact hs.log.rows i
  · rw [hmoves.mark, hmark]
    exact hs.mark
  · by_cases hi : i = c.identity
    · subst hi
      exact hmoves.name.trans hidentity
    · rw [hsteers.spares i hi]
      exact hs.named i

end Tidemark
