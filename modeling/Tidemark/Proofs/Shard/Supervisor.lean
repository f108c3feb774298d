import Tidemark.Proofs.Shard.Handle
import Tidemark.Shard.Supervisor

/-!
# What commands do to handles

Only the end of a call changes handles, the call of a worker or of someone who reports a failure.
It gives the same command to every handle, or leaves all of them as they are.
-/

namespace Tidemark

namespace Supervisor

/-- The handles after a command was carried out, which changes none of them if it crashes. -/
def obeyed (command : Command) (now : Moment) (r : Registry) : Registry :=
  (commandHandler.finish command now r).2

/-- A command that was carried out was given to every handle. -/
theorem obeyed_of_apply {command : Command} {now : Moment} {r r' : Registry}
    (h : r.apply now command = .ok r') : obeyed command now r = r' := by
  simp only [obeyed, commandHandler, h]

/-- A command is given to every handle, or changes none of them. -/
theorem obeyed_cases (command : Command) (now : Moment) (r : Registry) :
    obeyed command now r = r ∨ r.apply now command = .ok (obeyed command now r) := by
  cases h : r.apply now command with
  | ok r' => exact .inr (by rw [obeyed_of_apply h])
  | error cause => exact .inl (by simp only [obeyed, commandHandler, h])

/-- A command keeps the names of handles, that of a shard without a handle included. -/
theorem name_obeyed (command : Command) (now : Moment) (r : Registry) (identity : String) :
    (((obeyed command now r).find? identity).getD { name := ⟨identity, ""⟩ }).name =
      ((r.find? identity).getD { name := ⟨identity, ""⟩ }).name := by
  rcases obeyed_cases command now r with heq | happly
  · rw [heq]
  · rcases Registry.find?_apply happly identity with ⟨hnone, hnone'⟩ | ⟨old, new, hold, hnew, ho⟩
    · rw [hnone, hnone']
    · simp [hold, hnew, Registry.name_of_obey ho]

/-- A step of a worker changes handles only at the end of its call. -/
theorem shards_stepWorker (s : Supervisor) (m : Metrics) (k : Nat) (now : Moment) :
    (s.stepWorker m k now).1.shards =
      match s.commands.worker? k with
      | some (.calling _ command _) => obeyed command now s.shards
      | _ => s.shards := by
  unfold stepWorker Retry.Block.stepWorker
  cases s.commands.worker? k with
  | none => rfl
  | some worker =>
    cases worker with
    | starting item => dsimp only; split_ifs <;> rfl
    | resting item due => dsimp only; split_ifs <;> rfl
    | calling item command due =>
      unfold obeyed
      dsimp only
      split
      · rfl
      · rfl
      · split_ifs <;> rfl

end Supervisor

namespace Reporting

/-- A step of a report changes handles only at the end of its call. -/
theorem shards_step (r : Reporting) (s : Supervisor) (m : Metrics) (now : Moment) :
    (r.step s m now).2.1.shards =
      match r with
      | .posting _ (.calling _ command _) => Supervisor.obeyed command now s.shards
      | _ => s.shards := by
  cases r with
  | done outcome => rfl
  | posting c p =>
    cases p with
    | trying item => unfold step Retry.Posting.step; dsimp only; split_ifs <;> rfl
    | calling item command due =>
      unfold step Retry.Posting.step Supervisor.obeyed
      dsimp only
      split
      · rfl
      · rfl
      · split_ifs <;> rfl
    | sending item => rfl
    | waiting item ticket => unfold step Retry.Posting.step; dsimp only; split_ifs <;> rfl
    | done outcome => rfl

end Reporting

end Tidemark
