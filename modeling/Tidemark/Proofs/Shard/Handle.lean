import Mathlib.Tactic.SplitIfs
import Tidemark.Proofs.Fault
import Tidemark.Shard.Handle

/-!
# Handles under commands

What is found in a registry after one of its handles was changed, or after all of them were given a
command.
-/

namespace Tidemark

namespace ShardHandle

/-- What a pause does to a handle. -/
theorem pause_eq_ok {h h' : ShardHandle} {now : Moment} {delay : Duration}
    (hp : h.pause now delay = .ok h') :
    ∃ due, h' = { h with control := h.control.put (.pause due) } := by
  obtain ⟨due, -, hp⟩ := bind_eq_ok.mp hp
  exact ⟨due, (Except.ok.inj hp).symm⟩

end ShardHandle

namespace Registry

/-- The handles after one of them was changed. -/
theorem find?_modify (r : Registry) (identity : String) (f : ShardHandle → ShardHandle)
    (i : String) :
    (r.modify identity f).find? i = if i = identity then (r.find? i).map f else r.find? i := by
  obtain ⟨entries⟩ := r
  unfold find? modify
  induction entries with
  | nil => simp
  | cons entry rest ih =>
    obtain ⟨j, h⟩ := entry
    by_cases hj : i = j
    · subst hj
      by_cases hi : i = identity <;> simp [hi]
    · have hne : (i == j) = false := beq_eq_false_iff_ne.mpr hj
      by_cases hi : j = identity
      · simpa [hi, List.lookup_cons, hi ▸ hne] using ih
      · simpa [hi, List.lookup_cons, hne] using ih

/-- A command that was carried out was given to every handle. -/
theorem find?_apply {r r' : Registry} {now : Moment} {command : Command}
    (happly : r.apply now command = .ok r') (i : String) :
    (r.find? i = none ∧ r'.find? i = none) ∨
      ∃ old new, r.find? i = some old ∧ r'.find? i = some new ∧ obey now command old = .ok new := by
  obtain ⟨entries', hentries, hr⟩ := bind_eq_ok.mp happly
  obtain rfl := Except.ok.inj hr
  have hall := mapM_eq_ok.mp hentries
  clear happly hr hentries
  unfold find?
  generalize r.entries = entries at hall ⊢
  induction hall with
  | nil => exact .inl ⟨rfl, rfl⟩
  | @cons entry entry' rest rest' hentry hrest ih =>
    obtain ⟨j, old⟩ := entry
    obtain ⟨new, hobey, hnew⟩ := bind_eq_ok.mp hentry
    obtain rfl := Except.ok.inj hnew
    by_cases hj : i = j
    · subst hj
      exact .inr ⟨old, new, by simp, by simp, hobey⟩
    · have hne : (i == j) = false := beq_eq_false_iff_ne.mpr hj
      simpa [List.lookup_cons, hne] using ih

/-- What a command does to a handle: it pauses it, unless its shard has stopped, or stops it. -/
theorem obey_cases {now : Moment} {command : Command} {h h' : ShardHandle}
    (ho : obey now command h = .ok h') :
    (h' = h ∧ h.status = .stopped) ∨
      (h.status ≠ .stopped ∧ (∃ delay, command = .pauseAll delay) ∧
        ∃ due, h' = { h with control := h.control.put (.pause due) }) ∨
      (command = .stopAll ∧ h' = h.stop) := by
  cases command with
  | pauseAll delay =>
    simp only [obey] at ho
    split_ifs at ho with hstatus
    · exact .inl ⟨(Except.ok.inj ho).symm, hstatus⟩
    · exact .inr (.inl ⟨hstatus, ⟨delay, rfl⟩, ShardHandle.pause_eq_ok ho⟩)
  | stopAll => exact .inr (.inr ⟨rfl, (Except.ok.inj ho).symm⟩)

/-- A command keeps the name of a handle. -/
theorem name_of_obey {now : Moment} {command : Command} {h h' : ShardHandle}
    (ho : obey now command h = .ok h') : h'.name = h.name := by
  rcases obey_cases ho with ⟨rfl, -⟩ | ⟨-, -, due, rfl⟩ | ⟨-, rfl⟩ <;> rfl

end Registry

end Tidemark
