import Tidemark.Proofs.Daemon.Alone
import Tidemark.Proofs.Daemon.SignOff
import Tidemark.Proofs.Shard.Order
import Tidemark.Proofs.Shard.Roster
import Tidemark.Proofs.Log.Rowed

/-!
# How health and progress are listed

The health of a daemon lists the shards by their names, and a log lists progress by identities. So
health is listed in the order of the identities exactly if no shard overtakes another one, and
health and progress list two shards in the same order exactly if neither of them overtakes the
other (`Course.listed_alike_iff`). A projection whose name is that of another one with a hyphen and
more behind it is overtaken (`Course.exists_listed_apart`).
-/

namespace Tidemark

open List (Sublist)

variable {L π : Type}

/-! ## One before the other -/

/-- Of two elements of a list one stands before the other. -/
theorem sublist_or_sublist {α : Type} {l : List α} {a b : α} (ha : a ∈ l) (hb : b ∈ l)
    (h : a ≠ b) : Sublist [a, b] l ∨ Sublist [b, a] l := by
  obtain ⟨before, after, rfl⟩ := List.append_of_mem ha
  rcases List.mem_append.mp hb with hb | hb
  · exact .inr ((List.singleton_sublist.mpr hb).append (List.singleton_sublist.mpr (by simp)))
  · have hb : b ∈ after := (List.mem_cons.mp hb).resolve_left h.symm
    exact .inl (((List.singleton_sublist.mpr hb).cons_cons a).trans (List.sublist_append_right _ _))

/-- In a list that is in order, the lower one of two elements stands first. -/
theorem pair_sublist_iff {α : Type} {R : α → α → Prop} {l : List α} (hl : l.Pairwise R)
    {a b : α} (ha : a ∈ l) (hb : b ∈ l) (h : a ≠ b) (hanti : R a b → R b a → a = b) :
    Sublist [a, b] l ↔ R a b := by
  refine ⟨fun hab => List.pairwise_iff_forall_sublist.mp hl hab, fun hab => ?_⟩
  refine (sublist_or_sublist ha hb h).resolve_right fun hba => h ?_
  exact hanti hab (List.pairwise_iff_forall_sublist.mp hl hba)

/-- Two lists show two texts in the same order. -/
def SameOrder (l l' : List String) (i j : String) : Prop := Sublist [i, j] l ↔ Sublist [i, j] l'

/-! ## Progress -/

/-- The rows that a log in memory or in tables lists when it is asked for all progress. -/
inductive Listed : List Progress → Prop where
  | inMemory {log log' : MemoryLog} {now : Timestamp} {rows : List Progress}
    (h : EventLog.allProgress log now = (.ok rows, log')) : Listed rows
  | inTables {log log' : TableLog} {now : Timestamp} {rows : List Progress}
    (h : EventLog.allProgress log now = (.ok rows, log')) : Listed rows

/-- Either log lists its rows in the order of the identities. -/
theorem Listed.pairwise {rows : List Progress} (h : Listed rows) :
    (rows.map (·.shard)).Pairwise (· ≤ ·) := by
  rw [List.pairwise_map]
  cases h with
  | @inMemory log log' now _ h =>
    obtain rfl : rows = log.progress.listing := RowedLog.listing h
    exact log.progress.pairwise_listing
  | @inTables log log' now _ h =>
    obtain rfl : rows = log.progress.listing := RowedLog.listing h
    rw [ProgressTable.listing_eq]
    exact log.progress.toRows.pairwise_listing

/-! ## Health -/

/-- The handles are in the order of their names. -/
theorem Registry.pairwise_handles (r : Registry) :
    (r.handles.map (·.name)).Pairwise fun a b => a.le b := by
  rw [List.pairwise_map]
  unfold handles
  refine List.pairwise_mergeSort ?_ ?_ _
  · exact fun a b c => ShardName.le_trans
  · exact fun a b => by simpa using ShardName.le_total a.name b.name

/-- The handles have the names that are registered. -/
theorem Registry.perm_handles (r : Registry) :
    (r.handles.map (·.name)).Perm (r.roster.map Prod.snd) := by
  have hroster : r.roster.map Prod.snd = (r.entries.map Prod.snd).map ShardHandle.name := by
    rw [roster, List.map_map, List.map_map]
    rfl
  rw [hroster]
  exact (List.mergeSort_perm (r.entries.map Prod.snd) fun a b => a.name.le b.name).map _

/-- Health lists the identities of the shards in the order of the handles. -/
theorem Daemon.shards_of_health {d : Daemon L π} {r : Registry} (hr : d.handles = some r)
    {check : HealthCheck} (h : d.health = .ok check) :
    check.shards.map (·.shard) = r.handles.map (·.name.identity) := by
  have hall := (health_eq_ok hr h).1
  generalize r.handles = handles, check.shards = shards at hall ⊢
  induction hall with
  | nil => rfl
  | cons hhead _ ih =>
    obtain ⟨lag, -, hhead⟩ := bind_eq_ok.mp hhead
    obtain rfl := Except.ok.inj hhead
    rw [List.map_cons, List.map_cons, ih]

/-- Health can be told if the distances of all shards to the mark can be represented. -/
theorem Daemon.exists_health {d : Daemon L π} {r : Registry} (hr : d.handles = some r)
    (hfits : ∀ x ∈ r.entries, (d.highWaterMark - x.2.position).Fits) :
    ∃ check, d.health = .ok check := by
  refine (health_isOk_iff hr).mpr fun h hmem => ?_
  obtain ⟨x, hx, rfl⟩ := List.mem_map.mp (List.mem_mergeSort.mp hmem)
  exact hfits x hx

/-! ## Names in two orders -/

/-- The order of the names and that of the identities agree on two names exactly if neither of them
overtakes the other. -/
theorem ShardName.le_iff_identity_le_iff {a b : ShardName} (h : a.identity ≠ b.identity) :
    (a.le b ↔ a.identity ≤ b.identity) ↔ ¬ a.Overtakes b ∧ ¬ b.Overtakes a := by
  have hle : b.le a ↔ ¬ a.le b :=
    ⟨fun hba hab => h (congrArg identity (ShardName.le_antisymm hab hba)),
      fun hab => (ShardName.le_total a b).resolve_left hab⟩
  have hidentities : a.identity < b.identity ↔ a.identity ≤ b.identity := by
    rw [lt_iff_le_and_ne, and_iff_left h]
  rw [overtakes_iff, overtakes_iff, hle, hidentities, ← not_le, not_and_not_right,
    and_comm (a := ¬ a.le b), not_and_not_right]
  exact iff_iff_implies_and_implies

/-- Names in order have their identities in order exactly if none of them overtakes another one. -/
theorem ShardName.pairwise_identity_iff {names : List ShardName}
    (hsorted : names.Pairwise fun a b => a.le b)
    (hdistinct : (names.map ShardName.identity).Nodup) :
    (names.map ShardName.identity).Pairwise (· < ·) ↔
      ∀ a ∈ names, ∀ b ∈ names, ¬ a.Overtakes b := by
  rw [List.pairwise_map]
  constructor
  · -- A name that overtakes another one stands before it, but its identity is the higher one.
    intro h a ha b hb hovertakes
    obtain ⟨hle, hlt⟩ := overtakes_iff.mp hovertakes
    have hne : a ≠ b := by
      rintro rfl
      exact lt_irrefl _ hlt
    have hab : Sublist [a, b] names :=
      (pair_sublist_iff hsorted ha hb hne ShardName.le_antisymm).mpr hle
    exact lt_asymm hlt (List.pairwise_iff_forall_sublist.mp h hab)
  · intro h
    have hne : names.Pairwise fun a b => a.identity ≠ b.identity := List.pairwise_map.mp hdistinct
    refine (hsorted.and hne).imp_of_mem fun {a b} ha hb hab => ?_
    refine lt_of_le_of_ne (not_lt.mp fun hlt => h a ha b hb ?_) hab.2
    exact overtakes_iff.mpr ⟨hab.1, hlt⟩

/-- Names in order show two identities in the same order as a list of identities in order does
exactly if neither of the names overtakes the other. -/
theorem ShardName.sameOrder_iff {names : List ShardName} {shards : List String}
    (hsorted : names.Pairwise fun a b => a.le b)
    (hdistinct : (names.map ShardName.identity).Nodup) (hshards : shards.Pairwise (· ≤ ·))
    {a b : ShardName} (ha : a ∈ names) (hb : b ∈ names) (hne : a ≠ b)
    (ha' : a.identity ∈ shards) (hb' : b.identity ∈ shards) :
    SameOrder (names.map ShardName.identity) shards a.identity b.identity ↔
      ¬ a.Overtakes b ∧ ¬ b.Overtakes a := by
  have hinj := List.inj_on_of_nodup_map hdistinct
  have hidentity : a.identity ≠ b.identity := fun heq => hne (hinj ha hb heq)
  have hnames : Sublist [a.identity, b.identity] (names.map ShardName.identity) ↔ a.le b := by
    rw [← pair_sublist_iff hsorted ha hb hne ShardName.le_antisymm]
    refine ⟨fun h => ?_, fun h => h.map ShardName.identity⟩
    -- No other names than these two have these identities.
    obtain ⟨pair, hpair, heq⟩ := List.sublist_map_iff.mp h
    obtain ⟨a', b', rfl⟩ : ∃ a' b', pair = [a', b'] :=
      List.length_eq_two.mp (by simpa using (congrArg List.length heq).symm)
    obtain ⟨haa, hbb⟩ : a.identity = a'.identity ∧ b.identity = b'.identity := by simpa using heq
    rwa [hinj ha (hpair.subset (by simp)) haa, hinj hb (hpair.subset (by simp)) hbb]
  rw [SameOrder, hnames, pair_sublist_iff hshards ha' hb' hidentity le_antisymm]
  exact le_iff_identity_le_iff hidentity

/-! ## Health and progress on a course -/

variable [EventLog L] [Projection π]

namespace Course

variable (x : Course L π)

/-- On a course, the shards that were registered at the beginning stay so. -/
theorem roster (hdistinct : ((x.state 0).names.map ShardName.identity).Nodup) (n : ℕ) :
    ∃ r, (x.state n).handles = some r ∧
      r.roster = (x.state 0).names.map fun name => (name.identity, name) := by
  induction n with
  | zero =>
    obtain ⟨s, hs, hshards⟩ := x.exists_supervisor
    refine ⟨s.shards, by rw [Daemon.handles, hs]; rfl, ?_⟩
    rw [hshards, Registry.roster_ofNames hdistinct]
  | succ n ih =>
    obtain ⟨r, hr, hroster⟩ := ih
    have hkeys : r.Distinct := by
      rw [Registry.Distinct, hroster, List.map_map]
      exact hdistinct
    -- Whatever a move does to the handles keeps the roster, since the identities are distinct.
    have hkept {s : Supervisor} (hs : (x.state n).supervisor = some s) {r' : Registry}
        (h : s.shards.KeepsRoster r') : r'.roster = r.roster := by
      obtain rfl : s.shards = r := by simpa [Daemon.handles, hs] using hr
      exact h hkeys
    rw [← hroster]
    have heffect := x.effect n
    generalize x.move n = m at heffect
    cases heffect with
    | nothing h => exact ⟨r, h.handles.trans hr, rfl⟩
    | @consumer now k s c p h =>
      refine ⟨_, by rw [Daemon.handles, h.supervisor]; rfl, hkept h.before ?_⟩
      exact c.keepsRoster_step ((x.state n).surroundings s) p now
    | command h hs hw hr' hd => exact ⟨_, hd, hkept hs (Registry.keepsRoster_apply hr')⟩
    | report h hs hd => exact ⟨_, hd, hkept hs (Supervisor.keepsRoster_report _ _ _ _)⟩

/-- On a course whose shards have distinct identities, the handles have the names of all of them.
The handles are listed in the order of the identities exactly if no shard overtakes another one.
Health lists the shards as the handles are listed, and shows two of them in the same order as the
progress of a log does, if they have rows, exactly if neither of them overtakes the other. -/
theorem listed_alike_iff (hdistinct : ((x.state 0).names.map ShardName.identity).Nodup) (n : ℕ) :
    ∃ r, (x.state n).handles = some r ∧
      (r.handles.map (·.name)).Perm (x.state 0).names ∧
      ((r.handles.map (·.name.identity)).Pairwise (· < ·) ↔
        ∀ a ∈ (x.state 0).names, ∀ b ∈ (x.state 0).names, ¬ a.Overtakes b) ∧
      ∀ check, (x.state n).health = .ok check →
        check.shards.map (·.shard) = r.handles.map (·.name.identity) ∧
        ∀ rows, Listed rows → ∀ a ∈ (x.state 0).names, ∀ b ∈ (x.state 0).names, a ≠ b →
          a.identity ∈ rows.map (·.shard) → b.identity ∈ rows.map (·.shard) →
            (SameOrder (check.shards.map (·.shard)) (rows.map (·.shard)) a.identity b.identity ↔
              ¬ a.Overtakes b ∧ ¬ b.Overtakes a) := by
  obtain ⟨r, hr, hroster⟩ := x.roster hdistinct n
  have hperm : (r.handles.map (·.name)).Perm (x.state 0).names := by
    have h := r.perm_handles
    rw [hroster, List.map_map] at h
    simpa [Function.comp_def] using h
  have hsorted := r.pairwise_handles
  have hnodup : ((r.handles.map (·.name)).map ShardName.identity).Nodup :=
    (hperm.map ShardName.identity).nodup_iff.mpr hdistinct
  have hidentities : r.handles.map (·.name.identity) =
      (r.handles.map (·.name)).map ShardName.identity := by
    rw [List.map_map]
    rfl
  refine ⟨r, hr, hperm, ?_, fun check hcheck => ?_⟩
  · rw [hidentities, ShardName.pairwise_identity_iff hsorted hnodup]
    simp only [hperm.mem_iff]
  · have hshards := Daemon.shards_of_health hr hcheck
    refine ⟨hshards, fun rows hrows a ha b hb hne ha' hb' => ?_⟩
    rw [hshards, hidentities]
    exact ShardName.sameOrder_iff hsorted hnodup hrows.pairwise (hperm.mem_iff.mpr ha)
      (hperm.mem_iff.mpr hb) hne ha' hb'

/-! ## Rehearsals -/

/-- The underscore sorts above the colon, and so does every letter. A shard `orders_eu` comes second
in health, after a failure too, and second in progress. -/
theorem listed_alike_of_underscore :
    let x := reporting [.whole "orders_eu", .whole "orders"] [.whole "orders"]
    let log : MemoryLog := { progress := ⟨[⟨"orders_eu:All", 1, none⟩, ⟨"orders:All", 1, none⟩]⟩ }
    ((x.state 0).names.map ShardName.identity).Nodup ∧
      ∃ r, (x.state 1).handles = some r ∧
        (r.handles.map (·.name)).Perm [.whole "orders_eu", .whole "orders"] ∧
        (r.handles.map (·.name.identity)).Pairwise (· < ·) ∧
        ∃ check, (x.state 1).health = .ok check ∧
          SameOrder (check.shards.map (·.shard)) (log.progress.listing.map (·.shard)) "orders:All"
            "orders_eu:All" := by
  intro x log
  have hnames : (x.state 0).names = [.whole "orders_eu", .whole "orders"] := by rfl
  have hdistinct : ((x.state 0).names.map ShardName.identity).Nodup := by
    rw [hnames]
    decide +kernel
  have hnever : ∀ a ∈ (x.state 0).names, ∀ b ∈ (x.state 0).names, ¬ a.Overtakes b := by
    have habove : ∀ b ∈ (x.state 0).names, ∀ c ∈ b.projection.toList, ':' < c := by
      simp [hnames, ShardName.whole]
    exact fun a _ b hb => ShardName.not_overtakes_of_above (habove b hb)
  obtain ⟨r, hr, hperm, hsorted, hhealth⟩ := listed_alike_iff x hdistinct 1
  have hfits : ∀ r ∈ (x.state 1).handles, ∀ y ∈ r.entries,
      ((x.state 1).highWaterMark - y.2.position).Fits := by
    decide +kernel
  obtain ⟨check, hcheck⟩ := Daemon.exists_health hr (hfits r hr)
  obtain ⟨-, hrows⟩ := hhealth check hcheck
  have hall : EventLog.allProgress log ⟨0, false⟩ =
    (.ok log.progress.listing, { log with calls := 1 }) := rfl
  rw [hnames] at hperm hrows hnever
  refine ⟨hdistinct, r, hr, hperm, hsorted.mpr (by rwa [hnames]), check, hcheck, ?_⟩
  have hrow {i : String} (hi : i ∈ log.progress.rows.map (·.shard)) :
      i ∈ log.progress.listing.map (·.shard) :=
    (log.progress.perm_listing.map (·.shard)).mem_iff.mpr hi
  exact (hrows _ (.inMemory hall) (.whole "orders") (by simp) (.whole "orders_eu") (by simp)
    (by decide) (hrow (by decide)) (hrow (by decide))).mpr
      ⟨hnever _ (by simp) _ (by simp), hnever _ (by simp) _ (by simp)⟩

/-- The hyphen sorts below the colon. Health lists a shard `orders` before a shard `orders-v2`, and
so not in the order of their identities, which are distinct. Either log lists their progress in the
order of the identities. -/
theorem exists_listed_apart :
    let x := reporting [.whole "orders", .whole "orders-v2"] []
    let progress : ProgressRows := ⟨[⟨"orders:All", 1, none⟩, ⟨"orders-v2:All", 1, none⟩]⟩
    let table : ProgressTable := ⟨[⟨"orders:All", 1, none⟩, ⟨"orders-v2:All", 1, none⟩]⟩
    ((x.state 0).names.map ShardName.identity).Nodup ∧
      ∃ check rows, (x.state 0).health = .ok check ∧
        EventLog.allProgress { progress := progress : MemoryLog } ⟨0, false⟩ =
          (.ok rows, { progress := progress, calls := 1 }) ∧
        EventLog.allProgress { progress := table : TableLog } ⟨0, false⟩ =
          (.ok rows, { progress := table }) ∧
        check.shards.map (·.shard) = ["orders:All", "orders-v2:All"] ∧
        rows.map (·.shard) = ["orders-v2:All", "orders:All"] ∧
        ¬ (check.shards.map (·.shard)).Pairwise (· ≤ ·) ∧
        ¬ SameOrder (check.shards.map (·.shard)) (rows.map (·.shard)) "orders:All"
          "orders-v2:All" := by
  intro x progress table
  have hnames : (x.state 0).names = [.whole "orders", .whole "orders-v2"] := by rfl
  have hlt : ¬ "orders:All" ≤ "orders-v2:All" := by decide
  have hrows : progress.listing = [⟨"orders-v2:All", 1, none⟩, ⟨"orders:All", 1, none⟩] := by
    simp [progress, ProgressRows.listing, List.mergeSort, hlt]
  let r := Registry.ofNames [.whole "orders", .whole "orders-v2"]
  have hr : (x.state 0).handles = some r := by rfl
  have hlisted : r.handles.map (·.name) = [.whole "orders", .whole "orders-v2"] :=
    List.Perm.eq_of_pairwise (fun a b _ _ => ShardName.le_antisymm) r.pairwise_handles
      (by decide +kernel) (r.perm_handles.trans (by rfl))
  obtain ⟨check, hcheck⟩ := Daemon.exists_health hr (by decide +kernel)
  have hshards : check.shards.map (·.shard) = ["orders:All", "orders-v2:All"] := by
    have hidentities := congrArg (List.map ShardName.identity) hlisted
    rw [List.map_map] at hidentities
    exact (Daemon.shards_of_health hr hcheck).trans hidentities
  have htable : EventLog.allProgress { progress := table : TableLog } ⟨0, false⟩ =
      (.ok table.listing, { progress := table }) := rfl
  rw [table.listing_eq] at htable
  refine ⟨?_, check, progress.listing, hcheck, rfl, htable, hshards, ?_, ?_, ?_⟩
  · rw [hnames]
    decide +kernel
  · rw [hrows]
    rfl
  · rw [hshards]
    simp [hlt]
  · rw [hshards, hrows]
    unfold SameOrder
    decide

end Course

end Tidemark
