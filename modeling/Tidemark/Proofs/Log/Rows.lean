import Mathlib.Data.Fintype.EquivFin
import Mathlib.Data.List.Nodup
import Mathlib.Data.String.Basic
import Tidemark.Log.Table

/-!
# Progress rows keep one position for each identity

A row that is recorded is the one that is found under its identity, and the rows of all other
identities are found as before.

In memory the rows are kept as they are handed out, in a table with times in milliseconds. A table
is read as the rows that it stands for (`ProgressTable.toRows`). Where no two rows have the same
identity, what is found and listed does not depend on the order of the rows
(`ProgressRows.find_congr`, `ProgressRows.listing_congr`). So rows in memory and a table that hold
the same (`TwinRows`) answer alike, and go on doing so whatever is recorded in both
(`TwinRows.record`).
-/

namespace Tidemark

/-- An element of a list of distinct keys stands beside those of the other keys. -/
theorem perm_cons_others {α κ : Type} [DecidableEq α] [DecidableEq κ] {key : α → κ} {l : List α}
    (h : (l.map key).Nodup) {a : α} (ha : a ∈ l) :
    l.Perm (a :: l.filter fun x => decide (key x ≠ key a)) := by
  have hothers : l.erase a = l.filter fun x => decide (key x ≠ key a) := by
    rw [h.of_map.erase_eq_filter]
    refine List.filter_congr fun x hx => ?_
    have hkeys : key x = key a ↔ x = a :=
      ⟨fun heq => List.inj_on_of_nodup_map h hx ha heq, congrArg key⟩
    simp [hkeys, bne, Bool.beq_eq_decide_eq]
  rw [← hothers]
  exact List.perm_cons_erase ha

namespace ProgressRows

/-! ## Rows in memory -/

/-- The first row of an identity after a row has been put into the list. -/
theorem find?_put (row : Progress) (rows : List Progress) (identity : String) :
    (put row rows).find? (·.shard == identity) =
      if row.shard = identity then some row else rows.find? (·.shard == identity) := by
  induction rows with
  | nil => by_cases h : row.shard = identity <;> simp [put, h]
  | cons r rest ih =>
    by_cases hr : r.shard = row.shard
    · -- The row replaces the one at the head.
      by_cases h : row.shard = identity <;> simp [put, hr, h]
    · rw [put, if_neg hr, List.find?_cons, List.find?_cons, ih]
      by_cases h : r.shard = identity
      · have hne : row.shard ≠ identity := fun he => hr (h.trans he.symm)
        simp [h, hne]
      · rw [beq_eq_false_iff_ne.mpr h]

/-- What is found after a row has been recorded. -/
theorem find_record (r : ProgressRows) (row : Progress) (identity : String) :
    (r.record row).find identity =
      if row.shard = identity then (row.sequence, row.lastUpdated) else r.find identity := by
  unfold find record
  rw [find?_put]
  by_cases h : row.shard = identity <;> simp [h]

/-- Some identity has no row. -/
theorem exists_unrecorded (r : ProgressRows) : ∃ identity, (r.find identity).1 = 0 := by
  obtain ⟨identity, hnew⟩ := Infinite.exists_notMem_finset (r.rows.map (·.shard)).toFinset
  refine ⟨identity, ?_⟩
  have hnone : r.rows.find? (·.shard == identity) = none := by
    simp only [List.mem_toFinset, List.mem_map, not_exists, not_and] at hnew
    simpa using hnew
  rw [find, hnone]

/-- All rows are listed. -/
theorem perm_listing (r : ProgressRows) : r.listing.Perm r.rows := List.mergeSort_perm _ _

/-- Rows are listed in the order of the identities. -/
theorem pairwise_listing (r : ProgressRows) : r.listing.Pairwise (·.shard ≤ ·.shard) := by
  have h : r.listing.Pairwise fun a b => decide (a.shard ≤ b.shard) = true := by
    unfold listing
    refine List.pairwise_mergeSort (fun a b c hab hbc => ?_) (fun a b => ?_) r.rows
    · simp only [decide_eq_true_eq] at hab hbc ⊢
      exact hab.trans hbc
    · simpa using le_total a.shard b.shard
  simpa using h

/-! ## Distinct identities -/

/-- No two rows have the same identity. -/
def Distinct (r : ProgressRows) : Prop := (r.rows.map (·.shard)).Nodup

section Distinct

variable {r r' : ProgressRows}

/-- Rows of distinct identities are so in any order. -/
theorem Distinct.perm (h : r.Distinct) (hperm : r.rows.Perm r'.rows) : r'.Distinct :=
  (hperm.map _).nodup_iff.mp h

/-- A row of distinct identities is the only one of its own. -/
theorem Distinct.eq_of_shard (h : r.Distinct) {a b : Progress} (ha : a ∈ r.rows)
    (hb : b ∈ r.rows) (hshard : a.shard = b.shard) : a = b :=
  List.inj_on_of_nodup_map h ha hb hshard

/-- Of distinct identities, each is found with the row that it has. -/
theorem Distinct.find?_eq_some_iff (h : r.Distinct) {identity : String} {row : Progress} :
    r.rows.find? (·.shard == identity) = some row ↔ row ∈ r.rows ∧ row.shard = identity := by
  constructor
  · intro hfind
    exact ⟨List.mem_of_find?_eq_some hfind, by simpa using List.find?_some hfind⟩
  · rintro ⟨hmem, rfl⟩
    cases hfind : r.rows.find? (·.shard == row.shard) with
    | none => exact absurd (List.find?_eq_none.mp hfind row hmem) (by simp)
    | some found =>
      have hshard : found.shard = row.shard := by simpa using List.find?_some hfind
      rw [h.eq_of_shard (List.mem_of_find?_eq_some hfind) hmem hshard]

/-- What is found of distinct identities does not depend on the order of the rows. -/
theorem find_congr (h : r.Distinct) (hperm : r.rows.Perm r'.rows) (identity : String) :
    r.find identity = r'.find identity := by
  have hfind : r.rows.find? (·.shard == identity) = r'.rows.find? (·.shard == identity) :=
    Option.ext fun row => by
      rw [h.find?_eq_some_iff, (h.perm hperm).find?_eq_some_iff, hperm.mem_iff]
  rw [find, find, hfind]

/-- How distinct identities are listed does not depend on the order of the rows. -/
theorem listing_congr (h : r.Distinct) (hperm : r.rows.Perm r'.rows) : r.listing = r'.listing := by
  have hlisted : r.listing.Perm r'.listing :=
    r.perm_listing.trans (hperm.trans r'.perm_listing.symm)
  refine hlisted.eq_of_pairwise (fun a b ha hb hab hba => ?_) r.pairwise_listing
    r'.pairwise_listing
  exact h.eq_of_shard (r.perm_listing.mem_iff.mp ha)
    (hperm.mem_iff.mpr (r'.perm_listing.mem_iff.mp hb)) (le_antisymm hab hba)

/-- A row that is put among rows of distinct identities takes the place of the one of its own, and
the others stay. -/
theorem put_perm (row : Progress) {rows : List Progress} (h : (rows.map (·.shard)).Nodup) :
    (put row rows).Perm (row :: rows.filter fun x => decide (x.shard ≠ row.shard)) := by
  induction rows with
  | nil => exact .refl _
  | cons x rest ih =>
    obtain ⟨hx, hrest⟩ := List.nodup_cons.mp h
    unfold put
    split_ifs with heq
    · -- None of the others has the same identity, and so all of them stay.
      have hothers : ∀ y ∈ rest, y.shard ≠ row.shard := fun y hy hy' =>
        hx (List.mem_map.mpr ⟨y, hy, hy'.trans heq.symm⟩)
      have hstay : rest.filter (fun y => decide (y.shard ≠ row.shard)) = rest :=
        List.filter_eq_self.mpr fun y hy => decide_eq_true (hothers y hy)
      rw [List.filter_cons_of_neg (by simpa using heq), hstay]
    · rw [List.filter_cons_of_pos (by simpa using heq)]
      exact ((ih hrest).cons x).trans (.swap _ _ _)

/-- Distinct identities stay so when a row is recorded. -/
theorem Distinct.record (h : r.Distinct) (row : Progress) : (r.record row).Distinct := by
  have hperm : ((r.record row).rows.map (·.shard)).Perm
      (row.shard :: (r.rows.filter fun x => decide (x.shard ≠ row.shard)).map (·.shard)) :=
    (put_perm row h).map _
  refine hperm.nodup_iff.mpr (List.nodup_cons.mpr ⟨fun hmem => ?_, ?_⟩)
  · obtain ⟨x, hx, hshard⟩ := List.mem_map.mp hmem
    exact of_decide_eq_true (List.mem_filter.mp hx).2 hshard
  · exact h.sublist (List.filter_sublist.map _)

end Distinct

end ProgressRows

/-! ## Rows in a table -/

namespace ProgressTable

/-- The rows that a table stands for. -/
def toRows (t : ProgressTable) : ProgressRows := ⟨t.rows.map ProgressRow.toProgress⟩

/-- What is found in a table is what is found in the rows that it stands for. -/
theorem find_eq (t : ProgressTable) (name : String) : t.find name = t.toRows.find name := by
  have hfind : t.toRows.rows.find? (·.shard == name) =
      (t.rows.find? (·.name == name)).map ProgressRow.toProgress := List.find?_map
  rw [ProgressRows.find, hfind, find]
  cases t.rows.find? (·.name == name) with
  | some row => rfl
  | none => rfl

/-- A table lists the rows that it stands for. -/
theorem listing_eq (t : ProgressTable) : t.listing = t.toRows.listing :=
  List.map_mergeSort fun _ _ _ _ => rfl

/-- An update keeps the names. -/
@[simp]
theorem name_update (name : String) (p : Position) (millis : Int) (row : ProgressRow) :
    (row.update name p millis).name = row.name := by
  unfold ProgressRow.update
  split_ifs <;> rfl

variable {t : ProgressTable} {name : String} {p : Position} {millis : Int}

/-- Where the name is there, its row is updated. -/
theorem rows_upsert_of_mem (h : ∃ row ∈ t.rows, row.name = name) :
    (t.upsert name p millis).rows = t.rows.map (ProgressRow.update name p millis) := by
  have hthere : t.rows.any (·.name == name) = true := by simpa using h
  rw [upsert, if_pos hthere]

/-- Where the name is not there, a row is inserted. -/
theorem rows_upsert_of_not_mem (h : ∀ row ∈ t.rows, row.name ≠ name) :
    (t.upsert name p millis).rows = t.rows ++ [⟨name, p, some millis⟩] := by
  have hthere : ¬ t.rows.any (·.name == name) = true := by simpa using h
  rw [upsert, if_neg hthere]

/-- A name is there, or all rows have other names. -/
theorem mem_or_not_mem (t : ProgressTable) (name : String) :
    (∃ row ∈ t.rows, row.name = name) ∨ ∀ row ∈ t.rows, row.name ≠ name := by
  by_cases h : ∃ row ∈ t.rows, row.name = name
  · exact .inl h
  · exact .inr fun row hrow hname => h ⟨row, hrow, hname⟩

/-- What is found after a row has been written. -/
theorem find_upsert (t : ProgressTable) (name : String) (p : Position) (millis : Int)
    (other : String) : (t.upsert name p millis).find other =
      if name = other then (p, some (.ofMillis millis)) else t.find other := by
  have hfound {row : ProgressRow} (hrow : t.rows.find? (·.name == other) = some row) :
      row ∈ t.rows ∧ row.name = other :=
    ⟨List.mem_of_find?_eq_some hrow, by simpa using List.find?_some hrow⟩
  rcases t.mem_or_not_mem name with hthere | hnone
  · have hfind : (t.rows.map (ProgressRow.update name p millis)).find? (·.name == other) =
        (t.rows.find? (·.name == other)).map (ProgressRow.update name p millis) := by
      rw [List.find?_map, Function.comp_def]
      simp only [name_update]
    rw [find, rows_upsert_of_mem hthere, hfind, find]
    cases hrow : t.rows.find? (·.name == other) with
    | some row =>
      -- The row that is found is the one that is updated, if it has the name.
      obtain ⟨-, hname⟩ := hfound hrow
      by_cases hother : name = other
      · simp [ProgressRow.update, hname, hother]
      · simp [ProgressRow.update, hname, hother, Ne.symm hother]
    | none =>
      have hother : name ≠ other := by
        rintro rfl
        obtain ⟨row, hmem, hname⟩ := hthere
        exact List.find?_eq_none.mp hrow row hmem (by simpa using hname)
      simp [hother]
  · rw [find, rows_upsert_of_not_mem hnone, List.find?_append, find]
    cases hrow : t.rows.find? (·.name == other) with
    | some row =>
      obtain ⟨hmem, hname⟩ := hfound hrow
      have hother : name ≠ other := fun h => hnone row hmem (hname.trans h.symm)
      simp [hother]
    | none => by_cases hother : name = other <;> simp [hother]

/-- Some name has no row. -/
theorem exists_unrecorded (t : ProgressTable) : ∃ name, (t.find name).1 = 0 := by
  simpa only [find_eq] using t.toRows.exists_unrecorded

/-- A row that is written among rows of distinct names takes the place of the one of its own, and
the others stay. -/
theorem upsert_perm (h : (t.rows.map (·.name)).Nodup) : (t.upsert name p millis).rows.Perm
    (⟨name, p, some millis⟩ :: t.rows.filter fun row => decide (row.name ≠ name)) := by
  rcases t.mem_or_not_mem name with ⟨row, hmem, rfl⟩ | hnone
  · have hupdated : row.update row.name p millis = ⟨row.name, p, some millis⟩ := if_pos rfl
    have hothers : (t.rows.filter fun x => decide (x.name ≠ row.name)).map
        (ProgressRow.update row.name p millis) =
          t.rows.filter fun x => decide (x.name ≠ row.name) :=
      (List.map_congr_left fun x hx => if_neg (of_decide_eq_true (List.mem_filter.mp hx).2)).trans
        (List.map_id _)
    have hperm := (perm_cons_others h hmem).map (ProgressRow.update row.name p millis)
    rw [List.map_cons, hupdated, hothers] at hperm
    rwa [rows_upsert_of_mem ⟨row, hmem, rfl⟩]
  · have hothers : (t.rows.filter fun row => decide (row.name ≠ name)) = t.rows :=
      List.filter_eq_self.mpr fun row hrow => decide_eq_true (hnone row hrow)
    rw [rows_upsert_of_not_mem hnone, hothers]
    exact List.perm_append_singleton _ _

end ProgressTable

/-! ## Both -/

/-- Rows in memory and a table hold the same progress, in whatever order. -/
structure TwinRows (r : ProgressRows) (t : ProgressTable) : Prop where
  distinct : r.Distinct
  rows : r.rows.Perm t.toRows.rows

namespace TwinRows

variable {r : ProgressRows} {t : ProgressTable}

/-- Without rows, both hold the same. -/
theorem empty : TwinRows {} {} := ⟨List.nodup_nil, .refl _⟩

/-- The same is found in both. -/
theorem find_eq (h : TwinRows r t) (identity : String) : t.find identity = r.find identity := by
  rw [t.find_eq, ProgressRows.find_congr h.distinct h.rows]

/-- Both are listed in the same way. -/
theorem listing_eq (h : TwinRows r t) : t.listing = r.listing := by
  rw [t.listing_eq, ProgressRows.listing_congr h.distinct h.rows]

/-- Both go on holding the same when the same is recorded in both. -/
theorem record (h : TwinRows r t) (identity : String) (p : Position) (millis : Int) :
    TwinRows (r.record ⟨identity, p, some (.ofMillis millis)⟩)
      (t.upsert identity p millis) := by
  have hnames : (t.rows.map (·.name)).Nodup := by
    have hrows := h.distinct.perm h.rows
    rw [ProgressRows.Distinct, ProgressTable.toRows, List.map_map] at hrows
    exact hrows
  have hothers : (r.rows.filter fun x => decide (x.shard ≠ identity)).Perm
      ((t.rows.filter fun x => decide (x.name ≠ identity)).map ProgressRow.toProgress) := by
    have hfilter := h.rows.filter fun x => decide (x.shard ≠ identity)
    rwa [ProgressTable.toRows, List.filter_map] at hfilter
  refine ⟨h.distinct.record _, ?_⟩
  calc (r.record ⟨identity, p, some (.ofMillis millis)⟩).rows.Perm
        (⟨identity, p, some (.ofMillis millis)⟩ ::
          r.rows.filter fun x => decide (x.shard ≠ identity)) := ProgressRows.put_perm _ h.distinct
    List.Perm _ (⟨identity, p, some (.ofMillis millis)⟩ ::
          (t.rows.filter fun x => decide (x.name ≠ identity)).map ProgressRow.toProgress) :=
        hothers.cons _
    List.Perm _ (t.upsert identity p millis).toRows.rows :=
        ((ProgressTable.upsert_perm hnames).map ProgressRow.toProgress).symm

end TwinRows

end Tidemark
