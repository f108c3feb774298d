import Mathlib.Data.List.Induction
import Mathlib.Data.List.Nodup
import Mathlib.Tactic.SplitIfs
import Tidemark.Shard.Handle

/-!
# Names that share an identity

An identity does not tell at which of its colons the projection ends, since both the projection and
the key of a name may contain colons. Names with the same identity are equal or put the same text
together at different colons (`ShardName.identity_eq_iff`). A registry has a handle for each of
distinct names exactly if no two of them do that (`Registry.own_iff`). Names that are read from
texts never do, since the projection is read up to the first colon (`ShardName.parse_eq_ok_iff`).
-/

namespace Tidemark

namespace ShardName

/-- A name puts together at a later colon what another one puts together: its projection goes on
where the one of the other ends. -/
def Regroups (a b : ShardName) : Prop :=
  b.key ≠ "" ∧ ∃ middle, a.projection = b.projection ++ ":" ++ middle ∧
    b.key = identity ⟨middle, a.key⟩

/-- The identity of the shard of a projection that has no key. -/
@[simp] theorem identity_of_noKey (projection : String) : identity ⟨projection, ""⟩ = projection :=
  rfl

/-- The identity of a name with a key. -/
theorem identity_of_key {projection key : String} (h : key ≠ "") :
    identity ⟨projection, key⟩ = projection ++ ":" ++ key := if_neg h

/-- Putting a name together at another colon does not change its identity. -/
theorem Regroups.identity_eq {a b : ShardName} (h : a.Regroups b) : a.identity = b.identity := by
  obtain ⟨p, k⟩ := a
  obtain ⟨q, l⟩ := b
  obtain ⟨hl, middle, hp, hmiddle⟩ := h
  obtain rfl : p = q ++ ":" ++ middle := hp
  obtain rfl : l = identity ⟨middle, k⟩ := hmiddle
  rw [identity_of_key hl]
  by_cases hk : k = ""
  · rw [hk, identity_of_noKey, identity_of_noKey]
  · rw [identity_of_key hk, identity_of_key hk]
    simp only [String.append_assoc]

/-- The projection of a name that is put together at a later colon contains a colon. -/
theorem Regroups.colon_mem {a b : ShardName} (h : a.Regroups b) : ':' ∈ a.projection.toList := by
  obtain ⟨-, middle, hprojection, -⟩ := h
  simp [hprojection]

/-- Two keys after a colon each, which follow on texts such that the whole is the same. -/
theorem regroups_of_append {p k q l : String} (hk : k ≠ "")
    (h : ∃ more, p.toList = q.toList ++ more ∧ ':' :: l.toList = more ++ ':' :: k.toList) :
    (⟨p, k⟩ : ShardName) = ⟨q, l⟩ ∨ Regroups ⟨p, k⟩ ⟨q, l⟩ := by
  obtain ⟨more, hp, hl⟩ := h
  cases more with
  | nil =>
    obtain rfl : p = q := String.toList_inj.mp (by simpa using hp)
    obtain rfl : l = k := String.toList_inj.mp (by simpa using hl)
    exact .inl rfl
  | cons c middle =>
    -- The text that comes in addition begins with the colon before the other key.
    obtain ⟨rfl, hkey⟩ := List.cons.inj hl
    have hkey : l.toList = middle ++ ':' :: k.toList := hkey
    refine .inr ⟨?_, String.ofList middle, String.toList_inj.mp ?_, String.toList_inj.mp ?_⟩
    · rintro rfl
      simp at hkey
    · simp [hp]
    · rw [identity_of_key hk]
      simp [hkey]

/-- Two names have the same identity exactly if they are equal or one of them puts together at a
later colon what the other does. -/
theorem identity_eq_iff {a b : ShardName} :
    a.identity = b.identity ↔ a = b ∨ a.Regroups b ∨ b.Regroups a := by
  constructor
  · intro h
    obtain ⟨p, k⟩ := a
    obtain ⟨q, l⟩ := b
    by_cases hk : k = "" <;> by_cases hl : l = ""
    · subst hk hl
      rw [identity_of_noKey, identity_of_noKey] at h
      rw [h]
      exact .inl rfl
    · subst hk
      rw [identity_of_noKey, identity_of_key hl] at h
      exact .inr (.inl ⟨hl, l, h, rfl⟩)
    · subst hl
      rw [identity_of_noKey, identity_of_key hk] at h
      exact .inr (.inr ⟨hk, k, h.symm, rfl⟩)
    · rw [identity_of_key hk, identity_of_key hl, ← String.toList_inj] at h
      have htexts : p.toList ++ ':' :: k.toList = q.toList ++ ':' :: l.toList := by simpa using h
      -- One of the projections is the longer one, or they are equal.
      rcases List.append_eq_append_iff.mp htexts with ⟨more, hq, hkey⟩ | ⟨more, hp, hkey⟩
      · rcases regroups_of_append hl ⟨more, hq, hkey⟩ with heq | hregroups
        · exact .inl heq.symm
        · exact .inr (.inr hregroups)
      · rcases regroups_of_append hk ⟨more, hp, hkey⟩ with heq | hregroups
        · exact .inl heq
        · exact .inr (.inl hregroups)
  · rintro (rfl | h | h)
    · rfl
    · exact h.identity_eq
    · exact h.identity_eq.symm

/-- Distinct names have distinct identities exactly if none of them puts together what another one
does. -/
theorem identities_nodup_iff {names : List ShardName} (h : names.Nodup) :
    (names.map identity).Nodup ↔ ∀ a ∈ names, ∀ b ∈ names, ¬ a.Regroups b := by
  rw [List.nodup_map_iff_inj_on h]
  constructor
  · intro hinj a ha b hb hregroups
    -- No name puts itself together at a later colon, since its projection would be longer.
    obtain rfl := hinj a ha b hb hregroups.identity_eq
    obtain ⟨-, middle, hprojection, -⟩ := hregroups
    have hlength := congrArg String.length hprojection
    simp only [String.length_append] at hlength
    have hcolon : (":" : String).length = 1 := rfl
    omega
  · intro hnone a ha b hb hidentity
    rcases identity_eq_iff.mp hidentity with heq | hregroups | hregroups
    · exact heq
    · exact absurd hregroups (hnone a ha b hb)
    · exact absurd hregroups (hnone b hb a ha)

/-! ## Reading -/

/-- A text without a colon is not split. -/
theorem splitColon_eq_none_iff {cs : List Char} : splitColon cs = none ↔ ':' ∉ cs := by
  induction cs with
  | nil => simp [splitColon]
  | cons c cs ih =>
    rw [splitColon]
    split_ifs with hcolon
    · simp [hcolon]
    · simp [ih, Ne.symm hcolon]

/-- A text is split at its first colon. -/
theorem splitColon_eq_some_iff {cs before after : List Char} :
    splitColon cs = some (before, after) ↔ cs = before ++ ':' :: after ∧ ':' ∉ before := by
  induction cs generalizing before with
  | nil => simp [splitColon]
  | cons c cs ih =>
    rw [splitColon]
    split_ifs with hcolon
    · subst hcolon
      cases before with
      | nil => simp
      | cons b before => simp +contextual [eq_comm]
    · cases before with
      | nil => simp [hcolon]
      | cons b before =>
        rw [Option.map_eq_some_iff]
        constructor
        · rintro ⟨⟨rest, after'⟩, hrest, heq⟩
          cases heq
          obtain ⟨rfl, hnot⟩ := ih.mp hrest
          exact ⟨rfl, by simp [Ne.symm hcolon, hnot]⟩
        · rintro ⟨hcs, hnot⟩
          obtain ⟨rfl, hrest⟩ := List.cons.inj hcs
          exact ⟨(before, after), ih.mpr ⟨hrest, mt (List.mem_cons_of_mem _) hnot⟩, rfl⟩

/-- What a text is read as: the whole of it is the projection, or a colon ends the projection. In
both cases the projection is not empty and contains no colon. -/
inductive ReadAs : String → ShardName → Prop
  | whole {projection : String} (hempty : projection ≠ "") (hcolon : ':' ∉ projection.toList) :
    ReadAs projection ⟨projection, ""⟩
  | parted {projection key : String} (hempty : projection ≠ "")
    (hcolon : ':' ∉ projection.toList) : ReadAs (projection ++ ":" ++ key) ⟨projection, key⟩

/-- A name is read from a text exactly if the text is read as that name. -/
theorem parse_eq_ok_iff {text : String} {name : ShardName} :
    parse text = .ok name ↔ ReadAs text name := by
  constructor
  · intro h
    unfold parse at h
    split_ifs at h with hempty
    split at h
    · next hsplit =>
      obtain rfl := Except.ok.inj h
      exact .whole hempty (splitColon_eq_none_iff.mp hsplit)
    · cases h
    · next before after hne hsplit =>
      obtain rfl := Except.ok.inj h
      obtain ⟨htext, hcolon⟩ := splitColon_eq_some_iff.mp hsplit
      obtain rfl : text = String.ofList before ++ ":" ++ String.ofList after :=
        String.toList_inj.mp (by simp [htext])
      refine .parted (fun hnil => hne ?_) (by simpa using hcolon)
      simpa using congrArg String.toList hnil
  · intro h
    cases h with
    | whole hempty hcolon =>
      rw [parse, if_neg hempty, splitColon_eq_none_iff.mpr hcolon]
    | @parted projection key hempty hcolon =>
      have hsplit : splitColon (projection ++ ":" ++ key).toList =
          some (projection.toList, key.toList) :=
        splitColon_eq_some_iff.mpr ⟨by simp, hcolon⟩
      have hne : projection ++ ":" ++ key ≠ "" := fun hnil => by
        simpa using congrArg String.toList hnil
      rw [parse, if_neg hne, hsplit]
      split
      · next heq => cases heq
      · next heq =>
        obtain ⟨hnil, -⟩ := Prod.mk.inj (Option.some.inj heq)
        exact absurd (String.toList_inj.mp (by simpa using hnil)) hempty
      · next heq =>
        obtain ⟨rfl, rfl⟩ := Prod.mk.inj (Option.some.inj heq)
        simp

/-- A projection that is read from an identity contains no colon, so that names that are read from
identities put nothing together at a later colon. -/
theorem not_regroups_of_parse {text : String} {a b : ShardName} (h : parse text = .ok a) :
    ¬ a.Regroups b := by
  intro hregroups
  have hcolon := hregroups.colon_mem
  cases parse_eq_ok_iff.mp h with
  | whole _ hnone => exact hnone hcolon
  | parted _ hnone => exact hnone hcolon

end ShardName

namespace Registry

/-- The handles after a shard was registered. -/
theorem find?_register (r : Registry) (name : ShardName) (i : String) :
    (r.register name).find? i = if i = name.identity then some { name := name } else r.find? i := by
  obtain ⟨entries⟩ := r
  unfold find? register
  dsimp only
  induction entries with
  | nil =>
    by_cases hi : i = name.identity
    · simp [hi]
    · simp [List.lookup_cons, hi, beq_eq_false_iff_ne.mpr hi]
  | cons entry rest ih =>
    obtain ⟨j, h⟩ := entry
    by_cases hj : j = name.identity
    · subst hj
      rw [List.filter_cons_of_neg (by simp), ih]
      by_cases hi : i = name.identity
      · simp [hi]
      · simp [List.lookup_cons, hi, beq_eq_false_iff_ne.mpr hi]
    · rw [List.filter_cons_of_pos (by simpa using hj), List.cons_append, List.lookup_cons,
        List.lookup_cons, ih]
      by_cases hi : i = j
      · subst hi
        simp [hj]
      · simp [beq_eq_false_iff_ne.mpr hi]

/-- Of the names that have an identity, the one registered last has the handle. -/
theorem find?_ofNames (names : List ShardName) (i : String) :
    (ofNames names).find? i =
      (names.reverse.find? (·.identity = i)).map fun name => { name := name } := by
  induction names using List.reverseRecOn with
  | nil => rfl
  | append_singleton names name ih =>
    have hlast : ofNames (names ++ [name]) = (ofNames names).register name := by
      simp [ofNames]
    rw [hlast, find?_register, List.reverse_append, List.reverse_singleton, List.singleton_append,
      List.find?_cons, ih]
    by_cases hi : i = name.identity
    · simp [hi]
    · simp [hi, Ne.symm hi]

/-- Each of the names registered has a handle of its own exactly if no two of them share an
identity. -/
theorem own_iff {names : List ShardName} :
    (∀ name ∈ names, (ofNames names).find? name.identity = some { name := name }) ↔
      ∀ a ∈ names, ∀ b ∈ names, a.identity = b.identity → a = b := by
  constructor
  · intro hown a ha b hb hidentity
    have hfound := hown a ha
    rw [hidentity, hown b hb] at hfound
    cases hfound
    rfl
  · intro hinj name hname
    rw [find?_ofNames]
    cases hfind : names.reverse.find? (·.identity = name.identity) with
    | none =>
      have hall := List.find?_eq_none.mp hfind name (List.mem_reverse.mpr hname)
      simp at hall
    | some found =>
      have hmem := List.mem_reverse.mp (List.mem_of_find?_eq_some hfind)
      have hidentity : found.identity = name.identity := by simpa using List.find?_some hfind
      rw [hinj found hmem name hname hidentity]
      rfl

end Registry

end Tidemark
