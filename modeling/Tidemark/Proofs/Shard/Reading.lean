import Tidemark.Proofs.Shard.Name

/-!
# Identities are read back

A name whose projection is neither empty nor contains a colon is read back from its identity,
whatever its key is. All other texts are read as names of that kind, except for the empty one and
those that begin with a colon, which are refused. The identity of the name that was read is the text
again, unless the text has a single colon, at its end, which gets lost because the key behind it is
empty.

Main statement: `ShardName.identity_round_trip`.
-/

namespace Tidemark

namespace ShardName

/-- A name is read back from its identity if its projection is neither empty nor contains a
colon. -/
theorem parse_identity {name : ShardName} (hempty : name.projection ≠ "")
    (hcolon : ':' ∉ name.projection.toList) : parse name.identity = .ok name := by
  obtain ⟨projection, key⟩ := name
  rw [parse_eq_ok_iff]
  by_cases hkey : key = ""
  · subst hkey
    exact .whole hempty hcolon
  · rw [identity_of_key hkey]
    exact .parted hempty hcolon

/-- A text is refused if it is empty or begins with a colon, and the message says which. -/
theorem parse_eq_error_iff {text : String} {e : Error} :
    parse text = .error e ↔
      text = "" ∧ e = .config "shard name cannot be empty" ∨
        ∃ rest, text = ":" ++ rest ∧
          e = .config ("shard name '" ++ text ++ "' has no projection") := by
  constructor
  · intro h
    unfold parse at h
    split_ifs at h with hempty
    · exact .inl ⟨hempty, (Except.error.inj h).symm⟩
    · split at h
      · cases h
      · next rest hsplit =>
        obtain ⟨htext, -⟩ := splitColon_eq_some_iff.mp hsplit
        exact .inr ⟨String.ofList rest, String.toList_inj.mp (by simp [htext]),
          (Except.error.inj h).symm⟩
      · cases h
  · rintro (⟨rfl, rfl⟩ | ⟨rest, rfl, rfl⟩)
    · rfl
    · have hsplit : splitColon (":" ++ rest).toList = some ([], rest.toList) :=
        splitColon_eq_some_iff.mpr ⟨by simp, List.not_mem_nil⟩
      have hne : ":" ++ rest ≠ "" := fun hnil => by simpa using congrArg String.toList hnil
      rw [parse, if_neg hne, hsplit]

/-- A text is read as a name exactly if it is not empty and does not begin with a colon. -/
theorem parse_isOk_iff {text : String} :
    (∃ name, parse text = .ok name) ↔ text ≠ "" ∧ ∀ rest, text ≠ ":" ++ rest := by
  constructor
  · rintro ⟨name, hname⟩
    refine ⟨fun hempty => ?_, fun rest hrest => ?_⟩
    · cases hname.symm.trans (parse_eq_error_iff.mpr (.inl ⟨hempty, rfl⟩))
    · cases hname.symm.trans (parse_eq_error_iff.mpr (.inr ⟨rest, hrest, rfl⟩))
  · rintro ⟨hempty, hcolon⟩
    cases h : parse text with
    | ok name => exact ⟨name, rfl⟩
    | error e =>
      rcases parse_eq_error_iff.mp h with ⟨hnil, -⟩ | ⟨rest, hrest, -⟩
      · exact absurd hnil hempty
      · exact absurd hrest (hcolon rest)

/-- A text whose only colon is its last character is read as a name without a key. -/
theorem ReadAs.identity_of_trailing {projection : String} {name : ShardName}
    (h : ReadAs (projection ++ ":") name) (hcolon : ':' ∉ projection.toList) :
    name.identity = projection := by
  generalize htext : projection ++ ":" = text at h
  cases h with
  | whole _ hnone => exact absurd (by simp [← htext]) hnone
  | @parted before key _ hbefore =>
    -- The first colon of a text is at one place only.
    have hsplit := splitColon_eq_some_iff.mpr (show (before ++ ":" ++ key).toList =
      before.toList ++ ':' :: key.toList ∧ ':' ∉ before.toList from ⟨by simp, hbefore⟩)
    rw [← htext, splitColon_eq_some_iff.mpr (show (projection ++ ":").toList =
      projection.toList ++ ':' :: [] ∧ ':' ∉ projection.toList from ⟨by simp, hcolon⟩)] at hsplit
    obtain ⟨hbefore, hkey⟩ := Prod.mk.inj (Option.some.inj hsplit)
    obtain rfl : key = "" := String.toList_inj.mp hkey.symm
    exact (String.toList_inj.mp hbefore).symm

/-- Any other text is the identity of the name that is read from it. -/
theorem ReadAs.identity_eq {text : String} {name : ShardName} (h : ReadAs text name)
    (hinner : ∀ projection, text = projection ++ ":" → ':' ∈ projection.toList) :
    name.identity = text := by
  cases h with
  | whole => rfl
  | @parted projection key _ hcolon =>
    have hkey : key ≠ "" := by
      rintro rfl
      exact hcolon (hinner projection (String.append_empty ..))
    exact identity_of_key hkey

/-- A name whose projection is neither empty nor contains a colon is read back from its identity,
and so is the only such name with that identity. A text is read as a name exactly if it is not empty
and does not begin with a colon. The identity of what was read is the text without its last
character if that is its only colon, and the text itself if it is not. -/
theorem identity_round_trip :
    (∀ name : ShardName, name.projection ≠ "" → ':' ∉ name.projection.toList →
      parse name.identity = .ok name) ∧
    (∀ a b : ShardName, a.projection ≠ "" → ':' ∉ a.projection.toList →
      b.projection ≠ "" → ':' ∉ b.projection.toList → a.identity = b.identity → a = b) ∧
    (∀ text, (∃ name, parse text = .ok name) ↔ text ≠ "" ∧ ∀ rest, text ≠ ":" ++ rest) ∧
    ∀ text name, parse text = .ok name →
      (∀ projection, text = projection ++ ":" → ':' ∉ projection.toList →
        name.identity = projection) ∧
      ((∀ projection, text = projection ++ ":" → ':' ∈ projection.toList) →
        name.identity = text) := by
  refine ⟨fun name => parse_identity, ?injective, fun text => parse_isOk_iff, ?text⟩
  case injective =>
    intro a b ha hacolon hb hbcolon hidentity
    have hread := parse_identity ha hacolon
    rw [hidentity, parse_identity hb hbcolon] at hread
    exact (Except.ok.inj hread).symm
  case text =>
    intro text name hparse
    have hread := parse_eq_ok_iff.mp hparse
    refine ⟨?_, hread.identity_eq⟩
    rintro projection rfl hcolon
    exact hread.identity_of_trailing hcolon

/-- A key may contain colons and even end with one, but a single colon at the end of a text gets
lost. -/
theorem identity_round_trip_of_colons :
    parse (identity ⟨"Trips", "tenant:a:"⟩) = .ok ⟨"Trips", "tenant:a:"⟩ ∧
      ∃ name, parse "Trips:" = .ok name ∧ name.identity = "Trips" := by
  obtain ⟨hback, -, haccepted, htext⟩ := identity_round_trip
  refine ⟨hback ⟨"Trips", "tenant:a:"⟩ (by decide) (by decide), ?_⟩
  have hfirst (rest : String) : "Trips:" ≠ ":" ++ rest := fun h => by
    simpa using congrArg String.toList h
  obtain ⟨name, hname⟩ := (haccepted "Trips:").mpr ⟨by decide, hfirst⟩
  exact ⟨name, hname, (htext "Trips:" name hname).1 "Trips" rfl (by decide)⟩

end ShardName

end Tidemark
