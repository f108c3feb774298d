import Mathlib.Data.List.Nodup
import Mathlib.Data.Prod.Lex
import Mathlib.Data.String.Basic
import Tidemark.Proofs.Shard.Name

/-!
# The orders of names and of identities

Names are ordered by projection and then by key, identities as texts. The two orders come apart only
where a projection goes on behind the end of another one: then the identities compare what comes in
addition with the colon behind the shorter projection. A name that comes first among the names and
second among the identities overtakes the other (`ShardName.overtakes_iff`). No name does if the
characters of all projections sort above the colon, as letters do
(`ShardName.not_overtakes_of_above`).
-/

namespace Tidemark

namespace Text

/-- What two texts have in common at the beginning has no part in their order. -/
theorem append_lt_append_left_iff {p s t : String} : p ++ s < p ++ t ↔ s < t := by
  simp only [String.lt_iff_toList_lt, String.toList_append]
  refine ⟨fun h => ?_, List.append_left_lt⟩
  by_contra hle
  rcases (not_lt.mp hle).eq_or_lt with heq | hlt
  · rw [heq] at h
    exact lt_irrefl _ h
  · exact lt_asymm h (List.append_left_lt hlt)

/-- Whatever follows on two lists, their order stays, unless the second one goes on where the first
one ends. -/
theorem append_lt_append_of_lt_list :
    ∀ {as bs : List Char}, as < bs → (∀ more, more ≠ [] → bs ≠ as ++ more) →
      ∀ s t, as ++ s < bs ++ t
  | _, [], h, _, _, _ => absurd h (List.not_lt_nil _)
  | [], b :: bs, _, hmore, _, _ => absurd rfl (hmore (b :: bs) (List.cons_ne_nil b bs))
  | a :: as, b :: bs, h, hmore, s, t => by
    rw [List.cons_append, List.cons_append, List.cons_lt_cons_iff]
    rcases List.cons_lt_cons_iff.mp h with hab | ⟨rfl, hrest⟩
    · exact .inl hab
    · refine .inr ⟨rfl, append_lt_append_of_lt_list hrest (fun more hne heq => ?_) s t⟩
      exact hmore more hne (congrArg (a :: ·) heq)

/-- Whatever follows on two texts, their order stays, unless the second one goes on where the first
one ends. -/
theorem append_lt_append_of_lt {p q : String} (h : p < q)
    (hmore : ∀ more, more ≠ "" → q ≠ p ++ more) (s t : String) : p ++ s < q ++ t := by
  simp only [String.lt_iff_toList_lt, String.toList_append] at h ⊢
  refine append_lt_append_of_lt_list h (fun more hne heq => ?_) _ _
  exact hmore (String.ofList more) (by simpa using hne) (String.toList_inj.mp (by simpa using heq))

/-- No text comes before the empty one. -/
theorem empty_le (s : String) : "" ≤ s :=
  String.le_iff_toList_le.mpr (not_lt.mp (List.not_lt_nil _))

/-- A text comes before one that goes on where it ends. -/
theorem lt_append {p more : String} (h : more ≠ "") : p < p ++ more := by
  have hlt : p ++ "" < p ++ more :=
    append_lt_append_left_iff.mpr (lt_of_le_of_ne (empty_le more) h.symm)
  simpa using hlt

/-- A text does not come after one that begins with it. -/
theorem le_append (p more : String) : p ≤ p ++ more := by
  by_cases h : more = ""
  · simp [h]
  · exact (lt_append h).le

end Text

namespace ShardName

/-! ## Names in order -/

/-- The order of names is that of the pairs of a projection and a key. -/
theorem le_iff {a b : ShardName} :
    a.le b ↔ toLex (a.projection, a.key) ≤ toLex (b.projection, b.key) := by
  simp [le, Prod.Lex.le_iff]

/-- The order of names is transitive. -/
protected theorem le_trans {a b c : ShardName} (hab : a.le b) (hbc : b.le c) : a.le c :=
  le_iff.mpr ((le_iff.mp hab).trans (le_iff.mp hbc))

/-- Of two names, one comes no later than the other. -/
protected theorem le_total (a b : ShardName) : a.le b ∨ b.le a := by
  simp only [le_iff]
  exact le_total _ _

/-- Two names of which neither comes later are equal. -/
protected theorem le_antisymm {a b : ShardName} (hab : a.le b) (hba : b.le a) : a = b := by
  have heq := le_antisymm (le_iff.mp hab) (le_iff.mp hba)
  cases a
  cases b
  simpa using heq

/-! ## Identities in order -/

/-- An identity is the projection with what the key adds to it. -/
theorem identity_append (p more k : String) :
    identity ⟨p ++ more, k⟩ = p ++ identity ⟨more, k⟩ := by
  unfold identity
  split_ifs
  · rfl
  · simp only [String.append_assoc]

/-- A name comes before one whose projection goes on where its own ends, and yet its identity comes
after the other one: what the other projection has in addition sorts below the colon with the
key. -/
def Overtakes (a b : ShardName) : Prop :=
  a.key ≠ "" ∧ ∃ more, more ≠ "" ∧ b.projection = a.projection ++ more ∧
    identity ⟨more, b.key⟩ < ":" ++ a.key

/-- Of two keys the lower one adds less to a projection. -/
theorem identity_le_of_key {k l : String} (h : k ≤ l) (p : String) :
    identity ⟨p, k⟩ ≤ identity ⟨p, l⟩ := by
  by_cases hk : k = ""
  · by_cases hl : l = ""
    · rw [hk, hl]
    · rw [hk, identity_of_noKey, identity_of_key hl, String.append_assoc]
      exact (Text.lt_append (by simp)).le
  · have hl : l ≠ "" := by
      rintro rfl
      exact hk (le_antisymm h (Text.empty_le k))
    rw [identity_of_key hk, identity_of_key hl]
    exact not_lt.mp fun hlt => not_lt.mpr h (Text.append_lt_append_left_iff.mp hlt)

/-- A name overtakes another one exactly if the two orders differ: it comes first among the names,
and second among the identities. -/
theorem overtakes_iff {a b : ShardName} :
    a.Overtakes b ↔ a.le b ∧ b.identity < a.identity := by
  obtain ⟨p, k⟩ := a
  obtain ⟨q, l⟩ := b
  constructor
  · rintro ⟨hk, more, hmore, hq, hlt⟩
    obtain rfl : q = p ++ more := hq
    refine ⟨le_iff.mpr (Prod.Lex.le_iff.mpr (.inl (Text.lt_append hmore))), ?_⟩
    rw [identity_append, identity_of_key hk, String.append_assoc]
    exact Text.append_lt_append_left_iff.mpr hlt
  · rintro ⟨hle, hlt⟩
    rcases Prod.Lex.le_iff.mp (le_iff.mp hle) with hpq | ⟨rfl, hkl⟩
    · by_cases hmore : ∃ more, more ≠ "" ∧ q = p ++ more
      · -- What both identities begin with is the shorter projection.
        obtain ⟨more, hne, rfl⟩ := hmore
        have hk : k ≠ "" := by
          rintro rfl
          rw [identity_append, identity_of_noKey] at hlt
          exact absurd hlt (not_lt.mpr (Text.le_append p _))
        refine ⟨hk, more, hne, rfl, ?_⟩
        rw [identity_append, identity_of_key hk, String.append_assoc] at hlt
        exact Text.append_lt_append_left_iff.mp hlt
      · -- The identities differ where the projections do.
        have hsame := Text.append_lt_append_of_lt hpq fun more hne heq => hmore ⟨more, hne, heq⟩
        have hidentities := hsame (identity ⟨"", k⟩) (identity ⟨"", l⟩)
        simp only [← identity_append, String.append_empty] at hidentities
        exact absurd hlt (lt_asymm hidentities)
    · exact absurd hlt (not_lt.mpr (identity_le_of_key hkl p))

/-- A name whose projection has only characters that sort above the colon is not overtaken. -/
theorem not_overtakes_of_above {a b : ShardName} (h : ∀ c ∈ b.projection.toList, ':' < c) :
    ¬ a.Overtakes b := by
  rintro ⟨-, more, hmore, hprojection, hlt⟩
  obtain ⟨c, cs, hcs⟩ := List.exists_cons_of_ne_nil (mt String.toList_eq_nil_iff.mp hmore)
  have habove : ':' < c := h c (by simp [hprojection, hcs])
  have hrest := identity_append more "" b.key
  rw [String.append_empty] at hrest
  rw [hrest, String.lt_iff_toList_lt, String.toList_append, String.toList_append, hcs] at hlt
  rcases List.cons_lt_cons_iff.mp hlt with hbelow | ⟨rfl, -⟩
  · exact lt_asymm habove hbelow
  · exact lt_irrefl _ habove

end ShardName

end Tidemark
