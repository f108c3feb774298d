import Mathlib.Data.List.Induction
import Tidemark.Policy.Filter

/-!
# When a filter is the conjunction of its conditions

A filter is built from a start, which is every failure or a category, by further conditions: on the
category directly enclosed, on a text within the message, or any predicate. Predicates are
collected. For each of the other two kinds a filter has one place (`Condition.isSole`), so a
condition that follows another of its kind replaces it: what a filter holds are the conditions that
stand (`mem_held_addAll`), and two texts asked for in turn accept a failure with only the second
(`exists_widened`).

Conditions agree if replacement loses nothing: the enclosed categories asked for are all one, and
each text asked for occurs in the one that stands. `conjunction_iff` shows that agreement is exactly
what makes a filter the conjunction of its conditions, whatever predicates stand between them, and
that under it further conditions only narrow the filter and their order does not matter.
-/

namespace Tidemark

namespace Filter

/-- A condition that is added to a filter. -/
inductive Condition where
  /-- The failure directly encloses one of the category. -/
  | inner (c : Category)
  /-- The message contains the text. -/
  | contains (needle : String)
  /-- The predicate holds. -/
  | matching (p : Failure → Bool)

namespace Condition

/-- The condition holds of a failure. -/
def holds : Condition → Failure → Bool
  | inner c, e => e.innerCategory == some c
  | contains needle, e => Text.occursIn needle e.message
  | matching p, e => p e

/-- A filter has one place for all conditions of this kind. -/
def isSole : Condition → Bool
  | inner _ | contains _ => true
  | matching _ => false

/-- The first condition takes the place of the second. -/
inductive Replaces : Condition → Condition → Prop
  | inner {c d : Category} : Replaces (inner c) (inner d)
  | contains {n m : String} : Replaces (contains n) (contains m)

/-- A condition on the enclosed category takes the place of those of its kind. -/
@[simp]
theorem inner_replaces {c : Category} {d : Condition} :
    (inner c).Replaces d ↔ ∃ c', d = inner c' :=
  ⟨fun h => by cases h; exact ⟨_, rfl⟩, by rintro ⟨c', rfl⟩; exact .inner⟩

/-- A condition on the message takes the place of those of its kind. -/
@[simp]
theorem contains_replaces {n : String} {d : Condition} :
    (contains n).Replaces d ↔ ∃ n', d = contains n' :=
  ⟨fun h => by cases h; exact ⟨_, rfl⟩, by rintro ⟨n', rfl⟩; exact .contains⟩

/-- A predicate takes the place of nothing. -/
@[simp]
theorem not_matching_replaces {p : Failure → Bool} {d : Condition} :
    ¬ (matching p).Replaces d := nofun

/-- What takes the place of another condition is of a kind with one place. -/
theorem Replaces.isSole_left {c d : Condition} (h : c.Replaces d) : c.isSole := by
  cases h <;> rfl

end Condition

/-- Adds a condition. -/
def add (f : Filter) : Condition → Filter
  | .inner c => f.andInner c
  | .contains needle => f.andMessageContains needle
  | .matching p => f.andMatching p

/-- Adds conditions in turn. -/
def addAll (f : Filter) (conditions : List Condition) : Filter := conditions.foldl add f

/-- A filter to start from: every failure, or those of a category. -/
def start : Option Category → Filter
  | none => any
  | some c => ofCategory c

/-- The condition is among those added, and none added later takes its place. -/
def Stands (conditions : List Condition) (c : Condition) : Prop :=
  ∃ before after, conditions = before ++ c :: after ∧ ∀ d ∈ after, ¬ d.Replaces c

/-- Replacement loses nothing: one enclosed category is asked for, and each text asked for occurs
in the one that stands. -/
structure Agree (conditions : List Condition) : Prop where
  inner : ∀ c d, .inner c ∈ conditions → .inner d ∈ conditions → c = d
  contains : ∀ n m, .contains n ∈ conditions → Stands conditions (.contains m) →
    Text.occursIn n m

/-! ## The conditions that stand -/

section Stands

variable {conditions : List Condition} {c d : Condition}

/-- Without conditions none stands. -/
theorem not_stands_nil : ¬ Stands [] c := by
  rintro ⟨before, after, h, -⟩
  simp at h

/-- A condition that stands was added. -/
theorem Stands.mem (h : Stands conditions c) : c ∈ conditions := by
  obtain ⟨before, after, rfl, -⟩ := h
  simp

/-- With one more condition, that one stands, and of the others those that it does not replace. -/
theorem stands_concat :
    Stands (conditions ++ [d]) c ↔ c = d ∨ Stands conditions c ∧ ¬ d.Replaces c := by
  constructor
  · rintro ⟨before, after, hsplit, hafter⟩
    rcases List.eq_nil_or_concat after with rfl | ⟨after, x, rfl⟩
    · have hx := (List.append_inj' hsplit rfl).2
      exact .inl (List.singleton_inj.mp hx).symm
    · rw [List.concat_eq_append, ← List.cons_append, ← List.append_assoc] at hsplit
      obtain ⟨hconditions, hx⟩ := List.append_inj' hsplit rfl
      obtain rfl : d = x := by simpa using hx
      exact .inr ⟨⟨before, after, hconditions, fun y hy => hafter y (by simp [hy])⟩,
        hafter d (by simp)⟩
  · rintro (rfl | ⟨⟨before, after, rfl, hafter⟩, hd⟩)
    · exact ⟨conditions, [], rfl, by simp⟩
    · refine ⟨before, after ++ [d], by simp, fun y hy => ?_⟩
      rcases List.mem_append.mp hy with hy | hy
      · exact hafter y hy
      · rwa [List.mem_singleton.mp hy]

/-- A condition that was added stands, or one stands that took its place. -/
theorem exists_stands (h : c ∈ conditions) :
    Stands conditions c ∨ ∃ d, Stands conditions d ∧ d.Replaces c := by
  -- From the end, since what is added last stands and may take the place of what stood before.
  induction conditions using List.reverseRecOn with
  | nil => simp at h
  | append_singleton conditions x ih =>
    simp only [stands_concat]
    by_cases hx : x.Replaces c
    · exact .inr ⟨x, .inl rfl, hx⟩
    · rcases List.mem_append.mp h with h | h
      · rcases ih h with hstands | ⟨d, hstands, hd⟩
        · exact .inl (.inr ⟨hstands, hx⟩)
        · refine .inr ⟨d, .inr ⟨hstands, fun hxd => hx ?_⟩, hd⟩
          cases hd <;> cases hxd <;> constructor
      · exact .inl (.inl (List.mem_singleton.mp h))

/-- Predicates neither take nor give up the place of a condition of another kind. -/
theorem stands_filter_isSole (hc : c.isSole) :
    Stands (conditions.filter Condition.isSole) c ↔ Stands conditions c := by
  induction conditions using List.reverseRecOn with
  | nil => rfl
  | append_singleton conditions x ih =>
    rw [List.filter_append, stands_concat]
    cases hx : x.isSole with
    | true => rw [List.filter_cons_of_pos hx, List.filter_nil, stands_concat, ih]
    | false =>
      have hne : c ≠ x := by
        rintro rfl
        simp [hc] at hx
      have hkept : ¬ x.Replaces c := fun h => by simp [h.isSole_left] at hx
      rw [List.filter_cons_of_neg (by simp [hx]), List.filter_nil, List.append_nil, ih]
      simp [hne, hkept]

/-- Whether conditions agree does not depend on the predicates among them. -/
theorem agree_filter_isSole : Agree (conditions.filter Condition.isSole) ↔ Agree conditions := by
  have hmem : ∀ x : Condition, x.isSole →
      (x ∈ conditions.filter Condition.isSole ↔ x ∈ conditions) := fun x hx => by
    simp [List.mem_filter, hx]
  constructor
  · rintro ⟨hinner, hcontains⟩
    exact ⟨fun c d hc hd => hinner c d ((hmem _ rfl).mpr hc) ((hmem _ rfl).mpr hd),
      fun n m hn hm => hcontains n m ((hmem _ rfl).mpr hn) ((stands_filter_isSole rfl).mpr hm)⟩
  · rintro ⟨hinner, hcontains⟩
    exact ⟨fun c d hc hd => hinner c d ((hmem _ rfl).mp hc) ((hmem _ rfl).mp hd),
      fun n m hn hm => hcontains n m ((hmem _ rfl).mp hn) ((stands_filter_isSole rfl).mp hm)⟩

/-- Where conditions agree, all of them hold as soon as those that stand do. -/
theorem Agree.holds {e : Failure} (h : Agree conditions)
    (hstands : ∀ c, Stands conditions c → c.holds e) (hc : c ∈ conditions) : c.holds e := by
  rcases exists_stands hc with hc | ⟨d, hd, hdc⟩
  · exact hstands c hc
  · have hholds := hstands d hd
    cases hdc with
    | inner => rwa [h.inner _ _ hc hd.mem]
    | contains => exact Text.occursIn_trans (h.contains _ _ hc hd) hholds

end Stands

/-! ## What a filter holds -/

/-- The conditions that a filter holds besides the one on the category. -/
def held (f : Filter) : List Condition :=
  f.innerCategory.toList.map .inner ++ f.needle.toList.map .contains ++ f.predicates.map .matching

/-- A filter holds the condition on the enclosed category that it has in its place. -/
theorem inner_mem_held {f : Filter} {c : Category} :
    .inner c ∈ f.held ↔ f.innerCategory = some c := by
  simp [held]

/-- A filter holds the condition on the message that it has in its place. -/
theorem contains_mem_held {f : Filter} {needle : String} :
    .contains needle ∈ f.held ↔ f.needle = some needle := by
  simp [held]

/-- A filter holds the predicates that it has collected. -/
theorem matching_mem_held {f : Filter} {p : Failure → Bool} :
    .matching p ∈ f.held ↔ p ∈ f.predicates := by
  simp [held]

/-- A filter accepts a failure of its category of which every condition is true that it holds. -/
theorem accepts_iff {f : Filter} {e : Failure} :
    f.accepts e ↔ f.category.all (e.category == ·) ∧ ∀ c ∈ f.held, c.holds e := by
  simp only [accepts, Bool.and_eq_true, Option.all_eq_true, List.all_eq_true]
  constructor
  · rintro ⟨⟨⟨hcategory, hinner⟩, hneedle⟩, hpredicates⟩
    refine ⟨hcategory, fun c hc => ?_⟩
    cases c with
    | inner c => exact hinner c (inner_mem_held.mp hc)
    | contains needle => exact hneedle needle (contains_mem_held.mp hc)
    | matching p => exact hpredicates p (matching_mem_held.mp hc)
  · rintro ⟨hcategory, hheld⟩
    exact ⟨⟨⟨hcategory, fun c hc => hheld _ (inner_mem_held.mpr hc)⟩,
      fun needle hneedle => hheld _ (contains_mem_held.mpr hneedle)⟩,
      fun p hp => hheld _ (matching_mem_held.mpr hp)⟩

/-- A condition that is added is held from then on, and of the others those that it does not
replace are. -/
theorem mem_held_add {f : Filter} {c d : Condition} :
    c ∈ (f.add d).held ↔ c = d ∨ c ∈ f.held ∧ ¬ d.Replaces c := by
  cases d with
  | inner =>
    cases c <;>
      simp [add, andInner, inner_mem_held, contains_mem_held, matching_mem_held, eq_comm]
  | contains =>
    cases c <;>
      simp [add, andMessageContains, inner_mem_held, contains_mem_held, matching_mem_held, eq_comm]
  | matching =>
    cases c <;>
      simp [add, andMatching, inner_mem_held, contains_mem_held, matching_mem_held, or_comm]

/-- The last of some conditions is added after the others. -/
theorem addAll_concat (f : Filter) (conditions : List Condition) (c : Condition) :
    f.addAll (conditions ++ [c]) = (f.addAll conditions).add c := by
  simp [addAll]

/-- Further conditions leave the category of a filter as it is. -/
@[simp]
theorem category_addAll (f : Filter) (conditions : List Condition) :
    (f.addAll conditions).category = f.category := by
  induction conditions generalizing f with
  | nil => rfl
  | cons c cs ih =>
    rw [addAll, List.foldl_cons, ← addAll, ih]
    cases c <;> rfl

/-- A filter to start from holds no conditions. -/
theorem held_start (s : Option Category) : (start s).held = [] := by
  cases s <;> rfl

/-- A filter holds the conditions that stand. -/
theorem mem_held_addAll {s : Option Category} {conditions : List Condition} {c : Condition} :
    c ∈ ((start s).addAll conditions).held ↔ Stands conditions c := by
  induction conditions using List.reverseRecOn with
  | nil => simp [addAll, held_start, not_stands_nil]
  | append_singleton conditions d ih =>
    rw [addAll_concat, mem_held_add, ih, stands_concat]

/-- A filter accepts a failure that its start accepts if the conditions that stand hold. -/
theorem accepts_addAll_iff {s : Option Category} {conditions : List Condition} {e : Failure} :
    ((start s).addAll conditions).accepts e ↔
      (start s).accepts e ∧ ∀ c, Stands conditions c → c.holds e := by
  simp only [accepts_iff, category_addAll, mem_held_addAll, held_start]
  simp

/-- A failure that has just what the filter asks for. -/
def sample (f : Filter) : Failure :=
  ⟨f.category.getD default, f.needle.getD "", f.innerCategory.map (Failure.plain · "")⟩

/-- A filter without predicates can be met. -/
theorem accepts_sample {f : Filter} (hnone : f.predicates = []) : f.accepts f.sample := by
  rw [accepts_iff]
  constructor
  · cases hcategory : f.category with
    | none => rfl
    | some c => simp [sample, hcategory, Failure.category]
  · intro c hc
    cases c with
    | inner c =>
      simp [Condition.holds, sample, inner_mem_held.mp hc, Failure.innerCategory, Failure.inner,
        Failure.plain, Failure.category]
    | contains needle =>
      simp [Condition.holds, sample, contains_mem_held.mp hc, Failure.message]
    | matching p => simp [matching_mem_held, hnone] at hc

/-! ## Conjunctions -/

/-- The filter accepts just the failures that its start accepts and of which every condition added
holds. -/
def Conjoins (s : Option Category) (conditions : List Condition) : Prop :=
  ∀ e, ((start s).addAll conditions).accepts e ↔
    (start s).accepts e ∧ ∀ c ∈ conditions, c.holds e

section Conjunction

variable {s : Option Category} {conditions : List Condition}

/-- Where conditions agree, the filter is their conjunction. -/
theorem Agree.conjoins (h : Agree conditions) : Conjoins s conditions := by
  intro e
  rw [accepts_addAll_iff]
  exact and_congr_right fun _ =>
    ⟨fun hstands _ hc => h.holds hstands hc, fun hall c hc => hall c hc.mem⟩

/-- Without predicates, conditions that are conjoined agree: a failure that has just what the
filter asks for tells them apart. -/
theorem Conjoins.agree (h : Conjoins s conditions) (hsole : ∀ c ∈ conditions, c.isSole) :
    Agree conditions := by
  let f := (start s).addAll conditions
  have hnone : f.predicates = [] := by
    refine List.eq_nil_iff_forall_not_mem.mpr fun p hp => ?_
    have hstands := mem_held_addAll.mp (matching_mem_held.mpr hp)
    exact absurd (hsole _ hstands.mem) (by simp [Condition.isSole])
  have hall := ((h f.sample).mp (accepts_sample hnone)).2
  constructor
  · intro c d hc hd
    have hc : f.sample.innerCategory = some c := by simpa [Condition.holds] using hall _ hc
    have hd : f.sample.innerCategory = some d := by simpa [Condition.holds] using hall _ hd
    exact Option.some.inj (hc.symm.trans hd)
  · intro n m hn hm
    have hneedle : f.needle = some m := contains_mem_held.mp (mem_held_addAll.mpr hm)
    have hmessage : f.sample.message = m := by simp [sample, Failure.message, hneedle]
    simpa [Condition.holds, hmessage] using hall _ hn

/-- Conditions agree exactly if they are conjoined whatever predicates stand among them. -/
theorem agree_iff_conjoins : Agree conditions ↔
    ∀ others : List Condition,
      others.filter Condition.isSole = conditions.filter Condition.isSole → Conjoins s others := by
  constructor
  · intro h others hothers
    have hagree : Agree others := by rwa [← agree_filter_isSole, hothers, agree_filter_isSole]
    exact hagree.conjoins
  · intro h
    have hconjoins : Conjoins s (conditions.filter Condition.isSole) := h _ (by simp)
    exact agree_filter_isSole.mp (hconjoins.agree fun c hc => (List.mem_filter.mp hc).2)

/-- Further conditions narrow a filter if all conditions together agree. -/
theorem Agree.accepts_of_append {more : List Condition} {e : Failure}
    (h : Agree (conditions ++ more))
    (haccepts : ((start s).addAll (conditions ++ more)).accepts e) :
    ((start s).addAll conditions).accepts e := by
  obtain ⟨hstart, hall⟩ := (h.conjoins e).mp haccepts
  exact accepts_addAll_iff.mpr
    ⟨hstart, fun c hc => hall c (List.mem_append_left more hc.mem)⟩

/-- A predicate narrows any filter, by just what it asks for. -/
theorem accepts_addAll_matching {p : Failure → Bool} {e : Failure} :
    ((start s).addAll (conditions ++ [.matching p])).accepts e ↔
      ((start s).addAll conditions).accepts e ∧ p e := by
  simp only [accepts_addAll_iff, stands_concat, Condition.not_matching_replaces,
    not_false_eq_true, and_true, forall_eq_or_imp, Condition.holds]
  tauto

end Conjunction

/-- The order of conditions that agree does not matter. -/
theorem Agree.accepts_eq_of_perm {s : Option Category} {cs ds : List Condition} {e : Failure}
    (hperm : cs.Perm ds) (hcs : Agree cs) (hds : Agree ds) :
    ((start s).addAll cs).accepts e = ((start s).addAll ds).accepts e := by
  rw [Bool.eq_iff_iff, hcs.conjoins, hds.conjoins]
  simp only [hperm.mem_iff]

/-- What a filter accepts, for every start and every series of conditions added to it. It holds of
a failure the conditions that stand. It is the conjunction of all of them, whatever predicates stand
among them, exactly if the conditions agree. Further conditions with which all agree narrow it, a
predicate narrows it always, and orders in which the same conditions agree give the same filter. -/
theorem conjunction_iff (s : Option Category) (conditions : List Condition) :
    (∀ e, ((start s).addAll conditions).accepts e ↔
      (start s).accepts e ∧ ∀ c, Stands conditions c → c.holds e) ∧
    (Agree conditions ↔ ∀ others : List Condition,
      others.filter Condition.isSole = conditions.filter Condition.isSole → Conjoins s others) ∧
    (∀ more, Agree (conditions ++ more) → ∀ e,
      ((start s).addAll (conditions ++ more)).accepts e →
        ((start s).addAll conditions).accepts e) ∧
    (∀ p e, ((start s).addAll (conditions ++ [.matching p])).accepts e ↔
      ((start s).addAll conditions).accepts e ∧ p e) ∧
    (∀ others, conditions.Perm others → Agree conditions → Agree others → ∀ e,
      ((start s).addAll conditions).accepts e = ((start s).addAll others).accepts e) :=
  ⟨fun _ => accepts_addAll_iff, agree_iff_conjoins, fun _ h _ => h.accepts_of_append,
    fun _ _ => accepts_addAll_matching, fun _ hperm hcs hds _ => hcs.accepts_eq_of_perm hperm hds⟩

/-- A text within the one asked for later, with a predicate and an enclosed category asked for
twice: the conditions agree, so the filter is their conjunction. -/
theorem conjoins_of_longer_text :
    Conjoins (some .applyEvent)
      [.contains "fare", .inner .arithmetic, .matching (·.inner.isSome), .contains "fare total",
        .inner .arithmetic] := by
  refine ((conjunction_iff (some .applyEvent)
    [.contains "fare", .inner .arithmetic, .matching (·.inner.isSome), .contains "fare total",
      .inner .arithmetic]).2.1.mp ⟨?_, ?_⟩) _ rfl
  · intro c d hc hd
    simp_all
  · intro n m hn hm
    obtain rfl : m = "fare total" := by
      have hheld := contains_mem_held.mp (mem_held_addAll (s := none) |>.mpr hm)
      simpa [addAll, add, andMessageContains, andInner, andMatching, eq_comm] using hheld
    rcases (by simpa using hn : n = "fare" ∨ n = "fare total") with rfl | rfl <;> decide

/-- Two texts asked for in turn: the filter gives up the first for the second, so it accepts a
failure that it refused before, and in the other order it refuses it. -/
theorem exists_widened : ∃ (a b : String) (e : Failure),
    ¬ (any.andMessageContains a).accepts e ∧
      ((any.andMessageContains a).andMessageContains b).accepts e ∧
      ¬ ((any.andMessageContains b).andMessageContains a).accepts e ∧
      ¬ Conjoins none [.contains a, .contains b] := by
  refine ⟨"a", "b", .plain .timeout "b", by decide, by decide, by decide, fun h => ?_⟩
  have hall := ((h (.plain .timeout "b")).mp (by decide)).2
  exact absurd (hall (.contains "a") (by simp)) (by decide)

end Filter

end Tidemark
