import Panelist.Grading

/-! Which score maps a rubric admits, and when one of them comes within a tolerance
of the expected scores of a golden task. -/
namespace Panelist
open Relational

theorem sortedDiff_eq_nil {xs ys : List String} : sortedDiff xs ys = [] ↔ ∀ x ∈ xs, x ∈ ys := by
  have hsort (l : List String) (R : String → String → Prop) [DecidableRel R] :
      l.insertionSort R = [] ↔ l = [] := by
    rw [← List.length_eq_zero_iff, List.length_insertionSort, List.length_eq_zero_iff]
  rw [sortedDiff, hsort, List.dedup_eq_nil, List.filter_eq_nil_iff]
  simp

theorem lookup_eq_some {d : Dict ℚ} {k : String} {v : ℚ} :
    lookup d k = some v ↔ (k, v) ∈ d.rows := by
  rw [lookup, Option.map_eq_some_iff]
  constructor
  · rintro ⟨⟨k', v'⟩, hget, rfl⟩
    obtain ⟨hmem, hk⟩ := d.get_eq_some.mp hget
    change k' = k at hk
    rw [← hk]
    exact hmem
  · intro hmem
    exact ⟨(k, v), d.get_eq_some.mpr ⟨hmem, rfl⟩, rfl⟩

theorem lookup_eq_none {d : Dict ℚ} {k : String} :
    lookup d k = none ↔ k ∉ d.rows.map Prod.fst := by
  rw [lookup, Option.map_eq_none_iff, Table.get_eq_none, List.mem_map]
  constructor
  · rintro h ⟨kv, hmem, hk⟩
    exact h kv hmem hk
  · intro h kv hmem hk
    exact h ⟨kv, hmem, hk⟩

section Criteria
variable {criteria : List RubricCriterion} {scores expected : Dict ℚ} {τ : ℚ}

theorem byKey_some {k : String} {c : RubricCriterion} (h : byKey criteria k = some c) :
    c ∈ criteria ∧ c.key = k :=
  ⟨List.mem_reverse.mp (List.mem_of_find?_eq_some h), by simpa using List.find?_some h⟩

theorem byKey_eq_none {k : String} :
    byKey criteria k = none ↔ k ∉ criteria.map RubricCriterion.key := by
  simp [byKey]

theorem byKey_of_mem (hkeys : (criteria.map RubricCriterion.key).Nodup) {c : RubricCriterion}
    (hc : c ∈ criteria) : byKey criteria c.key = some c := by
  cases hb : byKey criteria c.key with
  | none => exact absurd (List.mem_map_of_mem hc) (byKey_eq_none.mp hb)
  | some c' =>
    obtain ⟨hc', hk⟩ := byKey_some hb
    rw [List.inj_on_of_nodup_map hkeys hc' hc hk]

/-- No two criteria of a rubric share a key. -/
theorem criteriaOf_keys (db : Db) (rubricId : Uuid) :
    ((criteriaOf db rubricId).map RubricCriterion.key).Nodup := by
  have hperm : (criteriaOf db rubricId).Perm
      (db.rubricCriteria.rows.filter (fun c => c.rubricId = rubricId)) :=
    List.perm_insertionSort _ _
  rw [(hperm.map _).nodup_iff, List.Nodup, List.pairwise_map]
  refine (List.Pairwise.filter _ db.rubricCriteria.distinct).imp_of_mem
    (fun {a b} ha hb hn hk => hn (Or.inr ?_))
  have ha' : a.rubricId = rubricId := by simpa using (List.mem_filter.mp ha).2
  have hb' : b.rubricId = rubricId := by simpa using (List.mem_filter.mp hb).2
  exact Prod.ext (ha'.trans hb'.symm) hk

theorem outOfScale_eq_none : outOfScale criteria scores = none ↔
    ∀ kv ∈ scores.rows, ∀ c, byKey criteria kv.1 = some c → c.admits kv.2 := by
  rw [outOfScale, List.findSome?_eq_none_iff]
  refine forall₂_congr (fun kv _ => ?_)
  cases hb : byKey criteria kv.1 with
  | none => simp
  | some c => simp

/-- An admissible map gives each criterion one score in its scale and has no other key. -/
theorem admissible_iff (hkeys : (criteria.map RubricCriterion.key).Nodup) :
    admissible criteria scores ↔
      (∀ c ∈ criteria, ∃ q, lookup scores c.key = some q ∧ c.admits q) ∧
        ∀ k, byKey criteria k = none → lookup scores k = none := by
  simp only [admissible, sortedDiff_eq_nil, outOfScale_eq_none]
  constructor
  -- keys are compared both ways, and each score with the criterion of its key
  · rintro ⟨⟨hmissing, hunknown⟩, hscale⟩
    refine ⟨fun c hc => ?_, fun k hk => lookup_eq_none.mpr (fun hmem => ?_)⟩
    · obtain ⟨⟨k, q⟩, hmem, hk⟩ := List.mem_map.mp (hmissing c.key (List.mem_map_of_mem hc))
      obtain rfl : k = c.key := hk
      exact ⟨q, lookup_eq_some.mpr hmem, hscale _ hmem c (byKey_of_mem hkeys hc)⟩
    · exact byKey_eq_none.mp hk (hunknown k hmem)
  · rintro ⟨hall, hnone⟩
    refine ⟨⟨fun k hk => ?_, fun k hk => ?_⟩, fun kv hmem c hb => ?_⟩
    · obtain ⟨c, hc, rfl⟩ := List.mem_map.mp hk
      obtain ⟨q, hq, _⟩ := hall c hc
      exact List.mem_map.mpr ⟨_, lookup_eq_some.mp hq, rfl⟩
    · by_contra hn
      exact lookup_eq_none.mp (hnone k (byKey_eq_none.mpr hn)) hk
    · obtain ⟨hc, hk⟩ := byKey_some hb
      obtain ⟨q, hq, hadm⟩ := hall c hc
      have hkv : lookup scores kv.1 = some kv.2 := lookup_eq_some.mpr hmem
      rw [hk, hkv] at hq
      rwa [← Option.some.inj hq] at hadm

/-- The expected scores come within `τ` of what the criteria admit: every scale has a
value, an expected key that is a criterion lies within `τ` of its scale, and one that
is not, which a grade scores 0, within `τ` of 0. -/
def Fits (τ : ℚ) (criteria : List RubricCriterion) (expected : Dict ℚ) : Prop :=
  (∀ c ∈ criteria, c.scaleMin ≤ c.scaleMax) ∧
    ∀ kv ∈ expected.rows,
      match byKey criteria kv.1 with
      | some c => c.scaleMin - τ ≤ kv.2 ∧ kv.2 ≤ c.scaleMax + τ
      | none => |kv.2| ≤ τ

theorem Fits.mono {τ' : ℚ} (h : Fits τ criteria expected) (hle : τ ≤ τ') :
    Fits τ' criteria expected := by
  refine ⟨h.1, fun kv hkv => ?_⟩
  have hfit := h.2 kv hkv
  revert hfit
  cases byKey criteria kv.1 with
  | none => exact fun hfit => le_trans hfit hle
  | some c => exact fun hfit => ⟨by linarith [hfit.1], by linarith [hfit.2]⟩

theorem foldl_max_le {l : List ℚ} {a b : ℚ} :
    l.foldl max a ≤ b ↔ a ≤ b ∧ ∀ x ∈ l, x ≤ b := by
  induction l generalizing a with
  | nil => simp
  | cons x l ih => simp [ih, and_assoc]

theorem deviations_le : (deviations expected scores).foldl max 0 ≤ τ ↔
    0 ≤ τ ∧ ∀ kv ∈ expected.rows, |(lookup scores kv.1).getD 0 - kv.2| ≤ τ := by
  rw [foldl_max_le, deviations]
  simp only [List.forall_mem_map]

/-- The value of the scale closest to `v`. -/
def RubricCriterion.closest (c : RubricCriterion) (v : ℚ) : ℚ := max c.scaleMin (min v c.scaleMax)

theorem RubricCriterion.closest_admits {c : RubricCriterion} (hc : c.scaleMin ≤ c.scaleMax)
    (v : ℚ) : c.admits (c.closest v) :=
  ⟨le_max_left _ _, max_le (by exact_mod_cast hc) (min_le_right _ _)⟩

theorem RubricCriterion.closest_near {c : RubricCriterion} {v : ℚ} (hτ : 0 ≤ τ)
    (hlow : c.scaleMin - τ ≤ v) (hhigh : v ≤ c.scaleMax + τ) (hc : c.scaleMin ≤ c.scaleMax) :
    |c.closest v - v| ≤ τ := by
  have hc' : (c.scaleMin : ℚ) ≤ c.scaleMax := by exact_mod_cast hc
  unfold closest
  rw [abs_le]
  rcases le_total v c.scaleMax with hv | hv
  · rw [min_eq_left hv]
    rcases le_total (c.scaleMin : ℚ) v with hm | hm
    · rw [max_eq_right hm]
      constructor <;> linarith
    · rw [max_eq_left hm]
      constructor <;> linarith
  · rw [min_eq_right hv, max_eq_right hc']
    constructor <;> linarith

/-- For each criterion the value of its scale closest to the expected score. -/
def closestScores (criteria : List RubricCriterion) (expected : Dict ℚ)
    (hkeys : (criteria.map RubricCriterion.key).Nodup) : Dict ℚ where
  rows := criteria.map (fun c => (c.key, c.closest ((lookup expected c.key).getD 0)))
  distinct := by
    rw [List.pairwise_map]
    exact List.pairwise_map.mp hkeys

theorem lookup_closestScores (hkeys : (criteria.map RubricCriterion.key).Nodup)
    {c : RubricCriterion} (hc : c ∈ criteria) :
    lookup (closestScores criteria expected hkeys) c.key =
      some (c.closest ((lookup expected c.key).getD 0)) :=
  lookup_eq_some.mpr (List.mem_map.mpr ⟨c, hc, rfl⟩)

theorem lookup_closestScores_of_none (hkeys : (criteria.map RubricCriterion.key).Nodup)
    {k : String} (hk : byKey criteria k = none) :
    lookup (closestScores criteria expected hkeys) k = none := by
  rw [lookup_eq_none]
  intro hmem
  obtain ⟨kv, hkv, rfl⟩ := List.mem_map.mp hmem
  obtain ⟨c, hc, rfl⟩ := List.mem_map.mp hkv
  exact byKey_eq_none.mp hk (List.mem_map_of_mem hc)

/-- Some admissible map passes the check exactly when the expected scores fit. -/
theorem exists_passing_iff (hkeys : (criteria.map RubricCriterion.key).Nodup) (hτ : 0 ≤ τ) :
    (∃ scores, admissible criteria scores ∧ (deviations expected scores).foldl max 0 ≤ τ) ↔
      Fits τ criteria expected := by
  simp only [admissible_iff hkeys, deviations_le]
  constructor
  · rintro ⟨scores, ⟨hall, hnone⟩, _, hdev⟩
    refine ⟨fun c hc => ?_, fun kv hkv => ?_⟩
    · obtain ⟨q, _, hlow, hhigh⟩ := hall c hc
      exact_mod_cast hlow.trans hhigh
    · have hkv' := hdev kv hkv
      -- an expected score without a criterion is compared with 0
      cases hb : byKey criteria kv.1 with
      | none =>
        rw [hnone _ hb, Option.getD_none, zero_sub, abs_neg] at hkv'
        exact hkv'
      | some c =>
        obtain ⟨hc, hk⟩ := byKey_some hb
        obtain ⟨q, hq, hlow, hhigh⟩ := hall c hc
        rw [← hk, hq, Option.getD_some, abs_le] at hkv'
        exact ⟨by linarith [hkv'.2], by linarith [hkv'.1]⟩
  · rintro ⟨hscale, hfit⟩
    -- the map that is as close as the scales allow
    refine ⟨closestScores criteria expected hkeys, ⟨fun c hc => ?_, fun k hk => ?_⟩, hτ,
      fun kv hkv => ?_⟩
    · exact ⟨_, lookup_closestScores hkeys hc, c.closest_admits (hscale c hc) _⟩
    · exact lookup_closestScores_of_none hkeys hk
    · have hkv' := hfit kv hkv
      cases hb : byKey criteria kv.1 with
      | none =>
        rw [hb] at hkv'
        rw [lookup_closestScores_of_none hkeys hb, Option.getD_none, zero_sub, abs_neg]
        exact hkv'
      | some c =>
        rw [hb] at hkv'
        obtain ⟨hc, hk⟩ := byKey_some hb
        have hexp : lookup expected c.key = some kv.2 := by
          rw [hk]
          exact lookup_eq_some.mpr hkv
        rw [← hk, lookup_closestScores hkeys hc, hexp]
        exact RubricCriterion.closest_near hτ hkv'.1 hkv'.2 (hscale c hc)

end Criteria

end Panelist
