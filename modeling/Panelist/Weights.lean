import Panelist.Mixture
import Panelist.Snapshots

/-! When a weighted score is a mean of the scores it is computed from. The weights of a
rubric may have any sign, and a total weight of 0 counts as 1. -/
namespace Panelist
open Relational Transaction Mixture

/-- `w` lies between the smallest and the largest score of the map. -/
def Bounded (scores : Dict ℚ) (w : ℚ) : Prop :=
  (∃ kv ∈ scores.rows, kv.2 ≤ w) ∧ ∃ kv ∈ scores.rows, w ≤ kv.2

/-- Every score map that `submit` accepts under the criteria is weighted to between its
smallest and its largest score. -/
def MeansBetween (criteria : List RubricCriterion) : Prop :=
  ∀ scores, admissible criteria scores → Bounded scores (weightedScore criteria scores)

/-- The coefficient of a criterion: its weight over the total, which counts as 1 if it is 0. -/
def share (criteria : List RubricCriterion) (c : RubricCriterion) : ℚ :=
  c.weight / (if (criteria.map RubricCriterion.weight).sum = 0 then 1
    else (criteria.map RubricCriterion.weight).sum)

/-- Whatever bound the scores keep, the choice the scales allow that weighs highest, or
lowest, keeps it as well. -/
def SteadyWeights (criteria : List RubricCriterion) : Prop :=
  Steady criteria (share criteria) (fun c => (c.scaleMin : ℚ)) (fun c => (c.scaleMax : ℚ))

/-- No two weights have opposite signs and not all of them are 0. -/
def OneSign (criteria : List RubricCriterion) : Prop :=
  (∃ c ∈ criteria, c.weight ≠ 0) ∧
    ((∀ c ∈ criteria, 0 ≤ c.weight) ∨ ∀ c ∈ criteria, c.weight ≤ 0)

/-- The scales have more than one value in common. -/
def ScalesShare (criteria : List RubricCriterion) : Prop :=
  ∃ a b : ℚ, a < b ∧ ∀ c ∈ criteria, (c.scaleMin : ℚ) ≤ a ∧ b ≤ c.scaleMax

section Shares
variable {criteria : List RubricCriterion} {scores : Dict ℚ}

theorem weightedScore_eq (criteria : List RubricCriterion) (scores : Dict ℚ) :
    weightedScore criteria scores =
      mix criteria (share criteria) (fun c => (lookup scores c.key).getD 0) := by
  unfold weightedScore mix share
  dsimp only
  rw [div_eq_mul_inv, ← List.sum_map_mul_right]
  refine congrArg List.sum (List.map_congr_left (fun c _ => ?_))
  ring

/-- The shares sum to 1, or to 0 when the weights cancel. -/
theorem sum_share (criteria : List RubricCriterion) :
    (criteria.map (share criteria)).sum =
      if (criteria.map RubricCriterion.weight).sum = 0 then 0 else 1 := by
  unfold share
  simp only [div_eq_mul_inv]
  rw [List.sum_map_mul_right]
  split_ifs with h
  · rw [h, zero_mul]
  · exact mul_inv_cancel₀ h

/-- Weights of one sign are the ones whose shares form a mean. -/
theorem oneSign_iff : OneSign criteria ↔
    (criteria.map (share criteria)).sum = 1 ∧ ∀ c ∈ criteria, 0 ≤ share criteria c := by
  have hsum (f : RubricCriterion → ℚ) (hf : ∀ c ∈ criteria, 0 ≤ f c)
      (hne : ∃ c ∈ criteria, f c ≠ 0) : 0 < (criteria.map f).sum := by
    obtain ⟨c, hc, hfc⟩ := hne
    have hlt := List.sum_lt_sum (fun _ => 0) f hf ⟨c, hc, (hf c hc).lt_of_ne' hfc⟩
    rwa [List.map_const', List.sum_replicate, smul_zero] at hlt
  rw [sum_share]
  constructor
  · rintro ⟨⟨c, hc, hw⟩, hsign | hsign⟩
    -- weights of one sign that are not all 0 have a total of that sign
    · have hpos := hsum RubricCriterion.weight hsign ⟨c, hc, hw⟩
      refine ⟨if_neg hpos.ne', fun c' hc' => ?_⟩
      rw [share, if_neg hpos.ne']
      exact div_nonneg (hsign c' hc') hpos.le
    · have hneg := hsum (fun c => -c.weight) (fun c' hc' => neg_nonneg.mpr (hsign c' hc'))
        ⟨c, hc, neg_ne_zero.mpr hw⟩
      have htotal : (criteria.map RubricCriterion.weight).sum < 0 := by
        have hflip := List.sum_neg (criteria.map RubricCriterion.weight)
        rw [List.map_map] at hflip
        rw [← neg_pos, hflip]
        exact hneg
      refine ⟨if_neg htotal.ne, fun c' hc' => ?_⟩
      rw [share, if_neg htotal.ne]
      exact div_nonneg_of_nonpos (hsign c' hc') htotal.le
  · rintro ⟨htotal, hshare⟩
    -- conversely the total is not 0, and each weight has its sign
    have hne : (criteria.map RubricCriterion.weight).sum ≠ 0 := by
      intro h
      rw [if_pos h] at htotal
      exact zero_ne_one htotal
    have hweight : ∀ c ∈ criteria, 0 ≤ c.weight / (criteria.map RubricCriterion.weight).sum := by
      intro c hc
      have hc' := hshare c hc
      rwa [share, if_neg hne] at hc'
    constructor
    · by_contra hzero
      push Not at hzero
      exact hne (List.sum_eq_zero (fun w hw => by
        obtain ⟨c, hc, rfl⟩ := List.mem_map.mp hw
        exact hzero c hc))
    · rcases lt_or_gt_of_ne hne with hneg | hpos
      · refine Or.inr (fun c hc => ?_)
        exact (div_nonneg_iff.mp (hweight c hc)).elim
          (fun h => absurd h.2 (not_le.mpr hneg)) And.left
      · refine Or.inl (fun c hc => ?_)
        exact (div_nonneg_iff.mp (hweight c hc)).elim And.left
          (fun h => absurd h.2 (not_le.mpr hpos))

/-! ### Score maps as choices from the scales -/

/-- The map that scores each criterion by `f`. -/
def scoreMap (criteria : List RubricCriterion) (f : RubricCriterion → ℚ)
    (hkeys : (criteria.map RubricCriterion.key).Nodup) : Dict ℚ where
  rows := criteria.map (fun c => (c.key, f c))
  distinct := by
    rw [List.pairwise_map]
    exact List.pairwise_map.mp hkeys

theorem lookup_scoreMap {f : RubricCriterion → ℚ}
    (hkeys : (criteria.map RubricCriterion.key).Nodup) {c : RubricCriterion} (hc : c ∈ criteria) :
    lookup (scoreMap criteria f hkeys) c.key = some (f c) :=
  lookup_eq_some.mpr (List.mem_map.mpr ⟨c, hc, rfl⟩)

theorem admissible_scoreMap {f : RubricCriterion → ℚ}
    (hkeys : (criteria.map RubricCriterion.key).Nodup) (hf : ∀ c ∈ criteria, c.admits (f c)) :
    admissible criteria (scoreMap criteria f hkeys) := by
  refine (admissible_iff hkeys).mpr ⟨fun c hc => ⟨f c, lookup_scoreMap hkeys hc, hf c hc⟩,
    fun k hk => ?_⟩
  rw [lookup_eq_none]
  intro hmem
  obtain ⟨kv, hkv, rfl⟩ := List.mem_map.mp hmem
  obtain ⟨c, hc, rfl⟩ := List.mem_map.mp hkv
  exact byKey_eq_none.mp hk (List.mem_map_of_mem hc)

/-- The accepted maps all weigh in between exactly when a scale is empty, so that there are
none, or the weights are steady. -/
theorem meansBetween_iff (hne : criteria ≠ [])
    (hkeys : (criteria.map RubricCriterion.key).Nodup) :
    MeansBetween criteria ↔
      (∃ c ∈ criteria, c.scaleMax < c.scaleMin) ∨ SteadyWeights criteria := by
  by_cases hempty : ∃ c ∈ criteria, c.scaleMax < c.scaleMin
  -- an empty scale admits no score map at all
  · refine ⟨fun _ => Or.inl hempty, fun _ scores hadm => ?_⟩
    obtain ⟨c, hc, hlt⟩ := hempty
    obtain ⟨q, -, hlow, hhigh⟩ := ((admissible_iff hkeys).mp hadm).1 c hc
    exact absurd (by exact_mod_cast hlow.trans hhigh) (not_le.mpr hlt)
  · rw [or_iff_right hempty]
    push Not at hempty
    have hr : ∀ c ∈ criteria, (c.scaleMin : ℚ) ≤ c.scaleMax :=
      fun c hc => by exact_mod_cast hempty c hc
    rw [SteadyWeights, ← between_iff hne hr]
    constructor
    · intro h f hf
      obtain ⟨⟨kv, hkv, hlow⟩, kv', hkv', hhigh⟩ := h _ (admissible_scoreMap hkeys hf)
      -- every choice of admissible scores is a score map
      have hmix : weightedScore criteria (scoreMap criteria f hkeys) =
          mix criteria (share criteria) f := by
        rw [weightedScore_eq]
        exact mix_congr (fun c hc => by rw [lookup_scoreMap hkeys hc, Option.getD_some])
      rw [hmix] at hlow hhigh
      obtain ⟨c, hc, rfl⟩ := List.mem_map.mp hkv
      obtain ⟨c', hc', rfl⟩ := List.mem_map.mp hkv'
      exact ⟨⟨c, hc, hlow⟩, c', hc', hhigh⟩
    · intro h scores hadm
      have hall := ((admissible_iff hkeys).mp hadm).1
      -- and every score map is such a choice
      have hentry : ∀ c ∈ criteria, (c.key, (lookup scores c.key).getD 0) ∈ scores.rows := by
        intro c hc
        obtain ⟨q, hq, -⟩ := hall c hc
        rw [hq, Option.getD_some]
        exact lookup_eq_some.mp hq
      obtain ⟨⟨c, hc, hlow⟩, c', hc', hhigh⟩ :=
        h (fun c => (lookup scores c.key).getD 0) (fun c hc => by
          obtain ⟨q, hq, hadm⟩ := hall c hc
          rw [hq, Option.getD_some]
          exact hadm)
      rw [weightedScore_eq]
      exact ⟨⟨_, hentry c hc, hlow⟩, _, hentry c' hc', hhigh⟩

theorem OneSign.steady (h : OneSign criteria) : SteadyWeights criteria :=
  .of_mean (oneSign_iff.mp h).1 (oneSign_iff.mp h).2

/-- Over scales with values in common only weights of one sign are steady. -/
theorem steadyWeights_iff (hshare : ScalesShare criteria) :
    SteadyWeights criteria ↔ OneSign criteria := by
  obtain ⟨a, b, hab, hscales⟩ := hshare
  have hsum := sum_share criteria
  rw [oneSign_iff, SteadyWeights]
  refine steady_iff_mean ?_ hab hscales
  split_ifs at hsum
  · exact Or.inr hsum
  · exact Or.inl hsum

end Shares

/-! ### Stored rubrics -/

theorem createRubric_valid {env : Env} {db db' : Db} {name : String} {version : ℤ}
    {criteria : List CriterionIn} {actor : String} {rubric : Rubric}
    (h : createRubric env db name version criteria actor = .ok (db', rubric)) :
    validCriteria criteria := by
  simp only [createRubric, bind_ok_iff, require_ok_iff, exists_const] at h
  exact h.1

theorem publish_valid {env : Env} {db db' : Db} {previousId : Uuid} {criteria : List CriterionIn}
    {actor : String} {answer : Rubric × ℕ × ℕ}
    (h : publish env db previousId criteria actor = .ok (db', answer)) :
    validCriteria criteria := by
  simp only [publish, bind_ok_iff, require_ok_iff, exists_const] at h
  exact h.1

/-- A new version has a criterion. -/
theorem criterionRows_ne_nil (env : Env) (rubricId : Uuid) {criteria : List CriterionIn}
    (h : validCriteria criteria) : criterionRows env rubricId criteria ≠ [] := by
  intro hnil
  rw [criterionRows, List.map_eq_nil_iff, List.zipIdx_eq_nil_iff] at hnil
  exact h.1 hnil

/-- A stored rubric has a criterion after a request if every one had before. -/
theorem step_criteria {r : Request} {db db' : Db} {x : Response}
    (h : ∀ v ∈ db.rubrics, ∃ c ∈ db.rubricCriteria, c.rubricId = v.id)
    (hstep : step r db = .ok (db', x)) :
    ∀ v ∈ db'.work.rubrics, ∃ c ∈ db'.work.criteria, c.rubricId = v.id := by
  have hgrow {rows : Table RubricCriterion} {new : List RubricCriterion}
      (hc : db.rubricCriteria.insertAll new = some rows) {v : Rubric} (hv : v ∈ db.rubrics) :
      ∃ c ∈ rows, c.rubricId = v.id := by
    obtain ⟨c, hmem, hid⟩ := h v hv
    exact ⟨c, (Table.mem_insertAll hc).mpr (Or.inl hmem), hid⟩
  have hnew {rubric : Rubric} {criteria : List CriterionIn} {rows : Table RubricCriterion}
      (hvalid : validCriteria criteria)
      (hc : db.rubricCriteria.insertAll (criterionRows r.env rubric.id criteria) = some rows) :
      ∃ c ∈ rows, c.rubricId = rubric.id := by
    obtain ⟨c, hmem⟩ := List.exists_mem_of_ne_nil _
      (criterionRows_ne_nil r.env rubric.id hvalid)
    exact ⟨c, (Table.mem_insertAll hc).mpr (Or.inr hmem), criterionRows_rubricId hmem⟩
  have htask := step_tasks hstep
  generalize db'.work = w at htask
  cases htask with
  | created hop _ hr hc =>
    rw [step, hop] at hstep
    obtain ⟨rubric, hcreate, -⟩ := answer_ok hstep
    intro v hv
    rcases (Table.mem_insert hr).mp hv with hold | rfl
    · exact hgrow hc hold
    · exact hnew (createRubric_valid hcreate) hc
  | @published previous rubric rubrics =>
    rename_i hop _ _ _ hr hc
    rw [step, hop] at hstep
    obtain ⟨answer, hpublish, -⟩ := answer_ok hstep
    intro v hv
    -- marking the previous version keeps its id
    obtain ⟨v₀, hv₀, hsame⟩ :=
      (Table.mem_update (f := Rubric.superseded r.env.now rubric.id) (fun _ => rfl)).mp hv
    have hid : v.id = v₀.id := by
      rw [← hsame]
      split_ifs <;> rfl
    rw [hid]
    rcases (Table.mem_insert hr).mp hv₀ with hold | rfl
    · exact hgrow hc hold
    · exact hnew (publish_valid hpublish) hc
  | _ => exact h

/-- Every stored rubric has a criterion. -/
theorem criteria_ne_nil (rs : List Request) {v : Rubric} (hv : v ∈ (after rs).rubrics) :
    criteriaOf (after rs) v.id ≠ [] := by
  have hempty : ∀ v ∈ Db.empty.rubrics, ∃ c ∈ Db.empty.rubricCriteria, c.rubricId = v.id :=
    fun v hv => absurd hv (Table.not_mem_empty v)
  have hrows := run_invariant step
    (P := fun db => ∀ v ∈ db.rubrics, ∃ c ∈ db.rubricCriteria, c.rubricId = v.id)
    (fun _ _ _ _ h hstep => step_criteria h hstep) hempty rs
  intro hnil
  obtain ⟨c, hc, hid⟩ := hrows v hv
  have hmem : c ∈ criteriaOf (after rs) v.id := mem_criteriaOf.mpr ⟨hc, hid⟩
  rw [hnil] at hmem
  exact absurd hmem List.not_mem_nil

/-- Under a stored rubric the accepted score maps all weigh in between, as the stored
grades then do, exactly when a scale is empty or the weights are steady; over scales with
values in common that is when no two weights have opposite signs and not all are 0. -/
theorem weighted_between_iff (rs : List Request) {rubric : Rubric}
    (hr : rubric ∈ (after rs).rubrics) :
    (MeansBetween (criteriaOf (after rs) rubric.id) ↔
      (∃ c ∈ criteriaOf (after rs) rubric.id, c.scaleMax < c.scaleMin) ∨
        SteadyWeights (criteriaOf (after rs) rubric.id)) ∧
    (OneSign (criteriaOf (after rs) rubric.id) →
      MeansBetween (criteriaOf (after rs) rubric.id)) ∧
    (ScalesShare (criteriaOf (after rs) rubric.id) →
      (MeansBetween (criteriaOf (after rs) rubric.id) ↔
        OneSign (criteriaOf (after rs) rubric.id))) ∧
    (MeansBetween (criteriaOf (after rs) rubric.id) →
      ∀ g ∈ (after rs).grades, g.rubricId = rubric.id →
        Bounded g.scoresSnapshot g.weightedScore) := by
  have hiff := meansBetween_iff (criteria_ne_nil rs hr) (criteriaOf_keys (after rs) rubric.id)
  refine ⟨hiff, fun h => hiff.mpr (Or.inr h.steady), fun hshare => ?_, fun hall g hg hid => ?_⟩
  · rw [hiff, or_iff_right, steadyWeights_iff hshare]
    -- a scale that shares values with the others is not empty
    rintro ⟨c, hc, hlt⟩
    obtain ⟨a, b, hab, hscales⟩ := hshare
    have hle : (c.scaleMin : ℚ) ≤ c.scaleMax :=
      (hscales c hc).1.trans (hab.le.trans (hscales c hc).2)
    exact absurd (by exact_mod_cast hle) (not_le.mpr hlt)
  · have hwritten := written_after rs g hg
    rw [hwritten.weighted, hid]
    exact hall _ (hid ▸ hwritten.admitted)

namespace Scenario

/-- Rubric 100 weighs accuracy 2 and tone −1; grade 700 scores them 5 and 1. -/
def opposed : List Request :=
  [call 1 (.createRubric "helpfulness" 1
     [⟨"accuracy", "Accuracy", 2, 1, 5⟩, ⟨"tone", "Tone", -1, 1, 5⟩] "admin"),
   call 3 (.createExpert ⟨"A", ["python"], .junior, none⟩ "admin"),
   call 5 (.createTasks [task] "admin"), call 6 (.claimNext 300),
   call 7 (.submit 300 ⟨500, none, ⟨[("accuracy", 5), ("tone", 1)], by decide⟩, "Solid.", 60⟩)]

end Scenario

open Scenario in
/-- A stored grade weighs 9 with scores 5 and 1. -/
theorem weighted_above_scores :
    ∃ g ∈ (after opposed).grades, ¬ Bounded g.scoresSnapshot g.weightedScore := by
  have hget : ((after opposed).grades.get 700).map (fun g =>
      (g.weightedScore, g.scoresSnapshot.rows)) = some (9, [("accuracy", 5), ("tone", 1)]) := by
    decide +kernel
  obtain ⟨g, hg, hrow⟩ := Option.map_eq_some_iff.mp hget
  obtain ⟨hw, hs⟩ := Prod.mk.inj hrow
  refine ⟨g, Table.get_mem hg, ?_⟩
  rintro ⟨-, kv, hkv, hle⟩
  rw [hs] at hkv
  rw [hw] at hle
  revert kv
  decide

open Scenario in
/-- Weights 2 and −1 on the same scale: the condition fails, and with it the property. -/
theorem weighted_between_opposed :
    MeansBetween (criteriaOf (after opposed) 100) ↔
      (∃ c ∈ criteriaOf (after opposed) 100, c.scaleMax < c.scaleMin) ∨
        SteadyWeights (criteriaOf (after opposed) 100) := by
  have hget : ((after opposed).rubrics.get 100).isSome = true := by
    decide +kernel
  obtain ⟨rubric, hr⟩ := Option.isSome_iff_exists.mp hget
  have hid : rubric.id = 100 := Table.get_pk hr
  rw [← hid]
  exact (weighted_between_iff opposed (Table.get_mem hr)).1

end Panelist
