import Panelist.Golden
import Panelist.VersionAgreement

/-! The two copies of a grade's scores: the map it was submitted with and its
`grade_scores` rows, under the version of the rubric it was graded against. The weighted score
is their mean in exact arithmetic, which the doubles of the service round and may overflow. -/
namespace Panelist
open Relational Transaction Serial

/-! ### The weighted score in doubles -/

section Doubles
open Binary64

/-- `sum(scores[c.key] * c.weight for c in rubric.criteria) / total_weight`. -/
def weightedFloat (criteria : List RubricCriterion) (scores : Dict ℚ) : Value :=
  let total := Value.compensatedSum (criteria.map (fun c => .round c.weight))
  -- `or 1.0`, where `nan` counts as true
  let total := if total.toRat = some 0 then .ofInt 1 (by decide) else total
  (Value.compensatedSum (criteria.map (fun c =>
    .mul (.round ((lookup scores c.key).getD 0)) (.round c.weight)))).div total

/-- Weights and scores are whole numbers, and so are their sums,
below the limit of exact doubles. -/
structure WholeMean (criteria : List RubricCriterion) (scores : Dict ℚ) : Prop where
  whole_weight : ∀ c ∈ criteria, (c.weight.num : ℚ) = c.weight
  whole_score : ∀ c ∈ criteria,
    (((lookup scores c.key).getD 0).num : ℚ) = (lookup scores c.key).getD 0
  score_le : ∀ c ∈ criteria, |((lookup scores c.key).getD 0).num| ≤ 2 ^ 53
  total_le : (criteria.map (fun c => |c.weight.num|)).sum ≤ 2 ^ 53
  products_le : (criteria.map (fun c =>
    |((lookup scores c.key).getD 0).num * c.weight.num|)).sum ≤ 2 ^ 53

/-- Then only the division rounds. -/
theorem weightedFloat_whole {criteria : List RubricCriterion} {scores : Dict ℚ}
    (h : WholeMean criteria scores) :
    (weightedFloat criteria scores).toRat =
      (Value.round (weightedScore criteria scores)).toRat := by
  have hle {f : RubricCriterion → ℤ} (hf : (criteria.map (fun c => |f c|)).sum ≤ 2 ^ 53)
      {c : RubricCriterion} (hc : c ∈ criteria) : |f c| ≤ 2 ^ 53 :=
    (List.single_le_sum (by simp) _ (List.mem_map_of_mem hc)).trans hf
  have hround {q : ℚ} (hq : (q.num : ℚ) = q) (hq' : |q.num| ≤ 2 ^ 53) :
      (Value.round q).toRat = some (q.num : ℚ) := by
    rw [← hq, Rat.num_intCast]
    exact Value.toRat_round hq'
  have hweight : ∀ c ∈ criteria, (Value.round c.weight).toRat = some (c.weight.num : ℚ) :=
    fun c hc => hround (h.whole_weight c hc) (hle (f := fun c => c.weight.num) h.total_le hc)
  -- both sums are exact
  have htotal := @Value.toRat_compensatedSum (criteria.map (fun c => .round c.weight))
    (criteria.map (fun c => c.weight.num))
    (by rw [List.map_map, List.map_map]; exact List.map_congr_left hweight)
    (by rw [List.map_map]; exact h.total_le)
  have hsum := @Value.toRat_compensatedSum (criteria.map (fun c =>
      .mul (.round ((lookup scores c.key).getD 0)) (.round c.weight)))
    (criteria.map (fun c => ((lookup scores c.key).getD 0).num * c.weight.num))
    (by
      rw [List.map_map, List.map_map]
      refine List.map_congr_left (fun c hc => ?_)
      exact Value.toRat_mul (hround (h.whole_score c hc) (h.score_le c hc)) (hweight c hc)
        (hle (f := fun c => ((lookup scores c.key).getD 0).num * c.weight.num) h.products_le hc))
    (by rw [List.map_map]; exact h.products_le)
  have hcast : (((criteria.map (fun c => c.weight.num)).sum : ℤ) : ℚ) =
      (criteria.map RubricCriterion.weight).sum := by
    rw [Int.cast_list_sum, List.map_map]
    exact congrArg List.sum (List.map_congr_left h.whole_weight)
  have hcast' : (((criteria.map (fun c =>
      ((lookup scores c.key).getD 0).num * c.weight.num)).sum : ℤ) : ℚ) =
      (criteria.map (fun c => (lookup scores c.key).getD 0 * c.weight)).sum := by
    rw [Int.cast_list_sum, List.map_map]
    refine congrArg List.sum (List.map_congr_left (fun c hc => ?_))
    rw [Function.comp_apply, Int.cast_mul, h.whole_weight c hc, h.whole_score c hc]
  unfold weightedFloat weightedScore
  dsimp only
  rw [htotal, ← hcast, ← hcast']
  -- a total weight of 0 counts as 1
  by_cases hzero : (criteria.map (fun c => c.weight.num)).sum = 0
  · rw [if_pos (by rw [hzero, Int.cast_zero]), if_pos (by rw [hzero, Int.cast_zero])]
    have hone : (Value.ofInt 1 (by decide)).toRat = some ((1 : ℤ) : ℚ) := rfl
    rw [Value.toRat_div hsum hone (by decide), Int.cast_one]
  · have hne : (((criteria.map (fun c => c.weight.num)).sum : ℤ) : ℚ) ≠ 0 :=
      Int.cast_ne_zero.mpr hzero
    rw [if_neg (fun h => hne (Option.some.inj h)), if_neg hne]
    exact Value.toRat_div hsum htotal hzero

end Doubles

/-- `r` submits `g` in `db`. -/
def Submits (g : Grade) (db : Db) (r : Request) : Prop :=
  ∃ expertId body db', r.op = .submit expertId body ∧
    submit r.env db expertId body = .ok (db', g)

/-- `g` holds what `submit` computes from its score map and the criteria of its rubric. -/
structure Grade.Written (db : Db) (g : Grade) : Prop where
  rubric : ∃ rubric, db.rubrics.get g.rubricId = some rubric
  admitted : admissible (criteriaOf db g.rubricId) g.scoresSnapshot
  weighted : g.weightedScore = Panelist.weightedScore (criteriaOf db g.rubricId) g.scoresSnapshot
  scores : g.scores = gradeScores (criteriaOf db g.rubricId) g.scoresSnapshot

/-- The weight of the criterion a score is for. -/
def GradeScore.weight (db : Db) (s : GradeScore) : ℚ :=
  ((db.rubricCriteria.get s.criterionId).map RubricCriterion.weight).getD 0

/-- The two copies of the scores of `g` agree with each other, with its rubric, with its
weighted score, which doubles round once where all is whole, and with the exported object. -/
structure Grade.Agrees (db : Db) (g : Grade) : Prop where
  rows : g.keyed db = g.scoresSnapshot.rows
  keys : (g.scoresSnapshot.rows.map Prod.fst).Perm
    ((criteriaOf db g.rubricId).map RubricCriterion.key)
  scale : ∀ s ∈ g.scores, ∃ c ∈ criteriaOf db g.rubricId,
    c.id = s.criterionId ∧ c.admits s.score
  mean : g.weightedScore = (g.scores.map (fun s => s.score * s.weight db)).sum /
    (if ((criteriaOf db g.rubricId).map RubricCriterion.weight).sum = 0 then 1
      else ((criteriaOf db g.rubricId).map RubricCriterion.weight).sum)
  rounded : WholeMean (criteriaOf db g.rubricId) g.scoresSnapshot →
    (weightedFloat (criteriaOf db g.rubricId) g.scoresSnapshot).toRat =
      (Binary64.Value.round g.weightedScore).toRat
  exported : ∀ row ∈ deliveredRows db, row.grade = g → ∃ fields, ∃ scores : List (String × ℚ),
    rowJson db row = .obj fields ∧ scores.Perm g.scoresSnapshot.rows ∧
      ("scores", .obj (scores.map (fun s => (s.1, .float s.2)))) ∈ fields

/-- No grade's copies of its scores diverge. -/
def CopiesAgree (db : Db) : Prop := ∀ g ∈ db.grades, g.Agrees db

section Copies
variable {db : Db} {g : Grade}

theorem mem_criteriaOf {k : Uuid} {c : RubricCriterion} :
    c ∈ criteriaOf db k ↔ c ∈ db.rubricCriteria ∧ c.rubricId = k := by
  rw [criteriaOf, List.mem_insertionSort, List.mem_filter, decide_eq_true_eq]
  exact Iff.rfl

/-- An admissible map has exactly the keys of the criteria. -/
theorem admissible_keys {criteria : List RubricCriterion} {scores : Dict ℚ}
    (hkeys : (criteria.map RubricCriterion.key).Nodup) (h : admissible criteria scores) :
    (scores.rows.map Prod.fst).Perm (criteria.map RubricCriterion.key) := by
  have hnodup : (scores.rows.map Prod.fst).Nodup := by
    rw [List.Nodup, List.pairwise_map]
    exact scores.distinct
  rw [List.perm_ext_iff_of_nodup hnodup hkeys]
  obtain ⟨⟨hmissing, hunknown⟩, -⟩ := h
  exact fun k => ⟨sortedDiff_eq_nil.mp hunknown k, sortedDiff_eq_nil.mp hmissing k⟩

/-- Each entry of an admissible map is a score in the scale of the criterion with its key. -/
theorem admissible_entry {criteria : List RubricCriterion} {scores : Dict ℚ}
    (h : admissible criteria scores) {kv : String × ℚ} (hkv : kv ∈ scores.rows) :
    ∃ c ∈ criteria, byKey criteria kv.1 = some c ∧ c.key = kv.1 ∧ c.admits kv.2 := by
  obtain ⟨⟨-, hunknown⟩, hscale⟩ := h
  have hmem := sortedDiff_eq_nil.mp hunknown kv.1 (List.mem_map_of_mem hkv)
  cases hb : byKey criteria kv.1 with
  | none => exact absurd hmem (byKey_eq_none.mp hb)
  | some c =>
    obtain ⟨hc, hk⟩ := byKey_some hb
    exact ⟨c, hc, rfl, hk, outOfScale_eq_none.mp hscale kv hkv c hb⟩

namespace Grade.Written
variable (h : g.Written db)
include h

/-- The criterion of an entry of the score map, as a stored row. -/
theorem entry {kv : String × ℚ} (hkv : kv ∈ g.scoresSnapshot.rows) :
    ∃ c ∈ criteriaOf db g.rubricId, byKey (criteriaOf db g.rubricId) kv.1 = some c ∧
      c.key = kv.1 ∧ c.admits kv.2 ∧ db.rubricCriteria.get c.id = some c := by
  obtain ⟨c, hc, hb, hk, hadm⟩ := admissible_entry h.admitted hkv
  exact ⟨c, hc, hb, hk, hadm, db.rubricCriteria.get_of_mem (mem_criteriaOf.mp hc).1⟩

/-- Joined with the criteria, the rows of a grade are its score map. -/
theorem keyed : g.keyed db = g.scoresSnapshot.rows := by
  rw [Grade.keyed, h.scores, gradeScores, List.filterMap_filterMap]
  have hrow : ∀ kv ∈ g.scoresSnapshot.rows,
      ((byKey (criteriaOf db g.rubricId) kv.1).map (fun c => (⟨c.id, kv.2⟩ : GradeScore))).bind
        (fun s => (s.key db).map (fun k => (k, s.score))) = some kv := by
    intro kv hkv
    obtain ⟨c, -, hb, hk, -, hget⟩ := h.entry hkv
    rw [hb, Option.map_some, Option.bind_some, GradeScore.key, hget, Option.map_some,
      Option.map_some, hk]
  rw [List.filterMap_congr hrow, List.filterMap_some]

theorem scale {s : GradeScore} (hs : s ∈ g.scores) :
    ∃ c ∈ criteriaOf db g.rubricId, c.id = s.criterionId ∧ c.admits s.score := by
  rw [h.scores, gradeScores, List.mem_filterMap] at hs
  obtain ⟨kv, hkv, hs⟩ := hs
  obtain ⟨c, hc, hb, -, hadm, -⟩ := h.entry hkv
  rw [hb, Option.map_some, Option.some.injEq] at hs
  rw [← hs]
  exact ⟨c, hc, rfl, hadm⟩

/-- The sum over the rows of a grade is the sum over the criteria. -/
theorem sum_scores : (g.scores.map (fun s => s.score * s.weight db)).sum =
    ((criteriaOf db g.rubricId).map
      (fun c => (lookup g.scoresSnapshot c.key).getD 0 * c.weight)).sum := by
  have hkeys := criteriaOf_keys db g.rubricId
  -- both sums range over keys, of the map here and of the criteria there
  let term (k : String) : ℚ := (lookup g.scoresSnapshot k).getD 0 *
    ((byKey (criteriaOf db g.rubricId) k).map RubricCriterion.weight).getD 0
  have hrows : (g.scores.map (fun s => s.score * s.weight db)).sum =
      ((g.scoresSnapshot.rows.map Prod.fst).map term).sum := by
    rw [h.scores, gradeScores, sum_map_filterMap, List.map_map]
    refine congrArg List.sum (List.map_congr_left (fun kv hkv => ?_))
    obtain ⟨c, -, hb, -, -, hget⟩ := h.entry hkv
    have hq : lookup g.scoresSnapshot kv.1 = some kv.2 := lookup_eq_some.mpr hkv
    simp only [Function.comp_apply, term, hb, hq, Option.map_some, Option.getD_some,
      GradeScore.weight, hget]
  have hcriteria : ((criteriaOf db g.rubricId).map
      (fun c => (lookup g.scoresSnapshot c.key).getD 0 * c.weight)).sum =
      (((criteriaOf db g.rubricId).map RubricCriterion.key).map term).sum := by
    rw [List.map_map]
    refine congrArg List.sum (List.map_congr_left (fun c hc => ?_))
    simp only [Function.comp_apply, term, byKey_of_mem hkeys hc, Option.map_some,
      Option.getD_some]
  rw [hrows, hcriteria]
  exact ((admissible_keys hkeys h.admitted).map term).sum_eq

/-- The export lists the score map in the order of the criteria. -/
theorem exportedScores_perm : (exportedScores db g).Perm g.scoresSnapshot.rows := by
  have hperm := ((List.perm_insertionSort (fun a b : ℕ × String × ℚ => a.1 ≤ b.1)
    (g.scores.filterMap (fun s => (db.rubricCriteria.get s.criterionId).map
      (fun c => (c.position, c.key, s.score))))).map Prod.snd)
  have hjoin : (g.scores.filterMap (fun s => (db.rubricCriteria.get s.criterionId).map
      (fun c => (c.position, c.key, s.score)))).map Prod.snd = g.keyed db := by
    rw [List.map_filterMap, Grade.keyed]
    refine List.filterMap_congr (fun s _ => ?_)
    rw [GradeScore.key]
    cases db.rubricCriteria.get s.criterionId <;> rfl
  rw [← h.keyed, ← hjoin]
  exact hperm

theorem agrees : g.Agrees db where
  rows := h.keyed
  keys := admissible_keys (criteriaOf_keys db _) h.admitted
  scale := fun _ hs => h.scale hs
  mean := by rw [h.weighted, h.sum_scores, Panelist.weightedScore]
  rounded := fun hwhole => by rw [h.weighted, weightedFloat_whole hwhole]
  exported := by
    rintro row - rfl
    exact ⟨_, _, rfl, h.exportedScores_perm, by simp [rowFields]⟩

end Grade.Written
end Copies

/-! ### Over a run -/

/-- Every stored grade was submitted. -/
theorem submitted_after (rs : List Request) :
    ∀ g ∈ (after rs).grades, Occurs step (Submits g) .empty rs := by
  induction rs using List.reverseRecOn with
  | nil => exact fun g hg => absurd hg (Table.not_mem_empty g)
  | append_singleton rs r ih =>
    intro g hg
    rw [after_concat] at hg
    rw [occurs_concat]
    rcases commit_cases step r (after rs) with ⟨x, hstep⟩ | ⟨_, hsame⟩
    · rcases (step_tasks hstep).newGrade hg with hold | ⟨rfl, ⟨body, hop⟩, -⟩
      · exact Or.inl (ih g hold)
      · rw [step, hop] at hstep
        obtain ⟨g', hsubmit, hg'⟩ := answer_ok hstep
        obtain rfl : g = g' := Response.grade.inj hg'
        exact Or.inr ⟨_, body, _, hop, hsubmit⟩
    · rw [hsame] at hg
      exact Or.inl (ih g hg)

/-- The score map and the rubric a grade was submitted under, still stored. -/
theorem written_after (rs : List Request) : ∀ g ∈ (after rs).grades, g.Written (after rs) := by
  intro g hg
  obtain ⟨earlier, r, later, rfl, expertId, body, db', -, hsubmit⟩ := submitted_after rs g hg
  obtain ⟨-, expert, task, rubric, grades, -, -, -, hrub, -, hadm, rfl, -, -⟩ :=
    submit_ok_iff.mp hsubmit
  have hrub' : (after earlier).rubrics.get rubric.id = some rubric :=
    Table.get_of_mem _ (Table.get_mem hrub)
  -- a stored version is never changed, so its criteria are still the ones of the submission
  have hcriteria := criteriaOf_after earlier (r :: later) hrub'
  obtain ⟨rubric', hget, -⟩ := (retains_after earlier (r :: later)).rubrics _ _ hrub'
  refine ⟨⟨rubric', hget⟩, ?_, ?_, ?_⟩
  · show admissible (criteriaOf _ rubric.id) body.scores
    rw [hcriteria]
    exact hadm
  · show weightedScore (criteriaOf (after earlier) rubric.id) body.scores =
      weightedScore (criteriaOf _ rubric.id) body.scores
    rw [hcriteria]
  · show gradeScores (criteriaOf (after earlier) rubric.id) body.scores =
      gradeScores (criteriaOf _ rubric.id) body.scores
    rw [hcriteria]

/-- After every run the two copies of the scores of each grade agree. -/
theorem copies_agree (rs : List Request) : CopiesAgree (after rs) :=
  fun g hg => (written_after rs g hg).agrees

namespace Scenario

/-- Rubric 100 has two criteria of weight 1e308; grade 700 scores both 5. -/
def heavy : List Request :=
  [call 1 (.createRubric "helpfulness" 1
     [⟨"accuracy", "Accuracy", 10 ^ 308, 1, 5⟩, ⟨"tone", "Tone", 10 ^ 308, 1, 5⟩] "admin"),
   call 3 (.createExpert ⟨"A", ["python"], .junior, none⟩ "admin"),
   call 5 (.createTasks [task] "admin"), call 6 (.claimNext 300),
   call 7 (.submit 300 ⟨500, none, ⟨[("accuracy", 5), ("tone", 5)], by decide⟩, "Solid.", 60⟩)]

end Scenario

open Scenario in
/-- Both sums overflow, so the stored score is `nan` where the mean of the scores is 5. -/
theorem weighted_overflows : ∃ g ∈ (after heavy).grades,
    weightedFloat (criteriaOf (after heavy) g.rubricId) g.scoresSnapshot = .nan ∧
    (g.scores.map (fun s => s.score * s.weight (after heavy))).sum /
      ((criteriaOf (after heavy) g.rubricId).map RubricCriterion.weight).sum = 5 := by
  have hget : ((after heavy).grades.get 700).map (fun g =>
      (decide (weightedFloat (criteriaOf (after heavy) g.rubricId) g.scoresSnapshot = .nan),
        (g.scores.map (fun s => s.score * s.weight (after heavy))).sum /
          ((criteriaOf (after heavy) g.rubricId).map RubricCriterion.weight).sum)) =
      some (true, 5) := by
    decide +kernel
  obtain ⟨g, hg, hrow⟩ := Option.map_eq_some_iff.mp hget
  obtain ⟨hnan, hmean⟩ := Prod.mk.inj hrow
  exact ⟨g, Table.get_mem hg, of_decide_eq_true hnan, hmean⟩

end Panelist
