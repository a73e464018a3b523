import Panelist.Snapshots
import Panelist.Analytics
import Panelist.Grouping

/-! `analytics.expert_reliability`: what the reports of all experts say together. -/
namespace Panelist
open Relational

structure Reliability where
  expertId : Uuid
  gradesTotal : ℕ
  gradesApproved : ℕ
  gradesRejected : ℕ
  approvalRate : Option ℚ
  attentionPassRate : Option ℚ
  meanAbsDeviationFromConsensus : Option ℚ

section Query
variable (db : Db) (expertId : Uuid)

def expertGrades : List Grade := db.grades.rows.filter (fun g => g.expertId = expertId)

/-- The verdicts on the grades of one expert, which the source counts by decision. -/
def expertReviews : List Review :=
  db.reviews.rows.filter (fun v => gradeExpert db v.gradeId = some expertId)

def expertChecks : List AttentionResult :=
  db.attentionResults.rows.filter (fun a => a.expertId = expertId)

/-- The scores of the other experts for one task and criterion: a group of `consensus`. -/
def otherScores (taskId criterionId : Uuid) : List ℚ :=
  (db.grades.rows.filter (fun g => g.taskId = taskId ∧ g.expertId ≠ expertId)).flatMap
    (fun g => (g.scores.filter (fun s => s.criterionId = criterionId)).map GradeScore.score)

/-- `mine` joined with `consensus`: one distance for each score that others gave as well. -/
def consensusDeviations : List ℚ :=
  (expertGrades db expertId).flatMap (fun g => g.scores.filterMap (fun s =>
    -- the inner join drops a score that no other expert has a counterpart of
    let others := otherScores db expertId g.taskId s.criterionId
    (ratio others.sum others.length).map (fun average => |s.score - average|)))

/-- `expert_reliability`. -/
def expertReliability : Reliability :=
  let approved := ((expertReviews db expertId).filter (fun v => v.decision = .approve)).length
  let rejected := ((expertReviews db expertId).filter (fun v => v.decision = .reject)).length
  let checks := expertChecks db expertId
  let deviations := consensusDeviations db expertId
  { expertId := expertId
    gradesTotal := (expertGrades db expertId).length
    gradesApproved := approved
    gradesRejected := rejected
    approvalRate := ratio approved (approved + rejected)
    attentionPassRate := ratio (checks.filter (fun a => a.passed)).length checks.length
    meanAbsDeviationFromConsensus := ratio deviations.sum deviations.length }

/-- The grades of one expert that nobody has decided. -/
def undecidedGrades : List Grade :=
  (expertGrades db expertId).filter (fun g => decision db g.id = none)

end Query

/-! ### Averages -/

theorem ratio_between {xs : List ℚ} {lo hi q : ℚ} (hlo : ∀ x ∈ xs, lo ≤ x) (hhi : ∀ x ∈ xs, x ≤ hi)
    (hq : ratio xs.sum xs.length = some q) : lo ≤ q ∧ q ≤ hi := by
  rw [ratio] at hq
  split_ifs at hq with hempty
  have hpos : (0 : ℚ) < xs.length := by
    have : 0 < xs.length := Nat.pos_of_ne_zero hempty
    exact_mod_cast this
  have hlow := List.card_nsmul_le_sum xs lo hlo
  have hhigh := List.sum_le_card_nsmul xs hi hhi
  rw [nsmul_eq_mul] at hlow hhigh
  rw [← Option.some.inj hq]
  constructor
  · rw [le_div_iff₀ hpos, mul_comm]
    exact hlow
  · rw [div_le_iff₀ hpos, mul_comm hi]
    exact hhigh

theorem ratio_share {m n : ℕ} {q : ℚ} (hle : m ≤ n) (hq : ratio m n = some q) : 0 ≤ q ∧ q ≤ 1 := by
  rw [ratio] at hq
  split_ifs at hq with hempty
  have hpos : (0 : ℚ) < n := by exact_mod_cast Nat.pos_of_ne_zero hempty
  rw [← Option.some.inj hq]
  constructor
  · exact div_nonneg (Nat.cast_nonneg m) hpos.le
  · rw [div_le_one hpos]
    exact_mod_cast hle

/-! ### Counts -/

section Counts
variable {α κ : Type} [DecidableEq κ]

/-- Rows with a key are counted in exactly one group. -/
theorem sum_counts (key : α → Option κ) {keys : List κ} (hn : keys.Nodup) {rows : List α}
    (h : ∀ r ∈ rows, ∃ k ∈ keys, key r = some k) :
    (keys.map (fun k => (rows.filter (fun r => key r = some k)).length)).sum = rows.length := by
  have hsum := sum_groupSum key (fun _ => 1) hn (fun r (hr : r ∈ rows) k hk => by
    obtain ⟨k', hk', he⟩ := h r hr
    obtain rfl := Option.some.inj (hk.symm.trans he)
    exact hk')
  have hall : rows.filter (fun r => (key r).isSome) = rows := by
    rw [List.filter_eq_self]
    intro r hr
    obtain ⟨k, -, he⟩ := h r hr
    rw [he]
    rfl
  -- a count is a sum of ones
  have hgroup : groupSum key (fun _ => 1) rows =
      fun k => ((rows.filter (fun r => key r = some k)).length : ℤ) := by
    funext k
    simp [groupSum]
  rw [hall, hgroup] at hsum
  have hone : (rows.map (fun _ => (1 : ℤ))).sum = rows.length := by simp
  rw [hone] at hsum
  zify
  rw [← hsum, List.map_map]
  rfl

end Counts

section Verdicts
variable {db : Db} {e : Uuid}

/-- The verdicts of one kind are the grades decided that way. -/
theorem length_verdicts (db : Db) (e : Uuid) (d : ReviewDecision) :
    ((expertReviews db e).filter (fun v => v.decision = d)).length =
      ((expertGrades db e).filter (fun g => decision db g.id = some d)).length := by
  have hreviews : (((expertReviews db e).filter (fun v => v.decision = d)).map
      Review.gradeId).Nodup := by
    rw [expertReviews, List.filter_filter]
    exact db.reviews.nodup_pk_filter _
  have hgrades : (((expertGrades db e).filter (fun g => decision db g.id = some d)).map
      Grade.id).Nodup := by
    rw [expertGrades, List.filter_filter]
    exact db.grades.nodup_pk_filter _
  -- a review and the grade it decides share their key, so both sides list the same ids
  have hsame : ∀ k, k ∈ ((expertReviews db e).filter (fun v => v.decision = d)).map
      Review.gradeId ↔
        k ∈ ((expertGrades db e).filter (fun g => decision db g.id = some d)).map Grade.id := by
    intro k
    simp only [List.mem_map, List.mem_filter, expertReviews, expertGrades, decide_eq_true_eq]
    constructor
    · rintro ⟨v, ⟨⟨hv, hauthor⟩, hd⟩, rfl⟩
      obtain ⟨g, hg, hge⟩ := Option.map_eq_some_iff.mp hauthor
      have hid : g.id = v.gradeId := Table.get_pk hg
      refine ⟨g, ⟨⟨Table.get_mem hg, hge⟩, ?_⟩, hid⟩
      rw [decision, hid, show db.reviews.get v.gradeId = some v from db.reviews.get_of_mem hv,
        Option.map_some, hd]
    · rintro ⟨g, ⟨⟨hg, hge⟩, hd⟩, rfl⟩
      obtain ⟨v, hv, hvd⟩ := Option.map_eq_some_iff.mp hd
      have hid : v.gradeId = g.id := Table.get_pk hv
      refine ⟨v, ⟨⟨Table.get_mem hv, ?_⟩, hvd⟩, hid⟩
      rw [gradeExpert, hid, show db.grades.get g.id = some g from db.grades.get_of_mem hg,
        Option.map_some, hge]
  have hperm := (List.perm_ext_iff_of_nodup hreviews hgrades).mpr hsame
  rw [← List.length_map (f := Review.gradeId), hperm.length_eq, List.length_map]

/-- Every grade of an expert is approved, rejected or undecided. -/
theorem length_expertGrades (db : Db) (e : Uuid) :
    (expertReliability db e).gradesApproved + (expertReliability db e).gradesRejected +
      (undecidedGrades db e).length = (expertReliability db e).gradesTotal := by
  show ((expertReviews db e).filter (fun v => v.decision = .approve)).length +
    ((expertReviews db e).filter (fun v => v.decision = .reject)).length +
      (undecidedGrades db e).length = (expertGrades db e).length
  rw [length_verdicts, length_verdicts, undecidedGrades]
  -- each grade falls into one of three classes
  induction expertGrades db e with
  | nil => rfl
  | cons g gs ih =>
    rw [List.filter_cons, List.filter_cons, List.filter_cons, List.length_cons, ← ih]
    cases hd : decision db g.id with
    | none =>
      simp
      omega
    | some d =>
      cases d with
      | approve =>
        simp
        omega
      | reject =>
        simp
        omega

theorem length_expertReviews (db : Db) (e : Uuid) :
    (expertReliability db e).gradesApproved + (expertReliability db e).gradesRejected =
      (expertReviews db e).length := by
  show ((expertReviews db e).filter (fun v => v.decision = .approve)).length +
    ((expertReviews db e).filter (fun v => v.decision = .reject)).length = _
  induction expertReviews db e with
  | nil => rfl
  | cons v vs ih =>
    rw [List.filter_cons, List.filter_cons, List.length_cons, ← ih]
    cases v.decision with
    | approve =>
      simp
      omega
    | reject =>
      simp
      omega

end Verdicts

/-! ### Distances -/

section Distances
variable {db : Db} {e : Uuid} {W : ℚ}

/-- Scores for one criterion lie in one scale, so they are no further apart than it is wide. -/
theorem deviation_bounded (hcopies : CopiesAgree db)
    (hwide : ∀ c ∈ db.rubricCriteria, (c.scaleMax : ℚ) - c.scaleMin ≤ W) :
    ∀ x ∈ consensusDeviations db e, 0 ≤ x ∧ x ≤ W := by
  intro x hx
  obtain ⟨g, hg, hx⟩ := List.mem_flatMap.mp hx
  obtain ⟨s, hs, hx⟩ := List.mem_filterMap.mp hx
  obtain ⟨average, havg, rfl⟩ := Option.map_eq_some_iff.mp hx
  have hgrade : g ∈ db.grades := (List.mem_filter.mp hg).1
  obtain ⟨c, hc, hid, hadm⟩ := (hcopies g hgrade).scale s hs
  have hstored := (mem_criteriaOf.mp hc).1
  have hothers : ∀ y ∈ otherScores db e g.taskId s.criterionId, c.admits y := by
    intro y hy
    obtain ⟨g', hg', hy⟩ := List.mem_flatMap.mp hy
    obtain ⟨s', hs', rfl⟩ := List.mem_map.mp hy
    obtain ⟨hs', hcrit⟩ := List.mem_filter.mp hs'
    have hgrade' : g' ∈ db.grades := (List.mem_filter.mp hg').1
    obtain ⟨c', hc', hid', hadm'⟩ := (hcopies g' hgrade').scale s' hs'
    -- both grades name the criterion by its id, and a stored id has one scale
    have hsame : c' = c := db.rubricCriteria.eq_of_pk (mem_criteriaOf.mp hc').1 hstored
      ((hid'.trans (of_decide_eq_true hcrit)).trans hid.symm)
    exact hsame ▸ hadm'
  obtain ⟨hlow, hhigh⟩ := ratio_between (fun y hy => (hothers y hy).1)
    (fun y hy => (hothers y hy).2) havg
  refine ⟨abs_nonneg _, ?_⟩
  rw [abs_le]
  have hscale := hwide c hstored
  constructor
  · linarith [hadm.1]
  · linarith [hadm.2]

end Distances

/-- What the reports of all experts say about the tables. -/
structure ReliabilityExact (db : Db) : Prop where
  split : ∀ e, (expertReliability db e).gradesApproved + (expertReliability db e).gradesRejected +
    (undecidedGrades db e).length = (expertReliability db e).gradesTotal
  grades : (db.experts.rows.map (fun x => (expertReliability db x.id).gradesTotal)).sum =
    db.grades.rows.length
  reviews : (db.experts.rows.map (fun x => (expertReliability db x.id).gradesApproved +
    (expertReliability db x.id).gradesRejected)).sum = db.reviews.rows.length
  rates : ∀ e q, (expertReliability db e).approvalRate = some q ∨
    (expertReliability db e).attentionPassRate = some q → 0 ≤ q ∧ q ≤ 1
  deviation : ∀ e W q, (∀ c ∈ db.rubricCriteria, (c.scaleMax : ℚ) - c.scaleMin ≤ W) →
    (expertReliability db e).meanAbsDeviationFromConsensus = some q → 0 ≤ q ∧ q ≤ W

/-- In every reachable state the reports count every grade and every verdict once, and an
expert's mean distance from the others is within the widest scale. -/
theorem reliability_adds_up (rs : List Request) : ReliabilityExact (after rs) := by
  have hlinked := Linked.after rs
  have hids : ((after rs).experts.rows.map Expert.id).Nodup := (after rs).experts.nodup_pk
  have hauthor : ∀ g ∈ (after rs).grades, g.expertId ∈ (after rs).experts.rows.map Expert.id := by
    intro g hg
    obtain ⟨x, hx⟩ := (hlinked.grades g hg).expert
    exact List.mem_map.mpr ⟨x, Table.get_mem hx, Table.get_pk hx⟩
  refine ⟨length_expertGrades _, ?_, ?_, fun e q hq => ?_, fun e W q hwide hq => ?_⟩
  -- every grade has a registered author, and every review a grade: each is in one report
  · have hsum := sum_counts (fun g : Grade => some g.expertId) hids
      (fun g (hg : g ∈ (after rs).grades.rows) => ⟨g.expertId, hauthor g hg, rfl⟩)
    rw [List.map_map] at hsum
    rw [← hsum]
    simp only [Option.some.injEq]
    rfl
  · have hsum := sum_counts (fun v : Review => gradeExpert (after rs) v.gradeId) hids
      (fun v (hv : v ∈ (after rs).reviews.rows) => by
        obtain ⟨g, hg, hid⟩ := (Consistent.after rs).reviewGrade v hv
        refine ⟨g.expertId, hauthor g hg, ?_⟩
        rw [gradeExpert, ← hid, show (after rs).grades.get g.id = some g from
          (after rs).grades.get_of_mem hg, Option.map_some])
    rw [List.map_map] at hsum
    rw [← hsum]
    apply congrArg List.sum
    apply List.map_congr_left
    intro x _
    exact length_expertReviews _ _
  · rcases hq with hq | hq
    · have happroval : ratio (expertReliability (after rs) e).gradesApproved
          ((expertReliability (after rs) e).gradesApproved +
            (expertReliability (after rs) e).gradesRejected) = some q := hq
      exact ratio_share (Nat.le_add_right _ _) happroval
    · exact ratio_share (List.length_filter_le _ _) hq
  · have hall := deviation_bounded (e := e) (copies_agree rs) hwide
    exact ratio_between (fun x hx => (hall x hx).1) (fun x hx => (hall x hx).2) hq

end Panelist
