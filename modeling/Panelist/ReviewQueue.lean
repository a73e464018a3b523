import Panelist.TaskRows

/-! The list of grades a reviewer works off, against what a review accepts. -/
namespace Panelist
open Relational

/-- The query of `list_unreviewed` before its limit. -/
def unreviewed (db : Db) : List Grade :=
  (db.grades.rows.filter (fun g => (db.reviews.get g.id).isNone &&
    (db.tasks.get g.taskId).any (fun t =>
      decide (t.status ≠ .adjudication) &&
        decide (t.requiredGrades ≤ t.gradesReceived)))).insertionSort
    (fun a b => a.submittedAt ≤ b.submittedAt)

/-- `GET /grades`. -/
def listUnreviewed (db : Db) (limit : ℕ) : List Grade := (unreviewed db).take (min limit 1000)

/-- A review of the grade passes the guards of `review`. -/
def Reviewable (db : Db) (g : Grade) : Prop :=
  db.reviews.get g.id = none ∧
    ∃ t, db.tasks.get g.taskId = some t ∧ rejectIfConsensusPending t = .ok ()

/-- An unreviewed grade of a golden task that has fewer grades than it requires. -/
def Unlisted (db : Db) (g : Grade) : Prop :=
  db.reviews.get g.id = none ∧ ∃ t, db.tasks.get g.taskId = some t ∧
    t.isAttentionCheck = true ∧ t.gradesReceived < t.requiredGrades

section Listing
variable {db : Db} {g : Grade} {t : Task}

theorem mem_unreviewed (ht : db.tasks.get g.taskId = some t) : g ∈ unreviewed db ↔
    g ∈ db.grades ∧ db.reviews.get g.id = none ∧ t.status ≠ .adjudication ∧
      t.requiredGrades ≤ t.gradesReceived := by
  simp [unreviewed, ht, Table.mem_rows]

theorem reviewable_iff (ht : db.tasks.get g.taskId = some t) : Reviewable db g ↔
    db.reviews.get g.id = none ∧ rejectIfConsensusPending t = .ok () := by
  simp [Reviewable, ht]

theorem unlisted_iff (ht : db.tasks.get g.taskId = some t) : Unlisted db g ↔
    db.reviews.get g.id = none ∧ t.isAttentionCheck = true ∧
      t.gradesReceived < t.requiredGrades := by
  simp [Unlisted, ht]

/-- A grade of a non-golden task is ready for review by the columns of its row. -/
theorem Phase.ready {gs : List Grade} {dec : Uuid → Option ReviewDecision} {c : Option Consensus}
    (h : Phase t gs dec c) (hg : t.isAttentionCheck = false) (hmem : g ∈ gs)
    (hd : dec g.id = none) :
    rejectIfConsensusPending t = .ok () ↔
      t.status ≠ .adjudication ∧ t.requiredGrades ≤ t.gradesReceived := by
  rw [rejectIfConsensusPending_ok]
  have hplain : ¬ t.isAttentionCheck = true := by simp [hg]
  by_cases hseveral : 2 ≤ t.requiredGrades
  -- the guard is about several graders only
  · have hguard : ¬ (t.isAttentionCheck = true ∨ t.requiredGrades < 2) := by
      rintro (hf | hlt)
      · exact hplain hf
      · omega
    rw [or_iff_right hguard, and_comm]
  · -- one grader: the only grade without a review is the one that is counted
    refine iff_of_true (Or.inl (Or.inr (by omega))) ?_
    cases h with
    | golden hf => exact absurd hf hplain
    | awaiting _ hk hs hn hd' => exact absurd (hd.symm.trans (hd' g hmem)) (by simp)
    | submitted _ hk hs hn => exact ⟨by rw [hs]; decide, by omega⟩
    | approved _ hk hs hn => exact ⟨by rw [hs]; decide, by omega⟩
    | collecting _ hk => exact absurd hk hseveral
    | agreed _ hk => exact absurd hk hseveral
    | adjudicating _ hk => exact absurd hk hseveral
    | adjudicated _ hk => exact absurd hk hseveral

/-- A golden task never waits for an adjudicator. -/
theorem Phase.golden_open {gs : List Grade} {dec : Uuid → Option ReviewDecision}
    {c : Option Consensus} (h : Phase t gs dec c) (hg : t.isAttentionCheck = true) : t.isOpen := by
  cases h with
  | golden _ hs => exact hs
  | awaiting hf => exact absurd (hf.symm.trans hg) (by decide)
  | submitted hf => exact absurd (hf.symm.trans hg) (by decide)
  | approved hf => exact absurd (hf.symm.trans hg) (by decide)
  | collecting hf => exact absurd (hf.symm.trans hg) (by decide)
  | agreed hf => exact absurd (hf.symm.trans hg) (by decide)
  | adjudicating hf => exact absurd (hf.symm.trans hg) (by decide)
  | adjudicated hf => exact absurd (hf.symm.trans hg) (by decide)

end Listing

/-- In every reachable state the list of unreviewed grades holds a grade exactly when a
review of it is accepted, unless it belongs to a golden task that has fewer grades
than it requires. -/
theorem listed_iff_reviewable (rs : List Request) {g : Grade} (hg : g ∈ (after rs).grades) :
    (g ∈ unreviewed (after rs) ↔ Reviewable (after rs) g) ↔ ¬ Unlisted (after rs) g := by
  have hc := Consistent.after rs
  obtain ⟨t, ht, hid⟩ := hc.gradeTask g hg
  have hget : (after rs).tasks.get g.taskId = some t :=
    (after rs).tasks.get_eq_some.mpr ⟨ht, hid⟩
  have hphase := hc.phase t ht
  rw [mem_unreviewed hget, reviewable_iff hget, unlisted_iff hget]
  -- a reviewed grade is neither listed nor reviewable
  by_cases hnone : (after rs).reviews.get g.id = none
  · simp only [hg, hnone, true_and]
    cases hgold : t.isAttentionCheck with
    | false =>
      have hready := hphase.ready hgold (mem_gradesOf.mpr ⟨hg, hid.symm⟩) (review_none.mp hnone)
      exact iff_of_true hready.symm (by simp)
    -- a golden task is never sent to adjudication, so its grades can be reviewed at any time
    | true =>
      have hopen : t.status ≠ .adjudication := by
        rcases hphase.golden_open hgold with hs | hs <;> rw [hs] <;> decide
      have hguard : rejectIfConsensusPending t = .ok () :=
        rejectIfConsensusPending_ok.mpr (Or.inl (Or.inl hgold))
      simp [hopen, hguard]
  · simp [hnone]

/-! A golden task for two graders with one grade. -/
namespace Scenario

def goldenPair : TaskCreate :=
  { task with requiredGrades := 2, isAttentionCheck := true, expectedScores := some (accuracy 4) }

def halfGolden : List Request := setup ++
  [call 5 (.createTasks [goldenPair] "admin"), call 6 (.claimNext 300),
   call 7 (.submit 300 (grade 500 4))]

def approveAt (n : ℕ) (gradeId : Uuid) : Request :=
  call n (.review 7 ⟨gradeId, .approve, none⟩ "reviewer")

end Scenario

open Scenario in
/-- The list is empty, and a review of the one grade there is succeeds. -/
theorem golden_grade_hidden :
    (after halfGolden).grades.rows.map Grade.id = [700] ∧
      listUnreviewed (after halfGolden) 1000 = [] ∧
      (step (approveAt 8 700) (after halfGolden)).isOk = true := by
  refine ⟨by decide +kernel, ?_, by decide +kernel⟩
  rw [← List.length_eq_zero_iff]
  decide +kernel

open Scenario in
/-- The first grade of a regular task that has both of its grades. -/
theorem listed_iff_reviewable_half : ∃ g ∈ (after (pair 4 4)).grades,
    (g ∈ unreviewed (after (pair 4 4)) ↔ Reviewable (after (pair 4 4)) g) := by
  have hgrade : ((after (pair 4 4)).grades.get 700).map Grade.taskId = some 500 := by
    decide +kernel
  have hplain : ((after (pair 4 4)).tasks.get 500).map Task.isAttentionCheck = some false := by
    decide +kernel
  obtain ⟨g, hg, htask⟩ := Option.map_eq_some_iff.mp hgrade
  refine ⟨g, Table.get_mem hg, (listed_iff_reviewable (pair 4 4) (Table.get_mem hg)).mpr ?_⟩
  rintro ⟨_, t, ht, hgold, _⟩
  rw [htask] at ht
  rw [ht, Option.map_some, hgold] at hplain
  exact absurd hplain (by decide)

end Panelist
