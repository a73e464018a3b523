import Panelist.Attention
import Panelist.Consensus
import Panelist.Routing

/-! `panelist.services.grading`: grade submission and review decisions. -/
namespace Panelist
open Relational Transaction

/-- `rubric.criteria`, in `position` order. -/
def criteriaOf (db : Db) (rubricId : Uuid) : List RubricCriterion :=
  (db.rubricCriteria.rows.filter (fun c => c.rubricId = rubricId)).insertionSort
    (fun a b => a.position ≤ b.position)

/-- `pinned_rubric or rubric`. -/
def Task.gradingRubricId (t : Task) : Uuid := t.pinnedRubricId.getD t.rubricId

/-- `_pin_conflict`. -/
def pinConflict (given : Option Rubric) (pinned : Rubric) : String :=
  match given with
  | none => s!"unknown rubric; task is pinned to version {pinned.version}"
  | some r =>
    let state := if r.supersededAt.isSome then "superseded" else "not the pinned version"
    s!"rubric version {r.version} is {state}; task is pinned to version {pinned.version}"

/-- `sorted(set(xs) - set(ys))`. -/
def sortedDiff (xs ys : List String) : List String :=
  -- Python compares strings by code point
  ((xs.filter (fun x => !ys.contains x)).dedup).insertionSort (fun a b => a.toList ≤ b.toList)

/-- How Python prints a list of plain strings. -/
def pyList (xs : List String) : String :=
  "[" ++ ", ".intercalate (xs.map (fun x => "'" ++ x ++ "'")) ++ "]"

/-- `by_key`: of two criteria with one key the later one wins. -/
def byKey (criteria : List RubricCriterion) (key : String) : Option RubricCriterion :=
  criteria.reverse.find? (fun c => c.key = key)

def RubricCriterion.admits (c : RubricCriterion) (value : ℚ) : Prop :=
  (c.scaleMin : ℚ) ≤ value ∧ value ≤ c.scaleMax

instance (c : RubricCriterion) (value : ℚ) : Decidable (c.admits value) :=
  inferInstanceAs (Decidable (_ ∧ _))

/-- The first score outside its criterion's scale, with that criterion. -/
def outOfScale (criteria : List RubricCriterion) (scores : Dict ℚ) :
    Option (String × RubricCriterion) :=
  scores.rows.findSome? (fun kv =>
    match byKey criteria kv.1 with
    | some c => if c.admits kv.2 then none else some (kv.1, c)
    | none => none)

/-- `weighted`: a total weight of 0 counts as 1. -/
def weightedScore (criteria : List RubricCriterion) (scores : Dict ℚ) : ℚ :=
  let total := (criteria.map RubricCriterion.weight).sum
  (criteria.map (fun c => (lookup scores c.key).getD 0 * c.weight)).sum /
    (if total = 0 then 1 else total)

/-- `grade.scores`. -/
def gradeScores (criteria : List RubricCriterion) (scores : Dict ℚ) : List GradeScore :=
  scores.rows.filterMap (fun kv => (byKey criteria kv.1).map (fun c => ⟨c.id, kv.2⟩))

/-- The task columns `submit` writes: the lease goes, the grade is counted, and
the task is done unless it is golden or wants more graders. -/
def Task.graded (t : Task) : Task :=
  { t with
    gradesReceived := t.gradesReceived + 1
    assignedExpertId := none
    assignedAt := none
    leaseExpiresAt := none
    status := if t.isAttentionCheck = true ∨ t.gradesReceived + 1 < t.requiredGrades then .queued
      else .submitted }

/-- `consensus.evaluate`, when the grade completed its task. -/
def roundIfComplete (env : Env) (db : Db) (task : Task) : Except Failure Db :=
  if task.graded.status = .submitted then Prod.fst <$> consensusEvaluate env db task.id else pure db

/-- The golden check of a stored grade, the guard and the calibration. -/
def checkGrade (env : Env) (db : Db) (expert : Expert) (task : Task) (grade : Grade) :
    Except Failure Db := do
  let (db, result) ← attentionEvaluate env db task grade
  match result with
  | none => pure db
  | some result =>
    -- only a failed check looks at the rolling rate
    let db := if result.passed then db else (enforce env db expert).1
    -- golden checks are signals, so a passed one recalibrates as well
    pure (calibrationUpdate env db expert "system").1

/-- The steps of `submit` after the grade is stored. -/
def settleGrade (env : Env) (db : Db) (expert : Expert) (task : Task) (grade : Grade) :
    Except Failure Db := do
  let db ← roundIfComplete env { db with tasks := db.tasks.update task.id Task.graded } task
  checkGrade env (record db s!"expert:{expert.id.str}" "grade.submitted" "grade" grade.id.str)
    expert task grade

structure GradeCreate where
  taskId : Uuid
  rubricId : Option Uuid
  scores : Dict ℚ
  rationale : String
  timeSpentSeconds : ℕ

/-- `grading.submit`. -/
def submit (env : Env) (db : Db) (expertId : Uuid) (body : GradeCreate) :
    Except Failure (Db × Grade) := do
  require (1 ≤ body.rationale.length) (.http 422 "rationale")
  let expert ← currentExpert db expertId
  let task ← orFail (db.tasks.get body.taskId) (.http 404 "task not found")
  require (task.status = .assigned ∧ task.assignedExpertId = some expert.id)
    (.http 409 "task is not assigned to this expert")
  -- `pinned_rubric or rubric`: a version published since the claim does not count
  let rubric ← orFail (db.rubrics.get task.gradingRubricId) (.integrity "tasks_rubric_id_fkey")
  require (∀ r ∈ body.rubricId, r = rubric.id)
    (.http 409 (pinConflict (body.rubricId.bind db.rubrics.get) rubric))
  let criteria := criteriaOf db rubric.id
  let keys := criteria.map RubricCriterion.key
  let given := body.scores.rows.map Prod.fst
  -- the body has to score exactly the criteria
  let missing := sortedDiff keys given
  let unknown := sortedDiff given keys
  require (missing = [] ∧ unknown = [])
    (.http 422 s!"scores mismatch rubric: missing={pyList missing} unknown={pyList unknown}")
  match outOfScale criteria body.scores with
  | some (key, c) =>
    throw (.http 422 s!"score for {key} must be within [{c.scaleMin}, {c.scaleMax}]")
  | none => do
    let grade : Grade :=
      { id := env.uuid4 0
        taskId := task.id
        expertId := expert.id
        rubricId := rubric.id
        scoresSnapshot := body.scores
        rationale := body.rationale
        timeSpentSeconds := body.timeSpentSeconds
        weightedScore := weightedScore criteria body.scores
        submittedAt := env.now
        scores := gradeScores criteria body.scores }
    -- the one place where a second grade by the same expert is refused
    let grades ← orFail (db.grades.insert grade) (.integrity "uq_grade_task_expert")
    let db ← settleGrade env { db with grades := grades } expert task grade
    pure (db, grade)

/-- The task columns `_requeue` writes. -/
def Task.requeued (t : Task) : Task :=
  { t with status := .queued, gradesReceived := t.gradesReceived - 1 }

/-- `_requeue`: a rejected single-grader task goes back to the queue. -/
def requeue (db : Db) (task : Task) (actor : String) : Db :=
  let db := { db with tasks := db.tasks.update task.id Task.requeued }
  record db actor "task.requeued" "task" task.id.str

/-- `_reject_if_consensus_pending`. -/
def rejectIfConsensusPending (task : Task) : Except Failure Unit :=
  if task.isAttentionCheck = true ∨ task.requiredGrades < 2 then pure ()
  else if task.gradesReceived < task.requiredGrades then
    .error (.http 409 s!"task is waiting for {task.requiredGrades} grades")
  else if task.status = .adjudication then .error (.http 409 "task is awaiting adjudication")
  else pure ()

/-- What a review pays: an approved grade its full rate. -/
def reviewPayout (env : Env) (db : Db) (grade : Grade) (task : Task) (decision : ReviewDecision)
    (actor : String) : Except Failure Db :=
  if decision = .approve then Prod.fst <$> createForGrade env db grade task actor 1 else pure db

/-- What a review does to its task's row. -/
def reviewTask (db : Db) (task : Task) (decision : ReviewDecision) (actor : String) : Db :=
  -- golden tasks stay in the queue whatever becomes of a grade
  if task.isAttentionCheck then db
  else if decision = .approve then
    { db with
      tasks := db.tasks.update task.id (Task.withStatus .approved) (Task.withStatus_keeps _) }
  else if task.requiredGrades = 1 then requeue db task actor
  -- with several graders an approval stands against a later rejection
  else if task.status ≠ .approved then
    { db with
      tasks := db.tasks.update task.id (Task.withStatus .rejected) (Task.withStatus_keeps _) }
  else db

structure ReviewCreate where
  gradeId : Uuid
  decision : ReviewDecision
  reason : Option String

/-- `grading.review`. -/
def review (env : Env) (db : Db) (keyId : Uuid) (body : ReviewCreate) (actor : String) :
    Except Failure (Db × Review) := do
  let grade ← orFail (db.grades.get body.gradeId) (.http 404 "grade not found")
  require ((db.reviews.get grade.id).isNone) (.http 409 "grade already reviewed")
  let task ← orFail (db.tasks.get grade.taskId) (.integrity "grades_task_id_fkey")
  -- a round that is open or incomplete is not reviewed grade by grade
  rejectIfConsensusPending task
  let verdict : Review := ⟨grade.id, keyId, body.decision, body.reason, env.now⟩
  require verdict.storable (.raised "DataError")
  let reviews ← orFail (db.reviews.insert verdict) (.integrity "reviews_grade_id_key")
  -- a missing rate stops the review here, with nothing written
  let db ← reviewPayout env { db with reviews := reviews } grade task body.decision actor
  let db := reviewTask db task body.decision actor
  -- the rejection is among the decisions the new pick looks at
  let db := if body.decision = .reject then redeliver db task grade actor else db
  let db := record db actor s!"grade.{body.decision.value}" "grade" grade.id.str
  let expert ← orFail (db.experts.get grade.expertId) (.integrity "grades_expert_id_fkey")
  pure ((calibrationUpdate env db expert actor).1, verdict)

/-! ### What the operations write -/

/-- The task and round tables after `task` received a grade, which `db` holds
already: a complete task with two grades in play gets its round. -/
inductive Rounds (env : Env) (db : Db) (task : Task) : Table Task → Table Consensus → Prop
  | none (h : task.graded.status = .submitted → (unrejected db task.id).length < 2) :
      Rounds env db task (db.tasks.update task.id Task.graded) db.consensus
  | agreed {consensus : Table Consensus} (hc : task.graded.status = .submitted)
      (h : 2 ≤ (unrejected db task.id).length)
      (hs : (newRound env task.id (unrejected db task.id)).status = .agreed)
      (hi : db.consensus.insert (newRound env task.id (unrejected db task.id)) = some consensus) :
      Rounds env db task (db.tasks.update task.id Task.graded) consensus
  | split {consensus : Table Consensus} (hc : task.graded.status = .submitted)
      (h : 2 ≤ (unrejected db task.id).length)
      (hs : (newRound env task.id (unrejected db task.id)).status ≠ .agreed)
      (hi : db.consensus.insert (newRound env task.id (unrejected db task.id)) = some consensus) :
      Rounds env db task
        (db.tasks.update task.id (fun t => t.graded.withStatus .adjudication)) consensus

theorem roundIfComplete_ok {env : Env} (db : Db) {db' : Db} {task : Task}
    (h : roundIfComplete env { db with tasks := db.tasks.update task.id Task.graded } task =
      .ok db') :
    ∃ tasks consensus events, Rounds env db task tasks consensus ∧
      db' = { db with tasks := tasks, consensus := consensus, auditEvents := events } := by
  unfold roundIfComplete at h
  split_ifs at h with hc
  · obtain ⟨⟨_, c⟩, he, rfl⟩ := map_ok_iff.mp h
    -- complete: with fewer than two grades in play no round is opened
    rcases consensusEvaluate_ok he with ⟨hl, rfl⟩ | ⟨hl, consensus, events, hi, rfl⟩
    · exact ⟨_, _, db.auditEvents, .none (fun _ => hl), rfl⟩
    -- an agreed round leaves the task submitted, a split one sends it to adjudication
    · by_cases hs : (newRound env task.id (unrejected db task.id)).status = .agreed
      · refine ⟨_, consensus, events, .agreed hc hl hs hi, ?_⟩
        exact congrArg (fun T => { db with tasks := T, consensus, auditEvents := events })
          (if_pos hs)
      · refine ⟨_, consensus, events, .split hc hl hs hi, ?_⟩
        have hu := db.tasks.update_update task.id Task.graded (Task.withStatus .adjudication)
          (fun _ => rfl) (fun _ => rfl)
        exact congrArg (fun T => { db with tasks := T, consensus, auditEvents := events })
          ((if_neg hs).trans hu)
  · obtain rfl := pure_ok_iff.mp h
    exact ⟨_, _, db.auditEvents, .none (fun he => absurd he hc), rfl⟩

/-- A golden check stores a result, may pause the expert, and recalibrates them last. -/
theorem checkGrade_calibrates {env : Env} {db db' : Db} {expert : Expert} {task : Task}
    {grade : Grade} (h : checkGrade env db expert task grade = .ok db') :
    db' = db ∧ task.expected = none ∨
    ∃ row results experts payouts events, db.attentionResults.insert row = some results ∧
      row.expertId = grade.expertId ∧ row.createdAt = env.now ∧
      (experts = db.experts ∧ payouts = db.payouts ∨ expert.status ≠ .paused ∧
        experts = db.experts.update expert.id (Expert.withStatus .paused) ∧
        payouts = db.payouts.updateWhere (Payout.ofExpert expert.id .pending) Payout.withhold) ∧
      db' = (calibrationUpdate env { db with
        attentionResults := results
        experts := experts
        payouts := payouts
        auditEvents := events } expert "system").1 := by
  simp only [checkGrade, bind_ok_iff, Prod.exists] at h
  obtain ⟨db₁, result, he, hm⟩ := h
  rcases attentionEvaluate_ok he with ⟨rfl, rfl, hnone⟩ | ⟨row, results, rfl, hrow, hins, rfl⟩
  · exact Or.inl ⟨(pure_ok_iff.mp hm).symm, hnone⟩
  · obtain rfl := pure_ok_iff.mp hm
    refine Or.inr ⟨row, results, ?_⟩
    -- only a failed check may pause
    by_cases hpass : row.passed = true
    · rw [if_pos hpass]
      exact ⟨_, _, db.auditEvents, hins, hrow.1, hrow.2, Or.inl ⟨rfl, rfl⟩, rfl⟩
    · rw [if_neg hpass]
      rcases enforce_cases env { db with attentionResults := results } expert with
        hsame | ⟨hst, events, hpaused⟩
      · rw [hsame]
        exact ⟨_, _, db.auditEvents, hins, hrow.1, hrow.2, Or.inl ⟨rfl, rfl⟩, rfl⟩
      · rw [hpaused]
        exact ⟨_, _, events, hins, hrow.1, hrow.2, Or.inr ⟨hst, rfl, rfl⟩, rfl⟩

/-- The golden check stores a result, may pause the expert, and recalibrates. -/
theorem checkGrade_ok {env : Env} {db db' : Db} {expert : Expert} {task : Task} {grade : Grade}
    (h : checkGrade env db expert task grade = .ok db') :
    ∃ results changes events experts payouts,
      (experts = db.experts ∧ payouts = db.payouts ∨ expert.status ≠ .paused ∧
        experts = db.experts.update expert.id (Expert.withStatus .paused) ∧
        payouts = db.payouts.updateWhere (Payout.ofExpert expert.id .pending) Payout.withhold) ∧
      ∃ experts', Recalibrates experts experts' ∧
        db' = { db with
          experts := experts'
          payouts := payouts
          attentionResults := results
          tierChanges := changes
          auditEvents := events } := by
  rcases checkGrade_calibrates h with ⟨rfl, _⟩ | ⟨row, results, experts, payouts, events, _, _, _,
    hguard, hdb'⟩
  · exact ⟨_, db'.tierChanges, db'.auditEvents, _, _, Or.inl ⟨rfl, rfl⟩, _, .refl _, rfl⟩
  · obtain ⟨changes, events', hu⟩ := calibrationUpdate_eq env _ expert "system"
    exact ⟨results, changes, events', experts, payouts, hguard, _, .update _ env _ expert,
      hdb'.trans hu⟩

/-- What `submit` asks of a score map: exactly the criteria's keys, each in its scale. -/
def admissible (criteria : List RubricCriterion) (scores : Dict ℚ) : Prop :=
  (sortedDiff (criteria.map RubricCriterion.key) (scores.rows.map Prod.fst) = [] ∧
    sortedDiff (scores.rows.map Prod.fst) (criteria.map RubricCriterion.key) = []) ∧
  outOfScale criteria scores = none

/-- The grade `submit` stores. -/
def GradeCreate.row (body : GradeCreate) (env : Env) (task : Task) (expert : Expert)
    (rubricId : Uuid) (criteria : List RubricCriterion) : Grade :=
  ⟨env.uuid4 0, task.id, expert.id, rubricId, body.scores, body.rationale, body.timeSpentSeconds,
    weightedScore criteria body.scores, env.now, gradeScores criteria body.scores⟩

/-- When and how a submission succeeds. -/
theorem submit_ok_iff {env : Env} {db db' : Db} {expertId : Uuid} {body : GradeCreate}
    {grade : Grade} :
    submit env db expertId body = .ok (db', grade) ↔ 1 ≤ body.rationale.length ∧
      ∃ expert task rubric grades, db.experts.get expertId = some expert ∧
        db.tasks.get body.taskId = some task ∧
        (task.status = .assigned ∧ task.assignedExpertId = some expert.id) ∧
        db.rubrics.get task.gradingRubricId = some rubric ∧
        (∀ r ∈ body.rubricId, r = rubric.id) ∧
        admissible (criteriaOf db rubric.id) body.scores ∧
        grade = body.row env task expert rubric.id (criteriaOf db rubric.id) ∧
        db.grades.insert grade = some grades ∧
        settleGrade env { db with grades := grades } expert task grade = .ok db' := by
  simp only [submit, currentExpert, bind_ok_iff, orFail_ok_iff, require_ok_iff, exists_const,
    admissible]
  -- both directions walk the checks in the order of the source
  refine and_congr_right (fun _ => exists_congr (fun expert => ?_))
  constructor
  · rintro ⟨hexp, task, htask, hheld, rubric, hrub, hnamed, hkeys, hm⟩
    split at hm
    · exact absurd hm (by simp)
    · rename_i hscale
      simp only [bind_ok_iff, orFail_ok_iff, pure_ok_iff, Prod.mk.injEq] at hm
      obtain ⟨grades, hins, db₁, hsettle, rfl, rfl⟩ := hm
      exact ⟨task, rubric, grades, hexp, htask, hheld, hrub, hnamed, ⟨hkeys, hscale⟩, rfl, hins,
        hsettle⟩
  · rintro ⟨task, rubric, grades, hexp, htask, hheld, hrub, hnamed, ⟨hkeys, hscale⟩, rfl, hins,
      hsettle⟩
    refine ⟨hexp, task, htask, hheld, rubric, hrub, hnamed, hkeys, ?_⟩
    simp only [hscale, bind_ok_iff, orFail_ok_iff, pure_ok_iff, Prod.mk.injEq]
    exact ⟨grades, hins, db', hsettle, rfl, rfl⟩

/-- A submission by the holder stores the grade, settles the task and runs the check. -/
theorem submit_ok {env : Env} {db db' : Db} {expertId : Uuid} {body : GradeCreate} {grade : Grade}
    (h : submit env db expertId body = .ok (db', grade)) :
    ∃ expert task rubric grades tasks consensus events,
      db.experts.get expertId = some expert ∧ db.tasks.get body.taskId = some task ∧
      task.status = .assigned ∧ task.assignedExpertId = some expert.id ∧
      db.rubrics.get task.gradingRubricId = some rubric ∧
      grade = ⟨env.uuid4 0, task.id, expert.id, rubric.id, body.scores, body.rationale,
        body.timeSpentSeconds, weightedScore (criteriaOf db rubric.id) body.scores, env.now,
        gradeScores (criteriaOf db rubric.id) body.scores⟩ ∧
      db.grades.insert grade = some grades ∧
      Rounds env { db with grades := grades } task tasks consensus ∧
      checkGrade env { db with
        grades := grades
        tasks := tasks
        consensus := consensus
        auditEvents := events } expert task grade = .ok db' := by
  obtain ⟨_, expert, task, rubric, grades, hexp, htask, ⟨hst, hholder⟩, hrub, _, _, hg, hins,
    hsettle⟩ := submit_ok_iff.mp h
  -- the round comes before the check
  simp only [settleGrade, bind_ok_iff] at hsettle
  obtain ⟨db₂, hround, hcheck⟩ := hsettle
  obtain ⟨tasks, consensus, events, hr, rfl⟩ :=
    roundIfComplete_ok { db with grades := grades } hround
  exact ⟨expert, task, rubric, grades, tasks, consensus, _, hexp, htask, hst, hholder, hrub, hg,
    hins, hr, hcheck⟩

/-- A review is refused while a round of several graders is still open. -/
theorem rejectIfConsensusPending_ok {task : Task} :
    rejectIfConsensusPending task = .ok () ↔
      (task.isAttentionCheck = true ∨ task.requiredGrades < 2) ∨
        task.requiredGrades ≤ task.gradesReceived ∧ task.status ≠ .adjudication := by
  unfold rejectIfConsensusPending
  split_ifs with hsingle hwait hadj
  · simpa using Or.inl hsingle
  · refine ⟨fun h => absurd h (by simp), fun h => ?_⟩
    rcases h with h | h
    · exact absurd h hsingle
    · omega
  · refine ⟨fun h => absurd h (by simp), fun h => ?_⟩
    rcases h with h | h
    · exact absurd h hsingle
    · exact absurd hadj h.2
  · simpa using Or.inr ⟨not_lt.mp hwait, hadj⟩

/-- The task row after a decision on one of its grades. -/
def Task.reviewed (d : ReviewDecision) (t : Task) : Task :=
  if t.isAttentionCheck then t
  else if d = .approve then t.withStatus .approved
  else if t.requiredGrades = 1 then t.requeued
  else if t.status ≠ .approved then t.withStatus .rejected
  else t

theorem Task.reviewed_keeps (d : ReviewDecision) : Table.Keeps (Task.reviewed d) := by
  intro t
  unfold Task.reviewed
  split_ifs <;> rfl

theorem reviewTask_eq {db : Db} {task : Task} (h : db.tasks.get task.id = some task)
    (d : ReviewDecision) (actor : String) :
    reviewTask db task d actor = { db with
      tasks := db.tasks.update task.id (Task.reviewed d) (Task.reviewed_keeps d)
      auditEvents := (reviewTask db task d actor).auditEvents } := by
  have hwrite (f : Task → Task) (hf : Table.Keeps f) (hr : task.reviewed d = f task) :
      db.tasks.update task.id (Task.reviewed d) (Task.reviewed_keeps d) =
        db.tasks.update task.id f hf := db.tasks.update_congr (Task.reviewed_keeps d) hf h hr
  have hsame (hr : task.reviewed d = task) :
      db.tasks.update task.id (Task.reviewed d) (Task.reviewed_keeps d) = db.tasks := by
    rw [Table.update_self]
    intro t ht
    rwa [← Option.some.inj (h.symm.trans ht)]
  unfold reviewTask
  -- the branches of the source; only three of them write the task
  split_ifs with hg hd hk hs
  · rw [hsame (if_pos hg)]
  · rw [hwrite (Task.withStatus .approved) (Task.withStatus_keeps _)
      (by simp [Task.reviewed, hg, hd])]
  · rw [hwrite Task.requeued (fun _ => rfl) (by simp [Task.reviewed, hg, hd, hk])]
    rfl
  · rw [hwrite (Task.withStatus .rejected) (Task.withStatus_keeps _)
      (by simp [Task.reviewed, hg, hd, hk, hs])]
  · rw [hsame (by rw [Task.reviewed, if_neg hg, if_neg hd, if_neg hk, if_neg hs])]

/-- The round after a decision, whichever it is. -/
theorem redeliverIf_eq (db : Db) (task : Task) (grade : Grade) (d : ReviewDecision)
    (actor : String) :
    (if d = .reject then redeliver db task grade actor else db) = { db with
      consensus := db.consensus.update task.id
        (Consensus.afterReview d grade.id (repick db task.id)) (Consensus.afterReview_keeps _ _ _)
      auditEvents :=
        (if d = .reject then redeliver db task grade actor else db).auditEvents } := by
  split_ifs with hd
  · rw [hd]
    exact redeliver_eq db task grade actor
  · have hsame (c : Consensus) :
        c.afterReview d grade.id (repick db task.id) = c := if_neg (fun hn => hd hn.1)
    rw [Table.update_self _ (fun c _ => hsame c)]

/-- The share of the rate a review pays, if it pays. -/
def reviewShare (d : ReviewDecision) (_ : Grade) : Option ℚ := if d = .approve then some 1 else none

theorem reviewPayout_ok {env : Env} {db db' : Db} {grade : Grade} {task : Task}
    {d : ReviewDecision} {actor : String} (h : reviewPayout env db grade task d actor = .ok db') :
    ∃ payouts events, Payments env db task (reviewShare d) [grade] db.payouts payouts ∧
      db' = { db with payouts := payouts, auditEvents := events } := by
  unfold reviewPayout at h
  split_ifs at h with hd
  · obtain ⟨⟨_, p⟩, hp, rfl⟩ := map_ok_iff.mp h
    exact createForGrade_ok (if_pos hd) hp
  · obtain rfl := pure_ok_iff.mp h
    exact ⟨db.payouts, db.auditEvents, .unpaid (if_neg hd) (.nil _), rfl⟩

/-- A review stores the decision, pays an approved grade, moves the task and the pick
of its round, and recalibrates the author last. -/
theorem review_calibrates {env : Env} {db db' : Db} {keyId : Uuid} {body : ReviewCreate}
    {actor : String} {v : Review} (h : review env db keyId body actor = .ok (db', v)) :
    ∃ grade task reviews payouts expert events,
      db.grades.get body.gradeId = some grade ∧ db.tasks.get grade.taskId = some task ∧
      rejectIfConsensusPending task = .ok () ∧
      v = ⟨grade.id, keyId, body.decision, body.reason, env.now⟩ ∧
      db.reviews.insert v = some reviews ∧
      Payments env db task (reviewShare v.decision) [grade] db.payouts payouts ∧
      db.experts.get grade.expertId = some expert ∧
      db' = (calibrationUpdate env { db with
        reviews := reviews
        payouts := payouts
        tasks := db.tasks.update task.id (Task.reviewed v.decision) (Task.reviewed_keeps _)
        consensus := db.consensus.update task.id
          (Consensus.afterReview v.decision grade.id
            (repick { db with reviews := reviews } task.id)) (Consensus.afterReview_keeps _ _ _)
        auditEvents := events } expert actor).1 := by
  simp only [review, bind_ok_iff, orFail_ok_iff, require_ok_iff, exists_const, pure_ok_iff,
    Prod.mk.injEq] at h
  obtain ⟨grade, hgrade, _, task, htask, _, hallow, _, reviews, hins, db₁, hpay, expert, hexp, hdb',
    rfl⟩ := h
  obtain ⟨payouts, events₁, hpaid, rfl⟩ := reviewPayout_ok hpay
  have hid : task.id = grade.taskId := Table.get_pk htask
  -- the row of the task is the one that was read
  rw [reviewTask_eq (by rw [hid]; exact htask), redeliverIf_eq] at hdb' hexp
  exact ⟨grade, task, reviews, payouts, expert, _, hgrade, htask, hallow, rfl, hins,
    hpaid.congr rfl (fun _ _ => rfl), hexp, hdb'.symm⟩

theorem review_ok {env : Env} {db db' : Db} {keyId : Uuid} {body : ReviewCreate} {actor : String}
    {v : Review} (h : review env db keyId body actor = .ok (db', v)) :
    ∃ grade task reviews payouts experts changes events,
      db.grades.get body.gradeId = some grade ∧ db.tasks.get grade.taskId = some task ∧
      rejectIfConsensusPending task = .ok () ∧
      v = ⟨grade.id, keyId, body.decision, body.reason, env.now⟩ ∧
      db.reviews.insert v = some reviews ∧
      Payments env db task (reviewShare v.decision) [grade] db.payouts payouts ∧
      Recalibrates db.experts experts ∧
      db' = { db with
        reviews := reviews
        payouts := payouts
        tasks := db.tasks.update task.id (Task.reviewed v.decision) (Task.reviewed_keeps _)
        consensus := db.consensus.update task.id
          (Consensus.afterReview v.decision grade.id
            (repick { db with reviews := reviews } task.id)) (Consensus.afterReview_keeps _ _ _)
        experts := experts
        tierChanges := changes
        auditEvents := events } := by
  obtain ⟨grade, task, reviews, payouts, expert, events, hgrade, htask, hallow, hv, hins, hpay, _,
    hdb'⟩ := review_calibrates h
  -- the calibration at the end writes experts and tier changes only
  obtain ⟨changes, events', hu⟩ := calibrationUpdate_eq env _ expert actor
  exact ⟨grade, task, reviews, payouts, _, changes, events', hgrade, htask, hallow, hv, hins, hpay,
    .update _ env _ expert, hdb'.trans hu⟩

/-! ### Why a submission fails -/

theorem settleGrade_error {env : Env} {db : Db} {expert : Expert} {task : Task} {grade : Grade}
    {f : Failure} (h : settleGrade env db expert task grade = .error f) :
    f = .integrity "consensus_task_id_key" ∨ f = .integrity "attention_results_pkey" := by
  simp only [settleGrade, bind_error_iff] at h
  rcases h with h | ⟨db₁, _, h⟩
  · unfold roundIfComplete at h
    split_ifs at h
    · exact Or.inl (consensusEvaluate_error (map_error_iff.mp h))
    · exact absurd h (by simp)
  · simp only [checkGrade, bind_error_iff] at h
    rcases h with h | ⟨⟨db₂, result⟩, _, h⟩
    · exact Or.inr (attentionEvaluate_error h)
    · split at h <;> exact absurd h (by simp)

/-- The unique constraint on grades is the only one a submission breaks by its grade. -/
theorem submit_uq {env : Env} {db : Db} {expertId : Uuid} {body : GradeCreate}
    (h : submit env db expertId body = .error (.integrity "uq_grade_task_expert")) :
    ∃ expert task grade, db.experts.get expertId = some expert ∧
      db.tasks.get body.taskId = some task ∧ task.status = .assigned ∧
      task.assignedExpertId = some expert.id ∧ grade.id = env.uuid4 0 ∧ grade.taskId = task.id ∧
      grade.expertId = expert.id ∧ db.grades.insert grade = none := by
  simp only [submit, currentExpert, bind_error_iff, require_error_iff, orFail_error_iff,
    require_ok_iff, orFail_ok_iff, reduceCtorEq, and_false, false_or, exists_const] at h
  obtain ⟨_, expert, he, task, ht, ⟨hs, hh⟩, hrest⟩ := h
  rcases hrest with ⟨_, hf⟩ | ⟨rubric, _, _, _, hm⟩
  · exact absurd hf (by decide)
  · split at hm
    · exact absurd hm (by simp)
    · simp only [bind_error_iff, orFail_error_iff, orFail_ok_iff, pure_error_iff, and_false,
        exists_false, or_false] at hm
      rcases hm with ⟨hins, _⟩ | ⟨grades, _, hsettle⟩
      · exact ⟨expert, task, _, he, ht, hs, hh, rfl, rfl, rfl, hins⟩
      · rcases settleGrade_error hsettle with hf | hf <;> exact absurd hf (by decide)

end Panelist
