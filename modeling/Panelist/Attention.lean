import Panelist.Payouts

/-! `panelist.services.attention`: golden tasks, the rolling pass rate and the guard. -/
namespace Panelist
open Relational Transaction

/-- The deviations `evaluate` takes the maximum of; a missing key scores 0. -/
def deviations (expected snapshot : Dict ℚ) : List ℚ :=
  expected.rows.map (fun kv => |(lookup snapshot kv.1).getD 0 - kv.2|)

/-- Whether the task has a non-empty map of expected scores. -/
def Task.expected (task : Task) : Option (Dict ℚ) :=
  if task.isAttentionCheck then task.expectedScores.filter (fun d => !d.rows.isEmpty) else none

/-- `attention.evaluate`: compare a grade against the task's hidden expected scores. -/
def attentionEvaluate (env : Env) (db : Db) (task : Task) (grade : Grade) :
    Except Failure (Db × Option AttentionResult) :=
  match task.expected with
  | none => pure (db, none)
  | some expected => do
    -- `max(..., default=0)`: deviations are not negative
    let maxDev := (deviations expected grade.scoresSnapshot).foldl max 0
    let result : AttentionResult :=
      { id := env.uuid4 1
        taskId := task.id
        expertId := grade.expertId
        gradeId := grade.id
        passed := decide (maxDev ≤ env.settings.attentionTolerance)
        maxDeviation := maxDev
        createdAt := env.now }
    let results ← orFail (db.attentionResults.insert result) (.integrity "attention_results_pkey")
    pure ({ db with attentionResults := results }, some result)

/-- The newest results of an expert: `ORDER BY created_at DESC, id DESC LIMIT window`. -/
def recentChecks (db : Db) (expertId : Uuid) (window : ℕ) : List Bool :=
  (((db.attentionResults.rows.filter (fun a => a.expertId = expertId)).insertionSort
    (fun a b => b.createdAt < a.createdAt ∨ a.createdAt = b.createdAt ∧ b.id ≤ a.id)).take
      window).map AttentionResult.passed

/-- Pass rate over the most recent `attention_window` checks: (rate, passed, total). -/
def rollingPassRate (env : Env) (db : Db) (expertId : Uuid) : Option ℚ × ℕ × ℕ :=
  let recent := recentChecks db expertId env.settings.attentionWindow
  if recent = [] then (none, 0, 0)
  else
    let passed := recent.count true
    (some ((passed : ℚ) / recent.length), passed, recent.length)

def Expert.withStatus (status : ExpertStatus) (e : Expert) : Expert := { e with status := status }

/-- Whether the rolling rate calls for a pause. -/
def trips (env : Env) (db : Db) (expertId : Uuid) : Bool :=
  match rollingPassRate env db expertId with
  | (none, _, _) => false
  | (some rate, _, total) =>
    decide (env.settings.attentionMinChecks ≤ total) &&
      decide (rate < env.settings.attentionThreshold)

/-- `enforce`: pause the expert and withhold pending payouts when the rolling rate
is too low. -/
def enforce (env : Env) (db : Db) (expert : Expert) : Db × Bool :=
  if trips env db expert.id = false then (db, false)
  -- no second pause, and no second event
  else if expert.status = .paused then (db, false)
  else
    let db := { db with
      experts := db.experts.update expert.id (Expert.withStatus .paused)
      payouts := db.payouts.updateWhere (Payout.ofExpert expert.id .pending) Payout.withhold }
    (record db "system" "expert.paused" "expert" expert.id.str, true)

/-- A check result is one inserted row, or nothing happens. -/
theorem attentionEvaluate_ok {env : Env} {db db' : Db} {task : Task} {grade : Grade}
    {result : Option AttentionResult}
    (h : attentionEvaluate env db task grade = .ok (db', result)) :
    db' = db ∧ result = none ∧ task.expected = none ∨
      ∃ row results, result = some row ∧ (row.expertId = grade.expertId ∧ row.createdAt = env.now) ∧
        db.attentionResults.insert row = some results ∧
        db' = { db with attentionResults := results } := by
  unfold attentionEvaluate at h
  split at h
  · obtain ⟨rfl, rfl⟩ := Prod.mk.inj (pure_ok_iff.mp h)
    exact Or.inl ⟨rfl, rfl, by assumption⟩
  · simp only [bind_ok_iff, orFail_ok_iff, pure_ok_iff, Prod.mk.injEq] at h
    obtain ⟨results, hins, rfl, rfl⟩ := h
    exact Or.inr ⟨_, results, rfl, ⟨rfl, rfl⟩, hins, rfl⟩

theorem attentionEvaluate_error {env : Env} {db : Db} {task : Task} {grade : Grade} {f : Failure}
    (h : attentionEvaluate env db task grade = .error f) :
    f = .integrity "attention_results_pkey" := by
  unfold attentionEvaluate at h
  split at h
  · exact absurd h (by simp)
  · simp only [bind_error_iff, orFail_error_iff, pure_error_iff, and_false, exists_false,
      or_false] at h
    exact h.2.symm

/-- The guard does nothing, or pauses the expert and withholds what was pending. -/
theorem enforce_cases (env : Env) (db : Db) (expert : Expert) :
    (enforce env db expert).1 = db ∨ expert.status ≠ .paused ∧ ∃ events,
      (enforce env db expert).1 = { db with
        experts := db.experts.update expert.id (Expert.withStatus .paused)
        payouts := db.payouts.updateWhere (Payout.ofExpert expert.id .pending) Payout.withhold
        auditEvents := events } := by
  unfold enforce
  split
  · exact Or.inl rfl
  split
  · exact Or.inl rfl
  · rename_i hp
    exact Or.inr ⟨hp, _, rfl⟩

end Panelist
