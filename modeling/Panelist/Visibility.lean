import Panelist.Golden

/-! `panelist.schemas` as an expert reads it, and what a submission on a task with
hidden columns lets its author see. `created_at` of an expert never changes and is
left out. -/
namespace Panelist
open Relational Transaction Serial

structure CriterionOut where
  id : Uuid
  key : String
  label : String
  weight : ℚ
  scaleMin : ℤ
  scaleMax : ℤ
  position : ℕ

structure RubricOut where
  id : Uuid
  name : String
  version : ℤ
  criteria : List CriterionOut
  supersededAt : Option Time
  supersededById : Option Uuid

/-- What an expert sees. Never exposes attention-check fields. -/
structure TaskExpertView where
  id : Uuid
  prompt : String
  responses : List Json
  taskType : String
  rubric : RubricOut
  deadline : Option Time
  leaseExpiresAt : Option Time

structure GradeOut where
  id : Uuid
  taskId : Uuid
  expertId : Uuid
  rubricId : Uuid
  scoresSnapshot : Dict ℚ
  rationale : String
  timeSpentSeconds : ℕ
  weightedScore : ℚ
  submittedAt : Time

structure ExpertOut where
  id : Uuid
  name : String
  tags : List String
  tier : Tier
  taskRateCents : Option ℤ
  status : ExpertStatus
  servedCount : ℕ
  calibrationScore : Option ℚ
  calibrationSamples : ℕ

def RubricCriterion.out (c : RubricCriterion) : CriterionOut :=
  ⟨c.id, c.key, c.label, c.weight, c.scaleMin, c.scaleMax, c.position⟩

def Rubric.out (db : Db) (r : Rubric) : RubricOut :=
  ⟨r.id, r.name, r.version, (criteriaOf db r.id).map RubricCriterion.out, r.supersededAt,
    r.supersededById⟩

def Task.expertView (t : Task) (rubric : RubricOut) : TaskExpertView :=
  ⟨t.id, t.prompt, t.responses, t.taskType, rubric, t.deadline, t.leaseExpiresAt⟩

def Grade.out (g : Grade) : GradeOut :=
  ⟨g.id, g.taskId, g.expertId, g.rubricId, g.scoresSnapshot, g.rationale, g.timeSpentSeconds,
    g.weightedScore, g.submittedAt⟩

def Expert.out (e : Expert) : ExpertOut :=
  ⟨e.id, e.name, e.tags, e.tier, e.taskRateCents, e.status, e.servedCount, e.calibrationScore,
    e.calibrationSamples⟩

/-- `GET /experts/me`. -/
def me (db : Db) (expertId : Uuid) : Except Failure ExpertOut :=
  Expert.out <$> currentExpert db expertId

/-- The claim view of a task as `db` stores it. -/
def claimView (db : Db) (taskId : Uuid) : Option TaskExpertView :=
  (db.tasks.get taskId).bind (fun t =>
    (db.rubrics.get t.rubricId).map (fun r => t.expertView (r.out db)))

/-- `POST /tasks/{id}/claim`: the claim view, which the answer is the only way to read. -/
def claimTask (env : Env) (db : Db) (expertId taskId : Uuid) :
    Except Failure (Option TaskExpertView) :=
  (fun p => claimView p.1 taskId) <$> claimById env db expertId taskId

/-- What the author of a submission reads after it: the answer, the task and their own row. -/
structure Seen where
  claim : Except Failure (Option TaskExpertView)
  grade : GradeOut
  me : Except Failure ExpertOut

/-- `db` is the state that a submission of `expertId` left, which was answered with `grade`. -/
def seen (env : Env) (db : Db) (taskId expertId : Uuid) (grade : Grade) : Seen :=
  ⟨claimTask env db expertId taskId, grade.out, me db expertId⟩

/-- The two columns of a task that no expert is shown. -/
structure Hidden where
  isAttentionCheck : Bool
  expectedScores : Option (Dict ℚ)

def Task.withHidden (h : Hidden) (t : Task) : Task :=
  { t with isAttentionCheck := h.isAttentionCheck, expectedScores := h.expectedScores }

/-- `db` with other hidden columns in one task. -/
def Db.withHidden (db : Db) (taskId : Uuid) (h : Hidden) : Db :=
  { db with tasks := db.tasks.update taskId (Task.withHidden h) }

/-- The expected scores a submission on the task is compared with, if any. -/
def Hidden.expected (h : Hidden) : Option (Dict ℚ) :=
  if h.isAttentionCheck then h.expectedScores.filter (fun d => !d.rows.isEmpty) else none

/-- A recalibration of `e` in `db` leaves the columns its expert reads as they are. -/
def Unmoved (env : Env) (db : Db) (e : Expert) : Prop :=
  (e.calibrationScore, e.calibrationSamples) = score env db e.id ∧ tierMove env db e = none

/-- `scores` come within the tolerance of the expected scores, when there are any. -/
def Hidden.passedBy (h : Hidden) (env : Env) (scores : Dict ℚ) : Prop :=
  ∀ expected, h.expected = some expected →
    (deviations expected scores).foldl max 0 ≤ env.settings.attentionTolerance

/-- The row of a task that received a grade, which `db` holds already. -/
def settledRow (env : Env) (db : Db) (t : Task) : Task :=
  if t.graded.status = .submitted ∧ 2 ≤ (unrejected db t.id).length ∧
      (newRound env t.id (unrejected db t.id)).status ≠ .agreed then
    t.graded.withStatus .adjudication
  else t.graded

/-- The answer to a claim of a task that nobody holds. -/
def claimAnswer (env : Env) (db : Db) (x : ExpertOut) (t : Task) :
    Except Failure (Option TaskExpertView) := do
  require (x.status = .active) (.http 423 s!"expert is {x.status.value}")
  require (t.status = .queued) (.http 409 s!"task is {t.status.value}")
  require (overlap t.requiredTags x.tags)
    (.http 403 "task requires expertise the expert does not have")
  require (t.minTier.rank ≤ x.tier.rank) (.http 403 "task requires a higher tier")
  pure ((db.rubrics.get t.rubricId).map (fun r => (t.assignTo env x.id).expertView (r.out db)))

section Claims
variable {env : Env} {db db' : Db} {t : Task} {x : Expert}

theorem claimTask_eq (hx : db.experts.get x.id = some x) (ht : db.tasks.get t.id = some t)
    (hfree : t.status ≠ .assigned) : claimTask env db x.id t.id = claimAnswer env db x.out t := by
  have hlease : t.leaseExpired env.now = false := by simp [Task.leaseExpired, hfree]
  -- no lease of this task runs out, as it is not assigned
  have hget : (reclaimExpired env db).1.tasks.get t.id = some t := by
    refine (Table.get_updateWhere _ _ Task.reclaimed (fun _ => rfl) _).trans ?_
    rw [ht, Option.map_some, if_neg (by rw [hlease]; decide)]
  have hview : claimView (assign env (reclaimExpired env db).1 t x).1 t.id =
      (db.rubrics.get t.rubricId).map (fun r => (t.assignTo env x.id).expertView (r.out db)) := by
    have hrow : (assign env (reclaimExpired env db).1 t x).1.tasks.get t.id =
        some (t.assignTo env x.id) := by
      refine (Table.get_update _ _ (Task.assignTo env x.id) (fun _ => rfl) _).trans ?_
      rw [if_pos rfl, hget]
      rfl
    rw [claimView, hrow]
    rfl
  have hcurrent : currentExpert db x.id = .ok x := by
    rw [currentExpert, hx]
    rfl
  unfold claimTask claimById claimAnswer
  rw [hcurrent]
  show _ <$> (require (x.status = .active) _ >>= _) = require (x.status = .active) _ >>= _
  -- then the checks one after another, in the order of `claim_by_id`
  by_cases hactive : x.status = .active
  swap
  · rw [require_neg hactive, require_neg hactive]
    rfl
  rw [require_pos hactive, require_pos hactive]
  show _ <$> (orFail ((reclaimExpired env db).1.tasks.get t.id) _ >>= _) =
    require (t.status = .queued) _ >>= _
  rw [hget]
  show _ <$> (require (t.status = .queued) _ >>= _) = require (t.status = .queued) _ >>= _
  by_cases hqueued : t.status = .queued
  swap
  · rw [require_neg hqueued, require_neg hqueued]
    rfl
  rw [require_pos hqueued, require_pos hqueued]
  show _ <$> (require (overlap t.requiredTags x.tags = true) _ >>= _) =
    require (overlap t.requiredTags x.tags = true) _ >>= _
  by_cases htags : overlap t.requiredTags x.tags = true
  swap
  · rw [require_neg htags, require_neg htags]
    rfl
  rw [require_pos htags, require_pos htags]
  show _ <$> (require (t.minTier.rank ≤ x.tier.rank) _ >>= _) =
    require (t.minTier.rank ≤ x.tier.rank) _ >>= _
  by_cases htier : t.minTier.rank ≤ x.tier.rank
  swap
  · rw [require_neg htier, require_neg htier]
    rfl
  rw [require_pos htier, require_pos htier]
  exact congrArg Except.ok hview

theorem Rounds.row {tasks : Table Task} {consensus : Table Consensus}
    (h : Rounds env db t tasks consensus) (ht : db.tasks.get t.id = some t) :
    tasks.get t.id = some (settledRow env db t) := by
  have hupdate {f : Task → Task} (hf : Table.Keeps f) :
      (db.tasks.update t.id f hf).get t.id = some (f t) := by
    rw [Table.get_update, if_pos rfl, ht]
    rfl
  unfold settledRow
  cases h with
  | none hfew =>
    rw [if_neg (fun hs => absurd (hfew hs.1) (not_lt.mpr hs.2.1))]
    exact hupdate (f := Task.graded) (fun _ => rfl)
  | agreed hc hl hs =>
    rw [if_neg (fun hsplit => hsplit.2.2 hs)]
    exact hupdate (f := Task.graded) (fun _ => rfl)
  | split hc hl hs =>
    rw [if_pos ⟨hc, hl, hs⟩]
    exact hupdate (f := fun t => t.graded.withStatus .adjudication) (fun _ => rfl)

theorem settledRow_unassigned : (settledRow env db t).status ≠ .assigned := by
  unfold settledRow
  split_ifs
  · simp [Task.withStatus]
  · unfold Task.graded
    dsimp only
    split_ifs <;> simp

theorem settledRow_id : (settledRow env db t).id = t.id := by
  unfold settledRow
  split_ifs <;> rfl

/-- A golden task goes back to its queue. -/
theorem settledRow_golden (hg : t.isAttentionCheck = true) :
    (settledRow env db t).status = .queued := by
  have hgraded : t.graded.status = .queued := if_pos (Or.inl hg)
  rw [settledRow, if_neg (fun h => absurd (hgraded.symm.trans h.1) (by decide)), hgraded]

theorem settledRow_regular (hg : t.isAttentionCheck = false) (hone : t.requiredGrades = 1) :
    (settledRow env db t).status ≠ .queued := by
  have hgraded : t.graded.status = .submitted := if_neg (by simp [hg, hone])
  unfold settledRow
  split_ifs
  · simp [Task.withStatus]
  · simp [hgraded]

theorem claimAnswer_congr (hr : db.rubrics = db'.rubrics)
    (hc : db.rubricCriteria = db'.rubricCriteria) (x : ExpertOut) (t : Task) :
    claimAnswer env db x t = claimAnswer env db' x t := by
  have hout (r : Rubric) : r.out db = r.out db' := by
    simp only [Rubric.out, criteriaOf, hc]
  simp only [claimAnswer, hr, hout]

theorem claimAnswer_inactive {x : ExpertOut} (h : x.status ≠ .active) (t : Task) :
    claimAnswer env db x t = .error (.http 423 s!"expert is {x.status.value}") := by
  rw [claimAnswer, require_neg h]

theorem claimAnswer_taken {x : ExpertOut} (hx : x.status = .active) (ht : t.status ≠ .queued) :
    claimAnswer env db x t = .error (.http 409 s!"task is {t.status.value}") := by
  rw [claimAnswer, require_pos hx]
  show require (t.status = .queued) _ >>= _ = _
  rw [require_neg ht]

/-- A claim of queued work is never answered with a conflict. -/
theorem claimAnswer_queued {x : ExpertOut} (hx : x.status = .active) (ht : t.status = .queued)
    (detail : String) : claimAnswer env db x t ≠ .error (.http 409 detail) := by
  intro h
  rw [claimAnswer, require_pos hx] at h
  change require (t.status = .queued) _ >>= _ = _ at h
  rw [require_pos ht] at h
  change require (overlap t.requiredTags x.tags = true) _ >>= _ = _ at h
  by_cases htags : overlap t.requiredTags x.tags = true
  swap
  · rw [require_neg htags] at h
    exact absurd (Failure.http.inj (Except.error.inj h)).1 (by decide)
  rw [require_pos htags] at h
  change require (t.minTier.rank ≤ x.tier.rank) _ >>= _ = _ at h
  by_cases htier : t.minTier.rank ≤ x.tier.rank
  swap
  · rw [require_neg htier] at h
    exact absurd (Failure.http.inj (Except.error.inj h)).1 (by decide)
  rw [require_pos htier] at h
  exact absurd h (by simp)

end Claims

section Recalibration
variable {env : Env} {db : Db} {e : Expert}

theorem tierMove_ne {tier : Tier} (h : tierMove env db e = some tier) : tier ≠ e.tier := by
  unfold tierMove at h
  split at h
  · exact absurd h (by simp)
  · split_ifs at h with hfew hsame
    rw [← Option.some.inj h]
    exact hsame

/-- An expert cannot see a recalibration exactly when it leaves the row unmoved. -/
theorem out_recalibrated_iff : (recalibrated env db e e).out = e.out ↔ Unmoved env db e := by
  unfold recalibrated Unmoved
  cases hm : tierMove env db e with
  | none =>
    simp only [Option.elim_none, Expert.out, Expert.calibrated, ExpertOut.mk.injEq, true_and,
      and_true, Prod.ext_iff]
    exact and_congr eq_comm eq_comm
  | some tier =>
    refine iff_of_false (fun h => tierMove_ne hm ?_) (by simp)
    exact congrArg ExpertOut.tier h

/-- Two passed checks of one expert at one time count the same. -/
theorem score_congr (db : Db) {db₁ db₂ : Db} {a₁ a₂ : AttentionResult}
    {results₁ results₂ : Table AttentionResult}
    (h₁ : db.attentionResults.insert a₁ = some results₁)
    (h₂ : db.attentionResults.insert a₂ = some results₂) (hexp : a₁.expertId = a₂.expertId)
    (hpass : a₁.passed = a₂.passed) (htime : a₁.createdAt = a₂.createdAt)
    (hdb₁ : db₁ = { db with attentionResults := results₁ })
    (hdb₂ : db₂ = { db with attentionResults := results₂ }) (k : Uuid) :
    score env db₁ k = score env db₂ k := by
  have hsignals : signals db₁ k env.settings.calibrationWindow =
      signals db₂ k env.settings.calibrationWindow := by
    rw [hdb₁, hdb₂]
    simp only [signals, (Table.insert_eq_some.mp h₁).2, (Table.insert_eq_some.mp h₂).2,
      List.filter_append, List.filter_singleton, List.map_append, hexp]
    by_cases hk : a₂.expertId = k
    · simp [hk, hpass, htime, gradeExpert]
    · simp [hk, gradeExpert]
  simp only [score, hsignals]

end Recalibration

section Submission
variable {env : Env} {db db' : Db} {body : GradeCreate} {grade : Grade} {t : Task} {e : Expert}

/-- What a submission that passes, or is not checked at all, does to its author's row. -/
theorem submit_author (hsub : submit env db e.id body = .ok (db', grade))
    (ht : db.tasks.get body.taskId = some t) (he : db.experts.get e.id = some e)
    (hpass : ∀ expected, t.expected = some expected →
      (deviations expected body.scores).foldl max 0 ≤ env.settings.attentionTolerance) :
    grade = body.row env t e t.gradingRubricId (criteriaOf db t.gradingRubricId) ∧
      ∃ grades, db.grades.insert grade = some grades ∧
        (t.expected = none ∧ db'.experts.get e.id = some e ∨
          ∃ a results, t.expected.isSome ∧ a.expertId = e.id ∧ a.passed = true ∧
            a.createdAt = env.now ∧ db.attentionResults.insert a = some results ∧
            db'.experts.get e.id = some (recalibrated env
              { db with grades := grades, attentionResults := results } e e)) := by
  obtain ⟨-, x, t', rubric, grades, hx, ht', -, hrub, -, -, hgrade, hins, hsettle⟩ :=
    submit_ok_iff.mp hsub
  obtain rfl := Option.some.inj (he.symm.trans hx)
  obtain rfl := Option.some.inj (ht.symm.trans ht')
  have hrid : rubric.id = t.gradingRubricId := Table.get_pk hrub
  rw [hrid] at hgrade
  refine ⟨hgrade, grades, hins, ?_⟩
  simp only [settleGrade, bind_ok_iff] at hsettle
  obtain ⟨db₁, hround, hcheck⟩ := hsettle
  obtain ⟨tasks, consensus, events, -, rfl⟩ :=
    roundIfComplete_ok { db with grades := grades } hround
  -- only a golden task with expected scores stores a check and moves the author
  cases hexp : t.expected with
  | none =>
    rw [checkGrade, attentionEvaluate, hexp] at hcheck
    obtain rfl := pure_ok_iff.mp hcheck
    exact Or.inl ⟨rfl, he⟩
  | some expected =>
    obtain ⟨results, hres, rfl⟩ := (checkGrade_golden hexp).mp hcheck
    have hpassed : (checkRow env t grade expected).passed = true := by
      refine decide_eq_true ?_
      rw [hgrade]
      exact hpass expected hexp
    refine Or.inr ⟨checkRow env t grade expected, results, rfl, by rw [hgrade]; rfl, hpassed, rfl,
      hres, ?_⟩
    rw [afterCheck, if_pos hpassed]
    obtain ⟨changes, events', hu⟩ := calibrationUpdate_eq env _ e "system"
    rw [hu]
    refine (Table.get_update _ _ _ (recalibrated_keeps _ _ _) _).trans ?_
    rw [if_pos rfl]
    change (db.experts.get e.id).map _ = _
    rw [he]
    rfl

theorem recalibrated_id (x : Expert) : (recalibrated env db e x).id = x.id := by
  unfold recalibrated
  cases tierMove env db e <;> rfl

theorem recalibrated_status (x : Expert) : (recalibrated env db e x).status = x.status := by
  unfold recalibrated
  cases tierMove env db e <;> rfl

theorem recalibrated_congr {db₁ db₂ : Db} (h : score env db₁ e.id = score env db₂ e.id) :
    recalibrated env db₁ e = recalibrated env db₂ e := by
  funext x
  simp only [recalibrated, tierMove, h]

theorem me_eq {x : Expert} (h : db.experts.get e.id = some x) : me db e.id = .ok x.out := by
  rw [me, currentExpert, h]
  rfl

theorem get_withHidden (h : Hidden) (ht : db.tasks.get t.id = some t) :
    (db.withHidden t.id h).tasks.get t.id = some (t.withHidden h) := by
  refine (Table.get_update _ _ (Task.withHidden h) (fun _ => rfl) _).trans ?_
  rw [if_pos rfl, ht]
  rfl

/-- The task that a submission leaves, and the rubric tables beside it. -/
theorem submit_task {h : Hidden}
    (hsub : submit env (db.withHidden t.id h) e.id body = .ok (db', grade))
    (ht : db.tasks.get t.id = some t) (hbody : body.taskId = t.id) {grades : Table Grade}
    (hins : db.grades.insert grade = some grades) :
    db'.tasks.get t.id = some (settledRow env { db with grades := grades } (t.withHidden h)) ∧
      db'.rubrics = db.rubrics ∧ db'.rubricCriteria = db.rubricCriteria := by
  have hget : (db.withHidden t.id h).tasks.get body.taskId = some (t.withHidden h) := by
    rw [hbody]
    exact get_withHidden h ht
  obtain ⟨x, t', rubric, grades', tasks, consensus, events, -, ht', -, -, -, -, hins', hround,
    hcheck⟩ := submit_ok hsub
  obtain rfl := Option.some.inj (hget.symm.trans ht')
  obtain rfl := Option.some.inj (hins.symm.trans hins')
  obtain ⟨results, changes, events', experts, payouts, -, experts', -, rfl⟩ := checkGrade_ok hcheck
  have hrow : (t.withHidden h).id = t.id := rfl
  exact ⟨hround.row (hrow.symm ▸ get_withHidden h ht), rfl, rfl⟩

/-- What a claim of the task is answered right after the submission. -/
theorem submit_claim (env' : Env) {h : Hidden} {x : Expert}
    (hsub : submit env (db.withHidden t.id h) e.id body = .ok (db', grade))
    (ht : db.tasks.get t.id = some t) (hbody : body.taskId = t.id) {grades : Table Grade}
    (hins : db.grades.insert grade = some grades) (hx : db'.experts.get x.id = some x) :
    claimTask env' db' x.id t.id =
      claimAnswer env' db x.out (settledRow env { db with grades := grades } (t.withHidden h)) := by
  obtain ⟨hrow, hrubrics, hcriteria⟩ := submit_task hsub ht hbody hins
  have hid : (settledRow env { db with grades := grades } (t.withHidden h)).id = t.id :=
    settledRow_id
  rw [← hid, claimTask_eq hx (hid.symm ▸ hrow) settledRow_unassigned]
  exact claimAnswer_congr hrubrics hcriteria _ _

/-- Two settled rows of one task are answered alike when both or neither are golden,
and as long as the expert may not claim at all. -/
theorem claimAnswer_hidden_iff {env' : Env} {x : ExpertOut} (hone : t.requiredGrades = 1)
    (h₁ h₂ : Hidden) :
    claimAnswer env' db x (settledRow env db' (t.withHidden h₁)) =
        claimAnswer env' db x (settledRow env db' (t.withHidden h₂)) ↔
      h₁.isAttentionCheck = h₂.isAttentionCheck ∨ x.status ≠ .active := by
  obtain ⟨check₁, expected₁⟩ := h₁
  obtain ⟨check₂, expected₂⟩ := h₂
  by_cases hactive : x.status = .active
  swap
  · rw [claimAnswer_inactive hactive, claimAnswer_inactive hactive]
    exact iff_of_true rfl (Or.inr hactive)
  -- a golden task is queued again, a regular one of one grader is not
  have hne {expected expected' : Option (Dict ℚ)} :
      claimAnswer env' db x (settledRow env db' (t.withHidden ⟨true, expected⟩)) ≠
        claimAnswer env' db x (settledRow env db' (t.withHidden ⟨false, expected'⟩)) := by
    have hregular : (settledRow env db' (t.withHidden ⟨false, expected'⟩)).status ≠ .queued :=
      settledRow_regular rfl hone
    rw [claimAnswer_taken hactive hregular]
    exact claimAnswer_queued hactive (settledRow_golden rfl) _
  by_cases hsame : check₁ = check₂
  · subst hsame
    refine iff_of_true ?_ (Or.inl rfl)
    unfold settledRow
    split_ifs with hl hr hr
    · rfl
    · exact absurd hl hr
    · exact absurd hr hl
    · rfl
  · refine iff_of_false ?_ (by simp [hsame, hactive])
    cases check₁ <;> cases check₂
    · exact absurd rfl hsame
    · exact hne.symm
    · exact hne
    · exact absurd rfl hsame

/-- The row of the author after a submission on a task with the hidden columns `h`. -/
theorem submit_hidden {h : Hidden}
    (hsub : submit env (db.withHidden t.id h) e.id body = .ok (db', grade))
    (ht : db.tasks.get t.id = some t) (hbody : body.taskId = t.id)
    (he : db.experts.get e.id = some e) (hpass : h.passedBy env body.scores) :
    grade = body.row env t e t.gradingRubricId (criteriaOf db t.gradingRubricId) ∧
      ∃ grades x, db.grades.insert grade = some grades ∧ db'.experts.get x.id = some x ∧
        x.id = e.id ∧ x.status = e.status ∧
        (h.expected = none ∧ x = e ∨
          ∃ a results, h.expected.isSome ∧ a.expertId = e.id ∧ a.passed = true ∧
            a.createdAt = env.now ∧ db.attentionResults.insert a = some results ∧
            x = recalibrated env
              { db with grades := grades, attentionResults := results } e e) := by
  have hget : (db.withHidden t.id h).tasks.get body.taskId = some (t.withHidden h) := by
    rw [hbody]
    exact get_withHidden h ht
  -- the hidden columns decide only whether a check is stored with the grade
  obtain ⟨hgrade, grades, hins, hrow⟩ := submit_author hsub hget he hpass
  rcases hrow with ⟨hnone, hrow⟩ | ⟨a, results, hsome, hexp, hpassed, htime, hres, hrow⟩
  · exact ⟨hgrade, grades, e, hins, hrow, rfl, rfl, Or.inl ⟨hnone, rfl⟩⟩
  · refine ⟨hgrade, grades, _, hins, ?_, recalibrated_id e, recalibrated_status e,
      Or.inr ⟨a, results, hsome, hexp, hpassed, htime, hres, rfl⟩⟩
    rw [recalibrated_id]
    exact hrow

section Passing
variable {env : Env} {db : Db} {e : Expert} {row : Grade} {grades : Table Grade}
  {a a' : AttentionResult} {results results' : Table AttentionResult}

/-- One passed check is as good as another. -/
theorem recalibrated_passed (hexp : a.expertId = e.id) (hexp' : a'.expertId = e.id)
    (hp : a.passed = true) (hp' : a'.passed = true) (htime : a.createdAt = env.now)
    (htime' : a'.createdAt = env.now) (hres : db.attentionResults.insert a = some results)
    (hres' : db.attentionResults.insert a' = some results') :
    recalibrated env { db with grades := grades, attentionResults := results } e =
      recalibrated env { db with grades := grades, attentionResults := results' } e :=
  recalibrated_congr (score_congr { db with grades := grades } hres hres'
    (hexp.trans hexp'.symm) (hp.trans hp'.symm) (htime.trans htime'.symm) rfl rfl e.id)

/-- A passed check leaves what the expert reads of themselves exactly if any would. -/
theorem out_passed_iff (hins : db.grades.insert row = some grades) (hexp : a.expertId = e.id)
    (hp : a.passed = true) (htime : a.createdAt = env.now)
    (hres : db.attentionResults.insert a = some results) :
    (recalibrated env { db with grades := grades, attentionResults := results } e e).out = e.out ↔
      ∀ grades a results, db.grades.insert row = some grades →
        a.expertId = e.id → a.passed = true → a.createdAt = env.now →
        db.attentionResults.insert a = some results →
        Unmoved env { db with grades := grades, attentionResults := results } e := by
  constructor
  · intro hout grades' a' results' hins' hexp' hp' htime' hres'
    obtain rfl := Option.some.inj (hins.symm.trans hins')
    rw [← out_recalibrated_iff, ← recalibrated_passed hexp hexp' hp hp' htime htime' hres hres']
    exact hout
  · intro h
    exact out_recalibrated_iff.mpr (h grades a results hins hexp hp htime hres)

end Passing

end Submission

/-- Two runs that differ in the hidden columns of a task show the expert whose accepted
grade passes the same, exactly when both or neither are golden, unless the expert may not
claim anything, and both or neither store a check, unless one more passed check leaves the
expert's tier, score and sample count as they were. -/
theorem passed_check_hidden_iff {env env' : Env} {db db₁ db₂ : Db} {t : Task} {e : Expert}
    {body : GradeCreate} {h₁ h₂ : Hidden} {g₁ g₂ : Grade}
    (ht : db.tasks.get t.id = some t) (he : db.experts.get e.id = some e)
    (hbody : body.taskId = t.id) (hone : t.requiredGrades = 1)
    (hsub₁ : submit env (db.withHidden t.id h₁) e.id body = .ok (db₁, g₁))
    (hsub₂ : submit env (db.withHidden t.id h₂) e.id body = .ok (db₂, g₂))
    (hpass₁ : h₁.passedBy env body.scores) (hpass₂ : h₂.passedBy env body.scores) :
    seen env' db₁ t.id e.id g₁ = seen env' db₂ t.id e.id g₂ ↔
      (h₁.isAttentionCheck = h₂.isAttentionCheck ∨ e.status ≠ .active) ∧
      (h₁.expected.isSome = h₂.expected.isSome ∨
        ∀ grades a results, db.grades.insert (body.row env t e t.gradingRubricId
            (criteriaOf db t.gradingRubricId)) = some grades →
          a.expertId = e.id → a.passed = true → a.createdAt = env.now →
          db.attentionResults.insert a = some results →
          Unmoved env { db with grades := grades, attentionResults := results } e) := by
  obtain ⟨rfl, grades, x₁, hins, hx₁, hid₁, hst₁, hrow₁⟩ := submit_hidden hsub₁ ht hbody he hpass₁
  obtain ⟨rfl, grades', x₂, hins', hx₂, hid₂, hst₂, hrow₂⟩ :=
    submit_hidden hsub₂ ht hbody he hpass₂
  obtain rfl := Option.some.inj (hins.symm.trans hins')
  have hme₁ : me db₁ e.id = .ok x₁.out := hid₁ ▸ me_eq hx₁
  have hme₂ : me db₂ e.id = .ok x₂.out := hid₂ ▸ me_eq hx₂
  have hclaim₁ := submit_claim env' hsub₁ ht hbody hins hx₁
  have hclaim₂ := submit_claim env' hsub₂ ht hbody hins hx₂
  rw [hid₁] at hclaim₁
  rw [hid₂] at hclaim₂
  -- once the two rows of the expert read the same, only the status of the task is left
  have hclaim (hout : x₁.out = x₂.out) :
      claimTask env' db₁ e.id t.id = claimTask env' db₂ e.id t.id ↔
        h₁.isAttentionCheck = h₂.isAttentionCheck ∨ e.status ≠ .active := by
    rw [hclaim₁, hclaim₂, ← hout, claimAnswer_hidden_iff hone, ← hst₁]
    rfl
  have hout : x₁.out = x₂.out ↔ h₁.expected.isSome = h₂.expected.isSome ∨
      ∀ grades a results, db.grades.insert (body.row env t e t.gradingRubricId
          (criteriaOf db t.gradingRubricId)) = some grades →
        a.expertId = e.id → a.passed = true → a.createdAt = env.now →
        db.attentionResults.insert a = some results →
        Unmoved env { db with grades := grades, attentionResults := results } e := by
    -- neither run stores a check, one does, or both do
    rcases hrow₁ with ⟨hnone₁, rfl⟩ | ⟨a₁, results₁, hsome₁, hexp₁, hp₁, htime₁, hres₁, rfl⟩
    · rcases hrow₂ with ⟨hnone₂, rfl⟩ | ⟨a₂, results₂, hsome₂, hexp₂, hp₂, htime₂, hres₂, rfl⟩
      · simp [hnone₁, hnone₂]
      · rw [eq_comm, out_passed_iff hins hexp₂ hp₂ htime₂ hres₂]
        simp [hnone₁, hsome₂]
    · rcases hrow₂ with ⟨hnone₂, rfl⟩ | ⟨a₂, results₂, hsome₂, hexp₂, hp₂, htime₂, hres₂, rfl⟩
      · rw [out_passed_iff hins hexp₁ hp₁ htime₁ hres₁]
        simp [hnone₂, hsome₁]
      · rw [recalibrated_passed hexp₁ hexp₂ hp₁ hp₂ htime₁ htime₂ hres₁ hres₂]
        simp [hsome₁, hsome₂]
  rw [seen, seen, Seen.mk.injEq, hme₁, hme₂, Except.ok.injEq, ← hout]
  constructor
  · rintro ⟨hc, -, ho⟩
    exact ⟨(hclaim ho).mp hc, ho⟩
  · rintro ⟨hc, ho⟩
    exact ⟨(hclaim ho).mpr hc, rfl, ho⟩

namespace Scenario

/-- Expert 300 holds task 500 of one grader. -/
def held : Db := after (setup ++ [call 5 (.createTasks [task] "admin"), call 6 (.claimNext 300)])

def regular : Hidden := ⟨false, none⟩

def golden4 : Hidden := ⟨true, some (accuracy 4)⟩

end Scenario

open Scenario in
theorem held_passes {h : Hidden} (hh : h = regular ∨ h = golden4) :
    (∃ p, submit (env 7) (held.withHidden 500 h) 300 (grade 500 4) = .ok p) ∧
      h.passedBy (env 7) (accuracy 4) := by
  constructor
  · apply exists_of_isOk
    rcases hh with rfl | rfl <;> decide +kernel
  · intro expected hexp
    rcases hh with rfl | rfl
    · exact absurd hexp (by simp [Hidden.expected, regular])
    · obtain rfl : accuracy 4 = expected := Option.some.inj hexp
      decide +kernel

open Scenario in
/-- The golden task is queued again and one more passed check would show, so the runs differ. -/
theorem passed_check_hidden_held :
    ∃ db₁ db₂ g₁ g₂ t e, held.tasks.get t.id = some t ∧
      (seen (env 8) db₁ t.id e.id g₁ = seen (env 8) db₂ t.id e.id g₂ ↔
        (regular.isAttentionCheck = golden4.isAttentionCheck ∨ e.status ≠ .active) ∧
        (regular.expected.isSome = golden4.expected.isSome ∨
          ∀ grades a results, held.grades.insert ((grade 500 4).row (env 7) t e t.gradingRubricId
              (criteriaOf held t.gradingRubricId)) = some grades →
            a.expertId = e.id → a.passed = true → a.createdAt = (env 7).now →
            held.attentionResults.insert a = some results →
            Unmoved (env 7) { held with grades := grades, attentionResults := results } e)) := by
  have htask : ((held.tasks.get 500).map Task.requiredGrades) = some 1 := by decide +kernel
  have hexpert : (held.experts.get 300).isSome = true := by decide +kernel
  obtain ⟨t, ht, hone⟩ := Option.map_eq_some_iff.mp htask
  obtain ⟨e, he⟩ := Option.isSome_iff_exists.mp hexpert
  obtain ⟨⟨⟨db₁, g₁⟩, h₁⟩, hpass₁⟩ := held_passes (Or.inl rfl)
  obtain ⟨⟨⟨db₂, g₂⟩, h₂⟩, hpass₂⟩ := held_passes (Or.inr rfl)
  have htid : t.id = 500 := Table.get_pk ht
  have hid : e.id = 300 := Table.get_pk he
  have hsub₁ : submit (env 7) (held.withHidden t.id regular) e.id (grade 500 4) =
      .ok (db₁, g₁) := by
    rw [htid, hid]
    exact h₁
  have hsub₂ : submit (env 7) (held.withHidden t.id golden4) e.id (grade 500 4) =
      .ok (db₂, g₂) := by
    rw [htid, hid]
    exact h₂
  -- the theorem is about the rows, the runs about their ids
  rw [← htid] at ht
  rw [← hid] at he
  exact ⟨db₁, db₂, g₁, g₂, t, e, ht,
    passed_check_hidden_iff ht he htid.symm hone hsub₁ hsub₂ hpass₁ hpass₂⟩

open Scenario in
/-- The first signal of an expert shows in their own row when it comes from a check, and a
claim of the task is refused when it was no check. -/
theorem passed_check_shows :
    ∃ db₁ db₂ g₁ g₂,
      submit (env 7) (held.withHidden 500 regular) 300 (grade 500 4) = .ok (db₁, g₁) ∧
      submit (env 7) (held.withHidden 500 golden4) 300 (grade 500 4) = .ok (db₂, g₂) ∧
      regular.passedBy (env 7) (accuracy 4) ∧ golden4.passedBy (env 7) (accuracy 4) ∧
      me db₁ 300 ≠ me db₂ 300 ∧
      (claimTask (env 8) db₁ 300 500).isOk = false ∧
      (claimTask (env 8) db₂ 300 500).isOk = true := by
  obtain ⟨⟨⟨db₁, g₁⟩, h₁⟩, hpass₁⟩ := held_passes (Or.inl rfl)
  obtain ⟨⟨⟨db₂, g₂⟩, h₂⟩, hpass₂⟩ := held_passes (Or.inr rfl)
  -- what the key reads in each run: the samples, and whether the claim succeeds
  have hread (h : Hidden) (n : ℕ) (claims : Bool)
      (hh : h = regular ∧ n = 0 ∧ claims = false ∨ h = golden4 ∧ n = 1 ∧ claims = true) :
      (submit (env 7) (held.withHidden 500 h) 300 (grade 500 4)).toOption.map (fun p =>
        ((me p.1 300).toOption.map ExpertOut.calibrationSamples,
          (claimTask (env 8) p.1 300 500).isOk)) = some (some n, claims) := by
    rcases hh with ⟨rfl, rfl, rfl⟩ | ⟨rfl, rfl, rfl⟩ <;> decide +kernel
  have hs₁ := hread regular 0 false (Or.inl ⟨rfl, rfl, rfl⟩)
  have hs₂ := hread golden4 1 true (Or.inr ⟨rfl, rfl, rfl⟩)
  rw [h₁, Except.toOption, Option.map_some, Option.some_inj, Prod.mk.injEq] at hs₁
  rw [h₂, Except.toOption, Option.map_some, Option.some_inj, Prod.mk.injEq] at hs₂
  refine ⟨db₁, db₂, g₁, g₂, h₁, h₂, hpass₁, hpass₂, fun hme => ?_, hs₁.2, hs₂.2⟩
  rw [hme] at hs₁
  exact absurd (hs₁.1.symm.trans hs₂.1) (by decide)

end Panelist
