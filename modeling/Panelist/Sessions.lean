import Panelist.ReadCommitted
import Panelist.Standing

/-! The services as transactions, statement by statement. A row that was loaded before is
not read again: `SELECT … FOR UPDATE` waits for its lock and keeps the loaded values, and a
flush writes the columns that differ from them. Eager loads are reads of their own. -/
namespace Panelist
open Relational ReadCommitted ReadCommitted.Prog

/-- What a transaction can wait for: a row, or a value of a unique key. -/
inductive Lock where
  | expert (id : Uuid)
  | task (id : Uuid)
  | grade (id : Uuid)
  | gradeOf (taskId expertId : Uuid)
  | review (gradeId : Uuid)
  | consensus (taskId : Uuid)
  | payout (gradeId : Uuid)
  | payoutOf (taskId expertId : Uuid)
  | attentionResult (id : Uuid)
  | rubric (id : Uuid)
  | rubricVersion (name : String) (version : ℤ)
  | criterion (id : Uuid)
  deriving DecidableEq

abbrev Session (α : Type) := Prog Db Lock α

/-- A column after a flush: an attribute that was set to its loaded value is not written. -/
def flushed {α : Type} [DecidableEq α] (loaded new current : α) : α :=
  if new = loaded then current else new

def Task.flush (loaded new : Task) (t : Task) : Task :=
  { t with
    status := flushed loaded.status new.status t.status
    gradesReceived := flushed loaded.gradesReceived new.gradesReceived t.gradesReceived }

theorem Task.flush_keeps (loaded new : Task) : Table.Keeps (Task.flush loaded new) := fun _ => rfl

def Expert.flush (loaded new : Expert) (e : Expert) : Expert :=
  { e with
    tier := flushed loaded.tier new.tier e.tier
    calibrationScore := flushed loaded.calibrationScore new.calibrationScore e.calibrationScore
    calibrationSamples :=
      flushed loaded.calibrationSamples new.calibrationSamples e.calibrationSamples
    tierUpdatedAt := flushed loaded.tierUpdatedAt new.tierUpdatedAt e.tierUpdatedAt }

theorem Expert.flush_keeps (loaded new : Expert) : Table.Keeps (Expert.flush loaded new) :=
  fun _ => rfl

theorem Task.reclaimed_keeps : Table.Keeps Task.reclaimed := fun _ => rfl

theorem Task.assignTo_keeps (env : Env) (expertId : Uuid) :
    Table.Keeps (Task.assignTo env expertId) := fun _ => rfl

theorem Task.unassigned_keeps : Table.Keeps Task.unassigned := fun _ => rfl

theorem Task.graded_keeps : Table.Keeps Task.graded := fun _ => rfl

theorem Expert.withStatus_keeps (status : ExpertStatus) : Table.Keeps (Expert.withStatus status) :=
  fun _ => rfl

theorem Payout.withhold_keeps : Table.Keeps Payout.withhold := fun _ => rfl

namespace Session

/-- `audit.record`. -/
def log (actor action entityType entityId : String) : Session Unit :=
  set (fun db => record db actor action entityType entityId)

/-- `auth.current_expert`. -/
def expert (expertId : Uuid) : Session Expert := do
  let db ← see
  demandSome (db.experts.get expertId)

def taskRow (f : Task → Task) (hf : Table.Keeps f) (taskId : Uuid) (db : Db) : Db :=
  { db with tasks := db.tasks.update taskId f hf }

def expertRow (f : Expert → Expert) (hf : Table.Keeps f) (expertId : Uuid) (db : Db) : Db :=
  { db with experts := db.experts.update expertId f hf }

def expertExists (expertId : Uuid) (db : Db) : Bool := (db.experts.get expertId).isSome

def taskExists (taskId : Uuid) (db : Db) : Bool := (db.tasks.get taskId).isSome

/-! ### Routing -/

def reclaimExpired (env : Env) : Session ℕ :=
  updateWhere .task (fun db => (db.tasks.rows.filter (Task.leaseExpired env.now)).map Task.id)
    (fun id db => (db.tasks.get id).any (Task.leaseExpired env.now))
    (taskRow Task.reclaimed Task.reclaimed_keeps)

def setServed (n : ℕ) (e : Expert) : Expert := { e with servedCount := n }

theorem setServed_keeps (n : ℕ) : Table.Keeps (setServed n) := fun _ => rfl

/-- `_assign`: the count is the loaded one plus one. -/
def assign (env : Env) (task : Task) (expert : Expert) : Session Task := do
  updateRow (.expert expert.id) (expertExists expert.id)
    (expertRow (setServed (expert.servedCount + 1)) (setServed_keeps _) expert.id)
  -- the task is locked by the statement that picked it
  set (taskRow (Task.assignTo env expert.id) (Task.assignTo_keeps env expert.id) task.id)
  log s!"expert:{expert.id.str}" "task.assigned" "task" task.id.str
  pure (task.assignTo env expert.id)

/-- The tasks `_pick` considers, best first. -/
def candidates (expert : Expert) (wantAttention : Bool) (db : Db) : List Task :=
  (db.tasks.rows.filter (fun t =>
    eligibility db expert t && (t.isAttentionCheck == wantAttention))).insertionSort
      (fun a b => pickBefore a b)

def lockedTask (row : Option Lock) (db : Db) : Option Task :=
  match row with
  -- the row as it was when the lock was granted
  | some (.task id) => db.tasks.get id
  | _ => none

/-- `_pick`. -/
def pick (expert : Expert) (wantAttention : Bool) : Session (Option Task) := do
  let (row, db) ← claimFirst (fun db => (candidates expert wantAttention db).map
    (fun t => Lock.task t.id))
  pure (lockedTask row db)

def claimNext (env : Env) (expertId : Uuid) : Session (Option Task) := do
  let expert ← Session.expert expertId
  demand (expert.status = .active)
  let _ ← reclaimExpired env
  -- two statements: what one skips as locked the other may find free
  let golden ← (if prefersAttentionCheck env expert.id (expert.servedCount + 1) then
    pick expert true else pure none : Session (Option Task))
  let task ← (if golden.isSome then pure golden else pick expert false : Session (Option Task))
  match task with
  | none => pure none
  | some task => do
    let task ← assign env task expert
    pure (some task)

def claimById (env : Env) (expertId taskId : Uuid) : Session Task := do
  let expert ← Session.expert expertId
  demand (expert.status = .active)
  let _ ← reclaimExpired env
  -- `FOR UPDATE SKIP LOCKED`: a row held elsewhere reads as missing
  let (row, db) ← claimFirst (fun db => if taskExists taskId db then [Lock.task taskId] else [])
  let task ← demandSome (lockedTask row db)
  demand (task.status = .queued)
  demand (overlap task.requiredTags expert.tags)
  demand (task.minTier.rank ≤ expert.tier.rank)
  assign env task expert

/-- `SELECT … FROM tasks WHERE id = … FOR UPDATE`. -/
def lockTask (taskId : Uuid) : Session Db := forUpdate (.task taskId) (taskExists taskId)

def release (expertId taskId : Uuid) : Session Task := do
  let expert ← Session.expert expertId
  let db ← lockTask taskId
  let task ← demandSome (db.tasks.get taskId)
  demand (task.status = .assigned ∧ task.assignedExpertId = some expert.id)
  set (taskRow Task.unassigned Task.unassigned_keeps task.id)
  log s!"expert:{expert.id.str}" "task.released" "task" task.id.str
  pure task.unassigned

/-! ### Calibration and payouts -/

/-- `calibration.update` of a loaded expert: two reads for the signals, then the columns
that changed and the row of the history. Answers the move and the sample size. -/
def calibrate (env : Env) (expert : Expert) (actor : String) : Session (Option TierChange × ℕ) := do
  let reviewed ← see
  let checked ← see
  let seen : Standing := ⟨reviewSignals reviewed expert.id, checkSignals checked expert.id,
    some expert.tier, []⟩
  let rated := expert.calibrated (seen.score env).1 (seen.score env).2
  match seen.row env expert.id expert.tier with
  | none => do
    -- no change of the loaded columns, no `UPDATE`
    Prog.when (rated.calibrationScore ≠ expert.calibrationScore ∨
        rated.calibrationSamples ≠ expert.calibrationSamples)
      (updateRow (.expert expert.id) (expertExists expert.id)
        (expertRow (expert.flush rated) (expert.flush_keeps rated) expert.id))
    pure (none, (seen.score env).2)
  | some change => do
    let moved := rated.movedTo change.toTier env.now
    updateRow (.expert expert.id) (expertExists expert.id)
      (expertRow (expert.flush moved) (expert.flush_keeps moved) expert.id)
    set (fun db => { db with tierChanges := db.tierChanges ++ [change] })
    log actor "expert.tier" "expert" expert.id.str
    pure (some change, (seen.score env).2)

/-- `rate_for`: a rate card is read only when it is needed. -/
def rateFor (expert : Expert) (taskType : String) : Session ℤ :=
  match expert.taskRateCents with
  | some cents => pure cents
  | none => do
    let db ← see
    match db.rateCards.get (expert.tier, taskType) with
    | some card => pure card.rateCents
    | none => do
      let db ← see
      let card ← demandSome (db.rateCards.get (expert.tier, "default"))
      pure card.rateCents

def addPayout (p : Payout) (db : Db) : Option Db :=
  if storableInt p.amountCents then
    (db.payouts.insert p).map (fun payouts => { db with payouts := payouts })
  else none

/-- The row `create_for_grade` inserts. -/
def newPayout (env : Env) (grade : Grade) (expert : Expert) (task : Task) (amount : ℤ) :
    Payout where
  id := env.payoutUuid4 grade.id
  gradeId := grade.id
  expertId := expert.id
  taskId := task.id
  tier := expert.tier
  taskType := task.taskType
  amountCents := amount
  status := expert.payoutStatus
  periodId := none
  createdAt := env.now
  paidAt := none

/-- `create_for_grade`, for the expert loaded with the grade. -/
def createForGrade (env : Env) (grade : Grade) (expert : Expert) (task : Task) (actor : String)
    (fraction : ℚ) : Session Payout := do
  let db ← see
  match db.payouts.get grade.id with
  | some existing => pure existing
  | none => do
    let rate ← rateFor expert task.taskType
    let payout := newPayout env grade expert task (payoutAmount rate fraction)
    -- both unique constraints; the insert waits for a transaction that holds either
    insert [.payout payout.gradeId, .payoutOf payout.taskId payout.expertId] (addPayout payout)
    -- `PAYOUT_CENTS.inc` refuses to count down
    demand (0 ≤ payout.amountCents)
    log actor "payout.created" "payout" payout.id.str
    pure payout

/-! ### Submission -/

def addRound (c : Consensus) (db : Db) : Option Db :=
  (db.consensus.insert c).map (fun consensus => { db with consensus := consensus })

/-- `consensus.evaluate`: the rejected grades are read before the grades. -/
def consensusEvaluate (env : Env) (taskId : Uuid) : Session Unit := do
  let reviewed ← see
  let graded ← see
  let grades := (gradesFor graded taskId).filter (fun g => decision reviewed g.id ≠ some .reject)
  if grades.length < 2 then pure ()
  else do
    let row := newRound env taskId grades
    Prog.when (row.status ≠ .agreed)
      (set (taskRow (Task.withStatus .adjudication) (Task.withStatus_keeps _) taskId))
    -- `db.add(row)` is flushed after the task's status
    insert [.consensus row.taskId] (addRound row)
    log "system" s!"consensus.{row.status.value}" "task" taskId.str

/-- `enforce`: whether the guard paused the expert. -/
def enforce (env : Env) (expert : Expert) : Session Bool := do
  let db ← see
  if trips env db expert.id = false then pure false
  else if expert.status = .paused then pure false
  else do
    updateRow (.expert expert.id) (expertExists expert.id)
      (expertRow (Expert.withStatus .paused) (Expert.withStatus_keeps .paused) expert.id)
    -- the bulk update finds its rows on a snapshot and looks at each again under its lock
    let _ ← updateWhere .payout
      (fun db => (db.payouts.rows.filter (Payout.ofExpert expert.id .pending)).map Payout.gradeId)
      (fun gradeId db => (db.payouts.get gradeId).any (Payout.ofExpert expert.id .pending))
      (fun gradeId db => { db with
        payouts := db.payouts.update gradeId Payout.withhold Payout.withhold_keeps })
    log "system" "expert.paused" "expert" expert.id.str
    pure true

def addResult (r : AttentionResult) (db : Db) : Option Db :=
  (db.attentionResults.insert r).map (fun results => { db with attentionResults := results })

/-- The result `attention.evaluate` records. -/
def newResult (env : Env) (expected : Dict ℚ) (task : Task) (grade : Grade) : AttentionResult :=
  let maxDev := (deviations expected grade.scoresSnapshot).foldl max 0
  { id := env.uuid4 1
    taskId := task.id
    expertId := grade.expertId
    gradeId := grade.id
    passed := decide (maxDev ≤ env.settings.attentionTolerance)
    maxDeviation := maxDev
    createdAt := env.now }

/-- The golden check of a stored grade: whether the guard paused the expert. -/
def checkGrade (env : Env) (expert : Expert) (task : Task) (grade : Grade) : Session Bool :=
  match task.expected with
  | none => pure false
  | some expected => do
    let result := newResult env expected task grade
    insert [.attentionResult result.id] (addResult result)
    let paused ← (if result.passed then pure false else enforce env expert : Session Bool)
    let _ ← calibrate env expert "system"
    pure paused

def addGrade (g : Grade) (db : Db) : Option Db :=
  (db.grades.insert g).map (fun grades => { db with grades := grades })

/-- A stored grade, and whether the guard paused its author. -/
structure Submission where
  grade : Grade
  paused : Bool

/-- The row `submit` inserts. -/
def newGrade (env : Env) (expert : Expert) (task : Task) (rubric : Rubric)
    (criteria : List RubricCriterion) (body : GradeCreate) : Grade where
  id := env.uuid4 0
  taskId := task.id
  expertId := expert.id
  rubricId := rubric.id
  scoresSnapshot := body.scores
  rationale := body.rationale
  timeSpentSeconds := body.timeSpentSeconds
  weightedScore := weightedScore criteria body.scores
  submittedAt := env.now
  scores := gradeScores criteria body.scores

/-- `grading.submit`. -/
def submit (env : Env) (expertId : Uuid) (body : GradeCreate) : Session Submission := do
  demand (1 ≤ body.rationale.length)
  let expert ← Session.expert expertId
  let db ← lockTask body.taskId
  let task ← demandSome (db.tasks.get body.taskId)
  demand (task.status = .assigned ∧ task.assignedExpertId = some expert.id)
  let db ← see
  -- the pin cannot change while the task is locked
  let rubric ← demandSome (db.rubrics.get task.gradingRubricId)
  demand (∀ r ∈ body.rubricId, r = rubric.id)
  let criteria := criteriaOf db rubric.id
  let keys := criteria.map RubricCriterion.key
  let given := body.scores.rows.map Prod.fst
  demand (sortedDiff keys given = [] ∧ sortedDiff given keys = [])
  demand ((outOfScale criteria body.scores).isNone)
  let grade := newGrade env expert task rubric criteria body
  insert [.grade grade.id, .gradeOf grade.taskId grade.expertId] (addGrade grade)
  set (taskRow Task.graded Task.graded_keeps task.id)
  Prog.when (task.graded.status = .submitted) (consensusEvaluate env task.id)
  log s!"expert:{expert.id.str}" "grade.submitted" "grade" grade.id.str
  let paused ← checkGrade env expert task grade
  pure ⟨grade, paused⟩

/-! ### Review and adjudication -/

/-- `redeliver`: the round is locked, the grades and the decisions are two reads. -/
def redeliver (task : Task) (rejected : Grade) (actor : String) : Session Unit := do
  let db ← forUpdate (.consensus task.id) (fun db => (db.consensus.get task.id).isSome)
  match db.consensus.get task.id with
  | none => pure ()
  | some row =>
    if row.status ≠ .agreed ∨ row.deliveredGradeId ≠ some rejected.id then pure ()
    else do
      -- a verdict committed between the two reads is seen, its grade's row need not be
      let graded ← see
      let reviewed ← see
      let pool := (gradesFor graded task.id).filter (fun g => decision reviewed g.id ≠ some .reject)
      let approved := pool.filter (fun g => decision reviewed g.id = some .approve)
      let picked := (closestToMean (if approved = [] then pool else approved)).map Grade.id
      set (fun db => { db with
        consensus := db.consensus.update task.id (Consensus.delivering picked) })
      log actor "consensus.redelivered" "task" task.id.str

/-- What a review does to its task's row, given the values the task was loaded with. -/
def reviewTask (task : Task) (decision : ReviewDecision) (actor : String) : Session Unit :=
  if task.isAttentionCheck then pure ()
  else if decision = .approve then
    -- only columns that differ from the loaded row are written
    set (taskRow (task.flush (task.withStatus .approved)) (task.flush_keeps _) task.id)
  else if task.requiredGrades = 1 then do
    set (taskRow (task.flush task.requeued) (task.flush_keeps _) task.id)
    log actor "task.requeued" "task" task.id.str
  else if task.status ≠ .approved then
    set (taskRow (task.flush (task.withStatus .rejected)) (task.flush_keeps _) task.id)
  else pure ()

/-- What a review pays: an approved grade its full rate. -/
def reviewPayout (env : Env) (grade : Grade) (expert : Expert) (task : Task)
    (decision : ReviewDecision) (actor : String) : Session (Option Payout) :=
  if decision = .approve then do
    let payout ← createForGrade env grade expert task actor 1
    pure (some payout)
  else pure none

def addReview (r : Review) (db : Db) : Option Db :=
  if r.storable then (db.reviews.insert r).map (fun reviews => { db with reviews := reviews })
  else none

/-- `grading.review`: the grade is locked, then its task and its expert are loaded without a
lock, and the lock on the task changes nothing about the loaded values. -/
def review (env : Env) (keyId : Uuid) (body : ReviewCreate) (actor : String) :
    Session (Review × Option Payout) := do
  let db ← forUpdate (.grade body.gradeId) (fun db => (db.grades.get body.gradeId).isSome)
  let grade ← demandSome (db.grades.get body.gradeId)
  let db ← see
  let task ← demandSome (db.tasks.get grade.taskId)
  let expert ← Session.expert grade.expertId
  let db ← see
  demand ((db.reviews.get grade.id).isNone)
  demand ((rejectIfConsensusPending task).isOk)
  let verdict : Review := ⟨grade.id, keyId, body.decision, body.reason, env.now⟩
  insert [.review verdict.gradeId] (addReview verdict)
  -- `populate_existing` is not set: the loaded values stay
  let _ ← lockTask task.id
  let payout ← reviewPayout env grade expert task body.decision actor
  reviewTask task body.decision actor
  Prog.when (body.decision = .reject) (redeliver task grade actor)
  log actor s!"grade.{body.decision.value}" "grade" grade.id.str
  let _ ← calibrate env expert actor
  pure (verdict, payout)

/-- `_outvoted_payout`. -/
def outvotedPayout (env : Env) (grade : Grade) (expert : Expert) (task : Task) (actor : String) :
    Session Unit :=
  match env.settings.consensusOutvotedPayout with
  | .none => pure ()
  | .full => do
    let _ ← createForGrade env grade expert task actor 1
  | .part => do
    let _ ← createForGrade env grade expert task actor env.settings.consensusOutvotedRate

/-- What `resolve` pays for one grade of the round. -/
def resolvePayout (env : Env) (grade delivered : Grade) (expert : Expert) (task : Task)
    (actor : String) : Session Unit :=
  if grade.id = delivered.id then do
    let _ ← createForGrade env grade expert task actor 1
  else outvotedPayout env grade expert task actor

/-- One pass of the loop in `resolve`, over the grades and experts `loaded` at its start. -/
def resolveGrade (env : Env) (loaded : Db) (task : Task) (delivered : Grade) (reason : String)
    (keyId : Uuid) (actor : String) (grade : Grade) : Session Unit := do
  let expert ← demandSome (loaded.experts.get grade.expertId)
  let verdict := verdict env delivered reason keyId grade
  insert [.review verdict.gradeId] (addReview verdict)
  resolvePayout env grade delivered expert task actor
  let _ ← calibrate env expert actor

/-- `consensus.resolve`: the round is locked and its task loaded with it, then the grades
and their experts; all before the lock on the task. -/
def resolve (env : Env) (taskId deliveredGradeId : Uuid) (reason : String) (keyId : Uuid)
    (actor : String) : Session Consensus := do
  demand (1 ≤ reason.length)
  let db ← forUpdate (.consensus taskId) (fun db => (db.consensus.get taskId).isSome)
  let row ← demandSome (db.consensus.get taskId)
  let db ← see
  let task ← demandSome (db.tasks.get taskId)
  demand (row.status = .adjudicating)
  let db ← see
  let grades := gradesFor db taskId
  let loaded ← see
  let delivered ← demandSome (grades.find? (fun g => g.id = deliveredGradeId))
  -- by now the grades, the experts and the task are loaded
  let _ ← lockTask taskId
  grades.foldlM (fun _ grade => resolveGrade env loaded task delivered reason keyId actor grade) ()
  let decided := Consensus.adjudicate delivered.id keyId reason env.now
  set (taskRow (task.flush (task.withStatus .approved)) (task.flush_keeps _) taskId)
  set (fun db => { db with
    consensus := db.consensus.update taskId decided (Consensus.adjudicate_keeps _ _ _ _) })
  log actor "consensus.adjudicated" "task" taskId.str
  pure (decided row)

/-! ### Rubrics and the tick -/

def addVersion (r : Rubric) (db : Db) : Option Db :=
  (db.rubrics.insert r).map (fun rubrics => { db with rubrics := rubrics })

def addCriteria (rows : List RubricCriterion) (db : Db) : Option Db :=
  (db.rubricCriteria.insertAll rows).map (fun criteria => { db with rubricCriteria := criteria })

/-- `rubrics.publish`: the version to supersede is loaded first, the newest version number
is a query of its own. -/
def publish (env : Env) (previousId : Uuid) (criteria : List CriterionIn) (actor : String) :
    Session (Rubric × ℕ × ℕ) := do
  demand (validCriteria criteria)
  let db ← see
  let previous ← demandSome (db.rubrics.get previousId)
  demand (previous.supersededAt = none)
  let db ← see
  let rubric : Rubric := ⟨env.uuid4 0, previous.name, latestVersion db previous + 1, none, none⟩
  let rows := criterionRows env rubric.id criteria
  insert [.rubric rubric.id, .rubricVersion rubric.name rubric.version] (addVersion rubric)
  insert (rows.map (fun c => .criterion c.id)) (addCriteria rows)
  updateRow (.rubric previous.id) (fun db => (db.rubrics.get previous.id).isSome)
    (fun db => { db with
      rubrics := db.rubrics.update previous.id (Rubric.superseded env.now rubric.id) })
  -- tasks queued meanwhile are not in the snapshot and stay behind
  let migrated ← updateWhere .task
    (fun db => (db.tasks.rows.filter (Task.untouchedOn previous.id)).map Task.id)
    (fun id db => (db.tasks.get id).any (Task.untouchedOn previous.id))
    (taskRow (Task.retargeted rubric.id) (fun _ => rfl))
  let db ← see
  let openOnPrevious := (db.tasks.rows.filter (fun t =>
    t.rubricId = previous.id ∧ (t.status = .queued ∨ t.status = .assigned))).length
  log actor "rubric.published" "rubric" rubric.id.str
  pure (rubric, migrated, openOnPrevious)

/-- One pass of the loop in `tick`. -/
def tickExpert (env : Env) (actor : String) (acc : List TierMove × ℕ) (expert : Expert) :
    Session (List TierMove × ℕ) := do
  let (change, samples) ← calibrate env expert actor
  let moves := match change with
    | some c => acc.1 ++ [⟨expert.name, c.fromTier, c.toTier⟩]
    | none => acc.1
  pure (moves, if samples < env.settings.calibrationMinSamples then acc.2 + 1 else acc.2)

/-- `ops.tick`: all experts are loaded by one read; the counts of the report are reads too. -/
def tick (env : Env) (actor : String) : Session TickReport := do
  let reclaimed ← reclaimExpired env
  let db ← see
  let experts := db.experts.rows.insertionSort (fun a b => a.name.toList ≤ b.name.toList)
  -- each expert scored in turn, over what the ones before have written
  let (moves, uncalibrated) ← experts.foldlM (tickExpert env actor) ([], 0)
  let period := periodStatus (← see)
  let waiting := backlog (← see)
  let rejected := (rejectedTwice (← see)).length
  let undelivered := (undeliveredApproved (← see)).length
  log actor "ops.tick" "system" "tick"
  pure
    { reclaimed := reclaimed
      expertsScored := experts.length
      tierChanges := moves
      uncalibratedExperts := uncalibrated
      adjudicationBacklog := waiting
      unbilledPayouts := period.unbilledPayouts
      unbilledCents := period.unbilledCents
      daysSincePeriodClose := (daysSince env period.closedAt).map
        (fun age => (pyRound (age * 100) : ℚ) / 100)
      rejectedTwice := rejected
      undeliveredApproved := undelivered
      reminders := reminders env uncalibrated period waiting rejected undelivered }

/-! ### What the texts write -/

section Writes
variable {P : (Db → Db) → Prop} {env : Env} {actor : String}

theorem writes_log (h : ∀ e, P (fun db => { db with auditEvents := db.auditEvents ++ [e] }))
    {action entityType entityId : String} :
    (Session.log actor action entityType entityId).Writes P := Writes.set (h _)

theorem writes_expert (expertId : Uuid) : (Session.expert expertId).Writes P :=
  Writes.see.bind (fun _ => Writes.demandSome _)

theorem writes_calibrate {expert : Expert}
    (hrow : ∀ new, P (expertRow (expert.flush new) (expert.flush_keeps new) expert.id))
    (hchange : ∀ c, P (fun db => { db with tierChanges := db.tierChanges ++ [c] }))
    (hlog : ∀ e, P (fun db => { db with auditEvents := db.auditEvents ++ [e] })) :
    (calibrate env expert actor).Writes P := by
  apply Writes.see.bind
  intro reviewed
  apply Writes.see.bind
  intro checked
  dsimp only
  split
  · exact (Writes.when (Writes.updateRow (hrow _))).bind (fun _ => Writes.pure _)
  · refine (Writes.updateRow (hrow _)).bind (fun _ => ?_)
    refine (Writes.set (hchange _)).bind (fun _ => ?_)
    exact (writes_log hlog).bind (fun _ => Writes.pure _)

theorem writes_rateFor (expert : Expert) (taskType : String) :
    (rateFor expert taskType).Writes P := by
  unfold rateFor
  split
  · exact Writes.pure _
  · refine Writes.see.bind (fun db => ?_)
    split
    · exact Writes.pure _
    · exact Writes.see.bind (fun _ => (Writes.demandSome _).bind (fun _ => Writes.pure _))

theorem writes_createForGrade {grade : Grade} {expert : Expert} {task : Task} {fraction : ℚ}
    (hadd : ∀ amount, P (fun db =>
      (addPayout (newPayout env grade expert task amount) db).getD db))
    (hlog : ∀ e, P (fun db => { db with auditEvents := db.auditEvents ++ [e] })) :
    (createForGrade env grade expert task actor fraction).Writes P := by
  refine Writes.see.bind (fun db => ?_)
  split
  · exact Writes.pure _
  · refine (writes_rateFor expert task.taskType).bind (fun rate => ?_)
    refine (Writes.insert (hadd _)).bind (fun _ => ?_)
    refine (Writes.demand _).bind (fun _ => ?_)
    exact (writes_log hlog).bind (fun _ => Writes.pure _)

theorem writes_redeliver {task : Task} {rejected : Grade}
    (hround : ∀ picked, P (fun db => { db with
      consensus := db.consensus.update task.id (Consensus.delivering picked) }))
    (hlog : ∀ e, P (fun db => { db with auditEvents := db.auditEvents ++ [e] })) :
    (redeliver task rejected actor).Writes P := by
  refine (Writes.forUpdate _ _).bind (fun db => ?_)
  split
  · exact Writes.pure _
  · split_ifs
    · exact Writes.pure _
    · refine Writes.see.bind (fun graded => ?_)
      refine Writes.see.bind (fun reviewed => ?_)
      exact (Writes.set (hround _)).bind (fun _ => writes_log hlog)

end Writes

end Session

end Panelist
