import Panelist.Delivery
import Panelist.Ops
import Panelist.Rubrics

/-! The remaining routes, and the service as one transition system: a request
runs in one transaction, which commits when it succeeds. -/
namespace Panelist
open Relational Transaction Serial

structure ExpertCreate where
  name : String
  tags : List String
  tier : Tier
  taskRateCents : Option ℤ

/-- `POST /experts`. -/
def createExpert (env : Env) (db : Db) (body : ExpertCreate) (actor : String) :
    Except Failure (Db × Expert) := do
  require (1 ≤ body.name.length ∧ body.name.length ≤ 200 ∧ body.tags ≠ []) (.http 422 "expert")
  let expert : Expert :=
    { id := env.uuid4 0
      name := body.name
      tags := body.tags
      tier := body.tier
      taskRateCents := body.taskRateCents
      status := .active
      servedCount := 0
      calibrationScore := none
      calibrationSamples := 0
      tierUpdatedAt := none }
  require (∀ cents ∈ body.taskRateCents, storableInt cents) (.raised "NumericValueOutOfRange")
  let experts ← orFail (db.experts.insert expert) (.integrity "experts_pkey")
  pure (record { db with experts := experts } actor "expert.created" "expert" expert.id.str, expert)

/-- `PATCH /experts/{id}/status`. -/
def setStatus (db : Db) (expertId : Uuid) (status : ExpertStatus) (actor : String) :
    Except Failure (Db × Expert) := do
  let expert ← orFail (db.experts.get expertId) (.http 404 "expert not found")
  let previous := expert.status
  let db := { db with experts := db.experts.update expert.id (Expert.withStatus status) }
  -- the status before the change decides
  let db := if previous = .paused ∧ status = .active then releaseWithheld db expert actor else db
  pure (record db actor "expert.status" "expert" expert.id.str, expert.withStatus status)

def hashKey (env : Env) (raw : String) : String := hexDigest (env.sha256 raw.toUTF8)

/-- `auth.issue_key`; `raw` is the generated token. -/
def issueKey (env : Env) (db : Db) (role : Role) (expertId : Option Uuid) (label raw : String) :
    Except Failure (Db × ApiKey) := do
  require (∀ e ∈ expertId, (db.experts.get e).isSome) (.integrity "api_keys_expert_id_fkey")
  let key : ApiKey := ⟨env.uuid4 0, hashKey env raw, role, expertId, label, none⟩
  let keys ← orFail (db.apiKeys.insert key) (.integrity "api_keys_key_hash_key")
  pure ({ db with apiKeys := keys }, key)

/-- `POST /admin/api-keys`. -/
def createKey (env : Env) (db : Db) (role : Role) (expertId : Option Uuid) (label raw : String)
    (actor : String) : Except Failure (Db × ApiKey) := do
  let (db, key) ← issueKey env db role expertId label raw
  pure (record db actor "apikey.issued" "api_key" key.id.str, key)

/-- `POST /experts/{id}/api-key`. -/
def createExpertKey (env : Env) (db : Db) (expertId : Uuid) (raw actor : String) :
    Except Failure (Db × ApiKey) := do
  let expert ← orFail (db.experts.get expertId) (.http 404 "expert not found")
  let (db, key) ← issueKey env db .expert (some expert.id) expert.name raw
  pure (record db actor "apikey.issued" "api_key" key.id.str, key)

/-- `DELETE /admin/api-keys/{id}`. -/
def revokeKey (env : Env) (db : Db) (keyId : Uuid) (actor : String) :
    Except Failure (Db × Unit) := do
  let key ← orFail (db.apiKeys.get keyId) (.http 404 "api key not found")
  -- a second DELETE answers as the first and writes nothing
  if key.revokedAt = none then
    let keys := db.apiKeys.update key.id (fun k => { k with revokedAt := some env.now })
    pure (record { db with apiKeys := keys } actor "apikey.revoked" "api_key" key.id.str, ())
  else pure (db, ())

/-- `panelist bootstrap`. -/
def bootstrap (env : Env) (db : Db) (raw : String) : Except Failure (Db × Unit) :=
  let key : ApiKey := ⟨env.uuid4 0, hashKey env raw, .admin, none, "bootstrap", none⟩
  -- the command can be repeated with the same key
  if db.apiKeys.rows.any (fun k => k.keyHash = key.keyHash) then pure (db, ())
  else do
    let keys ← orFail (db.apiKeys.insert key) (.integrity "api_keys_pkey")
    pure ({ db with apiKeys := keys }, ())

structure TaskCreate where
  prompt : String
  responses : List Json
  requiredTags : List String
  taskType : String
  minTier : Tier
  rubricId : Uuid
  priority : ℤ
  deadline : Option Time
  requiredGrades : ℕ
  isAttentionCheck : Bool
  expectedScores : Option (Dict ℚ)
  externalRef : Option String

/-- The checks of `TaskBulkCreate`. -/
def validTasks (body : List TaskCreate) : Prop :=
  body.isEmpty = false ∧ body.length ≤ 2000 ∧
    ∀ t ∈ body, t.responses.isEmpty = false ∧ t.requiredTags ≠ [] ∧ 1 ≤ t.requiredGrades ∧
      t.requiredGrades ≤ 5

instance (body : List TaskCreate) : Decidable (validTasks body) :=
  inferInstanceAs (Decidable (_ ∧ _ ∧ ∀ t ∈ body, _ ∧ _ ∧ _ ∧ _))

/-- `not t.expected_scores` is false. -/
def TaskCreate.hasExpected (t : TaskCreate) : Bool :=
  t.expectedScores.any (fun d => !d.rows.isEmpty)

/-- The row of a new task. -/
def TaskCreate.row (t : TaskCreate) (id : Uuid) (seq : ℕ) : Task :=
  { id := id
    seq := seq
    externalRef := t.externalRef
    prompt := t.prompt
    responses := t.responses
    requiredTags := t.requiredTags
    taskType := t.taskType
    minTier := t.minTier
    rubricId := t.rubricId
    pinnedRubricId := none
    priority := t.priority
    deadline := t.deadline
    status := .queued
    requiredGrades := t.requiredGrades
    gradesReceived := 0
    isAttentionCheck := t.isAttentionCheck
    expectedScores := t.expectedScores
    assignedExpertId := none
    assignedAt := none
    leaseExpiresAt := none
    reclaimCount := 0 }

def taskRows (env : Env) (seq : ℕ) (body : List TaskCreate) : List Task :=
  body.zipIdx.map (fun (t, i) => t.row (env.uuid4 i) (seq + i + 1))

/-- `POST /tasks`. -/
def createTasks (env : Env) (db : Db) (body : List TaskCreate) (actor : String) :
    Except Failure (Db × List Uuid) := do
  require (validTasks body) (.http 422 "tasks")
  -- the first superseded version is named; no task of the request is stored
  match supersededAmong db (body.map TaskCreate.rubricId) with
  | some stale =>
    throw (.http 409 s!"rubric {stale.name} version {stale.version} is superseded")
  | none => do
    require (∀ t ∈ body, t.isAttentionCheck = true → t.hasExpected = true)
      (.http 422 "attention checks require expected_scores")
    require (∀ t ∈ body, (db.rubrics.get t.rubricId).isSome) (.integrity "tasks_rubric_id_fkey")
    let rows := taskRows env db.taskSeq body
    let tasks ← orFail (db.tasks.insertAll rows) (.integrity "tasks_pkey")
    let db := { db with tasks := tasks, taskSeq := db.taskSeq + body.length }
    pure (record db actor "tasks.created" "task" "bulk", rows.map Task.id)

/-! ### What the routes write -/

theorem createExpert_ok {env : Env} {db db' : Db} {body : ExpertCreate} {actor : String}
    {e : Expert} (h : createExpert env db body actor = .ok (db', e)) :
    ∃ experts events, e.status = .active ∧ db.experts.insert e = some experts ∧
      db' = { db with experts := experts, auditEvents := events } := by
  simp only [createExpert, bind_ok_iff, require_ok_iff, exists_const, orFail_ok_iff, pure_ok_iff,
    Prod.mk.injEq] at h
  obtain ⟨_, _, experts, hins, rfl, rfl⟩ := h
  exact ⟨experts, _, rfl, hins, rfl⟩

/-- The payouts after a status change: only a paused expert made active again has
theirs released. -/
def payoutsAfterStatus (db : Db) (expert : Expert) (status : ExpertStatus) : Table Payout :=
  if expert.status = .paused ∧ status = .active then
    db.payouts.updateWhere (Payout.ofExpert expert.id .withheld) Payout.released
      Payout.released_keeps
  else db.payouts

theorem setStatus_ok {db db' : Db} {expertId : Uuid} {status : ExpertStatus} {actor : String}
    {e : Expert} (h : setStatus db expertId status actor = .ok (db', e)) :
    ∃ expert events, db.experts.get expertId = some expert ∧
      db' = { db with
        experts := db.experts.update expert.id (Expert.withStatus status)
        payouts := payoutsAfterStatus db expert status
        auditEvents := events } := by
  simp only [setStatus, bind_ok_iff, orFail_ok_iff, pure_ok_iff, Prod.mk.injEq] at h
  obtain ⟨expert, hget, hdb', _⟩ := h
  by_cases hback : expert.status = .paused ∧ status = .active
  · rw [if_pos hback] at hdb'
    rw [← hdb']
    exact ⟨expert, _, hget, by rw [payoutsAfterStatus, if_pos hback]; rfl⟩
  · rw [if_neg hback] at hdb'
    rw [← hdb']
    exact ⟨expert, _, hget, by rw [payoutsAfterStatus, if_neg hback]; rfl⟩

theorem issueKey_ok {env : Env} {db db' : Db} {role : Role} {expertId : Option Uuid}
    {label raw : String} {k : ApiKey} (h : issueKey env db role expertId label raw = .ok (db', k)) :
    ∃ keys, db.apiKeys.insert k = some keys ∧ db' = { db with apiKeys := keys } := by
  simp only [issueKey, bind_ok_iff, require_ok_iff, exists_const, orFail_ok_iff, pure_ok_iff,
    Prod.mk.injEq] at h
  obtain ⟨_, keys, hins, rfl, rfl⟩ := h
  exact ⟨keys, hins, rfl⟩

theorem createKey_ok {env : Env} {db db' : Db} {role : Role} {expertId : Option Uuid}
    {label raw actor : String} {k : ApiKey}
    (h : createKey env db role expertId label raw actor = .ok (db', k)) :
    ∃ keys events, db' = { db with apiKeys := keys, auditEvents := events } := by
  simp only [createKey, bind_ok_iff, pure_ok_iff, Prod.mk.injEq, Prod.exists] at h
  obtain ⟨_, _, hissue, rfl, rfl⟩ := h
  obtain ⟨keys, _, rfl⟩ := issueKey_ok hissue
  exact ⟨keys, _, rfl⟩

theorem createExpertKey_ok {env : Env} {db db' : Db} {expertId : Uuid} {raw actor : String}
    {k : ApiKey} (h : createExpertKey env db expertId raw actor = .ok (db', k)) :
    ∃ keys events, db' = { db with apiKeys := keys, auditEvents := events } := by
  simp only [createExpertKey, bind_ok_iff, pure_ok_iff, Prod.mk.injEq, Prod.exists] at h
  obtain ⟨_, _, _, _, hissue, rfl, rfl⟩ := h
  obtain ⟨keys, _, rfl⟩ := issueKey_ok hissue
  exact ⟨keys, _, rfl⟩

theorem revokeKey_ok {env : Env} {db db' : Db} {keyId : Uuid} {actor : String} {u : Unit}
    (h : revokeKey env db keyId actor = .ok (db', u)) :
    ∃ keys events, db' = { db with apiKeys := keys, auditEvents := events } := by
  simp only [revokeKey, bind_ok_iff] at h
  obtain ⟨_, _, hm⟩ := h
  split_ifs at hm <;> obtain ⟨rfl, _⟩ := Prod.mk.inj (pure_ok_iff.mp hm) <;> exact ⟨_, _, rfl⟩

theorem bootstrap_ok {env : Env} {db db' : Db} {raw : String} {u : Unit}
    (h : bootstrap env db raw = .ok (db', u)) :
    ∃ keys, db' = { db with apiKeys := keys } := by
  unfold bootstrap at h
  dsimp only at h
  split_ifs at h
  · obtain ⟨rfl, _⟩ := Prod.mk.inj (pure_ok_iff.mp h)
    exact ⟨_, rfl⟩
  · simp only [bind_ok_iff, pure_ok_iff, Prod.mk.injEq] at h
    obtain ⟨keys, _, rfl, _⟩ := h
    exact ⟨keys, rfl⟩

/-- The tasks of one request get fresh ids and the next sequence numbers. -/
theorem createTasks_ok {env : Env} {db db' : Db} {body : List TaskCreate} {actor : String}
    {ids : List Uuid} (h : createTasks env db body actor = .ok (db', ids)) :
    ∃ tasks events, validTasks body ∧ supersededAmong db (body.map TaskCreate.rubricId) = none ∧
      (∀ t ∈ body, t.isAttentionCheck = true → t.hasExpected = true) ∧
      (∀ t ∈ body, (db.rubrics.get t.rubricId).isSome) ∧
      db.tasks.insertAll (taskRows env db.taskSeq body) = some tasks ∧
      db' = { db with
        tasks := tasks
        taskSeq := db.taskSeq + body.length
        auditEvents := events } := by
  simp only [createTasks, bind_ok_iff, require_ok_iff, exists_const] at h
  obtain ⟨hvalid, hm⟩ := h
  split at hm
  · exact absurd hm (by simp)
  · rename_i hcurrent
    simp only [bind_ok_iff, require_ok_iff, exists_const, orFail_ok_iff, pure_ok_iff,
      Prod.mk.injEq] at hm
    obtain ⟨hexpected, hrub, tasks, hins, rfl, _⟩ := hm
    exact ⟨tasks, _, hvalid, hcurrent, hexpected, hrub, hins, rfl⟩

/-! ### The service -/

/-- The routes and commands that write, with the body and the principal of a call. -/
inductive Op where
  | createExpert (body : ExpertCreate) (actor : String)
  | setStatus (expertId : Uuid) (status : ExpertStatus) (actor : String)
  | createKey (role : Role) (expertId : Option Uuid) (label raw actor : String)
  | createExpertKey (expertId : Uuid) (raw actor : String)
  | revokeKey (keyId : Uuid) (actor : String)
  | bootstrap (raw : String)
  | createRubric (name : String) (version : ℤ) (criteria : List CriterionIn) (actor : String)
  | publish (rubricId : Uuid) (criteria : List CriterionIn) (actor : String)
  | putRateCards (body : List RateCardIn) (actor : String)
  | createTasks (body : List TaskCreate) (actor : String)
  | claimNext (expertId : Uuid)
  | claimById (expertId taskId : Uuid)
  | release (expertId taskId : Uuid)
  | reclaim
  | submit (expertId : Uuid) (body : GradeCreate)
  | review (keyId : Uuid) (body : ReviewCreate) (actor : String)
  | resolve (taskId deliveredGradeId : Uuid) (reason : String) (keyId : Uuid) (actor : String)
  | closePeriod (label actor : String)
  | exportDelivery (actor : String)
  | tick (actor : String)

/-- What a successful call answers. -/
inductive Response where
  | expert (e : Expert)
  | key (k : ApiKey)
  | rubric (r : Rubric)
  | published (r : Rubric) (migratedQueued openOnPrevious : ℕ)
  | ids (ids : List Uuid)
  | claimed (t : Option Task)
  | count (n : ℕ)
  | grade (g : Grade)
  | review (r : Review)
  | round (c : Consensus)
  | period (p : PayoutPeriod)
  | delivery (d : Delivery)
  | report (r : TickReport)
  | done

structure Request where
  env : Env
  op : Op

/-- Attach the answer to the new state. -/
def answer {α : Type} (f : α → Response) (m : Except Failure (Db × α)) :
    Except Failure (Db × Response) :=
  (fun p => (p.1, f p.2)) <$> m

def step (r : Request) (db : Db) : Except Failure (Db × Response) :=
  match r.op with
  | .createExpert body actor => answer .expert (createExpert r.env db body actor)
  | .setStatus expertId status actor => answer .expert (setStatus db expertId status actor)
  | .createKey role expertId label raw actor =>
    answer .key (createKey r.env db role expertId label raw actor)
  | .createExpertKey expertId raw actor =>
    answer .key (createExpertKey r.env db expertId raw actor)
  | .revokeKey keyId actor => answer (fun _ => .done) (revokeKey r.env db keyId actor)
  | .bootstrap raw => answer (fun _ => .done) (bootstrap r.env db raw)
  | .createRubric name version criteria actor =>
    answer .rubric (createRubric r.env db name version criteria actor)
  | .publish rubricId criteria actor =>
    answer (fun p => .published p.1 p.2.1 p.2.2) (publish r.env db rubricId criteria actor)
  | .putRateCards body actor => answer (fun _ => .done) (putRateCards db body actor)
  | .createTasks body actor => answer .ids (createTasks r.env db body actor)
  | .claimNext expertId => answer .claimed (claimNext r.env db expertId)
  | .claimById expertId taskId =>
    answer (fun t => .claimed (some t)) (claimById r.env db expertId taskId)
  | .release expertId taskId => answer (fun _ => .done) (release db expertId taskId)
  | .reclaim => answer .count (pure (reclaimExpired r.env db))
  | .submit expertId body => answer .grade (submit r.env db expertId body)
  | .review keyId body actor => answer .review (review r.env db keyId body actor)
  | .resolve taskId gradeId reason keyId actor =>
    answer .round (resolve r.env db taskId gradeId reason keyId actor)
  | .closePeriod label actor => answer .period (closePeriod r.env db label actor)
  | .exportDelivery actor => answer .delivery (exportDelivery r.env db actor)
  | .tick actor => answer .report (tick r.env db actor)

/-- The state after a sequence of requests, from the empty database; a request
that fails is rolled back. -/
def after (rs : List Request) : Db := run step Db.empty rs

/-! ### A small scenario

Two graders, one rubric with one criterion, and a rate card for every tier. The
request at time `n` draws the ids `100 * n`, `100 * n + 1` and so on. -/
namespace Scenario

def env (n : ℕ) : Env where
  now := n
  settings := {}
  uuid4 := fun i => 100 * n + i
  payoutUuid4 := fun gradeId => gradeId + 1
  sha256 := fun _ => []
  floatRepr := decimalRepr

def task : TaskCreate where
  prompt := "Prompt"
  responses := [.obj [("text", .str "Answer")]]
  requiredTags := ["python"]
  taskType := "single"
  minTier := .junior
  rubricId := 100
  priority := 0
  deadline := none
  requiredGrades := 1
  isAttentionCheck := false
  expectedScores := none
  externalRef := none

def accuracy (q : ℚ) : Dict ℚ := ⟨[("accuracy", q)], List.pairwise_singleton _ _⟩

def call (n : ℕ) (op : Op) : Request := ⟨env n, op⟩

def grade (taskId : Uuid) (q : ℚ) : GradeCreate := ⟨taskId, none, accuracy q, "Solid.", 60⟩

/-- Rubric 100, rate cards, experts 300 and 400. -/
def setup : List Request :=
  [call 1 (.createRubric "helpfulness" 1 [⟨"accuracy", "Accuracy", 1, 1, 5⟩] "admin"),
   call 2 (.putRateCards [⟨.junior, "default", 300⟩, ⟨.senior, "default", 500⟩,
     ⟨.lead, "default", 800⟩] "admin"),
   call 3 (.createExpert ⟨"A", ["python"], .junior, none⟩ "admin"),
   call 4 (.createExpert ⟨"B", ["python"], .junior, none⟩ "admin")]

/-- A task of two graders, number 500: grade 700 by expert 300, then 900 by 400. -/
def pair (q₁ q₂ : ℚ) : List Request := setup ++
  [call 5 (.createTasks [{ task with requiredGrades := 2 }] "admin"),
   call 6 (.claimNext 300), call 7 (.submit 300 (grade 500 q₁)),
   call 8 (.claimNext 400), call 9 (.submit 400 (grade 500 q₂))]

/-- A task of three graders, number 1100, whose scores agree: grades 1300, 1500
and 1700, of which 1500 is the closest to the mean. -/
def trio : List Request := setup ++
  [call 10 (.createExpert ⟨"C", ["python"], .junior, none⟩ "admin"),
   call 11 (.createTasks [{ task with requiredGrades := 3 }] "admin"),
   call 12 (.claimNext 300), call 13 (.submit 300 (grade 1100 4)),
   call 14 (.claimNext 400), call 15 (.submit 400 (grade 1100 (9 / 2))),
   call 16 (.claimNext 1000), call 17 (.submit 1000 (grade 1100 5))]

/-- Reviews in the given order, from time 18 on. -/
def reviews (decisions : List (Uuid × ReviewDecision)) : List Request :=
  decisions.zipIdx.map (fun (d, i) => call (18 + i) (.review 7 ⟨d.1, d.2, none⟩ "reviewer"))

end Scenario

end Panelist
