import Panelist.Grading

/-! `panelist.services.delivery`: versioned, checksummed JSONL datasets of approved grades. -/
namespace Panelist
open Relational Transaction Serial

/-- One row of the query in `_rows`: a delivered grade, its task and its round. -/
structure Delivered where
  grade : Grade
  task : Task
  round : Option Consensus

/-- The joins and the `WHERE` of `_rows`, for one grade. -/
def deliveredRow (db : Db) (g : Grade) : Option Delivered :=
  match db.reviews.get g.id, db.tasks.get g.taskId with
  | some verdict, some task =>
    let round := db.consensus.get task.id
    if verdict.decision = .approve ∧ task.isAttentionCheck = false ∧
        -- a task without a round delivers its approved grade
        (∀ c ∈ round, c.deliveredGradeId = some g.id) then
      some ⟨g, task, round⟩
    else none
  | _, _ => none

/-- `ORDER BY seq, expert_id`. -/
def deliveredBefore (a b : Delivered) : Prop :=
  a.task.seq < b.task.seq ∨ a.task.seq = b.task.seq ∧ a.grade.expertId ≤ b.grade.expertId

instance : DecidableRel deliveredBefore := fun _ _ => inferInstanceAs (Decidable (_ ∨ _))

/-- The query of `_rows`: consensus tasks deliver only the grade that was chosen. -/
def deliveredRows (db : Db) : List Delivered :=
  (db.grades.rows.filterMap (deliveredRow db)).insertionSort deliveredBefore

/-- `sorted(task.required_tags)`. -/
def sortedTags (tags : List String) : List String :=
  tags.insertionSort (fun a b => a.toList ≤ b.toList)

def optStr (s : Option String) : Json := s.elim .null .str

/-- `{s.criterion.key: s.score}` in criterion order. -/
def exportedScores (db : Db) (g : Grade) : List (String × ℚ) :=
  ((g.scores.filterMap (fun s => (db.rubricCriteria.get s.criterionId).map
      (fun c => (c.position, c.key, s.score)))).insertionSort (fun a b => a.1 ≤ b.1)).map Prod.snd

def roundJson (c : Consensus) : Json :=
  .obj [("status", .str c.status.value), ("graders", .int c.gradeCount),
    ("spread", .float c.spread)]

/-- The object `_rows` yields; `name`, `version` and `tier` come from the rubric
and the expert of the grade. -/
def rowFields (row : Delivered) (name : String) (version : ℤ) (tier : Tier)
    (scores : List (String × ℚ)) : List (String × Json) :=
  [("task_id", .str row.task.id.str),
   ("external_ref", optStr row.task.externalRef),
   ("task_type", .str row.task.taskType),
   -- `sorted(task.required_tags)`
   ("required_tags", .arr ((sortedTags row.task.requiredTags).map .str)),
   ("prompt", .str row.task.prompt),
   ("responses", .arr row.task.responses),
   ("rubric", .obj [("id", .str row.grade.rubricId.str), ("name", .str name),
     ("version", .int version)]),
   ("expert_id", .str row.grade.expertId.str),
   -- the tier at the time of the export
   ("expert_tier", .str tier.value),
   ("scores", .obj (scores.map (fun s => (s.1, .float s.2)))),
   ("weighted_score", .float row.grade.weightedScore),
   ("rationale", .str row.grade.rationale),
   ("time_spent_seconds", .int row.grade.timeSpentSeconds),
   -- `None` for a task of one grader
   ("consensus", row.round.elim .null roundJson)]

/-- `expert.tier` of a grade's author; foreign keys make the author exist. -/
def expertTier (db : Db) (expertId : Uuid) : Tier :=
  ((db.experts.get expertId).map Expert.tier).getD .junior

def rubricName (db : Db) (rubricId : Uuid) : String :=
  ((db.rubrics.get rubricId).map Rubric.name).getD ""

def rubricVersion (db : Db) (rubricId : Uuid) : ℤ :=
  ((db.rubrics.get rubricId).map Rubric.version).getD 0

def rowJson (db : Db) (row : Delivered) : Json :=
  .obj (rowFields row (rubricName db row.grade.rubricId) (rubricVersion db row.grade.rubricId)
    (expertTier db row.grade.expertId) (exportedScores db row.grade))

/-- `json.dumps(row)` and the newline after it. -/
def exportLine (floatRepr : ℚ → List Char) (db : Db) (row : Delivered) : List Char :=
  dumps floatRepr (rowJson db row) ++ ['\n']

/-- `build_jsonl`: the body as UTF-8 bytes and the number of lines. -/
def buildJsonl (floatRepr : ℚ → List Char) (db : Db) : ByteArray × ℕ :=
  ((String.ofList ((deliveredRows db).flatMap (exportLine floatRepr db))).toUTF8,
   (deliveredRows db).length)

def hexDigest (bytes : List UInt8) : String :=
  String.ofList (bytes.flatMap (fun b => (Nat.toDigits 16 b.toNat).leftpad 2 '0'))

/-- The location `_store` returns. -/
def storeLocation (settings : Settings) (version : ℕ) (checksum : String) : String :=
  let head := String.ofList (checksum.toList.take 12)
  let name := s!"panelist-grades-v{version}-{head}.jsonl"
  if settings.deliveryS3Bucket = "" then s!"{settings.deliveryDir}/{name}"
  else s!"s3://{settings.deliveryS3Bucket}/deliveries/{name}"

/-- `export`, apart from the bytes `_store` writes outside the database. -/
def exportDelivery (env : Env) (db : Db) (actor : String) :
    Except Failure (Db × Delivery) := do
  let (body, count) := buildJsonl env.floatRepr db
  let checksum := hexDigest (env.sha256 body)
  -- `coalesce(max(version), 0) + 1`
  let version := (db.deliveries.rows.map Delivery.version).foldl max 0 + 1
  let delivery : Delivery :=
    ⟨env.uuid4 0, version, checksum, storeLocation env.settings version checksum, count, body.size⟩
  let deliveries ← orFail (db.deliveries.insert delivery) (.integrity "deliveries_version_key")
  pure (record { db with deliveries := deliveries } actor "delivery.exported" "delivery"
    delivery.id.str, delivery)

/-- An export stores one delivery row. -/
theorem exportDelivery_ok {env : Env} {db db' : Db} {actor : String} {d : Delivery}
    (h : exportDelivery env db actor = .ok (db', d)) :
    ∃ deliveries events, db.deliveries.insert d = some deliveries ∧
      d.checksum = hexDigest (env.sha256 (buildJsonl env.floatRepr db).1) ∧
      db' = { db with deliveries := deliveries, auditEvents := events } := by
  simp only [exportDelivery, bind_ok_iff, orFail_ok_iff, pure_ok_iff, Prod.mk.injEq] at h
  obtain ⟨deliveries, hins, rfl, rfl⟩ := h
  exact ⟨deliveries, _, hins, rfl, rfl⟩

end Panelist
