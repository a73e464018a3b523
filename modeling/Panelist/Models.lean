import Panelist.Json
import Panelist.Table
import Panelist.Transaction

/-! The tables of `panelist.models` and what a request reads besides them.
Floats are exact rationals; `created_at` columns that nothing reads are left
out, and a review, a round and a payout are keyed by their unique foreign key. -/
namespace Panelist
open Relational Serial

/-- A 128-bit random id, as its integer value. -/
abbrev Uuid := ℕ

/-- Microseconds since the epoch. -/
abbrev Time := ℤ

/-- `str(uuid)`: 32 hex digits in groups of 8, 4, 4, 4 and 12. -/
def Uuid.str (u : Uuid) : String :=
  let d := (Nat.toDigits 16 u).leftpad 32 '0'
  String.ofList (d.take 8 ++ '-' :: (d.drop 8).take 4 ++ '-' :: (d.drop 12).take 4 ++
    '-' :: (d.drop 16).take 4 ++ '-' :: d.drop 20)

inductive Tier where
  | junior | senior | lead
  deriving DecidableEq, Repr

/-- `TIER_RANK`. -/
def Tier.rank : Tier → ℕ
  | .junior => 0
  | .senior => 1
  | .lead => 2

def Tier.value : Tier → String
  | .junior => "junior"
  | .senior => "senior"
  | .lead => "lead"

inductive ExpertStatus where
  | active | paused | inactive
  deriving DecidableEq, Repr

def ExpertStatus.value : ExpertStatus → String
  | .active => "active"
  | .paused => "paused"
  | .inactive => "inactive"

inductive TaskStatus where
  | queued | assigned | submitted | adjudication | approved | rejected
  deriving DecidableEq, Repr

def TaskStatus.value : TaskStatus → String
  | .queued => "queued"
  | .assigned => "assigned"
  | .submitted => "submitted"
  | .adjudication => "adjudication"
  | .approved => "approved"
  | .rejected => "rejected"

inductive ConsensusStatus where
  | agreed | adjudicating | adjudicated
  deriving DecidableEq, Repr

def ConsensusStatus.value : ConsensusStatus → String
  | .agreed => "agreed"
  | .adjudicating => "adjudicating"
  | .adjudicated => "adjudicated"

inductive ReviewDecision where
  | approve | reject
  deriving DecidableEq, Repr

def ReviewDecision.value : ReviewDecision → String
  | .approve => "approve"
  | .reject => "reject"

inductive PayoutStatus where
  | pending | withheld | paid
  deriving DecidableEq, Repr

inductive Role where
  | expert | reviewer | seniorReviewer | admin
  deriving DecidableEq, Repr

/-- `consensus_outvoted_payout`. -/
inductive OutvotedRule where
  | full | part | none
  deriving DecidableEq, Repr

/-- A JSON object or `dict` with string keys, none of which occurs twice. -/
instance (α : Type) : Row (String × α) String String where
  cols := Prod.fst
  key := id
  clash := Eq
  symm := Eq.symm
  clash_of_key := id

abbrev Dict (α : Type) := Table (String × α)

/-- `d.get(k)`. -/
def lookup {α : Type} (d : Dict α) (k : String) : Option α := (d.get k).map Prod.snd

/-! ### Rows -/

structure Expert where
  id : Uuid
  name : String
  tags : List String
  tier : Tier
  taskRateCents : Option ℤ
  status : ExpertStatus
  servedCount : ℕ
  calibrationScore : Option ℚ
  calibrationSamples : ℕ
  tierUpdatedAt : Option Time

instance : Row Expert Uuid Uuid where
  cols := Expert.id
  key := id
  clash := Eq
  symm := Eq.symm
  clash_of_key := id

structure TierChange where
  expertId : Uuid
  fromTier : Tier
  toTier : Tier
  score : ℚ
  samples : ℕ
  createdAt : Time

structure Rubric where
  id : Uuid
  name : String
  version : ℤ
  supersededAt : Option Time
  supersededById : Option Uuid

/-- Primary key and `uq_rubric_name_version`. -/
instance : Row Rubric (Uuid × String × ℤ) Uuid where
  cols := fun r => (r.id, r.name, r.version)
  key := Prod.fst
  clash := fun a b => a.1 = b.1 ∨ a.2 = b.2
  symm := fun h => h.imp Eq.symm Eq.symm
  clash_of_key := Or.inl

structure RubricCriterion where
  id : Uuid
  rubricId : Uuid
  key : String
  label : String
  weight : ℚ
  scaleMin : ℤ
  scaleMax : ℤ
  position : ℕ

/-- Primary key and `uq_criterion_key`. -/
instance : Row RubricCriterion (Uuid × Uuid × String) Uuid where
  cols := fun c => (c.id, c.rubricId, c.key)
  key := Prod.fst
  clash := fun a b => a.1 = b.1 ∨ a.2 = b.2
  symm := fun h => h.imp Eq.symm Eq.symm
  clash_of_key := Or.inl

structure RateCard where
  tier : Tier
  taskType : String
  rateCents : ℤ

instance : Row RateCard (Tier × String) (Tier × String) where
  cols := fun c => (c.tier, c.taskType)
  key := id
  clash := Eq
  symm := Eq.symm
  clash_of_key := id

structure Task where
  id : Uuid
  seq : ℕ
  externalRef : Option String
  prompt : String
  responses : List Json
  requiredTags : List String
  taskType : String
  minTier : Tier
  rubricId : Uuid
  pinnedRubricId : Option Uuid
  priority : ℤ
  deadline : Option Time
  status : TaskStatus
  requiredGrades : ℕ
  gradesReceived : ℕ
  isAttentionCheck : Bool
  expectedScores : Option (Dict ℚ)
  assignedExpertId : Option Uuid
  assignedAt : Option Time
  leaseExpiresAt : Option Time
  reclaimCount : ℕ

/-- Primary key and the unique `seq`. -/
instance : Row Task (Uuid × ℕ) Uuid where
  cols := fun t => (t.id, t.seq)
  key := Prod.fst
  clash := fun a b => a.1 = b.1 ∨ a.2 = b.2
  symm := fun h => h.imp Eq.symm Eq.symm
  clash_of_key := Or.inl

structure GradeScore where
  criterionId : Uuid
  score : ℚ

structure Grade where
  id : Uuid
  taskId : Uuid
  expertId : Uuid
  rubricId : Uuid
  scoresSnapshot : Dict ℚ
  rationale : String
  timeSpentSeconds : ℕ
  weightedScore : ℚ
  submittedAt : Time
  scores : List GradeScore

/-- Primary key and `uq_grade_task_expert`. -/
instance : Row Grade (Uuid × Uuid × Uuid) Uuid where
  cols := fun g => (g.id, g.taskId, g.expertId)
  key := Prod.fst
  clash := fun a b => a.1 = b.1 ∨ a.2 = b.2
  symm := fun h => h.imp Eq.symm Eq.symm
  clash_of_key := Or.inl

structure Review where
  gradeId : Uuid
  reviewerKeyId : Uuid
  decision : ReviewDecision
  reason : Option String
  createdAt : Time

instance : Row Review Uuid Uuid where
  cols := Review.gradeId
  key := id
  clash := Eq
  symm := Eq.symm
  clash_of_key := id

structure Consensus where
  taskId : Uuid
  status : ConsensusStatus
  gradeCount : ℕ
  spread : ℚ
  tolerance : ℚ
  deliveredGradeId : Option Uuid
  adjudicatorKeyId : Option Uuid
  reason : Option String
  createdAt : Time
  resolvedAt : Option Time

instance : Row Consensus Uuid Uuid where
  cols := Consensus.taskId
  key := id
  clash := Eq
  symm := Eq.symm
  clash_of_key := id

structure PayoutPeriod where
  id : Uuid
  label : String
  closedAt : Time

/-- Primary key and the unique `label`. -/
instance : Row PayoutPeriod (Uuid × String) Uuid where
  cols := fun p => (p.id, p.label)
  key := Prod.fst
  clash := fun a b => a.1 = b.1 ∨ a.2 = b.2
  symm := fun h => h.imp Eq.symm Eq.symm
  clash_of_key := Or.inl

/-- `id` is only printed: a payout is found by its grade. -/
structure Payout where
  id : Uuid
  gradeId : Uuid
  expertId : Uuid
  taskId : Uuid
  tier : Tier
  taskType : String
  amountCents : ℤ
  status : PayoutStatus
  periodId : Option Uuid
  createdAt : Time
  paidAt : Option Time

/-- The unique `grade_id` and `uq_payout_task_expert`. -/
instance : Row Payout (Uuid × Uuid × Uuid) Uuid where
  cols := fun p => (p.gradeId, p.taskId, p.expertId)
  key := Prod.fst
  clash := fun a b => a.1 = b.1 ∨ a.2 = b.2
  symm := fun h => h.imp Eq.symm Eq.symm
  clash_of_key := Or.inl

structure AttentionResult where
  id : Uuid
  taskId : Uuid
  expertId : Uuid
  gradeId : Uuid
  passed : Bool
  maxDeviation : ℚ
  createdAt : Time

instance : Row AttentionResult Uuid Uuid where
  cols := AttentionResult.id
  key := id
  clash := Eq
  symm := Eq.symm
  clash_of_key := id

/-- An audit row without its payload; its id is its place in the trail. -/
structure AuditEvent where
  actor : String
  action : String
  entityType : String
  entityId : String

structure ApiKey where
  id : Uuid
  keyHash : String
  role : Role
  expertId : Option Uuid
  label : String
  revokedAt : Option Time

/-- Primary key and the unique `key_hash`. -/
instance : Row ApiKey (Uuid × String) Uuid where
  cols := fun k => (k.id, k.keyHash)
  key := Prod.fst
  clash := fun a b => a.1 = b.1 ∨ a.2 = b.2
  symm := fun h => h.imp Eq.symm Eq.symm
  clash_of_key := Or.inl

/-- `id` is only printed. -/
structure Delivery where
  id : Uuid
  version : ℕ
  checksum : String
  location : String
  rowCount : ℕ
  sizeBytes : ℕ

instance : Row Delivery ℕ ℕ where
  cols := Delivery.version
  key := id
  clash := Eq
  symm := Eq.symm
  clash_of_key := id

/-! ### The database and a request's surroundings -/

structure Db where
  experts : Table Expert
  tierChanges : List TierChange
  rubrics : Table Rubric
  rubricCriteria : Table RubricCriterion
  rateCards : Table RateCard
  tasks : Table Task
  taskSeq : ℕ
  grades : Table Grade
  reviews : Table Review
  consensus : Table Consensus
  payoutPeriods : Table PayoutPeriod
  payouts : Table Payout
  attentionResults : Table AttentionResult
  auditEvents : List AuditEvent
  apiKeys : Table ApiKey
  deliveries : Table Delivery

def Db.empty : Db where
  experts := .empty
  tierChanges := []
  rubrics := .empty
  rubricCriteria := .empty
  rateCards := .empty
  tasks := .empty
  taskSeq := 0
  grades := .empty
  reviews := .empty
  consensus := .empty
  payoutPeriods := .empty
  payouts := .empty
  attentionResults := .empty
  auditEvents := []
  apiKeys := .empty
  deliveries := .empty

/-- The part of `panelist.config.Settings` the services read. -/
structure Settings where
  leaseSeconds : ℤ := 900
  attentionFraction : ℚ := 1 / 10
  attentionKey : String := "panelist"
  attentionWindow : ℕ := 10
  attentionMinChecks : ℕ := 3
  attentionThreshold : ℚ := 7 / 10
  attentionTolerance : ℚ := 1
  calibrationWindow : ℕ := 20
  calibrationMinSamples : ℕ := 5
  calibrationPromoteAt : ℚ := 9 / 10
  calibrationDemoteAt : ℚ := 6 / 10
  consensusTolerance : ℚ := 1
  consensusOutvotedPayout : OutvotedRule := .part
  consensusOutvotedRate : ℚ := 1 / 2
  deliveryDir : String := "./deliveries"
  deliveryS3Bucket : String := ""

/-- What a request reads besides the database: one clock reading, the settings,
the random ids it draws in order, the ones it draws for the payouts of grades, SHA-256 and how
Python writes a float. -/
structure Env where
  now : Time
  settings : Settings
  uuid4 : ℕ → Uuid
  payoutUuid4 : Uuid → Uuid
  sha256 : ByteArray → List UInt8
  floatRepr : ℚ → List Char

/-- Why a request rolled back: a `ServiceError` or `HTTPException` with its
status code, a constraint violated at flush, or another exception that nothing handles. -/
inductive Failure where
  | http (statusCode : ℕ) (detail : String)
  | integrity (constraint : String)
  | raised (error : String)
  deriving DecidableEq

/-- A value that a 32-bit `INTEGER` column takes. -/
def storableInt (n : ℤ) : Prop := -2 ^ 31 ≤ n ∧ n < 2 ^ 31

instance (n : ℤ) : Decidable (storableInt n) := inferInstanceAs (Decidable (_ ∧ _))

/-- A text that a `TEXT` column takes. -/
def storableText (s : String) : Prop := '\x00' ∉ s.toList

instance (s : String) : Decidable (storableText s) := inferInstanceAs (Decidable (¬ _))

/-- The row of a review can be sent to the database. -/
def Review.storable (v : Review) : Prop := ∀ reason ∈ v.reason, storableText reason

instance (v : Review) : Decidable v.storable := inferInstanceAs (Decidable (∀ _ ∈ v.reason, _))

/-- `audit.record`. -/
def record (db : Db) (actor action entityType entityId : String) : Db :=
  { db with auditEvents := db.auditEvents ++ [⟨actor, action, entityType, entityId⟩] }

end Panelist
