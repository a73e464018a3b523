import Panelist.Stringify
import Panelist.SideEffects

/-! `web/src/sim/platform.ts`: the in-memory port of the service that the browser runs.
Where the source holds a reference to an object, a task is addressed by the number it was given,
another row as the first one with its id. What a method wrote before it throws stays written. -/
namespace Panelist.Port
open Script Transaction Transaction.Lasting

/-- What the platform takes from its surroundings: the digest, the ids the generator draws in
order, and how numbers that are not whole are written. -/
structure Host where
  sha256Hex : String → String
  uuid : ℕ → String
  numberText : ℚ → List Char

/-! ### Rows -/

structure Settings where
  leaseSeconds : ℚ
  attentionFraction : ℚ
  attentionKey : String
  attentionWindow : ℤ
  attentionMinChecks : ℤ
  attentionThreshold : ℚ
  attentionTolerance : ℚ

structure Criterion where
  key : String
  weight : Number
  scaleMin : ℚ
  scaleMax : ℚ
  position : ℕ

structure Rubric where
  id : String
  name : String
  version : Number
  criteria : List Criterion

structure Expert where
  id : String
  name : String
  tags : List String
  tier : Tier
  taskRateCents : Option Number
  status : ExpertStatus
  servedCount : ℕ

/-- Times are milliseconds. The status is never `adjudication`. -/
structure Task where
  id : String
  seq : ℕ
  externalRef : String
  prompt : String
  responses : List Response
  requiredTags : List String
  taskType : String
  minTier : Tier
  rubricId : String
  priority : ℚ
  deadline : Option ℚ
  status : TaskStatus
  requiredGrades : ℕ
  gradesReceived : ℕ
  isAttentionCheck : Bool
  expectedScores : Option (Dict ℚ)
  assignedExpertId : Option String
  assignedAt : Option ℚ
  leaseExpiresAt : Option ℚ
  reclaimCount : ℕ

structure Review where
  gradeId : String
  decision : ReviewDecision
  reason : Option String
  reviewedAt : ℚ

structure Grade where
  id : String
  taskId : String
  expertId : String
  rubricId : String
  scores : Dict ℚ
  rationale : String
  timeSpentSeconds : Number
  weightedScore : Number
  submittedAt : ℚ
  review : Option Review

structure Payout where
  id : String
  seq : ℕ
  expertId : String
  taskId : String
  gradeId : String
  tier : Tier
  taskType : String
  amountCents : Number
  status : PayoutStatus
  periodId : Option String
  paidAt : Option ℚ

structure PayoutPeriod where
  id : String
  label : String
  closedAt : ℚ

structure AttentionResult where
  seq : ℕ
  taskId : String
  expertId : String
  gradeId : String
  passed : Bool
  maxDeviation : Number
  at_ : ℚ

structure Delivery where
  version : ℕ
  checksum : String
  location : String
  rowCount : ℕ
  sizeBytes : ℕ

structure RateCard where
  tier : Tier
  taskType : String
  rateCents : Number

structure ServiceError where
  statusCode : ℕ
  detail : String

/-- What is thrown: an error of the service or one of the language. -/
inductive Failure where
  | service (e : ServiceError)
  | error (message : String)

/-- `locked` holds the rows of an open claim, `drawn` counts the ids drawn so far. -/
structure Platform where
  settings : Settings
  clock : ℚ
  experts : List Expert
  tasks : List Task
  grades : List Grade
  payouts : List Payout
  periods : List PayoutPeriod
  attentionResults : List AttentionResult
  deliveries : List Delivery
  rateCards : String → Option RateCard
  rubric : Option Rubric
  locked : List String
  drawn : ℕ
  taskSeq : ℕ
  payoutSeq : ℕ
  attentionSeq : ℕ

/-- `new Platform(settings, clock, idSeed)`. -/
def Platform.new (settings : Settings) (clock : ℚ) : Platform where
  settings := settings
  clock := clock
  experts := []
  tasks := []
  grades := []
  payouts := []
  periods := []
  attentionResults := []
  deliveries := []
  rateCards := fun _ => none
  rubric := none
  locked := []
  drawn := 0
  taskSeq := 0
  payoutSeq := 0
  attentionSeq := 0

/-- A method that may throw. -/
abbrev Method (α : Type) := Lasting Platform ServiceError α

/-- An assignment to the first row with the key. -/
def assignTo {α κ : Type} [DecidableEq κ] (key : α → κ) (k : κ) (f : α → α) : List α → List α
  | [] => []
  | x :: xs => if key x = k then f x :: xs else x :: assignTo key k f xs

namespace Platform
variable (host : Host) (P : Platform)

def updateTask (task : Task) (f : Task → Task) : Platform :=
  { P with tasks := assignTo Task.seq task.seq f P.tasks }

def updateExpert (expert : Expert) (f : Expert → Expert) : Platform :=
  { P with experts := assignTo Expert.id expert.id f P.experts }

/-! ### Seeding -/

/-- `given ?? this.ids.uuid()`. -/
def idOr (given : Option String) : Platform × String :=
  match given with
  | some id => (P, id)
  | none => ({ P with drawn := P.drawn + 1 }, host.uuid P.drawn)

def createRubric (name : String) (version : Number) (criteria : List (String × Number))
    (id : Option String) : Platform :=
  let (P, id) := P.idOr host id
  let criteria := criteria.zipIdx.map (fun (c, i) => ⟨c.1, c.2, 1, 5, i⟩)
  { P with rubric := some ⟨id, name, version, criteria⟩ }

/-- The key of a card in the map. -/
def cardKey (tier : Tier) (taskType : String) : String := tier.value ++ ":" ++ taskType

def putRateCards (cards : List RateCard) : Platform :=
  { P with
    rateCards := cards.foldl (fun m card =>
      Function.update m (cardKey card.tier card.taskType) (some card)) P.rateCards }

end Platform

structure ExpertInput where
  id : Option String
  name : String
  tags : List String
  tier : Tier
  taskRateCents : Option Number

structure TaskInput where
  id : Option String
  externalRef : String
  prompt : String
  responses : List Response
  requiredTags : List String
  taskType : String
  minTier : Tier
  priority : ℚ
  deadline : Option ℚ
  requiredGrades : ℕ
  isAttentionCheck : Bool
  expectedScores : Option (Dict ℚ)

namespace Platform
variable (host : Host) (P : Platform)

def createExpert (input : ExpertInput) : Platform :=
  let (P, id) := P.idOr host input.id
  { P with
    experts := P.experts ++
      [⟨id, input.name, input.tags, input.tier, input.taskRateCents, .active, 0⟩] }

/-- One turn of the `map` in `createTasks`. -/
def createTask (rubricId : String) (P : Platform) (input : TaskInput) : Platform :=
  -- an id that is given is taken as it is, also a second time
  let (P, id) := P.idOr host input.id
  let task : Task :=
    { id := id
      seq := P.taskSeq + 1
      externalRef := input.externalRef
      prompt := input.prompt
      responses := input.responses
      requiredTags := input.requiredTags
      taskType := input.taskType
      minTier := input.minTier
      rubricId := rubricId
      priority := input.priority
      deadline := input.deadline
      status := .queued
      requiredGrades := input.requiredGrades
      gradesReceived := 0
      isAttentionCheck := input.isAttentionCheck
      expectedScores := input.expectedScores
      assignedExpertId := none
      assignedAt := none
      leaseExpiresAt := none
      reclaimCount := 0 }
  { P with tasks := P.tasks ++ [task], taskSeq := P.taskSeq + 1 }

def createTasks (inputs : List TaskInput) : Method Unit := do
  let P ← get
  let rubric ← lift (orFail P.rubric ⟨422, "no rubric"⟩)
  set (inputs.foldl (createTask host rubric.id) P)

/-! ### Lookups -/

def expert (id : String) : Except ServiceError Expert :=
  orFail (P.experts.find? (fun x => x.id = id)) ⟨404, "expert not found"⟩

def task (id : String) : Except ServiceError Task :=
  orFail (P.tasks.find? (fun x => x.id = id)) ⟨404, "task not found"⟩

def grade (id : String) : Except ServiceError Grade :=
  orFail (P.grades.find? (fun x => x.id = id)) ⟨404, "grade not found"⟩

end Platform

/-! ### Routing -/

def Task.unassigned (t : Task) : Task :=
  { t with status := .queued, assignedExpertId := none, assignedAt := none, leaseExpiresAt := none }

def Task.reclaimed (t : Task) : Task := { t.unassigned with reclaimCount := t.reclaimCount + 1 }

def Expert.served (e : Expert) : Expert := { e with servedCount := e.servedCount + 1 }

/-- `eligibleTiers`. -/
def eligibleTiers (tier : Tier) : List Tier :=
  [Tier.junior, .senior, .lead].filter (fun t => t.rank ≤ tier.rank)

/-- `xs.some((x) => ys.includes(x))`. -/
def overlap (xs ys : List String) : Bool := xs.any (fun x => ys.contains x)

/-- `order`: priority, then deadline with nulls last, then sequence. -/
def order (a b : Task) : ℚ :=
  if a.priority ≠ b.priority then b.priority - a.priority
  else if a.deadline = b.deadline then a.seq - b.seq
  else match a.deadline, b.deadline with
    | none, _ => 1
    | _, none => -1
    | some x, some y => x - y

/-- `parseInt(digest.slice(0, 8), 16)`. -/
def leadingHex (digest : String) : ℕ :=
  (digest.toList.take 8).foldl (fun n c => 16 * n + digit c) 0
where
  digit (c : Char) : ℕ := if c.isDigit then c.toNat - 48 else c.toNat - 87

/-- `prefersAttentionCheck`. -/
def prefersAttentionCheck (host : Host) (settings : Settings) (expertId : String)
    (serveIndex : ℕ) : Bool :=
  if settings.attentionFraction ≤ 0 then false
  else if 1 ≤ settings.attentionFraction then true
  else
    let digest := host.sha256Hex s!"{settings.attentionKey}:{expertId}:{serveIndex}"
    (leadingHex digest : ℚ) / 2 ^ 32 < settings.attentionFraction

inductive ClaimResult where
  | claimed (task : Task) (preferredGolden : Bool)
  | refused (statusCode : ℕ) (detail : String)

namespace Platform
variable (host : Host) (P : Platform)

/-- `reclaimExpired` takes this task back. -/
def expired (t : Task) : Bool :=
  decide (t.status = .assigned) && t.leaseExpiresAt.any (fun l => l < P.clock) &&
    !P.locked.contains t.id

def reclaimExpired : Platform :=
  { P with tasks := P.tasks.map (fun t => if P.expired t then t.reclaimed else t) }

def alreadyGraded (expert : Expert) (task : Task) : Bool :=
  P.grades.any (fun g => g.taskId = task.id ∧ g.expertId = expert.id)

def isEligible (expert : Expert) (task : Task) : Bool :=
  decide (task.status = .queued) && overlap task.requiredTags expert.tags &&
    (eligibleTiers expert.tier).contains task.minTier && !P.alreadyGraded expert task

/-- `candidates`; no wish is `none`. -/
def candidates (expert : Expert) (wantAttention : Option Bool) : List Task :=
  ((P.tasks.filter (fun t => P.isEligible expert t && !P.locked.contains t.id)).filter
    (fun t => wantAttention.all (fun want => t.isAttentionCheck = want))).insertionSort
      (fun a b => order a b ≤ 0)

def pick (expert : Expert) (wantAttention : Option Bool) : Option Task :=
  (P.candidates expert wantAttention).head?

end Platform

/-- The fields of a task that `assign` writes. -/
def Task.assignTo (now leaseSeconds : ℚ) (expertId : String) (t : Task) : Task :=
  { t with
    status := .assigned
    assignedExpertId := some expertId
    assignedAt := some now
    leaseExpiresAt := some (now + leaseSeconds * 1000) }

namespace Platform
variable (host : Host) (P : Platform)

def assign (task : Task) (expert : Expert) : Platform × Task :=
  let f := Task.assignTo P.clock P.settings.leaseSeconds expert.id
  ((P.updateTask task f).updateExpert expert Expert.served, f task)

/-- The task `claimNext` settles on. -/
def claimCandidate (expert : Expert) : Option Task :=
  (if prefersAttentionCheck host P.settings expert.id (expert.servedCount + 1)
    then P.pick expert (some true) else none).or (P.pick expert (some false))

/-- `claimNext`; `expert` is its row. -/
def claimNext (expert : Expert) : Platform × ClaimResult :=
  if expert.status ≠ .active then (P, .refused 423 s!"expert is {expert.status.value}")
  else
    let P := P.reclaimExpired
    -- what was reclaimed stays reclaimed when nothing is served
    match P.claimCandidate host expert with
    | none => (P, .refused 204 "queue empty for this expert")
    | some task =>
      let (P, task) := P.assign task expert
      (P, .claimed task (prefersAttentionCheck host P.settings expert.id (expert.servedCount + 1)))

/-- The checks of `claimById` that follow its reclaim. -/
def claimableById (expert : Expert) (taskId : String) : Except ServiceError Task := do
  let task ← orFail (P.tasks.find? (fun t => t.id = taskId)) ⟨404, "task not found"⟩
  require (¬ P.locked.contains task.id) ⟨409, "task is being claimed by another expert"⟩
  require (task.status = .queued) ⟨409, s!"task is {task.status.value}"⟩
  require (overlap task.requiredTags expert.tags)
    ⟨403, "task requires expertise the expert does not have"⟩
  require (task.minTier.rank ≤ expert.tier.rank) ⟨403, "task requires a higher tier"⟩
  pure task

/-- `claimById`; `holdLock` keeps the row locked after the call. -/
def claimById (expert : Expert) (taskId : String) (holdLock : Bool) : Method Task := do
  lift (require (expert.status = .active) ⟨423, s!"expert is {expert.status.value}"⟩)
  -- a throw below leaves the reclaim behind: there is no rollback
  modify reclaimExpired
  let P ← get
  let task ← lift (P.claimableById expert taskId)
  let P := if holdLock then { P with locked := task.id :: P.locked } else P
  let (P, task) := P.assign task expert
  set P
  pure task

/-- `releaseLock`. -/
def releaseLock (taskId : String) : Platform :=
  { P with locked := P.locked.filter (fun k => k ≠ taskId) }

def release (expert : Expert) (taskId : String) : Method Task := do
  let P ← get
  let task ← lift (P.task taskId)
  lift (require (task.status = .assigned ∧ task.assignedExpertId = some expert.id)
    ⟨409, "task is not assigned to this expert"⟩)
  set (P.updateTask task Task.unassigned)
  pure task.unassigned

/-! ### Attention -/

/-- `evaluateAttention`. -/
def evaluateAttention (task : Task) (grade : Grade) : Platform × Option AttentionResult :=
  match task.expectedScores with
  | some expected =>
    if task.isAttentionCheck then
      let deviations := expected.rows.map (fun (k, exp) =>
        -- a missing key reads as 0, an inherited member as what it converts to
        absolute ((memberOr0 grade.scores.rows k).toNumber.add (Binary64.Value.round exp).neg))
      let deviation := maximum deviations
      let result : AttentionResult :=
        { seq := P.attentionSeq + 1
          taskId := task.id
          expertId := grade.expertId
          gradeId := grade.id
          passed := lessEq deviation (.round P.settings.attentionTolerance)
          maxDeviation := deviation
          at_ := P.clock }
      ({ P with
        attentionResults := P.attentionResults ++ [result]
        attentionSeq := P.attentionSeq + 1 }, some result)
    else (P, none)
  | none => (P, none)

/-- `xs.slice(0, n)`. -/
def slice {α : Type} (xs : List α) (n : ℤ) : List α :=
  -- a negative end counts from the back
  if 0 ≤ n then xs.take n.toNat else xs.take (xs.length - (-n).toNat)

/-- The checks that the rolling rate counts. -/
def recentChecks (expertId : String) : List AttentionResult :=
  slice ((P.attentionResults.filter (fun r => r.expertId = expertId)).insertionSort
    (fun a b => b.seq ≤ a.seq)) P.settings.attentionWindow

/-- `rollingPassRate`: rate, passed and total. -/
def rollingPassRate (expertId : String) : Option Number × ℕ × ℕ :=
  let recent := P.recentChecks expertId
  if recent.length = 0 then (none, 0, 0)
  else
    let passed := (recent.filter (fun r => r.passed)).length
    (some (.div (.round passed) (.round recent.length)), passed, recent.length)

def withhold (expertId : String) (p : Payout) : Payout :=
  if p.expertId = expertId ∧ p.status = .pending then { p with status := .withheld } else p

/-- `enforceAttention`; whether it paused the expert. -/
def enforceAttention (expert : Expert) : Platform × Bool :=
  match P.rollingPassRate expert.id with
  | (none, _, _) => (P, false)
  | (some rate, _, total) =>
    -- too few checks to judge by, or good enough
    if total < P.settings.attentionMinChecks ∨
        lessEq (.round P.settings.attentionThreshold) rate then (P, false)
    else if expert.status = .paused then (P, false)
    else
      ({ P.updateExpert expert (fun e => { e with status := .paused }) with
        payouts := P.payouts.map (withhold expert.id) }, true)

def putBack (expertId : String) (p : Payout) : Payout :=
  if p.expertId = expertId ∧ p.status = .withheld then { p with status := .pending } else p

/-- `reinstate`. -/
def reinstate (expert : Expert) : Platform :=
  { P.updateExpert expert (fun e => { e with status := .active }) with
    payouts := P.payouts.map (putBack expert.id) }

/-! ### Grading -/

/-- `xs.join(", ")`. -/
def joinComma (xs : List String) : String := String.intercalate ", " xs

/-- `xs.sort()`. -/
def sorted (xs : List String) : List String := xs.insertionSort before

/-- `byKey.get(key)`: the last criterion with the key. -/
def byKey (rubric : Rubric) (key : String) : Option Criterion :=
  rubric.criteria.reverse.find? (fun c => c.key = key)

/-- The first score outside its scale. -/
def outOfScale (rubric : Rubric) (scores : Dict ℚ) : Option (String × Criterion) :=
  scores.rows.findSome? (fun (key, value) => (byKey rubric key).bind (fun c =>
    -- the first score in the order of the object's entries
    if c.scaleMin ≤ value ∧ value ≤ c.scaleMax then none else some (key, c)))

def validateScores (scores : Dict ℚ) : Except ServiceError Unit := do
  let rubric ← orFail P.rubric ⟨422, "no rubric"⟩
  let keys := (rubric.criteria.map Criterion.key).dedup
  let missing := sorted (keys.filter (fun k => ¬ hasMember scores.rows k))
  let unknown := sorted ((scores.rows.map Prod.fst).filter (fun k => ¬ keys.contains k))
  require (missing = [] ∧ unknown = [])
    ⟨422, s!"scores mismatch rubric: missing=[{joinComma missing}] unknown=[{joinComma unknown}]"⟩
  -- the first score out of its scale is the one reported
  match outOfScale rubric scores with
  | some (key, c) =>
    throw ⟨422, s!"score for {key} must be within [{c.scaleMin}, {c.scaleMax}]"⟩
  | none => pure ()

/-- `weighted`, under the rubric in force. -/
def weighted (rubric : Rubric) (scores : Dict ℚ) : Number :=
  let total := Binary64.Value.sum (rubric.criteria.map Criterion.weight)
  -- neither a zero nor `NaN` passes `|| 1`
  let total := if total = .nan ∨ total.toRat = some 0 then .round 1 else total
  let sum := Binary64.Value.sum (rubric.criteria.map (fun c =>
    (memberOr0 scores.rows c.key).toNumber.mul c.weight))
  sum.div total

end Platform

/-- The fields of a task that `submitGrade` writes. -/
def Task.graded (t : Task) : Task :=
  { t with
    gradesReceived := t.gradesReceived + 1
    assignedExpertId := none
    assignedAt := none
    leaseExpiresAt := none
    status := if t.isAttentionCheck ∨ t.gradesReceived + 1 < t.requiredGrades then .queued
      else .submitted }

namespace Platform
variable (host : Host) (P : Platform)

/-- One id further in the generator. -/
def nextId : Platform := { P with drawn := P.drawn + 1 }

/-- `this.ids.uuid()`. -/
def draw : Method String := do
  let P ← get
  set P.nextId
  pure (host.uuid P.drawn)

/-- The check of a grade and what a failed one does. -/
def checkGrade (expert : Expert) (task : Task) (grade : Grade) : Platform :=
  match P.evaluateAttention task grade with
  | (P, some result) => if result.passed then P else (P.enforceAttention expert).1
  | (P, none) => P

def submitGrade (expert : Expert) (taskId : String) (scores : Dict ℚ) (rationale : String)
    (timeSpentSeconds : Number) : Method Grade := do
  let P ← get
  let task ← lift (P.task taskId)
  lift (require (task.status = .assigned ∧ task.assignedExpertId = some expert.id)
    ⟨409, "task is not assigned to this expert"⟩)
  lift (P.validateScores scores)
  -- from here on nothing throws
  let id ← draw host
  let rubric ← lift (orFail P.rubric ⟨422, "no rubric"⟩)
  let grade : Grade :=
    { id := id
      taskId := task.id
      expertId := expert.id
      -- the task's rubric, not the one the scores were checked against
      rubricId := task.rubricId
      scores := scores
      rationale := rationale
      timeSpentSeconds := timeSpentSeconds
      weightedScore := weighted rubric scores
      submittedAt := P.clock
      review := none }
  modify (fun P => { P with grades := P.grades ++ [grade] })
  modify (fun P => P.updateTask task Task.graded)
  -- the check looks at the task as it has just been written
  modify (fun P => P.checkGrade expert task.graded grade)
  pure grade

/-! ### Reviews and payouts -/

def rateFor (expert : Expert) (taskType : String) : Except ServiceError Number :=
  match expert.taskRateCents with
  | some cents => pure cents
  | none => do
    let tier := expert.tier.value
    let card ← orFail ((P.rateCards (cardKey expert.tier taskType)).or
        (P.rateCards (cardKey expert.tier "default")))
      ⟨422, s!"no rate configured for tier={tier} type={taskType}"⟩
    pure card.rateCents

def createPayout (grade : Grade) (task : Task) : Method Payout := do
  let P ← get
  match P.payouts.find? (fun p => p.gradeId = grade.id) with
  | some existing => pure existing
  | none => do
    let expert ← lift (P.expert grade.expertId)
    -- throws 422 without a rate, after `review` has written its verdict
    let amount ← lift (P.rateFor expert task.taskType)
    let id ← draw host
    let payout : Payout :=
      { id := id
        seq := P.payoutSeq + 1
        expertId := expert.id
        taskId := task.id
        gradeId := grade.id
        tier := expert.tier
        taskType := task.taskType
        amountCents := amount
        status := if expert.status = .paused then .withheld else .pending
        periodId := none
        paidAt := none }
    modify (fun P => { P with payouts := P.payouts ++ [payout], payoutSeq := P.payoutSeq + 1 })
    pure payout

end Platform

/-- What a review does to its task. -/
def Task.reviewed (decision : ReviewDecision) (t : Task) : Task :=
  if t.isAttentionCheck then t
  else if decision = .approve then { t with status := .approved }
  else if t.requiredGrades = 1 then
    { t with status := .queued, gradesReceived := t.gradesReceived - 1 }
  else if t.status ≠ .approved then { t with status := .rejected }
  else t

namespace Platform
variable (host : Host) (P : Platform)

/-- The platform in which `gradeId` carries a verdict. -/
def marked (gradeId : String) (verdict : Review) : Platform :=
  { P with
    grades := assignTo Grade.id gradeId (fun g => { g with review := some verdict }) P.grades }

def review (gradeId : String) (decision : ReviewDecision) (reason : Option String) :
    Method (Option Payout) := do
  let P ← get
  let grade ← lift (P.grade gradeId)
  lift (require (grade.review.isNone) ⟨409, "grade already reviewed"⟩)
  -- written before anything that can still throw
  modify (fun P => P.marked grade.id ⟨gradeId, decision, reason, P.clock⟩)
  let task ← lift (P.task grade.taskId)
  let payout ← if decision = .approve then some <$> createPayout host grade task else pure none
  modify (fun P => P.updateTask task (Task.reviewed decision))
  pure payout

/-- What closing a period does to a payout. -/
def settle (period : PayoutPeriod) (p : Payout) : Payout :=
  if p.status = .pending ∧ p.periodId = none then
    { p with status := .paid, periodId := some period.id, paidAt := some period.closedAt }
  else p

structure PeriodTotals where
  id : String
  label : String
  closedAt : ℚ
  payoutCount : ℕ
  totalCents : Number
  expertCount : ℕ

/-- The payouts of a period. -/
def inPeriod (period : PayoutPeriod) : List Payout :=
  P.payouts.filter (fun p => p.periodId = some period.id)

def periodTotals (period : PayoutPeriod) : PeriodTotals :=
  let rows := P.inPeriod period
  { id := period.id
    label := period.label
    closedAt := period.closedAt
    payoutCount := rows.length
    totalCents := .sum (rows.map Payout.amountCents)
    expertCount := (rows.map Payout.expertId).dedup.length }

def closePeriod (label : String) : Method PeriodTotals := do
  let P ← get
  lift (require (¬ P.periods.any (fun p => p.label = label))
    ⟨409, s!"period {label} already closed"⟩)
  let id ← draw host
  let period : PayoutPeriod := ⟨id, label, P.clock⟩
  modify (fun P => { P with
    periods := P.periods ++ [period]
    payouts := P.payouts.map (settle period) })
  let P ← get
  pure (P.periodTotals period)

/-! ### Delivery -/

/-- Rows of a delivery are ordered by task, then by the text of the expert's id. -/
def deliveredBefore (a b : Grade × Task) : Prop :=
  a.2.seq < b.2.seq ∨ a.2.seq = b.2.seq ∧ before a.1.expertId b.1.expertId

instance : DecidableRel deliveredBefore := fun _ _ => inferInstanceAs (Decidable (_ ∨ _))

/-- The row of an approved grade. -/
def deliveryRow (rubric : Rubric) (g : Grade) (task : Task) : Except ServiceError DeliveryRow := do
  let expert ← P.expert g.expertId
  let criteria := rubric.criteria.insertionSort (fun a b => a.position ≤ b.position)
  pure
    { taskId := task.id
      externalRef := task.externalRef
      taskType := task.taskType
      requiredTags := sorted task.requiredTags
      prompt := task.prompt
      responses := task.responses
      rubricId := rubric.id
      rubricName := rubric.name
      rubricVersion := rubric.version
      expertId := g.expertId
      expertTier := expert.tier
      scores := (criteria.map Criterion.key).dedup.map (fun k => (k, memberOr0 g.scores.rows k))
      weightedScore := g.weightedScore
      rationale := g.rationale
      timeSpentSeconds := g.timeSpentSeconds }

def deliveryRows : Except ServiceError (List DeliveryRow) :=
  match P.rubric with
  | none => pure []
  | some rubric => do
    let approved := P.grades.filter (fun g => g.review.any (fun r => r.decision = .approve))
    -- a grade whose task is gone throws
    let pairs ← approved.mapM (fun g => (fun t => (g, t)) <$> P.task g.taskId)
    let rows := (pairs.filter (fun p => ¬ p.2.isAttentionCheck)).insertionSort deliveredBefore
    rows.mapM (fun p => P.deliveryRow rubric p.1 p.2)

def exportDelivery : Method Unit := do
  let P ← get
  let rows ← lift P.deliveryRows
  let body := String.ofList (jsonl host.numberText rows)
  let checksum := host.sha256Hex body
  -- one above the highest there is
  let version := (P.deliveries.map Delivery.version).foldl max 0 + 1
  let head := String.ofList (checksum.toList.take 12)
  let name := s!"panelist-grades-v{version}-{head}.jsonl"
  let delivery : Delivery :=
    ⟨version, checksum, s!"deliveries/{name}", rows.length, body.utf8ByteSize⟩
  set { P with deliveries := P.deliveries ++ [delivery] }

end Platform

/-! ### Calls -/

/-- What the page does with a platform. An expert is the row that `expert` finds. -/
inductive Call where
  | createRubric (name : String) (version : Number) (criteria : List (String × Number))
      (id : Option String)
  | putRateCards (cards : List RateCard)
  | createExpert (input : ExpertInput)
  | createTasks (inputs : List TaskInput)
  | advance (ms : ℚ≥0)
  | claimNext (expertId : String)
  | claimById (expertId taskId : String) (holdLock : Bool)
  | releaseLock (taskId : String)
  | reclaimExpired
  | release (expertId taskId : String)
  | submitGrade (expertId taskId : String) (scores : Dict ℚ) (rationale : String)
      (timeSpentSeconds : Number)
  | enforceAttention (expertId : String)
  | reinstate (expertId : String)
  | review (gradeId : String) (decision : ReviewDecision) (reason : Option String)
  | closePeriod (label : String)
  | exportDelivery

namespace Platform

/-- `platform.expert(id)`, before a method that takes the expert. -/
def withExpert {α : Type} (expertId : String) (m : Expert → Method α) : Method Unit := do
  let P ← get
  let expert ← lift (P.expert expertId)
  discard (m expert)

def perform (host : Host) : Call → Method Unit
  | .createRubric name version criteria id =>
    modify (fun P => P.createRubric host name version criteria id)
  | .putRateCards cards => modify (fun P => P.putRateCards cards)
  | .createExpert input => modify (fun P => P.createExpert host input)
  | .createTasks inputs => createTasks host inputs
  | .advance ms => modify (fun P => { P with clock := P.clock + ms })
  | .claimNext expertId =>
    withExpert expertId (fun expert => modify (fun P => (P.claimNext host expert).1))
  | .claimById expertId taskId holdLock =>
    withExpert expertId (fun expert => claimById expert taskId holdLock)
  | .releaseLock taskId => modify (fun P => P.releaseLock taskId)
  | .reclaimExpired => modify reclaimExpired
  | .release expertId taskId => withExpert expertId (fun expert => release expert taskId)
  | .submitGrade expertId taskId scores rationale timeSpentSeconds =>
    withExpert expertId (fun expert =>
      submitGrade host expert taskId scores rationale timeSpentSeconds)
  | .enforceAttention expertId =>
    withExpert expertId (fun expert => modify (fun P => (P.enforceAttention expert).1))
  | .reinstate expertId => withExpert expertId (fun expert => modify (fun P => P.reinstate expert))
  | .review gradeId decision reason => discard (review host gradeId decision reason)
  | .closePeriod label => discard (closePeriod host label)
  | .exportDelivery => exportDelivery host

/-- A call as a step that always goes through: what it threw is its answer. -/
def step (host : Host) (call : Call) (P : Platform) :
    Except Empty (Platform × Except ServiceError Unit) :=
  let (answer, P') := exec (perform host call) P
  -- the rows written before a throw are kept
  .ok (P', answer)

end Platform

/-! ### What the methods do -/

section Specs
variable (host : Host) (P : Platform) (expert : Expert)

/-- The holder of a task may grade and release it. -/
def Task.HeldBy (t : Task) (expertId : String) : Prop :=
  t.status = .assigned ∧ t.assignedExpertId = some expertId

namespace Platform

theorem exec_withExpert {α : Type} (expertId : String) (m : Expert → Method α) :
    exec (withExpert expertId m) P = match P.expert expertId with
      | .ok expert => ((exec (m expert) P).1.map (fun _ => ()), (exec (m expert) P).2)
      | .error e => (.error e, P) := by
  unfold withExpert
  rw [exec_get_bind, exec_lift_bind]
  cases P.expert expertId with
  | ok expert => exact exec_map _ _ _
  | error e => rfl

theorem exec_release (taskId : String) : exec (release expert taskId) P =
    match P.task taskId with
    | .error e => (.error e, P)
    | .ok task =>
      if task.status = .assigned ∧ task.assignedExpertId = some expert.id then
        (.ok task.unassigned, P.updateTask task Task.unassigned)
      else (.error ⟨409, "task is not assigned to this expert"⟩, P) := by
  unfold release
  rw [exec_get_bind, exec_lift_bind]
  cases P.task taskId with
  | error e => rfl
  | ok task =>
    dsimp only
    rw [exec_lift_bind, require]
    split_ifs <;> rfl

theorem exec_claimById (taskId : String) (holdLock : Bool) :
    exec (claimById expert taskId holdLock) P =
    if expert.status = .active then
      match P.reclaimExpired.claimableById expert taskId with
      | .error e => (.error e, P.reclaimExpired)
      | .ok task =>
        let Q := if holdLock then { P.reclaimExpired with locked := task.id :: P.locked }
          else P.reclaimExpired
        (.ok (Q.assign task expert).2, (Q.assign task expert).1)
    else (.error ⟨423, s!"expert is {expert.status.value}"⟩, P) := by
  unfold claimById
  rw [exec_lift_bind, require]
  by_cases hactive : expert.status = .active
  · rw [if_pos hactive, if_pos hactive]
    dsimp only
    rw [exec_modify_bind, exec_get_bind, exec_lift_bind]
    cases P.reclaimExpired.claimableById expert taskId <;> rfl
  · rw [if_neg hactive, if_neg hactive]

/-- The grade `submitGrade` stores. -/
def newGrade (rubric : Rubric) (task : Task) (scores : Dict ℚ) (rationale : String)
    (timeSpentSeconds : Number) : Grade where
  id := host.uuid P.drawn
  taskId := task.id
  expertId := expert.id
  rubricId := task.rubricId
  scores := scores
  rationale := rationale
  timeSpentSeconds := timeSpentSeconds
  weightedScore := weighted rubric scores
  submittedAt := P.clock
  review := none

/-- The platform after an accepted grade. -/
def afterGrade (task : Task) (grade : Grade) : Platform :=
  ({ P with drawn := P.drawn + 1, grades := P.grades ++ [grade] }.updateTask task
    Task.graded).checkGrade expert task.graded grade

theorem exec_submitGrade (taskId : String) (scores : Dict ℚ) (rationale : String)
    (seconds : Number) :
    exec (submitGrade host expert taskId scores rationale seconds) P =
    match P.task taskId with
    | .error e => (.error e, P)
    | .ok task =>
      if task.status = .assigned ∧ task.assignedExpertId = some expert.id then
        match P.validateScores scores, P.rubric with
        | .error e, _ => (.error e, P)
        | .ok _, none => (.error ⟨422, "no rubric"⟩, P.nextId)
        | .ok _, some rubric =>
          let grade := P.newGrade host expert rubric task scores rationale seconds
          (.ok grade, P.afterGrade expert task grade)
      else (.error ⟨409, "task is not assigned to this expert"⟩, P) := by
  unfold submitGrade
  rw [exec_get_bind, exec_lift_bind]
  cases P.task taskId with
  | error e => rfl
  | ok task =>
    dsimp only
    rw [exec_lift_bind, require]
    -- the scores are checked before the rubric is looked for
    split_ifs with hheld
    · dsimp only
      rw [exec_lift_bind]
      cases P.validateScores scores with
      | error e => rfl
      | ok u => cases P.rubric <;> rfl
    · rfl

/-- Scores are only accepted while there is a rubric. -/
theorem validateScores_rubric {scores : Dict ℚ} {u : Unit} (h : P.validateScores scores = .ok u) :
    ∃ rubric, P.rubric = some rubric := by
  unfold validateScores at h
  cases hr : P.rubric with
  | none => exact absurd h (by simp [hr, orFail, bind, Except.bind])
  | some rubric => exact ⟨rubric, rfl⟩

/-- The payout `createPayout` adds. -/
def newPayout (task : Task) (grade : Grade) (amount : Number) : Payout where
  id := host.uuid P.drawn
  seq := P.payoutSeq + 1
  expertId := expert.id
  taskId := task.id
  gradeId := grade.id
  tier := expert.tier
  taskType := task.taskType
  amountCents := amount
  status := if expert.status = .paused then .withheld else .pending
  periodId := none
  paidAt := none

theorem exec_createPayout (grade : Grade) (task : Task) : exec (createPayout host grade task) P =
    match P.payouts.find? (fun p => p.gradeId = grade.id) with
    | some existing => (.ok existing, P)
    | none =>
      match P.expert grade.expertId with
      | .error e => (.error e, P)
      | .ok expert =>
        match P.rateFor expert task.taskType with
        | .error e => (.error e, P)
        | .ok amount =>
          let payout := P.newPayout host expert task grade amount
          (.ok payout, { P with
            drawn := P.drawn + 1
            payouts := P.payouts ++ [payout]
            payoutSeq := P.payoutSeq + 1 }) := by
  unfold createPayout
  rw [exec_get_bind]
  -- a payout that exists, no author, no rate
  cases P.payouts.find? (fun p => p.gradeId = grade.id) with
  | some existing => rfl
  | none =>
    dsimp only
    rw [exec_lift_bind]
    cases P.expert grade.expertId with
    | error e => rfl
    | ok expert =>
      dsimp only
      rw [exec_lift_bind]
      cases P.rateFor expert task.taskType <;> rfl

theorem exec_review (gradeId : String) (decision : ReviewDecision) (reason : Option String) :
    exec (review host gradeId decision reason) P =
    match P.grade gradeId with
    | .error e => (.error e, P)
    | .ok grade =>
      if grade.review.isNone then
        let Q := P.marked grade.id ⟨gradeId, decision, reason, P.clock⟩
        match P.task grade.taskId with
        | .error e => (.error e, Q)
        | .ok task =>
          if decision = .approve then
            match exec (createPayout host grade task) Q with
            | (.error e, Q) => (.error e, Q)
            | (.ok payout, Q) => (.ok (some payout), Q.updateTask task (Task.reviewed decision))
          else (.ok none, Q.updateTask task (Task.reviewed decision))
      else (.error ⟨409, "grade already reviewed"⟩, P) := by
  unfold review
  rw [exec_get_bind, exec_lift_bind]
  cases P.grade gradeId with
  | error e => rfl
  | ok grade =>
    dsimp only
    rw [exec_lift_bind, require]
    by_cases hnew : grade.review.isNone
    · rw [if_pos hnew, if_pos hnew]
      dsimp only
      -- the verdict is on the grade before the task is looked up
      rw [exec_modify_bind, exec_lift_bind]
      cases P.task grade.taskId with
      | error e => rfl
      | ok task =>
        by_cases hdec : decision = .approve
        · dsimp only
          rw [if_pos hdec, if_pos hdec, exec_bind, exec_map]
          generalize exec (createPayout host grade task) _ = out
          obtain ⟨e | payout, Q⟩ := out
          · rfl
          · rfl
        · dsimp only
          rw [if_neg hdec, if_neg hdec]
          rfl
    · rw [if_neg hnew, if_neg hnew]

theorem exec_closePeriod (label : String) : exec (closePeriod host label) P =
    if P.periods.any (fun p => p.label = label) then
      (.error ⟨409, s!"period {label} already closed"⟩, P)
    else
      let period : PayoutPeriod := ⟨host.uuid P.drawn, label, P.clock⟩
      let Q := { P with
        drawn := P.drawn + 1
        periods := P.periods ++ [period]
        payouts := P.payouts.map (settle period) }
      (.ok (Q.periodTotals period), Q) := by
  unfold closePeriod
  rw [exec_get_bind, exec_lift_bind, require]
  split_ifs <;> rfl

end Platform
end Specs

end Panelist.Port
