import Panelist.Models

/-! `panelist.services.rubrics` and the rubric and rate card routes: rows are
immutable, queued tasks follow the newest version. -/
namespace Panelist
open Relational Transaction

structure CriterionIn where
  key : String
  label : String
  weight : ℚ
  scaleMin : ℤ
  scaleMax : ℤ

/-- `CriterionIn`'s own checks, and at least one criterion. -/
def validCriteria (criteria : List CriterionIn) : Prop :=
  criteria ≠ [] ∧ ∀ c ∈ criteria, 1 ≤ c.key.length ∧ c.key.length ≤ 64

instance (criteria : List CriterionIn) : Decidable (validCriteria criteria) :=
  inferInstanceAs (Decidable (_ ∧ _))

/-- `[RubricCriterion(position=i, **c) for i, c in enumerate(criteria)]`. -/
def criterionRows (env : Env) (rubricId : Uuid) (criteria : List CriterionIn) :
    List RubricCriterion :=
  criteria.zipIdx.map (fun (c, i) =>
    { id := env.uuid4 (i + 1)
      rubricId := rubricId
      key := c.key
      label := c.label
      weight := c.weight
      scaleMin := c.scaleMin
      scaleMax := c.scaleMax
      position := i })

/-- Store a rubric version with its criteria. -/
def addRubric (env : Env) (db : Db) (rubric : Rubric) (criteria : List CriterionIn) :
    Except Failure Db := do
  let rubrics ← orFail (db.rubrics.insert rubric) (.integrity "uq_rubric_name_version")
  let rows ← orFail (db.rubricCriteria.insertAll (criterionRows env rubric.id criteria))
    (.integrity "uq_criterion_key")
  pure { db with rubrics := rubrics, rubricCriteria := rows }

/-- `POST /rubrics`. -/
def createRubric (env : Env) (db : Db) (name : String) (version : ℤ)
    (criteria : List CriterionIn) (actor : String) : Except Failure (Db × Rubric) := do
  require (validCriteria criteria) (.http 422 "criteria")
  let rubric : Rubric := ⟨env.uuid4 0, name, version, none, none⟩
  let db ← addRubric env db rubric criteria
  pure (record db actor "rubric.created" "rubric" rubric.id.str, rubric)

/-- `max(Rubric.version)` over the versions of one name, at least `previous`'s own. -/
def latestVersion (db : Db) (previous : Rubric) : ℤ :=
  ((db.rubrics.rows.filter (fun r => r.name = previous.name)).map Rubric.version).foldl
    max previous.version

def Rubric.superseded (now : Time) (by_ : Uuid) (r : Rubric) : Rubric :=
  { r with supersededAt := some now, supersededById := some by_ }

/-- The tasks `publish` retargets. -/
def Task.untouchedOn (rubricId : Uuid) (t : Task) : Bool :=
  decide (t.rubricId = rubricId) && decide (t.status = .queued) && decide (t.gradesReceived = 0)

def Task.retargeted (rubricId : Uuid) (t : Task) : Task := { t with rubricId := rubricId }

/-- `rubrics.publish`: create the next version, retarget untouched queued tasks,
count what stays behind. -/
def publish (env : Env) (db : Db) (previousId : Uuid) (criteria : List CriterionIn)
    (actor : String) : Except Failure (Db × Rubric × ℕ × ℕ) := do
  require (validCriteria criteria) (.http 422 "criteria")
  let previous ← orFail (db.rubrics.get previousId) (.http 404 "rubric not found")
  let name := previous.name
  let version := previous.version
  -- versions form one line: each is followed at most once
  require (previous.supersededAt = none)
    (.http 409 s!"rubric {name} version {version} is already superseded")
  let rubric : Rubric := ⟨env.uuid4 0, name, latestVersion db previous + 1, none, none⟩
  let db ← addRubric env db rubric criteria
  -- counted before the update, as its row count
  let migrated := (db.tasks.rows.filter (Task.untouchedOn previous.id)).length
  let db := { db with
    rubrics := db.rubrics.update previous.id (Rubric.superseded env.now rubric.id)
    tasks := db.tasks.updateWhere (Task.untouchedOn previous.id) (Task.retargeted rubric.id) }
  -- claimed tasks and those with a grade keep the version they were started on
  let openOnPrevious := (db.tasks.rows.filter (fun t =>
    t.rubricId = previous.id ∧ (t.status = .queued ∨ t.status = .assigned))).length
  pure (record db actor "rubric.published" "rubric" rubric.id.str, rubric, migrated, openOnPrevious)

/-- `superseded_among`. -/
def supersededAmong (db : Db) (rubricIds : List Uuid) : Option Rubric :=
  db.rubrics.rows.find? (fun r => rubricIds.contains r.id && r.supersededAt.isSome)

structure RateCardIn where
  tier : Tier
  taskType : String
  rateCents : ℤ

/-- `db.merge(RateCard(…))`. -/
def mergeRateCard (cards : Table RateCard) (card : RateCardIn) : Table RateCard :=
  match cards.insert ⟨card.tier, card.taskType, card.rateCents⟩ with
  | some cards => cards
  -- the pair of tier and task type is taken: the price is replaced
  | none =>
    cards.update (card.tier, card.taskType) (fun c => { c with rateCents := card.rateCents })

/-- `PUT /rate-cards`. -/
def putRateCards (db : Db) (body : List RateCardIn) (actor : String) :
    Except Failure (Db × Unit) := do
  require (∀ card ∈ body, 0 ≤ card.rateCents) (.http 422 "rate_cents")
  require (∀ card ∈ body, storableInt card.rateCents) (.raised "NumericValueOutOfRange")
  let db := { db with rateCards := body.foldl mergeRateCard db.rateCards }
  pure (record db actor "ratecard.updated" "rate_card" "bulk", ())

/-! ### What the operations write -/

theorem criterionRows_rubricId {env : Env} {rubricId : Uuid} {criteria : List CriterionIn}
    {c : RubricCriterion} (h : c ∈ criterionRows env rubricId criteria) :
    c.rubricId = rubricId := by
  obtain ⟨_, _, rfl⟩ := List.mem_map.mp h
  rfl

theorem addRubric_ok {env : Env} {db db' : Db} {rubric : Rubric} {criteria : List CriterionIn}
    (h : addRubric env db rubric criteria = .ok db') :
    ∃ rubrics rows, db.rubrics.insert rubric = some rubrics ∧
      db.rubricCriteria.insertAll (criterionRows env rubric.id criteria) = some rows ∧
      db' = { db with rubrics := rubrics, rubricCriteria := rows } := by
  simp only [addRubric, bind_ok_iff, orFail_ok_iff, pure_ok_iff] at h
  obtain ⟨rubrics, hr, rows, hc, rfl⟩ := h
  exact ⟨rubrics, rows, hr, hc, rfl⟩

theorem createRubric_ok {env : Env} {db db' : Db} {name : String} {version : ℤ}
    {criteria : List CriterionIn} {actor : String} {rubric : Rubric}
    (h : createRubric env db name version criteria actor = .ok (db', rubric)) :
    ∃ db₁ events, addRubric env db rubric criteria = .ok db₁ ∧
      rubric = ⟨env.uuid4 0, name, version, none, none⟩ ∧
      db' = { db₁ with auditEvents := events } := by
  simp only [createRubric, bind_ok_iff, require_ok_iff, exists_const, pure_ok_iff,
    Prod.mk.injEq] at h
  obtain ⟨_, db₁, hadd, rfl, rfl⟩ := h
  exact ⟨db₁, _, hadd, rfl, rfl⟩

/-- Publishing stores the next version, marks the previous one and retargets the
untouched queued tasks. -/
theorem publish_ok {env : Env} {db db' : Db} {previousId : Uuid} {criteria : List CriterionIn}
    {actor : String} {rubric : Rubric} {counts : ℕ × ℕ}
    (h : publish env db previousId criteria actor = .ok (db', rubric, counts)) :
    ∃ previous db₁ events, db.rubrics.get previousId = some previous ∧
      previous.supersededAt = none ∧
      rubric = ⟨env.uuid4 0, previous.name, latestVersion db previous + 1, none, none⟩ ∧
      addRubric env db rubric criteria = .ok db₁ ∧
      db' = { db₁ with
        rubrics := db₁.rubrics.update previous.id (Rubric.superseded env.now rubric.id)
        tasks := db₁.tasks.updateWhere (Task.untouchedOn previous.id) (Task.retargeted rubric.id)
        auditEvents := events } := by
  simp only [publish, bind_ok_iff, orFail_ok_iff, require_ok_iff, exists_const, pure_ok_iff,
    Prod.mk.injEq] at h
  obtain ⟨_, previous, hprev, hopen, db₁, hadd, rfl, rfl, _⟩ := h
  exact ⟨previous, db₁, _, hprev, hopen, rfl, hadd, rfl⟩

theorem putRateCards_ok {db db' : Db} {body : List RateCardIn} {actor : String} {u : Unit}
    (h : putRateCards db body actor = .ok (db', u)) :
    ∃ events, db' = { db with
      rateCards := body.foldl mergeRateCard db.rateCards, auditEvents := events } := by
  simp only [putRateCards, bind_ok_iff, require_ok_iff, exists_const, pure_ok_iff,
    Prod.mk.injEq] at h
  exact ⟨_, h.2.2.1.symm⟩

end Panelist
