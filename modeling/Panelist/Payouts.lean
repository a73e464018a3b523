import Panelist.Binary64
import Panelist.Models

/-! `panelist.services.payouts`: rates, payout rows, periods and the ledger. -/
namespace Panelist
open Relational Transaction

/-- Python's `round` to an integer: ties go to the even neighbour. -/
def pyRound (q : ℚ) : ℤ := Binary64.nearestEven q

/-- `round(rate * fraction)`: `fraction` is the value of a float, and the product is one before
it is rounded to cents. -/
def payoutAmount (rate : ℤ) (fraction : ℚ) : ℤ := pyRound (Binary64.nearest (rate * fraction))

/-- An amount that is stored, and that the counter of cents takes. -/
def PayableAmount (amount : ℤ) : Prop := storableInt amount ∧ 0 ≤ amount

/-- Expert override wins, then the rate card for (tier, task_type), then (tier, 'default'). -/
def rateFor (db : Db) (expert : Expert) (taskType : String) : Except Failure ℤ :=
  match expert.taskRateCents with
  | some cents => pure cents
  | none => do
    let tier := expert.tier.value
    let card ← orFail ((db.rateCards.get (expert.tier, taskType)).or
        (db.rateCards.get (expert.tier, "default")))
      (.http 422 s!"no rate configured for tier={tier} type={taskType}")
    pure card.rateCents

/-- The status a new payout of `expert` gets. -/
def Expert.payoutStatus (expert : Expert) : PayoutStatus :=
  if expert.status = .paused then .withheld else .pending

/-- `create_for_grade`. -/
def createForGrade (env : Env) (db : Db) (grade : Grade) (task : Task) (actor : String)
    (fraction : ℚ) : Except Failure (Db × Payout) := do
  let expert ← orFail (db.experts.get grade.expertId) (.integrity "grades_expert_id_fkey")
  match db.payouts.get grade.id with
  -- paying twice is no error and no second row
  | some existing => pure (db, existing)
  | none => do
    -- tier and rate as they are when the payout is made, not when the grade was
    let rate ← rateFor db expert task.taskType
    let amount := payoutAmount rate fraction
    let payout : Payout :=
      { id := env.payoutUuid4 grade.id
        gradeId := grade.id
        expertId := expert.id
        taskId := task.id
        tier := expert.tier
        taskType := task.taskType
        amountCents := amount
        status := expert.payoutStatus
        periodId := none
        createdAt := env.now
        paidAt := none }
    require (storableInt amount) (.raised "NumericValueOutOfRange")
    -- `uq_payout_task_expert`: one payout for a task and an expert
    let payouts ← orFail (db.payouts.insert payout) (.integrity "uq_payout_task_expert")
    -- `PAYOUT_CENTS.inc` refuses to count down
    require (0 ≤ amount) (.raised "ValueError")
    pure (record { db with payouts := payouts } actor "payout.created" "payout" payout.id.str,
      payout)

def Payout.released (p : Payout) : Payout := { p with status := .pending }

theorem Payout.released_keeps : Table.Keeps Payout.released := fun _ => rfl

def Payout.withhold (p : Payout) : Payout := { p with status := .withheld }

/-- Whether an `UPDATE` restricted to one expert and one status matches `p`. -/
def Payout.ofExpert (expertId : Uuid) (status : PayoutStatus) (p : Payout) : Bool :=
  decide (p.expertId = expertId) && decide (p.status = status)

/-- `release_withheld`. -/
def releaseWithheld (db : Db) (expert : Expert) (actor : String) : Db :=
  let payouts := db.payouts.updateWhere (Payout.ofExpert expert.id .withheld) Payout.released
  record { db with payouts := payouts } actor "payout.released" "expert" expert.id.str

/-- The `WHERE` of `close_period`. -/
def Payout.due (p : Payout) : Bool := decide (p.status = .pending) && p.periodId.isNone

def Payout.paidIn (periodId : Uuid) (now : Time) (p : Payout) : Payout :=
  { p with status := .paid, periodId := some periodId, paidAt := some now }

/-- `close_period`, with the request's check of the label's length. -/
def closePeriod (env : Env) (db : Db) (label actor : String) :
    Except Failure (Db × PayoutPeriod) := do
  require (1 ≤ label.length ∧ label.length ≤ 64) (.http 422 "label")
  require (¬ db.payoutPeriods.rows.any (fun p => p.label = label))
    (.http 409 s!"period {label} already closed")
  let period : PayoutPeriod := ⟨env.uuid4 0, label, env.now⟩
  let periods ← orFail (db.payoutPeriods.insert period) (.integrity "payout_periods_pkey")
  let db := { db with
    payoutPeriods := periods
    -- withheld payouts and those of earlier periods stay as they are
    payouts := db.payouts.updateWhere Payout.due (Payout.paidIn period.id env.now) }
  pure (record db actor "period.closed" "payout_period" period.id.str, period)

structure PeriodTotals where
  id : Uuid
  label : String
  closedAt : Time
  payoutCount : ℕ
  totalCents : ℤ
  expertCount : ℕ

/-- The payouts a period's statement lists. -/
def periodPayouts (db : Db) (periodId : Uuid) : List Payout :=
  db.payouts.rows.filter (fun p => p.periodId == some periodId)

def sumCents (ps : List Payout) : ℤ := (ps.map Payout.amountCents).sum

def periodTotals (db : Db) (period : PayoutPeriod) : PeriodTotals :=
  let ps := periodPayouts db period.id
  { id := period.id
    label := period.label
    closedAt := period.closedAt
    payoutCount := ps.length
    totalCents := sumCents ps
    expertCount := (ps.map Payout.expertId).dedup.length }

structure LedgerRow where
  expertId : Uuid
  expertName : String
  status : PayoutStatus
  payoutCount : ℕ
  totalCents : ℤ

structure Ledger where
  rows : List LedgerRow
  totalsByStatus : PayoutStatus → ℤ
  grandTotalCents : ℤ

/-- `PayoutStatus` in its declared order, which is how Postgres orders the enum. -/
def PayoutStatus.rank : PayoutStatus → ℕ
  | .pending => 0
  | .withheld => 1
  | .paid => 2

def ledgerBefore (a b : LedgerRow) : Bool :=
  decide (a.expertName.toList < b.expertName.toList) ||
    decide (a.expertName = b.expertName) && decide (a.status.rank ≤ b.status.rank)

/-- The group of one expert and one status. -/
def ledgerGroup (db : Db) (e : Expert) (status : PayoutStatus) : LedgerRow :=
  let ps := db.payouts.rows.filter (Payout.ofExpert e.id status)
  { expertId := e.id
    expertName := e.name
    status := status
    payoutCount := ps.length
    totalCents := sumCents ps }

/-- `GROUP BY expert_id, name, status` over payouts joined with their expert: a
group without payouts is no row. -/
def ledgerRows (db : Db) : List LedgerRow :=
  ((db.experts.rows.flatMap (fun e =>
      [ledgerGroup db e .pending, ledgerGroup db e .withheld, ledgerGroup db e .paid])).filter
    (fun r => 0 < r.payoutCount)).insertionSort (fun a b => ledgerBefore a b)

def ledger (db : Db) : Ledger :=
  let rows := ledgerRows db
  let byStatus (status : PayoutStatus) : ℤ :=
    ((rows.filter (fun r => r.status = status)).map LedgerRow.totalCents).sum
  { rows := rows
    totalsByStatus := byStatus
    grandTotalCents := byStatus .pending + byStatus .withheld + byStatus .paid }

/-! ### What the operations write -/

/-- The row `create_for_grade` inserts. -/
def newPayout (env : Env) (expert : Expert) (grade : Grade) (task : Task) (amount : ℤ) : Payout :=
  { id := env.payoutUuid4 grade.id
    gradeId := grade.id
    expertId := expert.id
    taskId := task.id
    tier := expert.tier
    taskType := task.taskType
    amountCents := amount
    status := expert.payoutStatus
    periodId := none
    createdAt := env.now
    paidAt := none }

/-- The second table is the first after paying each grade its share of the rate,
if it gets one, at the experts and rate cards of `db`. A grade that has a payout
already keeps it. -/
inductive Payments (env : Env) (db : Db) (task : Task) (share : Grade → Option ℚ) :
    List Grade → Table Payout → Table Payout → Prop
  | nil (P : Table Payout) : Payments env db task share [] P P
  | unpaid {g : Grade} {gs : List Grade} {P P' : Table Payout} (hf : share g = none)
      (rest : Payments env db task share gs P P') : Payments env db task share (g :: gs) P P'
  | stands {g : Grade} {gs : List Grade} {P P' : Table Payout} {p : Payout}
      (hp : P.get g.id = some p) (rest : Payments env db task share gs P P') :
      Payments env db task share (g :: gs) P P'
  | pays {g : Grade} {gs : List Grade} {P P₁ P' : Table Payout} {f : ℚ} {expert : Expert}
      {rate : ℤ} (hf : share g = some f) (he : db.experts.get g.expertId = some expert)
      (hr : rateFor db expert task.taskType = .ok rate) (ha : PayableAmount (payoutAmount rate f))
      (hi : P.insert (newPayout env expert g task (payoutAmount rate f)) = some P₁)
      (rest : Payments env db task share gs P₁ P') : Payments env db task share (g :: gs) P P'

/-- A row that `Payments` adds for one of the grades. -/
def PaidRow (env : Env) (db : Db) (task : Task) (share : Grade → Option ℚ) (gs : List Grade)
    (p : Payout) : Prop :=
  ∃ g ∈ gs, ∃ f expert rate, share g = some f ∧ db.experts.get g.expertId = some expert ∧
    rateFor db expert task.taskType = .ok rate ∧ PayableAmount (payoutAmount rate f) ∧
    p = newPayout env expert g task (payoutAmount rate f)

namespace Payments
variable {env : Env} {db : Db} {task : Task} {share : Grade → Option ℚ} {gs : List Grade}
  {P P' : Table Payout}

/-- Payments append rows and touch none. -/
theorem rows (h : Payments env db task share gs P P') :
    ∃ new, P'.rows = P.rows ++ new ∧ ∀ p ∈ new, PaidRow env db task share gs p := by
  -- over the grades; only one that is paid appends a row
  induction h with
  | nil P => exact ⟨[], by simp, by simp⟩
  | unpaid hf _ ih =>
    obtain ⟨new, hrows, hnew⟩ := ih
    exact ⟨new, hrows,
      fun p hp => (hnew p hp).imp (fun g hg => ⟨List.mem_cons_of_mem _ hg.1, hg.2⟩)⟩
  | stands hp _ ih =>
    obtain ⟨new, hrows, hnew⟩ := ih
    exact ⟨new, hrows,
      fun p hp => (hnew p hp).imp (fun g hg => ⟨List.mem_cons_of_mem _ hg.1, hg.2⟩)⟩
  | pays hf he hr ha hi _ ih =>
    obtain ⟨new, hrows, hnew⟩ := ih
    rw [(Table.insert_eq_some.mp hi).2, List.append_assoc] at hrows
    refine ⟨_, hrows, fun p hp => ?_⟩
    rcases List.mem_cons.mp hp with rfl | hp
    · exact ⟨_, List.mem_cons_self, _, _, _, hf, he, hr, ha, rfl⟩
    · exact (hnew p hp).imp (fun g hg => ⟨List.mem_cons_of_mem _ hg.1, hg.2⟩)

theorem mem (h : Payments env db task share gs P P') {p : Payout} (hp : p ∈ P') :
    p ∈ P ∨ PaidRow env db task share gs p := by
  obtain ⟨new, hrows, hnew⟩ := h.rows
  rw [← Table.mem_rows, hrows, List.mem_append] at hp
  exact hp.imp id (hnew p)

theorem mono (h : Payments env db task share gs P P') {p : Payout} (hp : p ∈ P) : p ∈ P' := by
  obtain ⟨new, hrows, _⟩ := h.rows
  rw [← Table.mem_rows, hrows, List.mem_append]
  exact Or.inl hp

/-- Every grade with a share ends up with a payout. -/
theorem covers (h : Payments env db task share gs P P') {g : Grade} (hg : g ∈ gs) {f : ℚ}
    (hf : share g = some f) : ∃ p ∈ P', p.gradeId = g.id := by
  induction h with
  | nil => exact absurd hg (by simp)
  | unpaid hn _ ih =>
    rcases List.mem_cons.mp hg with rfl | hg
    · exact absurd hf (by simp [hn])
    · exact ih hg
  | stands hp rest ih =>
    rcases List.mem_cons.mp hg with rfl | hg
    · exact ⟨_, rest.mono (Table.get_mem hp), Table.get_pk hp⟩
    · exact ih hg
  | pays _ _ _ _ hi rest ih =>
    rcases List.mem_cons.mp hg with rfl | hg
    · exact ⟨_, rest.mono ((Table.mem_insert hi).mpr (Or.inr rfl)), rfl⟩
    · exact ih hg

/-- Only the experts of the grades and the rate cards matter. -/
theorem congr {db₂ : Db} (h : Payments env db₂ task share gs P P')
    (hc : db₂.rateCards = db.rateCards)
    (he : ∀ g ∈ gs, db₂.experts.get g.expertId = db.experts.get g.expertId) :
    Payments env db task share gs P P' := by
  have hrate (e : Expert) (ty : String) : rateFor db₂ e ty = rateFor db e ty := by
    simp only [rateFor, hc]
  induction h with
  | nil P => exact .nil P
  | unpaid hf _ ih => exact .unpaid hf (ih (fun g hg => he g (List.mem_cons_of_mem _ hg)))
  | stands hp _ ih => exact .stands hp (ih (fun g hg => he g (List.mem_cons_of_mem _ hg)))
  | pays hf hx hr ha hi _ ih =>
    rw [he _ List.mem_cons_self] at hx
    rw [hrate] at hr
    exact .pays hf hx hr ha hi (ih (fun g hg => he g (List.mem_cons_of_mem _ hg)))

theorem cons {g : Grade} {P₁ : Table Payout} (h : Payments env db task share [g] P P₁)
    (h' : Payments env db task share gs P₁ P') : Payments env db task share (g :: gs) P P' := by
  cases h with
  | unpaid hf rest => cases rest; exact .unpaid hf h'
  | stands hp rest => cases rest; exact .stands hp h'
  | pays hf he hr ha hi rest => cases rest; exact .pays hf he hr ha hi h'

end Payments

theorem createForGrade_ok {env : Env} {db db' : Db} {grade : Grade} {task : Task} {actor : String}
    {fraction : ℚ} {p : Payout} {share : Grade → Option ℚ} (hf : share grade = some fraction)
    (h : createForGrade env db grade task actor fraction = .ok (db', p)) :
    ∃ payouts events, Payments env db task share [grade] db.payouts payouts ∧
      db' = { db with payouts := payouts, auditEvents := events } := by
  simp only [createForGrade, bind_ok_iff, orFail_ok_iff] at h
  obtain ⟨expert, hget, hm⟩ := h
  cases hp : db.payouts.get grade.id with
  | some existing =>
    rw [hp] at hm
    obtain ⟨rfl, rfl⟩ := Prod.mk.inj (pure_ok_iff.mp hm)
    exact ⟨db.payouts, db.auditEvents, .stands hp (.nil _), rfl⟩
  | none =>
    rw [hp] at hm
    simp only [bind_ok_iff, require_ok_iff, exists_const, orFail_ok_iff, pure_ok_iff,
      Prod.mk.injEq] at hm
    obtain ⟨rate, hrate, hstored, payouts, hins, hpos, rfl, rfl⟩ := hm
    exact ⟨payouts, _, .pays hf hget hrate ⟨hstored, hpos⟩ hins (.nil _), rfl⟩

/-- Closing a period stores a fresh period and moves every due payout into it. -/
theorem closePeriod_ok {env : Env} {db db' : Db} {label actor : String} {period : PayoutPeriod}
    (h : closePeriod env db label actor = .ok (db', period)) :
    ∃ periods events, period = ⟨env.uuid4 0, label, env.now⟩ ∧
      db.payoutPeriods.insert period = some periods ∧
      db' = { db with
        payoutPeriods := periods
        payouts := db.payouts.updateWhere Payout.due (Payout.paidIn period.id env.now)
        auditEvents := events } := by
  simp only [closePeriod, bind_ok_iff, require_ok_iff, orFail_ok_iff, pure_ok_iff, exists_const,
    Prod.mk.injEq] at h
  obtain ⟨_, _, periods, hins, rfl, rfl⟩ := h
  exact ⟨periods, _, rfl, hins, rfl⟩

end Panelist
