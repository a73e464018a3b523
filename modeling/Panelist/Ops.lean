import Panelist.Grading

/-! `panelist.services.ops`: what an operator counts, and the scheduler tick. -/
namespace Panelist
open Relational Transaction

/-- Whether the grade a round selected was approved. -/
def approvedPick (db : Db) (c : Consensus) : Bool :=
  db.reviews.rows.any (fun r => c.deliveredGradeId = some r.gradeId ∧ r.decision = .approve)

/-- The tasks `_undelivered_approved` counts: approved consensus tasks whose
selected grade is not approved. -/
def undeliveredApproved (db : Db) : List Task :=
  db.tasks.rows.filter (fun t =>
    match db.consensus.get t.id with
    | some c => decide (t.status = .approved) && !t.isAttentionCheck && !approvedPick db c
    | none => false)

/-- How many grades on the task a reviewer has rejected. -/
def rejections (db : Db) (taskId : Uuid) : ℕ :=
  ((gradesOf db taskId).filter (fun g => decision db g.id = some .reject)).length

/-- The tasks `_rejected_twice` counts. -/
def rejectedTwice (db : Db) : List Task :=
  db.tasks.rows.filter (fun t =>
    decide (t.requiredGrades = 1) && !t.isAttentionCheck && decide (2 ≤ rejections db t.id))

/-- `consensus.backlog`. -/
def backlog (db : Db) : ℕ :=
  (db.consensus.rows.filter (fun c => c.status = .adjudicating)).length

/-- Number and sum of the payouts outside every period with one status. -/
def unbilled (db : Db) (status : PayoutStatus) : ℕ × ℤ :=
  let ps := db.payouts.rows.filter (fun p => p.periodId.isNone ∧ p.status = status)
  (ps.length, sumCents ps)

structure PeriodStatus where
  lastLabel : Option String
  closedAt : Option Time
  unbilledPayouts : ℕ
  unbilledCents : ℤ
  withheldCents : ℤ

/-- `_period_status`. -/
def periodStatus (db : Db) : PeriodStatus :=
  let last := (db.payoutPeriods.rows.insertionSort (fun a b => b.closedAt ≤ a.closedAt)).head?
  { lastLabel := last.map PayoutPeriod.label
    closedAt := last.map PayoutPeriod.closedAt
    unbilledPayouts := (unbilled db .pending).1
    unbilledCents := (unbilled db .pending).2
    withheldCents := (unbilled db .withheld).2 }

/-- `_days_since`. -/
def daysSince (env : Env) (moment : Option Time) : Option ℚ :=
  moment.map (fun m => ((env.now - m : ℤ) : ℚ) / 1000000 / 86400)

/-- `f"{q:.1f}"`. -/
def fixed1 (q : ℚ) : String :=
  let n := (pyRound (|q| * 10)).toNat
  let sign := if q < 0 then "-" else ""
  s!"{sign}{n / 10}.{n % 10}"

/-- `_reminders`. -/
def reminders (env : Env) (uncalibrated : ℕ) (period : PeriodStatus)
    (backlog rejectedTwice undelivered : ℕ) : List String :=
  let minSamples := env.settings.calibrationMinSamples
  let since := match daysSince env period.closedAt with
    | none => "never closed"
    | some age => s!"closed {fixed1 age} days ago"
  -- each is left out when there is nothing to say
  (if uncalibrated ≠ 0 then
    [s!"{uncalibrated} experts have fewer than {minSamples} calibration signals"] else []) ++
  (if period.unbilledPayouts ≠ 0 then
    [s!"{period.unbilledPayouts} payouts worth {period.unbilledCents} cents " ++
      s!"are not in a statement; last period {since}"] else []) ++
  (if backlog ≠ 0 then [s!"{backlog} tasks are waiting for adjudication"] else []) ++
  (if rejectedTwice ≠ 0 then
    [s!"{rejectedTwice} tasks have been rejected twice and are back in the queue"] else []) ++
  (if undelivered ≠ 0 then
    [s!"{undelivered} approved tasks have no delivered grade: the consensus pick is unreviewed"]
    else [])

structure TierMove where
  expert : String
  fromTier : Tier
  toTier : Tier

structure TickReport where
  reclaimed : ℕ
  expertsScored : ℕ
  tierChanges : List TierMove
  uncalibratedExperts : ℕ
  adjudicationBacklog : ℕ
  unbilledPayouts : ℕ
  unbilledCents : ℤ
  daysSincePeriodClose : Option ℚ
  rejectedTwice : ℕ
  undeliveredApproved : ℕ
  reminders : List String

/-- One pass of the loop in `tick`: the moves so far and the experts below the
sample minimum. -/
def tickExpert (env : Env) (actor : String) (acc : Db × List TierMove × ℕ) (expert : Expert) :
    Db × List TierMove × ℕ :=
  let (db, moves, uncalibrated) := acc
  let (db', change) := calibrationUpdate env db expert actor
  let moves := match change with
    | some c => moves ++ [⟨expert.name, c.fromTier, c.toTier⟩]
    | none => moves
  -- the signals are the same before and after the update
  let samples := (score env db expert.id).2
  (db', moves,
    if samples < env.settings.calibrationMinSamples then uncalibrated + 1 else uncalibrated)

/-- `tick`: reclaim expired leases, refresh calibration, report what needs attention. -/
def tick (env : Env) (db : Db) (actor : String) : Except Failure (Db × TickReport) := do
  let (db, reclaimed) := reclaimExpired env db
  -- by name, as the query orders them
  let experts := db.experts.rows.insertionSort (fun a b => a.name.toList ≤ b.name.toList)
  let (db, moves, uncalibrated) := experts.foldl (tickExpert env actor) (db, [], 0)
  let period := periodStatus db
  let rejected := (rejectedTwice db).length
  let undelivered := (undeliveredApproved db).length
  let report : TickReport :=
    { reclaimed := reclaimed
      expertsScored := experts.length
      tierChanges := moves
      uncalibratedExperts := uncalibrated
      adjudicationBacklog := backlog db
      unbilledPayouts := period.unbilledPayouts
      unbilledCents := period.unbilledCents
      daysSincePeriodClose := (daysSince env period.closedAt).map
        (fun age => (pyRound (age * 100) : ℚ) / 100)
      rejectedTwice := rejected
      undeliveredApproved := undelivered
      reminders := reminders env uncalibrated period (backlog db) rejected undelivered }
  pure (record db actor "ops.tick" "system" "tick", report)

/-- The recalibrations of a tick write the experts, the tier history and the trail. -/
theorem tickExpert_foldl (env : Env) (actor : String) (experts : List Expert)
    (acc : Db × List TierMove × ℕ) :
    ∃ experts' changes events, Recalibrates acc.1.experts experts' ∧
      (experts.foldl (tickExpert env actor) acc).1 =
        { acc.1 with experts := experts', tierChanges := changes, auditEvents := events } := by
  induction experts generalizing acc with
  | nil => exact ⟨_, _, _, .refl _, rfl⟩
  | cons e experts ih =>
    obtain ⟨db, moves, uncalibrated⟩ := acc
    obtain ⟨changes₁, events₁, hu⟩ := calibrationUpdate_eq env db e actor
    obtain ⟨experts', changes, events, hcal, hfold⟩ :=
      ih (tickExpert env actor (db, moves, uncalibrated) e)
    have hfirst : (tickExpert env actor (db, moves, uncalibrated) e).1 =
        (calibrationUpdate env db e actor).1 := rfl
    rw [hfirst, hu] at hcal hfold
    exact ⟨experts', changes, events, (Recalibrates.update db.experts env db e).trans hcal, hfold⟩

theorem tick_ok {env : Env} {db db' : Db} {actor : String} {report : TickReport}
    (h : tick env db actor = .ok (db', report)) :
    ∃ experts changes events, Recalibrates db.experts experts ∧
      db' = { (reclaimExpired env db).1 with
        experts := experts, tierChanges := changes, auditEvents := events } := by
  obtain ⟨hdb', -⟩ := Prod.mk.inj (pure_ok_iff.mp h)
  obtain ⟨experts, changes, events, hcal, hfold⟩ := tickExpert_foldl env actor
    ((reclaimExpired env db).1.experts.rows.insertionSort
      (fun a b => a.name.toList ≤ b.name.toList))
    ((reclaimExpired env db).1, [], 0)
  refine ⟨experts, changes, events ++ [⟨actor, "ops.tick", "system", "tick"⟩], hcal, ?_⟩
  exact hdb'.symm.trans (congrArg (fun d => record d actor "ops.tick" "system" "tick") hfold)

end Panelist
