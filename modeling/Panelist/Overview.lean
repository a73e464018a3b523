import Panelist.Statements
import Panelist.TaskRows

/-! `panelist.services.ops.overview` and `panelist.metrics`: the numbers an operator watches, what
they foretell of the next request, and what a page of gauges says after any history of scrapes. -/
namespace Panelist
open Relational Transaction

/-! ### The overview -/

def tasksIn (db : Db) (status : TaskStatus) : List Task :=
  db.tasks.rows.filter (fun t => t.status = status)

/-- `unnest(required_tags)` over the queued tasks. -/
def queuedTags (db : Db) : List String := (tasksIn db .queued).flatMap Task.requiredTags

/-- A tag without a queued task is no key. -/
def queueDepthByTag (db : Db) : List (String × ℕ) :=
  (queuedTags db).dedup.map (fun tag => (tag, (queuedTags db).count tag))

def queueSummary (db : Db) (status : TaskStatus) : ℕ := (tasksIn db status).length

/-- `_expired_leases`. -/
def expiredLeases (env : Env) (db : Db) : ℕ :=
  (db.tasks.rows.filter (Task.leaseExpired env.now)).length

/-- `_paused_experts`. -/
def pausedExperts (db : Db) : List Expert :=
  (db.experts.rows.filter (fun e => e.status = .paused)).insertionSort
    (fun a b => a.name.toList ≤ b.name.toList)

structure PausedExpert where
  id : Uuid
  name : String
  tier : Tier
  calibrationScore : Option ℚ

structure Overview where
  generatedAt : Time
  queuedByTag : List (String × ℕ)
  tasksByStatus : TaskStatus → ℕ
  expiredLeases : ℕ
  pausedExperts : List PausedExpert
  adjudicationBacklog : ℕ
  period : PeriodStatus
  lastDelivery : Option Delivery

def overview (env : Env) (db : Db) : Overview :=
  { generatedAt := env.now
    queuedByTag := queueDepthByTag db
    tasksByStatus := queueSummary db
    expiredLeases := expiredLeases env db
    pausedExperts := (pausedExperts db).map (fun e => ⟨e.id, e.name, e.tier, e.calibrationScore⟩)
    adjudicationBacklog := backlog db
    period := periodStatus db
    lastDelivery :=
      (db.deliveries.rows.insertionSort (fun a b => b.version ≤ a.version)).head? }

/-- The number an overview has for a tag, if any. -/
def Overview.depth (o : Overview) (tag : String) : Option ℕ :=
  (o.queuedByTag.find? (fun row => row.1 = tag)).map Prod.snd

/-! ### What the numbers count -/

section Counts
variable {db : Db} {env : Env}

theorem mem_queueDepthByTag {tag : String} {n : ℕ} :
    (tag, n) ∈ queueDepthByTag db ↔ tag ∈ queuedTags db ∧ (queuedTags db).count tag = n := by
  simp only [queueDepthByTag, List.mem_map, List.mem_dedup, Prod.mk.injEq]
  constructor
  · rintro ⟨_, hmem, rfl, rfl⟩
    exact ⟨hmem, rfl⟩
  · rintro ⟨hmem, rfl⟩
    exact ⟨tag, hmem, rfl, rfl⟩

theorem find_queueDepth (tag : String) :
    ((queueDepthByTag db).find? (fun row => row.1 = tag)).map Prod.snd =
      if tag ∈ queuedTags db then some ((queuedTags db).count tag) else none := by
  cases hfind : (queueDepthByTag db).find? (fun row => row.1 = tag) with
  | none =>
    have hnot : tag ∉ queuedTags db := by
      intro hmem
      have hrow := List.find?_eq_none.mp hfind _ (mem_queueDepthByTag.mpr ⟨hmem, rfl⟩)
      exact hrow (decide_eq_true rfl)
    rw [if_neg hnot, Option.map_none]
  | some row =>
    have htag : row.1 = tag := by simpa using List.find?_some hfind
    obtain ⟨_, n⟩ := row
    subst htag
    obtain ⟨hmem, hn⟩ := mem_queueDepthByTag.mp (List.mem_of_find?_eq_some hfind)
    rw [if_pos hmem, Option.map_some, hn]

theorem depth_overview (tag : String) : ((overview env db).depth tag).getD 0 =
    (queuedTags db).count tag := by
  have hdepth : (overview env db).depth tag =
      if tag ∈ queuedTags db then some ((queuedTags db).count tag) else none := find_queueDepth tag
  rw [hdepth]
  split_ifs with hmem
  · rfl
  · exact (List.count_eq_zero.mpr hmem).symm

/-- How much a task adds to the depth of a tag. -/
def Task.tagWeight (tag : String) (t : Task) : ℕ :=
  if t.status = .queued then t.requiredTags.count tag else 0

def Task.statusWeight (status : TaskStatus) (t : Task) : ℕ := if t.status = status then 1 else 0

theorem count_queuedTags (tag : String) :
    (queuedTags db).count tag = db.tasks.total (Task.tagWeight tag) := by
  unfold queuedTags tasksIn Table.total
  induction db.tasks.rows with
  | nil => rfl
  | cons t rows ih =>
    rw [List.map_cons, List.sum_cons, ← ih, List.filter_cons]
    unfold Task.tagWeight
    by_cases hs : t.status = .queued
    · simp [hs]
    · simp [hs]

theorem queueSummary_eq (status : TaskStatus) :
    queueSummary db status = db.tasks.total (Task.statusWeight status) := by
  unfold queueSummary tasksIn Table.total
  induction db.tasks.rows with
  | nil => rfl
  | cons t rows ih =>
    rw [List.map_cons, List.sum_cons, ← ih, List.filter_cons]
    unfold Task.statusWeight
    by_cases hs : t.status = status
    · simp [hs]
      omega
    · simp [hs]

/-- The six statuses share out the tasks. -/
theorem summary_total : queueSummary db .queued + queueSummary db .assigned +
    queueSummary db .submitted + queueSummary db .adjudication + queueSummary db .approved +
      queueSummary db .rejected = db.tasks.rows.length := by
  unfold queueSummary tasksIn
  induction db.tasks.rows with
  | nil => rfl
  | cons t rows ih =>
    simp only [List.filter_cons, List.length_cons]
    cases t.status <;> simp <;> omega

/-- A task is in adjudication exactly as long as its round is open. -/
theorem Phase.adjudication_iff {t : Task} {gs : List Grade} {dec : Uuid → Option ReviewDecision}
    {round : Option Consensus} (h : Phase t gs dec round) :
    t.status = .adjudication ↔ ∃ c, round = some c ∧ c.status = .adjudicating := by
  have hopen (ho : t.isOpen) : t.status ≠ .adjudication := by
    intro hs
    rcases ho with hq | ha
    · exact absurd (hs.symm.trans hq) (by decide)
    · exact absurd (hs.symm.trans ha) (by decide)
  have hother (s : ConsensusStatus) {c : Consensus} (hc : c.status = s) (hs : s ≠ .adjudicating) :
      ¬ ∃ c', some c = some c' ∧ c'.status = .adjudicating := by
    rintro ⟨c', hc', hadj⟩
    obtain rfl := Option.some.inj hc'
    exact hs (hc.symm.trans hadj)
  have hnone : ¬ ∃ c, (none : Option Consensus) = some c ∧ c.status = .adjudicating := by
    rintro ⟨_, h, _⟩
    cases h
  -- by the phase of the task
  cases h with
  | golden _ hs => exact iff_of_false (hopen hs) hnone
  | awaiting _ _ hs => exact iff_of_false (hopen hs) hnone
  | submitted _ _ hs => exact iff_of_false (by rw [hs]; decide) hnone
  | approved _ _ hs => exact iff_of_false (by rw [hs]; decide) hnone
  | collecting _ _ hs => exact iff_of_false (hopen hs) hnone
  | agreed _ _ _ _ hc _ hs =>
    refine iff_of_false ?_ (hother .agreed hc (by decide))
    rw [hs]
    unfold settled
    split_ifs <;> decide
  | adjudicating _ _ _ _ hc _ hs => exact iff_of_true hs ⟨_, rfl, hc⟩
  | adjudicated _ _ _ _ hc _ hs =>
    exact iff_of_false (by rw [hs]; decide) (hother .adjudicated hc (by decide))

/-- Every open round has its task in adjudication, and no other task is. -/
theorem backlog_eq (rs : List Request) :
    backlog (after rs) = queueSummary (after rs) .adjudication := by
  have hc := Consistent.after rs
  have hrounds : (((after rs).consensus.rows.filter
      (fun c => c.status = .adjudicating)).map Consensus.taskId).Nodup :=
    (after rs).consensus.nodup_pk_filter _
  have htasks : ((tasksIn (after rs) .adjudication).map Task.id).Nodup :=
    (after rs).tasks.nodup_pk_filter _
  -- the open rounds and the tasks in adjudication have the same ids
  have hsame : (((after rs).consensus.rows.filter
      (fun c => c.status = .adjudicating)).map Consensus.taskId).Perm
        ((tasksIn (after rs) .adjudication).map Task.id) := by
    rw [List.perm_ext_iff_of_nodup hrounds htasks]
    intro k
    simp only [tasksIn, List.mem_map, List.mem_filter, decide_eq_true_eq]
    constructor
    · rintro ⟨c, ⟨hmem, hs⟩, rfl⟩
      obtain ⟨t, ht, hid⟩ := hc.roundTask c hmem
      refine ⟨t, ⟨ht, ?_⟩, hid⟩
      have hget : (after rs).consensus.get t.id = some c := by
        rw [hid]
        exact (after rs).consensus.get_of_mem hmem
      exact (hc.phase t ht).adjudication_iff.mpr ⟨c, hget, hs⟩
    · rintro ⟨t, ⟨ht, hs⟩, rfl⟩
      obtain ⟨c, hget, hadj⟩ := (hc.phase t ht).adjudication_iff.mp hs
      exact ⟨c, ⟨Table.get_mem hget, hadj⟩, Table.get_pk hget⟩
  have hlength := hsame.length_eq
  rwa [List.length_map, List.length_map] at hlength

end Counts

/-! ### What the next request makes of them -/

section Requests
variable {env : Env} {db db' : Db}

theorem Task.leaseExpired_status {now : Time} {t : Task} (h : t.leaseExpired now = true) :
    t.status = .assigned := by
  simp only [Task.leaseExpired, Bool.and_eq_true, decide_eq_true_eq] at h
  exact h.1

theorem expiredLeases_reclaimed : expiredLeases env (reclaimExpired env db).1 = 0 := by
  unfold expiredLeases
  rw [List.length_eq_zero_iff, List.filter_eq_nil_iff]
  intro t' ht' hexpired
  obtain ⟨t, -, rfl⟩ := (Table.mem_updateWhere (f := Task.reclaimed) (fun _ => rfl)).mp ht'
  by_cases he : t.leaseExpired env.now = true
  · rw [if_pos he] at hexpired
    have hqueued : t.reclaimed.status = .queued := rfl
    exact absurd (hqueued.symm.trans (Task.leaseExpired_status hexpired)) (by decide)
  · rw [if_neg he] at hexpired
    exact he hexpired

/-- The tags of the tasks whose leases have expired. -/
def expiredTags (env : Env) (db : Db) : List String :=
  (db.tasks.rows.filter (Task.leaseExpired env.now)).flatMap Task.requiredTags

theorem sum_eq_length {α : Type} {w : α → ℕ} {l : List α} {n : ℕ} (h : ∀ a ∈ l, w a = n) :
    (l.map w).sum = l.length * n := by
  rw [List.map_congr_left (g := fun _ => n) h, List.map_const', List.sum_replicate, smul_eq_mul]

/-- A reclaim moves the tasks with expired leases, and no other, into the queue. -/
theorem queueSummary_reclaimed (status : TaskStatus) :
    queueSummary (reclaimExpired env db).1 status +
        (if status = .assigned then expiredLeases env db else 0) =
      queueSummary db status + (if status = .queued then expiredLeases env db else 0) := by
  have hsum := db.tasks.total_updateWhere (Task.statusWeight status) (Task.leaseExpired env.now)
    Task.reclaimed (fun _ => rfl)
  -- what the expired tasks count before and after
  have hbefore : ((db.tasks.rows.filter (Task.leaseExpired env.now)).map
      (Task.statusWeight status)).sum = if status = .assigned then expiredLeases env db else 0 := by
    have hone : ∀ t ∈ db.tasks.rows.filter (Task.leaseExpired env.now),
        Task.statusWeight status t = if status = .assigned then 1 else 0 := by
      intro t ht
      unfold Task.statusWeight
      rw [Task.leaseExpired_status (List.mem_filter.mp ht).2]
      exact if_congr eq_comm rfl rfl
    rw [sum_eq_length hone, mul_ite, mul_one, mul_zero]
    rfl
  have hafter : ((db.tasks.rows.filter (Task.leaseExpired env.now)).map
      (fun t => Task.statusWeight status t.reclaimed)).sum =
        if status = .queued then expiredLeases env db else 0 := by
    have hone : ∀ t ∈ db.tasks.rows.filter (Task.leaseExpired env.now),
        Task.statusWeight status t.reclaimed = if status = .queued then 1 else 0 :=
      fun t _ => if_congr eq_comm rfl rfl
    rw [sum_eq_length hone, mul_ite, mul_one, mul_zero]
    rfl
  rw [queueSummary_eq, queueSummary_eq, ← hbefore, ← hafter]
  exact hsum

theorem queuedTags_reclaimed (tag : String) :
    (queuedTags (reclaimExpired env db).1).count tag =
      (queuedTags db).count tag + (expiredTags env db).count tag := by
  have hsum := db.tasks.total_updateWhere (Task.tagWeight tag) (Task.leaseExpired env.now)
    Task.reclaimed (fun _ => rfl)
  -- a task under a lease is not queued, so it adds nothing before
  have hbefore : ((db.tasks.rows.filter (Task.leaseExpired env.now)).map
      (Task.tagWeight tag)).sum = 0 := by
    apply List.sum_eq_zero
    intro n hn
    obtain ⟨t, ht, rfl⟩ := List.mem_map.mp hn
    unfold Task.tagWeight
    rw [Task.leaseExpired_status (List.mem_filter.mp ht).2]
    rfl
  -- and its tags once it is reclaimed
  have hafter : ((db.tasks.rows.filter (Task.leaseExpired env.now)).map
      (fun t => Task.tagWeight tag t.reclaimed)).sum = (expiredTags env db).count tag := by
    unfold expiredTags
    rw [List.count_flatMap]
    rfl
  rw [hbefore, hafter] at hsum
  rw [count_queuedTags, count_queuedTags]
  exact hsum

/-- An assignment takes one task, with its tags, out of the queue. -/
theorem queue_assign {task : Task} {expert : Expert} (ht : task ∈ db.tasks)
    (hs : task.status = .queued) :
    (∀ tag, (queuedTags (assign env db task expert).1).count tag + task.requiredTags.count tag =
      (queuedTags db).count tag) ∧
    queueSummary (assign env db task expert).1 .queued + 1 = queueSummary db .queued ∧
    queueSummary (assign env db task expert).1 .assigned = queueSummary db .assigned + 1 := by
  have hget : db.tasks.get task.id = some task := db.tasks.get_of_mem ht
  -- the totals lose what the task counts and gain what the assigned task counts
  have htotal (w : Task → ℕ) : (assign env db task expert).1.tasks.total w + w task =
      db.tasks.total w + w (task.assignTo env expert.id) := by
    have hwritten : (assign env db task expert).1.tasks =
        db.tasks.update task.id (Task.assignTo env expert.id) (fun _ => rfl) := rfl
    rw [hwritten]
    exact Table.total_update hget
  refine ⟨?_, ?_, ?_⟩
  · intro tag
    have hw := htotal (Task.tagWeight tag)
    simp only [Task.tagWeight, hs, Task.assignTo, if_true] at hw
    rw [count_queuedTags, count_queuedTags]
    simpa using hw
  · have hw := htotal (Task.statusWeight .queued)
    simp only [Task.statusWeight, hs, Task.assignTo, if_true] at hw
    rw [queueSummary_eq, queueSummary_eq]
    simpa using hw
  · have hw := htotal (Task.statusWeight .assigned)
    simp only [Task.statusWeight, hs, Task.assignTo, if_true] at hw
    rw [queueSummary_eq, queueSummary_eq]
    simpa using hw

theorem unbilled_eq (h : Booked db) {status : PayoutStatus} (hs : status ≠ .paid) :
    unbilled db status = ((withStatus db status).length, sumCents (withStatus db status)) := by
  have hrows : db.payouts.rows.filter (fun p => p.periodId.isNone ∧ p.status = status) =
      withStatus db status := by
    apply List.filter_congr
    intro p hp
    rw [decide_eq_decide, and_iff_right_iff_imp]
    rintro rfl
    by_contra hsome
    apply hs
    exact (h p hp).1.mpr (by simpa [Option.isSome_iff_ne_none] using hsome)
  unfold unbilled
  rw [hrows]

theorem tick_report {actor : String} {report : TickReport}
    (h : tick env db actor = .ok (db', report)) :
    report.reclaimed = expiredLeases env db ∧ report.adjudicationBacklog = backlog db ∧
      report.unbilledPayouts = (periodStatus db).unbilledPayouts ∧
      report.unbilledCents = (periodStatus db).unbilledCents := by
  obtain ⟨-, hreport⟩ := Prod.mk.inj (pure_ok_iff.mp h)
  obtain ⟨experts, changes, events, -, hfold⟩ := tickExpert_foldl env actor
    ((reclaimExpired env db).1.experts.rows.insertionSort
      (fun a b => a.name.toList ≤ b.name.toList))
    ((reclaimExpired env db).1, [], 0)
  rw [← hreport]
  refine ⟨rfl, ?_, ?_, ?_⟩
  · exact (congrArg backlog hfold).trans rfl
  · exact (congrArg (fun d => (periodStatus d).unbilledPayouts) hfold).trans rfl
  · exact (congrArg (fun d => (periodStatus d).unbilledCents) hfold).trans rfl

end Requests

/-- What the overview of a state says is what the next tick, claim or closing does at the same
time, and what the ledger says. -/
structure Foretold (env : Env) (db : Db) : Prop where
  tasks : (overview env db).tasksByStatus .queued + (overview env db).tasksByStatus .assigned +
    (overview env db).tasksByStatus .submitted + (overview env db).tasksByStatus .adjudication +
    (overview env db).tasksByStatus .approved + (overview env db).tasksByStatus .rejected =
      db.tasks.rows.length
  adjudication : (overview env db).adjudicationBacklog =
    (overview env db).tasksByStatus .adjudication
  pending : (overview env db).period.unbilledCents = (ledger db).totalsByStatus .pending
  withheld : (overview env db).period.withheldCents = (ledger db).totalsByStatus .withheld
  ticking : ∀ actor db' report, tick env db actor = .ok (db', report) →
    report.reclaimed = (overview env db).expiredLeases ∧
    report.adjudicationBacklog = (overview env db).adjudicationBacklog ∧
    report.unbilledPayouts = (overview env db).period.unbilledPayouts ∧
    report.unbilledCents = (overview env db).period.unbilledCents ∧
    (overview env db').expiredLeases = 0 ∧
    (overview env db').tasksByStatus .queued =
      (overview env db).tasksByStatus .queued + (overview env db).expiredLeases ∧
    (overview env db').tasksByStatus .assigned + (overview env db).expiredLeases =
      (overview env db).tasksByStatus .assigned ∧
    ∀ tag, ((overview env db').depth tag).getD 0 =
      ((overview env db).depth tag).getD 0 + (expiredTags env db).count tag
  claiming : ∀ expertId db' t, claimNext env db expertId = .ok (db', some t) →
    (∃ e, db.experts.get expertId = some e ∧ ∃ tag ∈ e.tags, tag ∈ t.requiredTags) ∧
    (overview env db').tasksByStatus .queued + 1 =
      (overview env db).tasksByStatus .queued + (overview env db).expiredLeases ∧
    (overview env db').tasksByStatus .assigned + (overview env db).expiredLeases =
      (overview env db).tasksByStatus .assigned + 1 ∧
    ∀ tag, ((overview env db').depth tag).getD 0 + t.requiredTags.count tag =
      ((overview env db).depth tag).getD 0 + (expiredTags env db).count tag
  closing : ∀ label actor db' P, closePeriod env db label actor = .ok (db', P) →
    (periodTotals db' P).payoutCount = (overview env db).period.unbilledPayouts ∧
    (periodTotals db' P).totalCents = (overview env db).period.unbilledCents ∧
    (overview env db').period.unbilledPayouts = 0

section Foretold
variable {env : Env} {db : Db}

theorem foretold_tick {actor : String} {db' : Db} {report : TickReport}
    (h : tick env db actor = .ok (db', report)) :
    (overview env db').expiredLeases = 0 ∧
    (∀ status, (overview env db').tasksByStatus status =
      queueSummary (reclaimExpired env db).1 status) ∧
    ∀ tag, ((overview env db').depth tag).getD 0 =
      (queuedTags (reclaimExpired env db).1).count tag := by
  obtain ⟨experts, changes, events, -, rfl⟩ := tick_ok h
  refine ⟨expiredLeases_reclaimed, fun _ => rfl, fun tag => ?_⟩
  rw [depth_overview]
  rfl

theorem foretold_closing (hlinked : Linked db) (hbook : Booked db) {label actor : String}
    {db' : Db} {P : PayoutPeriod} (h : closePeriod env db label actor = .ok (db', P)) :
    (periodTotals db' P).payoutCount = (overview env db).period.unbilledPayouts ∧
    (periodTotals db' P).totalCents = (overview env db).period.unbilledCents ∧
    (overview env db').period.unbilledPayouts = 0 := by
  have hopen : PayoutStatus.pending ≠ .paid := by decide
  have hunbilled := unbilled_eq hbook hopen
  have hpayouts := (closing_statement hlinked hbook h).2
  refine ⟨?_, ?_, ?_⟩
  · show (periodPayouts db' P.id).length = (unbilled db .pending).1
    rw [hpayouts, List.length_map, hunbilled]
  · show sumCents (periodPayouts db' P.id) = (unbilled db .pending).2
    rw [hpayouts, hunbilled]
    exact sumCents_map (f := Payout.paidIn P.id env.now) (fun _ => rfl) _
  · obtain ⟨periods, events, -, -, rfl⟩ := closePeriod_ok h
    show (List.filter _ _).length = 0
    rw [List.length_eq_zero_iff, List.filter_eq_nil_iff]
    intro p' hp' hleft
    obtain ⟨p, -, rfl⟩ := (Table.mem_updateWhere (f := Payout.paidIn P.id env.now)
      (fun _ => rfl)).mp hp'
    obtain ⟨hnone, hs⟩ := of_decide_eq_true hleft
    -- what was due is paid now, and the rest was not unbilled
    by_cases hdue : p.due = true
    · rw [if_pos hdue] at hs
      have hpaid : (p.paidIn P.id env.now).status = .paid := rfl
      exact absurd (hpaid.symm.trans hs) (by decide)
    · rw [if_neg hdue] at hs hnone
      exact hdue (by simp [Payout.due, hs, hnone])

end Foretold

/-- In every reachable state the overview agrees with the ledger and foretells what follows. -/
theorem overview_foretells (env : Env) (rs : List Request) : Foretold env (after rs) := by
  have hlinked := Linked.after rs
  have hbook := Booked.after rs
  have hqueued := @queueSummary_reclaimed env (after rs) .queued
  have hassigned := @queueSummary_reclaimed env (after rs) .assigned
  rw [if_neg (by decide), if_pos rfl] at hqueued
  rw [if_pos rfl, if_neg (by decide)] at hassigned
  refine ⟨summary_total, backlog_eq rs, ?_, ?_, ?_, ?_, ?_⟩
  · rw [totalsByStatus_eq hlinked]
    exact congrArg Prod.snd (unbilled_eq hbook (by decide))
  · rw [totalsByStatus_eq hlinked]
    exact congrArg Prod.snd (unbilled_eq hbook (by decide))
  -- the tick
  · intro actor db' report h
    obtain ⟨hreclaimed, hbacklog, hcount, hcents⟩ := tick_report h
    obtain ⟨hexpired, hsummary, hdepth⟩ := foretold_tick h
    refine ⟨hreclaimed, hbacklog, hcount, hcents, hexpired, ?_, ?_, ?_⟩
    · rw [hsummary]
      exact hqueued
    · rw [hsummary]
      exact hassigned
    · intro tag
      rw [hdepth, depth_overview]
      exact queuedTags_reclaimed tag
  -- the claim: one task leaves the queue that the reclaim has filled up
  · intro expertId db' t h
    obtain ⟨e, he, -, ⟨-, hnone⟩ | ⟨task, hmem, helig, hpair⟩⟩ := claimNext_ok h
    · cases hnone
    obtain ⟨rfl, ht⟩ := Prod.mk.inj hpair
    obtain rfl := Option.some.inj ht
    obtain ⟨hs, htags, -, -⟩ := eligibility_iff.mp helig
    obtain ⟨hdepth, hout, hin⟩ := @queue_assign env _ task e hmem hs
    refine ⟨⟨e, he, ?_⟩, hout.trans hqueued, ?_, ?_⟩
    · obtain ⟨tag, htask, htag⟩ := List.any_eq_true.mp htags
      exact ⟨tag, List.contains_iff_mem.mp htag, htask⟩
    · have hin :
          (overview env (assign env (reclaimExpired env (after rs)).1 task e).1).tasksByStatus
          .assigned = queueSummary (reclaimExpired env (after rs)).1 .assigned + 1 := hin
      have hassigned : queueSummary (reclaimExpired env (after rs)).1 .assigned +
          (overview env (after rs)).expiredLeases =
            (overview env (after rs)).tasksByStatus .assigned := hassigned
      omega
    · intro tag
      rw [depth_overview, depth_overview, ← queuedTags_reclaimed]
      exact hdepth tag
  -- the closing
  · intro label actor db' P h
    exact foretold_closing hlinked hbook h

/-! ### The gauges -/

/-- The gauges `refresh_gauges` sets, by their label, and `_queue_tags`. A child that was never
set is not on the page. -/
structure Gauges where
  queueDepth : String → Option ℕ
  payoutBalance : PayoutStatus → Option ℤ
  adjudicationBacklog : ℕ
  pausedExperts : ℕ
  expertsByTier : Tier → Option ℕ
  queueTags : List String

namespace Gauges

/-- Those of a process that has just started. -/
def start : Gauges := ⟨fun _ => none, fun _ => none, 0, 0, fun _ => none, []⟩

def setDepth (g : Gauges) (tag : String) (n : ℕ) : Gauges :=
  { g with queueDepth := Function.update g.queueDepth tag (some n) }

def setBalance (g : Gauges) (status : PayoutStatus) (cents : ℤ) : Gauges :=
  { g with payoutBalance := Function.update g.payoutBalance status (some cents) }

def setTier (g : Gauges) (tier : Tier) (n : ℕ) : Gauges :=
  { g with expertsByTier := Function.update g.expertsByTier tier (some n) }

end Gauges

/-- `GROUP BY status`: a status without payouts has no row. -/
def balances (db : Db) : List (PayoutStatus × ℤ) :=
  ([.pending, .withheld, .paid].filter (fun s => withStatus db s ≠ [])).map
    (fun s => (s, sumCents (withStatus db s)))

def tierCount (db : Db) (tier : Tier) : ℕ :=
  (db.experts.rows.filter (fun e => e.tier = tier)).length

/-- The queue depths: those of the rows, and 0 for the tags seen before. -/
def refreshDepths (db : Db) (g : Gauges) : Gauges :=
  let rows := queueDepthByTag db
  let seen := rows.map Prod.fst
  let g := rows.foldl (fun g row => g.setDepth row.1 row.2) g
  let drained := g.queueTags.filter (fun tag => tag ∉ seen)
  let g := drained.foldl (fun g tag => g.setDepth tag 0) g
  { g with queueTags := seen ∪ g.queueTags }

def refreshBalances (db : Db) (g : Gauges) : Gauges :=
  let g := [PayoutStatus.pending, .withheld, .paid].foldl (fun g s => g.setBalance s 0) g
  (balances db).foldl (fun g row => g.setBalance row.1 row.2) g

def refreshCounts (db : Db) (g : Gauges) : Gauges :=
  let g := { g with
    adjudicationBacklog := backlog db
    pausedExperts := (pausedExperts db).length }
  [Tier.junior, .senior, .lead].foldl (fun g tier => g.setTier tier (tierCount db tier)) g

def refreshGauges (db : Db) (g : Gauges) : Gauges :=
  refreshCounts db (refreshBalances db (refreshDepths db g))

/-- What reaches a process: a request, or a scrape of its metrics page. -/
inductive Visit
  | request (r : Request)
  | scrape

/-- The database and the gauges of the process in front of it. -/
structure Scraped where
  db : Db
  gauges : Gauges

def Scraped.visit (s : Scraped) : Visit → Scraped
  | .request r => { s with db := commit step r s.db }
  | .scrape => { s with gauges := refreshGauges s.db s.gauges }

def visited (vs : List Visit) : Scraped := vs.foldl Scraped.visit ⟨.empty, .start⟩

def Visit.request? : Visit → Option Request
  | .request r => some r
  | .scrape => none

/-- The requests among the visits. -/
def requestsOf (vs : List Visit) : List Request := vs.filterMap Visit.request?

section Gauges
variable {db : Db} {g : Gauges}

theorem foldl_setDepth (rows : List (String × ℕ)) (hn : (rows.map Prod.fst).Nodup) (tag : String) :
    (rows.foldl (fun g row => g.setDepth row.1 row.2) g).queueDepth tag =
      ((rows.find? (fun row => row.1 = tag)).map Prod.snd).or (g.queueDepth tag) := by
  induction rows generalizing g with
  | nil => rfl
  | cons row rows ih =>
    obtain ⟨hfresh, hn⟩ := List.nodup_cons.mp hn
    rw [List.foldl_cons, ih hn, List.find?_cons]
    by_cases htag : row.1 = tag
    · have hnone : rows.find? (fun row => row.1 = tag) = none := by
        rw [List.find?_eq_none]
        intro other hother heq
        exact hfresh (htag ▸ of_decide_eq_true heq ▸ List.mem_map_of_mem hother)
      subst htag
      simp [hnone, Gauges.setDepth]
    · simp [htag, Gauges.setDepth, Function.update_of_ne (Ne.symm htag)]

theorem foldl_drained (tags : List String) (tag : String) :
    (tags.foldl (fun g tag => g.setDepth tag 0) g).queueDepth tag =
      if tag ∈ tags then some 0 else g.queueDepth tag := by
  induction tags generalizing g with
  | nil => rfl
  | cons t tags ih =>
    rw [List.foldl_cons, ih]
    by_cases htag : tag = t
    · subst htag
      simp [Gauges.setDepth]
    · simp [Gauges.setDepth, htag]

theorem foldl_setBalance (rows : List (PayoutStatus × ℤ)) (hn : (rows.map Prod.fst).Nodup)
    (status : PayoutStatus) :
    (rows.foldl (fun g row => g.setBalance row.1 row.2) g).payoutBalance status =
      ((rows.find? (fun row => row.1 = status)).map Prod.snd).or (g.payoutBalance status) := by
  induction rows generalizing g with
  | nil => rfl
  | cons row rows ih =>
    obtain ⟨hfresh, hn⟩ := List.nodup_cons.mp hn
    rw [List.foldl_cons, ih hn, List.find?_cons]
    by_cases hs : row.1 = status
    · have hnone : rows.find? (fun row => row.1 = status) = none := by
        rw [List.find?_eq_none]
        intro other hother heq
        exact hfresh (hs ▸ of_decide_eq_true heq ▸ List.mem_map_of_mem hother)
      subst hs
      simp [hnone, Gauges.setBalance]
    · simp [hs, Gauges.setBalance, Function.update_of_ne (Ne.symm hs)]

/-- What no pass of a loop touches, the loop does not touch. -/
theorem foldl_frame {α β : Type} (f : Gauges → α → Gauges) (part : Gauges → β)
    (h : ∀ g a, part (f g a) = part g) (l : List α) (g : Gauges) : part (l.foldl f g) = part g := by
  induction l generalizing g with
  | nil => rfl
  | cons a l ih => rw [List.foldl_cons, ih, h]

theorem find_balances (status : PayoutStatus) :
    ((balances db).find? (fun row => row.1 = status)).map Prod.snd =
      if withStatus db status = [] then none else some (sumCents (withStatus db status)) := by
  unfold balances
  cases status <;>
    by_cases hp : withStatus db .pending = [] <;> by_cases hw : withStatus db .withheld = [] <;>
    by_cases hd : withStatus db .paid = [] <;> simp [hp, hw, hd]

theorem map_fst_queueDepth : (queueDepthByTag db).map Prod.fst = (queuedTags db).dedup := by
  rw [queueDepthByTag, List.map_map]
  exact List.map_id _

theorem tags_setDepth (rows : List (String × ℕ)) :
    (rows.foldl (fun g row => g.setDepth row.1 row.2) g).queueTags = g.queueTags :=
  foldl_frame (fun g (row : String × ℕ) => g.setDepth row.1 row.2) Gauges.queueTags
    (fun _ _ => rfl) rows g

theorem tags_drained (tags : List String) :
    (tags.foldl (fun g tag => g.setDepth tag 0) g).queueTags = g.queueTags :=
  foldl_frame (fun g (tag : String) => g.setDepth tag 0) Gauges.queueTags (fun _ _ => rfl) tags g

theorem refreshDepths_depth (tag : String) : (refreshDepths db g).queueDepth tag =
    if tag ∈ queuedTags db then some ((queuedTags db).count tag)
    else if tag ∈ g.queueTags then some 0 else g.queueDepth tag := by
  have hnodup : ((queueDepthByTag db).map Prod.fst).Nodup := by
    rw [map_fst_queueDepth]
    exact List.nodup_dedup _
  have hdrained : tag ∈ g.queueTags.filter (fun t => t ∉ (queueDepthByTag db).map Prod.fst) ↔
      tag ∈ g.queueTags ∧ tag ∉ queuedTags db := by
    rw [List.mem_filter, map_fst_queueDepth, decide_eq_true_eq, List.mem_dedup]
  unfold refreshDepths
  dsimp only
  rw [foldl_drained, foldl_setDepth _ hnodup, find_queueDepth, tags_setDepth]
  by_cases hmem : tag ∈ queuedTags db
  · rw [if_neg (fun h => (hdrained.mp h).2 hmem), if_pos hmem, if_pos hmem, Option.some_or]
  · rw [if_neg hmem, if_neg hmem, Option.none_or]
    exact if_congr (hdrained.trans (and_iff_left hmem)) rfl rfl

theorem refreshDepths_tags : (refreshDepths db g).queueTags =
    (queuedTags db).dedup ∪ g.queueTags := by
  unfold refreshDepths
  dsimp only
  rw [tags_drained, tags_setDepth, map_fst_queueDepth]

theorem refreshBalances_queue : (refreshBalances db g).queueDepth = g.queueDepth ∧
    (refreshBalances db g).queueTags = g.queueTags :=
  ⟨foldl_frame (fun g (row : PayoutStatus × ℤ) => g.setBalance row.1 row.2) Gauges.queueDepth
      (fun _ _ => rfl) _ _,
    foldl_frame (fun g (row : PayoutStatus × ℤ) => g.setBalance row.1 row.2) Gauges.queueTags
      (fun _ _ => rfl) _ _⟩

/-- A tag without queued tasks reads 0 once it has been seen, and stays off the page before. -/
theorem refresh_depth (tag : String) : (refreshGauges db g).queueDepth tag =
    if tag ∈ queuedTags db then some ((queuedTags db).count tag)
    else if tag ∈ g.queueTags then some 0 else g.queueDepth tag := by
  have hbalances := congrFun (@refreshBalances_queue db (refreshDepths db g)).1 tag
  rw [← refreshDepths_depth]
  exact hbalances

theorem refresh_tags (tag : String) : tag ∈ (refreshGauges db g).queueTags ↔
    tag ∈ queuedTags db ∨ tag ∈ g.queueTags := by
  have htags : (refreshGauges db g).queueTags = (refreshDepths db g).queueTags :=
    (@refreshBalances_queue db (refreshDepths db g)).2
  rw [htags, refreshDepths_tags, List.mem_union_iff, List.mem_dedup]

/-- A status without payouts has the balance 0. -/
theorem refresh_balance (status : PayoutStatus) :
    (refreshGauges db g).payoutBalance status = some (sumCents (withStatus db status)) := by
  have hnodup : ((balances db).map Prod.fst).Nodup := by
    have hfst : (balances db).map Prod.fst =
        [PayoutStatus.pending, .withheld, .paid].filter (fun s => withStatus db s ≠ []) := by
      rw [balances, List.map_map]
      exact List.map_id _
    rw [hfst]
    exact List.Nodup.filter _ (by decide)
  show (refreshBalances db (refreshDepths db g)).payoutBalance status = _
  unfold refreshBalances
  dsimp only
  rw [foldl_setBalance _ hnodup, find_balances]
  by_cases hnil : withStatus db status = []
  · rw [if_pos hnil, hnil, Option.none_or]
    cases status <;> rfl
  · rw [if_neg hnil, Option.some_or]

theorem refresh_tier (tier : Tier) :
    (refreshGauges db g).expertsByTier tier = some (tierCount db tier) := by
  cases tier <;> rfl

end Gauges

/-! ### Pages -/

/-- Some scrape so far found a queued task with the tag. -/
def Shown (vs : List Visit) (tag : String) : Prop :=
  ∃ earlier later, vs = earlier ++ .scrape :: later ∧ tag ∈ queuedTags (after (requestsOf earlier))

section Pages
variable {vs : List Visit} {tag : String}

theorem not_shown_nil : ¬ Shown [] tag := by
  rintro ⟨earlier, later, h, -⟩
  simp at h

theorem shown_concat (v : Visit) : Shown (vs ++ [v]) tag ↔
    Shown vs tag ∨ v = .scrape ∧ tag ∈ queuedTags (after (requestsOf vs)) := by
  constructor
  · rintro ⟨earlier, later, h, htag⟩
    rcases List.eq_nil_or_concat' later with rfl | ⟨later, w, rfl⟩
    · obtain ⟨rfl, hv⟩ := List.append_inj' h rfl
      exact Or.inr ⟨List.singleton_inj.mp hv, htag⟩
    · rw [← List.cons_append, ← List.append_assoc] at h
      obtain ⟨rfl, -⟩ := List.append_inj' h rfl
      exact Or.inl ⟨earlier, later, rfl, htag⟩
  · rintro (⟨earlier, later, rfl, htag⟩ | ⟨rfl, htag⟩)
    · exact ⟨earlier, later ++ [v], by rw [List.append_assoc, List.cons_append], htag⟩
    · exact ⟨vs, [], rfl, htag⟩

theorem visited_concat (v : Visit) : visited (vs ++ [v]) = (visited vs).visit v := by
  rw [visited, List.foldl_append]
  rfl

theorem db_visited (vs : List Visit) : (visited vs).db = after (requestsOf vs) := by
  induction vs using List.reverseRecOn with
  | nil => rfl
  | append_singleton vs v ih =>
    rw [visited_concat, requestsOf, List.filterMap_append]
    cases v with
    | request r =>
      show commit step r (visited vs).db = after (requestsOf vs ++ [r])
      rw [ih, after, after, run_concat]
    | scrape =>
      show (visited vs).db = after (requestsOf vs ++ [])
      rw [ih, List.append_nil]

/-- The process remembers exactly the tags that it has shown. -/
theorem mem_queueTags (vs : List Visit) (tag : String) :
    (tag ∈ (visited vs).gauges.queueTags ↔ Shown vs tag) ∧
    ((visited vs).gauges.queueDepth tag ≠ none ↔ Shown vs tag) := by
  -- one visit more: only a scrape shows tags
  induction vs using List.reverseRecOn with
  | nil =>
    exact ⟨iff_of_false List.not_mem_nil not_shown_nil,
      iff_of_false (by simp [visited, Gauges.start]) not_shown_nil⟩
  | append_singleton vs v ih =>
    obtain ⟨htags, hdepth⟩ := ih
    rw [visited_concat, shown_concat]
    cases v with
    | request r =>
      have hno : ¬ (Visit.request r = .scrape ∧ tag ∈ queuedTags (after (requestsOf vs))) :=
        fun h => by cases h.1
      rw [or_iff_left hno]
      exact ⟨htags, hdepth⟩
    | scrape =>
      have hdb := db_visited vs
      constructor
      · show tag ∈ (refreshGauges (visited vs).db (visited vs).gauges).queueTags ↔ _
        rw [refresh_tags, htags, hdb, or_comm]
        simp
      · show (refreshGauges (visited vs).db (visited vs).gauges).queueDepth tag ≠ none ↔ _
        rw [refresh_depth, hdb]
        by_cases hmem : tag ∈ queuedTags (after (requestsOf vs))
        · simp [hmem]
        -- a drained tag that was shown is set to 0, not removed
        · by_cases hshown : Shown vs tag
          · simp [hmem, htags.mpr hshown, hshown]
          · rw [if_neg hmem, if_neg (fun h => hshown (htags.mp h)), hdepth]
            simp [hmem]

/-- What a scrape's page says of the database at that moment. -/
structure PageExact (vs : List Visit) (g : Gauges) (db : Db) : Prop where
  depth : ∀ tag n, g.queueDepth tag = some n ↔ Shown vs tag ∧ (queuedTags db).count tag = n
  balance : ∀ status, g.payoutBalance status = some ((ledger db).totalsByStatus status)
  backlog : g.adjudicationBacklog = queueSummary db .adjudication
  paused : ∀ env, g.pausedExperts = (overview env db).pausedExperts.length
  tiers : ∀ tier, g.expertsByTier tier = some (tierCount db tier)

/-- However requests and scrapes follow each other, the page of a scrape is exact: it has every
tag that was queued at this scrape or an earlier one, a drained one with 0, and balances that
agree with the ledger. -/
theorem scrape_exact (vs : List Visit) :
    PageExact (vs ++ [.scrape]) (visited (vs ++ [.scrape])).gauges (after (requestsOf vs)) := by
  have hgauges : (visited (vs ++ [.scrape])).gauges =
      refreshGauges (after (requestsOf vs)) (visited vs).gauges := by
    rw [visited_concat, ← db_visited]
    rfl
  refine ⟨fun tag n => ?_, fun status => ?_, ?_, fun env => ?_, fun tier => ?_⟩
  -- the depths: set for queued tags, 0 for those that were shown before, else absent
  · obtain ⟨htags, hdepth⟩ := mem_queueTags vs tag
    rw [hgauges, refresh_depth, shown_concat]
    by_cases hmem : tag ∈ queuedTags (after (requestsOf vs))
    · simp [hmem]
    · have hzero : (queuedTags (after (requestsOf vs))).count tag = 0 := List.count_eq_zero.mpr hmem
      by_cases hshown : Shown vs tag
      · simp [hmem, htags.mpr hshown, hshown, hzero]
      · have hnone : (visited vs).gauges.queueDepth tag = none := by
          by_contra hsome
          exact hshown (hdepth.mp hsome)
        rw [if_neg hmem, if_neg (fun h => hshown (htags.mp h)), hnone]
        simp [hmem, hshown]
  -- balances, backlog, paused experts, tiers
  · rw [hgauges, refresh_balance, totalsByStatus_eq (Linked.after _)]
  · rw [hgauges, ← backlog_eq]
    rfl
  · rw [hgauges]
    exact (List.length_map _).symm
  · rw [hgauges, refresh_tier]

end Pages

end Panelist
