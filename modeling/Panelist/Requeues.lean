import Panelist.Service

/-! The tasks a tick reports as rejected twice, against the ones among them that are in the
queue: the count is taken over the history of reviews and never looks at the status. -/
namespace Panelist
open Relational Transaction

/-- The non-golden single-grader tasks in the queue with at least two rejected grades. -/
def queuedTwice (db : Db) : List Task :=
  db.tasks.rows.filter (fun t => decide (t.status = .queued) && (decide (t.requiredGrades = 1) &&
    !t.isAttentionCheck && decide (2 ≤ rejections db t.id)))

section Ticks
variable {env : Env} {db db' : Db} {actor : String} {report : TickReport}

theorem rejections_congr (hg : db'.grades = db.grades) (hr : db'.reviews = db.reviews) (k : Uuid) :
    rejections db' k = rejections db k := by
  have hd (k : Uuid) : decision db' k = decision db k := by rw [decision, decision, hr]
  rw [rejections, rejections, gradesOf, gradesOf, hg]
  simp only [hd]

/-- A tick reports the count taken from the state it leaves. -/
theorem tick_rejectedTwice (h : tick env db actor = .ok (db', report)) :
    report.rejectedTwice = (rejectedTwice db').length ∧
      db'.tasks = (reclaimExpired env db).1.tasks ∧ db'.grades = db.grades ∧
      db'.reviews = db.reviews := by
  obtain ⟨experts, changes, events, -, hdb'⟩ := tick_ok h
  obtain ⟨hfold, hreport⟩ := Prod.mk.inj (pure_ok_iff.mp h)
  refine ⟨?_, by rw [hdb'], by rw [hdb']; rfl, by rw [hdb']; rfl⟩
  rw [← hreport, ← hfold]
  rfl

/-- A task after the leases that have expired are taken back is queued if it was or if its
own lease had expired. -/
theorem Task.queued_after_reclaim (t : Task) :
    (if t.leaseExpired env.now then t.reclaimed else t).status = .queued ↔
      t.status = .queued ∨ t.leaseExpired env.now = true := by
  split_ifs with h
  · simp [h, Task.reclaimed, Task.unassigned]
  · simp [h]

/-- Reclaiming leases neither adds a task to the count nor takes one from it. -/
theorem rejectedTwice_reclaimed (ht : db'.tasks = (reclaimExpired env db).1.tasks)
    (hg : db'.grades = db.grades) (hr : db'.reviews = db.reviews) :
    rejectedTwice db' = (rejectedTwice db).map
      (fun t => if t.leaseExpired env.now then t.reclaimed else t) := by
  have hrows : db'.tasks.rows = db.tasks.rows.map
      (fun t => if t.leaseExpired env.now then t.reclaimed else t) := by
    rw [ht]
    rfl
  rw [rejectedTwice, rejectedTwice, hrows, List.filter_map]
  refine congrArg (List.map _) (List.filter_congr (fun t _ => ?_))
  rw [Function.comp_apply, rejections_congr hg hr]
  split_ifs <;> rfl

theorem queuedTwice_eq (db : Db) :
    queuedTwice db = (rejectedTwice db).filter (fun t => decide (t.status = .queued)) := by
  rw [queuedTwice, rejectedTwice, List.filter_filter]

end Ticks

/-- A tick succeeds, and what it reports as rejected twice are exactly the tasks of that kind
in the queue when each task it counts is queued or held under an expired lease. -/
theorem rejected_twice_iff (env : Env) (db : Db) (actor : String) :
    ∃ db' report, tick env db actor = .ok (db', report) ∧
      (report.rejectedTwice = (queuedTwice db').length ↔
        ∀ t ∈ rejectedTwice db, t.status = .queued ∨ t.leaseExpired env.now = true) := by
  obtain ⟨⟨db', report⟩, h⟩ : ∃ p, tick env db actor = .ok p := ⟨_, rfl⟩
  refine ⟨db', report, h, ?_⟩
  obtain ⟨hcount, ht, hg, hr⟩ := tick_rejectedTwice h
  rw [hcount, queuedTwice_eq, eq_comm, List.length_filter_eq_length_iff,
    rejectedTwice_reclaimed ht hg hr, List.forall_mem_map]
  refine forall₂_congr (fun t _ => ?_)
  rw [decide_eq_true_eq]
  exact t.queued_after_reclaim

namespace Scenario

/-- Task 500 is rejected twice, graded a third time by expert 1200 and approved. -/
def thirdTime : List Request := setup ++
  [call 5 (.createTasks [task] "admin"), call 6 (.claimNext 300),
   call 7 (.submit 300 (grade 500 1)), call 8 (.review 7 ⟨700, .reject, none⟩ "reviewer"),
   call 9 (.claimNext 400), call 10 (.submit 400 (grade 500 2)),
   call 11 (.review 7 ⟨1000, .reject, none⟩ "reviewer"),
   call 12 (.createExpert ⟨"C", ["python"], .junior, none⟩ "admin"),
   call 13 (.claimNext 1200), call 14 (.submit 1200 (grade 500 3)),
   call 15 (.review 7 ⟨1400, .approve, none⟩ "reviewer")]

end Scenario

open Scenario in
/-- A tick reports one task rejected twice and back in the queue; the queue is empty. -/
theorem rejected_twice_counts_approved : ∃ db' report,
    tick (env 16) (after thirdTime) "system:tick" = .ok (db', report) ∧
      report.rejectedTwice = 1 ∧ (queuedTwice db').length = 0 := by
  have hcounts : (tick (env 16) (after thirdTime) "system:tick").toOption.map
      (fun p => (p.2.rejectedTwice, (queuedTwice p.1).length)) = some (1, 0) := by
    decide +kernel
  obtain ⟨⟨db', report⟩, h⟩ : ∃ p, tick (env 16) (after thirdTime) "system:tick" = .ok p := ⟨_, rfl⟩
  rw [h] at hcounts
  obtain ⟨hreported, hqueued⟩ := Prod.mk.inj (Option.some.inj hcounts)
  exact ⟨db', report, h, hreported, hqueued⟩

end Panelist
