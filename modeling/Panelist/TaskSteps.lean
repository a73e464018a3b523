import Panelist.Lifecycle

/-! What one request does to the rubrics, the tasks and the grades, with its
answer: the effects of a request as the expert and the operator see them. -/
namespace Panelist
open Relational Transaction

/-- The tables that decide under which version a task is graded. -/
structure Work where
  rubrics : Table Rubric
  criteria : Table RubricCriterion
  tasks : Table Task
  grades : Table Grade

def Db.work (db : Db) : Work := ⟨db.rubrics, db.rubricCriteria, db.tasks, db.grades⟩

/-- The row a request puts back in the queue in place of `t`, if it returns `t`:
a release, a reclaim and the rejection of a single grader's grade do. -/
def Task.returnedBy (r : Request) (db : Db) (t : Task) : Option Task :=
  match r.op with
  | .release _ taskId => if t.id = taskId then some t.unassigned else none
  -- all of these reclaim what has expired before they do anything else
  | .claimNext _ | .claimById _ _ | .reclaim | .tick _ =>
    if t.leaseExpired r.env.now then some t.reclaimed else none
  | .review _ body _ =>
    if body.decision = .reject ∧ t.isAttentionCheck = false ∧ t.requiredGrades = 1 ∧
        (db.grades.get body.gradeId).map Grade.taskId = some t.id then some t.requeued
    else none
  | _ => none

/-- What a successful request does to the rubrics, the tasks and the grades. -/
inductive TaskStep (r : Request) (db : Db) : Response → Work → Prop
  | kept {x : Response} (hkept : ∀ t : Task, t.returnedBy r db = none)
      (hx : ∀ t, x ≠ .claimed (some t)) : TaskStep r db x db.work
  | created {rubric : Rubric} {rubrics : Table Rubric} {rows : Table RubricCriterion}
      {name : String} {version : ℤ} {criteria : List CriterionIn} {actor : String}
      (hop : r.op = .createRubric name version criteria actor)
      (hcurrent : rubric.supersededAt = none) (hr : db.rubrics.insert rubric = some rubrics)
      (hc : db.rubricCriteria.insertAll (criterionRows r.env rubric.id criteria) = some rows) :
      TaskStep r db (.rubric rubric) { db.work with rubrics := rubrics, criteria := rows }
  | published {previous rubric : Rubric} {rubrics : Table Rubric} {rows : Table RubricCriterion}
      {criteria : List CriterionIn} {actor : String} {m n : ℕ}
      (hop : r.op = .publish previous.id criteria actor)
      (hp : db.rubrics.get previous.id = some previous) (hopen : previous.supersededAt = none)
      (hcurrent : rubric.supersededAt = none) (hr : db.rubrics.insert rubric = some rubrics)
      (hc : db.rubricCriteria.insertAll (criterionRows r.env rubric.id criteria) = some rows) :
      TaskStep r db (.published rubric m n)
        { db.work with
          rubrics := rubrics.update previous.id (Rubric.superseded r.env.now rubric.id)
          criteria := rows
          tasks := db.tasks.updateWhere (Task.untouchedOn previous.id)
            (Task.retargeted rubric.id) }
  | queued {body : List TaskCreate} {actor : String} {tasks : Table Task} {ids : List Uuid}
      (hop : r.op = .createTasks body actor) (hv : validTasks body)
      (hcurrent : supersededAmong db (body.map TaskCreate.rubricId) = none)
      (hexpected : ∀ t ∈ body, t.isAttentionCheck = true → t.hasExpected = true)
      (hrub : ∀ t ∈ body, (db.rubrics.get t.rubricId).isSome)
      (hi : db.tasks.insertAll (taskRows r.env db.taskSeq body) = some tasks) :
      TaskStep r db (.ids ids) { db.work with tasks := tasks }
  | reclaimed {x : Response}
      (hop : r.op = .reclaim ∨ (∃ actor, r.op = .tick actor) ∨ ∃ e, r.op = .claimNext e)
      (hx : ∀ t, x ≠ .claimed (some t)) :
      TaskStep r db x { db.work with tasks := (reclaimExpired r.env db).1.tasks }
  | claimed {e : Expert} {task : Task}
      (hop : r.op = .claimNext e.id ∨ r.op = .claimById e.id task.id)
      (he : db.experts.get e.id = some e) (ha : e.status = .active)
      (ht : (reclaimExpired r.env db).1.tasks.get task.id = some task)
      (hs : task.status = .queued) :
      TaskStep r db (.claimed (some (task.assignTo r.env e.id)))
        { db.work with
          tasks := (reclaimExpired r.env db).1.tasks.update task.id (Task.assignTo r.env e.id) }
  | released {e : Expert} {task : Task} {x : Response} (hop : r.op = .release e.id task.id)
      (ht : db.tasks.get task.id = some task) (hs : task.status = .assigned)
      (hh : task.assignedExpertId = some e.id) (hx : ∀ t, x ≠ .claimed (some t)) :
      TaskStep r db x { db.work with tasks := db.tasks.update task.id Task.unassigned }
  | graded {e : Expert} {task : Task} {grade : Grade} {grades : Table Grade} {body : GradeCreate}
      {f : Task → Task} {hf : Table.Keeps f} (hop : r.op = .submit e.id body)
      (ht : db.tasks.get task.id = some task) (hs : task.status = .assigned)
      (hh : task.assignedExpertId = some e.id) (htask : grade.taskId = task.id)
      (hexpert : grade.expertId = e.id) (hrubric : grade.rubricId = task.gradingRubricId)
      (hi : db.grades.insert grade = some grades)
      (hcount : f = Task.graded ∨ f = fun t => t.graded.withStatus .adjudication) :
      TaskStep r db (.grade grade)
        { db.work with tasks := db.tasks.update task.id f hf, grades := grades }
  | reviewed {grade : Grade} {task : Task} {v : Review} {keyId : Uuid} {body : ReviewCreate}
      {actor : String} (hop : r.op = .review keyId body actor)
      (hb : body.gradeId = grade.id) (hg : db.grades.get grade.id = some grade)
      (htask : task.id = grade.taskId) (ht : db.tasks.get task.id = some task)
      (hallow : rejectIfConsensusPending task = .ok ()) (hnone : decision db grade.id = none) :
      TaskStep r db (.review v) { db.work with
        tasks := db.tasks.update task.id (Task.reviewed body.decision) (Task.reviewed_keeps _) }
  | resolved {c row : Consensus} {taskId gradeId keyId : Uuid} {reason actor : String}
      (hop : r.op = .resolve taskId gradeId reason keyId actor)
      (hrow : db.consensus.get taskId = some row) :
      TaskStep r db (.round c) { db.work with
        tasks := db.tasks.update taskId (Task.withStatus .approved) (Task.withStatus_keeps _) }

section Steps
variable {r : Request} {db db' : Db} {x : Response}

theorem submit_step {expertId : Uuid} {body : GradeCreate} {grade : Grade}
    (hop : r.op = .submit expertId body) (h : submit r.env db expertId body = .ok (db', grade)) :
    TaskStep r db (.grade grade) db'.work := by
  obtain ⟨e, task, rubric, grades, tasks, consensus, events, he, ht, hs, hh, hrub, hg, hi, hc,
    hcheck⟩ := submit_ok h
  obtain ⟨_, _, _, _, _, _, _, _, rfl⟩ := checkGrade_ok hcheck
  obtain rfl := Table.get_pk he
  have htid : task.id = body.taskId := Table.get_pk ht
  have hrid : rubric.id = task.gradingRubricId := Table.get_pk hrub
  rw [← htid] at ht
  -- whatever the round does, it touches the status of the task only
  have hgraded (f : Task → Task) (hf : Table.Keeps f)
      (hcount : f = Task.graded ∨ f = fun t => t.graded.withStatus .adjudication) :
      TaskStep r db (.grade grade)
        { db.work with tasks := db.tasks.update task.id f hf, grades := grades } :=
    .graded hop ht hs hh (by rw [hg]) (by rw [hg]) (by rw [hg]; exact hrid) hi hcount
  cases hc with
  | none | agreed => exact hgraded Task.graded (fun _ => rfl) (Or.inl rfl)
  | split =>
    exact hgraded (fun t => t.graded.withStatus .adjudication) (fun _ => rfl) (Or.inr rfl)

theorem review_step {keyId : Uuid} {body : ReviewCreate} {actor : String} {v : Review}
    (hop : r.op = .review keyId body actor) (h : review r.env db keyId body actor = .ok (db', v)) :
    TaskStep r db (.review v) db'.work := by
  obtain ⟨grade, task, reviews, _, _, _, _, hg, ht, hallow, rfl, hi, _, _, rfl⟩ := review_ok h
  have hgid : grade.id = body.gradeId := Table.get_pk hg
  have htid : task.id = grade.taskId := Table.get_pk ht
  rw [← hgid] at hg
  rw [← htid] at ht
  exact .reviewed hop hgid.symm hg htid ht hallow (decision_of_insert hi)

theorem publish_step {previousId : Uuid} {criteria : List CriterionIn} {actor : String}
    {rubric : Rubric} {m n : ℕ} (hop : r.op = .publish previousId criteria actor)
    (h : publish r.env db previousId criteria actor = .ok (db', rubric, m, n)) :
    TaskStep r db (.published rubric m n) db'.work := by
  obtain ⟨previous, db₁, events, hp, hopen, hrub, hadd, rfl⟩ := publish_ok h
  obtain ⟨rubrics, rows, hr, hc, rfl⟩ := addRubric_ok hadd
  obtain rfl := Table.get_pk hp
  exact .published hop hp hopen (by rw [hrub]) hr hc

/-- A successful request is one of these steps. -/
theorem step_tasks (h : step r db = .ok (db', x)) : TaskStep r db x db'.work := by
  cases hop : r.op
  all_goals
    simp only [step, hop] at h
    obtain ⟨a, hstep, rfl⟩ := answer_ok h
    clear h
    rename' hstep => h
  -- what writes no task, grade or rubric returns no task to the queue either
  case createExpert =>
    obtain ⟨experts, events, hs, hi, rfl⟩ := createExpert_ok h
    exact .kept (fun t => by simp [Task.returnedBy, hop]) (by simp)
  case setStatus =>
    obtain ⟨e, events, he, rfl⟩ := setStatus_ok h
    exact .kept (fun t => by simp [Task.returnedBy, hop]) (by simp)
  case createKey =>
    obtain ⟨keys, events, rfl⟩ := createKey_ok h
    exact .kept (fun t => by simp [Task.returnedBy, hop]) (by simp)
  case createExpertKey =>
    obtain ⟨keys, events, rfl⟩ := createExpertKey_ok h
    exact .kept (fun t => by simp [Task.returnedBy, hop]) (by simp)
  case revokeKey =>
    obtain ⟨keys, events, rfl⟩ := revokeKey_ok h
    exact .kept (fun t => by simp [Task.returnedBy, hop]) (by simp)
  case bootstrap =>
    obtain ⟨keys, rfl⟩ := bootstrap_ok h
    exact .kept (fun t => by simp [Task.returnedBy, hop]) (by simp)
  case createRubric =>
    obtain ⟨db₁, events, hadd, hrub, rfl⟩ := createRubric_ok h
    obtain ⟨rubrics, rows, hr, hc, rfl⟩ := addRubric_ok hadd
    exact .created hop (by rw [hrub]) hr hc
  case publish => exact publish_step hop h
  case putRateCards =>
    obtain ⟨events, rfl⟩ := putRateCards_ok h
    exact .kept (fun t => by simp [Task.returnedBy, hop]) (by simp)
  case createTasks =>
    obtain ⟨tasks, events, hv, hcurrent, hexpected, hrub, hi, rfl⟩ := createTasks_ok h
    exact .queued hop hv hcurrent hexpected hrub hi
  case claimNext =>
    obtain ⟨e, he, ha, ⟨rfl, rfl⟩ | ⟨task, htask, helig, hassign⟩⟩ := claimNext_ok h
    -- nobody is served, but the expired leases are over
    · exact .reclaimed (Or.inr (Or.inr ⟨_, hop⟩)) (by simp)
    · obtain ⟨rfl, rfl⟩ := Prod.mk.inj hassign
      obtain rfl := Table.get_pk he
      exact .claimed (Or.inl hop) he ha (Table.get_of_mem _ htask) (eligibility_iff.mp helig).1
  case claimById =>
    obtain ⟨e, task, he, ha, ht, hs, -, -, hassign⟩ := claimById_ok_iff.mp h
    obtain ⟨rfl, rfl⟩ := Prod.mk.inj hassign
    obtain rfl := Table.get_pk he
    obtain rfl := Table.get_pk ht
    exact .claimed (Or.inr hop) he ha ht hs
  case release =>
    obtain ⟨e, task, he, ht, hs, hh, rfl⟩ := release_ok h
    obtain rfl := Table.get_pk he
    obtain rfl := Table.get_pk ht
    exact .released hop ht hs hh (by simp)
  case reclaim =>
    obtain ⟨rfl, rfl⟩ := Prod.mk.inj (pure_ok_iff.mp h)
    exact .reclaimed (Or.inl hop) (by simp)
  case submit => exact submit_step hop h
  case review => exact review_step hop h
  case resolve =>
    obtain ⟨row, delivered, task, db₁, events, hrow, hs, hd, _, ht, hloop, rfl⟩ := resolve_ok h
    obtain ⟨_, _, _, _, _, _, _, _, rfl⟩ := resolveLoop_ok (gradesFor_experts db _) hloop
    exact .resolved hop hrow
  case closePeriod =>
    obtain ⟨periods, events, _, hi, rfl⟩ := closePeriod_ok h
    exact .kept (fun t => by simp [Task.returnedBy, hop]) (by simp)
  case exportDelivery =>
    obtain ⟨deliveries, events, _, _, rfl⟩ := exportDelivery_ok h
    exact .kept (fun t => by simp [Task.returnedBy, hop]) (by simp)
  case tick =>
    obtain ⟨experts, changes, events, hcal, rfl⟩ := tick_ok h
    exact .reclaimed (Or.inr (Or.inl ⟨_, hop⟩)) (by simp)

end Steps

end Panelist
