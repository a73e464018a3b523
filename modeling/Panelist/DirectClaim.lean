import Panelist.Effects

/-! The direct claim against the eligibility filter of the queue: the two gates
agree except on a task the expert has graded before, which only the filter
keeps from its author. -/
namespace Panelist
open Relational Transaction

/-- The claim succeeds and leaves the task assigned to the expert. -/
def Assigns (env : Env) (db : Db) (expertId taskId : Uuid) : Prop :=
  ∃ db' t row, claimById env db expertId taskId = .ok (db', t) ∧
    db'.tasks.get taskId = some row ∧ row.status = .assigned ∧ row.assignedExpertId = some expertId

/-- The direct claim assigns exactly what `_eligibility` admits to an active expert. -/
def GatesAgree (env : Env) (db : Db) (expertId taskId : Uuid) : Prop :=
  Assigns env db expertId taskId ↔
    ∃ expert task, db.experts.get expertId = some expert ∧
      (reclaimExpired env db).1.tasks.get taskId = some task ∧ expert.status = .active ∧
      eligibility (reclaimExpired env db).1 expert task = true

/-- A direct claim that passes every check it makes, on a task the expert has graded. -/
def GradedClaim (env : Env) (db : Db) (expertId taskId : Uuid) : Prop :=
  ∃ expert task, db.experts.get expertId = some expert ∧
    (reclaimExpired env db).1.tasks.get taskId = some task ∧ expert.status = .active ∧
    task.status = .queued ∧ overlap task.requiredTags expert.tags = true ∧
    task.minTier.rank ≤ expert.tier.rank ∧ alreadyGraded db taskId expertId = true

section Gate
variable {env : Env} {db : Db} {expertId taskId : Uuid}

theorem assigns_iff : Assigns env db expertId taskId ↔
    ∃ expert task, db.experts.get expertId = some expert ∧
      (reclaimExpired env db).1.tasks.get taskId = some task ∧ expert.status = .active ∧
      task.status = .queued ∧ overlap task.requiredTags expert.tags = true ∧
      task.minTier.rank ≤ expert.tier.rank := by
  constructor
  · rintro ⟨db', t, row, hok, -⟩
    obtain ⟨expert, task, he, ha, ht, hs, htags, htier, -⟩ := claimById_ok_iff.mp hok
    exact ⟨expert, task, he, ht, ha, hs, htags, htier⟩
  · rintro ⟨expert, task, he, ht, ha, hs, htags, htier⟩
    have hid : expert.id = expertId := Table.get_pk he
    have htid : task.id = taskId := Table.get_pk ht
    refine ⟨_, _, task.assignTo env expert.id,
      claimById_ok_iff.mpr ⟨expert, task, he, ha, ht, hs, htags, htier, rfl⟩, ?_, rfl,
      congrArg some hid⟩
    have hget := Table.get_update (reclaimExpired env db).1.tasks task.id
      (Task.assignTo env expert.id) (fun _ => rfl) taskId
    rw [if_pos htid, ht] at hget
    exact hget

/-- The gates agree exactly when the expert has not graded a task the claim would get. -/
theorem gatesAgree_iff :
    GatesAgree env db expertId taskId ↔ ¬ GradedClaim env db expertId taskId := by
  -- requeuing writes no grade
  have hgraded (expert : Expert) (task : Task) (he : db.experts.get expertId = some expert)
      (ht : (reclaimExpired env db).1.tasks.get taskId = some task) :
      alreadyGraded (reclaimExpired env db).1 task.id expert.id =
        alreadyGraded db taskId expertId := by
    have hid : expert.id = expertId := Table.get_pk he
    have htid : task.id = taskId := Table.get_pk ht
    rw [hid, htid]
    rfl
  rw [GatesAgree, assigns_iff]
  constructor
  · rintro hiff ⟨expert, task, he, ht, ha, hs, htags, htier, hg⟩
    obtain ⟨expert', task', he', ht', _, helig⟩ :=
      hiff.mp ⟨expert, task, he, ht, ha, hs, htags, htier⟩
    have hfree := (eligibility_iff.mp helig).2.2.2
    rw [hgraded expert' task' he' ht', hg] at hfree
    exact absurd hfree (by decide)
  · intro hn
    constructor
    · rintro ⟨expert, task, he, ht, ha, hs, htags, htier⟩
      refine ⟨expert, task, he, ht, ha, eligibility_iff.mpr ⟨hs, htags, htier, ?_⟩⟩
      rw [hgraded expert task he ht]
      exact Bool.eq_false_of_not_eq_true
        (fun hg => hn ⟨expert, task, he, ht, ha, hs, htags, htier, hg⟩)
    · rintro ⟨expert, task, he, ht, ha, helig⟩
      obtain ⟨hs, htags, htier, _⟩ := eligibility_iff.mp helig
      exact ⟨expert, task, he, ht, ha, hs, htags, htier⟩

end Gate

/-! ### The holder of a task -/

/-- No holder of a task has a grade on it. -/
def HolderUngraded (db : Db) : Prop :=
  ∀ t ∈ db.tasks, ∀ e, t.assignedExpertId = some e → alreadyGraded db t.id e = false

namespace HolderUngraded
variable {db db' : Db}

theorem empty : HolderUngraded .empty := fun t ht => absurd ht (Table.not_mem_empty t)

/-- A write that hands out no task keeps the property. -/
theorem of_tasks (h : HolderUngraded db) (hg : db'.grades = db.grades)
    (ht : ∀ t' ∈ db'.tasks, t'.assignedExpertId = none ∨
      ∃ t ∈ db.tasks, t.id = t'.id ∧ t.assignedExpertId = t'.assignedExpertId) :
    HolderUngraded db' := by
  intro t' hmem e he
  have hsame : alreadyGraded db' t'.id e = alreadyGraded db t'.id e := by
    simp only [alreadyGraded, hg]
  rw [hsame]
  rcases ht t' hmem with hn | ⟨t, hold, hid, ha⟩
  · exact absurd (hn.symm.trans he) (by simp)
  · rw [← hid]
    exact h t hold e (ha.trans he)

theorem updateWhere (h : HolderUngraded db) (p : Task → Bool) (f : Task → Task)
    (hf : Table.Keeps f)
    (ha : ∀ t, (f t).assignedExpertId = none ∨ (f t).assignedExpertId = t.assignedExpertId) :
    HolderUngraded { db with tasks := db.tasks.updateWhere p f hf } := by
  refine h.of_tasks rfl (fun t' ht' => ?_)
  obtain ⟨t, ht, rfl⟩ := (Table.mem_updateWhere hf).mp ht'
  split_ifs
  · rcases ha t with hn | hsame
    · exact Or.inl hn
    · exact Or.inr ⟨t, ht, (hf.pk_eq t).symm, hsame.symm⟩
  · exact Or.inr ⟨t, ht, rfl, rfl⟩

theorem reclaimed (h : HolderUngraded db) (now : Time) :
    HolderUngraded { db with
      tasks := db.tasks.updateWhere (Task.leaseExpired now) Task.reclaimed } :=
  h.updateWhere _ Task.reclaimed (fun _ => rfl) (fun _ => Or.inl rfl)

theorem claimed (h : HolderUngraded db) {env : Env} {e : Expert} {task : Task}
    (ht : db.tasks.get task.id = some task) (hfree : alreadyGraded db task.id e.id = false) :
    HolderUngraded { db with tasks := db.tasks.update task.id (Task.assignTo env e.id) } := by
  intro t hmem x hx
  rcases (Table.mem_update_of_get (f := Task.assignTo env e.id) (fun _ => rfl) ht).mp hmem with
    rfl | ⟨hmem, _⟩
  · rw [← Option.some.inj hx]
    exact hfree
  · exact h t hmem x hx

theorem graded (h : HolderUngraded db) {env : Env} {task : Task} {g : Grade} {grades : Table Grade}
    {tasks : Table Task} {consensus : Table Consensus} (ht : db.tasks.get task.id = some task)
    (hgt : g.taskId = task.id) (hi : db.grades.insert g = some grades)
    (hc : Rounds env { db with grades := grades } task tasks consensus) :
    HolderUngraded { db with grades := grades, tasks := tasks, consensus := consensus } := by
  -- the task loses its holder in every outcome; the others are as before
  have hrows : ∀ t ∈ tasks, t.assignedExpertId = none ∨ t ∈ db.tasks ∧ t.id ≠ task.id := by
    intro t hmem
    cases hc with
    | none =>
      rcases (Table.mem_update_of_get (f := Task.graded) (fun _ => rfl) ht).mp hmem with rfl | hold
      · exact Or.inl rfl
      · exact Or.inr hold
    | agreed =>
      rcases (Table.mem_update_of_get (f := Task.graded) (fun _ => rfl) ht).mp hmem with rfl | hold
      · exact Or.inl rfl
      · exact Or.inr hold
    | split =>
      rcases (Table.mem_update_of_get (f := fun t => t.graded.withStatus .adjudication)
        (fun _ => rfl) ht).mp hmem with rfl | hold
      · exact Or.inl rfl
      · exact Or.inr hold
  intro t hmem e he
  rcases hrows t hmem with hn | ⟨hold, hne⟩
  · exact absurd (hn.symm.trans he) (by simp)
  · rw [alreadyGraded_eq_false]
    intro x hx hxt
    rcases (Table.mem_insert hi).mp hx with hx | rfl
    · exact alreadyGraded_eq_false.mp (h t hold e he) x hx hxt
    · exact absurd (hxt.symm.trans hgt) hne

/-- Every effect but a direct claim keeps the property. -/
theorem effect {r : Request} (hop : ∀ e t, r.op ≠ .claimById e t) (h : HolderUngraded db)
    (he : Effect r db db') : HolderUngraded db' := by
  have hkeep : ∀ t' ∈ db.tasks, t'.assignedExpertId = none ∨
      ∃ t ∈ db.tasks, t.id = t'.id ∧ t.assignedExpertId = t'.assignedExpertId :=
    fun t ht => Or.inr ⟨t, ht, rfl, rfl⟩
  cases he with
  | queued hv hi =>
    refine h.of_tasks rfl (fun t ht => ?_)
    rcases (Table.mem_insertAll hi).mp ht with hold | hnew
    · exact hkeep t hold
    · obtain ⟨_, _, rfl⟩ := List.mem_map.mp hnew
      exact Or.inl rfl
  | reclaimed => exact h.reclaimed r.env.now
  | released => exact h.updateWhere _ Task.unassigned (fun _ => rfl) (fun _ => Or.inl rfl)
  | claimed hx ha ht hs htags htier hfree =>
    -- the claim came through the queue, which checks that there is no grade
    exact (h.claimed ht (hfree.resolve_right (hop _ _))).of_tasks rfl
      (fun t ht => Or.inr ⟨t, ht, rfl, rfl⟩)
  | retargeted previousId newId =>
    exact h.updateWhere _ (Task.retargeted newId) (fun _ => rfl) (fun _ => Or.inr rfl)
  | graded hop hx ht hs hh hrub hg hi hc =>
    subst hg
    exact h.graded ht rfl hi hc
  | @reviewed _ _ v =>
    refine (h.updateWhere _ (Task.reviewed v.decision) (Task.reviewed_keeps _)
      (fun t => Or.inr ?_)).of_tasks rfl (fun t ht => Or.inr ⟨t, ht, rfl, rfl⟩)
    unfold Task.reviewed
    split_ifs <;> rfl
  | adjudicated =>
    exact (h.updateWhere _ (Task.withStatus .approved) (fun _ => rfl)
      (fun _ => Or.inr rfl)).of_tasks rfl (fun t ht => Or.inr ⟨t, ht, rfl, rfl⟩)
  | _ => exact h.of_tasks rfl hkeep

/-- A request whose direct claims agree with the filter keeps the property. -/
theorem step {r : Request} {x : Response}
    (hgate : ∀ e t, r.op = .claimById e t → GatesAgree r.env db e t) (h : HolderUngraded db)
    (hs : step r db = .ok (db', x)) : HolderUngraded db' := by
  by_cases hop : ∃ e t, r.op = .claimById e t
  · obtain ⟨expertId, taskId, hop⟩ := hop
    simp only [Panelist.step, hop] at hs
    obtain ⟨t, hclaim, -⟩ := answer_ok hs
    obtain ⟨e, task, he, ha, ht, hq, htags, htier, hassign⟩ := claimById_ok_iff.mp hclaim
    obtain rfl := congrArg Prod.fst hassign
    obtain rfl := Table.get_pk he
    obtain rfl := Table.get_pk ht
    have hn := gatesAgree_iff.mp (hgate e.id task.id hop)
    exact ((h.reclaimed r.env.now).claimed ht (Bool.eq_false_of_not_eq_true
      (fun hg => hn ⟨e, task, he, ht, ha, hq, htags, htier, hg⟩))).of_tasks rfl
      (fun t ht => Or.inr ⟨t, ht, rfl, rfl⟩)
  · exact effects_preserve (fun h he => h.effect (fun e t hc => hop ⟨e, t, hc⟩) he)
      (step_effects hs) h

/-- The holder's submission meets no grade of the holder on the task. -/
theorem submit_unique (h : HolderUngraded db) {r : Request} {expertId : Uuid} {body : GradeCreate}
    (hop : r.op = .submit expertId body) (hfresh : ∀ g ∈ db.grades, g.id ≠ r.env.uuid4 0) :
    Panelist.step r db ≠ .error (.integrity "uq_grade_task_expert") := by
  intro he
  simp only [Panelist.step, hop, answer, map_error_iff] at he
  obtain ⟨e, task, grade, hx, ht, hs, hh, hid, hgt, hge, hins⟩ := submit_uq he
  obtain ⟨g, hg, hclash⟩ := Table.insert_eq_none.mp hins
  rcases hclash with hsame | hsame
  · exact hfresh g hg (hsame.trans hid)
  · obtain ⟨hst, hse⟩ := Prod.mk.inj hsame
    exact alreadyGraded_eq_false.mp (h task (Table.get_mem ht) e.id hh) g hg (hst.trans hgt)
      (hse.trans hge)

end HolderUngraded

/-- The direct claim agrees with the eligibility filter exactly when it is not on a
task its expert has graded; while it does so all along a run, no holder has a
grade on the task held, and no submission violates the one-grade-per-expert
constraint. -/
theorem direct_claim_gate (env : Env) (db : Db) (expertId taskId : Uuid) (rs : List Request) :
    (GatesAgree env db expertId taskId ↔ ¬ GradedClaim env db expertId taskId) ∧
    (Along step (fun db r => ∀ e t, r.op = .claimById e t → ¬ GradedClaim r.env db e t)
        Db.empty rs →
      HolderUngraded (after rs) ∧
        ∀ r expertId body, r.op = .submit expertId body →
          (∀ g ∈ (after rs).grades, g.id ≠ r.env.uuid4 0) →
          step r (after rs) ≠ .error (.integrity "uq_grade_task_expert")) := by
  refine ⟨gatesAgree_iff, fun hrun => ?_⟩
  have h : HolderUngraded (after rs) :=
    run_preserves step (fun r db db' x h hc hs =>
      HolderUngraded.step (fun e t hop => gatesAgree_iff.mpr (hc e t hop)) h hs)
      HolderUngraded.empty hrun
  exact ⟨h, fun r expertId body hop hfresh => h.submit_unique hop hfresh⟩

namespace Scenario

/-- Expert 300 has graded task 500, which waits for a second grader. -/
def halfGraded : List Request := setup ++
  [call 5 (.createTasks [{ task with requiredGrades := 2 }] "admin"),
   call 6 (.claimNext 300), call 7 (.submit 300 (grade 500 4))]

end Scenario

open Scenario in
/-- Expert 300 is handed task 500 again by the direct claim, although the filter
excludes it, and the second grade then breaks the constraint. -/
theorem direct_claim_ignores_grades :
    alreadyGraded (after halfGraded) 500 300 = true ∧
      ¬ GatesAgree (env 8) (after halfGraded) 300 500 ∧
      ¬ HolderUngraded (after (halfGraded ++ [call 8 (.claimById 300 500)])) ∧
      failure (step (call 9 (.submit 300 (grade 500 4)))
        (after (halfGraded ++ [call 8 (.claimById 300 500)]))) =
        some (.integrity "uq_grade_task_expert") := by
  refine ⟨by decide +kernel, fun hagree => ?_, fun hheld => ?_, by decide +kernel⟩
  · obtain ⟨⟨db', t⟩, hok⟩ := exists_of_isOk
      (m := claimById (env 8) (after halfGraded) 300 500) (by decide +kernel)
    obtain ⟨expert, task, he, ha, ht, hs, htags, htier, -⟩ := claimById_ok_iff.mp hok
    obtain ⟨expert', task', he', ht', -, helig⟩ :=
      hagree.mp (assigns_iff.mpr ⟨expert, task, he, ht, ha, hs, htags, htier⟩)
    have hfree := (eligibility_iff.mp helig).2.2.2
    rw [show expert'.id = 300 from Table.get_pk he',
      show task'.id = 500 from Table.get_pk ht'] at hfree
    exact absurd hfree (by decide +kernel)
  · have hget : ((after (halfGraded ++ [call 8 (.claimById 300 500)])).tasks.get 500).map
        Task.assignedExpertId = some (some 300) := by decide +kernel
    obtain ⟨t, ht, hholder⟩ := Option.map_eq_some_iff.mp hget
    have hfree := hheld t (Table.get_mem ht) 300 hholder
    rw [show t.id = 500 from Table.get_pk ht] at hfree
    exact absurd hfree (by decide +kernel)

end Panelist
