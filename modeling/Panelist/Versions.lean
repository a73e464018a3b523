import Panelist.TaskSteps

/-! Which version of a rubric a task points to and which one its grades were
produced against, over every order of claims, returns, grades and publishes. -/
namespace Panelist
open Relational Transaction

/-- The version exists and is not superseded. -/
def Current (rubrics : Table Rubric) (rubricId : Uuid) : Prop :=
  ∃ rubric, rubrics.get rubricId = some rubric ∧ rubric.supersededAt = none

/-- Regular work without a counted grade. -/
def Task.Ungraded (t : Task) : Prop := t.isAttentionCheck = false ∧ t.gradesReceived = 0

/-- Every ungraded queued task points to a current version. -/
def QueueCurrent (rubrics : Table Rubric) (tasks : Table Task) : Prop :=
  ∀ t ∈ tasks, t.Ungraded → t.status = .queued → Current rubrics t.rubricId

/-- If `r` claims an ungraded task in `db`, the version it pins is a current one. -/
def PinsCurrent (db : Db) (r : Request) : Prop :=
  ∀ db' t, step r db = .ok (db', .claimed (some t)) → t.Ungraded →
    ∃ k, t.pinnedRubricId = some k ∧ Current db'.rubrics k

/-- `r` puts no ungraded task back in the queue whose version has been superseded. -/
def ReturnsCurrent (db : Db) (r : Request) : Prop :=
  (step r db).isOk = true → ∀ t ∈ db.tasks, ∀ t', t.returnedBy r db = some t' → t'.Ungraded →
    Current db.rubrics t'.rubricId

section Queue
variable {r : Request} {db : Db} {x : Response} {w : Work}

theorem Current.insert {rubrics rubrics' : Table Rubric} {rubric : Rubric} {k : Uuid}
    (h : Current rubrics k) (hi : rubrics.insert rubric = some rubrics') : Current rubrics' k := by
  obtain ⟨v, hv, hs⟩ := h
  exact ⟨v, Table.get_insert_of_some hi hv, hs⟩

/-- Superseding one version leaves the others current. -/
theorem Current.superseded {rubrics : Table Rubric} {k previousId newId : Uuid} {now : Time}
    (h : Current rubrics k) (hne : k ≠ previousId) :
    Current (rubrics.update previousId (Rubric.superseded now newId)) k := by
  obtain ⟨v, hv, hs⟩ := h
  refine ⟨v, ?_, hs⟩
  have hget := rubrics.get_update previousId (Rubric.superseded now newId) (fun _ => rfl) k
  rw [if_neg (fun he => hne he.symm)] at hget
  exact hget.trans hv

theorem current_of_open {body : List TaskCreate} {b : TaskCreate}
    (hcurrent : supersededAmong db (body.map TaskCreate.rubricId) = none)
    (hrub : ∀ t ∈ body, (db.rubrics.get t.rubricId).isSome) (hb : b ∈ body) :
    Current db.rubrics b.rubricId := by
  obtain ⟨v, hv⟩ := Option.isSome_iff_exists.mp (hrub b hb)
  refine ⟨v, hv, ?_⟩
  have hnot := List.find?_eq_none.mp hcurrent v (Table.get_mem hv)
  have hmem : v.id ∈ body.map TaskCreate.rubricId :=
    List.mem_map.mpr ⟨b, hb, (Table.get_pk hv).symm⟩
  simpa [hmem] using hnot

theorem returnedBy_reclaim
    (hop : r.op = .reclaim ∨ (∃ actor, r.op = .tick actor) ∨ (∃ e, r.op = .claimNext e) ∨
      ∃ e k, r.op = .claimById e k) (t : Task) :
    t.returnedBy r db = if t.leaseExpired r.env.now then some t.reclaimed else none := by
  rcases hop with hop | ⟨_, hop⟩ | ⟨_, hop⟩ | ⟨_, _, hop⟩ <;> simp [Task.returnedBy, hop]

theorem returnedBy_queued {t t' : Task} (h : t.returnedBy r db = some t') :
    t'.status = .queued := by
  unfold Task.returnedBy at h
  split at h
  all_goals
    first
      | split_ifs at h
        rw [← Option.some.inj h]
        rfl
      | exact absurd h (by simp)

/-- Tasks whose leases are reclaimed come back on the version they are returned with. -/
theorem QueueCurrent.reclaimed (h : QueueCurrent db.rubrics db.tasks)
    (hret : ∀ t : Task, t.returnedBy r db =
      if t.leaseExpired r.env.now then some t.reclaimed else none)
    (hc : ∀ t ∈ db.tasks, ∀ t', t.returnedBy r db = some t' → t'.Ungraded →
      Current db.rubrics t'.rubricId) :
    QueueCurrent db.rubrics (reclaimExpired r.env db).1.tasks := by
  intro t' ht' hu hs
  obtain ⟨t, ht, rfl⟩ := (Table.mem_updateWhere (f := Task.reclaimed) (fun _ => rfl)).mp ht'
  by_cases hexp : t.leaseExpired r.env.now = true
  · rw [if_pos hexp] at hu ⊢
    exact hc t ht _ ((hret t).trans (if_pos hexp)) hu
  · rw [if_neg hexp] at hu hs ⊢
    exact h t ht hu hs

/-- A task row that is replaced by one that is not queued leaves the queue current. -/
theorem QueueCurrent.update {rubrics : Table Rubric} {tasks : Table Task} {k : Uuid}
    (h : QueueCurrent rubrics tasks) (f : Task → Task) (hf : Table.Keeps f)
    (hnew : ∀ t, tasks.get k = some t → (f t).Ungraded → (f t).status = .queued →
      Current rubrics (f t).rubricId) :
    QueueCurrent rubrics (tasks.update k f hf) := by
  intro t' ht' hu hs
  obtain ⟨t, ht, rfl⟩ := (Table.mem_update hf).mp ht'
  by_cases hk : pk t = k
  · rw [if_pos hk] at hu hs ⊢
    exact hnew t (tasks.get_eq_some.mpr ⟨ht, hk⟩) hu hs
  · rw [if_neg hk] at hu hs ⊢
    exact h t ht hu hs

/-- Publishing moves the untouched queued tasks of the version it supersedes. -/
theorem QueueCurrent.published {rubrics : Table Rubric} {previous rubric : Rubric}
    (h : QueueCurrent db.rubrics db.tasks) (hp : db.rubrics.get previous.id = some previous)
    (hcurrent : rubric.supersededAt = none) (hr : db.rubrics.insert rubric = some rubrics) :
    QueueCurrent (rubrics.update previous.id (Rubric.superseded r.env.now rubric.id))
      (db.tasks.updateWhere (Task.untouchedOn previous.id) (Task.retargeted rubric.id)) := by
  intro t' ht' hu hs
  obtain ⟨t, ht, rfl⟩ :=
    (Table.mem_updateWhere (f := Task.retargeted rubric.id) (fun _ => rfl)).mp ht'
  have hfresh : rubric.id ≠ previous.id :=
    fun he => Table.insert_fresh hr (Table.get_mem hp) he.symm
  by_cases hon : t.untouchedOn previous.id = true
  · rw [if_pos hon]
    have hnew : Current rubrics rubric.id :=
      ⟨rubric, (Table.get_insert hr _).trans (if_pos rfl), hcurrent⟩
    exact hnew.superseded hfresh
  · rw [if_neg hon] at hu hs ⊢
    refine ((h t ht hu hs).insert hr).superseded (fun he => hon ?_)
    simp [Task.untouchedOn, he, hs, hu.2]

/-- A request that returns no task to a superseded version keeps the queue current,
and what it claims is current too. -/
theorem TaskStep.queueCurrent (hstep : TaskStep r db x w) (h : QueueCurrent db.rubrics db.tasks)
    (hc : ∀ t ∈ db.tasks, ∀ t', t.returnedBy r db = some t' → t'.Ungraded →
      Current db.rubrics t'.rubricId) :
    QueueCurrent w.rubrics w.tasks ∧ ∀ t, x = .claimed (some t) → t.Ungraded →
      ∃ k, t.pinnedRubricId = some k ∧ Current w.rubrics k := by
  cases hstep with
  | kept _ hx => exact ⟨h, fun t ht => absurd ht (hx t)⟩
  | created hop hcurrent hr hrows =>
    exact ⟨fun t ht hu hs => (h t ht hu hs).insert hr, fun t ht => absurd ht (by simp)⟩
  | published hop hp hopen hcurrent hr hrows =>
    -- the publish moves the untouched queue to the new version
    exact ⟨h.published hp hcurrent hr, fun t ht => absurd ht (by simp)⟩
  | queued hop hv hcurrent hexpected hrub hi =>
    refine ⟨fun t ht hu hs => ?_, fun t ht => absurd ht (by simp)⟩
    rcases (Table.mem_insertAll hi).mp ht with ht | ht
    · exact h t ht hu hs
    · obtain ⟨⟨b, i⟩, hb, rfl⟩ := List.mem_map.mp ht
      exact current_of_open hcurrent hrub (List.fst_mem_of_mem_zipIdx hb)
  | reclaimed hop hx =>
    refine ⟨h.reclaimed (returnedBy_reclaim ?_) hc, fun t ht => absurd ht (hx t)⟩
    exact hop.imp_right (fun h => h.imp_right Or.inl)
  | @claimed e task hop he ha ht hs =>
    -- the claim pins what the queue was on after the leases were reclaimed
    have hqueue : QueueCurrent db.rubrics (reclaimExpired r.env db).1.tasks :=
      h.reclaimed (returnedBy_reclaim (Or.inr (Or.inr (hop.imp (fun h => ⟨_, h⟩)
        (fun h => ⟨_, _, h⟩))))) hc
    refine ⟨hqueue.update (Task.assignTo r.env e.id) (fun _ => rfl)
      (fun t _ _ hq => absurd hq (by simp [Task.assignTo])), fun t ht' hu => ?_⟩
    obtain rfl := Option.some.inj (Response.claimed.inj ht')
    exact ⟨task.rubricId, rfl, hqueue task (Table.get_mem ht) hu hs⟩
  | @released e task x hop ht hs hh hx =>
    refine ⟨h.update Task.unassigned (fun _ => rfl) (fun t hget hu _ => ?_),
      fun t ht => absurd ht (hx t)⟩
    obtain rfl := Option.some.inj (ht.symm.trans hget)
    exact hc task (Table.get_mem ht) _ (by simp [Task.returnedBy, hop]) hu
  | @graded e task grade grades body f hf hop ht hs hh htask hexpert hrubric hi hcount =>
    refine ⟨h.update f hf (fun t _ hu _ => absurd hu.2 ?_), fun t ht => absurd ht (by simp)⟩
    -- a graded task is no longer untouched
    rcases hcount with rfl | rfl <;> exact Nat.succ_ne_zero _
  | @reviewed grade task v keyId body actor hop hb hg htask ht hallow hnone =>
    refine ⟨h.update _ (Task.reviewed_keeps _) (fun t hget hu hs => ?_),
      fun t ht => absurd ht (by simp)⟩
    obtain rfl := Option.some.inj (ht.symm.trans hget)
    -- golden, approved, rejected by its only grade, decided, or still open
    unfold Task.reviewed at hu hs ⊢
    split_ifs at hu hs ⊢ with hgold hd hk hst
    · exact absurd hu.1 (by simp [hgold])
    · exact absurd hs (by simp [Task.withStatus])
    · refine hc task (Table.get_mem ht) _ ?_ hu
      have hreject : body.decision = .reject := by
        cases hdec : body.decision with
        | approve => exact absurd hdec hd
        | reject => rfl
      simp [Task.returnedBy, hop, hreject, hgold, hk, hb, hg, htask]
    · exact absurd hs (by simp [Task.withStatus])
    · exact h task (Table.get_mem ht) hu hs
  | resolved hop hrow =>
    refine ⟨h.update _ (Task.withStatus_keeps _)
      (fun t _ _ hs => absurd hs (by simp [Task.withStatus])), fun t ht => ?_⟩
    exact absurd ht (by simp)

/-- What a request returns to the queue is there afterwards, or the request claimed it. -/
theorem TaskStep.returned (hstep : TaskStep r db x w) {t t' : Task} (ht : t ∈ db.tasks)
    (hret : t.returnedBy r db = some t') :
    w.rubrics = db.rubrics ∧ (t' ∈ w.tasks ∨ ∃ e, x = .claimed (some (t'.assignTo r.env e))) := by
  -- a lease that ran out is given back by the reclaim of the same request
  have hexpired (hall : ∀ t : Task, t.returnedBy r db =
      if t.leaseExpired r.env.now then some t.reclaimed else none) :
      t' ∈ (reclaimExpired r.env db).1.tasks := by
    rw [hall t] at hret
    split_ifs at hret with hexp
    obtain rfl := Option.some.inj hret
    exact (Table.mem_updateWhere (f := Task.reclaimed) (fun _ => rfl)).mpr ⟨t, ht, if_pos hexp⟩
  have hself {task : Task} (hget : db.tasks.get task.id = some task) (hid : t.id = task.id) :
      t = task := db.tasks.eq_of_pk ht (Table.get_mem hget) hid
  cases hstep with
  | kept hkept => exact absurd ((hkept t).symm.trans hret) (by simp)
  | created hop | published hop | queued hop | graded hop | resolved hop =>
    exact absurd hret (by simp [Task.returnedBy, hop])
  | reclaimed hop hx =>
    refine ⟨rfl, Or.inl (hexpired (returnedBy_reclaim ?_))⟩
    exact hop.imp_right (fun h => h.imp_right Or.inl)
  | @claimed e task hop he ha htask hs =>
    have hmem := hexpired (returnedBy_reclaim (Or.inr (Or.inr (hop.imp (fun h => ⟨_, h⟩)
      (fun h => ⟨_, _, h⟩)))))
    refine ⟨rfl, ?_⟩
    -- the claim may serve the very task that came back
    by_cases hid : t'.id = task.id
    · rw [Table.eq_of_pk _ hmem (Table.get_mem htask) hid]
      exact Or.inr ⟨e.id, rfl⟩
    · exact Or.inl ((Table.mem_update_of_get (f := Task.assignTo r.env e.id) (fun _ => rfl)
        htask).mpr (Or.inr ⟨hmem, hid⟩))
  | @released e task x hop htask hs hh hx =>
    simp only [Task.returnedBy, hop] at hret
    split_ifs at hret with hid
    obtain rfl := hself htask hid
    obtain rfl := Option.some.inj hret
    exact ⟨rfl, Or.inl ((Table.mem_update_of_get (f := Task.unassigned) (fun _ => rfl) htask).mpr
      (Or.inl rfl))⟩
  | @reviewed grade task v keyId body actor hop hb hg htask hget hallow hnone =>
    simp only [Task.returnedBy, hop, hb, hg, Option.map_some, Option.some.injEq] at hret
    split_ifs at hret with hc
    obtain ⟨hd, hgold, hk, hid⟩ := hc
    obtain rfl := hself hget (hid.symm.trans htask.symm)
    obtain rfl := Option.some.inj hret
    refine ⟨rfl, Or.inl ((Table.mem_update_of_get (Task.reviewed_keeps _) hget).mpr (Or.inl ?_))⟩
    simp [Task.reviewed, hgold, hd, hk]

/-- Where the queue is current, it stays so and the next claim pins a current version
exactly when no task returns on a superseded one. -/
theorem queueCurrent_iff (h : QueueCurrent db.rubrics db.tasks) :
    (QueueCurrent (commit step r db).rubrics (commit step r db).tasks ∧ PinsCurrent db r) ↔
      ReturnsCurrent db r := by
  constructor
  · rintro ⟨hqueue, hpins⟩ hok t ht t' hret hu
    obtain ⟨⟨db', x⟩, hstep⟩ := exists_of_isOk hok
    rw [commit_of_ok step hstep] at hqueue
    -- what returns is queued, or it is claimed again at once
    obtain ⟨hrubrics, hmem | ⟨e, rfl⟩⟩ := (step_tasks hstep).returned ht hret
    · rw [← hrubrics]
      exact hqueue t' hmem hu (returnedBy_queued hret)
    · obtain ⟨k, hk, hcur⟩ := hpins _ _ hstep hu
      rw [← hrubrics]
      rw [← Option.some.inj hk] at hcur
      exact hcur
  · intro hc
    cases hstep : step r db with
    | error e =>
      rw [commit_of_error step hstep]
      exact ⟨h, fun _ _ he => absurd (hstep.symm.trans he) (by simp)⟩
    | ok p =>
      obtain ⟨db', x⟩ := p
      have hall := (step_tasks hstep).queueCurrent h (hc (by rw [hstep]; rfl))
      rw [commit_of_ok step hstep]
      refine ⟨hall.1, fun db'' t he hu => ?_⟩
      obtain ⟨rfl, rfl⟩ := Prod.mk.inj (Except.ok.inj (hstep.symm.trans he))
      exact hall.2 t rfl hu

end Queue

/-- In a run every reached queue follows the newest versions and every claim of an
ungraded task pins a current one exactly when no request of the run returns an
ungraded task to the queue on a superseded version. -/
theorem queue_follows_newest_iff (rs : List Request) :
    (∀ earlier r later, rs = earlier ++ r :: later →
      QueueCurrent (after (earlier ++ [r])).rubrics (after (earlier ++ [r])).tasks ∧
        PinsCurrent (after earlier) r) ↔
      Along step ReturnsCurrent .empty rs := by
  have hempty : QueueCurrent Db.empty.rubrics Db.empty.tasks :=
    fun t ht => absurd ht (Table.not_mem_empty t)
  rw [← along_congr step (P := fun db => QueueCurrent db.rubrics db.tasks)
    (fun _ _ _ hc => hc.1) (fun _ _ h => queueCurrent_iff h) hempty, ← along_iff]
  simp only [after, run_concat]

open Scenario in
/-- Version 1 is superseded while a task is on an expert's desk; the release puts the
task back on version 1. -/
theorem released_task_stays_behind :
    ¬ ∀ rs, QueueCurrent (after rs).rubrics (after rs).tasks := by
  intro hall
  let rs := setup ++ [call 5 (.createTasks [task] "admin"), call 6 (.claimNext 300),
    call 7 (.publish 100 [⟨"tone", "Tone", 1, 1, 5⟩] "admin"), call 8 (.release 300 500)]
  -- the task is queued, and no grade counts
  have hget : ((after rs).tasks.get 500).map (fun t =>
      (t.status, t.isAttentionCheck, t.gradesReceived, t.rubricId)) =
        some (.queued, false, 0, 100) := by
    decide +kernel
  -- on a version that is not the newest
  have hsuperseded :
      ((after rs).rubrics.get 100).map (fun v => v.supersededAt.isSome) = some true := by
    decide +kernel
  obtain ⟨t, ht, hrow⟩ := Option.map_eq_some_iff.mp hget
  simp only [Prod.mk.injEq] at hrow
  obtain ⟨hs, hg, hn, hk⟩ := hrow
  obtain ⟨v, hv, hopen⟩ := hall rs t (Table.get_mem ht) ⟨hg, hn⟩ hs
  rw [hk] at hv
  rw [hv] at hsuperseded
  simp [hopen] at hsuperseded

end Panelist
