import Panelist.Lineage

/-! Reviews of the grades of one agreed task in overlapping transactions. The task is loaded
without a lock, and the lock a review takes on it later does not refresh the loaded values:
a rejection can write over an approval it has not seen. -/
namespace Panelist
open Relational ReadCommitted ReadCommitted.Prog

structure ReviewCall where
  env : Env
  keyId : Uuid
  body : ReviewCreate
  actor : String

def reviewing (c : ReviewCall) : Session (Review × Option Payout) :=
  Session.review c.env c.keyId c.body c.actor

/-- A committed review. -/
abbrev Reviewed := Entry Db (Review × Option Payout) ReviewCall

/-- How many transactions had committed when a review loaded its task. -/
def taskLoadedAt (e : Reviewed) : ℕ := e.clock.getD 0 0

/-- The task's row after a review that loaded it as `loaded`. -/
def reviewedRow (loaded : Task) (decision : ReviewDecision) : Task → Task :=
  if loaded.isAttentionCheck then id
  else if decision = .approve then loaded.flush (loaded.withStatus .approved)
  else if loaded.requiredGrades = 1 then loaded.flush loaded.requeued
  else if loaded.status ≠ .approved then loaded.flush (loaded.withStatus .rejected)
  else id

theorem reviewedRow_keeps (loaded : Task) (decision : ReviewDecision) :
    Table.Keeps (reviewedRow loaded decision) := by
  intro t
  unfold reviewedRow
  split_ifs <;> rfl

/-- A committed review wrote one task row, from the values it had loaded. -/
structure ReviewLaw (base : Db) (past : List Reviewed) (e : Reviewed) : Prop where
  ordered : taskLoadedAt e ≤ past.length
  grades : e.after.grades = e.before.grades
  step : ∃ grade loaded, e.before.grades.get e.call.body.gradeId = some grade ∧
    (storeAt base past (taskLoadedAt e)).tasks.get grade.taskId = some loaded ∧
    e.after.tasks = e.before.tasks.update grade.taskId (reviewedRow loaded e.call.body.decision)
      (reviewedRow_keeps loaded e.call.body.decision)

/-! ### The transaction -/

/-- What the locks of a review protect of the tasks and the grades. -/
def reviewRows : Lock → Setoid Db
  | .task id => Setoid.ker (fun db => db.tasks.get id)
  | .grade id => Setoid.ker (fun db => db.grades.get id)
  | _ => ⊤

theorem reviewRows_of_same (row : Lock) (db db' : Db)
    (h : (Setoid.ker (fun db : Db => (db.tasks, db.grades))).r db db') :
    (reviewRows row).r db db' := by
  have h : (db.tasks, db.grades) = (db'.tasks, db'.grades) := h
  cases row with
  | task id => exact congrArg (fun p : Table Task × Table Grade => p.1.get id) h
  | grade id => exact congrArg (fun p : Table Task × Table Grade => p.2.get id) h
  | _ => trivial

theorem reviewRows_taskRow {f : Task → Task} {hf : Table.Keeps f} {k : Uuid} {row : Lock}
    (hrow : row ≠ .task k) (db : Db) : (reviewRows row).r db (Session.taskRow f hf k db) := by
  cases row with
  | task id => 
    have hne : ¬ k = id := fun he => hrow (he ▸ rfl)
    exact ((db.tasks.get_update k f hf id).trans (if_neg hne)).symm
  | grade id => rfl
  | _ => trivial

/-- What `Session.reviewTask` writes. -/
theorem wp_reviewTask {base : Db} {law : List Reviewed → Reviewed → Prop} {task : Task}
    {decision : ReviewDecision} {actor : String}
    {s : Local reviewRows (Review × Option Payout) ReviewCall}
    {Q : Unit → Local reviewRows (Review × Option Payout) ReviewCall → Prop}
    (hheld : Lock.task task.id ∈ s.held)
    (hQ : ∀ s', (∀ log, s'.knows log → s.knows log) → s'.clock = s.clock →
      (∀ db, (s'.pending db).tasks = (s.pending db).tasks.update task.id (reviewedRow task decision)
        (reviewedRow_keeps task decision) ∧ (s'.pending db).grades = (s.pending db).grades) →
      Q () s') :
    (Session.reviewTask task decision actor).wp reviewRows law base Q s := by
  have hne : ∀ row ∉ s.held, row ≠ Lock.task task.id := fun row hrow he => hrow (he ▸ hheld)
  -- a write of the task's row, which the transaction holds
  have hset : ∀ (f : Task → Task) (hf : Table.Keeps f), f = reviewedRow task decision →
      ∃ hw, Q () (s.wrote (Session.taskRow f hf task.id) hw) := by
    intro f hf he
    subst he
    refine ⟨fun row hrow db => reviewRows_taskRow (hne row hrow) db, ?_⟩
    exact hQ _ (fun _ hk => hk) rfl (fun db => ⟨rfl, rfl⟩)
  have hidle : reviewedRow task decision = id → Q () s := by
    intro he
    refine hQ s (fun _ hk => hk) rfl (fun db => ⟨?_, rfl⟩)
    exact (Table.update_self _ (fun r _ => congrFun he r)).symm
  unfold Session.reviewTask
  split_ifs with hgolden happrove hone hstatus
  · exact hidle (by rw [reviewedRow, if_pos hgolden])
  · exact hset _ _ (by rw [reviewedRow, if_neg hgolden, if_pos happrove])
  · obtain ⟨hw, _⟩ := hset (task.flush task.requeued) (task.flush_keeps _)
      (by rw [reviewedRow, if_neg hgolden, if_neg happrove, if_pos hone])
    refine ⟨hw, fun row _ db => reviewRows_of_same row _ _ rfl, ?_⟩
    refine hQ _ (fun _ hk => hk) rfl (fun db => ⟨?_, rfl⟩)
    have he : reviewedRow task decision = task.flush task.requeued := by
      rw [reviewedRow, if_neg hgolden, if_neg happrove, if_pos hone]
    simp only [he]
    rfl
  · exact hset _ _
      (by rw [reviewedRow, if_neg hgolden, if_neg happrove, if_neg hone, if_pos hstatus])
  · exact hidle (by rw [reviewedRow, if_neg hgolden, if_neg happrove, if_neg hone, if_neg hstatus])

/-- Neither the tasks nor the grades are touched by what a review stores besides. -/
theorem same_payout (p : Payout) (db : Db) :
    (Setoid.ker (fun db : Db => (db.tasks, db.grades))).r db
      ((Session.addPayout p db).getD db) := by
  unfold Session.addPayout
  split_ifs
  · cases db.payouts.insert p <;> rfl
  · rfl

theorem same_review (r : Review) (db : Db) :
    (Setoid.ker (fun db : Db => (db.tasks, db.grades))).r db
      ((Session.addReview r db).getD db) := by
  unfold Session.addReview
  split_ifs
  · cases db.reviews.insert r <;> rfl
  · rfl

theorem writes_reviewPayout {env : Env} {grade : Grade} {expert : Expert} {task : Task}
    {decision : ReviewDecision} {actor : String} :
    (Session.reviewPayout env grade expert task decision actor).Writes
      (fun f => ∀ db, (Setoid.ker (fun db : Db => (db.tasks, db.grades))).r db (f db)) := by
  unfold Session.reviewPayout
  split_ifs
  · refine Writes.bind ?_ (fun _ => Writes.pure _)
    exact Session.writes_createForGrade (fun _ => same_payout _) (fun _ _ => rfl)
  · exact Writes.pure _

section History
variable {base : Db} {past log : List Reviewed} {e : Reviewed}

/-- What a review leaves as it is of a task. -/
def Task.SameKind (t t' : Task) : Prop :=
  t'.isAttentionCheck = t.isAttentionCheck ∧ t'.requiredGrades = t.requiredGrades

theorem reviewedRow_sameKind (loaded : Task) (decision : ReviewDecision) (t : Task) :
    t.SameKind (reviewedRow loaded decision t) := by
  unfold reviewedRow
  split_ifs <;> exact ⟨rfl, rfl⟩

theorem Task.SameKind.refl (t : Task) : t.SameKind t := ⟨rfl, rfl⟩

theorem tasks_evolve (h : Lawful (ReviewLaw base) base log) (hle : past <+: log) :
    Table.Evolves Task.SameKind (now base past).tasks (now base log).tasks := by
  apply h.stretch (R := fun db db' => Table.Evolves Task.SameKind db.tasks db'.tasks) hle
  · exact fun db => Table.Evolves.refl Task.SameKind.refl db.tasks
  · exact fun hab hbc => hab.trans (fun h h' => ⟨h'.1.trans h.1, h'.2.trans h.2⟩) hbc
  · intro _ _ _ hlaw
    obtain ⟨grade, loaded, _, _, hafter⟩ := hlaw.step
    rw [hafter]
    exact Table.Evolves.update Task.SameKind.refl (reviewedRow_sameKind loaded _)

theorem grades_fixed (h : Lawful (ReviewLaw base) base log) : (now base log).grades = base.grades :=
  h.stretch (R := fun db db' => db'.grades = db.grades) List.nil_prefix (fun _ => rfl)
    (fun {a b c} (hab : b.grades = a.grades) (hbc : c.grades = b.grades) => hbc.trans hab)
    (fun _ _ _ hlaw => hlaw.grades)

end History

/-- A review commits as `ReviewLaw` says, under every interleaving. -/
theorem reviewing_verified (base : Db) : Verified reviewRows (ReviewLaw base) base reviewing := by
  intro c
  unfold reviewing Session.review
  rw [wp_bind, wp_forUpdate]
  -- the lock of the grade
  intro log₁ hl₁ _
  rw [wp_bind, wp_demandSome]
  intro grade hgrade
  rw [if_pos (by rw [hgrade]; rfl), wp_bind, wp_see]
  -- the load of its task, without a lock: what the decision goes by
  intro log₂ hl₂ hk₂
  rw [wp_bind, wp_demandSome]
  intro task htask
  rw [wp_bind]
  refine wp_frame reviewRows_of_same (Session.writes_expert _) ?_
  intro expert s₁ hs₁
  rw [wp_bind, wp_see]
  intro log₃ _ _
  rw [wp_bind, wp_demand]
  intro _
  rw [wp_bind, wp_demand]
  intro _
  extract_lets verdict
  rw [wp_bind]
  -- the redelivery, the event and the calibration write other tables
  refine wp_frame reviewRows_of_same ?_ ?_
  · exact Writes.insert (same_review verdict)
  intro _ s₂ hs₂
  have hknown : ∀ log, s₂.knows log → log₂ <+: log ∧
      (now base log₁).grades.get c.body.gradeId = (now base log).grades.get c.body.gradeId := by
    intro log hk
    have hk := hs₁.knows log (hs₂.knows log hk).1
    exact ⟨hk.2, hk.1.1.2⟩
  have hsame : ∀ db, (s₂.pending db).tasks = db.tasks ∧ (s₂.pending db).grades = db.grades := by
    intro db
    have h : (db.tasks, db.grades) = ((s₂.pending db).tasks, (s₂.pending db).grades) :=
      (hs₁.pending db).trans (hs₂.pending db)
    exact ⟨(congrArg Prod.fst h).symm, (congrArg Prod.snd h).symm⟩
  rw [wp_bind]
  unfold Session.lockTask
  rw [wp_forUpdate]
  -- the lock of the task; the loaded row is kept
  intro log₄ hl₄ hk₄
  -- the task is still there, so the lock is granted
  have hexists : Session.taskExists task.id (s₂.pending (now base log₄)) = true := by
    obtain ⟨t, ht, _⟩ := tasks_evolve hl₄ (hknown log₄ hk₄).1 _ _ htask
    unfold Session.taskExists
    rw [(hsame (now base log₄)).1, show task.id = grade.taskId from Table.get_pk htask, ht]
    rfl
  rw [if_pos hexists, wp_bind]
  refine wp_frame reviewRows_of_same writes_reviewPayout ?_
  intro payout s₃ hs₃
  rw [wp_bind]
  refine wp_reviewTask (hs₃.held _ List.mem_cons_self) ?_
  intro s₄ hk₄ hc₄ hp₄
  refine wp_frame reviewRows_of_same ?_ ?_
  · refine (Writes.when (Session.writes_redeliver (fun _ _ => rfl) (fun _ _ => rfl))).bind
      (fun _ => ?_)
    refine (Session.writes_log (fun _ _ => rfl)).bind (fun _ => ?_)
    exact (Session.writes_calibrate (fun _ _ => rfl) (fun _ _ => rfl) (fun _ _ => rfl)).bind
      (fun _ => Writes.pure _)
  intro answer s₅ hs₅ log hl hk
  have hk₂ := (hs₃.knows log (hk₄ log (hs₅.knows log hk))).1.1
  obtain ⟨hle, hgrades⟩ := hknown log hk₂
  have hload : s₅.clock.getD 0 0 = log₂.length := by
    have hclock := (hs₁.clock.trans ((List.prefix_append _ _).trans hs₂.clock)).trans hs₃.clock
    obtain ⟨rest, hrest⟩ := hclock.trans (hc₄ ▸ hs₅.clock)
    rw [← hrest]
    rfl
  have hrows : ∀ db, (s₅.pending db).tasks = db.tasks.update grade.taskId
      (reviewedRow task c.body.decision) (reviewedRow_keeps task c.body.decision) ∧
      (s₅.pending db).grades = db.grades := by
    intro db
    have h₃ : ((s₂.pending db).tasks, (s₂.pending db).grades) =
        ((s₃.pending db).tasks, (s₃.pending db).grades) := hs₃.pending db
    have h₅ : ((s₄.pending db).tasks, (s₄.pending db).grades) =
        ((s₅.pending db).tasks, (s₅.pending db).grades) := hs₅.pending db
    obtain ⟨ht₃, hg₃⟩ := Prod.mk.inj h₃
    obtain ⟨ht₅, hg₅⟩ := Prod.mk.inj h₅
    rw [← ht₅, ← hg₅, (hp₄ db).1, (hp₄ db).2, ← ht₃, ← hg₃, (hsame db).1, (hsame db).2]
    have hid : task.id = grade.taskId := Table.get_pk htask
    exact ⟨by rw [hid], rfl⟩
  refine ⟨?_, (hrows _).2, grade, task, ?_, ?_, (hrows _).1⟩
  · exact hload.le.trans hle.length_le
  · exact hgrades.symm.trans hgrade
  · show (storeAt base log (s₅.clock.getD 0 0)).tasks.get grade.taskId = some task
    rw [hload, storeAt_of_prefix hle]
    exact htask

/-! ### The status of one task -/

/-- An agreed task of several graders. -/
def AgreedTask (db : Db) (taskId : Uuid) : Prop :=
  ∃ task round, db.tasks.get taskId = some task ∧ task.isAttentionCheck = false ∧
    2 ≤ task.requiredGrades ∧ db.consensus.get taskId = some round ∧ round.status = .agreed

def statusOf (db : Db) (taskId : Uuid) : Option TaskStatus := (db.tasks.get taskId).map Task.status

/-- The review is of a grade of the task. -/
def Concerns (base : Db) (taskId : Uuid) (e : Reviewed) : Prop :=
  ∃ grade, base.grades.get e.call.body.gradeId = some grade ∧ grade.taskId = taskId

def Approves (base : Db) (taskId : Uuid) (e : Reviewed) : Prop :=
  Concerns base taskId e ∧ e.call.body.decision = .approve

/-- An approval that committed decides: the task ends approved, and once a committed status
is approved it stays so. -/
structure ApprovalStands (base : Db) (taskId : Uuid) (log : List Reviewed) : Prop where
  approved : (∃ e ∈ log, Approves base taskId e) → statusOf (now base log) taskId = some .approved
  kept : ∀ past later, past <+: later → later <+: log →
    statusOf (now base past) taskId = some .approved →
    statusOf (now base later) taskId = some .approved

/-- `e` rejects a grade of a task it loaded as neither approved nor rejected, and an approval
of another grade has committed since. -/
def Overlooks (base : Db) (taskId : Uuid) (past : List Reviewed) (e : Reviewed) : Prop :=
  e.call.body.decision = .reject ∧
    statusOf (storeAt base past (taskLoadedAt e)) taskId ≠ some .approved ∧
    statusOf (storeAt base past (taskLoadedAt e)) taskId ≠ some .rejected ∧
    ∃ q d, q ++ [d] <+: past ∧ taskLoadedAt e ≤ q.length ∧ Approves base taskId d

/-- The status a review leaves, from the one it loaded and the one it finds. -/
def decided (decision : ReviewDecision) (loaded current : TaskStatus) : TaskStatus :=
  match decision with
  | .approve => flushed loaded .approved current
  | .reject => if loaded = .approved then current else flushed loaded .rejected current

theorem reviewedRow_status {loaded t : Task} {decision : ReviewDecision}
    (hg : loaded.isAttentionCheck = false) (hr : 2 ≤ loaded.requiredGrades) :
    (reviewedRow loaded decision t).status = decided decision loaded.status t.status := by
  have hone : ¬ loaded.requiredGrades = 1 := by omega
  unfold reviewedRow decided
  rw [if_neg (by simp [hg])]
  cases decision with
  | approve => rfl
  | reject =>
    rw [if_neg (by simp), if_neg hone]
    by_cases hs : loaded.status = .approved
    · rw [if_neg (not_not.mpr hs), if_pos hs]
      rfl
    · rw [if_pos hs, if_neg hs]
      rfl

section Status
variable {base : Db} {taskId : Uuid} {past log : List Reviewed} {e : Reviewed}

theorem AgreedTask.kind (h : AgreedTask base taskId) (hlog : Lawful (ReviewLaw base) base log)
    {t : Task} (ht : (now base log).tasks.get taskId = some t) :
    t.isAttentionCheck = false ∧ 2 ≤ t.requiredGrades := by
  obtain ⟨t₀, _, ht₀, hg, hr, _⟩ := h
  obtain ⟨t', ht', hkind⟩ := tasks_evolve hlog List.nil_prefix _ _ ht₀
  obtain rfl := Option.some.inj (ht.symm.trans ht')
  exact ⟨hkind.1.trans hg, hkind.2 ▸ hr⟩

/-- A review of another task leaves the row alone. -/
theorem ReviewLaw.status_other (hlog : Lawful (ReviewLaw base) base (past ++ [e]))
    (hne : ¬ Concerns base taskId e) :
    statusOf (now base (past ++ [e])) taskId = statusOf (now base past) taskId := by
  obtain ⟨hpast, hbefore, hlaw⟩ := Lawful.concat.mp hlog
  obtain ⟨grade, loaded, hgrade, _, hafter⟩ := hlaw.step
  rw [hbefore, grades_fixed hpast] at hgrade
  have hk : ¬ grade.taskId = taskId := fun he => hne ⟨grade, hgrade, he⟩
  rw [now_concat, statusOf, hafter, hbefore]
  exact congrArg (Option.map Task.status)
    (((now base past).tasks.get_update _ _ (reviewedRow_keeps loaded _) taskId).trans (if_neg hk))

/-- A review of the task decides from the status it loaded. -/
theorem ReviewLaw.status_on (hagreed : AgreedTask base taskId)
    (hlog : Lawful (ReviewLaw base) base (past ++ [e])) (hon : Concerns base taskId e) :
    ∃ loaded current, statusOf (storeAt base past (taskLoadedAt e)) taskId = some loaded ∧
      statusOf (now base past) taskId = some current ∧
      statusOf (now base (past ++ [e])) taskId =
        some (decided e.call.body.decision loaded current) := by
  obtain ⟨hpast, hbefore, hlaw⟩ := Lawful.concat.mp hlog
  obtain ⟨grade, loaded, hgrade, hload, hafter⟩ := hlaw.step
  obtain ⟨grade', hgrade', rfl⟩ := hon
  rw [hbefore, grades_fixed hpast, hgrade'] at hgrade
  obtain rfl := Option.some.inj hgrade
  have hpre := List.take_prefix (taskLoadedAt e) past
  obtain ⟨t, ht, _⟩ := tasks_evolve hpast hpre _ _ hload
  obtain ⟨hg, hr⟩ := hagreed.kind (hpast.of_prefix hpre) hload
  -- the task keeps its kind, so only the decision and the two statuses count
  refine ⟨loaded.status, t.status, by rw [statusOf, hload]; rfl, by rw [statusOf, ht]; rfl, ?_⟩
  rw [now_concat, statusOf, hafter, hbefore]
  refine (congrArg (Option.map Task.status) (((now base past).tasks.get_update _ _
    (reviewedRow_keeps loaded _) grade'.taskId).trans (if_pos rfl))).trans ?_
  rw [ht]
  exact congrArg some (reviewedRow_status hg hr)

theorem decided_approved {decision : ReviewDecision} {loaded current : TaskStatus}
    (h : decided decision loaded current = .approved) (hc : current ≠ .approved) :
    decision = .approve := by
  cases decision with
  | approve => rfl
  | reject =>
    unfold decided flushed at h
    dsimp only at h
    split_ifs at h <;> exact absurd h hc

/-- Only an approval makes the task approved. -/
theorem exists_approval (hagreed : AgreedTask base taskId)
    (h : Lawful (ReviewLaw base) base log) (hle : past <+: log)
    (hnot : statusOf (now base past) taskId ≠ some .approved)
    (happ : statusOf (now base log) taskId = some .approved) :
    ∃ q d, q ++ [d] <+: log ∧ past.length ≤ q.length ∧ Approves base taskId d := by
  obtain ⟨later, rfl⟩ := hle
  -- the first entry after which the status is approved is the one
  induction later using List.reverseRecOn with
  | nil => exact absurd (by rwa [List.append_nil] at happ) hnot
  | append_singleton later e ih =>
    rw [← List.append_assoc] at h happ ⊢
    by_cases hbefore : statusOf (now base (past ++ later)) taskId = some .approved
    · obtain ⟨q, d, hq, hlen, hd⟩ := ih (h.of_prefix (List.prefix_append _ [e])) hbefore
      exact ⟨q, d, hq.trans (List.prefix_append _ [e]), hlen, hd⟩
    · refine ⟨past ++ later, e, List.prefix_refl _, by simp, ?_⟩
      by_cases hon : Concerns base taskId e
      · obtain ⟨loaded, current, _, hcur, hnew⟩ := ReviewLaw.status_on hagreed h hon
        rw [hnew] at happ
        rw [hcur] at hbefore
        exact ⟨hon, decided_approved (Option.some.inj happ) (fun he => hbefore (congrArg some he))⟩
      · exact absurd ((ReviewLaw.status_other h hon).symm.trans happ) hbefore

/-- An approval that commits leaves the task approved, if approved stays approved before it. -/
theorem status_approval (hagreed : AgreedTask base taskId)
    (h : Lawful (ReviewLaw base) base (past ++ [e])) (he : Approves base taskId e)
    (hkept : ∀ earlier, earlier <+: past → statusOf (now base earlier) taskId = some .approved →
      statusOf (now base past) taskId = some .approved) :
    statusOf (now base (past ++ [e])) taskId = some .approved := by
  obtain ⟨loaded, current, hload, hcur, hnew⟩ := ReviewLaw.status_on hagreed h he.1
  rw [hnew, he.2]
  show some (flushed loaded .approved current) = some .approved
  unfold flushed
  split_ifs with heq
  · rw [← heq] at hload
    rw [← hcur]
    exact hkept _ (List.take_prefix _ _) hload
  · rfl

/-- A rejection writes over an approved status exactly when it overlooks an approval. -/
theorem status_rejection (hagreed : AgreedTask base taskId)
    (h : Lawful (ReviewLaw base) base (past ++ [e])) (hon : Concerns base taskId e)
    (hrej : e.call.body.decision = .reject)
    (happ : statusOf (now base past) taskId = some .approved) :
    statusOf (now base (past ++ [e])) taskId = some .approved ↔
      statusOf (storeAt base past (taskLoadedAt e)) taskId = some .approved ∨
      statusOf (storeAt base past (taskLoadedAt e)) taskId = some .rejected := by
  obtain ⟨loaded, current, hload, hcur, hnew⟩ := ReviewLaw.status_on hagreed h hon
  obtain rfl := Option.some.inj (hcur.symm.trans happ)
  rw [hnew, hload, hrej]
  show some (if loaded = .approved then _ else flushed loaded .rejected _) = _ ↔ _
  unfold flushed
  cases loaded <;> decide

/-- In every interleaving of reviews the approvals of an agreed task stand exactly when no
committed rejection overlooks one. -/
theorem approvalStands_iff (base : Db) (taskId : Uuid) (hagreed : AgreedTask base taskId)
    (schedule : List (Choice ReviewCall ℕ)) :
    ApprovalStands base taskId (committed reviewing base schedule) ↔
      ∀ past e, past ++ [e] <+: committed reviewing base schedule → Concerns base taskId e →
        ¬ Overlooks base taskId past e := by
  have hlog := lawful_committed (reviewing_verified base) schedule
  generalize committed reviewing base schedule = log at hlog ⊢
  constructor
  -- a rejection that overlooks an approval writes over it
  · intro hstands past e hle hon hover
    obtain ⟨hrej, hnapp, hnrej, q, d, hq, _, hd⟩ := hover
    have hpast := (List.prefix_append past [e]).trans hle
    have hqlog : q ++ [d] <+: log := hq.trans hpast
    -- the approval made the task approved, and so it was when `e` committed
    have hafter : statusOf (now base (q ++ [d])) taskId = some .approved :=
      status_approval hagreed (hlog.of_prefix hqlog) hd (fun earlier hearlier =>
        hstands.kept earlier q hearlier ((List.prefix_append q [d]).trans hqlog))
    have hbefore := hstands.kept _ _ hq hpast hafter
    have hlast := hstands.kept _ _ (hq.trans (List.prefix_append past [e])) hle hafter
    rcases (status_rejection hagreed (hlog.of_prefix hle) hon hrej hbefore).mp hlast with ha | hr
    · exact hnapp ha
    · exact hnrej hr
  -- entry by entry from the approval on
  · intro hcond
    have hkept : ∀ past later, past <+: later → later <+: log →
        statusOf (now base past) taskId = some .approved →
        statusOf (now base later) taskId = some .approved := by
      intro past later hle hlater happ
      obtain ⟨rest, rfl⟩ := hle
      induction rest using List.reverseRecOn with
      | nil => rwa [List.append_nil]
      | append_singleton rest e ih =>
        rw [← List.append_assoc] at hlater ⊢
        have hrest := (List.prefix_append (past ++ rest) [e]).trans hlater
        have hnow := ih hrest
        have hlawful := hlog.of_prefix hlater
        by_cases hon : Concerns base taskId e
        case neg => rwa [ReviewLaw.status_other hlawful hon]
        cases hdec : e.call.body.decision with
        | approve =>
          -- what was approved when `e` loaded it is approved now
          exact status_approval hagreed hlawful ⟨hon, hdec⟩ (fun _ _ _ => hnow)
        | reject =>
          rw [status_rejection hagreed hlawful hon hdec hnow]
          by_contra hload
          push Not at hload
          have hpre := List.take_prefix (taskLoadedAt e) (past ++ rest)
          obtain ⟨q, d, hq, hlen, hd⟩ := exists_approval hagreed (hlog.of_prefix hrest) hpre
            hload.1 hnow
          obtain ⟨_, _, hlaw⟩ := Lawful.concat.mp hlawful
          rw [List.length_take, min_eq_left hlaw.ordered] at hlen
          exact hcond _ e hlater hon ⟨hdec, hload.1, hload.2, q, d, hq, hlen, hd⟩
    refine ⟨?_, hkept⟩
    rintro ⟨e, he, happ⟩
    obtain ⟨past, rest, rfl⟩ := List.append_of_mem he
    have hle : past ++ [e] <+: past ++ e :: rest := ⟨rest, by simp⟩
    have hpast := (List.prefix_append past [e]).trans hle
    refine hkept _ _ hle (List.prefix_refl _) ?_
    exact status_approval hagreed (hlog.of_prefix hle) happ
      (fun earlier hearlier => hkept earlier past hearlier hpast)

end Status

namespace Scenario

def reviewOf (n : ℕ) (gradeId : Uuid) (decision : ReviewDecision) : ReviewCall :=
  ⟨env n, 7, ⟨gradeId, decision, none⟩, "reviewer"⟩

/-- Transaction 2 locks grade 1500 to reject it and loads task 1100; transaction 1 approves
grade 1300 and commits; then transaction 2 goes on. -/
def overlooked : List (Choice ReviewCall ℕ) :=
  [.start 1 (reviewOf 18 1300 .approve), .start 2 (reviewOf 19 1500 .reject), .run 2, .run 2] ++
    List.replicate 25 (.run 1) ++ List.replicate 25 (.run 2)

end Scenario

open Scenario in
/-- The task was approved and ends rejected. -/
theorem approval_overlooked :
    ¬ ApprovalStands (after trio) 1100 (committed reviewing (after trio) overlooked) := by
  intro h
  have hend : statusOf (now (after trio) (committed reviewing (after trio) overlooked)) 1100 =
      some .rejected := by decide +kernel
  have hkept := h.kept ((committed reviewing (after trio) overlooked).take 1) _
    (List.take_prefix _ _) (List.prefix_refl _) (by decide +kernel)
  rw [hend] at hkept
  exact absurd hkept (by decide)

open Scenario in
theorem approvalStands_iff_trio : AgreedTask (after trio) 1100 ∧
    (ApprovalStands (after trio) 1100 (committed reviewing (after trio) overlooked) ↔
      ∀ past e, past ++ [e] <+: committed reviewing (after trio) overlooked →
        Concerns (after trio) 1100 e → ¬ Overlooks (after trio) 1100 past e) := by
  have hagreed : AgreedTask (after trio) 1100 := by
    have htask : ((after trio).tasks.get 1100).any (fun t =>
        !t.isAttentionCheck && decide (2 ≤ t.requiredGrades)) = true := by decide +kernel
    have hround : ((after trio).consensus.get 1100).any (fun c =>
        decide (c.status = .agreed)) = true := by decide +kernel
    obtain ⟨t, ht, hkind⟩ := (Option.any_eq_true _ _).mp htask
    obtain ⟨c, hc, hstatus⟩ := (Option.any_eq_true _ _).mp hround
    rw [Bool.and_eq_true, Bool.not_eq_true', decide_eq_true_eq] at hkind
    exact ⟨t, c, ht, hkind.1, hkind.2, hc, of_decide_eq_true hstatus⟩
  exact ⟨hagreed, approvalStands_iff (after trio) 1100 hagreed overlooked⟩

end Panelist
