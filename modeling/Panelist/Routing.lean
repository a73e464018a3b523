import Panelist.Models

/-! `panelist.services.routing`: leases, eligibility and the two claim paths.
Every request is one transaction, so no row is locked by another one. -/
namespace Panelist
open Relational Transaction

/-- `auth.current_expert` for a key bound to `expertId`. -/
def currentExpert (db : Db) (expertId : Uuid) : Except Failure Expert :=
  orFail (db.experts.get expertId) (.http 404 "expert not found")

/-- `_eligible_tiers`. -/
def eligibleTiers (tier : Tier) : List Tier :=
  [Tier.junior, .senior, .lead].filter (fun t => t.rank ≤ tier.rank)

/-- Postgres `&&` and Python's truth of a set intersection. -/
def overlap (xs ys : List String) : Bool := xs.any (fun x => ys.contains x)

def alreadyGraded (db : Db) (taskId expertId : Uuid) : Bool :=
  db.grades.rows.any (fun g => g.taskId = taskId ∧ g.expertId = expertId)

/-- `_eligibility`: tag overlap, tier gate, not already graded. -/
def eligibility (db : Db) (expert : Expert) (task : Task) : Bool :=
  decide (task.status = .queued) && overlap task.requiredTags expert.tags &&
    (eligibleTiers expert.tier).contains task.minTier && !alreadyGraded db task.id expert.id

/-- The row a reclaim or a release writes back, apart from the reclaim count. -/
def Task.unassigned (t : Task) : Task :=
  { t with status := .queued, assignedExpertId := none, assignedAt := none, leaseExpiresAt := none }

/-- The `WHERE` of `reclaim_expired`; a null lease is not expired. -/
def Task.leaseExpired (now : Time) (t : Task) : Bool :=
  decide (t.status = .assigned) && (t.leaseExpiresAt.any (fun l => l < now))

def Task.reclaimed (t : Task) : Task :=
  { t.unassigned with reclaimCount := t.reclaimCount + 1 }

/-- Return leased tasks whose lease expired back to the queue. -/
def reclaimExpired (env : Env) (db : Db) : Db × ℕ :=
  ({ db with tasks := db.tasks.updateWhere (Task.leaseExpired env.now) Task.reclaimed },
   (db.tasks.rows.filter (Task.leaseExpired env.now)).length)

/-- The task columns `_assign` writes. -/
def Task.assignTo (env : Env) (expertId : Uuid) (t : Task) : Task :=
  { t with
    status := .assigned
    -- the version this lease is graded under, whatever is published meanwhile
    pinnedRubricId := some t.rubricId
    assignedExpertId := some expertId
    assignedAt := some env.now
    leaseExpiresAt := some (env.now + env.settings.leaseSeconds * 1000000) }

def Expert.served (e : Expert) : Expert := { e with servedCount := e.servedCount + 1 }

/-- `_assign`. -/
def assign (env : Env) (db : Db) (task : Task) (expert : Expert) : Db × Task :=
  let db := { db with
    tasks := db.tasks.update task.id (Task.assignTo env expert.id)
    experts := db.experts.update expert.id Expert.served }
  -- the caller answers with the row as written
  (record db s!"expert:{expert.id.str}" "task.assigned" "task" task.id.str,
   task.assignTo env expert.id)

/-- `ORDER BY priority DESC, deadline ASC NULLS LAST, seq ASC`. -/
def pickBefore (a b : Task) : Bool :=
  decide (b.priority < a.priority) || decide (a.priority = b.priority) &&
    match a.deadline, b.deadline with
    | some x, some y => decide (x < y) || decide (x = y) && decide (a.seq ≤ b.seq)
    | some _, none => true
    | none, some _ => false
    | none, none => decide (a.seq ≤ b.seq)

/-- `_pick`. -/
def pick (db : Db) (expert : Expert) (wantAttention : Bool) : Option Task :=
  ((db.tasks.rows.filter (fun t =>
      eligibility db expert t && (t.isAttentionCheck == wantAttention))).insertionSort
    (fun a b => pickBefore a b)).head?

/-- `int.from_bytes(digest[:4], "big")`. -/
def bigEndian (bytes : List UInt8) : ℕ := bytes.foldl (fun n b => n * 256 + b.toNat) 0

def prefersAttentionCheck (env : Env) (expertId : Uuid) (serveIndex : ℕ) : Bool :=
  let fraction := env.settings.attentionFraction
  if fraction ≤ 0 then false
  else if 1 ≤ fraction then true
  else
    let key := env.settings.attentionKey
    -- the serve number is part of the text, so the choice is fixed for a given serve
    let digest := env.sha256 (s!"{key}:{expertId.str}:{serveIndex}").toUTF8
    decide ((bigEndian (digest.take 4) : ℚ) / 2 ^ 32 < fraction)

/-- The task `claim_next` settles on: golden work when this serve prefers it and
there is some, else the regular queue. -/
def claimCandidate (env : Env) (db : Db) (expert : Expert) : Option Task :=
  (if prefersAttentionCheck env expert.id (expert.servedCount + 1) then pick db expert true
    else none).or (pick db expert false)

/-- Claim the highest-priority eligible task for this expert. -/
def claimNext (env : Env) (db : Db) (expertId : Uuid) : Except Failure (Db × Option Task) := do
  let expert ← currentExpert db expertId
  require (expert.status = .active) (.http 423 s!"expert is {expert.status.value}")
  let db := (reclaimExpired env db).1
  -- the reclaim stays also when there is nothing to serve: a 204 commits
  match claimCandidate env db expert with
  | none => pure (db, none)
  | some task => pure ((assign env db task expert).1, some (assign env db task expert).2)

/-- Claim a specific task. Unlike `_eligibility`, nothing here looks at the grades. -/
def claimById (env : Env) (db : Db) (expertId taskId : Uuid) : Except Failure (Db × Task) := do
  let expert ← currentExpert db expertId
  require (expert.status = .active) (.http 423 s!"expert is {expert.status.value}")
  -- a refusal below takes the reclaim back with the transaction
  let db := (reclaimExpired env db).1
  let task ← orFail (db.tasks.get taskId) (.http 404 "task not found")
  require (task.status = .queued) (.http 409 s!"task is {task.status.value}")
  require (overlap task.requiredTags expert.tags)
    (.http 403 "task requires expertise the expert does not have")
  require (task.minTier.rank ≤ expert.tier.rank) (.http 403 "task requires a higher tier")
  pure (assign env db task expert)

def release (db : Db) (expertId taskId : Uuid) : Except Failure (Db × Task) := do
  let expert ← currentExpert db expertId
  let task ← orFail (db.tasks.get taskId) (.http 404 "task not found")
  require (task.status = .assigned ∧ task.assignedExpertId = some expert.id)
    (.http 409 "task is not assigned to this expert")
  -- the pin and the count of reclaims stay on the row
  let db := { db with tasks := db.tasks.update task.id Task.unassigned }
  pure (record db s!"expert:{expert.id.str}" "task.released" "task" task.id.str, task.unassigned)

/-! ### What the operations do -/

theorem eligibleTiers_contains (tier t : Tier) :
    (eligibleTiers tier).contains t = true ↔ t.rank ≤ tier.rank := by
  cases tier <;> cases t <;> decide

theorem alreadyGraded_eq_false {db : Db} {taskId expertId : Uuid} :
    alreadyGraded db taskId expertId = false ↔
      ∀ g ∈ db.grades, g.taskId = taskId → g.expertId ≠ expertId := by
  simp [alreadyGraded, Table.mem_rows]

theorem eligibility_iff {db : Db} {expert : Expert} {task : Task} :
    eligibility db expert task = true ↔
      task.status = .queued ∧ overlap task.requiredTags expert.tags = true ∧
        task.minTier.rank ≤ expert.tier.rank ∧ alreadyGraded db task.id expert.id = false := by
  simp only [eligibility, Bool.and_eq_true, decide_eq_true_eq, Bool.not_eq_true',
    eligibleTiers_contains, and_assoc]

theorem pick_some {db : Db} {expert : Expert} {want : Bool} {t : Task}
    (h : pick db expert want = some t) : t ∈ db.tasks ∧ eligibility db expert t = true := by
  have hm := List.mem_of_mem_head? h
  rw [List.mem_insertionSort, List.mem_filter, Bool.and_eq_true] at hm
  exact ⟨hm.1, hm.2.1⟩

theorem claimCandidate_some {env : Env} {db : Db} {expert : Expert} {t : Task}
    (h : claimCandidate env db expert = some t) :
    t ∈ db.tasks ∧ eligibility db expert t = true := by
  unfold claimCandidate at h
  rcases Option.or_eq_some_iff.mp h with hg | ⟨_, hr⟩
  · split at hg
    · exact pick_some hg
    · exact absurd hg (by simp)
  · exact pick_some hr

/-- A claim assigns an eligible task, or only reclaims when there is none. -/
theorem claimNext_ok {env : Env} {db db' : Db} {expertId : Uuid} {t : Option Task}
    (h : claimNext env db expertId = .ok (db', t)) :
    ∃ expert, db.experts.get expertId = some expert ∧ expert.status = .active ∧
      (db' = (reclaimExpired env db).1 ∧ t = none ∨
        ∃ task ∈ (reclaimExpired env db).1.tasks,
          eligibility (reclaimExpired env db).1 expert task = true ∧
          (db', t) = ((assign env (reclaimExpired env db).1 task expert).1,
            some (task.assignTo env expert.id))) := by
  simp only [claimNext, currentExpert, bind_ok_iff, orFail_ok_iff, require_ok_iff,
    exists_const] at h
  obtain ⟨expert, hget, hactive, hm⟩ := h
  refine ⟨expert, hget, hactive, ?_⟩
  -- the candidate is chosen among the tasks after the reclaim
  cases hc : claimCandidate env (reclaimExpired env db).1 expert with
  | none =>
    rw [hc] at hm
    obtain ⟨rfl, rfl⟩ := Prod.mk.inj (pure_ok_iff.mp hm)
    exact Or.inl ⟨rfl, rfl⟩
  | some task =>
    rw [hc] at hm
    obtain ⟨hmem, helig⟩ := claimCandidate_some hc
    exact Or.inr ⟨task, hmem, helig, (pure_ok_iff.mp hm).symm⟩

/-- When and how a direct claim succeeds. -/
theorem claimById_ok_iff {env : Env} {db db' : Db} {expertId taskId : Uuid} {t : Task} :
    claimById env db expertId taskId = .ok (db', t) ↔
      ∃ expert task, db.experts.get expertId = some expert ∧ expert.status = .active ∧
        (reclaimExpired env db).1.tasks.get taskId = some task ∧ task.status = .queued ∧
        overlap task.requiredTags expert.tags = true ∧ task.minTier.rank ≤ expert.tier.rank ∧
        assign env (reclaimExpired env db).1 task expert = (db', t) := by
  simp [claimById, currentExpert]

theorem release_ok {db db' : Db} {expertId taskId : Uuid} {t : Task}
    (h : release db expertId taskId = .ok (db', t)) :
    ∃ expert task, db.experts.get expertId = some expert ∧ db.tasks.get taskId = some task ∧
      task.status = .assigned ∧ task.assignedExpertId = some expert.id ∧
      db' = record { db with tasks := db.tasks.update task.id Task.unassigned }
        s!"expert:{expert.id.str}" "task.released" "task" task.id.str := by
  simp only [release, currentExpert, bind_ok_iff, orFail_ok_iff, require_ok_iff, exists_const,
    pure_ok_iff, Prod.mk.injEq] at h
  obtain ⟨expert, he, task, ht, ⟨hs, ha⟩, hdb, _⟩ := h
  exact ⟨expert, task, he, ht, hs, ha, hdb.symm⟩

end Panelist
