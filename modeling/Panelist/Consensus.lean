import Panelist.Calibration
import Panelist.Payouts

/-! `panelist.services.consensus`: rounds over k graders, redelivery and adjudication. -/
namespace Panelist
open Relational Transaction

/-- `(submitted_at, id)` order of grades. -/
def Grade.earlier (a b : Grade) : Prop :=
  a.submittedAt < b.submittedAt ∨ a.submittedAt = b.submittedAt ∧ a.id ≤ b.id

instance : DecidableRel Grade.earlier := fun _ _ => inferInstanceAs (Decidable (_ ∨ _))

/-- The task's grades in table order. -/
def gradesOf (db : Db) (taskId : Uuid) : List Grade :=
  db.grades.rows.filter (fun g => g.taskId = taskId)

/-- `grades_for`: ordered by submission. -/
def gradesFor (db : Db) (taskId : Uuid) : List Grade :=
  (gradesOf db taskId).insertionSort Grade.earlier

/-- What a reviewer or an adjudicator decided on a grade, if anyone did. -/
def decision (db : Db) (gradeId : Uuid) : Option ReviewDecision :=
  (db.reviews.get gradeId).map Review.decision

/-- `_unrejected`: a grade a reviewer rejected never joins a consensus round. -/
def unrejected (db : Db) (taskId : Uuid) : List Grade :=
  (gradesFor db taskId).filter (fun g => decision db g.id ≠ some .reject)

def mean (grades : List Grade) : ℚ := (grades.map Grade.weightedScore).sum / grades.length

/-- The tuple `_closest_to_mean` compares, ordered lexicographically. -/
def PickKey : Type := ℚ ×ₗ ℤ ×ₗ ℕ

instance : LinearOrder PickKey :=
  @Prod.Lex.instLinearOrder ℚ (ℤ ×ₗ ℕ) inferInstance
    (@Prod.Lex.instLinearOrder ℤ ℕ Int.instLinearOrder inferInstance)

/-- `_closest_to_mean`: ties go to the earliest submission, then the smallest id. -/
def closestToMean (grades : List Grade) : Option Grade :=
  let key (g : Grade) : PickKey :=
    toLex (|g.weightedScore - mean grades|, toLex (g.submittedAt, g.id))
  grades.argmin key

/-- `max(scores) - min(scores)`; an empty list has no spread. -/
def spread (grades : List Grade) : ℚ :=
  match grades.map Grade.weightedScore with
  | [] => 0
  | w :: ws => ws.foldl max w - ws.foldl min w

def Task.withStatus (status : TaskStatus) (t : Task) : Task := { t with status := status }

theorem Task.withStatus_keeps (status : TaskStatus) : Table.Keeps (Task.withStatus status) :=
  fun _ => rfl

/-- The round `evaluate` records over `grades`. -/
def newRound (env : Env) (taskId : Uuid) (grades : List Grade) : Consensus :=
  let agreed := spread grades ≤ env.settings.consensusTolerance
  { taskId := taskId
    status := if agreed then .agreed else .adjudicating
    gradeCount := grades.length
    spread := spread grades
    tolerance := env.settings.consensusTolerance
    -- only an agreed round picks; an adjudication waits for a reviewer
    deliveredGradeId := if agreed then (closestToMean grades).map Grade.id else none
    adjudicatorKeyId := none
    reason := none
    createdAt := env.now
    resolvedAt := if agreed then some env.now else none }

/-- `consensus.evaluate`: score the completed grades on a task. Agree within
tolerance, or open an adjudication. -/
def consensusEvaluate (env : Env) (db : Db) (taskId : Uuid) :
    Except Failure (Db × Option Consensus) :=
  let grades := unrejected db taskId
  -- rejected grades are out of play, so a full task can end without a round
  if grades.length < 2 then pure (db, none)
  else do
    let row := newRound env taskId grades
    -- `submit` wrote `submitted` before; a split round puts `adjudication` over it
    let tasks := if row.status = .agreed then db.tasks
      else db.tasks.update taskId (Task.withStatus .adjudication)
    let consensus ← orFail (db.consensus.insert row) (.integrity "consensus_task_id_key")
    let status := row.status.value
    pure (record { db with tasks := tasks, consensus := consensus } "system" s!"consensus.{status}"
      "task" taskId.str, some row)

def Consensus.delivering (gradeId : Option Uuid) (c : Consensus) : Consensus :=
  { c with deliveredGradeId := gradeId }

/-- The grades a new delivery is picked from: approved ones, else those in play. -/
def redeliveryCandidates (db : Db) (taskId : Uuid) : List Grade :=
  let pool := (gradesFor db taskId).filter (fun g => decision db g.id ≠ some .reject)
  let approved := pool.filter (fun g => decision db g.id = some .approve)
  if approved = [] then pool else approved

/-- `redeliver`: a reviewer rejected the grade an agreed round had selected, so
the delivery is picked again. -/
def redeliver (db : Db) (task : Task) (rejected : Grade) (actor : String) : Db :=
  match db.consensus.get task.id with
  | none => db
  | some row =>
    -- only an agreed round moves, and only when its own pick was rejected
    if row.status ≠ .agreed ∨ row.deliveredGradeId ≠ some rejected.id then db
    else
      -- nothing left in play: the round delivers no grade
      let picked := (closestToMean (redeliveryCandidates db task.id)).map Grade.id
      record { db with consensus := db.consensus.update task.id (Consensus.delivering picked) }
        actor "consensus.redelivered" "task" task.id.str

/-- `_outvoted_payout`. -/
def outvotedPayout (env : Env) (db : Db) (grade : Grade) (task : Task) (actor : String) :
    Except Failure (Db × Option Payout) :=
  match env.settings.consensusOutvotedPayout with
  | .none => pure (db, none)
  | .full => do
    let (db, payout) ← createForGrade env db grade task actor 1
    pure (db, some payout)
  | .part => do
    let (db, payout) ← createForGrade env db grade task actor env.settings.consensusOutvotedRate
    pure (db, some payout)

/-- The review `resolve` records on one grade of the round. -/
def verdict (env : Env) (delivered : Grade) (reason : String) (keyId : Uuid) (grade : Grade) :
    Review :=
  let chosen := grade.id = delivered.id
  { gradeId := grade.id
    reviewerKeyId := keyId
    decision := if chosen then .approve else .reject
    reason := some (if chosen then reason else "outvoted in adjudication")
    createdAt := env.now }

/-- What `resolve` pays for one grade of the round. -/
def resolvePayout (env : Env) (db : Db) (task : Task) (delivered grade : Grade) (actor : String) :
    Except Failure Db :=
  if grade.id = delivered.id then Prod.fst <$> createForGrade env db grade task actor 1
  else Prod.fst <$> outvotedPayout env db grade task actor

/-- One pass of the loop in `resolve`: the verdict, the payout, the calibration. -/
def resolveGrade (env : Env) (task : Task) (delivered : Grade) (reason : String) (keyId : Uuid)
    (actor : String) (db : Db) (grade : Grade) : Except Failure Db := do
  require (verdict env delivered reason keyId grade).storable (.raised "DataError")
  let reviews ← orFail (db.reviews.insert (verdict env delivered reason keyId grade))
    (.integrity "reviews_grade_id_key")
  let db ← resolvePayout env { db with reviews := reviews } task delivered grade actor
  let expert ← orFail (db.experts.get grade.expertId) (.integrity "grades_expert_id_fkey")
  -- the next grade of the loop sees the tier this one left
  pure (calibrationUpdate env db expert actor).1

def Consensus.adjudicate (gradeId keyId : Uuid) (reason : String) (now : Time) (c : Consensus) :
    Consensus :=
  { c with
    status := .adjudicated
    deliveredGradeId := some gradeId
    adjudicatorKeyId := some keyId
    reason := some reason
    resolvedAt := some now }

theorem Consensus.adjudicate_keeps (gradeId keyId : Uuid) (reason : String) (now : Time) :
    Table.Keeps (Consensus.adjudicate gradeId keyId reason now) := fun _ => rfl

/-- `resolve`: a senior reviewer picks the delivered grade; the others are
recorded as outvoted. -/
def resolve (env : Env) (db : Db) (taskId deliveredGradeId : Uuid) (reason : String)
    (keyId : Uuid) (actor : String) : Except Failure (Db × Consensus) := do
  require (1 ≤ reason.length) (.http 422 "reason")
  let row ← orFail (db.consensus.get taskId) (.http 404 "no consensus round for this task")
  let status := row.status.value
  require (row.status = .adjudicating) (.http 409 s!"consensus is already {status}")
  let grades := gradesFor db taskId
  let delivered ← orFail (grades.find? (fun g => g.id = deliveredGradeId))
    (.http 422 "delivered grade is not one of the grades on this task")
  let task ← orFail (db.tasks.get taskId) (.integrity "consensus_task_id_fkey")
  -- in the order of submission; one missing rate undoes the whole round
  let db ← grades.foldlM (resolveGrade env task delivered reason keyId actor) db
  let decided := Consensus.adjudicate delivered.id keyId reason env.now
  let db := { db with
    tasks := db.tasks.update taskId (Task.withStatus .approved)
    consensus := db.consensus.update taskId decided }
  pure (record db actor "consensus.adjudicated" "task" taskId.str, decided row)

/-! ### What the operations write -/

theorem mem_gradesOf {db : Db} {taskId : Uuid} {g : Grade} :
    g ∈ gradesOf db taskId ↔ g ∈ db.grades ∧ g.taskId = taskId := by
  simp [gradesOf, Table.mem_rows]

theorem gradesFor_perm (db : Db) (taskId : Uuid) :
    (gradesFor db taskId).Perm (gradesOf db taskId) := List.perm_insertionSort _ _

theorem mem_gradesFor {db : Db} {taskId : Uuid} {g : Grade} :
    g ∈ gradesFor db taskId ↔ g ∈ db.grades ∧ g.taskId = taskId :=
  (gradesFor_perm db taskId).mem_iff.trans mem_gradesOf

theorem mem_unrejected {db : Db} {taskId : Uuid} {g : Grade} :
    g ∈ unrejected db taskId ↔
      (g ∈ db.grades ∧ g.taskId = taskId) ∧ decision db g.id ≠ some .reject := by
  simp [unrejected, mem_gradesFor]

/-- The candidates are the approved grades in play, or all in play when none is approved. -/
theorem redeliveryCandidates_eq (db : Db) (taskId : Uuid) :
    redeliveryCandidates db taskId =
      if (unrejected db taskId).filter (fun g => decision db g.id = some .approve) = [] then
        unrejected db taskId
      else (unrejected db taskId).filter (fun g => decision db g.id = some .approve) := rfl

theorem closestToMean_mem {gs : List Grade} {g : Grade} (h : closestToMean gs = some g) :
    g ∈ gs := List.argmin_mem h

theorem closestToMean_eq_none {gs : List Grade} : closestToMean gs = none ↔ gs = [] :=
  List.argmin_eq_none

/-- A round is recorded over at least two grades, or nothing happens. -/
theorem consensusEvaluate_ok {env : Env} {db db' : Db} {taskId : Uuid} {c : Option Consensus}
    (h : consensusEvaluate env db taskId = .ok (db', c)) :
    (unrejected db taskId).length < 2 ∧ db' = db ∨
      2 ≤ (unrejected db taskId).length ∧ ∃ consensus events,
        db.consensus.insert (newRound env taskId (unrejected db taskId)) = some consensus ∧
        db' = { db with
          tasks := if (newRound env taskId (unrejected db taskId)).status = .agreed then db.tasks
            else db.tasks.update taskId (Task.withStatus .adjudication)
          consensus := consensus
          auditEvents := events } := by
  unfold consensusEvaluate at h
  by_cases hl : (unrejected db taskId).length < 2
  · rw [if_pos hl] at h
    exact Or.inl ⟨hl, (congrArg Prod.fst (pure_ok_iff.mp h)).symm⟩
  · rw [if_neg hl] at h
    simp only [bind_ok_iff, orFail_ok_iff, pure_ok_iff, Prod.mk.injEq] at h
    obtain ⟨consensus, hins, rfl, _⟩ := h
    exact Or.inr ⟨by omega, consensus, _, hins, rfl⟩

theorem consensusEvaluate_error {env : Env} {db : Db} {taskId : Uuid} {f : Failure}
    (h : consensusEvaluate env db taskId = .error f) : f = .integrity "consensus_task_id_key" := by
  unfold consensusEvaluate at h
  by_cases hl : (unrejected db taskId).length < 2
  · rw [if_pos hl] at h
    exact absurd h (by simp)
  · rw [if_neg hl] at h
    simp only [bind_error_iff, orFail_error_iff, pure_error_iff, and_false, exists_false,
      or_false] at h
    exact h.2.symm

/-- The pick a redelivery makes. -/
def repick (db : Db) (taskId : Uuid) : Option Uuid :=
  (closestToMean (redeliveryCandidates db taskId)).map Grade.id

/-- The round's row after a decision on `gradeId`: the pick moves when the round
agreed on that grade and the decision rejects it. -/
def Consensus.afterReview (d : ReviewDecision) (gradeId : Uuid) (picked : Option Uuid)
    (c : Consensus) : Consensus :=
  if d = .reject ∧ c.status = .agreed ∧ c.deliveredGradeId = some gradeId then c.delivering picked
  else c

theorem Consensus.afterReview_keeps (d : ReviewDecision) (gradeId : Uuid) (picked : Option Uuid) :
    Table.Keeps (Consensus.afterReview d gradeId picked) := by
  intro c
  unfold Consensus.afterReview
  split <;> rfl

/-- A redelivery writes the round of the task and the trail. -/
theorem redeliver_eq (db : Db) (task : Task) (rejected : Grade) (actor : String) :
    redeliver db task rejected actor = { db with
      consensus := db.consensus.update task.id
        (Consensus.afterReview .reject rejected.id (repick db task.id))
        (Consensus.afterReview_keeps _ _ _)
      auditEvents := (redeliver db task rejected actor).auditEvents } := by
  unfold redeliver
  cases hc : db.consensus.get task.id with
  | none => rw [Table.update_self _ (fun c h => absurd (hc.symm.trans h) (by simp))]
  | some c =>
    dsimp only
    -- not agreed, or another grade was rejected: the update finds nothing to do
    split_ifs with hs
    · rw [Table.update_self]
      intro c' h
      obtain rfl := Option.some.inj (hc.symm.trans h)
      exact if_neg (fun hn => hs.elim (fun h => h hn.2.1) (fun h => h hn.2.2))
    · rw [not_or, not_not, not_not] at hs
      rw [db.consensus.update_congr (g := Consensus.delivering (repick db task.id))
        (Consensus.afterReview_keeps _ _ _) (fun _ => rfl) hc (if_pos ⟨rfl, hs⟩)]
      rfl

/-- The share of the rate `resolve` pays for a grade, if it pays one. -/
def resolveShare (settings : Settings) (delivered grade : Grade) : Option ℚ :=
  if grade.id = delivered.id then some 1
  else match settings.consensusOutvotedPayout with
    | .none => none
    | .full => some 1
    | .part => some settings.consensusOutvotedRate

/-- A grade of the round is paid its share, if it has one. -/
theorem resolvePayout_cases {env : Env} {db db' : Db} {task : Task} {delivered grade : Grade}
    {actor : String} (h : resolvePayout env db task delivered grade actor = .ok db') :
    (∃ f p, resolveShare env.settings delivered grade = some f ∧
      createForGrade env db grade task actor f = .ok (db', p)) ∨
    resolveShare env.settings delivered grade = none ∧ db' = db := by
  unfold resolvePayout at h
  unfold resolveShare
  split_ifs at h ⊢ with hc
  · obtain ⟨⟨_, p⟩, hp, rfl⟩ := map_ok_iff.mp h
    exact Or.inl ⟨1, p, rfl, hp⟩
  · -- an outvoted grade under one of the three rules
    obtain ⟨⟨_, o⟩, ho, rfl⟩ := map_ok_iff.mp h
    unfold outvotedPayout at ho
    cases hr : env.settings.consensusOutvotedPayout with
    | none =>
      rw [hr] at ho
      exact Or.inr ⟨rfl, congrArg Prod.fst (pure_ok_iff.mp ho).symm⟩
    | full | part =>
      simp only [hr, bind_ok_iff, pure_ok_iff, Prod.mk.injEq, Prod.exists] at ho
      obtain ⟨_, p, hp, rfl, _⟩ := ho
      exact Or.inl ⟨_, p, rfl, hp⟩

theorem resolvePayout_ok {env : Env} {db db' : Db} {task : Task} {delivered grade : Grade}
    {actor : String} (h : resolvePayout env db task delivered grade actor = .ok db') :
    ∃ payouts events,
      Payments env db task (resolveShare env.settings delivered) [grade] db.payouts payouts ∧
      db' = { db with payouts := payouts, auditEvents := events } := by
  rcases resolvePayout_cases h with ⟨f, p, hshare, hp⟩ | ⟨hshare, rfl⟩
  · exact createForGrade_ok hshare hp
  · exact ⟨db'.payouts, db'.auditEvents, .unpaid hshare (.nil _), rfl⟩

/-- One pass of the loop writes one review and at most one payout, and recalibrates
the author of the grade last. -/
theorem resolveGrade_calibrates {env : Env} {task : Task} {delivered grade : Grade}
    {reason : String} {keyId : Uuid} {actor : String} {db db' : Db}
    (h : resolveGrade env task delivered reason keyId actor db grade = .ok db') :
    ∃ reviews payouts expert events,
      db.reviews.insert (verdict env delivered reason keyId grade) = some reviews ∧
      Payments env db task (resolveShare env.settings delivered) [grade] db.payouts payouts ∧
      db.experts.get grade.expertId = some expert ∧
      db' = (calibrationUpdate env { db with
        reviews := reviews
        payouts := payouts
        auditEvents := events } expert actor).1 := by
  simp only [resolveGrade, bind_ok_iff, require_ok_iff, exists_const, orFail_ok_iff,
    pure_ok_iff] at h
  obtain ⟨-, reviews, hrev, db₁, hpay, expert, hexp, rfl⟩ := h
  obtain ⟨payouts, events, hpaid, rfl⟩ := resolvePayout_ok hpay
  exact ⟨reviews, payouts, expert, events, hrev, hpaid.congr rfl (fun _ _ => rfl), hexp, rfl⟩

/-- One pass of the loop writes one review, at most one payout and one expert row. -/
theorem resolveGrade_ok {env : Env} {task : Task} {delivered grade : Grade} {reason : String}
    {keyId : Uuid} {actor : String} {db db' : Db}
    (h : resolveGrade env task delivered reason keyId actor db grade = .ok db') :
    ∃ reviews payouts expert src changes events,
      db.reviews.insert (verdict env delivered reason keyId grade) = some reviews ∧
      Payments env db task (resolveShare env.settings delivered) [grade] db.payouts payouts ∧
      db.experts.get grade.expertId = some expert ∧
      db' = { db with
        reviews := reviews
        payouts := payouts
        experts := db.experts.update expert.id (recalibrated env src expert)
          (recalibrated_keeps env src expert)
        tierChanges := changes
        auditEvents := events } := by
  obtain ⟨reviews, payouts, expert, events, hrev, hpay, hexp, hdb'⟩ := resolveGrade_calibrates h
  obtain ⟨changes, events', hu⟩ := calibrationUpdate_eq env _ expert actor
  exact ⟨reviews, payouts, expert, _, changes, events', hrev, hpay, hexp, hdb'.trans hu⟩

/-- The whole loop over grades of different experts: every verdict, the payouts
at the rates before the loop, and recalibrated experts. -/
theorem resolveLoop_ok {env : Env} {task : Task} {delivered : Grade} {reason : String}
    {keyId : Uuid} {actor : String} {gs : List Grade} {db db' : Db}
    (hd : gs.Pairwise (fun a b => a.expertId ≠ b.expertId))
    (h : gs.foldlM (resolveGrade env task delivered reason keyId actor) db = .ok db') :
    ∃ reviews payouts experts changes events,
      db.reviews.insertAll (gs.map (verdict env delivered reason keyId)) = some reviews ∧
      Payments env db task (resolveShare env.settings delivered) gs db.payouts payouts ∧
      Recalibrates db.experts experts ∧
      db' = { db with
        reviews := reviews
        payouts := payouts
        experts := experts
        tierChanges := changes
        auditEvents := events } := by
  induction gs generalizing db with
  | nil =>
    obtain rfl := pure_ok_iff.mp h
    exact ⟨db.reviews, db.payouts, db.experts, db.tierChanges, db.auditEvents, rfl, .nil _,
      .refl _, rfl⟩
  | cons g gs ih =>
    rw [List.pairwise_cons] at hd
    simp only [List.foldlM_cons, bind_ok_iff] at h
    obtain ⟨db₁, hg, hrest⟩ := h
    obtain ⟨reviews₁, payouts₁, expert, src, changes₁, events₁, hrev, hpay, hexp, rfl⟩ :=
      resolveGrade_ok hg
    obtain ⟨reviews, payouts, experts, changes, events, hrevs, hpays, hcal, rfl⟩ := ih hd.2 hrest
    refine ⟨reviews, payouts, experts, changes, events, ?_, ?_, ?_, rfl⟩
    · simp only [List.map_cons, Table.insertAll, List.foldlM_cons, Option.bind_eq_bind, hrev,
        Option.bind_some]
      exact hrevs
    -- the first pass recalibrates its own author, whom no later payment reads
    · refine hpay.cons (hpays.congr rfl (fun g' hg' => ?_))
      have hne : expert.id ≠ g'.expertId :=
        fun he => hd.1 g' hg' ((Table.get_pk hexp).symm.trans he)
      rw [Table.get_update, if_neg hne]
    · exact (Recalibrates.update db.experts env src expert).trans hcal

/-- An adjudication decides every grade of the round in the loop, then closes
the task and the round. -/
theorem resolve_ok {env : Env} {db db' : Db} {taskId gradeId : Uuid} {reason : String}
    {keyId : Uuid} {actor : String} {c : Consensus}
    (h : resolve env db taskId gradeId reason keyId actor = .ok (db', c)) :
    ∃ row delivered task db₁ events, db.consensus.get taskId = some row ∧
      row.status = .adjudicating ∧ delivered ∈ gradesFor db taskId ∧ delivered.id = gradeId ∧
      db.tasks.get taskId = some task ∧
      (gradesFor db taskId).foldlM (resolveGrade env task delivered reason keyId actor) db =
        .ok db₁ ∧
      db' = { db₁ with
        tasks := db₁.tasks.update taskId (Task.withStatus .approved)
        consensus := db₁.consensus.update taskId
          (Consensus.adjudicate delivered.id keyId reason env.now)
        auditEvents := events } := by
  simp only [resolve, bind_ok_iff, orFail_ok_iff, require_ok_iff, exists_const, pure_ok_iff,
    Prod.mk.injEq] at h
  obtain ⟨_, row, hrow, hst, delivered, hdel, task, htask, db₁, hfold, rfl, _⟩ := h
  exact ⟨row, delivered, task, db₁, _, hrow, hst, List.mem_of_find?_eq_some hdel,
    by simpa using List.find?_some hdel, htask, hfold, rfl⟩

end Panelist
