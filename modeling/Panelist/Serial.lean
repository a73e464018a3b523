import Panelist.Alone
import Panelist.Sessions

/-! The two descriptions of the service agree: a transaction of the statement by statement model
that runs alone does to the database what the operation of `Service` does in one step, with the
same answer, and fails when that fails. -/
namespace Panelist
open Relational Transaction ReadCommitted ReadCommitted.Prog

section Answers
variable {ε α β : Type}

@[simp] theorem toOption_bind (m : Except ε α) (k : α → Except ε β) :
    (m >>= k).toOption = m.toOption.bind (fun a => (k a).toOption) := by
  cases m <;> rfl

@[simp] theorem toOption_map (m : Except ε α) (f : α → β) :
    (f <$> m).toOption = m.toOption.map f := by
  cases m <;> rfl

@[simp] theorem toOption_pure (a : α) : (pure a : Except ε α).toOption = some a := rfl

theorem toOption_error (e : ε) : (Except.error e : Except ε α).toOption = none := rfl

@[simp] theorem toOption_require (p : Prop) [Decidable p] (e : ε) :
    (require p e).toOption = if p then some () else none := by
  unfold require
  split_ifs <;> rfl

@[simp] theorem toOption_orFail (o : Option α) (e : ε) : (orFail o e).toOption = o := by
  cases o <;> rfl

theorem toOption_eq_some {m : Except ε α} {a : α} : m.toOption = some a ↔ m = .ok a := by
  cases m with
  | error e => exact iff_of_false (by simp [Except.toOption]) (by simp)
  | ok b => simp [Except.toOption]

theorem toOption_eq_none {m : Except ε α} (h : ∀ a, m ≠ .ok a) : m.toOption = none := by
  cases hm : m with
  | error e => rfl
  | ok a => exact absurd hm (h a)

end Answers

/-! ### One statement after another -/

section Steps
variable {α β : Type} {db : Db}

theorem demand_pos {p : Prop} [Decidable p] {k : Unit → Session β} (h : p) :
    (demand p >>= k).alone db = (k ()).alone db := by
  rw [alone_bind, alone_demand, if_pos h]
  rfl

theorem demand_neg {p : Prop} [Decidable p] {k : Unit → Session β} (h : ¬ p) :
    (demand p >>= k).alone db = none := by
  rw [alone_bind, alone_demand, if_neg h]
  rfl

theorem insert_none {keys : List Lock} {f : Db → Option Db} {k : Unit → Session β}
    (hkeys : keys ≠ [])
    (h : f db = none) : (Prog.insert keys f >>= k).alone db = none := by
  rw [alone_bind, alone_insert hkeys, h]
  rfl

theorem insert_some {keys : List Lock} {f : Db → Option Db} {k : Unit → Session β} {db' : Db}
    (hkeys : keys ≠ []) (h : f db = some db') :
    (Prog.insert keys f >>= k).alone db = (k ()).alone db' := by
  rw [alone_bind, alone_insert hkeys, h]
  rfl

end Steps

namespace Session

section Routing
variable {env : Env} {db : Db} {expert : Expert} {task : Task}

@[simp] theorem alone_log (actor action entityType entityId : String) (db : Db) :
    (Session.log actor action entityType entityId).alone db =
      some (record db actor action entityType entityId, ()) := rfl

@[simp] theorem alone_expert (expertId : Uuid) (db : Db) :
    (Session.expert expertId).alone db = (db.experts.get expertId).map (fun e => (db, e)) := by
  simp [Session.expert]

@[simp] theorem alone_lockTask (taskId : Uuid) (db : Db) :
    (lockTask taskId).alone db = some (db, db) := rfl

@[simp] theorem alone_reclaim (env : Env) (db : Db) :
    (Session.reclaimExpired env).alone db = some (Panelist.reclaimExpired env db) :=
  alone_updateTable Db.tasks (fun tasks db => { db with tasks := tasks }) Lock.task
    Task.reclaimed_keeps (fun _ _ => rfl) (fun _ _ _ => rfl) (fun _ => rfl) db

/-- The loaded count is the stored one. -/
theorem update_setServed (h : db.experts.get expert.id = some expert) :
    db.experts.update expert.id (setServed (expert.servedCount + 1)) (setServed_keeps _) =
      db.experts.update expert.id Expert.served :=
  db.experts.update_congr _ _ h rfl

theorem alone_assign (h : db.experts.get expert.id = some expert) :
    (Session.assign env task expert).alone db = some (Panelist.assign env db task expert) := by
  have hfound : expertExists expert.id db = true := by rw [expertExists, h]; rfl
  simp only [Session.assign, alone_bind, alone_updateRow, hfound, if_true, expertRow,
    update_setServed h, Option.bind_some, alone_set, taskRow, alone_log, alone_pure]
  rfl

@[simp] theorem alone_pick (expert : Expert) (want : Bool) (db : Db) :
    (Session.pick expert want).alone db = some (db, Panelist.pick db expert want) := by
  have hfirst : lockedTask ((candidates expert want db).map (fun t => Lock.task t.id)).head? db =
      (candidates expert want db).head? := by
    cases hc : (candidates expert want db).head? with
    | none => rw [List.head?_map, hc]; rfl
    | some t =>
      have hmem : t ∈ candidates expert want db := List.mem_of_head? hc
      have ht : t ∈ db.tasks := (List.mem_filter.mp ((List.mem_insertionSort _).mp hmem)).1
      rw [List.head?_map, hc]
      exact db.tasks.get_of_mem ht
  simp only [Session.pick, alone_bind, alone_claimFirst, Option.bind_some, alone_pure, hfirst]
  rfl

/-- Golden work first, when this serve prefers it. -/
theorem alone_candidate (env : Env) (expert : Expert) (db : Db) :
    ((if prefersAttentionCheck env expert.id (expert.servedCount + 1) then Session.pick expert true
        else pure none : Session (Option Task)) >>= fun golden =>
      (if golden.isSome then pure golden else Session.pick expert false :
        Session (Option Task))).alone db = some (db, claimCandidate env db expert) := by
  rw [alone_bind, claimCandidate]
  split_ifs
  · rw [alone_pick, Option.bind_some]
    cases Panelist.pick db expert true with
    | none => exact alone_pick expert false db
    | some t => rfl
  · exact alone_pick expert false db

theorem alone_claimNext (env : Env) (expertId : Uuid) (db : Db) :
    (Session.claimNext env expertId).alone db = (Panelist.claimNext env db expertId).toOption := by
  simp only [Session.claimNext, Panelist.claimNext, currentExpert, alone_bind, alone_expert,
    toOption_bind, toOption_orFail, alone_demand, toOption_require]
  cases he : db.experts.get expertId with
  | none => rfl
  | some expert =>
    simp only [Option.map_some, Option.bind_some]
    by_cases hactive : expert.status = .active
    · rw [if_pos hactive, if_pos hactive, Option.bind_some, Option.bind_some, alone_reclaim,
        Option.bind_some]
      -- the pick takes the first row nobody has locked, and alone nothing is locked
      have hpick := alone_candidate env expert (Panelist.reclaimExpired env db).1
      have hid : expert.id = expertId := Table.get_pk he
      have hstored : (Panelist.reclaimExpired env db).1.experts.get expert.id = some expert :=
        hid.symm ▸ he
      rw [alone_bind] at hpick
      rw [← Option.bind_assoc, hpick, Option.bind_some]
      cases hc : claimCandidate env (Panelist.reclaimExpired env db).1 expert with
      | none => rfl
      | some task =>
        simp only [alone_bind, alone_assign hstored, Option.bind_some, alone_pure]
        rfl
    · rw [if_neg hactive, if_neg hactive]
      rfl

theorem alone_claimById (env : Env) (expertId taskId : Uuid) (db : Db) :
    (Session.claimById env expertId taskId).alone db =
      (Panelist.claimById env db expertId taskId).toOption := by
  simp only [Session.claimById, Panelist.claimById, currentExpert, alone_bind, alone_expert,
    toOption_bind, toOption_orFail, alone_demand, toOption_require, alone_claimFirst,
    alone_demandSome, toOption_pure]
  cases he : db.experts.get expertId with
  | none => rfl
  | some expert =>
    simp only [Option.map_some, Option.bind_some]
    by_cases hactive : expert.status = .active
    · rw [if_pos hactive, if_pos hactive, Option.bind_some, Option.bind_some, alone_reclaim,
        Option.bind_some]
      have hid : expert.id = expertId := Table.get_pk he
      have hstored : (Panelist.reclaimExpired env db).1.experts.get expert.id = some expert :=
        hid.symm ▸ he
      -- the lock is asked for one task, and that is the row the service loads
      have hfirst : lockedTask (if taskExists taskId (Panelist.reclaimExpired env db).1 then
          [Lock.task taskId] else []).head? (Panelist.reclaimExpired env db).1 =
          (Panelist.reclaimExpired env db).1.tasks.get taskId := by
        rw [taskExists]
        cases hg : (Panelist.reclaimExpired env db).1.tasks.get taskId with
        | none => rfl
        | some t => exact hg
      simp only [hfirst]
      cases (Panelist.reclaimExpired env db).1.tasks.get taskId with
      | none => rfl
      | some task =>
        simp only [Option.map_some, Option.bind_some]
        split_ifs
        · exact alone_assign hstored
        all_goals rfl
    · rw [if_neg hactive, if_neg hactive]
      rfl

theorem alone_release (expertId taskId : Uuid) (db : Db) :
    (Session.release expertId taskId).alone db =
      (Panelist.release db expertId taskId).toOption := by
  simp only [Session.release, Panelist.release, currentExpert, alone_bind, alone_expert,
    toOption_bind, toOption_orFail, alone_demand, toOption_require, alone_lockTask,
    alone_demandSome, alone_set, alone_log, alone_pure, toOption_pure]
  cases db.experts.get expertId with
  | none => rfl
  | some expert =>
    simp only [Option.map_some, Option.bind_some]
    cases db.tasks.get taskId with
    | none => rfl
    | some task =>
      simp only [Option.map_some, Option.bind_some]
      split_ifs <;> rfl

end Routing

section Money
variable {env : Env} {db : Db} {expert : Expert} {task : Task}

theorem flushed_of_eq {α : Type} [DecidableEq α] {loaded new current : α} (h : current = loaded) :
    flushed loaded new current = new := by
  unfold flushed
  split_ifs with hsame
  · exact h.trans hsame.symm
  · rfl

theorem flushed_self {α : Type} [DecidableEq α] (loaded current : α) :
    flushed loaded loaded current = current := if_pos rfl

/-- The stored row has what a recalibration of the loaded `expert` compares with. -/
def Current (db : Db) (expert : Expert) : Prop :=
  ∃ x, db.experts.get expert.id = some x ∧ x.tier = expert.tier ∧
    x.calibrationScore = expert.calibrationScore ∧
    x.calibrationSamples = expert.calibrationSamples ∧ x.tierUpdatedAt = expert.tierUpdatedAt

theorem Current.of_get (h : db.experts.get expert.id = some expert) : Current db expert :=
  ⟨expert, h, rfl, rfl, rfl, rfl⟩

/-- `calibration.update` by whether it moves the tier. -/
theorem calibrationUpdate_row (env : Env) (db : Db) (expert : Expert) (actor : String) :
    calibrationUpdate env db expert actor =
      let rated := db.experts.update expert.id
        (Expert.calibrated (score env db expert.id).1 (score env db expert.id).2)
      match changeRow env db expert with
      | none => ({ db with experts := rated }, none)
      | some change =>
        (record { db with
          experts := rated.update expert.id (Expert.movedTo change.toTier env.now)
          tierChanges := db.tierChanges ++ [change] } actor "expert.tier" "expert" expert.id.str,
        some change) := by
  unfold calibrationUpdate changeRow tierMove
  cases hp : score env db expert.id with
  | mk rate samples =>
  cases rate with
  | none => rfl
  | some rate =>
    dsimp only
    split_ifs <;> rfl

theorem update_flush_calibrated (h : Current db expert) (rate : Option ℚ) (samples : ℕ) :
    db.experts.update expert.id (expert.flush (expert.calibrated rate samples))
        (expert.flush_keeps _) =
      db.experts.update expert.id (Expert.calibrated rate samples) := by
  obtain ⟨x, hx, -, hscore, hsamples, -⟩ := h
  refine db.experts.update_congr _ _ hx ?_
  simp only [Expert.flush, Expert.calibrated, flushed_of_eq hscore, flushed_of_eq hsamples,
    flushed_self]

theorem update_calibrated_same (h : Current db expert) {rate : Option ℚ} {samples : ℕ}
    (hrate : rate = expert.calibrationScore) (hcount : samples = expert.calibrationSamples) :
    db.experts.update expert.id (Expert.calibrated rate samples) = db.experts := by
  obtain ⟨x, hx, -, hscore, hsamples, -⟩ := h
  refine db.experts.update_self (fun y hy => ?_)
  obtain rfl := Option.some.inj (hx.symm.trans hy)
  rw [hrate, hcount, ← hscore, ← hsamples]
  rfl

theorem update_flush_moved (h : Current db expert) (rate : Option ℚ) (samples : ℕ) (tier : Tier)
    (now : Time) :
    db.experts.update expert.id (expert.flush ((expert.calibrated rate samples).movedTo tier now))
        (expert.flush_keeps _) =
      (db.experts.update expert.id (Expert.calibrated rate samples)).update expert.id
        (Expert.movedTo tier now) := by
  obtain ⟨x, hx, htier, hscore, hsamples, hmoved⟩ := h
  have hboth := db.experts.update_update expert.id (Expert.calibrated rate samples)
    (Expert.movedTo tier now) (fun _ => rfl) (fun _ => rfl)
  refine (db.experts.update_congr _ _ hx ?_).trans hboth.symm
  simp only [Expert.flush, Expert.movedTo, Expert.calibrated, flushed_of_eq htier,
    flushed_of_eq hscore, flushed_of_eq hsamples, flushed_of_eq hmoved]

/-- A recalibration of an expert that was loaded before. -/
theorem alone_calibrate (h : Current db expert) (actor : String) :
    (Session.calibrate env expert actor).alone db =
      some ((calibrationUpdate env db expert actor).1,
        (calibrationUpdate env db expert actor).2, (score env db expert.id).2) := by
  have hfound : expertExists expert.id db = true := by
    obtain ⟨x, hx, -⟩ := h
    rw [expertExists, hx]
    rfl
  -- the session decides on what it read, before it writes
  have hread : (Session.calibrate env expert actor).alone db =
      Prog.alone (match changeRow env db expert with
        | none => do
          Prog.when ((score env db expert.id).1 ≠ expert.calibrationScore ∨
              (score env db expert.id).2 ≠ expert.calibrationSamples)
            (updateRow (.expert expert.id) (expertExists expert.id)
              (expertRow (expert.flush (expert.calibrated (score env db expert.id).1
                (score env db expert.id).2)) (expert.flush_keeps _) expert.id))
          pure (none, (score env db expert.id).2)
        | some change => do
          updateRow (.expert expert.id) (expertExists expert.id)
            (expertRow (expert.flush ((expert.calibrated (score env db expert.id).1
              (score env db expert.id).2).movedTo change.toTier env.now)) (expert.flush_keeps _)
              expert.id)
          Prog.set (fun db => { db with tierChanges := db.tierChanges ++ [change] })
          Session.log actor "expert.tier" "expert" expert.id.str
          pure (some change, (score env db expert.id).2) : Session (Option TierChange × ℕ)) db := by
    rw [changeRow_eq]
    rfl
  rw [hread, calibrationUpdate_row]
  cases changeRow env db expert with
  | none =>
    simp only [alone_bind, alone_when, alone_updateRow, hfound, if_true, alone_pure, expertRow,
      update_flush_calibrated h]
    -- nothing to flush when score and sample count are as stored
    split_ifs with hchanged
    · rfl
    · rw [not_or, not_not, not_not] at hchanged
      rw [update_calibrated_same h hchanged.1 hchanged.2]
      rfl
  | some change =>
    simp only [alone_bind, alone_updateRow, hfound, if_true, alone_set, alone_log, alone_pure,
      Option.bind_some, expertRow, update_flush_moved h]

@[simp] theorem alone_rateFor (expert : Expert) (taskType : String) (db : Db) :
    (Session.rateFor expert taskType).alone db =
      (Panelist.rateFor db expert taskType).toOption.map (fun rate => (db, rate)) := by
  unfold Session.rateFor Panelist.rateFor
  cases expert.taskRateCents with
  | some cents => rfl
  | none =>
    simp only [alone_bind, alone_see, Option.bind_some, toOption_bind, toOption_orFail,
      toOption_pure]
    cases db.rateCards.get (expert.tier, taskType) with
    | some card => rfl
    | none =>
      simp only [alone_bind, alone_see, Option.bind_some, alone_demandSome, alone_pure,
        Option.none_or]
      cases db.rateCards.get (expert.tier, "default") <;> rfl

theorem alone_createForGrade {grade : Grade} (h : db.experts.get grade.expertId = some expert)
    (actor : String) (fraction : ℚ) :
    (Session.createForGrade env grade expert task actor fraction).alone db =
      (Panelist.createForGrade env db grade task actor fraction).toOption := by
  unfold Session.createForGrade Panelist.createForGrade
  simp only [alone_bind, alone_see, Option.bind_some, toOption_bind, toOption_orFail, h]
  cases db.payouts.get grade.id with
  | some existing => rfl
  | none =>
    simp only [alone_bind, alone_rateFor, toOption_bind, toOption_orFail, toOption_pure]
    cases (Panelist.rateFor db expert task.taskType).toOption with
    | none => rfl
    | some rate =>
      rw [Option.map_some, Option.bind_some, Option.bind_some, alone_insert (by simp), addPayout,
        toOption_require]
      simp only [newPayout]
      -- the amount is stored or not, the insert succeeds or not, the counter takes it or not
      generalize payoutAmount rate fraction = amount
      by_cases hstored : storableInt amount
      · simp only [hstored, if_true, Option.bind_some]
        cases db.payouts.insert _ with
        | none => rfl
        | some payouts =>
          simp only [Option.map_some, Option.bind_some, toOption_require]
          by_cases hpos : 0 ≤ amount
          · simp only [hpos, if_true]
            rfl
          · simp only [hpos, if_false]
            rfl
      · simp only [hstored, if_false]
        rfl

end Money

section Submission
variable {env : Env} {db : Db} {expert : Expert} {task : Task}

theorem alone_consensusEvaluate (env : Env) (taskId : Uuid) (db : Db) :
    (Session.consensusEvaluate env taskId).alone db =
      (Panelist.consensusEvaluate env db taskId).toOption.map (fun p => (p.1, ())) := by
  have hread : (Session.consensusEvaluate env taskId).alone db = Prog.alone
      (if (unrejected db taskId).length < 2 then pure ()
        else do
          Prog.when ((newRound env taskId (unrejected db taskId)).status ≠ .agreed)
            (Prog.set (taskRow (Task.withStatus .adjudication) (Task.withStatus_keeps _) taskId))
          Prog.insert [.consensus (newRound env taskId (unrejected db taskId)).taskId]
            (addRound (newRound env taskId (unrejected db taskId)))
          Session.log "system"
            s!"consensus.{(newRound env taskId (unrejected db taskId)).status.value}" "task"
            taskId.str : Session Unit) db := rfl
  rw [hread, Panelist.consensusEvaluate]
  split_ifs with hfew
  · rfl
  simp only [alone_bind, alone_when, alone_set, alone_log, toOption_bind, toOption_orFail,
    toOption_pure, taskRow]
  -- an agreed round leaves the task; a split one marks it first
  by_cases hagreed : (newRound env taskId (unrejected db taskId)).status = .agreed
  · rw [if_neg (not_not.mpr hagreed), if_pos hagreed, Option.bind_some, alone_insert (by simp),
      addRound]
    cases db.consensus.insert _ <;> rfl
  · rw [if_pos hagreed, if_neg hagreed, Option.bind_some, alone_insert (by simp), addRound]
    cases db.consensus.insert _ <;> rfl

theorem alone_enforce (h : db.experts.get expert.id = some expert) :
    (Session.enforce env expert).alone db = some (Panelist.enforce env db expert) := by
  have hfound : expertExists expert.id db = true := by rw [expertExists, h]; rfl
  -- row by row with nobody else committing, the UPDATE is the one of the service
  have hwithhold : ∀ db : Db, Prog.alone (updateWhere Lock.payout
      (fun db => (db.payouts.rows.filter (Payout.ofExpert expert.id .pending)).map Payout.gradeId)
      (fun gradeId db => (db.payouts.get gradeId).any (Payout.ofExpert expert.id .pending))
      (fun gradeId db => { db with
        payouts := db.payouts.update gradeId Payout.withhold Payout.withhold_keeps })) db =
      some ({ db with
        payouts := db.payouts.updateWhere (Payout.ofExpert expert.id .pending) Payout.withhold },
        (db.payouts.rows.filter (Payout.ofExpert expert.id .pending)).length) := fun db =>
    alone_updateTable Db.payouts (fun payouts db => { db with payouts := payouts }) Lock.payout
      Payout.withhold_keeps (fun _ _ => rfl) (fun _ _ _ => rfl) (fun _ => rfl) db
  unfold Session.enforce Panelist.enforce
  simp only [alone_bind, alone_see, Option.bind_some]
  split_ifs
  · rfl
  · rfl
  · simp only [alone_bind, alone_updateRow, hfound, if_true, hwithhold, alone_log, alone_pure,
      Option.bind_some]
    rfl

/-- The guard writes nothing a recalibration compares with. -/
theorem Current.enforce (h : db.experts.get expert.id = some expert) :
    Current (Panelist.enforce env db expert).1 expert := by
  rcases enforce_cases env db expert with hsame | ⟨-, events, hpaused⟩
  · rw [hsame]
    exact Current.of_get h
  · rw [hpaused]
    have hget :=
      db.experts.get_update expert.id (Expert.withStatus .paused) (fun _ => rfl) expert.id
    rw [if_pos rfl, h] at hget
    exact ⟨expert.withStatus .paused, hget, rfl, rfl, rfl, rfl⟩

/-- The guard after a failed check, and the recalibration. -/
theorem alone_guarded (h : db.experts.get expert.id = some expert) (passed : Bool) :
    (((if passed then pure false else Session.enforce env expert : Session Bool).alone db).bind
      (fun x => ((Session.calibrate env expert "system").alone x.1).bind
        (fun y => (pure x.2 : Session Bool).alone y.1))).map Prod.fst =
      some (calibrationUpdate env (if passed then db else (Panelist.enforce env db expert).1)
        expert "system").1 := by
  cases passed with
  | true =>
    rw [if_pos rfl, if_pos rfl, alone_pure, Option.bind_some, alone_calibrate (Current.of_get h)]
    rfl
  | false =>
    rw [if_neg Bool.false_ne_true, if_neg Bool.false_ne_true, alone_enforce h, Option.bind_some,
      alone_calibrate (Current.enforce h)]
    rfl

theorem alone_checkGrade {grade : Grade} (h : db.experts.get expert.id = some expert) :
    ((Session.checkGrade env expert task grade).alone db).map Prod.fst =
      (Panelist.checkGrade env db expert task grade).toOption := by
  unfold Session.checkGrade Panelist.checkGrade attentionEvaluate
  cases task.expected with
  | none => rfl
  | some expected =>
    simp only [alone_bind, toOption_bind, toOption_orFail, toOption_pure]
    rw [alone_insert (by simp), addResult]
    simp only [newResult]
    cases hi : db.attentionResults.insert _ with
    | none => rfl
    | some results =>
      simp only [Option.map_some, Option.bind_some]
      have hstored : ({ db with attentionResults := results } : Db).experts.get expert.id =
          some expert := h
      exact alone_guarded hstored _

theorem alone_roundIfComplete (env : Env) (task : Task) (db : Db) :
    (Prog.when (task.graded.status = .submitted) (Session.consensusEvaluate env task.id)).alone db =
      (roundIfComplete env db task).toOption.map (fun db => (db, ())) := by
  rw [alone_when, roundIfComplete]
  split_ifs
  · rw [alone_consensusEvaluate, toOption_map, Option.map_map]
    rfl
  · rfl

/-- The steps of `submit` after the grade is stored. -/
theorem alone_settle {grade : Grade} (h : db.experts.get expert.id = some expert) :
    ((do
      Prog.set (taskRow Task.graded Task.graded_keeps task.id)
      Prog.when (task.graded.status = .submitted) (Session.consensusEvaluate env task.id)
      Session.log s!"expert:{expert.id.str}" "grade.submitted" "grade" grade.id.str
      let paused ← Session.checkGrade env expert task grade
      pure ⟨grade, paused⟩ : Session Submission).alone db).map (fun x => (x.1, x.2.grade)) =
      (settleGrade env db expert task grade).toOption.map (fun db => (db, grade)) := by
  rw [settleGrade, toOption_bind, alone_bind, alone_set, Option.bind_some, alone_bind,
    alone_roundIfComplete]
  cases hround :
      roundIfComplete env { db with tasks := db.tasks.update task.id Task.graded } task with
  | error f =>
    have hnone :
        (roundIfComplete env (taskRow Task.graded Task.graded_keeps task.id db) task).toOption
        = none := congrArg Except.toOption hround
    rw [hnone]
    rfl
  | ok db₁ =>
    have hsome :
        (roundIfComplete env (taskRow Task.graded Task.graded_keeps task.id db) task).toOption
        = some db₁ := congrArg Except.toOption hround
    obtain ⟨tasks, consensus, events, -, rfl⟩ := roundIfComplete_ok db hround
    rw [hsome, Option.map_some, Option.bind_some, alone_bind, alone_log, Option.bind_some,
      alone_bind]
    -- the check sees the grade, the task and the round, and reads the same author
    have hcheck := @alone_checkGrade env (record { db with
      tasks := tasks
      consensus := consensus
      auditEvents := events } s!"expert:{expert.id.str}" "grade.submitted" "grade" grade.id.str)
      expert task grade h
    show _ = (Panelist.checkGrade env _ expert task grade).toOption.map _
    rw [← hcheck, Option.map_map]
    cases Prog.alone (Session.checkGrade env expert task grade) _ <;> rfl

theorem alone_submit (env : Env) (expertId : Uuid) (body : GradeCreate) (db : Db) :
    ((Session.submit env expertId body).alone db).map (fun x => (x.1, x.2.grade)) =
      (Panelist.submit env db expertId body).toOption := by
  unfold Session.submit Panelist.submit
  -- check by check in the order of the source, the failing side first
  by_cases hrationale : 1 ≤ body.rationale.length
  swap
  · rw [demand_neg hrationale, require_neg hrationale, toOption_error]
    rfl
  rw [demand_pos hrationale, require_pos hrationale, alone_bind, alone_expert, currentExpert,
    toOption_bind, toOption_orFail]
  cases he : db.experts.get expertId with
  | none => rfl
  | some expert =>
  have hid : expert.id = expertId := Table.get_pk he
  rw [Option.map_some, Option.bind_some, Option.bind_some, alone_bind, alone_lockTask,
    Option.bind_some, alone_bind, alone_demandSome, toOption_bind, toOption_orFail]
  cases ht : db.tasks.get body.taskId with
  | none => rfl
  | some task =>
  rw [Option.map_some, Option.bind_some, Option.bind_some]
  by_cases hheld : task.status = .assigned ∧ task.assignedExpertId = some expert.id
  swap
  · rw [demand_neg hheld, require_neg hheld, toOption_error]
    rfl
  rw [demand_pos hheld, require_pos hheld, alone_bind, alone_see, Option.bind_some, alone_bind,
    alone_demandSome, toOption_bind, toOption_orFail]
  cases hr : db.rubrics.get task.gradingRubricId with
  | none => rfl
  | some rubric =>
  rw [Option.map_some, Option.bind_some, Option.bind_some]
  by_cases hnamed : ∀ r ∈ body.rubricId, r = rubric.id
  swap
  · rw [demand_neg hnamed, require_neg hnamed, toOption_error]
    rfl
  rw [demand_pos hnamed, require_pos hnamed]
  dsimp only
  by_cases hkeys : sortedDiff ((criteriaOf db rubric.id).map RubricCriterion.key)
      (body.scores.rows.map Prod.fst) = [] ∧
    sortedDiff (body.scores.rows.map Prod.fst)
      ((criteriaOf db rubric.id).map RubricCriterion.key) = []
  swap
  · rw [demand_neg hkeys, require_neg hkeys, toOption_error]
    rfl
  rw [demand_pos hkeys, require_pos hkeys]
  cases hscale : outOfScale (criteriaOf db rubric.id) body.scores with
  | some bad =>
    rw [demand_neg (by simp)]
    rfl
  | none =>
  rw [demand_pos (by simp)]
  rw [toOption_bind, toOption_orFail]
  -- the unique constraint
  cases hi : db.grades.insert (newGrade env expert task rubric (criteriaOf db rubric.id) body) with
  | none =>
    rw [insert_none (by simp) (by rw [addGrade, hi]; rfl)]
    show none = (db.grades.insert
      (newGrade env expert task rubric (criteriaOf db rubric.id) body)).bind _
    rw [hi]
    rfl
  | some grades =>
    rw [insert_some (by simp) (by rw [addGrade, hi]; rfl)]
    show _ = (db.grades.insert
      (newGrade env expert task rubric (criteriaOf db rubric.id) body)).bind _
    rw [hi, Option.bind_some, toOption_bind]
    have hstored : ({ db with grades := grades } : Db).experts.get expert.id = some expert :=
      hid.symm ▸ he
    exact (alone_settle hstored).trans Option.map_eq_bind

end Submission

section Reviews
variable {env : Env} {db : Db} {expert : Expert} {task : Task} {grade : Grade}

/-- The columns a flush of a loaded task writes, when the row is still the loaded one. -/
theorem update_flush_task (h : db.tasks.get task.id = some task) (new : Task) {f : Task → Task}
    (hf : Table.Keeps f) (hnew : f task = { task with
      status := new.status
      gradesReceived := new.gradesReceived }) :
    db.tasks.update task.id (task.flush new) (task.flush_keeps new) =
      db.tasks.update task.id f hf := by
  refine db.tasks.update_congr _ _ h ?_
  simp only [Task.flush, flushed_of_eq rfl, hnew]

theorem alone_reviewTask (h : db.tasks.get task.id = some task) (decision : ReviewDecision)
    (actor : String) : (Session.reviewTask task decision actor).alone db =
      some (Panelist.reviewTask db task decision actor, ()) := by
  have happroved := update_flush_task h (task.withStatus .approved)
    (Task.withStatus_keeps .approved) rfl
  have hrejected := update_flush_task h (task.withStatus .rejected)
    (Task.withStatus_keeps .rejected) rfl
  have hrequeued := update_flush_task h task.requeued (f := Task.requeued) (fun _ => rfl) rfl
  unfold Session.reviewTask Panelist.reviewTask
  split_ifs
  · rfl
  · rw [alone_set, taskRow, happroved]
  · rw [alone_bind, alone_set, Option.bind_some, alone_log, taskRow, hrequeued]
    rfl
  · rw [alone_set, taskRow, hrejected]
  · rfl

theorem alone_redeliver (task : Task) (rejected : Grade) (actor : String) (db : Db) :
    (Session.redeliver task rejected actor).alone db =
      some (Panelist.redeliver db task rejected actor, ()) := by
  unfold Session.redeliver Panelist.redeliver
  rw [alone_bind, alone_forUpdate, Option.bind_some]
  cases db.consensus.get task.id with
  | none => rfl
  | some row =>
    dsimp only
    split_ifs
    · rfl
    · rfl

theorem alone_reviewPayout (h : db.experts.get grade.expertId = some expert)
    (decision : ReviewDecision) (actor : String) :
    ((Session.reviewPayout env grade expert task decision actor).alone db).map Prod.fst =
      (Panelist.reviewPayout env db grade task decision actor).toOption := by
  unfold Session.reviewPayout Panelist.reviewPayout
  split_ifs
  · rw [alone_bind, alone_createForGrade h, toOption_map]
    cases (Panelist.createForGrade env db grade task actor 1).toOption <;> rfl
  · rfl

/-- The steps of `review` after the verdict is stored. -/
theorem alone_decided {verdict : Review} (he : db.experts.get grade.expertId = some expert)
    (ht : db.tasks.get task.id = some task) (decision : ReviewDecision) (actor action : String) :
    ((do
      let payout ← Session.reviewPayout env grade expert task decision actor
      Session.reviewTask task decision actor
      Prog.when (decision = .reject) (Session.redeliver task grade actor)
      Session.log actor action "grade" grade.id.str
      let _ ← Session.calibrate env expert actor
      pure (verdict, payout) : Session (Review × Option Payout)).alone db).map
        (fun x => (x.1, x.2.1)) =
      ((do
        let db ← Panelist.reviewPayout env db grade task decision actor
        let db := Panelist.reviewTask db task decision actor
        let db := if decision = .reject then Panelist.redeliver db task grade actor else db
        let db := record db actor action "grade" grade.id.str
        let expert ← orFail (db.experts.get grade.expertId) (.integrity "grades_expert_id_fkey")
        pure ((calibrationUpdate env db expert actor).1, verdict) :
          Except Failure (Db × Review))).toOption := by
  have hpayout :
      ((Session.reviewPayout env grade expert task decision actor).alone db).map Prod.fst =
      (Panelist.reviewPayout env db grade task decision actor).toOption :=
    alone_reviewPayout he decision actor
  rw [alone_bind, toOption_bind]
  cases hs : (Session.reviewPayout env grade expert task decision actor).alone db with
  | none =>
    rw [hs] at hpayout
    rw [← hpayout]
    rfl
  | some x =>
  obtain ⟨db₁, payout⟩ := x
  rw [hs, Option.map_some] at hpayout
  dsimp only at hpayout
  obtain ⟨payouts, events, -, hdb₁⟩ := reviewPayout_ok (toOption_eq_some.mp hpayout.symm)
  have ht₁ : db₁.tasks.get task.id = some task := by rw [hdb₁]; exact ht
  have he₁ : db₁.experts.get grade.expertId = some expert := by rw [hdb₁]; exact he
  rw [← hpayout, Option.bind_some, Option.bind_some, alone_bind]
  dsimp only
  rw [alone_reviewTask ht₁, Option.bind_some, alone_bind, alone_when, alone_redeliver]
  -- what is written from here on leaves the experts as they are
  have he₂ :
      (Panelist.reviewTask db₁ task decision actor).experts.get grade.expertId = some expert := by
    rw [reviewTask_eq ht₁]
    exact he₁
  generalize Panelist.reviewTask db₁ task decision actor = db₂ at he₂ ⊢
  have hwhen : (if decision = .reject then some (Panelist.redeliver db₂ task grade actor, ())
      else some (db₂, ())) =
      some (if decision = .reject then Panelist.redeliver db₂ task grade actor else db₂, ()) := by
    split_ifs <;> rfl
  have he₃ : (if decision = .reject then Panelist.redeliver db₂ task grade actor
      else db₂).experts.get grade.expertId = some expert := by
    split_ifs
    · rw [redeliver_eq]
      exact he₂
    · exact he₂
  rw [hwhen, Option.bind_some]
  generalize (if decision = .reject then Panelist.redeliver db₂ task grade actor else db₂) = db₃
    at he₃ ⊢
  have hid : expert.id = grade.expertId := Table.get_pk he₃
  have hcurrent : Current (record db₃ actor action "grade" grade.id.str) expert :=
    Current.of_get (by rw [hid]; exact he₃)
  rw [alone_bind, alone_log, Option.bind_some, alone_bind, alone_calibrate hcurrent]
  show _ = Except.toOption (orFail (db₃.experts.get grade.expertId) _ >>= _)
  rw [he₃]
  rfl

theorem alone_review (env : Env) (keyId : Uuid) (body : ReviewCreate) (actor : String) (db : Db) :
    ((Session.review env keyId body actor).alone db).map (fun x => (x.1, x.2.1)) =
      (Panelist.review env db keyId body actor).toOption := by
  unfold Session.review
  rw [alone_bind, alone_forUpdate, Option.bind_some, alone_bind, alone_demandSome]
  cases hg : db.grades.get body.gradeId with
  -- where a row is missing neither side gets to its end
  | none =>
    rw [Panelist.review, hg]
    rfl
  | some grade =>
  rw [Option.map_some, Option.bind_some, alone_bind, alone_see, Option.bind_some, alone_bind,
    alone_demandSome]
  cases ht : db.tasks.get grade.taskId with
  | none =>
    rw [toOption_eq_none]
    · rfl
    rintro ⟨db', v⟩ hr
    obtain ⟨g, task, _, _, _, _, hg', ht', -⟩ := review_calibrates hr
    obtain rfl := Option.some.inj (hg.symm.trans hg')
    exact absurd (ht.symm.trans ht') (by simp)
  | some task =>
  rw [Option.map_some, Option.bind_some, alone_bind, alone_expert]
  cases he : db.experts.get grade.expertId with
  | none =>
    rw [toOption_eq_none]
    · rfl
    rintro ⟨db', v⟩ hr
    obtain ⟨g, _, _, _, expert, _, hg', -, -, -, -, -, he', -⟩ := review_calibrates hr
    obtain rfl := Option.some.inj (hg.symm.trans hg')
    exact absurd (he.symm.trans he') (by simp)
  | some expert =>
  have htask : db.tasks.get task.id = some task := by
    have hid : task.id = grade.taskId := Table.get_pk ht
    rw [hid, ht]
  rw [Option.map_some, Option.bind_some, alone_bind, alone_see, Option.bind_some, Panelist.review,
    hg]
  show _ = Except.toOption (require ((db.reviews.get grade.id).isNone = true) _ >>= _)
  by_cases hfresh : (db.reviews.get grade.id).isNone = true
  swap
  · rw [demand_neg hfresh, require_neg hfresh, toOption_error]
    rfl
  rw [demand_pos hfresh, require_pos hfresh, ht]
  show _ = Except.toOption (rejectIfConsensusPending task >>= _)
  cases hallow : rejectIfConsensusPending task with
  | error f =>
    rw [demand_neg (by simp [Except.isOk, Except.toBool])]
    rfl
  -- past the checks the two differ only in how often rows are loaded
  | ok u =>
  rw [demand_pos (p := (Except.ok u).isOk = true) rfl]
  dsimp only
  show _ = Except.toOption (require (Review.storable _) _ >>= _)
  by_cases hs : Review.storable ⟨grade.id, keyId, body.decision, body.reason, env.now⟩
  swap
  · rw [insert_none (by simp) (by rw [addReview, if_neg hs]), require_neg hs, toOption_error]
    rfl
  rw [require_pos hs, toOption_bind, toOption_orFail]
  cases hi : db.reviews.insert ⟨grade.id, keyId, body.decision, body.reason, env.now⟩ with
  | none =>
    rw [insert_none (by simp) (by rw [addReview, if_pos hs, hi]; rfl)]
    rfl
  | some reviews =>
  rw [insert_some (by simp) (by rw [addReview, if_pos hs, hi]; rfl), alone_bind, alone_lockTask,
    Option.bind_some, Option.bind_some]
  have hexpert : ({ db with reviews := reviews } : Db).experts.get grade.expertId = some expert :=
    he
  exact alone_decided hexpert htask body.decision actor _

theorem alone_resolvePayout (h : db.experts.get grade.expertId = some expert) (delivered : Grade)
    (actor : String) : (Session.resolvePayout env grade delivered expert task actor).alone db =
      (Panelist.resolvePayout env db task delivered grade actor).toOption.map
        (fun db => (db, ())) := by
  unfold Session.resolvePayout Panelist.resolvePayout
  -- the delivered grade is paid in full, the others by the rule
  split_ifs
  · rw [alone_bind, alone_createForGrade h, toOption_map]
    cases (Panelist.createForGrade env db grade task actor 1).toOption <;> rfl
  · rw [toOption_map]
    unfold Session.outvotedPayout Panelist.outvotedPayout
    cases env.settings.consensusOutvotedPayout with
    | none => rfl
    | full =>
      dsimp only
      rw [alone_bind, alone_createForGrade h, toOption_bind]
      cases (Panelist.createForGrade env db grade task actor 1).toOption <;> rfl
    | part =>
      dsimp only
      rw [alone_bind, alone_createForGrade h, toOption_bind]
      cases (Panelist.createForGrade env db grade task actor
        env.settings.consensusOutvotedRate).toOption <;> rfl

/-- One pass of the loop in `resolve`, for an expert whose row is still the loaded one. -/
theorem alone_resolveGrade {loaded : Db} {delivered : Grade} {reason : String} {keyId : Uuid}
    {actor : String} (h : db.experts.get grade.expertId = loaded.experts.get grade.expertId) :
    (Session.resolveGrade env loaded task delivered reason keyId actor grade).alone db =
      (Panelist.resolveGrade env task delivered reason keyId actor db grade).toOption.map
        (fun db => (db, ())) := by
  unfold Session.resolveGrade
  rw [alone_bind, alone_demandSome, ← h]
  cases he : db.experts.get grade.expertId with
  -- the session loads the author before the review is stored; both refuse
  | none =>
    rw [toOption_eq_none]
    · rfl
    intro db' hr
    obtain ⟨_, _, expert, _, -, -, he', -⟩ := resolveGrade_calibrates hr
    exact absurd (he.symm.trans he') (by simp)
  | some expert =>
  rw [Option.map_some, Option.bind_some, Panelist.resolveGrade]
  by_cases hs : (verdict env delivered reason keyId grade).storable
  swap
  · rw [insert_none (by simp) (by rw [addReview, if_neg hs]), require_neg hs, toOption_error]
    rfl
  rw [require_pos hs, toOption_bind, toOption_orFail]
  cases hi : db.reviews.insert (verdict env delivered reason keyId grade) with
  | none =>
    rw [insert_none (by simp) (by rw [addReview, if_pos hs, hi]; rfl)]
    rfl
  | some reviews =>
  rw [insert_some (by simp) (by rw [addReview, if_pos hs, hi]; rfl), Option.bind_some, alone_bind]
  have he₁ : ({ db with reviews := reviews } : Db).experts.get grade.expertId = some expert := he
  rw [alone_resolvePayout he₁, toOption_bind]
  cases hpay :
      Panelist.resolvePayout env { db with reviews := reviews } task delivered grade actor with
  | error f => rfl
  | ok db₁ =>
  obtain ⟨payouts, events, -, hdb₁⟩ := resolvePayout_ok hpay
  have he₂ : db₁.experts.get grade.expertId = some expert := by rw [hdb₁]; exact he
  have hid : expert.id = grade.expertId := Table.get_pk he
  -- neither the review nor the payout changed the author
  have hcurrent : Current db₁ expert := Current.of_get (by rw [hid, he₂])
  show Prog.alone (Session.calibrate env expert actor >>= _) db₁ = Option.map _ (Except.toOption
    (orFail (db₁.experts.get grade.expertId) _ >>= _))
  rw [alone_bind, alone_calibrate hcurrent, he₂]
  rfl

/-- The loop of `resolve`: no grade changes the row of the author of a later one. -/
theorem alone_resolveLoop {loaded : Db} {delivered : Grade} {reason : String} {keyId : Uuid}
    {actor : String} {grades : List Grade}
    (hgrades : grades.Pairwise (fun a b => a.expertId ≠ b.expertId))
    (h : ∀ g ∈ grades, db.experts.get g.expertId = loaded.experts.get g.expertId) :
    (grades.foldlM (fun _ grade =>
        Session.resolveGrade env loaded task delivered reason keyId actor grade) ()).alone db =
      (grades.foldlM (Panelist.resolveGrade env task delivered reason keyId actor) db).toOption.map
        (fun db => (db, ())) := by
  induction grades generalizing db with
  | nil => rfl
  | cons g grades ih =>
    obtain ⟨hfirst, hrest⟩ := List.pairwise_cons.mp hgrades
    rw [List.foldlM_cons, List.foldlM_cons, alone_bind, toOption_bind,
      alone_resolveGrade (h g List.mem_cons_self)]
    cases hg : Panelist.resolveGrade env task delivered reason keyId actor db g with
    | error f => rfl
    | ok db₁ =>
    -- only the author of this grade is written
    have hkept : ∀ g' ∈ grades, db₁.experts.get g'.expertId = loaded.experts.get g'.expertId := by
      intro g' hg'
      obtain ⟨_, _, expert, src, _, _, -, -, he, hdb₁⟩ := resolveGrade_ok hg
      have hid : expert.id = g.expertId := Table.get_pk he
      have hget := db.experts.get_update expert.id (recalibrated env src expert)
        (recalibrated_keeps env src expert) g'.expertId
      rw [hdb₁]
      refine (hget.trans (if_neg ?_)).trans (h g' (List.mem_cons_of_mem g hg'))
      rw [hid]
      exact hfirst g' hg'
    exact ih hrest hkept

theorem alone_resolve (env : Env) (taskId deliveredGradeId : Uuid) (reason : String) (keyId : Uuid)
    (actor : String) (db : Db) :
    (Session.resolve env taskId deliveredGradeId reason keyId actor).alone db =
      (Panelist.resolve env db taskId deliveredGradeId reason keyId actor).toOption := by
  unfold Session.resolve Panelist.resolve
  by_cases hreason : 1 ≤ reason.length
  swap
  · rw [demand_neg hreason, require_neg hreason, toOption_error]
  rw [demand_pos hreason, require_pos hreason, alone_bind, alone_forUpdate, Option.bind_some,
    alone_bind, alone_demandSome, toOption_bind, toOption_orFail]
  cases hrow : db.consensus.get taskId with
  | none => rfl
  | some row =>
  rw [Option.map_some, Option.bind_some, Option.bind_some, alone_bind, alone_see, Option.bind_some,
    alone_bind, alone_demandSome]
  cases ht : db.tasks.get taskId with
  -- the session reads the task before it checks the status; both refuse
  | none =>
    dsimp only
    by_cases hopen : row.status = .adjudicating
    · rw [require_pos hopen, toOption_bind, toOption_orFail]
      cases (gradesFor db taskId).find? (fun g => g.id = deliveredGradeId) <;> rfl
    · rw [require_neg hopen, toOption_error]
      rfl
  | some task =>
  rw [Option.map_some, Option.bind_some]
  dsimp only
  by_cases hopen : row.status = .adjudicating
  swap
  · rw [demand_neg hopen, require_neg hopen, toOption_error]
  rw [demand_pos hopen, require_pos hopen, alone_bind, alone_see, Option.bind_some, alone_bind,
    alone_see, Option.bind_some, alone_bind, alone_demandSome, toOption_bind, toOption_orFail]
  dsimp only
  cases hd : (gradesFor db taskId).find? (fun g => g.id = deliveredGradeId) with
  | none => rfl
  | some delivered =>
  rw [Option.map_some, Option.bind_some, Option.bind_some, alone_bind, alone_lockTask,
    Option.bind_some, alone_bind, toOption_bind, toOption_orFail, Option.bind_some, toOption_bind,
    alone_resolveLoop (gradesFor_experts db taskId) (fun g hg => rfl)]
  cases hloop : (gradesFor db taskId).foldlM
      (Panelist.resolveGrade env task delivered reason keyId actor) db with
  | error f => rfl
  | ok db₁ =>
  have hid : task.id = taskId := Table.get_pk ht
  -- the flush writes the status into the row the loop left as it was
  have hflush :
      db₁.tasks.update taskId (task.flush (task.withStatus .approved)) (task.flush_keeps _) =
      db₁.tasks.update taskId (Task.withStatus .approved) (Task.withStatus_keeps .approved) := by
    obtain ⟨_, _, _, _, _, -, -, -, hdb₁⟩ := resolveLoop_ok (gradesFor_experts db taskId) hloop
    have ht₁ : db₁.tasks.get task.id = some task := by rw [hdb₁, hid]; exact ht
    rw [← hid]
    exact update_flush_task ht₁ (task.withStatus .approved) (Task.withStatus_keeps .approved) rfl
  simp only [Except.toOption, Option.map_some, Option.bind_some, alone_bind, alone_set, alone_log,
    alone_pure, taskRow, hflush]
  rfl

end Reviews

section Operations
variable {env : Env} {db : Db}

theorem alone_retarget (previousId newId : Uuid) (db : Db) :
    Prog.alone (updateWhere Lock.task
      (fun db => (db.tasks.rows.filter (Task.untouchedOn previousId)).map Task.id)
      (fun id db => (db.tasks.get id).any (Task.untouchedOn previousId))
      (taskRow (Task.retargeted newId) (fun _ => rfl))) db =
      some ({ db with
        tasks := db.tasks.updateWhere (Task.untouchedOn previousId) (Task.retargeted newId) },
        (db.tasks.rows.filter (Task.untouchedOn previousId)).length) :=
  alone_updateTable Db.tasks (fun tasks db => { db with tasks := tasks }) Lock.task
    (f := Task.retargeted newId) (fun _ => rfl) (fun _ _ => rfl) (fun _ _ _ => rfl)
    (fun _ => rfl) db

theorem alone_publish (env : Env) (previousId : Uuid) (criteria : List CriterionIn) (actor : String)
    (db : Db) : (Session.publish env previousId criteria actor).alone db =
      (Panelist.publish env db previousId criteria actor).toOption := by
  unfold Session.publish Panelist.publish
  by_cases hvalid : validCriteria criteria
  swap
  · rw [demand_neg hvalid, require_neg hvalid, toOption_error]
  rw [demand_pos hvalid, require_pos hvalid, alone_bind, alone_see, Option.bind_some, alone_bind,
    alone_demandSome, toOption_bind, toOption_orFail]
  cases hp : db.rubrics.get previousId with
  | none => rfl
  | some previous =>
  rw [Option.map_some, Option.bind_some, Option.bind_some]
  dsimp only
  by_cases hcurrent : previous.supersededAt = none
  swap
  · rw [demand_neg hcurrent, require_neg hcurrent, toOption_error]
  rw [demand_pos hcurrent, require_pos hcurrent, alone_bind, alone_see, Option.bind_some,
    toOption_bind, addRubric, toOption_bind, toOption_orFail]
  dsimp only
  cases hr : db.rubrics.insert
    ⟨env.uuid4 0, previous.name, latestVersion db previous + 1, none, none⟩ with
  | none =>
    rw [insert_none (by simp) (by rw [addVersion, hr]; rfl)]
    rfl
  | some rubrics =>
  rw [insert_some (by simp) (by rw [addVersion, hr]; rfl), Option.bind_some, toOption_bind,
    toOption_orFail]
  -- the criteria are not empty, so the insert of their rows takes a lock
  have hkeys :
      (criterionRows env (env.uuid4 0) criteria).map (fun c => Lock.criterion c.id) ≠ [] := by
    simp [criterionRows, hvalid.1]
  cases hc : db.rubricCriteria.insertAll (criterionRows env (env.uuid4 0) criteria) with
  | none =>
    rw [insert_none hkeys (by rw [addCriteria, hc]; rfl)]
    rfl
  | some rows =>
  rw [insert_some hkeys (by rw [addCriteria, hc]; rfl)]
  have hid : previous.id = previousId := Table.get_pk hp
  -- the new version leaves the previous one in the table
  have hfound : (rubrics.get previous.id).isSome = true := by
    have hkept : rubrics.get previousId = some previous := Table.get_insert_of_some hr hp
    rw [hid, hkept]
    rfl
  simp only [alone_bind, alone_updateRow, hfound, if_true, Option.bind_some]
  rw [alone_retarget]
  rfl

/-- The loop of `tick`, over experts that are all loaded before it. -/
theorem alone_tickExperts {actor : String} {experts : List Expert}
    (hids : (experts.map Expert.id).Nodup)
    (h : ∀ e ∈ experts, db.experts.get e.id = some e) (moves : List TierMove) (n : ℕ) :
    (experts.foldlM (Session.tickExpert env actor) (moves, n)).alone db =
      some (experts.foldl (Panelist.tickExpert env actor) (db, moves, n)) := by
  induction experts generalizing db moves n with
  | nil => rfl
  | cons e experts ih =>
    obtain ⟨hfresh, hrest⟩ := List.nodup_cons.mp hids
    have hcurrent : Current db e := Current.of_get (h e List.mem_cons_self)
    have hfirst : (Session.tickExpert env actor (moves, n) e).alone db =
        some (Panelist.tickExpert env actor (db, moves, n) e) := by
      rw [Session.tickExpert, alone_bind, alone_calibrate hcurrent]
      rfl
    -- a pass writes the row of its own expert only
    have hkept : ∀ e' ∈ experts,
        (Panelist.tickExpert env actor (db, moves, n) e).1.experts.get e'.id = some e' := by
      intro e' he'
      obtain ⟨changes, events, hu⟩ := calibrationUpdate_eq env db e actor
      have hne : e.id ≠ e'.id := fun hsame => hfresh (hsame ▸ List.mem_map_of_mem he')
      have hget :=
        db.experts.get_update e.id (recalibrated env db e) (recalibrated_keeps env db e) e'.id
      show (calibrationUpdate env db e actor).1.experts.get e'.id = some e'
      rw [hu]
      exact (hget.trans (if_neg hne)).trans (h e' (List.mem_cons_of_mem e he'))
    rw [List.foldlM_cons, alone_bind, hfirst, Option.bind_some, List.foldl_cons]
    exact ih hrest hkept _ _

theorem alone_tick (env : Env) (actor : String) (db : Db) :
    (Session.tick env actor).alone db = (Panelist.tick env db actor).toOption := by
  have hperm := List.perm_insertionSort (fun a b : Expert => a.name.toList ≤ b.name.toList)
    (Panelist.reclaimExpired env db).1.experts.rows
  have hids : (((Panelist.reclaimExpired env db).1.experts.rows.insertionSort
      (fun a b => a.name.toList ≤ b.name.toList)).map Expert.id).Nodup := by
    refine (hperm.map Expert.id).nodup_iff.mpr ?_
    refine (Panelist.reclaimExpired env db).1.experts.nodup.map_on (fun e he e' he' hsame => ?_)
    exact (Panelist.reclaimExpired env db).1.experts.eq_of_pk he he' hsame
  have hstored : ∀ e ∈ (Panelist.reclaimExpired env db).1.experts.rows.insertionSort
      (fun a b => a.name.toList ≤ b.name.toList),
      (Panelist.reclaimExpired env db).1.experts.get e.id = some e := by
    intro e he
    exact (Panelist.reclaimExpired env db).1.experts.get_of_mem (hperm.mem_iff.mp he)
  rw [Session.tick, alone_bind, alone_reclaim, Option.bind_some, alone_bind, alone_see,
    Option.bind_some, alone_bind, alone_tickExperts hids hstored, Option.bind_some]
  rfl

end Operations

end Session

/-! ### Serial schedules of the service -/

/-- The operations that are written to run side by side. -/
inductive Contender where
  | claimNext (expertId : Uuid)
  | claimById (expertId taskId : Uuid)
  | release (expertId taskId : Uuid)
  | reclaim
  | submit (expertId : Uuid) (body : GradeCreate)
  | review (keyId : Uuid) (body : ReviewCreate) (actor : String)
  | resolve (taskId deliveredGradeId : Uuid) (reason : String) (keyId : Uuid) (actor : String)
  | publish (rubricId : Uuid) (criteria : List CriterionIn) (actor : String)
  | tick (actor : String)

/-- The operation of the service. -/
def Contender.op : Contender → Op
  | .claimNext expertId => .claimNext expertId
  | .claimById expertId taskId => .claimById expertId taskId
  | .release expertId taskId => .release expertId taskId
  | .reclaim => .reclaim
  | .submit expertId body => .submit expertId body
  | .review keyId body actor => .review keyId body actor
  | .resolve taskId gradeId reason keyId actor => .resolve taskId gradeId reason keyId actor
  | .publish rubricId criteria actor => .publish rubricId criteria actor
  | .tick actor => .tick actor

def replies {α : Type} (f : α → Response) (p : Session α) : Session Response := do
  let a ← p
  pure (f a)

/-- The transaction of a call. -/
def Contender.session (env : Env) : Contender → Session Response
  | .claimNext expertId => replies .claimed (Session.claimNext env expertId)
  | .claimById expertId taskId =>
    replies (fun t => .claimed (some t)) (Session.claimById env expertId taskId)
  | .release expertId taskId => replies (fun _ => .done) (Session.release expertId taskId)
  | .reclaim => replies .count (Session.reclaimExpired env)
  | .submit expertId body => replies (fun s => .grade s.grade) (Session.submit env expertId body)
  | .review keyId body actor => replies (fun v => .review v.1) (Session.review env keyId body actor)
  | .resolve taskId gradeId reason keyId actor =>
    replies .round (Session.resolve env taskId gradeId reason keyId actor)
  | .publish rubricId criteria actor =>
    replies (fun p => .published p.1 p.2.1 p.2.2) (Session.publish env rubricId criteria actor)
  | .tick actor => replies .report (Session.tick env actor)

theorem alone_replies {α : Type} (f : α → Response) (p : Session α) (db : Db) :
    (replies f p).alone db = (p.alone db).map (fun x => (x.1, f x.2)) := by
  rw [replies, alone_bind]
  cases p.alone db <;> rfl

theorem toOption_answer {α : Type} (f : α → Response) (m : Except Failure (Db × α)) :
    (answer f m).toOption = m.toOption.map (fun x => (x.1, f x.2)) := toOption_map m _

/-- A transaction that runs alone is the operation of the service. -/
theorem alone_session (env : Env) (c : Contender) (db : Db) :
    (c.session env).alone db = (step ⟨env, c.op⟩ db).toOption := by
  -- each operation is the session of its name; what is left is how the answer is wrapped
  cases c with
  | claimNext expertId =>
    simp only [Contender.session, Contender.op, step, alone_replies, toOption_answer,
      Session.alone_claimNext]
  | claimById expertId taskId =>
    simp only [Contender.session, Contender.op, step, alone_replies, toOption_answer,
      Session.alone_claimById]
  | release expertId taskId =>
    simp only [Contender.session, Contender.op, step, alone_replies, toOption_answer,
      Session.alone_release]
  | reclaim =>
    simp only [Contender.session, Contender.op, step, alone_replies, toOption_answer,
      Session.alone_reclaim, toOption_pure]
  | submit expertId body =>
    simp only [Contender.session, Contender.op, step, alone_replies, toOption_answer]
    rw [← Session.alone_submit, Option.map_map]
    rfl
  | review keyId body actor =>
    simp only [Contender.session, Contender.op, step, alone_replies, toOption_answer]
    rw [← Session.alone_review, Option.map_map]
    rfl
  | resolve taskId gradeId reason keyId actor =>
    simp only [Contender.session, Contender.op, step, alone_replies, toOption_answer,
      Session.alone_resolve]
  | publish rubricId criteria actor =>
    simp only [Contender.session, Contender.op, step, alone_replies, toOption_answer,
      Session.alone_publish]
  | tick actor =>
    simp only [Contender.session, Contender.op, step, alone_replies, toOption_answer,
      Session.alone_tick]

/-- The answers of the requests of a run that succeed. -/
def answers : Db → List Request → List Response
  | _, [] => []
  | db, r :: rs =>
    match step r db with
    | .ok (db', x) => x :: answers db' rs
    | .error _ => answers db rs

section Schedules
variable {ι : Type} [DecidableEq ι]

/-- The transaction of a call, with the clock and the settings it reads. -/
def sessionOf (call : Env × Contender) : Session Response := call.2.session call.1

def requestOf (call : Env × Contender) : Request := ⟨call.1, call.2.op⟩

theorem run_whole (calls : List (Env × Contender)) (db : Db) :
    run (whole sessionOf) db calls = run step db (calls.map requestOf) := by
  induction calls generalizing db with
  | nil => rfl
  | cons call calls ih =>
    have hcommit : commit (whole sessionOf) call db = commit step (requestOf call) db := by
      have halone : (sessionOf call).alone db = (step (requestOf call) db).toOption :=
        alone_session call.1 call.2 db
      rw [commit, commit, whole, halone]
      cases step (requestOf call) db <;> rfl
    rw [List.map_cons, run_cons, run_cons, hcommit]
    exact ih _

theorem traceWhole_answers (calls : List (Env × Contender)) (db : Db) :
    (traceWhole sessionOf db calls).map (fun x => x.2.1) = answers db (calls.map requestOf) := by
  induction calls generalizing db with
  | nil => rfl
  | cons call calls ih =>
    have halone : (sessionOf call).alone db = (step (requestOf call) db).toOption :=
      alone_session call.1 call.2 db
    rw [List.map_cons, traceWhole, answers, halone]
    cases step (requestOf call) db with
    | error f => exact ih db
    | ok x =>
      obtain ⟨db', a⟩ := x
      exact congrArg (List.cons a) (ih db')

/-- Transactions that do not overlap are the service: whatever the calls are, a schedule that
gives each transaction its turns before the next one starts commits the database, and answers
what the operations of the service answer one after another. -/
theorem serial_committed (calls : List (ι × Env × Contender)) (base : Db)
    (hcalls : (calls.map Prod.fst).Nodup) : ∃ n, ∀ m, n ≤ m →
      now base (committed sessionOf base (serial m calls)) =
          run step base (calls.map (fun x => requestOf x.2)) ∧
        (committed sessionOf base (serial m calls)).map Entry.answer =
          answers base (calls.map (fun x => requestOf x.2)) := by
  obtain ⟨n, c', hrun, hbase, htrace, hstore⟩ :=
    serial_run sessionOf calls hcalls (Config.init base)
    (fun _ _ => rfl) (fun _ => rfl)
  have hrequests : (calls.map Prod.snd).map requestOf = calls.map (fun x => requestOf x.2) := by
    rw [List.map_map]
    rfl
  refine ⟨n, fun m hm => ?_⟩
  rw [committed, hrun m hm]
  -- the database, then the answers
  constructor
  · have hnow : now base c'.log = c'.store := by rw [Config.store, hbase]; rfl
    rw [hnow, hstore, run_whole, hrequests]
    rfl
  · have hanswers : c'.log.map Entry.answer = (trace c'.log).map (fun x => x.2.1) := by
      rw [trace, List.map_map]
      rfl
    rw [hanswers, htrace, List.map_append, traceWhole_answers, hrequests]
    rfl

end Schedules

/-- Two queued tasks. -/
def Scenario.queued : Db :=
  after (Scenario.setup ++ [Scenario.call 5 (.createTasks [Scenario.task, Scenario.task] "admin")])

open Scenario in
/-- Two experts claim one after another, and each gets a task. -/
theorem serial_committed_claims :
    (run step queued [call 6 (.claimNext 300), call 7 (.claimNext 400)]).tasks.rows.map
        Task.assignedExpertId = [some 300, some 400] ∧
    ∃ n, ∀ m, n ≤ m →
      now queued (committed sessionOf queued
          (serial m [(1, env 6, .claimNext 300), (2, env 7, .claimNext 400)])) =
        run step queued [call 6 (.claimNext 300), call 7 (.claimNext 400)] ∧
      (committed sessionOf queued
          (serial m [(1, env 6, .claimNext 300), (2, env 7, .claimNext 400)])).map Entry.answer =
        answers queued [call 6 (.claimNext 300), call 7 (.claimNext 400)] :=
  ⟨by decide +kernel,
    serial_committed [(1, env 6, .claimNext 300), (2, env 7, .claimNext 400)] queued (by decide)⟩

end Panelist
