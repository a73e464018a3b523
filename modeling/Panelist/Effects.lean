import Panelist.Service

/-! What a request can write. Every successful request is a sequence of the
elementary effects below, so a property of the database that each of them
preserves holds in every reachable state. -/
namespace Panelist
open Relational Transaction

/-- One elementary write of the request `r`, with the guards it was made under. -/
inductive Effect (r : Request) (db : Db) : Db → Prop
  /-- Tables no other effect reads for its guards: histories, cards, keys, exports. -/
  | logged (changes : List TierChange) (cards : Table RateCard) (results : Table AttentionResult)
      (events : List AuditEvent) (keys : Table ApiKey) (deliveries : Table Delivery) :
      Effect r db { db with
        tierChanges := changes
        rateCards := cards
        attentionResults := results
        auditEvents := events
        apiKeys := keys
        deliveries := deliveries }
  | rubricAdded {rubric : Rubric} {criteria : List CriterionIn} {rubrics : Table Rubric}
      {rows : Table RubricCriterion} (hr : db.rubrics.insert rubric = some rubrics)
      (hc : db.rubricCriteria.insertAll (criterionRows r.env rubric.id criteria) = some rows) :
      Effect r db { db with rubrics := rubrics, rubricCriteria := rows }
  | superseded (previousId newId : Uuid) :
      Effect r db { db with
        rubrics := db.rubrics.update previousId (Rubric.superseded r.env.now newId) }
  | joined {e : Expert} {experts : Table Expert} (hs : e.status = .active)
      (hi : db.experts.insert e = some experts) : Effect r db { db with experts := experts }
  | recalibrated {experts : Table Expert} (h : Recalibrates db.experts experts) :
      Effect r db { db with experts := experts }
  | paused {e : Expert} {expertId : Uuid} {body : GradeCreate} (hop : r.op = .submit expertId body)
      (he : db.experts.get e.id = some e) (hs : e.status ≠ .paused) :
      Effect r db { db with
        experts := db.experts.update e.id (Expert.withStatus .paused)
        payouts := db.payouts.updateWhere (Payout.ofExpert e.id .pending) Payout.withhold }
  | statusSet {e : Expert} {status : ExpertStatus} {actor : String}
      (hop : r.op = .setStatus e.id status actor) (he : db.experts.get e.id = some e) :
      Effect r db { db with
        experts := db.experts.update e.id (Expert.withStatus status)
        payouts := payoutsAfterStatus db e status }
  | queued {body : List TaskCreate} {tasks : Table Task} (hv : validTasks body)
      (hi : db.tasks.insertAll (taskRows r.env db.taskSeq body) = some tasks) :
      Effect r db { db with tasks := tasks, taskSeq := db.taskSeq + body.length }
  | reclaimed :
      Effect r db { db with
        tasks := db.tasks.updateWhere (Task.leaseExpired r.env.now) Task.reclaimed }
  | released {e : Expert} {task : Task} (hop : r.op = .release e.id task.id)
      (ht : db.tasks.get task.id = some task) (hs : task.status = .assigned)
      (hh : task.assignedExpertId = some e.id) :
      Effect r db { db with tasks := db.tasks.update task.id Task.unassigned }
  | claimed {e : Expert} {task : Task} (he : db.experts.get e.id = some e)
      (ha : e.status = .active) (ht : db.tasks.get task.id = some task)
      (hs : task.status = .queued) (htags : overlap task.requiredTags e.tags = true)
      (htier : task.minTier.rank ≤ e.tier.rank)
      (hfree : alreadyGraded db task.id e.id = false ∨ r.op = .claimById e.id task.id) :
      Effect r db { db with
        tasks := db.tasks.update task.id (Task.assignTo r.env e.id)
        experts := db.experts.update e.id Expert.served }
  | retargeted (previousId newId : Uuid) :
      Effect r db { db with
        tasks := db.tasks.updateWhere (Task.untouchedOn previousId) (Task.retargeted newId) }
  | graded {e : Expert} {task : Task} {rubric : Rubric} {grade : Grade} {grades : Table Grade}
      {tasks : Table Task} {consensus : Table Consensus} {body : GradeCreate}
      (hop : r.op = .submit e.id body) (he : db.experts.get e.id = some e)
      (ht : db.tasks.get task.id = some task) (hs : task.status = .assigned)
      (hh : task.assignedExpertId = some e.id) (hrub : db.rubrics.get rubric.id = some rubric)
      (hg : grade = ⟨r.env.uuid4 0, task.id, e.id, rubric.id, body.scores, body.rationale,
        body.timeSpentSeconds, weightedScore (criteriaOf db rubric.id) body.scores, r.env.now,
        gradeScores (criteriaOf db rubric.id) body.scores⟩)
      (hi : db.grades.insert grade = some grades)
      (hc : Rounds r.env { db with grades := grades } task tasks consensus) :
      Effect r db { db with grades := grades, tasks := tasks, consensus := consensus }
  | reviewed {grade : Grade} {task : Task} {v : Review} {reviews : Table Review}
      {payouts : Table Payout} {keyId : Uuid} {body : ReviewCreate} {actor : String}
      (hop : r.op = .review keyId body actor) (hb : body.gradeId = grade.id)
      (hg : db.grades.get grade.id = some grade) (htask : task.id = grade.taskId)
      (ht : db.tasks.get task.id = some task) (hallow : rejectIfConsensusPending task = .ok ())
      (hv : v = ⟨grade.id, keyId, body.decision, body.reason, r.env.now⟩)
      (hi : db.reviews.insert v = some reviews)
      (hp : Payments r.env db task (reviewShare v.decision) [grade] db.payouts payouts) :
      Effect r db { db with
        reviews := reviews
        payouts := payouts
        tasks := db.tasks.update task.id (Task.reviewed v.decision) (Task.reviewed_keeps _)
        consensus := db.consensus.update task.id
          (Consensus.afterReview v.decision grade.id
            (repick { db with reviews := reviews } task.id)) (Consensus.afterReview_keeps _ _ _) }
  | adjudicated {row : Consensus} {task : Task} {delivered : Grade} {reviews : Table Review}
      {payouts : Table Payout} {reason : String} {keyId : Uuid} {actor : String}
      (hop : r.op = .resolve task.id delivered.id reason keyId actor)
      (hrow : db.consensus.get task.id = some row) (hs : row.status = .adjudicating)
      (hd : delivered ∈ gradesFor db task.id) (ht : db.tasks.get task.id = some task)
      (hi : db.reviews.insertAll ((gradesFor db task.id).map
        (verdict r.env delivered reason keyId)) = some reviews)
      (hp : Payments r.env db task (resolveShare r.env.settings delivered)
        (gradesFor db task.id) db.payouts payouts) :
      Effect r db { db with
        reviews := reviews
        payouts := payouts
        tasks := db.tasks.update task.id (Task.withStatus .approved)
        consensus := db.consensus.update task.id
          (Consensus.adjudicate delivered.id keyId reason r.env.now) }
  | closed {period : PayoutPeriod} {periods : Table PayoutPeriod} {actor : String}
      (hop : r.op = .closePeriod period.label actor)
      (hi : db.payoutPeriods.insert period = some periods) :
      Effect r db { db with
        payoutPeriods := periods
        payouts := db.payouts.updateWhere Payout.due (Payout.paidIn period.id r.env.now) }

/-- What a request writes before it commits. -/
abbrev Effects (r : Request) : Db → Db → Prop := Relation.ReflTransGen (Effect r)

open Relation (ReflTransGen)

section Requests
variable {r : Request} {db db' : Db}

theorem logged_audit {events : List AuditEvent} :
    Effects r db { db with auditEvents := events } :=
  .single (.logged db.tierChanges db.rateCards db.attentionResults events db.apiKeys db.deliveries)

theorem logged_keys {events : List AuditEvent} {keys : Table ApiKey} :
    Effects r db { db with apiKeys := keys, auditEvents := events } :=
  .single (.logged db.tierChanges db.rateCards db.attentionResults events keys db.deliveries)

theorem claimed_effects {e : Expert} {task : Task} (he : db.experts.get e.id = some e)
    (ha : e.status = .active) (ht : (reclaimExpired r.env db).1.tasks.get task.id = some task)
    (hs : task.status = .queued) (htags : overlap task.requiredTags e.tags = true)
    (htier : task.minTier.rank ≤ e.tier.rank)
    (hfree : alreadyGraded db task.id e.id = false ∨ r.op = .claimById e.id task.id) :
    Effects r db (assign r.env (reclaimExpired r.env db).1 task e).1 :=
  .head .reclaimed (.head (.claimed he ha ht hs htags htier hfree) logged_audit)

theorem claimNext_effects {expertId : Uuid} {t : Option Task}
    (h : claimNext r.env db expertId = .ok (db', t)) : Effects r db db' := by
  obtain ⟨e, he, ha, ⟨rfl, _⟩ | ⟨task, htask, helig, hassign⟩⟩ := claimNext_ok h
  · exact .single .reclaimed
  · obtain ⟨hs, htags, htier, hfree⟩ := eligibility_iff.mp helig
    obtain rfl := congrArg Prod.fst hassign
    obtain rfl := Table.get_pk he
    exact claimed_effects he ha (Table.get_of_mem _ htask) hs htags htier (Or.inl hfree)

theorem claimById_effects {expertId taskId : Uuid} {t : Task}
    (hop : r.op = .claimById expertId taskId)
    (h : claimById r.env db expertId taskId = .ok (db', t)) : Effects r db db' := by
  obtain ⟨e, task, he, ha, ht, hs, htags, htier, hassign⟩ := claimById_ok_iff.mp h
  obtain rfl := congrArg Prod.fst hassign
  obtain rfl := Table.get_pk he
  obtain rfl := Table.get_pk ht
  exact claimed_effects he ha ht hs htags htier (Or.inr hop)

theorem release_effects {expertId taskId : Uuid} {t : Task} (hop : r.op = .release expertId taskId)
    (h : release db expertId taskId = .ok (db', t)) : Effects r db db' := by
  obtain ⟨e, task, he, ht, hs, hh, rfl⟩ := release_ok h
  obtain rfl := Table.get_pk he
  obtain rfl := Table.get_pk ht
  exact .head (.released hop ht hs hh) logged_audit

theorem submit_effects {expertId : Uuid} {body : GradeCreate} {grade : Grade}
    (hop : r.op = .submit expertId body) (h : submit r.env db expertId body = .ok (db', grade)) :
    Effects r db db' := by
  obtain ⟨e, task, rubric, grades, tasks, consensus, events, he, ht, hs, hh, hrub, hg, hi, hc,
    hcheck⟩ := submit_ok h
  obtain ⟨results, changes, events', experts, payouts, hguard, experts', hcal, rfl⟩ :=
    checkGrade_ok hcheck
  obtain rfl := Table.get_pk he
  have htid : task.id = body.taskId := Table.get_pk ht
  have hrid : rubric.id = task.gradingRubricId := Table.get_pk hrub
  rw [← htid] at ht
  rw [← hrid] at hrub
  refine .head (.graded hop he ht hs hh hrub hg hi hc)
    (.head (.logged changes db.rateCards results events' db.apiKeys db.deliveries) ?_)
  rcases hguard with ⟨rfl, rfl⟩ | ⟨hst, rfl, rfl⟩
  · exact .single (.recalibrated hcal)
  · exact .head (.paused hop he hst) (.single (.recalibrated hcal))

theorem review_effects {keyId : Uuid} {body : ReviewCreate} {actor : String} {v : Review}
    (hop : r.op = .review keyId body actor) (h : review r.env db keyId body actor = .ok (db', v)) :
    Effects r db db' := by
  obtain ⟨grade, task, reviews, payouts, experts, changes, events, hg, ht, hallow, hv, hi, hp, hcal,
    rfl⟩ := review_ok h
  have hgid : grade.id = body.gradeId := Table.get_pk hg
  have htid : task.id = grade.taskId := Table.get_pk ht
  rw [← hgid] at hg
  rw [← htid] at ht
  exact .head (.reviewed hop hgid.symm hg htid ht hallow hv hi hp)
    (.head (.recalibrated hcal) (.single (.logged changes db.rateCards db.attentionResults events
      db.apiKeys db.deliveries)))

/-- Grades of one task are by different experts. -/
theorem gradesFor_experts (db : Db) (taskId : Uuid) :
    (gradesFor db taskId).Pairwise (fun a b => a.expertId ≠ b.expertId) := by
  refine ((gradesFor_perm db taskId).pairwise_iff (fun h => h.symm)).mpr ?_
  refine (List.Pairwise.filter _ db.grades.distinct).imp_of_mem (fun {a b} ha hb hn he => hn ?_)
  have ha' : a.taskId = taskId := by simpa using (List.mem_filter.mp ha).2
  have hb' : b.taskId = taskId := by simpa using (List.mem_filter.mp hb).2
  exact Or.inr (Prod.ext (ha'.trans hb'.symm) he)

theorem resolve_effects {taskId gradeId : Uuid} {reason : String} {keyId : Uuid} {actor : String}
    {c : Consensus} (hop : r.op = .resolve taskId gradeId reason keyId actor)
    (h : resolve r.env db taskId gradeId reason keyId actor = .ok (db', c)) : Effects r db db' := by
  obtain ⟨row, delivered, task, db₁, events, hrow, hs, hd, rfl, ht, hloop, rfl⟩ := resolve_ok h
  obtain ⟨reviews, payouts, experts, changes, events', hi, hp, hcal, rfl⟩ :=
    resolveLoop_ok (gradesFor_experts db taskId) hloop
  obtain rfl := Table.get_pk ht
  exact .head (.adjudicated hop hrow hs hd ht hi hp) (.head (.recalibrated hcal)
    (.single (.logged changes db.rateCards db.attentionResults events db.apiKeys db.deliveries)))

theorem publish_effects {previousId : Uuid} {criteria : List CriterionIn} {actor : String}
    {rubric : Rubric} {counts : ℕ × ℕ}
    (h : publish r.env db previousId criteria actor = .ok (db', rubric, counts)) :
    Effects r db db' := by
  obtain ⟨previous, db₁, events, _, _, _, hadd, rfl⟩ := publish_ok h
  obtain ⟨rubrics, rows, hr, hc, rfl⟩ := addRubric_ok hadd
  exact .head (.rubricAdded hr hc) (.head (.superseded previous.id rubric.id)
    (.head (.retargeted previous.id rubric.id) logged_audit))

theorem tick_effects {actor : String} {report : TickReport}
    (h : tick r.env db actor = .ok (db', report)) : Effects r db db' := by
  obtain ⟨experts, changes, events, hcal, rfl⟩ := tick_ok h
  exact .head .reclaimed (.head (.recalibrated hcal)
    (.single (.logged changes db.rateCards db.attentionResults events db.apiKeys db.deliveries)))

theorem answer_ok {α : Type} {f : α → Response} {m : Except Failure (Db × α)} {x : Response}
    (h : answer f m = .ok (db', x)) : ∃ a, m = .ok (db', a) ∧ x = f a := by
  obtain ⟨⟨d, a⟩, hm, he⟩ := map_ok_iff.mp h
  obtain ⟨rfl, rfl⟩ := Prod.mk.inj he
  exact ⟨a, hm, rfl⟩

/-- A successful request is a sequence of effects. -/
theorem step_effects {x : Response} (h : step r db = .ok (db', x)) : Effects r db db' := by
  cases hop : r.op
  all_goals
    simp only [step, hop] at h
    obtain ⟨a, h, -⟩ := answer_ok h
  case createExpert =>
    obtain ⟨experts, events, hs, hi, rfl⟩ := createExpert_ok h
    exact .head (.joined hs hi) logged_audit
  case setStatus =>
    obtain ⟨e, events, he, rfl⟩ := setStatus_ok h
    obtain rfl := Table.get_pk he
    exact .head (.statusSet hop he) logged_audit
  -- keys, cards and deliveries are columns that `logged` leaves free
  case createKey =>
    obtain ⟨keys, events, rfl⟩ := createKey_ok h
    exact logged_keys
  case createExpertKey =>
    obtain ⟨keys, events, rfl⟩ := createExpertKey_ok h
    exact logged_keys
  case revokeKey =>
    obtain ⟨keys, events, rfl⟩ := revokeKey_ok h
    exact logged_keys
  case bootstrap =>
    obtain ⟨keys, rfl⟩ := bootstrap_ok h
    exact logged_keys
  case createRubric =>
    obtain ⟨db₁, events, hadd, _, rfl⟩ := createRubric_ok h
    obtain ⟨rubrics, rows, hr, hc, rfl⟩ := addRubric_ok hadd
    exact .head (.rubricAdded hr hc) logged_audit
  case publish => exact publish_effects h
  case putRateCards =>
    obtain ⟨events, rfl⟩ := putRateCards_ok h
    exact .single (.logged db.tierChanges _ db.attentionResults events db.apiKeys db.deliveries)
  case createTasks =>
    obtain ⟨tasks, events, hv, _, _, _, hi, rfl⟩ := createTasks_ok h
    exact .head (.queued hv hi) logged_audit
  case claimNext => exact claimNext_effects h
  case claimById => exact claimById_effects hop h
  case release => exact release_effects hop h
  case reclaim =>
    obtain rfl := congrArg Prod.fst (pure_ok_iff.mp h)
    exact .single .reclaimed
  case submit => exact submit_effects hop h
  case review => exact review_effects hop h
  case resolve => exact resolve_effects hop h
  case closePeriod =>
    obtain ⟨periods, events, rfl, hi, rfl⟩ := closePeriod_ok h
    exact .head (.closed hop hi) logged_audit
  case exportDelivery =>
    obtain ⟨deliveries, events, _, _, rfl⟩ := exportDelivery_ok h
    exact .single
      (.logged db.tierChanges db.rateCards db.attentionResults events db.apiKeys deliveries)
  case tick => exact tick_effects h

end Requests

/-! ### From effects to runs -/

section Runs
variable {P : Db → Prop}

theorem effects_preserve {r : Request} (hP : ∀ {db db'}, P db → Effect r db db' → P db')
    {db db' : Db} (h : Effects r db db') (hdb : P db) : P db' := by
  induction h with
  | refl => exact hdb
  | tail _ hlast ih => exact hP ih hlast

/-- What the empty database has and every effect preserves holds after every run. -/
theorem after_invariant (hP : ∀ {r db db'}, P db → Effect r db db' → P db') (h0 : P .empty)
    (rs : List Request) : P (after rs) :=
  run_invariant step (fun _ _ _ _ hdb h => effects_preserve hP (step_effects h) hdb) h0 rs

/-- Every further request of a run keeps what every effect preserves. -/
theorem after_append_invariant (hP : ∀ {r db db'}, P db → Effect r db db' → P db')
    {rs : List Request} (h : P (after rs)) (qs : List Request) : P (after (rs ++ qs)) := by
  rw [after, run_append]
  exact run_invariant step (fun _ _ _ _ hdb h => effects_preserve hP (step_effects h) hdb) h qs

end Runs

end Panelist
