import Panelist.Entries

/-! The audit trail: which requests change an entity and leave no event that says so. -/
namespace Panelist
open Relational Transaction

/-- The trail of `db'` continues the one of `db`. -/
def Continues (db db' : Db) : Prop := ∃ new, db'.auditEvents = db.auditEvents ++ new

/-- At least one event has been appended. -/
def Recorded (db db' : Db) : Prop := ∃ e new, db'.auditEvents = db.auditEvents ++ e :: new

/-- None of the tables of the entities has changed. -/
structure SameEntities (db db' : Db) : Prop where
  experts : db'.experts = db.experts
  tasks : db'.tasks = db.tasks
  rubrics : db'.rubrics = db.rubrics
  rateCards : db'.rateCards = db.rateCards
  grades : db'.grades = db.grades
  reviews : db'.reviews = db.reviews
  consensus : db'.consensus = db.consensus
  payouts : db'.payouts = db.payouts
  payoutPeriods : db'.payoutPeriods = db.payoutPeriods
  deliveries : db'.deliveries = db.deliveries
  apiKeys : db'.apiKeys = db.apiKeys

section Trails
variable {db db' db'' : Db}

/-- Whatever the services do, the trail is only appended to. -/
theorem Grows.continues (h : Grows db db') : Continues db db' := by
  obtain ⟨new, hnew⟩ := h.events
  exact ⟨new, hnew.symm⟩

theorem Continues.trans (h : Continues db db') (h' : Continues db' db'') : Continues db db'' := by
  obtain ⟨new, hnew⟩ := h
  obtain ⟨new', hnew'⟩ := h'
  exact ⟨new ++ new', by rw [hnew', hnew, List.append_assoc]⟩

theorem Continues.of_eq (h : db'.auditEvents = db.auditEvents) : Continues db db' :=
  ⟨[], by rw [h, List.append_nil]⟩

theorem Continues.congr (h : Continues db' db'') (he : db'.auditEvents = db.auditEvents) :
    Continues db db'' := (Continues.of_eq he).trans h

theorem Recorded.continues (h : Recorded db db') : Continues db db' := by
  obtain ⟨e, new, hnew⟩ := h
  exact ⟨e :: new, hnew⟩

theorem Recorded.trans (h : Recorded db db') (h' : Continues db' db'') : Recorded db db'' := by
  obtain ⟨e, new, hnew⟩ := h
  obtain ⟨new', hnew'⟩ := h'
  exact ⟨e, new ++ new', by rw [hnew', hnew, List.append_assoc, List.cons_append]⟩

theorem recorded_record (h : Continues db db') (actor action entityType entityId : String) :
    Recorded db (record db' actor action entityType entityId) := by
  obtain ⟨new, hnew⟩ := h
  have hadd : ∃ e rest, new ++ [⟨actor, action, entityType, entityId⟩] = e :: rest :=
    List.exists_cons_of_ne_nil (List.append_ne_nil_of_right_ne_nil _ (List.cons_ne_nil _ _))
  obtain ⟨e, rest, hadd⟩ := hadd
  refine ⟨e, rest, ?_⟩
  rw [← hadd, ← List.append_assoc, ← hnew]
  rfl

theorem not_recorded_of_eq (h : db'.auditEvents = db.auditEvents) : ¬ Recorded db db' := by
  rintro ⟨e, new, hnew⟩
  rw [h] at hnew
  exact absurd hnew (by simp)

end Trails

/-! ### Which requests record nothing -/

/-- A request that changes an entity and appends no event: a reclaim, or a claim that
finds no task for its expert, while leases are expired; and the command that stores
the first key. -/
def Unrecorded (r : Request) (db : Db) : Prop :=
  match r.op with
  | .reclaim => ∃ t ∈ db.tasks, t.leaseExpired r.env.now = true
  | .claimNext expertId => (∃ t ∈ db.tasks, t.leaseExpired r.env.now = true) ∧
      ∀ e, db.experts.get expertId = some e → ∀ t ∈ (reclaimExpired r.env db).1.tasks,
        eligibility (reclaimExpired r.env db).1 e t = true →
          t.isAttentionCheck = true ∧ prefersAttentionCheck r.env e.id (e.servedCount + 1) = false
  | .bootstrap raw => ∀ k ∈ db.apiKeys, k.keyHash ≠ hashKey r.env raw
  | _ => False

section Requests
variable {env : Env} {r : Request} {db db' : Db} {x : Response}

theorem pick_eq_none {expert : Expert} {want : Bool} : pick db expert want = none ↔
    ∀ t ∈ db.tasks, eligibility db expert t = true → t.isAttentionCheck ≠ want := by
  rw [pick, List.head?_eq_none_iff, ← List.length_eq_zero_iff, List.length_insertionSort,
    List.length_eq_zero_iff, List.filter_eq_nil_iff]
  refine forall₂_congr (fun t _ => ?_)
  simp

theorem claimCandidate_eq_none {expert : Expert} : claimCandidate env db expert = none ↔
    ∀ t ∈ db.tasks, eligibility db expert t = true → t.isAttentionCheck = true ∧
      prefersAttentionCheck env expert.id (expert.servedCount + 1) = false := by
  unfold claimCandidate
  rw [Option.or_eq_none_iff, pick_eq_none]
  cases hp : prefersAttentionCheck env expert.id (expert.servedCount + 1) with
  | false => simp
  | true =>
    rw [if_pos rfl, pick_eq_none]
    constructor
    · rintro ⟨hgold, hplain⟩ t ht he
      exact absurd (Bool.eq_false_iff.mpr (hgold t ht he)) (hplain t ht he)
    · intro h
      exact ⟨fun t ht he => absurd (h t ht he).2 (by simp),
        fun t ht he => absurd (h t ht he).2 (by simp)⟩

/-- A reclaim changes the tasks exactly when a lease has expired. -/
theorem sameEntities_reclaimed : SameEntities db (reclaimExpired env db).1 ↔
    ∀ t ∈ db.tasks, t.leaseExpired env.now = false := by
  constructor
  · intro h t ht
    by_contra hexp
    have hmem : t ∈ (reclaimExpired env db).1.tasks := by
      rw [h.tasks]
      exact ht
    obtain ⟨t₀, ht₀, he⟩ :=
      (Table.mem_updateWhere (f := Task.reclaimed) (fun _ => rfl)).mp hmem
    split_ifs at he with hexp₀
    · rw [← he] at hexp
      exact hexp (by simp [Task.leaseExpired, Task.reclaimed, Task.unassigned])
    · rw [← he] at hexp
      exact hexp (by simpa using hexp₀)
  · intro h
    have hsame : (reclaimExpired env db).1.tasks = db.tasks := by
      refine Table.ext ((List.map_congr_left (fun t ht => ?_)).trans (List.map_id _))
      rw [if_neg (by simp [h t ht])]
      rfl
    exact ⟨rfl, hsame, rfl, rfl, rfl, rfl, rfl, rfl, rfl, rfl, rfl⟩

theorem recorded_claimNext {expertId : Uuid} {t : Option Task}
    (hop : r.op = .claimNext expertId) (h : claimNext r.env db expertId = .ok (db', t)) :
    (¬ SameEntities db db' → Recorded db db') ↔ ¬ Unrecorded r db := by
  simp only [claimNext, currentExpert, bind_ok_iff, orFail_ok_iff, require_ok_iff,
    exists_const] at h
  obtain ⟨expert, hget, _, hm⟩ := h
  -- requeuing is silent, so what counts is whether a task is handed out
  have hidle : Unrecorded r db ↔ (∃ t ∈ db.tasks, t.leaseExpired r.env.now = true) ∧
      claimCandidate r.env (reclaimExpired r.env db).1 expert = none := by
    rw [Unrecorded, hop, claimCandidate_eq_none]
    refine and_congr_right (fun _ => ⟨fun h => h expert hget, fun h e he => ?_⟩)
    obtain rfl := Option.some.inj (hget.symm.trans he)
    exact h
  rw [hidle]
  cases hc : claimCandidate r.env (reclaimExpired r.env db).1 expert with
  | none =>
    rw [hc] at hm
    obtain rfl := congrArg Prod.fst (pure_ok_iff.mp hm)
    have hsilent : ¬ Recorded db (reclaimExpired r.env db).1 := not_recorded_of_eq rfl
    simp [hsilent, sameEntities_reclaimed]
  | some task =>
    rw [hc] at hm
    obtain rfl := congrArg Prod.fst (pure_ok_iff.mp hm)
    have hlogged : Recorded db (assign r.env (reclaimExpired r.env db).1 task expert).1 :=
      recorded_record (.of_eq rfl) ..
    simp [hlogged]

theorem recorded_bootstrap {raw : String} {u : Unit} (hop : r.op = .bootstrap raw)
    (h : bootstrap r.env db raw = .ok (db', u)) :
    (¬ SameEntities db db' → Recorded db db') ↔ ¬ Unrecorded r db := by
  unfold bootstrap at h
  dsimp only at h
  -- a key that is known is not written again
  split_ifs at h with hknown
  · obtain ⟨rfl, _⟩ := Prod.mk.inj (pure_ok_iff.mp h)
    obtain ⟨k, hk, hhash⟩ := List.any_eq_true.mp hknown
    refine iff_of_true
      (fun hn => absurd ⟨rfl, rfl, rfl, rfl, rfl, rfl, rfl, rfl, rfl, rfl, rfl⟩ hn) ?_
    rw [Unrecorded, hop]
    exact fun hfresh => hfresh k hk (of_decide_eq_true hhash)
  · simp only [bind_ok_iff, orFail_ok_iff, pure_ok_iff, Prod.mk.injEq] at h
    obtain ⟨keys, hins, rfl, _⟩ := h
    have hsilent : ¬ Recorded db { db with apiKeys := keys } := not_recorded_of_eq rfl
    have hchanged : ¬ SameEntities db { db with apiKeys := keys } := by
      intro hsame
      have hrows := (Table.insert_eq_some.mp hins).2
      rw [show keys = db.apiKeys from hsame.apiKeys] at hrows
      exact absurd hrows (by simp)
    refine iff_of_false (fun h => hsilent (h hchanged)) (not_not.mpr ?_)
    rw [Unrecorded, hop]
    intro k hk hhash
    exact hknown (List.any_eq_true.mpr ⟨k, hk, decide_eq_true hhash⟩)

/-- A committed request that changes an entity appends an event exactly when it is not
one of the three that record nothing. -/
theorem recorded_iff (h : step r db = .ok (db', x)) :
    (¬ SameEntities db db' → Recorded db db') ↔ ¬ Unrecorded r db := by
  cases hop : r.op
  all_goals
    simp only [step, hop] at h
    obtain ⟨_, h, _⟩ := answer_ok h
  case claimNext => exact recorded_claimNext hop h
  case bootstrap => exact recorded_bootstrap hop h
  case reclaim =>
    obtain rfl := congrArg Prod.fst (pure_ok_iff.mp h)
    have hsilent : ¬ Recorded db (reclaimExpired r.env db).1 := not_recorded_of_eq rfl
    simp [Unrecorded, hop, hsilent, sameEntities_reclaimed]
  -- the others record whatever they change
  all_goals refine iff_of_true (fun hchanged => ?_) (by simp [Unrecorded, hop])
  case createExpert =>
    simp only [createExpert, bind_ok_iff, pure_ok_iff, Prod.mk.injEq] at h
    obtain ⟨_, _, _, _, experts, _, rfl, _⟩ := h
    exact recorded_record (.of_eq rfl) ..
  case setStatus =>
    simp only [setStatus, bind_ok_iff, pure_ok_iff, Prod.mk.injEq] at h
    obtain ⟨expert, _, rfl, _⟩ := h
    refine recorded_record ?_ ..
    split_ifs
    · exact (recorded_record (.of_eq rfl) ..).continues
    · exact .of_eq rfl
  case createKey =>
    simp only [createKey, bind_ok_iff, pure_ok_iff, Prod.mk.injEq, Prod.exists] at h
    obtain ⟨_, _, hissue, rfl, _⟩ := h
    obtain ⟨keys, _, rfl⟩ := issueKey_ok hissue
    exact recorded_record (.of_eq rfl) ..
  case createExpertKey =>
    simp only [createExpertKey, bind_ok_iff, pure_ok_iff, Prod.mk.injEq, Prod.exists] at h
    obtain ⟨_, _, _, _, hissue, rfl, _⟩ := h
    obtain ⟨keys, _, rfl⟩ := issueKey_ok hissue
    exact recorded_record (.of_eq rfl) ..
  case revokeKey =>
    simp only [revokeKey, bind_ok_iff] at h
    obtain ⟨key, _, hm⟩ := h
    split_ifs at hm <;> obtain ⟨rfl, _⟩ := Prod.mk.inj (pure_ok_iff.mp hm)
    · exact recorded_record (.of_eq rfl) ..
    · -- a key that is revoked already is left as it is
      exact absurd ⟨rfl, rfl, rfl, rfl, rfl, rfl, rfl, rfl, rfl, rfl, rfl⟩ hchanged
  case createRubric =>
    simp only [createRubric, bind_ok_iff, pure_ok_iff, Prod.mk.injEq] at h
    obtain ⟨_, _, db₁, hadd, rfl, _⟩ := h
    obtain ⟨rubrics, rows, _, _, rfl⟩ := addRubric_ok hadd
    exact recorded_record (.of_eq rfl) ..
  case publish =>
    simp only [publish, bind_ok_iff, pure_ok_iff, Prod.mk.injEq] at h
    obtain ⟨_, _, previous, _, _, _, db₁, hadd, rfl, _⟩ := h
    obtain ⟨rubrics, rows, _, _, rfl⟩ := addRubric_ok hadd
    exact recorded_record (.of_eq rfl) ..
  case putRateCards =>
    simp only [putRateCards, bind_ok_iff, pure_ok_iff, Prod.mk.injEq] at h
    obtain ⟨_, _, _, _, rfl, _⟩ := h
    exact recorded_record (.of_eq rfl) ..
  case createTasks =>
    simp only [createTasks, bind_ok_iff] at h
    obtain ⟨_, _, hm⟩ := h
    split at hm
    · exact absurd hm (by simp)
    · simp only [bind_ok_iff, pure_ok_iff, Prod.mk.injEq] at hm
      obtain ⟨_, _, _, _, tasks, _, rfl, _⟩ := hm
      exact recorded_record (.of_eq rfl) ..
  case claimById =>
    obtain ⟨e, task, _, _, _, _, _, _, hclaim⟩ := claimById_ok_iff.mp h
    obtain rfl := congrArg Prod.fst hclaim
    exact recorded_record (.of_eq rfl) ..
  case release =>
    obtain ⟨e, task, _, _, _, _, rfl⟩ := release_ok h
    exact recorded_record (.of_eq rfl) ..
  case submit =>
    obtain ⟨_, expert, task, rubric, grades, _, _, _, _, _, _, _, _, hsettle⟩ :=
      submit_ok_iff.mp h
    simp only [settleGrade, bind_ok_iff] at hsettle
    obtain ⟨db₁, hround, hcheck⟩ := hsettle
    refine (recorded_record ?_ ..).trans (written_checkGrade hcheck).continues
    unfold roundIfComplete at hround
    split_ifs at hround
    · obtain ⟨⟨_, c⟩, he, rfl⟩ := map_ok_iff.mp hround
      exact (quiet_consensusEvaluate he).continues.congr rfl
    · obtain rfl := pure_ok_iff.mp hround
      exact .of_eq rfl
  case review =>
    simp only [review, bind_ok_iff, orFail_ok_iff, pure_ok_iff, Prod.mk.injEq] at h
    obtain ⟨grade, _, _, _, task, _, _, _, _, _, reviews, _, db₁, hpay, expert, _, rfl, _⟩ := h
    have hpaid : Continues db db₁ := (written_reviewPayout hpay).continues.congr rfl
    have hmoved (d : ReviewDecision) (actor : String) :
        Continues db (reviewTask db₁ task d actor) :=
      hpaid.trans (quiet_reviewTask db₁ task d actor).continues
    refine (recorded_record ?_ ..).trans (written_calibrationUpdate ..).continues
    split_ifs
    · exact (hmoved _ _).trans (quiet_redeliver ..).continues
    · exact hmoved _ _
  case resolve =>
    simp only [resolve, bind_ok_iff, pure_ok_iff, Prod.mk.injEq] at h
    obtain ⟨_, _, row, _, _, _, delivered, _, task, _, db₁, hloop, rfl, _⟩ := h
    exact recorded_record (written_resolveLoop hloop).continues ..
  case closePeriod =>
    simp only [closePeriod, bind_ok_iff, pure_ok_iff, Prod.mk.injEq] at h
    obtain ⟨_, _, _, _, periods, _, rfl, _⟩ := h
    exact recorded_record (.of_eq rfl) ..
  case exportDelivery =>
    simp only [exportDelivery, bind_ok_iff, pure_ok_iff, Prod.mk.injEq] at h
    obtain ⟨deliveries, _, rfl, _⟩ := h
    exact recorded_record (.of_eq rfl) ..
  case tick =>
    obtain ⟨rfl, _⟩ := Prod.mk.inj (pure_ok_iff.mp h)
    have hreclaimed : Continues db (reclaimExpired r.env db).1 := .of_eq rfl
    exact recorded_record (hreclaimed.trans (written_tick ..).continues) ..

end Requests

/-! A lease of 15 minutes that expires, and a worker that reclaims it. -/
namespace Scenario

def expired : List Request := setup ++
  [call 5 (.createTasks [task] "admin"), call 6 (.claimNext 300)]

def reclaimAt (n : ℕ) : Request := call n .reclaim

def statusOfTask (db : Db) (k : Uuid) : Option TaskStatus := (db.tasks.get k).map Task.status

end Scenario

open Scenario in
/-- The task changes its status and the trail is as long as before. -/
theorem reclaim_unrecorded :
    statusOfTask (after expired) 500 = some .assigned ∧
      (step (reclaimAt 900000007) (after expired)).isOk = true ∧
      statusOfTask (after (expired ++ [reclaimAt 900000007])) 500 = some .queued ∧
      (after (expired ++ [reclaimAt 900000007])).auditEvents.length =
        (after expired).auditEvents.length := by
  decide +kernel

open Scenario in
/-- The claim before it is recorded. -/
theorem recorded_iff_claim : ∃ db' x, step (call 6 (.claimNext 300)) (after (setup ++
      [call 5 (.createTasks [task] "admin")])) = .ok (db', x) ∧
    (¬ SameEntities (after (setup ++ [call 5 (.createTasks [task] "admin")])) db' →
      Recorded (after (setup ++ [call 5 (.createTasks [task] "admin")])) db') := by
  have hok : (step (call 6 (.claimNext 300)) (after (setup ++
      [call 5 (.createTasks [task] "admin")]))).isOk = true := by
    decide +kernel
  obtain ⟨⟨db', x⟩, hstep⟩ := exists_of_isOk hok
  refine ⟨db', x, hstep, (recorded_iff hstep).mpr ?_⟩
  have hqueue : (after (setup ++ [call 5 (.createTasks [task] "admin")])).tasks.rows.all
      (fun t => !t.leaseExpired 6) = true := by
    decide +kernel
  rintro ⟨⟨t, ht, hexp⟩, -⟩
  have := List.all_eq_true.mp hqueue t ht
  rw [show t.leaseExpired 6 = true from hexp] at this
  exact absurd this (by simp)

end Panelist
