import Panelist.Earnings
import Panelist.Statements
import Panelist.SideEffects

/-! The payout counters of a process. `create_for_grade` advances them as soon as a payout is
flushed, and the rollback of a request that fails later does not take that back. -/
namespace Panelist
open Relational Transaction Transaction.Lasting

/-- `Counter.inc` of the metrics library: it adds the amount, and refuses a negative one. -/
structure CounterLib where
  inc : ℤ → ℤ → Option ℤ
  adds : ∀ v a, 0 ≤ a → inc v a = some (v + a)
  refuses : ∀ v a, a < 0 → inc v a = none

/-- `panelist_payouts_total` and `panelist_payout_cents_total`, by status label. -/
structure Counters where
  payouts : PayoutStatus → ℤ
  payoutCents : PayoutStatus → ℤ

/-- The number and the sum of payouts by the status they were created with. -/
def tally (ps : List Payout) : Counters where
  payouts status := (ps.filter (fun p => p.status = status)).length
  payoutCents status := sumCents (ps.filter (fun p => p.status = status))

abbrev Metered (α : Type) := Lasting Counters Failure α

/-- What `Counter.inc` raises. -/
def counterError : Failure := .raised "ValueError"

/-! ### The services with their counters -/

namespace Counted
variable (lib : CounterLib)

/-- `PAYOUTS.labels(status=…).inc()`. -/
def incPayouts (status : PayoutStatus) : Metered Unit :=
  write (fun c => (lib.inc (c.payouts status) 1).map (fun v =>
    { c with payouts := Function.update c.payouts status v })) counterError

/-- `PAYOUT_CENTS.labels(status=…).inc(amount)`. -/
def incPayoutCents (status : PayoutStatus) (amount : ℤ) : Metered Unit :=
  write (fun c => (lib.inc (c.payoutCents status) amount).map (fun v =>
    { c with payoutCents := Function.update c.payoutCents status v })) counterError

/-- What `create_for_grade` counts once the payout is flushed. -/
def countPayout (payout : Payout) : Metered Unit := do
  incPayouts lib payout.status
  incPayoutCents lib payout.status payout.amountCents

/-- `create_for_grade`: a payout that was there before is not counted again. -/
def createForGrade (env : Env) (db : Db) (grade : Grade) (task : Task) (actor : String)
    (fraction : ℚ) : Metered (Db × Payout) := do
  let expert ← lift (orFail (db.experts.get grade.expertId) (.integrity "grades_expert_id_fkey"))
  match db.payouts.get grade.id with
  | some existing => pure (db, existing)
  | none => do
    let rate ← lift (rateFor db expert task.taskType)
    let amount := payoutAmount rate fraction
    let payout := newPayout env expert grade task amount
    lift (require (storableInt amount) (.raised "NumericValueOutOfRange"))
    let payouts ← lift (orFail (db.payouts.insert payout) (.integrity "uq_payout_task_expert"))
    -- advanced as soon as the row is flushed
    countPayout lib payout
    pure (record { db with payouts := payouts } actor "payout.created" "payout" payout.id.str,
      payout)

def outvotedPayout (env : Env) (db : Db) (grade : Grade) (task : Task) (actor : String) :
    Metered (Db × Option Payout) :=
  match env.settings.consensusOutvotedPayout with
  | .none => pure (db, none)
  | .full => do
    let (db, payout) ← createForGrade lib env db grade task actor 1
    pure (db, some payout)
  | .part => do
    let (db, payout) ← createForGrade lib env db grade task actor env.settings.consensusOutvotedRate
    pure (db, some payout)

def resolvePayout (env : Env) (db : Db) (task : Task) (delivered grade : Grade) (actor : String) :
    Metered Db :=
  if grade.id = delivered.id then Prod.fst <$> createForGrade lib env db grade task actor 1
  else Prod.fst <$> outvotedPayout lib env db grade task actor

def resolveGrade (env : Env) (task : Task) (delivered : Grade) (reason : String) (keyId : Uuid)
    (actor : String) (db : Db) (grade : Grade) : Metered Db := do
  lift (require (verdict env delivered reason keyId grade).storable (.raised "DataError"))
  let reviews ← lift (orFail (db.reviews.insert (verdict env delivered reason keyId grade))
    (.integrity "reviews_grade_id_key"))
  let db ← resolvePayout lib env { db with reviews := reviews } task delivered grade actor
  let expert ← lift (orFail (db.experts.get grade.expertId) (.integrity "grades_expert_id_fkey"))
  pure (calibrationUpdate env db expert actor).1

/-- What `resolve` writes about the task and its round. -/
def closeRound (env : Env) (db : Db) (taskId deliveredId keyId : Uuid) (reason : String) : Db :=
  let decided := Consensus.adjudicate deliveredId keyId reason env.now
  { db with
    tasks := db.tasks.update taskId (Task.withStatus .approved) (Task.withStatus_keeps _)
    consensus := db.consensus.update taskId decided (Consensus.adjudicate_keeps _ _ _ _) }

def resolve (env : Env) (db : Db) (taskId deliveredGradeId : Uuid) (reason : String)
    (keyId : Uuid) (actor : String) : Metered (Db × Consensus) := do
  lift (require (1 ≤ reason.length) (.http 422 "reason"))
  let row ← lift (orFail (db.consensus.get taskId) (.http 404 "no consensus round for this task"))
  let status := row.status.value
  lift (require (row.status = .adjudicating) (.http 409 s!"consensus is already {status}"))
  let grades := gradesFor db taskId
  let delivered ← lift (orFail (grades.find? (fun g => g.id = deliveredGradeId))
    (.http 422 "delivered grade is not one of the grades on this task"))
  let task ← lift (orFail (db.tasks.get taskId) (.integrity "consensus_task_id_fkey"))
  -- the counters move inside this loop, and any of its grades may fail
  let db ← grades.foldlM (resolveGrade lib env task delivered reason keyId actor) db
  let db := closeRound env db taskId delivered.id keyId reason
  pure (record db actor "consensus.adjudicated" "task" taskId.str,
    Consensus.adjudicate delivered.id keyId reason env.now row)

def reviewPayout (env : Env) (db : Db) (grade : Grade) (task : Task) (decision : ReviewDecision)
    (actor : String) : Metered Db :=
  if decision = .approve then Prod.fst <$> createForGrade lib env db grade task actor 1 else pure db

def review (env : Env) (db : Db) (keyId : Uuid) (body : ReviewCreate) (actor : String) :
    Metered (Db × Review) := do
  let grade ← lift (orFail (db.grades.get body.gradeId) (.http 404 "grade not found"))
  lift (require ((db.reviews.get grade.id).isNone) (.http 409 "grade already reviewed"))
  let task ← lift (orFail (db.tasks.get grade.taskId) (.integrity "grades_task_id_fkey"))
  lift (rejectIfConsensusPending task)
  let verdict : Review := ⟨grade.id, keyId, body.decision, body.reason, env.now⟩
  lift (require verdict.storable (.raised "DataError"))
  let reviews ← lift (orFail (db.reviews.insert verdict) (.integrity "reviews_grade_id_key"))
  let db ← reviewPayout lib env { db with reviews := reviews } grade task body.decision actor
  let db := reviewTask db task body.decision actor
  let db := if body.decision = .reject then redeliver db task grade actor else db
  let db := record db actor s!"grade.{body.decision.value}" "grade" grade.id.str
  let expert ← lift (orFail (db.experts.get grade.expertId) (.integrity "grades_expert_id_fkey"))
  pure ((calibrationUpdate env db expert actor).1, verdict)

/-- A request; only reviews and adjudications touch these counters. -/
def step (r : Request) (db : Db) : Metered (Db × Response) :=
  match r.op with
  | .review keyId body actor =>
    (fun p => (p.1, .review p.2)) <$> review lib r.env db keyId body actor
  | .resolve taskId gradeId reason keyId actor =>
    (fun p => (p.1, .round p.2)) <$> resolve lib r.env db taskId gradeId reason keyId actor
  | _ => lift (Panelist.step r db)

end Counted

/-! ### A process -/

/-- A process: the database it shares, its own counters, and the payouts that its own
requests have committed. -/
structure Process where
  db : Db
  counters : Counters
  committed : List Payout

def Process.start : Process := ⟨.empty, tally [], []⟩

/-- A request to this process or to another one. -/
inductive Call where
  | own (r : Request)
  | other (r : Request)

/-- A request commits what it wrote when it succeeds and is rolled back when it fails; the
counters of the process that served it stay as it left them. -/
def serve (lib : CounterLib) (call : Call) (s : Process) :
    Except Empty (Process × Except Failure Response) :=
  match call with
  -- of its own requests the process keeps the counters, also when it rolls back
  | .own r =>
    match exec (Counted.step lib r s.db) s.counters with
    | (.ok (db', x), c) => .ok (⟨db', c, s.committed ++ newPayouts s.db db'⟩, .ok x)
    | (.error e, c) => .ok ({ s with counters := c }, .error e)
  -- another process counts for itself
  | .other r =>
    match exec (Counted.step lib r s.db) (tally []) with
    | (.ok (db', x), _) => .ok ({ s with db := db' }, .ok x)
    | (.error e, _) => .ok (s, .error e)

/-- The counters are the number and the sum of what the process has committed. -/
def Process.Exact (s : Process) : Prop := s.counters = tally s.committed

/-- What a decision would pay for a grade: nothing, no amount that can be stored, or an
amount. -/
def amountDue (db : Db) (task : Task) (share : Grade → Option ℚ) (g : Grade) :
    Option (Option ℤ) :=
  (share g).map (fun f => (db.experts.get g.expertId).bind (fun expert =>
    (rateFor db expert task.taskType).toOption.bind (fun cents =>
      if storableInt (payoutAmount cents f) then some (payoutAmount cents f) else none)))

/-- What comes of a grade in a decision: the same, once its review is stored. -/
def decisionDue (db : Db) (task : Task) (share : Grade → Option ℚ) (verdict : Grade → Review)
    (g : Grade) : Option (Option ℤ) :=
  if (verdict g).storable then amountDue db task share g else some none

/-- In the order of the grades a negative amount comes up, or, after a grade that was paid, one
with a review or an amount that cannot be stored (`paid` tells whether one was paid before). -/
def Overcounts (due : Grade → Option (Option ℤ)) : Bool → List Grade → Prop
  | _, [] => False
  | paid, g :: gs =>
    match due g with
    | none => Overcounts due paid gs
    | some none => paid = true
    | some (some amount) => amount < 0 ∨ Overcounts due true gs

/-- The review a request makes of one grade. -/
def reviewed (env : Env) (keyId : Uuid) (body : ReviewCreate) (grade : Grade) : Review :=
  ⟨grade.id, keyId, body.decision, body.reason, env.now⟩

/-- `r` passes the checks of a review or an adjudication and then overcounts. -/
def CountsUncommitted (db : Db) (r : Request) : Prop :=
  match r.op with
  | .review keyId body _ => ∃ grade task, db.grades.get body.gradeId = some grade ∧
      db.reviews.get grade.id = none ∧ db.tasks.get grade.taskId = some task ∧
      rejectIfConsensusPending task = .ok () ∧
      Overcounts (decisionDue db task (reviewShare body.decision) (reviewed r.env keyId body))
        false [grade]
  | .resolve taskId gradeId reason keyId _ => 1 ≤ reason.length ∧ ∃ row delivered task,
      db.consensus.get taskId = some row ∧ row.status = .adjudicating ∧
      delivered ∈ gradesFor db taskId ∧ delivered.id = gradeId ∧
      db.tasks.get taskId = some task ∧
      Overcounts (decisionDue db task (resolveShare r.env.settings delivered)
        (verdict r.env delivered reason keyId)) false (gradesFor db taskId)
  | _ => False

/-! ### Without their counters the services are the ones of the model -/

section Erasing
variable (lib : CounterLib) (env : Env) (db : Db) (task : Task) (grade delivered : Grade)
  (actor reason : String) (keyId : Uuid)

/-- Both counters take a payout exactly if its amount is not negative. -/
theorem erases_countPayout (p : Payout) :
    Erases (Counted.countPayout lib p) (require (0 ≤ p.amountCents) counterError) := by
  intro c u c' h
  have hnonneg : 0 ≤ p.amountCents := by
    by_contra hneg
    rw [Counted.countPayout, Counted.incPayouts, Counted.incPayoutCents, exec_bind, exec_write,
      lib.adds _ _ (by decide)] at h
    dsimp only [Option.map_some] at h
    rw [exec_write, lib.refuses _ _ (not_le.mp hneg)] at h
    exact absurd (congrArg Prod.fst h) (by simp)
  rw [require, if_pos hnonneg]

theorem erases_createForGrade (f : ℚ) :
    Erases (Counted.createForGrade lib env db grade task actor f)
      (createForGrade env db grade task actor f) := by
  refine (Erases.lift _).bind (fun expert => ?_)
  cases db.payouts.get grade.id with
  | some existing => exact .pure _
  | none =>
    refine (Erases.lift _).bind (fun rate => (Erases.lift _).bind (fun _ =>
      (Erases.lift _).bind (fun payouts => ?_)))
    exact (erases_countPayout lib (newPayout env expert grade task (payoutAmount rate f))).bind
      (fun _ => .pure _)

theorem erases_resolvePayout : Erases (Counted.resolvePayout lib env db task delivered grade actor)
    (resolvePayout env db task delivered grade actor) := by
  unfold Counted.resolvePayout resolvePayout
  split_ifs
  · exact (erases_createForGrade lib env db task grade actor 1).map Prod.fst
  · refine Erases.map ?_ Prod.fst
    unfold Counted.outvotedPayout outvotedPayout
    cases env.settings.consensusOutvotedPayout with
    | none => exact .pure _
    | full => exact (erases_createForGrade lib env db task grade actor 1).bind (fun _ => .pure _)
    | part => exact (erases_createForGrade lib env db task grade actor _).bind (fun _ => .pure _)

theorem erases_resolveGrade :
    Erases (Counted.resolveGrade lib env task delivered reason keyId actor db grade)
      (resolveGrade env task delivered reason keyId actor db grade) :=
  (Erases.lift _).bind (fun _ => (Erases.lift _).bind (fun _ =>
    (erases_resolvePayout lib env _ task grade delivered actor).bind (fun _ =>
      (Erases.lift _).bind (fun _ => .pure _))))

theorem erases_resolve (taskId gradeId : Uuid) :
    Erases (Counted.resolve lib env db taskId gradeId reason keyId actor)
      (resolve env db taskId gradeId reason keyId actor) :=
  (Erases.lift _).bind (fun _ => (Erases.lift _).bind (fun _ => (Erases.lift _).bind (fun _ =>
    (Erases.lift _).bind (fun _ => (Erases.lift _).bind (fun _ =>
      (Erases.foldlM (fun db g => erases_resolveGrade lib env db _ g _ actor reason keyId) _ _).bind
        (fun _ => .pure _))))))

theorem erases_review (body : ReviewCreate) :
    Erases (Counted.review lib env db keyId body actor) (review env db keyId body actor) := by
  refine (Erases.lift _).bind (fun grade => (Erases.lift _).bind (fun _ =>
    (Erases.lift _).bind (fun task => (Erases.lift _).bind (fun _ => (Erases.lift _).bind (fun _ =>
      (Erases.lift _).bind (fun reviews => Erases.bind ?_ (fun _ =>
        (Erases.lift _).bind (fun _ => .pure _))))))))
  unfold Counted.reviewPayout reviewPayout
  split_ifs
  · exact (erases_createForGrade lib env _ task grade actor 1).map Prod.fst
  · exact .pure _

theorem erases_step (r : Request) : Erases (Counted.step lib r db) (step r db) := by
  unfold Counted.step step
  cases r.op with
  | review keyId body actor => exact (erases_review lib r.env db actor keyId body).map _
  | resolve taskId gradeId reason keyId actor =>
    exact (erases_resolve lib r.env db actor reason keyId taskId gradeId).map _
  | _ => exact .lift _

end Erasing

/-! ### What the counters count -/

namespace Counters

/-- One more payout, not yet its cents. -/
def bump (c : Counters) (status : PayoutStatus) : Counters :=
  { c with payouts := Function.update c.payouts status (c.payouts status + 1) }

def add (c : Counters) (p : Payout) : Counters where
  payouts := Function.update c.payouts p.status (c.payouts p.status + 1)
  payoutCents := Function.update c.payoutCents p.status (c.payoutCents p.status + p.amountCents)

/-- How many payouts are counted in all. -/
def count (c : Counters) : ℤ := c.payouts .pending + c.payouts .withheld + c.payouts .paid

theorem count_bump (c : Counters) (status : PayoutStatus) :
    (c.bump status).count = c.count + 1 := by
  cases status <;> simp [count, bump, Function.update] <;> omega

theorem count_add (c : Counters) (p : Payout) : (c.add p).count = c.count + 1 :=
  c.count_bump p.status

end Counters

theorem tally_concat (ps : List Payout) (p : Payout) : tally (ps ++ [p]) = (tally ps).add p := by
  unfold tally Counters.add
  congr 1
  · funext status
    by_cases h : p.status = status
    · subst h
      simp [List.filter_append]
    · rw [Function.update_of_ne (Ne.symm h), List.filter_append]
      simp [h]
  · funext status
    by_cases h : p.status = status
    · subst h
      simp [List.filter_append, sumCents]
    · rw [Function.update_of_ne (Ne.symm h), List.filter_append]
      simp [h]

theorem tally_append (ps new : List Payout) :
    tally (ps ++ new) = new.foldl Counters.add (tally ps) := by
  induction new generalizing ps with
  | nil => rw [List.append_nil, List.foldl_nil]
  | cons p new ih => rw [List.foldl_cons, ← tally_concat, ← ih, List.append_assoc]; rfl

section Increments
variable (lib : CounterLib) (c : Counters) (status : PayoutStatus) {amount : ℤ}

theorem exec_incPayouts : exec (Counted.incPayouts lib status) c = (.ok (), c.bump status) := by
  rw [Counted.incPayouts, exec_write, lib.adds _ _ (by decide)]
  rfl

theorem exec_incPayoutCents (h : 0 ≤ amount) :
    exec (Counted.incPayoutCents lib status amount) c = (.ok (), { c with
      payoutCents := Function.update c.payoutCents status (c.payoutCents status + amount) }) := by
  rw [Counted.incPayoutCents, exec_write, lib.adds _ _ h]
  rfl

theorem exec_incPayoutCents_neg (h : amount < 0) :
    exec (Counted.incPayoutCents lib status amount) c = (.error counterError, c) := by
  rw [Counted.incPayoutCents, exec_write, lib.refuses _ _ h]
  rfl

theorem exec_countPayout {p : Payout} (h : 0 ≤ p.amountCents) :
    exec (Counted.countPayout lib p) c = (.ok (), c.add p) := by
  rw [Counted.countPayout, exec_bind_ok (exec_incPayouts lib c _), exec_incPayoutCents lib _ _ h]
  rfl

theorem exec_countPayout_neg {p : Payout} (h : p.amountCents < 0) :
    exec (Counted.countPayout lib p) c = (.error counterError, c.bump p.status) := by
  rw [Counted.countPayout, exec_bind_ok (exec_incPayouts lib c _),
    exec_incPayoutCents_neg lib _ _ h]

end Increments

/-! ### Paying one grade -/

/-- `g` is not paid, and its author is stored. -/
structure Payable (db : Db) (task : Task) (g : Grade) : Prop where
  unpaid : ∀ p ∈ db.payouts, p.gradeId ≠ g.id ∧ ¬ (p.taskId = task.id ∧ p.expertId = g.expertId)
  author : ∃ e, db.experts.get g.expertId = some e

/-- `g` is neither reviewed nor paid. -/
structure Unsettled (db : Db) (task : Task) (g : Grade) : Prop extends Payable db task g where
  unreviewed : db.reviews.get g.id = none

/-- The payout of a decision, with its counters. -/
def Counted.pay (lib : CounterLib) (env : Env) (db : Db) (task : Task) (share : Grade → Option ℚ)
    (g : Grade) (actor : String) : Metered Db :=
  match share g with
  | none => pure db
  | some f => Prod.fst <$> Counted.createForGrade lib env db g task actor f

/-- What paying a grade answers and how it moves the counters. -/
inductive PayOutcome (db : Db) (due : Option (Option ℤ)) (g : Grade) (c : Counters) :
    Except Failure Db × Counters → Prop
  | nothing (hd : due = none) : PayOutcome db due g c (.ok db, c)
  | failed (hd : due = some none) (e : Failure) : PayOutcome db due g c (.error e, c)
  | refused {amount : ℤ} (hd : due = some (some amount)) (hneg : amount < 0) (e : Failure)
      (status : PayoutStatus) : PayOutcome db due g c (.error e, c.bump status)
  | counted {amount : ℤ} {p : Payout} {payouts : Table Payout} {events : List AuditEvent}
      (hd : due = some (some amount)) (hpos : 0 ≤ amount)
      (hg : p.gradeId = g.id) (hx : p.expertId = g.expertId)
      (hi : db.payouts.insert p = some payouts) :
      PayOutcome db due g c (.ok { db with payouts := payouts, auditEvents := events }, c.add p)

section Paying
variable {lib : CounterLib} {env : Env} {db : Db} {task : Task} {share : Grade → Option ℚ}
  {g delivered : Grade} {actor : String} {c : Counters}

theorem resolvePayout_eq_pay : Counted.resolvePayout lib env db task delivered g actor =
    Counted.pay lib env db task (resolveShare env.settings delivered) g actor := by
  unfold Counted.resolvePayout Counted.pay resolveShare
  split_ifs
  · rfl
  · unfold Counted.outvotedPayout
    cases env.settings.consensusOutvotedPayout with
    | none => rfl
    | full | part => simp only [bind_pure_comp, Functor.map_map]

theorem reviewPayout_eq_pay {d : ReviewDecision} :
    Counted.reviewPayout lib env db g task d actor =
      Counted.pay lib env db task (reviewShare d) g actor := by
  unfold Counted.reviewPayout Counted.pay reviewShare
  split_ifs <;> rfl

theorem insert_review {db : Db} {v : Review} (h : db.reviews.get v.gradeId = none) :
    ∃ reviews, db.reviews.insert v = some reviews := by
  rw [← Option.ne_none_iff_exists', ne_eq, Table.insert_eq_none]
  rintro ⟨w, hw, hclash⟩
  exact db.reviews.get_eq_none.mp h w hw hclash

theorem Payable.insert_payout (h : Payable db task g) {p : Payout} (hg : p.gradeId = g.id)
    (ht : p.taskId = task.id) (hx : p.expertId = g.expertId) :
    ∃ payouts, db.payouts.insert p = some payouts := by
  rw [← Option.ne_none_iff_exists', ne_eq, Table.insert_eq_none]
  rintro ⟨q, hq, hid | hpair⟩
  · exact (h.unpaid q hq).1 (hid.trans hg)
  · exact (h.unpaid q hq).2 ⟨(congrArg Prod.fst hpair).trans ht, (congrArg Prod.snd hpair).trans hx⟩

variable (lib env db share actor c) in
theorem pay_pays (h : Payable db task g) :
    PayOutcome db (amountDue db task share g) g c
      (exec (Counted.pay lib env db task share g actor) c) := by
  unfold Counted.pay
  cases hf : share g with
  | none => exact .nothing (by rw [amountDue, hf]; rfl)
  | some f =>
    obtain ⟨expert, hx⟩ := h.author
    have hnone : db.payouts.get g.id = none :=
      db.payouts.get_eq_none.mpr (fun p hp => (h.unpaid p hp).1)
    dsimp only
    rw [map_eq_pure_bind, exec_bind, Counted.createForGrade, exec_lift_bind, hx, orFail, hnone]
    dsimp only
    rw [exec_lift_bind]
    -- the rate, the size of the amount, and its sign
    cases hr : rateFor db expert task.taskType with
    | error e =>
      refine .failed ?_ e
      rw [amountDue, hf, hx]
      simp [hr, Except.toOption]
    | ok cents =>
      dsimp only
      rw [exec_lift_bind]
      by_cases hs : storableInt (payoutAmount cents f)
      · have hdue : amountDue db task share g = some (some (payoutAmount cents f)) := by
          rw [amountDue, hf, hx]
          simp [hr, Except.toOption, hs]
        obtain ⟨payouts, hins⟩ := h.insert_payout
          (p := newPayout env expert g task (payoutAmount cents f)) rfl rfl (Table.get_pk hx)
        rw [require, if_pos hs]
        dsimp only
        rw [exec_lift_bind, hins, orFail]
        dsimp only
        by_cases hneg : (newPayout env expert g task (payoutAmount cents f)).amountCents < 0
        · rw [exec_bind_error (exec_countPayout_neg lib c hneg)]
          exact .refused hdue hneg counterError _
        · rw [exec_bind_ok (exec_countPayout lib c (not_lt.mp hneg))]
          exact .counted hdue (not_lt.mp hneg) rfl (Table.get_pk hx) hins
      · rw [require, if_neg hs]
        refine .failed ?_ _
        rw [amountDue, hf, hx]
        simp [hr, Except.toOption, hs]

end Paying

/-! ### The loop of an adjudication -/

/-- One pass over `g` made `db₁` of `db`: it added the payouts `new`, all for `g`, and
touched nothing that the payment of another grade reads. -/
structure Advances (db db₁ : Db) (g : Grade) (new : List Payout) : Prop where
  rows : db₁.payouts.rows = db.payouts.rows ++ new
  ofGrade : ∀ p ∈ new, p.gradeId = g.id ∧ p.expertId = g.expertId
  reviews : ∀ k, k ≠ g.id → db₁.reviews.get k = db.reviews.get k
  experts : ∀ k, k ≠ g.expertId → db₁.experts.get k = db.experts.get k
  rateCards : db₁.rateCards = db.rateCards

/-- What one pass of the loop answers and how it moves the counters. -/
inductive Passed (db : Db) (due : Option (Option ℤ)) (g : Grade) (c : Counters) :
    Except Failure Db × Counters → Prop
  | unpaid {db₁ : Db} (hd : due = none) (h : Advances db db₁ g []) : Passed db due g c (.ok db₁, c)
  | paid {db₁ : Db} {p : Payout} {amount : ℤ} (hd : due = some (some amount))
      (hpos : 0 ≤ amount) (h : Advances db db₁ g [p]) : Passed db due g c (.ok db₁, c.add p)
  | failed (hd : due = some none) (e : Failure) : Passed db due g c (.error e, c)
  | refused {amount : ℤ} (hd : due = some (some amount)) (hneg : amount < 0) (e : Failure)
      (status : PayoutStatus) : Passed db due g c (.error e, c.bump status)

/-- What the loop over `gs` answers and how it moves the counters. -/
inductive Looped (db : Db) (due : Grade → Option (Option ℤ)) (gs : List Grade) (c : Counters) :
    Except Failure Db × Counters → Prop
  | done {db' : Db} {new : List Payout} (hrows : db'.payouts.rows = db.payouts.rows ++ new)
      (hno : ¬ Overcounts due true gs) : Looped db due gs c (.ok db', new.foldl Counters.add c)
  | stopped {e : Failure} {c' : Counters} (hstop : Overcounts due true gs)
      (hle : c.count ≤ c'.count) (hsame : ¬ Overcounts due false gs → c' = c)
      (hmore : Overcounts due false gs → c.count < c'.count) : Looped db due gs c (.error e, c')

section Loop
variable {lib : CounterLib} {env : Env} {db db₁ : Db} {task : Task} {share : Grade → Option ℚ}
  {g x delivered : Grade} {gs : List Grade} {actor reason : String} {keyId : Uuid}
  {c : Counters} {new : List Payout}

theorem Advances.unsettled (h : Advances db db₁ g new) (hu : Unsettled db task x)
    (hid : x.id ≠ g.id) (hx : x.expertId ≠ g.expertId) : Unsettled db₁ task x := by
  refine ⟨⟨fun p hp => ?_, ?_⟩, (h.reviews _ hid).trans hu.unreviewed⟩
  · rw [← Table.mem_rows, h.rows] at hp
    rcases List.mem_append.mp hp with hp | hp
    · exact hu.unpaid p hp
    · obtain ⟨hpg, hpx⟩ := h.ofGrade p hp
      exact ⟨fun he => hid (he.symm.trans hpg), fun he => hx (he.2.symm.trans hpx)⟩
  · rw [h.experts _ hx]
    exact hu.author

theorem Advances.due (h : Advances db db₁ g new) (hx : x.expertId ≠ g.expertId)
    (v : Grade → Review) : decisionDue db₁ task share v x = decisionDue db task share v x := by
  have hrate (e : Expert) : rateFor db₁ e task.taskType = rateFor db e task.taskType := by
    simp only [rateFor, h.rateCards]
  unfold decisionDue amountDue
  rw [h.experts _ hx]
  simp only [hrate]

section Overcounting
variable {due : Grade → Option (Option ℤ)} {paid : Bool} {amount : ℤ}

theorem overcounts_unpaid (hd : due g = none) :
    Overcounts due paid (g :: gs) ↔ Overcounts due paid gs := by
  rw [Overcounts, hd]

theorem overcounts_failed (hd : due g = some none) :
    Overcounts due paid (g :: gs) ↔ paid = true := by
  rw [Overcounts, hd]

theorem overcounts_amount (hd : due g = some (some amount)) :
    Overcounts due paid (g :: gs) ↔ amount < 0 ∨ Overcounts due true gs := by
  rw [Overcounts, hd]

end Overcounting

theorem overcounts_congr {due due' : Grade → Option (Option ℤ)} {paid : Bool}
    (h : ∀ x ∈ gs, due x = due' x) : Overcounts due paid gs ↔ Overcounts due' paid gs := by
  induction gs generalizing paid with
  | nil => exact Iff.rfl
  | cons g gs ih =>
    obtain ⟨hg, hgs⟩ := List.forall_mem_cons.mp h
    unfold Overcounts
    rw [hg]
    cases due' g with
    | none => exact ih hgs
    | some amount =>
      cases amount with
      | none => exact Iff.rfl
      | some amount => exact or_congr_right (ih hgs)

theorem overcounts_mono {due : Grade → Option (Option ℤ)} (h : Overcounts due false gs) :
    Overcounts due true gs := by
  induction gs with
  | nil => exact h
  | cons g gs ih =>
    unfold Overcounts at h ⊢
    cases hd : due g with
    | none =>
      rw [hd] at h
      exact ih h
    | some amount =>
      rw [hd] at h
      cases amount with
      | none => rfl
      | some amount => exact h

/-- What a pass over `g` writes: its review, the payouts `new`, an event for each, and the
recalibration of its author. -/
theorem advances_pass {expert : Expert} {reviews : Table Review} {payouts : Table Payout}
    {events : List AuditEvent} (hx : db.experts.get g.expertId = some expert)
    (hreviews : ∀ k, k ≠ g.id → reviews.get k = db.reviews.get k)
    (hrows : payouts.rows = db.payouts.rows ++ new)
    (hnew : ∀ p ∈ new, p.gradeId = g.id ∧ p.expertId = g.expertId) :
    Advances db (calibrationUpdate env { db with
      reviews := reviews
      payouts := payouts
      auditEvents := events } expert actor).1 g new := by
  obtain ⟨changes, events', hu⟩ := calibrationUpdate_eq env { db with
    reviews := reviews
    payouts := payouts
    auditEvents := events } expert actor
  rw [hu]
  refine ⟨hrows, hnew, hreviews, fun k hk => ?_, rfl⟩
  have hid : expert.id ≠ k := fun he => hk (he.symm.trans (Table.get_pk hx))
  dsimp only
  rw [Table.get_update, if_neg hid]

variable (env db actor c) in
/-- The pass ends with that recalibration, which moves no counter. -/
theorem pass_ends {expert : Expert} (hx : db.experts.get g.expertId = some expert) :
    exec (do
      let expert ← lift (orFail (db.experts.get g.expertId) (.integrity "grades_expert_id_fkey"))
      pure (calibrationUpdate env db expert actor).1 : Metered Db) c =
        (.ok (calibrationUpdate env db expert actor).1, c) := by
  rw [exec_lift_bind, hx]
  rfl

variable (lib env delivered actor reason keyId c) in
theorem resolveGrade_passed (h : Unsettled db task g) :
    Passed db (decisionDue db task (resolveShare env.settings delivered)
        (verdict env delivered reason keyId) g) g c
      (exec (Counted.resolveGrade lib env task delivered reason keyId actor db g) c) := by
  unfold Counted.resolveGrade
  rw [exec_lift_bind]
  by_cases hs : (verdict env delivered reason keyId g).storable
  case neg =>
    rw [require, if_neg hs]
    exact .failed (by rw [decisionDue, if_neg hs]) _
  rw [require, if_pos hs, decisionDue, if_pos hs]
  dsimp only
  obtain ⟨expert, hx⟩ := h.author
  obtain ⟨reviews, hins⟩ := insert_review (v := verdict env delivered reason keyId g) h.unreviewed
  have hpayable : Payable { db with reviews := reviews } task g := ⟨h.unpaid, h.author⟩
  have hpay := pay_pays lib env _ (resolveShare env.settings delivered) actor c hpayable
  have hreviews (k : Uuid) (hk : k ≠ g.id) : reviews.get k = db.reviews.get k := by
    rw [Table.get_insert hins, if_neg]
    exact fun he => hk he.symm
  rw [exec_lift_bind, hins, orFail]
  dsimp only
  rw [exec_bind, resolvePayout_eq_pay]
  generalize exec (Counted.pay lib env { db with reviews := reviews } task
    (resolveShare env.settings delivered) g actor) c = out at hpay
  -- nothing that the payment reads is among the reviews
  have hdue :
      amountDue { db with reviews := reviews } task (resolveShare env.settings delivered) g =
      amountDue db task (resolveShare env.settings delivered) g := rfl
  cases hpay with
  | nothing hd =>
    have hend := pass_ends env { db with reviews := reviews } actor c hx
    dsimp only at hend ⊢
    rw [hend]
    exact .unpaid (hdue.symm.trans hd) (advances_pass hx hreviews (List.append_nil _).symm
      (fun p hp => absurd hp List.not_mem_nil))
  | failed hd e => exact .failed (hdue.symm.trans hd) e
  | refused hd hneg e status => exact .refused (hdue.symm.trans hd) hneg e status
  | @counted amount p payouts events hd hpos hg hpx hi =>
    have hend := pass_ends env { db with
      reviews := reviews
      payouts := payouts
      auditEvents := events } actor (c.add p) hx
    have hnew : ∀ q ∈ [p], q.gradeId = g.id ∧ q.expertId = g.expertId := by
      intro q hq
      rw [List.mem_singleton.mp hq]
      exact ⟨hg, hpx⟩
    dsimp only at hend ⊢
    rw [hend]
    exact .paid (hdue.symm.trans hd) hpos
      (advances_pass hx hreviews (Table.insert_eq_some.mp hi).2 hnew)

section Passes
variable {due due₁ : Grade → Option (Option ℤ)} {out : Except Failure Db × Counters}

/-- A pass that pays nothing leaves the answer to the rest of the loop. -/
theorem Looped.unpaid (hadv : Advances db db₁ g [])
    (hstep : ∀ paid, Overcounts due paid (g :: gs) ↔ Overcounts due₁ paid gs)
    (h : Looped db₁ due₁ gs c out) : Looped db due (g :: gs) c out := by
  cases h with
  | done hrows hno =>
    rw [hadv.rows, List.append_nil] at hrows
    exact .done hrows (fun h => hno ((hstep true).mp h))
  | stopped hstop hle hsame hmore =>
    exact .stopped ((hstep true).mpr hstop) hle
      (fun h => hsame (fun h' => h ((hstep false).mpr h')))
      (fun h => hmore ((hstep false).mp h))

/-- After a pass that paid, whatever stops the rest of the loop leaves a payout counted. -/
theorem Looped.paid {p : Payout} (hadv : Advances db db₁ g [p])
    (hstep : ∀ paid, Overcounts due paid (g :: gs) ↔ Overcounts due₁ true gs)
    (h : Looped db₁ due₁ gs (c.add p) out) : Looped db due (g :: gs) c out := by
  have hadd := c.count_add p
  cases h with
  | @done db' new hrows hno =>
    have hall : db'.payouts.rows = db.payouts.rows ++ p :: new := by
      rw [hrows, hadv.rows, List.append_assoc, List.singleton_append]
    exact .done hall (fun h => hno ((hstep true).mp h))
  | stopped hstop hle hsame hmore =>
    exact .stopped ((hstep true).mpr hstop) (by omega)
      (fun h => absurd ((hstep false).mpr hstop) h) (fun _ => by omega)

end Passes

variable (lib env delivered actor reason keyId c) in
/-- The loop pays as long as the amounts allow; when it stops it has counted payouts exactly
if it overcounts. -/
theorem loop_looped (hgs : ∀ g ∈ gs, Unsettled db task g)
    (hids : gs.Pairwise (fun a b => a.id ≠ b.id))
    (hexperts : gs.Pairwise (fun a b => a.expertId ≠ b.expertId)) :
    Looped db (decisionDue db task (resolveShare env.settings delivered)
        (verdict env delivered reason keyId)) gs c
      (exec (gs.foldlM (Counted.resolveGrade lib env task delivered reason keyId actor) db) c) := by
  let due (db : Db) : Grade → Option (Option ℤ) := decisionDue db task
    (resolveShare env.settings delivered) (verdict env delivered reason keyId)
  -- over the grades of the round; what has been counted stays counted
  induction gs generalizing db c with
  | nil =>
    have hrows : db.payouts.rows = db.payouts.rows ++ [] := (List.append_nil _).symm
    exact .done hrows (fun h => h)
  | cons g gs ih =>
    obtain ⟨hg, hgs⟩ := List.forall_mem_cons.mp hgs
    obtain ⟨hid, hids⟩ := List.pairwise_cons.mp hids
    obtain ⟨hx, hexperts⟩ := List.pairwise_cons.mp hexperts
    have hpass := resolveGrade_passed lib env delivered actor reason keyId c hg
    rw [List.foldlM_cons, exec_bind]
    generalize exec (Counted.resolveGrade lib env task delivered reason keyId actor db g) c = out
      at hpass
    -- after a pass the rest of the loop owes what it owed before it
    have hrest {db₁ : Db} {new : List Payout} (hadv : Advances db db₁ g new) (c₁ : Counters) :=
      ih c₁ (fun x hmem => hadv.unsettled (hgs x hmem) (hid x hmem).symm (hx x hmem).symm) hids
        hexperts
    have hdue {db₁ : Db} {new : List Payout} (hadv : Advances db db₁ g new) (paid : Bool) :
        Overcounts (due db₁) paid gs ↔ Overcounts (due db) paid gs :=
      overcounts_congr (fun x hmem => hadv.due (hx x hmem).symm _)
    -- nothing to store, an amount the library refuses, nothing due, or a payout
    cases hpass with
    | failed hd e =>
      have hstop (paid : Bool) : Overcounts (due db) paid (g :: gs) ↔ paid = true :=
        overcounts_failed hd
      exact .stopped ((hstop true).mpr rfl) le_rfl (fun _ => rfl)
        (fun h => absurd ((hstop false).mp h) (by decide))
    | refused hd hneg e status =>
      have hstop (paid : Bool) : Overcounts (due db) paid (g :: gs) :=
        (overcounts_amount hd).mpr (Or.inl hneg)
      have hlt : c.count < (c.bump status).count := by
        rw [Counters.count_bump]
        omega
      exact .stopped (hstop true) hlt.le (fun h => absurd (hstop false) h) (fun _ => hlt)
    | @unpaid db₁ hd hadv =>
      exact .unpaid hadv (fun paid => (overcounts_unpaid hd).trans (hdue hadv paid).symm)
        (hrest hadv c)
    | @paid db₁ p amount hd hpos hadv =>
      have hstep (paid : Bool) : Overcounts (due db) paid (g :: gs) ↔
          Overcounts (due db₁) true gs := by
        rw [hdue hadv]
        exact (overcounts_amount hd).trans (or_iff_right (not_lt.mpr hpos))
      exact .paid hadv hstep (hrest hadv (c.add p))

end Loop

/-! ### Requests -/

/-- A grade without a decision can be decided and paid. -/
theorem undecided_unsettled (rs : List Request) {g : Grade} {task : Task}
    (hg : g ∈ (after rs).grades)
    (ht : task.id = g.taskId) (hd : decision (after rs) g.id = none) :
    Unsettled (after rs) task g := by
  have hunpaid : ∀ p ∈ (after rs).payouts, p.gradeId ≠ g.id := by
    intro p hp he
    exact payouts_decided rs p hp (he ▸ hd)
  refine ⟨⟨fun p hp => ⟨hunpaid p hp, ?_⟩, ((Linked.after rs).grades g hg).expert⟩,
    Option.map_eq_none_iff.mp hd⟩
  rintro ⟨htask, hx⟩
  obtain ⟨g', hg', hexp, htask'⟩ := ((Linked.after rs).payouts p hp).grade
  have hsame : g' = g := (after rs).grades.eq_of_clash (Table.get_mem hg') hg
    (Or.inr (Prod.ext (htask'.symm.trans (htask.trans ht)) (hexp.symm.trans hx)))
  refine hunpaid p hp ?_
  rw [← hsame]
  exact (Table.get_pk hg').symm

/-- What a request answers and how it moves the counters of its process. -/
inductive Served (db : Db) (r : Request) (c : Counters) :
    Except Failure (Db × Response) × Counters → Prop
  | committed {db' : Db} {x : Response} {c' : Counters} (hno : ¬ CountsUncommitted db r)
      (hc : c' = (newPayouts db db').foldl Counters.add c) : Served db r c (.ok (db', x), c')
  | rolledBack (hno : ¬ CountsUncommitted db r) (e : Failure) : Served db r c (.error e, c)
  | overcounted (hstop : CountsUncommitted db r) (e : Failure) {c' : Counters}
      (hlt : c.count < c'.count) : Served db r c (.error e, c')

theorem newPayouts_of_rows {db db' : Db} {new : List Payout}
    (h : db'.payouts.rows = db.payouts.rows ++ new) : newPayouts db db' = new := by
  have hdistinct := db'.payouts.distinct
  rw [h, List.pairwise_append] at hdistinct
  unfold newPayouts
  rw [h, List.filter_append, List.filter_eq_nil_iff.mpr, List.nil_append, List.filter_eq_self]
  · intro p hp
    rw [Option.isNone_iff_eq_none, Table.get_eq_none]
    exact fun q hq he => hdistinct.2.2 q hq p hp (Or.inl he)
  · intro p hp hnone
    rw [Option.isNone_iff_eq_none, Table.get_eq_none] at hnone
    exact hnone p hp rfl

theorem Undecided.newPayouts {db db' : Db} (h : Undecided db db') : newPayouts db db' = [] := by
  rw [Panelist.newPayouts, List.filter_eq_nil_iff]
  intro p hp hnone
  obtain ⟨q, hq, he⟩ := (h.paid_iff p.gradeId).mp ⟨p, hp, rfl⟩
  rw [Option.isNone_iff_eq_none, Table.get_eq_none] at hnone
  exact hnone q hq he

section Serving
variable {lib : CounterLib} {db : Db} {r : Request} {c : Counters}

theorem Served.map {α : Type} {f : Db × α → Db × Response} {m : Metered (Db × α)}
    (h : Served db r c ((exec m c).1.map f, (exec m c).2)) : Served db r c (exec (f <$> m) c) := by
  rw [map_eq_pure_bind, exec_bind]
  match hm : exec m c with
  | (.ok p, c') =>
    rw [hm] at h
    exact h
  | (.error e, c') =>
    rw [hm] at h
    exact h

theorem countsUncommitted_review {keyId : Uuid} {body : ReviewCreate} {actor : String}
    (hop : r.op = .review keyId body actor) : CountsUncommitted db r ↔
      ∃ grade task, db.grades.get body.gradeId = some grade ∧ db.reviews.get grade.id = none ∧
        db.tasks.get grade.taskId = some task ∧ rejectIfConsensusPending task = .ok () ∧
        Overcounts (decisionDue db task (reviewShare body.decision) (reviewed r.env keyId body))
          false [grade] := by
  unfold CountsUncommitted
  rw [hop]

theorem countsUncommitted_resolve {taskId gradeId keyId : Uuid} {reason actor : String}
    (hop : r.op = .resolve taskId gradeId reason keyId actor) : CountsUncommitted db r ↔
      1 ≤ reason.length ∧ ∃ row delivered task,
        db.consensus.get taskId = some row ∧ row.status = .adjudicating ∧
        delivered ∈ gradesFor db taskId ∧ delivered.id = gradeId ∧
        db.tasks.get taskId = some task ∧
        Overcounts (decisionDue db task (resolveShare r.env.settings delivered)
          (verdict r.env delivered reason keyId)) false (gradesFor db taskId) := by
  unfold CountsUncommitted
  rw [hop]

theorem calibrationUpdate_payouts (env : Env) (db : Db) (expert : Expert) (actor : String) :
    (calibrationUpdate env db expert actor).1.payouts = db.payouts := by
  obtain ⟨changes, events, hu⟩ := calibrationUpdate_eq env db expert actor
  rw [hu]

variable (c) in
/-- What a review does after it paid: it moves no counter and no payout. -/
theorem review_ends (env : Env) {grade : Grade} {task : Task} {expert : Expert} (v : Review)
    (d : ReviewDecision) (actor : String) (ht : db.tasks.get task.id = some task)
    (hx : db.experts.get grade.expertId = some expert) :
    ∃ db', db'.payouts = db.payouts ∧ exec (do
      let db := reviewTask db task d actor
      let db := if d = .reject then redeliver db task grade actor else db
      let db := record db actor s!"grade.{d.value}" "grade" grade.id.str
      let expert ← lift
        (orFail (db.experts.get grade.expertId) (.integrity "grades_expert_id_fkey"))
      pure ((calibrationUpdate env db expert actor).1, v) : Metered (Db × Review)) c =
        (.ok (db', v), c) := by
  dsimp only
  rw [redeliverIf_eq, reviewTask_eq ht]
  dsimp only [record]
  rw [hx, orFail, exec_lift_bind]
  refine ⟨_, ?_, rfl⟩
  exact calibrationUpdate_payouts _ _ _ _

theorem gradesFor_ids (db : Db) (taskId : Uuid) :
    (gradesFor db taskId).Pairwise (fun a b => a.id ≠ b.id) := by
  refine ((gradesFor_perm db taskId).pairwise_iff (fun h => h.symm)).mpr ?_
  exact (List.Pairwise.filter _ db.grades.distinct).imp (fun hn he => hn (Or.inl he))

/-- No grade of an open adjudication is decided. -/
theorem adjudicating_undecided (rs : List Request) {taskId : Uuid} {row : Consensus}
    (hrow : (after rs).consensus.get taskId = some row) (hadj : row.status = .adjudicating) :
    ∃ task, (after rs).tasks.get taskId = some task ∧
      ∀ g ∈ gradesFor (after rs) taskId, decision (after rs) g.id = none := by
  obtain ⟨task, ht, hid⟩ := (Consistent.after rs).roundTask row (Table.get_mem hrow)
  have hk : row.taskId = taskId := Table.get_pk hrow
  rw [hk] at hid
  refine ⟨task, (after rs).tasks.get_eq_some.mpr ⟨ht, hid⟩, fun g hg => ?_⟩
  have hphase := (Consistent.after rs).phase task ht
  rw [hid, hrow] at hphase
  cases hphase with
  | agreed _ _ _ _ hc => exact absurd (hc.symm.trans hadj) (by decide)
  | adjudicated _ _ _ _ hc => exact absurd (hc.symm.trans hadj) (by decide)
  | adjudicating _ _ _ _ _ _ _ hd =>
    exact hd g ((gradesFor_perm (after rs) taskId).mem_iff.mp hg)

variable (lib c) in
/-- A review that fails a check is rolled back before anything is counted. -/
theorem review_unchecked (env : Env) {keyId : Uuid} {body : ReviewCreate} {actor : String}
    (h : ¬ ∃ grade task, db.grades.get body.gradeId = some grade ∧
      db.reviews.get grade.id = none ∧ db.tasks.get grade.taskId = some task ∧
      rejectIfConsensusPending task = .ok ()) :
    ∃ e, exec (Counted.review lib env db keyId body actor) c = (.error e, c) := by
  unfold Counted.review
  -- the checks in the order of the source; each that fails ends it
  cases hg : db.grades.get body.gradeId with
  | none => exact ⟨_, rfl⟩
  | some grade =>
  rw [orFail, exec_lift_bind]
  dsimp only
  cases hrev : db.reviews.get grade.id with
  | some w => exact ⟨_, rfl⟩
  | none =>
  rw [Option.isNone_none, require, if_pos rfl, exec_lift_bind]
  dsimp only
  cases ht : db.tasks.get grade.taskId with
  | none => exact ⟨_, rfl⟩
  | some task =>
  rw [orFail, exec_lift_bind]
  dsimp only
  cases hallow : rejectIfConsensusPending task with
  | error e => exact ⟨_, rfl⟩
  | ok u => exact absurd ⟨grade, task, hg, hrev, ht, hallow⟩ h

/-- A review that passes its checks counts what it commits, unless its amount is negative. -/
theorem review_checked (rs : List Request) {keyId : Uuid} {body : ReviewCreate} {actor : String}
    (hop : r.op = .review keyId body actor) {grade : Grade} {task : Task}
    (hg : (after rs).grades.get body.gradeId = some grade)
    (hrev : (after rs).reviews.get grade.id = none)
    (ht : (after rs).tasks.get grade.taskId = some task)
    (hallow : rejectIfConsensusPending task = .ok ()) :
    Served (after rs) r c
      ((exec (Counted.review lib r.env (after rs) keyId body actor) c).1.map
        (fun p => (p.1, .review p.2)),
      (exec (Counted.review lib r.env (after rs) keyId body actor) c).2) := by
  unfold Counted.review
  rw [hg, orFail, exec_lift_bind]
  dsimp only
  rw [hrev, Option.isNone_none, require, if_pos rfl, exec_lift_bind]
  dsimp only
  rw [ht, orFail, exec_lift_bind]
  dsimp only
  rw [hallow, exec_lift_bind]
  dsimp only
  have hid : task.id = grade.taskId := Table.get_pk ht
  have hsettle := undecided_unsettled rs (Table.get_mem hg) hid
    (by rw [decision, hrev]; rfl)
  -- the review overcounts exactly if the amount that is due is negative
  have hstop : CountsUncommitted (after rs) r ↔
      Overcounts (decisionDue (after rs) task (reviewShare body.decision)
        (reviewed r.env keyId body)) false [grade] := by
    rw [countsUncommitted_review hop]
    constructor
    · rintro ⟨grade', task', hget, _, htask, _, h⟩
      obtain rfl := Option.some.inj (hg.symm.trans hget)
      obtain rfl := Option.some.inj (ht.symm.trans htask)
      exact h
    · exact fun h => ⟨grade, task, hg, hrev, ht, hallow, h⟩
  have hverdict : (⟨grade.id, keyId, body.decision, body.reason, r.env.now⟩ : Review) =
      reviewed r.env keyId body grade := rfl
  rw [hverdict]
  by_cases hs : (reviewed r.env keyId body grade).storable
  case neg =>
    rw [require, if_neg hs]
    refine .rolledBack (fun h => ?_) _
    exact Bool.false_ne_true
      ((overcounts_failed (by rw [decisionDue, if_neg hs])).mp (hstop.mp h))
  rw [require, if_pos hs, exec_lift_bind]
  dsimp only
  obtain ⟨reviews, hins⟩ := insert_review (v := reviewed r.env keyId body grade) hrev
  rw [hins, orFail, exec_lift_bind]
  dsimp only
  rw [exec_bind, reviewPayout_eq_pay]
  have hpayable : Payable { after rs with reviews := reviews } task grade :=
    ⟨hsettle.unpaid, hsettle.author⟩
  have hpay := pay_pays lib r.env _ (reviewShare body.decision) actor c hpayable
  have hdue : decisionDue (after rs) task (reviewShare body.decision) (reviewed r.env keyId body)
      grade = amountDue { after rs with reviews := reviews } task (reviewShare body.decision)
        grade := by
    rw [decisionDue, if_pos hs]
    rfl
  obtain ⟨expert, hx⟩ := hsettle.author
  have htask : (after rs).tasks.get task.id = some task := by rw [hid]; exact ht
  generalize exec (Counted.pay lib r.env { after rs with reviews := reviews } task
    (reviewShare body.decision) grade actor) c = out at hpay
  cases hpay with
  | nothing hd =>
    have hends := @review_ends { after rs with reviews := reviews } c r.env grade task expert
      (reviewed r.env keyId body grade) body.decision actor htask hx
    obtain ⟨db', hpayouts, hends⟩ := hends
    dsimp only at hends ⊢
    rw [hends]
    have hrows : db'.payouts.rows = (after rs).payouts.rows ++ [] := by
      rw [hpayouts, List.append_nil]
    refine .committed (fun h => ?_) (by rw [newPayouts_of_rows hrows]; rfl)
    exact (overcounts_unpaid (hdue.trans hd)).mp (hstop.mp h)
  | failed hd e =>
    refine .rolledBack (fun h => ?_) e
    exact Bool.false_ne_true ((overcounts_failed (hdue.trans hd)).mp (hstop.mp h))
  | refused hd hneg e status =>
    refine .overcounted (hstop.mpr ?_) e ?_
    · exact (overcounts_amount (hdue.trans hd)).mpr (Or.inl hneg)
    · show c.count < (c.bump status).count
      rw [Counters.count_bump]
      omega
  | @counted amount p payouts events hd hpos hpg hpx hi =>
    have hends := @review_ends { after rs with
        reviews := reviews
        payouts := payouts
        auditEvents := events } (c.add p) r.env grade task expert
      (reviewed r.env keyId body grade) body.decision actor htask hx
    obtain ⟨db', hpayouts, hends⟩ := hends
    dsimp only at hends ⊢
    rw [hends]
    have hrows : db'.payouts.rows = (after rs).payouts.rows ++ [p] := by
      rw [hpayouts]
      exact (Table.insert_eq_some.mp hi).2
    refine .committed (fun h => ?_) (by rw [newPayouts_of_rows hrows]; rfl)
    exact ((overcounts_amount (hdue.trans hd)).mp (hstop.mp h)).elim (not_lt.mpr hpos) id

/-- A review counts what it commits, unless it reaches a negative amount. -/
theorem review_served (rs : List Request) {keyId : Uuid} {body : ReviewCreate} {actor : String}
    (hop : r.op = .review keyId body actor) :
    Served (after rs) r c (exec (Counted.step lib r (after rs)) c) := by
  unfold Counted.step
  rw [hop]
  apply Served.map
  by_cases hchecks : ∃ grade task, (after rs).grades.get body.gradeId = some grade ∧
      (after rs).reviews.get grade.id = none ∧ (after rs).tasks.get grade.taskId = some task ∧
      rejectIfConsensusPending task = .ok ()
  · obtain ⟨grade, task, hg, hrev, ht, hallow⟩ := hchecks
    exact review_checked rs hop hg hrev ht hallow
  · obtain ⟨e, he⟩ := review_unchecked lib c r.env hchecks
    rw [he]
    refine .rolledBack (fun h => hchecks ?_) e
    obtain ⟨grade, task, hg, hrev, ht, hallow, _⟩ := (countsUncommitted_review hop).mp h
    exact ⟨grade, task, hg, hrev, ht, hallow⟩

variable (lib c) in
/-- An adjudication that fails a check is rolled back before anything is counted. -/
theorem resolve_unchecked (env : Env) {taskId gradeId keyId : Uuid} {reason actor : String}
    (h : ¬ (1 ≤ reason.length ∧ ∃ row delivered, db.consensus.get taskId = some row ∧
      row.status = .adjudicating ∧ delivered ∈ gradesFor db taskId ∧ delivered.id = gradeId)) :
    ∃ e, exec (Counted.resolve lib env db taskId gradeId reason keyId actor) c =
      (.error e, c) := by
  unfold Counted.resolve
  -- the checks in the order of the source; each that fails ends it
  by_cases hlen : 1 ≤ reason.length
  case neg =>
    rw [require, if_neg hlen]
    exact ⟨_, rfl⟩
  rw [require, if_pos hlen, exec_lift_bind]
  dsimp only
  cases hrow : db.consensus.get taskId with
  | none => exact ⟨_, rfl⟩
  | some row =>
  rw [orFail, exec_lift_bind]
  dsimp only
  by_cases hadj : row.status = .adjudicating
  case neg =>
    rw [require, if_neg hadj]
    exact ⟨_, rfl⟩
  rw [require, if_pos hadj, exec_lift_bind]
  dsimp only
  cases hd : (gradesFor db taskId).find? (fun g => g.id = gradeId) with
  | none => exact ⟨_, rfl⟩
  | some delivered =>
    have hid : delivered.id = gradeId := by simpa using List.find?_some hd
    exact absurd ⟨hlen, row, delivered, hrow, hadj, List.mem_of_find?_eq_some hd, hid⟩ h

/-- An adjudication that passes its checks counts what it commits, unless it overcounts. -/
theorem resolve_checked (rs : List Request) {taskId gradeId keyId : Uuid} {reason actor : String}
    (hop : r.op = .resolve taskId gradeId reason keyId actor) (hlen : 1 ≤ reason.length)
    {row : Consensus} {delivered : Grade} (hrow : (after rs).consensus.get taskId = some row)
    (hadj : row.status = .adjudicating) (hmem : delivered ∈ gradesFor (after rs) taskId)
    (hid : delivered.id = gradeId) :
    Served (after rs) r c
      ((exec (Counted.resolve lib r.env (after rs) taskId gradeId reason keyId actor) c).1.map
        (fun p => (p.1, .round p.2)),
      (exec (Counted.resolve lib r.env (after rs) taskId gradeId reason keyId actor) c).2) := by
  -- ids are unique, so the search finds the grade that is named
  have hfind : (gradesFor (after rs) taskId).find? (fun g => g.id = gradeId) = some delivered := by
    cases hd : (gradesFor (after rs) taskId).find? (fun g => g.id = gradeId) with
    | none => exact absurd hid (by simpa using List.find?_eq_none.mp hd delivered hmem)
    | some found =>
      have hfound : found.id = gradeId := by simpa using List.find?_some hd
      rw [(after rs).grades.eq_of_pk (mem_gradesFor.mp (List.mem_of_find?_eq_some hd)).1
        (mem_gradesFor.mp hmem).1 (hfound.trans hid.symm)]
  obtain ⟨task, ht, hundecided⟩ := adjudicating_undecided rs hrow hadj
  -- the four checks pass
  unfold Counted.resolve
  rw [require, if_pos hlen, exec_lift_bind]
  dsimp only
  rw [hrow, orFail, exec_lift_bind]
  dsimp only
  rw [require, if_pos hadj, exec_lift_bind]
  dsimp only
  rw [hfind, orFail, exec_lift_bind]
  dsimp only
  rw [ht, orFail, exec_lift_bind]
  dsimp only
  have htask : task.id = taskId := Table.get_pk ht
  -- the condition on the request is one on the loop
  have hstop : CountsUncommitted (after rs) r ↔
      Overcounts (decisionDue (after rs) task (resolveShare r.env.settings delivered)
        (verdict r.env delivered reason keyId)) false (gradesFor (after rs) taskId) := by
    rw [countsUncommitted_resolve hop]
    constructor
    · rintro ⟨_, row', delivered', task', _, _, hmem', hid', htask', h⟩
      obtain rfl := Option.some.inj (ht.symm.trans htask')
      have hsame : delivered' = delivered := (after rs).grades.eq_of_pk (mem_gradesFor.mp hmem').1
        (mem_gradesFor.mp hmem).1 (hid'.trans hid.symm)
      rwa [hsame] at h
    · exact fun h => ⟨hlen, row, delivered, task, hrow, hadj, hmem, hid, ht, h⟩
  have hloop := loop_looped lib r.env delivered actor reason keyId c
    (fun g hg => undecided_unsettled rs (mem_gradesFor.mp hg).1
      (htask.trans (mem_gradesFor.mp hg).2.symm) (hundecided g hg))
    (gradesFor_ids _ _) (gradesFor_experts _ _)
  rw [exec_bind]
  generalize exec ((gradesFor (after rs) taskId).foldlM
    (Counted.resolveGrade lib r.env task delivered reason keyId actor) (after rs)) c = out at hloop
  -- the loop pays everybody, or stops and is taken back
  cases hloop with
  | @done db' new hrows hno =>
    refine .committed (fun h => hno (overcounts_mono (hstop.mp h))) ?_
    exact congrArg (List.foldl Counters.add c) (newPayouts_of_rows hrows).symm
  | @stopped e c' hstops hle hsame hmore =>
    by_cases h : CountsUncommitted (after rs) r
    · exact .overcounted h e (hmore (hstop.mp h))
    · have hc := hsame (fun h' => h (hstop.mpr h'))
      rw [hc]
      exact .rolledBack h e

/-- An adjudication counts what it commits, unless it overcounts. -/
theorem resolve_served (rs : List Request) {taskId gradeId keyId : Uuid} {reason actor : String}
    (hop : r.op = .resolve taskId gradeId reason keyId actor) :
    Served (after rs) r c (exec (Counted.step lib r (after rs)) c) := by
  unfold Counted.step
  rw [hop]
  apply Served.map
  by_cases hchecks : 1 ≤ reason.length ∧ ∃ row delivered,
      (after rs).consensus.get taskId = some row ∧ row.status = .adjudicating ∧
      delivered ∈ gradesFor (after rs) taskId ∧ delivered.id = gradeId
  · obtain ⟨hlen, row, delivered, hrow, hadj, hmem, hid⟩ := hchecks
    exact resolve_checked rs hop hlen hrow hadj hmem hid
  · obtain ⟨e, he⟩ := resolve_unchecked lib c r.env hchecks
    rw [he]
    refine .rolledBack (fun h => hchecks ?_) e
    obtain ⟨hlen, row, delivered, task, hrow, hadj, hmem, hid, _⟩ :=
      (countsUncommitted_resolve hop).mp h
    exact ⟨hlen, row, delivered, hrow, hadj, hmem, hid⟩

theorem step_served (lib : CounterLib) (rs : List Request) (r : Request) (c : Counters) :
    Served (after rs) r c (exec (Counted.step lib r (after rs)) c) := by
  cases hop : r.op with
  | review keyId body actor => exact review_served rs hop
  | resolve taskId gradeId reason keyId actor => exact resolve_served rs hop
  | _ =>
    -- no other operation pays
    have hdec : r.op.decides = false := by
      rw [hop]
      rfl
    have hno : ¬ CountsUncommitted (after rs) r := by
      unfold CountsUncommitted
      rw [hop]
      exact id
    have hplain : Counted.step lib r (after rs) = lift (step r (after rs)) := by
      unfold Counted.step
      rw [hop]
    rw [hplain, exec_lift]
    cases hstep : step r (after rs) with
    | error e => exact .rolledBack hno e
    | ok out =>
      obtain ⟨db', x⟩ := out
      refine .committed hno ?_
      rw [((step_effects hstep).undecided hdec).newPayouts, List.foldl_nil]

end Serving

/-! ### Runs of a process -/

/-- A call of the process overcounts when it is its own. -/
def Call.Overcounts (call : Call) (s : Process) : Prop :=
  match call with
  | .own r => CountsUncommitted s.db r
  | .other _ => False

/-- Through all of `calls` the counters are what the process committed, and its own failed
requests leave the database and the counters as they were. -/
structure CountersExact (lib : CounterLib) (calls : List Call) : Prop where
  exact : ∀ earlier later, calls = earlier ++ later → (run (serve lib) .start earlier).Exact
  restored : ∀ earlier r later, calls = earlier ++ .own r :: later →
    ∀ s' e, serve lib (.own r) (run (serve lib) .start earlier) = .ok (s', .error e) →
      s' = run (serve lib) .start earlier

section Process
variable {lib : CounterLib} {call : Call} {s : Process}

theorem commit_own (r : Request) : commit (serve lib) (.own r) s =
    match exec (Counted.step lib r s.db) s.counters with
    | (.ok (db', _), c) => ⟨db', c, s.committed ++ newPayouts s.db db'⟩
    | (.error _, c) => { s with counters := c } := by
  unfold commit serve
  dsimp only
  generalize exec (Counted.step lib r s.db) s.counters = out
  match out with
  | (.ok (db', x), c) => rfl
  | (.error e, c) => rfl

theorem commit_other (r : Request) : commit (serve lib) (.other r) s =
    match exec (Counted.step lib r s.db) (tally []) with
    | (.ok (db', _), _) => { s with db := db' }
    | (.error _, _) => s := by
  unfold commit serve
  dsimp only
  generalize exec (Counted.step lib r s.db) (tally []) = out
  match out with
  | (.ok (db', x), c) => rfl
  | (.error e, c) => rfl

/-- Every call commits what the model's request commits. -/
theorem serve_db (h : ∃ rs, s.db = after rs) : ∃ rs, (commit (serve lib) call s).db = after rs := by
  obtain ⟨rs, hs⟩ := h
  have hcommit (r : Request) {db' : Db} {x : Response} {c c' : Counters}
      (hrun : exec (Counted.step lib r s.db) c = (.ok (db', x), c')) : db' = after (rs ++ [r]) := by
    have hstep := erases_step lib s.db r c (db', x) c' hrun
    have hafter : after (rs ++ [r]) = commit step r (after rs) := run_concat step _ rs r
    rw [hafter, ← hs, commit_of_ok step hstep]
  cases call with
  | own r =>
    rw [commit_own]
    match hrun : exec (Counted.step lib r s.db) s.counters with
    | (.ok (db', x), c) => exact ⟨rs ++ [r], hcommit r hrun⟩
    | (.error e, c) => exact ⟨rs, hs⟩
  | other r =>
    rw [commit_other]
    match hrun : exec (Counted.step lib r s.db) (tally []) with
    | (.ok (db', x), c) => exact ⟨rs ++ [r], hcommit r hrun⟩
    | (.error e, c) => exact ⟨rs, hs⟩

theorem serve_other (r : Request) (h : s.Exact) : (commit (serve lib) (.other r) s).Exact := by
  rw [commit_other]
  match exec (Counted.step lib r s.db) (tally []) with
  | (.ok (db', x), c) => exact h
  | (.error e, c) => exact h

/-- An exact process stays exact unless its own request overcounts. -/
theorem serve_exact_iff (hs : ∃ rs, s.db = after rs) (h : s.Exact) :
    (commit (serve lib) call s).Exact ↔ ¬ call.Overcounts s := by
  obtain ⟨rs, hs⟩ := hs
  cases call with
  | other r => exact ⟨fun _ => id, fun _ => serve_other r h⟩
  | own r =>
    have hserved := step_served lib rs r s.counters
    rw [← hs] at hserved
    rw [commit_own]
    unfold Call.Overcounts
    dsimp only
    generalize exec (Counted.step lib r s.db) s.counters = out at hserved
    -- committed and counted, rolled back, or counted without a commit
    cases hserved with
    | @committed db' x c' hno hc =>
      refine ⟨fun _ => hno, fun _ => ?_⟩
      show c' = tally (s.committed ++ newPayouts s.db db')
      rw [hc, tally_append, ← h]
    | rolledBack hno e => exact ⟨fun _ => hno, fun _ => h⟩
    | @overcounted hstop e c' hlt =>
      refine ⟨fun hex => absurd ?_ hlt.ne, fun hno => absurd hstop hno⟩
      have hc : c' = tally s.committed := hex
      rw [hc, ← h]

/-- A failed call commits nothing. -/
theorem serve_failed {r : Request} {s' : Process} {e : Failure}
    (h : serve lib (.own r) s = .ok (s', .error e)) : s' = { s with counters := s'.counters } := by
  unfold serve at h
  match hrun : exec (Counted.step lib r s.db) s.counters with
  | (.ok (db', x), c) =>
    dsimp only at h
    rw [hrun] at h
    exact absurd h (by simp)
  | (.error e', c) =>
    dsimp only at h
    rw [hrun] at h
    obtain ⟨rfl, _⟩ := Prod.mk.inj (Except.ok.inj h)
    rfl

end Process

/-- The counters of a process are exact through a run if and only if none of its own requests
reaches a negative amount, or pays a grade and then meets one without a rate or with an amount
or a review that cannot be stored. -/
theorem countersExact_iff (lib : CounterLib) (calls : List Call) : CountersExact lib calls ↔
    Along (serve lib) (fun s call => ¬ call.Overcounts s) .start calls := by
  have hlaw := throughout_iff_along (serve lib) (J := fun s => ∃ rs, s.db = after rs)
    (P := Process.Exact) (C := fun s call => ¬ call.Overcounts s) (fun _ _ hs => serve_db hs)
    (fun _ _ hs h => serve_exact_iff hs h) (s := .start) ⟨[], rfl⟩ rfl (l := calls)
  rw [← hlaw]
  constructor
  · exact fun h => h.exact
  · intro h
    refine ⟨h, fun earlier r later hcalls s' e hs' => ?_⟩
    have hbefore : (run (serve lib) .start earlier).Exact := h earlier _ hcalls
    have hafter : (run (serve lib) .start (earlier ++ [.own r])).Exact :=
      h (earlier ++ [.own r]) later (by rw [hcalls, List.append_assoc, List.singleton_append])
    rw [run_concat, commit_of_ok (serve lib) hs'] at hafter
    have hsame := serve_failed hs'
    have hcounters : s'.counters = (run (serve lib) .start earlier).counters := by
      calc s'.counters = tally s'.committed := hafter
        _ = tally (run (serve lib) .start earlier).committed := by rw [hsame]
        _ = (run (serve lib) .start earlier).counters := hbefore.symm
    rw [hsame, hcounters]

namespace Scenario

/-- A counter that adds. -/
def counterLib : CounterLib where
  inc v a := if 0 ≤ a then some (v + a) else none
  adds _ _ h := if_pos h
  refuses _ _ h := if_neg (not_le.mpr h)

/-- Grades 700 and 900 on task 500 disagree, and the tier of expert 400 has no rate card. -/
def oneCard : List Call := List.map Call.own
  [call 1 (.createRubric "helpfulness" 1 [⟨"accuracy", "Accuracy", 1, 1, 5⟩] "admin"),
   call 2 (.putRateCards [⟨.junior, "default", 300⟩] "admin"),
   call 3 (.createExpert ⟨"A", ["python"], .junior, none⟩ "admin"),
   call 4 (.createExpert ⟨"B", ["python"], .senior, none⟩ "admin"),
   call 5 (.createTasks [{ task with requiredGrades := 2 }] "admin"),
   call 6 (.claimNext 300), call 7 (.submit 300 (grade 500 1)),
   call 8 (.claimNext 400), call 9 (.submit 400 (grade 500 5))]

/-- The adjudication pays grade 700 and then finds no rate for grade 900. -/
def unpayable : Call := .own (call 10 (.resolve 500 700 "Closer." 7 "senior"))

end Scenario

open Scenario in
/-- The counters of the process keep the 300 cents that were rolled back. -/
theorem rolledBack_payout_counted : ¬ CountersExact counterLib (oneCard ++ [unpayable]) := by
  intro h
  have hexact := h.exact (oneCard ++ [unpayable]) [] (List.append_nil _).symm
  have hcounted : (run (serve counterLib) .start (oneCard ++ [unpayable])).counters.payoutCents
      .pending = 300 := by decide +kernel
  have hcommitted :
      (run (serve counterLib) .start (oneCard ++ [unpayable])).committed.length = 0 := by
    decide +kernel
  rw [hexact, List.eq_nil_of_length_eq_zero hcommitted] at hcounted
  exact absurd hcounted (by decide)

end Panelist
