import Panelist.Effects

/-! What a request writes down: the four histories of the service only grow, and of six kinds of
rows each new one is entered in the trail, in the order the rows are added. One walk through the
services shows both. -/
namespace Panelist
open Relational Transaction

/-- `db'` has all that `db` has written down, as it was and in its order. -/
structure Grows (db db' : Db) : Prop where
  events : db.auditEvents <+: db'.auditEvents
  changes : db.tierChanges <+: db'.tierChanges
  results : db.attentionResults.Evolves Eq db'.attentionResults
  deliveries : db.deliveries.Evolves Eq db'.deliveries

/-- The kinds of rows that each get an event of their own when they are added. -/
inductive Account where
  | expert | grade | payout | period | delivery | tierChange
  deriving DecidableEq

namespace Account

def action : Account → String
  | expert => "expert.created"
  | grade => "grade.submitted"
  | payout => "payout.created"
  | period => "period.closed"
  | delivery => "delivery.exported"
  | tierChange => "expert.tier"

/-- The rows as the events name them: by their ids, a tier change by its expert. -/
def entities (A : Account) (db : Db) : List String :=
  match A with
  | expert => (db.experts.rows.map pk).map Uuid.str
  | grade => (db.grades.rows.map pk).map Uuid.str
  | payout => (db.payouts.rows.map Payout.id).map Uuid.str
  | period => (db.payoutPeriods.rows.map pk).map Uuid.str
  | delivery => (db.deliveries.rows.map Delivery.id).map Uuid.str
  | tierChange => db.tierChanges.map (fun change => change.expertId.str)

/-- What the events of the account name. -/
def entries (A : Account) (db : Db) : List String :=
  (db.auditEvents.filter (fun e => e.action = A.action)).map AuditEvent.entityId

theorem action_injective : Function.Injective action := by
  intro A B h
  cases A <;> cases B <;> first | rfl | exact absurd h (by decide)

def all : List Account := [expert, grade, payout, period, delivery, tierChange]

theorem mem_all (A : Account) : A ∈ all := by
  cases A <;> decide

end Account

/-- No account is about events of this action. -/
def Unaccounted (action : String) : Prop := ∀ A ∈ Account.all, action ≠ A.action

instance (action : String) : Decidable (Unaccounted action) :=
  inferInstanceAs (Decidable (∀ A ∈ Account.all, action ≠ A.action))

/-- Whatever has been added to an account has been entered in the trail, in the same order. -/
structure Settled (db db' : Db) : Prop where
  adds : ∀ A : Account, ∃ new,
    A.entities db' = A.entities db ++ new ∧ A.entries db' = A.entries db ++ new

/-- Neither an account nor its entries change. -/
structure Silent (db db' : Db) : Prop where
  entities : ∀ A : Account, A.entities db' = A.entities db
  entries : ∀ A : Account, A.entries db' = A.entries db

/-- A write that adds to no account; its events are of other actions. -/
structure Quiet (db db' : Db) : Prop extends Silent db db', Grows db db'

/-- What one or more writes do. -/
structure Written (db db' : Db) : Prop extends Settled db db', Grows db db'

section Steps
variable {env : Env} {db db' db'' : Db}

theorem Grows.refl (db : Db) : Grows db db where
  events := List.prefix_refl _
  changes := List.prefix_refl _
  results := .refl (fun _ => rfl) _
  deliveries := .refl (fun _ => rfl) _

theorem Grows.trans (h : Grows db db') (h' : Grows db' db'') : Grows db db'' where
  events := h.events.trans h'.events
  changes := h.changes.trans h'.changes
  results := h.results.trans Eq.trans h'.results
  deliveries := h.deliveries.trans Eq.trans h'.deliveries

/-- A write to any other table. -/
theorem Grows.same (hevents : db'.auditEvents = db.auditEvents)
    (hchanges : db'.tierChanges = db.tierChanges)
    (hresults : db'.attentionResults = db.attentionResults)
    (hdeliveries : db'.deliveries = db.deliveries) : Grows db db' where
  events := hevents ▸ List.prefix_refl _
  changes := hchanges ▸ List.prefix_refl _
  results := hresults ▸ .refl (fun _ => rfl) _
  deliveries := hdeliveries ▸ .refl (fun _ => rfl) _

/-- `audit.record` after what grew. -/
theorem Grows.record (h : Grows db db') (actor action entityType entityId : String) :
    Grows db (record db' actor action entityType entityId) :=
  { h with events := h.events.trans (List.prefix_append _ _) }

theorem Silent.refl (db : Db) : Silent db db := ⟨fun _ => rfl, fun _ => rfl⟩

theorem Silent.trans (h : Silent db db') (h' : Silent db' db'') : Silent db db'' where
  entities A := (h'.entities A).trans (h.entities A)
  entries A := (h'.entries A).trans (h.entries A)

theorem Settled.refl (db : Db) : Settled db db :=
  ⟨fun _ => ⟨[], (List.append_nil _).symm, (List.append_nil _).symm⟩⟩

theorem Settled.trans (h : Settled db db') (h' : Settled db' db'') : Settled db db'' := by
  constructor
  intro A
  obtain ⟨new, hrows, hentries⟩ := h.adds A
  obtain ⟨new', hrows', hentries'⟩ := h'.adds A
  exact ⟨new ++ new', by rw [hrows', hrows, List.append_assoc],
    by rw [hentries', hentries, List.append_assoc]⟩

theorem Silent.settled (h : Silent db db') : Settled db db' := by
  constructor
  intro A
  exact ⟨[], by rw [h.entities, List.append_nil], by rw [h.entries, List.append_nil]⟩

theorem entries_record (A : Account) (db : Db) (actor action entityType entityId : String) :
    A.entries (record db actor action entityType entityId) =
      A.entries db ++ if action = A.action then [entityId] else [] := by
  simp only [Account.entries, record, List.filter_append, List.map_append]
  split_ifs with h
  · simp [h]
  · simp [h]

theorem entities_record (A : Account) (db : Db) (actor action entityType entityId : String) :
    A.entities (record db actor action entityType entityId) = A.entities db := by
  cases A <;> rfl

/-- An event of another action. -/
theorem Silent.record (h : Silent db db') (actor action entityType entityId : String)
    (hother : Unaccounted action) :
    Silent db (record db' actor action entityType entityId) where
  entities A := by rw [entities_record, h.entities]
  entries A := by rw [entries_record, if_neg (hother A A.mem_all), List.append_nil, h.entries]

theorem Settled.record (h : Settled db db') (actor action entityType entityId : String)
    (hother : Unaccounted action) :
    Settled db (record db' actor action entityType entityId) :=
  h.trans ((Silent.refl db').record actor action entityType entityId hother).settled

/-- A new row of one account and its event. -/
theorem Settled.enter (A : Account) {entityId : String}
    (hrows : ∀ B : Account, B.entities db' = B.entities db ++ if A = B then [entityId] else [])
    (hevents : ∀ B : Account, B.entries db' = B.entries db) (actor entityType : String) :
    Settled db (Panelist.record db' actor A.action entityType entityId) := by
  constructor
  intro B
  refine ⟨if A = B then [entityId] else [], by rw [entities_record, hrows B], ?_⟩
  rw [entries_record, hevents B]
  by_cases h : A = B
  · rw [if_pos h, if_pos (congrArg Account.action h)]
  · rw [if_neg h, if_neg (fun ha => h (Account.action_injective ha))]

theorem Quiet.refl (db : Db) : Quiet db db := ⟨.refl db, .refl db⟩

theorem Quiet.trans (h : Quiet db db') (h' : Quiet db' db'') : Quiet db db'' :=
  ⟨h.toSilent.trans h'.toSilent, h.toGrows.trans h'.toGrows⟩

theorem Quiet.record (h : Quiet db db') (actor action entityType entityId : String)
    (hother : Unaccounted action) :
    Quiet db (record db' actor action entityType entityId) :=
  ⟨h.toSilent.record actor action entityType entityId hother, h.toGrows.record ..⟩

theorem Written.refl (db : Db) : Written db db := ⟨.refl db, .refl db⟩

theorem Written.trans (h : Written db db') (h' : Written db' db'') : Written db db'' :=
  ⟨h.toSettled.trans h'.toSettled, h.toGrows.trans h'.toGrows⟩

theorem Written.record (h : Written db db') (actor action entityType entityId : String)
    (hother : Unaccounted action) :
    Written db (record db' actor action entityType entityId) :=
  ⟨h.toSettled.record actor action entityType entityId hother, h.toGrows.record ..⟩

theorem Quiet.written (h : Quiet db db') : Written db db' := ⟨h.toSilent.settled, h.toGrows⟩

/-- A write that leaves the accounts, and its event. -/
theorem Quiet.logged (h : Quiet db db') {actor action entityType entityId : String}
    (hother : Unaccounted action) :
    Written db (Panelist.record db' actor action entityType entityId) :=
  h.written.record actor action entityType entityId hother

/-- A new row of one account and its event. -/
theorem Written.enter (A : Account) {entityId : String}
    (hrows : ∀ B : Account, B.entities db' = B.entities db ++ if A = B then [entityId] else [])
    (hevents : ∀ B : Account, B.entries db' = B.entries db) (hgrows : Grows db db')
    (actor entityType : String) :
    Written db (Panelist.record db' actor A.action entityType entityId) :=
  ⟨.enter A hrows hevents actor entityType, hgrows.record ..⟩

end Steps

/-! ### The services -/

section Services
variable {env : Env} {db db' : Db}

/-- An assignment that leaves one column leaves the list of its values. -/
theorem map_updateWhere {ρ γ κ : Type} [DecidableEq κ] [Row ρ γ κ] {α : Type} (T : Table ρ)
    (p : ρ → Bool) (f : ρ → ρ) (hf : Table.Keeps f) (col : ρ → α) (hcol : ∀ r, col (f r) = col r) :
    (T.updateWhere p f hf).rows.map col = T.rows.map col := by
  rw [Table.rows_updateWhere, List.map_map]
  apply List.map_congr_left
  intro r _
  rw [Function.comp_apply]
  split_ifs
  · exact hcol r
  · rfl

theorem map_pk_updateWhere {ρ γ κ : Type} [DecidableEq κ] [Row ρ γ κ] (T : Table ρ) (p : ρ → Bool)
    (f : ρ → ρ) (hf : Table.Keeps f := by exact fun _ => rfl) :
    (T.updateWhere p f hf).rows.map pk = T.rows.map pk :=
  map_updateWhere T p f hf pk hf.pk_eq

theorem map_payoutId_updateWhere (T : Table Payout) (p : Payout → Bool) (f : Payout → Payout)
    (hf : Table.Keeps f := by exact fun _ => rfl)
    (hid : ∀ p, (f p).id = p.id := by exact fun _ => rfl) :
    (T.updateWhere p f hf).rows.map Payout.id = T.rows.map Payout.id :=
  map_updateWhere T p f hf Payout.id hid

/-- A write that leaves the keys of the accounts and the histories. -/
theorem Quiet.same (hexperts : db'.experts.rows.map pk = db.experts.rows.map pk)
    (hpayouts : db'.payouts.rows.map Payout.id = db.payouts.rows.map Payout.id)
    (hgrades : db'.grades = db.grades) (hperiods : db'.payoutPeriods = db.payoutPeriods)
    (hdeliveries : db'.deliveries = db.deliveries) (hchanges : db'.tierChanges = db.tierChanges)
    (hresults : db'.attentionResults = db.attentionResults)
    (hevents : db'.auditEvents = db.auditEvents) : Quiet db db' where
  toGrows := .same hevents hchanges hresults hdeliveries
  entities A := by
    cases A <;> simp only [Account.entities, *]
  entries A := by rw [Account.entries, hevents, Account.entries]

theorem written_createForGrade {grade : Grade} {task : Task} {actor : String} {fraction : ℚ}
    {p : Payout} (h : createForGrade env db grade task actor fraction = .ok (db', p)) :
    Written db db' := by
  simp only [createForGrade, bind_ok_iff, orFail_ok_iff] at h
  obtain ⟨expert, -, hm⟩ := h
  cases hp : db.payouts.get grade.id with
  | some existing =>
    rw [hp] at hm
    obtain ⟨rfl, rfl⟩ := Prod.mk.inj (pure_ok_iff.mp hm)
    exact .refl db
  | none =>
    rw [hp] at hm
    simp only [bind_ok_iff, orFail_ok_iff, pure_ok_iff, Prod.mk.injEq] at hm
    obtain ⟨rate, -, _, -, payouts, hins, _, -, rfl, -⟩ := hm
    -- one row and one event, for the same payout
    apply Written.enter .payout
    · intro B
      have hrows := (Table.insert_eq_some.mp hins).2
      cases B with
      | payout => simp [Account.entities, hrows]
      | _ => simp [Account.entities]
    · intro B
      rfl
    · exact .same rfl rfl rfl rfl

theorem written_calibrationUpdate (env : Env) (db : Db) (expert : Expert) (actor : String) :
    Written db (calibrationUpdate env db expert actor).1 := by
  unfold calibrationUpdate
  dsimp only
  split
  · apply Quiet.written
    exact .same (map_pk_updateWhere _ _ _) rfl rfl rfl rfl rfl rfl rfl
  -- without a move nothing is logged; a move is one row and one event
  · split_ifs
    · apply Quiet.written
      exact .same (map_pk_updateWhere _ _ _) rfl rfl rfl rfl rfl rfl rfl
    · apply Quiet.written
      exact .same (map_pk_updateWhere _ _ _) rfl rfl rfl rfl rfl rfl rfl
    · apply Written.enter .tierChange
      · intro B
        cases B with
        | expert =>
          rw [if_neg (by decide), List.append_nil]
          have hscored := map_pk_updateWhere db.experts (fun r => decide (pk r = expert.id))
            (Expert.calibrated (score env db expert.id).1 (score env db expert.id).2)
          apply congrArg (List.map Uuid.str)
          exact Eq.trans (map_pk_updateWhere _ _ _) hscored
        | _ => simp [Account.entities]
      · intro B
        rfl
      · exact { Grows.refl db with changes := List.prefix_append _ _ }

theorem quiet_enforce (env : Env) (db : Db) (expert : Expert) :
    Quiet db (enforce env db expert).1 := by
  unfold enforce
  split_ifs
  · exact .refl db
  · exact .refl db
  · apply Quiet.record
    · exact .same (map_pk_updateWhere _ _ _) (map_payoutId_updateWhere _ _ _) rfl rfl rfl rfl rfl
        rfl
    · decide

theorem quiet_consensusEvaluate {taskId : Uuid} {c : Option Consensus}
    (h : consensusEvaluate env db taskId = .ok (db', c)) : Quiet db db' := by
  unfold consensusEvaluate at h
  by_cases hfew : (unrejected db taskId).length < 2
  · rw [if_pos hfew] at h
    obtain rfl := congrArg Prod.fst (pure_ok_iff.mp h)
    exact .refl db
  · rw [if_neg hfew] at h
    simp only [bind_ok_iff, orFail_ok_iff, pure_ok_iff, Prod.mk.injEq] at h
    obtain ⟨consensus, -, rfl, -⟩ := h
    apply Quiet.record
    · exact .same rfl rfl rfl rfl rfl rfl rfl rfl
    · generalize (newRound env taskId (unrejected db taskId)).status = status
      cases status <;> decide

theorem quiet_redeliver (db : Db) (task : Task) (rejected : Grade) (actor : String) :
    Quiet db (redeliver db task rejected actor) := by
  unfold redeliver
  split
  · exact .refl db
  · split_ifs
    · exact .refl db
    · apply Quiet.record
      · exact .same rfl rfl rfl rfl rfl rfl rfl rfl
      · decide

theorem quiet_reviewTask (db : Db) (task : Task) (d : ReviewDecision) (actor : String) :
    Quiet db (reviewTask db task d actor) := by
  unfold reviewTask
  split_ifs
  · exact .refl db
  · exact .same rfl rfl rfl rfl rfl rfl rfl rfl
  · apply Quiet.record
    · exact .same rfl rfl rfl rfl rfl rfl rfl rfl
    · decide
  · exact .same rfl rfl rfl rfl rfl rfl rfl rfl
  · exact .refl db

theorem written_reviewPayout {grade : Grade} {task : Task} {d : ReviewDecision} {actor : String}
    (h : reviewPayout env db grade task d actor = .ok db') : Written db db' := by
  unfold reviewPayout at h
  split_ifs at h
  · obtain ⟨⟨_, p⟩, hp, rfl⟩ := map_ok_iff.mp h
    exact written_createForGrade hp
  · obtain rfl := pure_ok_iff.mp h
    exact .refl db

theorem written_resolveGrade {task : Task} {delivered grade : Grade} {reason : String}
    {keyId : Uuid} {actor : String}
    (h : resolveGrade env task delivered reason keyId actor db grade = .ok db') :
    Written db db' := by
  simp only [resolveGrade, bind_ok_iff, orFail_ok_iff, pure_ok_iff] at h
  obtain ⟨_, -, reviews, -, db₁, hpay, expert, -, rfl⟩ := h
  have hclosed : Quiet db { db with reviews := reviews } := .same rfl rfl rfl rfl rfl rfl rfl rfl
  have hpaid : Written { db with reviews := reviews } db₁ := by
    rcases resolvePayout_cases hpay with ⟨f, p, -, hp⟩ | ⟨-, rfl⟩
    · exact written_createForGrade hp
    · exact .refl _
  exact hclosed.written.trans (hpaid.trans (written_calibrationUpdate ..))

theorem written_resolveLoop {task : Task} {delivered : Grade} {reason : String} {keyId : Uuid}
    {actor : String} {gs : List Grade}
    (h : gs.foldlM (resolveGrade env task delivered reason keyId actor) db = .ok db') :
    Written db db' := by
  induction gs generalizing db with
  | nil =>
    obtain rfl := pure_ok_iff.mp h
    exact .refl db
  | cons g gs ih =>
    simp only [List.foldlM_cons, bind_ok_iff] at h
    obtain ⟨db₁, hone, hrest⟩ := h
    exact (written_resolveGrade hone).trans (ih hrest)

theorem written_checkGrade {expert : Expert} {task : Task} {grade : Grade}
    (h : checkGrade env db expert task grade = .ok db') : Written db db' := by
  simp only [checkGrade, bind_ok_iff, Prod.exists] at h
  obtain ⟨db₁, result, he, hm⟩ := h
  have hstored : Quiet db db₁ := by
    rcases attentionEvaluate_ok he with ⟨rfl, -⟩ | ⟨_, _, _, _, hins, rfl⟩
    · exact .refl _
    · exact { Quiet.refl db with results := .insert (fun _ => rfl) hins }
  cases result with
  | none =>
    obtain rfl := pure_ok_iff.mp hm
    exact hstored.written
  | some row =>
    obtain rfl := pure_ok_iff.mp hm
    refine hstored.written.trans (.trans ?_ (written_calibrationUpdate ..))
    split_ifs
    · exact .refl db₁
    · exact (quiet_enforce env db₁ expert).written

theorem written_tick (env : Env) (actor : String) (experts : List Expert)
    (acc : Db × List TierMove × ℕ) :
    Written acc.1 (experts.foldl (tickExpert env actor) acc).1 := by
  induction experts generalizing acc with
  | nil => exact .refl _
  | cons e experts ih =>
    have hone : Written acc.1 (tickExpert env actor acc e).1 :=
      written_calibrationUpdate env acc.1 e actor
    exact hone.trans (ih (tickExpert env actor acc e))

/-- A lease, after the expired ones are back. -/
theorem quiet_assign (env : Env) (db : Db) (task : Task) (expert : Expert) :
    Quiet db (assign env (reclaimExpired env db).1 task expert).1 := by
  apply Quiet.record
  · exact .same (map_pk_updateWhere _ _ _) rfl rfl rfl rfl rfl rfl rfl
  · decide

/-- A submission adds its grade first and enters it behind the events of its round. -/
theorem written_submit {expertId : Uuid} {body : GradeCreate} {grade : Grade}
    (h : submit env db expertId body = .ok (db', grade)) : Written db db' := by
  obtain ⟨_, expert, task, rubric, grades, -, -, -, -, -, -, -, hins, hsettle⟩ := submit_ok_iff.mp h
  simp only [settleGrade, bind_ok_iff] at hsettle
  obtain ⟨db₁, hround, hcheck⟩ := hsettle
  -- between the grade and its event only a round may be opened, which logs its own
  have hwaiting : Quiet { db with grades := grades } db₁ := by
    unfold roundIfComplete at hround
    split_ifs at hround
    · obtain ⟨⟨_, c⟩, he, rfl⟩ := map_ok_iff.mp hround
      have hmarked : Quiet { db with grades := grades }
          { db with grades := grades, tasks := db.tasks.update task.id Task.graded } :=
        .same rfl rfl rfl rfl rfl rfl rfl rfl
      exact hmarked.trans (quiet_consensusEvaluate he)
    · obtain rfl := pure_ok_iff.mp hround
      exact .same rfl rfl rfl rfl rfl rfl rfl rfl
  refine Written.trans ?_ (written_checkGrade hcheck)
  have hentries (B : Account) : B.entries db₁ = B.entries db := hwaiting.entries B
  have hgraded : Grows db { db with grades := grades } := .same rfl rfl rfl rfl
  have hgrows : Grows db db₁ := hgraded.trans hwaiting.toGrows
  refine Written.enter .grade ?_ hentries hgrows _ _
  intro B
  rw [hwaiting.entities]
  have hrows := (Table.insert_eq_some.mp hins).2
  cases B with
  | grade => simp [Account.entities, hrows, pk, Row.cols, Row.key]
  | _ => simp [Account.entities]

theorem written_review {keyId : Uuid} {body : ReviewCreate} {actor : String} {v : Review}
    (h : review env db keyId body actor = .ok (db', v)) : Written db db' := by
  simp only [review, bind_ok_iff, orFail_ok_iff, pure_ok_iff, Prod.mk.injEq] at h
  obtain ⟨grade, -, _, -, task, -, _, -, _, -, reviews, -, db₁, hpay, expert, -, rfl, -⟩ := h
  have hdecided : Quiet db { db with reviews := reviews } := .same rfl rfl rfl rfl rfl rfl rfl rfl
  have hmoved (d : ReviewDecision) (actor : String) : Written db (reviewTask db₁ task d actor) :=
    hdecided.written.trans
      ((written_reviewPayout hpay).trans (quiet_reviewTask db₁ task d actor).written)
  have hother : Unaccounted s!"grade.{body.decision.value}" := by
    cases body.decision <;> decide
  refine Written.trans (Written.record ?_ _ _ _ _ hother) (written_calibrationUpdate ..)
  split_ifs
  · exact (hmoved _ _).trans (quiet_redeliver ..).written
  · exact hmoved _ _

theorem written_createExpert {body : ExpertCreate} {actor : String} {e : Expert}
    (h : createExpert env db body actor = .ok (db', e)) : Written db db' := by
  simp only [createExpert, bind_ok_iff, orFail_ok_iff, pure_ok_iff, Prod.mk.injEq] at h
  obtain ⟨_, -, _, -, experts, hins, rfl, -⟩ := h
  apply Written.enter .expert
  · intro B
    have hrows := (Table.insert_eq_some.mp hins).2
    cases B with
    | expert => simp [Account.entities, hrows, pk, Row.cols, Row.key]
    | _ => simp [Account.entities]
  · intro B
    rfl
  · exact .same rfl rfl rfl rfl

theorem written_setStatus {expertId : Uuid} {status : ExpertStatus} {actor : String} {e : Expert}
    (h : setStatus db expertId status actor = .ok (db', e)) : Written db db' := by
  simp only [setStatus, bind_ok_iff, pure_ok_iff, Prod.mk.injEq] at h
  obtain ⟨expert, -, rfl, -⟩ := h
  apply Written.record
  · split_ifs
    · -- the reinstatement releases payouts and writes an event of its own
      apply Quiet.logged
      · exact .same (map_pk_updateWhere _ _ _) (map_payoutId_updateWhere _ _ _)
          rfl rfl rfl rfl rfl rfl
      · decide
    · apply Quiet.written
      exact .same (map_pk_updateWhere _ _ _) rfl rfl rfl rfl rfl rfl rfl
  · decide

theorem written_closePeriod {label actor : String} {P : PayoutPeriod}
    (h : closePeriod env db label actor = .ok (db', P)) : Written db db' := by
  simp only [closePeriod, bind_ok_iff, orFail_ok_iff, pure_ok_iff, Prod.mk.injEq] at h
  obtain ⟨_, _, _, _, periods, hins, rfl, -⟩ := h
  apply Written.enter .period
  · intro B
    have hrows := (Table.insert_eq_some.mp hins).2
    cases B with
    | period => simp [Account.entities, hrows, pk, Row.cols, Row.key]
    | payout =>
      -- paid payouts keep their ids
      rw [if_neg (by decide), List.append_nil]
      exact congrArg (List.map Uuid.str) (map_payoutId_updateWhere _ _ _)
    | _ => simp [Account.entities]
  · intro B
    rfl
  · exact .same rfl rfl rfl rfl

theorem written_exportDelivery {actor : String} {d : Delivery}
    (h : exportDelivery env db actor = .ok (db', d)) : Written db db' := by
  simp only [exportDelivery, bind_ok_iff, orFail_ok_iff, pure_ok_iff, Prod.mk.injEq] at h
  obtain ⟨deliveries, hins, rfl, -⟩ := h
  apply Written.enter .delivery
  · intro B
    have hrows := (Table.insert_eq_some.mp hins).2
    cases B with
    | delivery => simp [Account.entities, hrows]
    | _ => simp [Account.entities]
  · intro B
    rfl
  · exact { Grows.refl db with deliveries := .insert (fun _ => rfl) hins }

end Services

/-! ### Requests and runs -/

section Requests
variable {r : Request} {db db' : Db} {x : Response}

theorem written_step (h : step r db = .ok (db', x)) : Written db db' := by
  -- by the operation: most write none of the tables and log an action of another kind
  cases hop : r.op
  all_goals
    simp only [step, hop] at h
    obtain ⟨_, h, -⟩ := answer_ok h
  case createExpert => exact written_createExpert h
  case setStatus => exact written_setStatus h
  case createKey =>
    simp only [createKey, bind_ok_iff, pure_ok_iff, Prod.mk.injEq, Prod.exists] at h
    obtain ⟨_, _, hissue, rfl, -⟩ := h
    obtain ⟨keys, -, rfl⟩ := issueKey_ok hissue
    apply Quiet.logged
    · exact .same rfl rfl rfl rfl rfl rfl rfl rfl
    · decide
  case createExpertKey =>
    simp only [createExpertKey, bind_ok_iff, pure_ok_iff, Prod.mk.injEq, Prod.exists] at h
    obtain ⟨_, _, _, _, hissue, rfl, -⟩ := h
    obtain ⟨keys, -, rfl⟩ := issueKey_ok hissue
    apply Quiet.logged
    · exact .same rfl rfl rfl rfl rfl rfl rfl rfl
    · decide
  case revokeKey =>
    simp only [revokeKey, bind_ok_iff] at h
    obtain ⟨key, -, hm⟩ := h
    split_ifs at hm <;> obtain ⟨rfl, -⟩ := Prod.mk.inj (pure_ok_iff.mp hm)
    · apply Quiet.logged
      · exact .same rfl rfl rfl rfl rfl rfl rfl rfl
      · decide
    · exact .refl _
  case bootstrap =>
    unfold bootstrap at h
    dsimp only at h
    split_ifs at h
    · obtain ⟨rfl, -⟩ := Prod.mk.inj (pure_ok_iff.mp h)
      exact .refl _
    · -- the first key is written without an event
      simp only [bind_ok_iff, pure_ok_iff, Prod.mk.injEq] at h
      obtain ⟨keys, -, rfl, -⟩ := h
      exact Quiet.written (.same rfl rfl rfl rfl rfl rfl rfl rfl)
  case createRubric =>
    simp only [createRubric, bind_ok_iff, pure_ok_iff, Prod.mk.injEq] at h
    obtain ⟨_, _, db₁, hadd, rfl, -⟩ := h
    obtain ⟨rubrics, rows, -, -, rfl⟩ := addRubric_ok hadd
    apply Quiet.logged
    · exact .same rfl rfl rfl rfl rfl rfl rfl rfl
    · decide
  case publish =>
    simp only [publish, bind_ok_iff, pure_ok_iff, Prod.mk.injEq] at h
    obtain ⟨_, _, previous, _, _, _, db₁, hadd, rfl, -⟩ := h
    obtain ⟨rubrics, rows, -, -, rfl⟩ := addRubric_ok hadd
    apply Quiet.logged
    · exact .same rfl rfl rfl rfl rfl rfl rfl rfl
    · decide
  case putRateCards =>
    simp only [putRateCards, bind_ok_iff, pure_ok_iff, Prod.mk.injEq] at h
    obtain ⟨_, -, _, -, rfl, -⟩ := h
    apply Quiet.logged
    · exact .same rfl rfl rfl rfl rfl rfl rfl rfl
    · decide
  case createTasks =>
    simp only [createTasks, bind_ok_iff] at h
    obtain ⟨_, _, hm⟩ := h
    split at hm
    · exact absurd hm (by simp)
    · simp only [bind_ok_iff, pure_ok_iff, Prod.mk.injEq] at hm
      obtain ⟨_, _, _, _, tasks, -, rfl, -⟩ := hm
      apply Quiet.logged
      · exact .same rfl rfl rfl rfl rfl rfl rfl rfl
      · decide
  case claimNext =>
    obtain ⟨expert, -, -, ⟨rfl, -⟩ | ⟨task, -, -, hpair⟩⟩ := claimNext_ok h
    · exact Quiet.written (.same rfl rfl rfl rfl rfl rfl rfl rfl)
    · obtain rfl := congrArg Prod.fst hpair
      exact (quiet_assign ..).written
  case claimById =>
    obtain ⟨e, task, -, -, -, -, -, -, hclaim⟩ := claimById_ok_iff.mp h
    obtain rfl := congrArg Prod.fst hclaim
    exact (quiet_assign ..).written
  case release =>
    obtain ⟨e, task, -, -, -, -, rfl⟩ := release_ok h
    apply Quiet.logged
    · exact .same rfl rfl rfl rfl rfl rfl rfl rfl
    · decide
  case reclaim =>
    obtain rfl := congrArg Prod.fst (pure_ok_iff.mp h)
    exact Quiet.written (.same rfl rfl rfl rfl rfl rfl rfl rfl)
  case submit => exact written_submit h
  case review => exact written_review h
  case resolve =>
    simp only [resolve, bind_ok_iff, pure_ok_iff, Prod.mk.injEq] at h
    obtain ⟨_, _, row, _, _, _, delivered, _, task, _, db₁, hloop, rfl, -⟩ := h
    apply Written.record
    · exact (written_resolveLoop hloop).trans
        (Quiet.written (.same rfl rfl rfl rfl rfl rfl rfl rfl))
    · decide
  case closePeriod => exact written_closePeriod h
  case exportDelivery => exact written_exportDelivery h
  case tick =>
    obtain ⟨rfl, -⟩ := Prod.mk.inj (pure_ok_iff.mp h)
    -- requeuing tasks comes first and is silent
    have hreclaimed : Quiet db (reclaimExpired r.env db).1 := .same rfl rfl rfl rfl rfl rfl rfl rfl
    apply Written.record
    · exact hreclaimed.written.trans
        (written_tick r.env _ _ ((reclaimExpired r.env db).1, [], 0))
    · decide

/-- And over a run, whatever came before it. -/
theorem written_run (rs qs : List Request) : Written (after rs) (after (rs ++ qs)) := by
  rw [after, after, run_append]
  exact run_invariant step (fun _ _ _ _ hbefore h => hbefore.trans (written_step h)) (.refl _) qs

end Requests

end Panelist
