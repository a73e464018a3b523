import Panelist.Keys

/-! What the keys of a call leave in the record, and what the key of an expert can reach. -/
namespace Panelist
open Relational Transaction

/-! ### Who did what -/

/-- Some key of `keys` is `id` and has one of the roles. -/
def HasKey (keys : Table ApiKey) (id : Uuid) (allowed : Role → Prop) : Prop :=
  ∃ k ∈ keys, k.id = id ∧ allowed k.role

/-- Some key of `keys` does the work of this expert. -/
def Bound (keys : Table ApiKey) (expertId : Uuid) : Prop :=
  ∃ k ∈ keys, k.expertId = some expertId ∧ (k.role = .expert ∨ k.role = .admin)

/-- Every review, ruling and grade is signed with a key whose role allows it. -/
structure Signed (keys : Table ApiKey) (db : Db) : Prop where
  reviews : ∀ v ∈ db.reviews, HasKey keys v.reviewerKeyId (fun role => role ≠ .expert)
  rulings : ∀ c ∈ db.consensus, ∀ id, c.adjudicatorKeyId = some id →
    HasKey keys id (fun role => role = .seniorReviewer ∨ role = .admin)
  grades : ∀ g ∈ db.grades, Bound keys g.expertId

section Signatures
variable {sha256 : ByteArray → List UInt8} {r : Request} {db db' : Db} {keys keys' : Table ApiKey}

theorem HasKey.mono {id : Uuid} {allowed : Role → Prop} (h : HasKey keys id allowed)
    (hk : ∀ k ∈ keys, ∃ k' ∈ keys', k'.asIssued = k.asIssued) : HasKey keys' id allowed := by
  obtain ⟨k, hmem, hid, hrole⟩ := h
  obtain ⟨k', hmem', he⟩ := hk k hmem
  obtain ⟨hid', -, hrole', -⟩ := ApiKey.columns_of_asIssued he
  exact ⟨k', hmem', hid'.trans hid, hrole' ▸ hrole⟩

theorem Bound.mono {expertId : Uuid} (h : Bound keys expertId)
    (hk : ∀ k ∈ keys, ∃ k' ∈ keys', k'.asIssued = k.asIssued) : Bound keys' expertId := by
  obtain ⟨k, hmem, hbound, hrole⟩ := h
  obtain ⟨k', hmem', he⟩ := hk k hmem
  obtain ⟨-, -, hrole', hbound'⟩ := ApiKey.columns_of_asIssued he
  exact ⟨k', hmem', hbound'.trans hbound, hrole' ▸ hrole⟩

theorem Signed.mono (h : Signed keys db)
    (hk : ∀ k ∈ keys, ∃ k' ∈ keys', k'.asIssued = k.asIssued) : Signed keys' db where
  reviews := fun v hv => (h.reviews v hv).mono hk
  rulings := fun c hc id hid => (h.rulings c hc id hid).mono hk
  grades := fun g hg => (h.grades g hg).mono hk

theorem rounds_rulings {env : Env} {task : Task} {tasks : Table Task} {consensus : Table Consensus}
    (h : Rounds env db task tasks consensus) {c : Consensus} (hc : c ∈ consensus) :
    c ∈ db.consensus ∨ c.adjudicatorKeyId = none := by
  cases h with
  | none => exact Or.inl hc
  | agreed _ _ _ hi | split _ _ _ hi =>
    rcases (Table.mem_insert hi).mp hc with hold | rfl
    · exact Or.inl hold
    · exact Or.inr rfl

/-- An effect of a request that some key allows signs with that key. -/
theorem Signed.effect {k : ApiKey} (h : Signed keys db) (hk : k ∈ keys) (hop : r.op.AllowedTo k)
    (he : Effect r db db') : Signed keys db' := by
  -- grades, verdicts and rulings are the only effects that sign anything
  cases he with
  | graded hr _ _ _ _ _ hgrade hi hc =>
    rw [hr] at hop
    refine ⟨h.reviews, fun c hc' id hid => ?_, fun g hg => ?_⟩
    · rcases rounds_rulings hc hc' with hold | hnone
      · exact h.rulings c hold id hid
      · exact absurd (hnone.symm.trans hid) (by simp)
    · rcases (Table.mem_insert hi).mp hg with hold | rfl
      · exact h.grades g hold
      · rw [hgrade]
        exact ⟨k, hk, hop.2, hop.1⟩
  | @reviewed grade task _ _ _ _ _ _ hr _ _ _ _ _ hv hi _ =>
    rw [hr] at hop
    obtain ⟨hrole, hkey, -⟩ := hop
    refine ⟨fun v' hv' => ?_, fun c hc id hid => ?_, h.grades⟩
    · rcases (Table.mem_insert hi).mp hv' with hold | rfl
      · exact h.reviews v' hold
      · rw [hv]
        exact ⟨k, hk, hkey.symm, hrole⟩
    · obtain ⟨c', hc', rfl⟩ := (Table.mem_update (Consensus.afterReview_keeps _ _ _)).mp hc
      apply h.rulings c' hc' id
      rw [← hid]
      split_ifs
      · unfold Consensus.afterReview
        split_ifs <;> rfl
      · rfl
  | @adjudicated row task delivered _ _ reason _ _ hr _ _ _ _ hi _ =>
    rw [hr] at hop
    obtain ⟨hrole, hkey, -⟩ := hop
    have hreviewer : k.role ≠ .expert := by
      rcases hrole with h' | h' <;> rw [h'] <;> decide
    refine ⟨fun v hv => ?_, fun c hc id hid => ?_, h.grades⟩
    · rcases (Table.mem_insertAll hi).mp hv with hold | hnew
      · exact h.reviews v hold
      · obtain ⟨g, -, rfl⟩ := List.mem_map.mp hnew
        exact ⟨k, hk, hkey.symm, hreviewer⟩
    · obtain ⟨c', hc', rfl⟩ := (Table.mem_update (Consensus.adjudicate_keeps _ _ _ _)).mp hc
      split_ifs at hid
      · exact ⟨k, hk, hkey.symm.trans (Option.some.inj hid), hrole⟩
      · exact h.rulings c' hc' id hid
  | _ => exact ⟨h.reviews, h.rulings, h.grades⟩

/-- Commands on the host sign nothing. -/
theorem Signed.host {op : Op} (h : Signed keys db) (hr : r.op = op)
    (hop : (∃ raw, op = .bootstrap raw) ∨ ∃ actor, op = .tick actor)
    (he : Effect r db db') : Signed keys db' := by
  cases he with
  | graded hr' | reviewed hr' | adjudicated hr' =>
    rw [hr] at hr'
    rcases hop with ⟨_, rfl⟩ | ⟨_, rfl⟩ <;> exact nomatch hr'
  | _ => exact ⟨h.reviews, h.rulings, h.grades⟩

theorem Signed.commit {i : Incoming} (h : Signed db.apiKeys db) :
    Signed (Transaction.commit (respond sha256) i db).apiKeys
      (Transaction.commit (respond sha256) i db) := by
  refine commit_preserves (P := fun db => Signed db.apiKeys db) (respond sha256) h ?_
  intro db' x hr
  obtain ⟨r, -, hruns, hstep⟩ := respond_ok hr
  -- a route is bound to the key that was presented; the others have none
  have hafter : Signed db.apiKeys db' := by
    cases i with
    | http env header route =>
      obtain ⟨k, hheader, hroute⟩ := hruns
      exact effects_preserve (fun hs he => hs.effect hheader.1 (authorize_allowed hroute) he)
        (step_effects hstep) h
    | bootstrap env raw =>
      exact effects_preserve (fun hs he => hs.host hruns (Or.inl ⟨_, rfl⟩) he)
        (step_effects hstep) h
    | tick env =>
      exact effects_preserve (fun hs he => hs.host hruns (Or.inr ⟨_, rfl⟩) he)
        (step_effects hstep) h
  -- keys are kept, with new ones behind them
  apply hafter.mono
  intro k hk
  obtain ⟨k', hk', he, -⟩ := (step_keys hstep).mem hk
  exact ⟨k', hk', he⟩

/-- In every state the service reaches, each review was made with a stored key of a reviewer,
each ruling with one of a senior reviewer, and each grade by an expert some key is bound to. -/
theorem served_signed (sha256 : ByteArray → List UInt8) (rs : List Incoming) :
    Signed (served sha256 rs).apiKeys (served sha256 rs) := by
  induction rs using List.reverseRecOn with
  | nil => exact ⟨fun v hv => absurd hv (Table.not_mem_empty v),
      fun c hc => absurd hc (Table.not_mem_empty c), fun g hg => absurd hg (Table.not_mem_empty g)⟩
  | append_singleton rs i ih =>
    rw [served, run_concat]
    exact ih.commit

end Signatures

/-! ### What an expert can reach -/

/-- A request of the expert `e` at `now` touches only their own row, work that is waiting or
their own, and money of their own; what it adds is theirs. -/
structure OwnWork (e : Uuid) (now : Time) (db db' : Db) : Prop where
  experts : ∀ id, id ≠ e → db'.experts.get id = db.experts.get id
  tasks : ∀ t ∈ db.tasks, t.status ≠ .queued → t.assignedExpertId ≠ some e →
    t.leaseExpired now = false → t ∈ db'.tasks
  leases : ∀ t ∈ db'.tasks, t ∉ db.tasks → t.assignedExpertId = none ∨ t.assignedExpertId = some e
  grades : ∃ new, db'.grades.rows = db.grades.rows ++ new ∧ ∀ g ∈ new, g.expertId = e
  rounds : ∀ c ∈ db.consensus, c ∈ db'.consensus
  payouts : ∀ p, p.expertId ≠ e → (p ∈ db'.payouts ↔ p ∈ db.payouts)
  reviews : db'.reviews = db.reviews
  rubrics : db'.rubrics = db.rubrics ∧ db'.rubricCriteria = db.rubricCriteria
  money : db'.rateCards = db.rateCards ∧ db'.payoutPeriods = db.payoutPeriods
  exports : db'.deliveries = db.deliveries
  keys : db'.apiKeys = db.apiKeys

section Isolation
variable {sha256 : ByteArray → List UInt8} {env : Env} {db db' : Db} {e : Uuid}

theorem get_update_other {T : Table Expert} (f : Expert → Expert) (hf : Table.Keeps f) {id : Uuid}
    (h : id ≠ e) : (T.update e f hf).get id = T.get id := by
  rw [Table.get_update, if_neg (Ne.symm h)]

theorem mem_update_other {T : Table Task} (f : Task → Task) (hf : Table.Keeps f) {t task : Task}
    (ht : t ∈ T) (h : t.id ≠ task.id) : t ∈ T.update task.id f hf :=
  (Table.mem_update hf).mpr ⟨t, ht, if_neg h⟩

theorem mem_reclaimed {t : Task} (ht : t ∈ db.tasks) (h : t.leaseExpired env.now = false) :
    t ∈ (reclaimExpired env db).1.tasks :=
  (Table.mem_updateWhere (f := Task.reclaimed) (fun _ => rfl)).mpr ⟨t, ht, by rw [h]; rfl⟩

theorem reclaimed_leases {t : Task} (ht : t ∈ (reclaimExpired env db).1.tasks) :
    t ∈ db.tasks ∨ t.assignedExpertId = none := by
  obtain ⟨s, hs, rfl⟩ := (Table.mem_updateWhere (f := Task.reclaimed) (fun _ => rfl)).mp ht
  split_ifs
  · exact Or.inr rfl
  · exact Or.inl hs

theorem ownWork_reclaim : OwnWork e env.now db (reclaimExpired env db).1 where
  experts := fun _ _ => rfl
  tasks := fun t ht _ _ hlease => mem_reclaimed ht hlease
  leases := fun t ht hnew => Or.inl ((reclaimed_leases ht).resolve_left hnew)
  grades := ⟨[], by simp [reclaimExpired], by simp⟩
  rounds := fun _ hc => hc
  payouts := fun _ _ => Iff.rfl
  reviews := rfl
  rubrics := ⟨rfl, rfl⟩
  money := ⟨rfl, rfl⟩
  exports := rfl
  keys := rfl

theorem ownWork_assign {task : Task} {expert : Expert} (he : expert.id = e)
    (ht : task ∈ (reclaimExpired env db).1.tasks) (hs : task.status = .queued) :
    OwnWork e env.now db (assign env (reclaimExpired env db).1 task expert).1 where
  experts := fun id hid => get_update_other Expert.served (fun _ => rfl) (he ▸ hid)
  tasks := by
    intro t htask hstatus _ hlease
    have hmem := mem_reclaimed htask hlease
    refine mem_update_other (Task.assignTo env expert.id) (fun _ => rfl) hmem (fun hid => ?_)
    -- the task that is written was queued
    have hsame : t = task := (reclaimExpired env db).1.tasks.eq_of_pk hmem ht hid
    exact hstatus (hsame ▸ hs)
  leases := by
    intro t ht' hnew
    obtain ⟨s, hs', rfl⟩ :=
      (Table.mem_update (f := Task.assignTo env expert.id) (fun _ => rfl)).mp ht'
    split_ifs at hnew ⊢
    · exact Or.inr (congrArg some he)
    · exact Or.inl ((reclaimed_leases hs').resolve_left hnew)
  grades := ⟨[], by simp [assign, reclaimExpired, record], by simp⟩
  rounds := fun _ hc => hc
  payouts := fun _ _ => Iff.rfl
  reviews := rfl
  rubrics := ⟨rfl, rfl⟩
  money := ⟨rfl, rfl⟩
  exports := rfl
  keys := rfl

theorem ownWork_release {taskId : Uuid} {t : Task} (h : release db e taskId = .ok (db', t)) :
    OwnWork e env.now db db' := by
  obtain ⟨expert, task, he, ht, -, hheld, rfl⟩ := release_ok h
  have hid : expert.id = e := Table.get_pk he
  rw [hid] at hheld
  exact {
    experts := fun _ _ => rfl
    tasks := by
      intro t htask _ hother _
      -- the one task that is written is held by the expert
      refine mem_update_other Task.unassigned (fun _ => rfl) htask (fun hsame => ?_)
      obtain rfl : t = task := db.tasks.eq_of_pk htask (Table.get_mem ht) hsame
      exact hother hheld
    leases := by
      intro t ht' hnew
      obtain ⟨s, hs, rfl⟩ := (Table.mem_update (f := Task.unassigned) (fun _ => rfl)).mp ht'
      split_ifs at hnew ⊢
      · exact Or.inl rfl
      · exact absurd hs hnew
    grades := ⟨[], by simp [record], by simp⟩
    rounds := fun _ hc => hc
    payouts := fun _ _ => Iff.rfl
    reviews := rfl
    rubrics := ⟨rfl, rfl⟩
    money := ⟨rfl, rfl⟩
    exports := rfl
    keys := rfl }

theorem withheld_others {T : Table Payout} {p : Payout} (hp : p.expertId ≠ e) :
    p ∈ T.updateWhere (Payout.ofExpert e .pending) Payout.withhold ↔ p ∈ T := by
  rw [Table.mem_updateWhere (f := Payout.withhold) (fun _ => rfl)]
  constructor
  · rintro ⟨q, hq, rfl⟩
    split_ifs at hp ⊢ with hown
    · simp only [Payout.ofExpert, Bool.and_eq_true, decide_eq_true_eq] at hown
      exact absurd hown.1 hp
    · exact hq
  · intro hmem
    refine ⟨p, hmem, if_neg ?_⟩
    simp [Payout.ofExpert, hp]

/-- The rows after a graded task: its own, and one round of its own. -/
theorem rounds_own {task : Task} {tasks : Table Task} {consensus : Table Consensus}
    (h : Rounds env db task tasks consensus) :
    (∀ t ∈ db.tasks, t.id ≠ task.id → t ∈ tasks) ∧
      (∀ t ∈ tasks, t ∈ db.tasks ∨ t.assignedExpertId = none) ∧
      ∀ c ∈ db.consensus, c ∈ consensus := by
  -- the one task that is written has no holder after it
  have hwritten : ∀ (f : Task → Task) (hf : Table.Keeps f), (∀ t, (f t).assignedExpertId = none) →
      (∀ t ∈ db.tasks, t.id ≠ task.id → t ∈ db.tasks.update task.id f hf) ∧
        ∀ t ∈ db.tasks.update task.id f hf, t ∈ db.tasks ∨ t.assignedExpertId = none := by
    intro f hf hfree
    refine ⟨fun t ht hid => mem_update_other f hf ht hid, fun t ht => ?_⟩
    obtain ⟨s, hs, rfl⟩ := (Table.mem_update hf).mp ht
    split_ifs
    · exact Or.inr (hfree s)
    · exact Or.inl hs
  cases h with
  | none =>
    obtain ⟨hother, hfree⟩ := hwritten Task.graded (fun _ => rfl) (fun _ => rfl)
    exact ⟨hother, hfree, fun c hc => hc⟩
  | agreed _ _ _ hi =>
    obtain ⟨hother, hfree⟩ := hwritten Task.graded (fun _ => rfl) (fun _ => rfl)
    exact ⟨hother, hfree, fun c hc => (Table.mem_insert hi).mpr (Or.inl hc)⟩
  | split _ _ _ hi =>
    obtain ⟨hother, hfree⟩ := hwritten (fun t => t.graded.withStatus .adjudication) (fun _ => rfl)
      (fun _ => rfl)
    exact ⟨hother, hfree, fun c hc => (Table.mem_insert hi).mpr (Or.inl hc)⟩

theorem ownWork_submit {body : GradeCreate} {grade : Grade}
    (h : submit env db e body = .ok (db', grade)) : OwnWork e env.now db db' := by
  obtain ⟨expert, task, _, grades, tasks, consensus, events, he, ht, hs, hheld, -, hgrade, hi,
    hrounds, hcheck⟩ := submit_ok h
  have hid : expert.id = e := Table.get_pk he
  obtain ⟨htasks, hleases, hkept⟩ := rounds_own hrounds
  have hadded := (Table.insert_eq_some.mp hi).2
  -- up to the golden check: the grade, the task, and the round it may open
  have hbefore : OwnWork e env.now db { db with
      grades := grades
      tasks := tasks
      consensus := consensus
      auditEvents := events } := {
    experts := fun _ _ => rfl
    tasks := by
      intro t htask _ hother _
      refine htasks t htask (fun hsame => ?_)
      obtain rfl : t = task := db.tasks.eq_of_pk htask (Table.get_mem ht) hsame
      exact hother (hid ▸ hheld)
    leases := fun t ht' hnew => Or.inl ((hleases t ht').resolve_left hnew)
    grades := ⟨[grade], hadded, by simp [hgrade, hid]⟩
    rounds := hkept
    payouts := fun _ _ => Iff.rfl
    reviews := rfl
    rubrics := ⟨rfl, rfl⟩
    money := ⟨rfl, rfl⟩
    exports := rfl
    keys := rfl }
  rcases checkGrade_calibrates hcheck with ⟨rfl, -⟩ |
    ⟨row, results, experts, payouts, events', -, -, -, hguard, hdb'⟩
  · exact hbefore
  -- then the check, the guard and the calibration, all of the author
  obtain ⟨changes, events'', hu⟩ := calibrationUpdate_eq env { db with
      grades := grades
      tasks := tasks
      consensus := consensus
      attentionResults := results
      experts := experts
      payouts := payouts
      auditEvents := events' } expert "system"
  rw [hdb'.trans hu]
  refine { hbefore with
    experts := fun id hne => ?_
    payouts := fun p hp => ?_ }
  · refine (get_update_other _ (recalibrated_keeps env _ expert) (hid ▸ hne)).trans ?_
    rcases hguard with ⟨rfl, -⟩ | ⟨-, rfl, -⟩
    · rfl
    · exact get_update_other (Expert.withStatus .paused) (fun _ => rfl) (hid ▸ hne)
  · rcases hguard with ⟨-, rfl⟩ | ⟨-, -, rfl⟩
    · exact Iff.rfl
    · exact withheld_others (hid ▸ hp)

/-- A call with the key of an expert does the work of the one expert the key is bound to. -/
theorem expert_call_ownWork {k : ApiKey} {header : Option String} {route : Route} {x : Response}
    (hheader : Presents sha256 db header k) (hrole : k.role = .expert)
    (h : respond sha256 (.http env header route) db = .ok (db', x)) :
    ∃ e, k.expertId = some e ∧ OwnWork e env.now db db' := by
  simp only [respond, bind_ok_iff] at h
  obtain ⟨p, hp, op, hroute, hstep⟩ := h
  obtain ⟨k', hk', rfl⟩ := authenticate_ok_iff.mp hp
  obtain rfl := hk'.unique hheader
  have hop := authorize_allowed hroute
  -- the scopes of an expert key admit four operations
  cases op with
  | claimNext expertId =>
    refine ⟨expertId, hop.2, ?_⟩
    simp only [step] at hstep
    obtain ⟨t, ht, -⟩ := answer_ok hstep
    obtain ⟨expert, he, -, ⟨rfl, -⟩ | ⟨task, htask, helig, hassign⟩⟩ := claimNext_ok ht
    · exact ownWork_reclaim
    · rw [(Prod.mk.inj hassign).1]
      exact ownWork_assign (Table.get_pk he) htask (eligibility_iff.mp helig).1
  | claimById expertId taskId =>
    refine ⟨expertId, hop.2, ?_⟩
    simp only [step] at hstep
    obtain ⟨t, ht, -⟩ := answer_ok hstep
    obtain ⟨expert, task, he, -, htask, hs, -, -, hassign⟩ := claimById_ok_iff.mp ht
    rw [← (Prod.mk.inj hassign).1]
    exact ownWork_assign (Table.get_pk he) (Table.get_mem htask) hs
  | release expertId taskId =>
    simp only [step] at hstep
    obtain ⟨t, ht, -⟩ := answer_ok hstep
    exact ⟨expertId, hop.2, ownWork_release ht⟩
  | submit expertId body =>
    simp only [step] at hstep
    obtain ⟨grade, hgrade, -⟩ := answer_ok hstep
    exact ⟨expertId, hop.2, ownWork_submit hgrade⟩
  -- the others are for other roles, or for the host
  | review => exact absurd hrole hop.1
  | resolve => exact absurd hop.1 (by rw [hrole]; decide)
  | reclaim => exact absurd (hop.symm.trans hrole) (by decide)
  | bootstrap | tick => exact absurd hop id
  | _ => exact absurd (hop.1.symm.trans hrole) (by decide)

end Isolation

/-- An expert, number 200, with a key and a task to claim. -/
def Scenario.staffed : List Incoming :=
  [.bootstrap (env 1) "root",
   .http (env 2) (some "root") (.createExpert ⟨"A", ["python"], .junior, none⟩),
   .http (env 3) (some "root") (.createExpertKey 200 "a"),
   .http (env 4) (some "root") (.createRubric "helpfulness" 1 [⟨"accuracy", "Accuracy", 1, 1, 5⟩]),
   .http (env 5) (some "root") (.createTasks [{ task with rubricId := 400 }])]

theorem expert_call_ownWork_claim : ∃ p : Db × Response,
    respond Scenario.bytes (.http (Scenario.env 6) (some "pk_expert_a") .claimNext)
        (served Scenario.bytes Scenario.staffed) = .ok p ∧
      ∃ e, some 200 = some e ∧ OwnWork e 6 (served Scenario.bytes Scenario.staffed) p.1 := by
  have hk : (served Scenario.bytes Scenario.staffed).apiKeys.get 300 =
      some ⟨300, hashed Scenario.bytes "pk_expert_a", .expert, some 200, "A", none⟩ := rfl
  obtain ⟨p, hp⟩ := exists_of_isOk (m := respond Scenario.bytes
    (.http (Scenario.env 6) (some "pk_expert_a") .claimNext)
    (served Scenario.bytes Scenario.staffed)) (by decide +kernel)
  exact ⟨p, hp, expert_call_ownWork ⟨Table.get_mem hk, rfl, _, rfl, by decide, rfl⟩ rfl hp⟩

end Panelist
