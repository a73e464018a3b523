import Panelist.Platform

/-! Methods of the port that throw. Most check everything before they write; a claim by id
reclaims expired leases first, and a review marks its grade before it looks up the rate. -/
namespace Panelist.Port
open Script Transaction Transaction.Lasting

/-! ### Rows stay linked -/

/-- What the rows of a platform refer to each other by, and the numbers of its tasks. -/
structure Keys where
  tasks : List String
  seqs : List ℕ
  taskSeq : ℕ
  experts : List String
  graded : List (String × String)
  paid : List String

def Platform.keys (P : Platform) : Keys where
  tasks := P.tasks.map Task.id
  seqs := P.tasks.map Task.seq
  taskSeq := P.taskSeq
  experts := P.experts.map Expert.id
  graded := P.grades.map (fun g => (g.taskId, g.expertId))
  paid := P.payouts.map Payout.expertId

/-- Tasks are numbered in the order in which they came. -/
structure Keys.Numbered (K : Keys) : Prop where
  increasing : K.seqs.Pairwise (· < ·)
  last : ∀ n ∈ K.seqs, n ≤ K.taskSeq

/-- Grades have their task and their author, payouts their expert, tasks a number each. -/
structure Keys.Linked (K : Keys) : Prop where
  graded : ∀ p ∈ K.graded, p.1 ∈ K.tasks ∧ p.2 ∈ K.experts
  paid : ∀ k ∈ K.paid, k ∈ K.experts
  numbered : K.Numbered

/-- Rows are added only with the rows they refer to, and none is taken away. -/
structure Keys.Grows (K K' : Keys) : Prop where
  tasks : ∀ k ∈ K.tasks, k ∈ K'.tasks
  experts : ∀ k ∈ K.experts, k ∈ K'.experts
  graded : ∀ p ∈ K'.graded, p ∈ K.graded ∨ p.1 ∈ K'.tasks ∧ p.2 ∈ K'.experts
  paid : ∀ k ∈ K'.paid, k ∈ K.paid ∨ k ∈ K'.experts
  numbered : K.Numbered → K'.Numbered

section Keys
variable {K K' : Keys} {P : Platform} {host : Host}

theorem Keys.Grows.refl (K : Keys) : K.Grows K :=
  ⟨fun _ h => h, fun _ h => h, fun _ h => Or.inl h, fun _ h => Or.inl h, id⟩

theorem Keys.Grows.of_eq (h : K' = K) : K.Grows K' := h ▸ .refl K

theorem Keys.Linked.grows (h : K.Linked) (hg : K.Grows K') : K'.Linked := by
  constructor
  · intro p hp
    rcases hg.graded p hp with hold | hnew
    · exact ⟨hg.tasks _ (h.graded p hold).1, hg.experts _ (h.graded p hold).2⟩
    · exact hnew
  · intro k hk
    exact (hg.paid k hk).elim (fun hold => hg.experts _ (h.paid k hold)) id
  · exact hg.numbered h.numbered

theorem Keys.Grows.trans {K'' : Keys} (h : K.Grows K') (h' : K'.Grows K'') : K.Grows K'' := by
  refine ⟨fun k hk => h'.tasks k (h.tasks k hk), fun k hk => h'.experts k (h.experts k hk), ?_, ?_,
    fun hn => h'.numbered (h.numbered hn)⟩
  · intro p hp
    rcases h'.graded p hp with hp | hnew
    · exact (h.graded p hp).imp_right (fun hn => ⟨h'.tasks _ hn.1, h'.experts _ hn.2⟩)
    · exact Or.inr hnew
  · intro k hk
    rcases h'.paid k hk with hk | hnew
    · exact (h.paid k hk).imp_right (h'.experts k)
    · exact Or.inr hnew

/-- The next task gets the next number. -/
theorem Keys.Numbered.concat (h : K.Numbered) (hseqs : K'.seqs = K.seqs ++ [K.taskSeq + 1])
    (hlast : K'.taskSeq = K.taskSeq + 1) : K'.Numbered := by
  constructor
  · rw [hseqs]
    refine List.pairwise_append.mpr ⟨h.increasing, List.pairwise_singleton _ _, fun n hn m hm => ?_⟩
    rw [List.mem_singleton.mp hm]
    exact Nat.lt_succ_of_le (h.last n hn)
  · rw [hseqs, hlast]
    intro n hn
    rcases List.mem_append.mp hn with hold | hnew
    · exact Nat.le_succ_of_le (h.last n hold)
    · exact (List.mem_singleton.mp hnew).le

theorem map_assignTo {α β κ : Type} [DecidableEq κ] {key : α → κ} {k : κ} {f : α → α} {g : α → β}
    (h : ∀ x, g (f x) = g x) (xs : List α) : (assignTo key k f xs).map g = xs.map g := by
  induction xs with
  | nil => rfl
  | cons x xs ih =>
    rw [assignTo]
    split_ifs
    · rw [List.map_cons, List.map_cons, h]
    · rw [List.map_cons, List.map_cons, ih]

theorem mem_map_concat {α β : Type} {f : α → β} {xs : List α} {x : α} {b : β}
    (h : b ∈ (xs ++ [x]).map f) : b ∈ xs.map f ∨ b = f x := by
  rwa [List.map_append, List.map_singleton, List.mem_append, List.mem_singleton] at h

theorem keys_updateTask {task : Task} {f : Task → Task}
    (h : ∀ t, (f t).id = t.id ∧ (f t).seq = t.seq) : (P.updateTask task f).keys = P.keys := by
  unfold Platform.keys Platform.updateTask
  rw [map_assignTo (fun t => (h t).1), map_assignTo (fun t => (h t).2)]

theorem keys_updateExpert {expert : Expert} {f : Expert → Expert} (h : ∀ e, (f e).id = e.id) :
    (P.updateExpert expert f).keys = P.keys := by
  unfold Platform.keys Platform.updateExpert
  rw [map_assignTo h]

theorem keys_reclaimExpired : P.reclaimExpired.keys = P.keys := by
  unfold Platform.keys Platform.reclaimExpired
  dsimp only
  rw [List.map_map, List.map_map]
  congr 1
  all_goals
    refine List.map_congr_left (fun t _ => ?_)
    rw [Function.comp_apply]
    split <;> rfl

theorem keys_payouts {f : Payout → Payout} (h : ∀ p, (f p).expertId = p.expertId) :
    { P with payouts := P.payouts.map f }.keys = P.keys := by
  unfold Platform.keys
  dsimp only
  rw [List.map_map]
  congr 1
  exact List.map_congr_left (fun p _ => h p)

theorem keys_assign {task : Task} {expert : Expert} : (P.assign task expert).1.keys = P.keys := by
  unfold Platform.assign
  dsimp only
  rw [keys_updateExpert (f := Expert.served) (fun _ => rfl),
    keys_updateTask (f := Task.assignTo _ _ _) (fun _ => ⟨rfl, rfl⟩)]

theorem keys_enforceAttention {expert : Expert} : (P.enforceAttention expert).1.keys = P.keys := by
  unfold Platform.enforceAttention
  split
  · rfl
  · split_ifs
    · rfl
    · rfl
    · have hpause := keys_payouts
        (P := P.updateExpert expert (fun e => { e with status := .paused }))
        (f := Platform.withhold expert.id) (fun p => by unfold Platform.withhold; split <;> rfl)
      exact hpause.trans (keys_updateExpert (fun _ => rfl))

theorem keys_checkGrade {expert : Expert} {task : Task} {grade : Grade} :
    (P.checkGrade expert task grade).keys = P.keys := by
  have heval : (P.evaluateAttention task grade).1.keys = P.keys := by
    unfold Platform.evaluateAttention
    cases task.expectedScores with
    | none => rfl
    | some expected =>
      dsimp only
      split_ifs <;> rfl
  unfold Platform.checkGrade
  generalize P.evaluateAttention task grade = out at heval
  obtain ⟨Q, result⟩ := out
  cases result with
  | none => exact heval
  | some result =>
    dsimp only
    split_ifs
    · exact heval
    · exact keys_enforceAttention.trans heval

theorem keys_claimNext {expert : Expert} : (P.claimNext host expert).1.keys = P.keys := by
  unfold Platform.claimNext
  split_ifs
  · rfl
  · dsimp only
    split
    · exact keys_reclaimExpired
    · exact keys_assign.trans keys_reclaimExpired

/-- Lookups find stored rows. -/
theorem expert_ok {k : String} {e : Expert} (h : P.expert k = .ok e) :
    e ∈ P.experts ∧ e.id = k := by
  rw [Platform.expert, orFail_ok_iff] at h
  exact ⟨List.mem_of_find?_eq_some h, by simpa using List.find?_some h⟩

theorem task_ok {k : String} {t : Task} (h : P.task k = .ok t) : t ∈ P.tasks ∧ t.id = k := by
  rw [Platform.task, orFail_ok_iff] at h
  exact ⟨List.mem_of_find?_eq_some h, by simpa using List.find?_some h⟩

theorem grade_ok {k : String} {g : Grade} (h : P.grade k = .ok g) : g ∈ P.grades ∧ g.id = k := by
  rw [Platform.grade, orFail_ok_iff] at h
  exact ⟨List.mem_of_find?_eq_some h, by simpa using List.find?_some h⟩

theorem expert_exists {k : String} (h : k ∈ P.keys.experts) : ∃ e, P.expert k = .ok e := by
  obtain ⟨e, he, hid⟩ := List.mem_map.mp h
  simp only [Platform.expert, orFail_ok_iff]
  exact Option.ne_none_iff_exists'.mp (fun hnone =>
    absurd hid (by simpa using List.find?_eq_none.mp hnone e he))

theorem task_exists {k : String} (h : k ∈ P.keys.tasks) : ∃ t, P.task k = .ok t := by
  obtain ⟨t, ht, hid⟩ := List.mem_map.mp h
  simp only [Platform.task, orFail_ok_iff]
  exact Option.ne_none_iff_exists'.mp (fun hnone =>
    absurd hid (by simpa using List.find?_eq_none.mp hnone t ht))

/-! The keys after each method -/

variable {expert : Expert}

theorem grows_createTask (rubricId : String) (input : TaskInput) :
    P.keys.Grows (Platform.createTask host rubricId P input).keys := by
  unfold Platform.createTask Platform.idOr
  cases input.id <;>
    exact ⟨fun k hk => by simpa [Platform.keys] using Or.inl (List.mem_map.mp hk), fun _ h => h,
      fun _ h => Or.inl h, fun _ h => Or.inl h, fun h => h.concat List.map_append rfl⟩

theorem grows_createTasks (rubricId : String) (inputs : List TaskInput) :
    P.keys.Grows (inputs.foldl (Platform.createTask host rubricId) P).keys := by
  induction inputs generalizing P with
  | nil => exact .refl _
  | cons input inputs ih => exact (grows_createTask rubricId input).trans ih

theorem grows_createExpert (input : ExpertInput) :
    P.keys.Grows (P.createExpert host input).keys := by
  unfold Platform.createExpert Platform.idOr
  cases input.id <;>
    exact ⟨fun _ h => h, fun k hk => by simpa [Platform.keys] using Or.inl (List.mem_map.mp hk),
      fun _ h => Or.inl h, fun _ h => Or.inl h, fun h => ⟨h.increasing, h.last⟩⟩

theorem keys_claimById {taskId : String} {holdLock : Bool} :
    (exec (Platform.claimById expert taskId holdLock) P).2.keys = P.keys := by
  rw [Platform.exec_claimById]
  split_ifs with hactive
  · cases P.reclaimExpired.claimableById expert taskId with
    | error e => exact keys_reclaimExpired
    | ok task =>
      dsimp only
      rw [keys_assign]
      exact keys_reclaimExpired
  · cases P.reclaimExpired.claimableById expert taskId with
    | error e => exact keys_reclaimExpired
    | ok task =>
      dsimp only
      rw [keys_assign]
      exact keys_reclaimExpired
  · rfl

theorem keys_release {taskId : String} :
    (exec (Platform.release expert taskId) P).2.keys = P.keys := by
  rw [Platform.exec_release]
  cases P.task taskId with
  | error e => rfl
  | ok task =>
    dsimp only
    split_ifs
    · exact keys_updateTask (fun _ => ⟨rfl, rfl⟩)
    · rfl

theorem grows_submitGrade (hexpert : expert.id ∈ P.keys.experts) {taskId : String} {scores : Dict ℚ}
    {rationale : String} {seconds : Number} : P.keys.Grows
      (exec (Platform.submitGrade host expert taskId scores rationale seconds) P).2.keys := by
  rw [Platform.exec_submitGrade]
  cases ht : P.task taskId with
  | error e => exact .refl _
  | ok task =>
    dsimp only
    split_ifs
    · split
      · exact .refl _
      · exact .refl _
      · rename_i rubric _ _
        dsimp only [Platform.afterGrade]
        rw [keys_checkGrade, keys_updateTask (f := Task.graded) (fun _ => ⟨rfl, rfl⟩)]
        -- the one new key is the grade, of a known task and expert
        refine ⟨fun _ h => h, fun _ h => h, fun p hp => ?_, fun _ h => Or.inl h,
          fun h => ⟨h.increasing, h.last⟩⟩
        rcases mem_map_concat hp with hold | rfl
        · exact Or.inl hold
        · exact Or.inr ⟨List.mem_map_of_mem (task_ok ht).1, hexpert⟩
    · exact .refl _

theorem keys_marked {gradeId : String} {verdict : Review} :
    (P.marked gradeId verdict).keys = P.keys := by
  unfold Platform.keys Platform.marked
  dsimp only
  rw [map_assignTo (f := fun g : Grade => { g with review := some verdict }) (fun _ => rfl)]

theorem grows_createPayout {grade : Grade} {task : Task} :
    P.keys.Grows (exec (Platform.createPayout host grade task) P).2.keys := by
  rw [Platform.exec_createPayout]
  cases P.payouts.find? (fun p => p.gradeId = grade.id) with
  | some existing => exact .refl _
  | none =>
    dsimp only
    cases hx : P.expert grade.expertId with
    | error e => exact .refl _
    | ok author =>
      dsimp only
      cases P.rateFor author task.taskType with
      | error e => exact .refl _
      | ok amount =>
        refine ⟨fun _ h => h, fun _ h => h, fun _ h => Or.inl h, fun k hk => ?_,
          fun h => ⟨h.increasing, h.last⟩⟩
        rcases mem_map_concat hk with hold | rfl
        · exact Or.inl hold
        · exact Or.inr (List.mem_map_of_mem (expert_ok hx).1)

theorem Task.reviewed_keys (d : ReviewDecision) (t : Task) :
    (t.reviewed d).id = t.id ∧ (t.reviewed d).seq = t.seq := by
  unfold Task.reviewed
  split_ifs <;> exact ⟨rfl, rfl⟩

theorem grows_review {gradeId : String} {decision : ReviewDecision} {reason : Option String} :
    P.keys.Grows (exec (Platform.review host gradeId decision reason) P).2.keys := by
  rw [Platform.exec_review]
  cases P.grade gradeId with
  | error e => exact .refl _
  | ok grade =>
    dsimp only
    -- only an approval draws an id, for its payout
    split_ifs with hnew hdec
    · cases P.task grade.taskId with
      | error e => exact .of_eq keys_marked
      | ok task =>
        dsimp only
        have hgrows := @grows_createPayout
          (P.marked grade.id ⟨gradeId, decision, reason, P.clock⟩) host grade task
        rw [keys_marked] at hgrows
        generalize exec (Platform.createPayout host grade task)
          (P.marked grade.id ⟨gradeId, decision, reason, P.clock⟩) = out at hgrows
        match out with
        | (.error e, Q) => exact hgrows
        | (.ok payout, Q) =>
          exact hgrows.trans (.of_eq (keys_updateTask (Task.reviewed_keys decision)))
    · cases P.task grade.taskId with
      | error e => exact .of_eq keys_marked
      | ok task =>
        exact .of_eq ((keys_updateTask (Task.reviewed_keys decision)).trans keys_marked)
    · exact .refl _

theorem keys_closePeriod {label : String} :
    (exec (Platform.closePeriod host label) P).2.keys = P.keys := by
  rw [Platform.exec_closePeriod]
  split_ifs
  · rfl
  · exact keys_payouts (f := Platform.settle _) (fun p => by
      unfold Platform.settle
      split <;> rfl)

theorem grows_withExpert {α : Type} {k : String} {m : Expert → Method α}
    (h : ∀ expert, P.expert k = .ok expert → P.keys.Grows (exec (m expert) P).2.keys) :
    P.keys.Grows (exec (Platform.withExpert k m) P).2.keys := by
  rw [Platform.exec_withExpert]
  cases hx : P.expert k with
  | error e => exact .refl _
  | ok expert => exact h expert hx

theorem exec_discard {α : Type} (m : Method α) :
    exec (discard m) P = ((exec m P).1.map (fun _ => ()), (exec m P).2) := exec_map _ _ _

/-- No call takes a row away, and what it adds is linked. -/
theorem grows_perform (call : Call) :
    P.keys.Grows (exec (Platform.perform host call) P).2.keys := by
  cases call with
  | createRubric name version criteria id =>
    unfold Platform.perform Platform.createRubric Platform.idOr
    rw [exec_modify]
    cases id <;> exact .refl _
  | putRateCards cards => exact .refl _
  | createExpert input => exact grows_createExpert input
  | createTasks inputs =>
    unfold Platform.perform Platform.createTasks
    rw [exec_get_bind, exec_lift_bind]
    cases P.rubric with
    | none => exact .refl _
    | some rubric => exact grows_createTasks rubric.id inputs
  -- the clock, the claims and the locks draw no id
  | advance ms => exact .refl _
  | claimNext expertId => exact grows_withExpert (fun expert _ => .of_eq keys_claimNext)
  | claimById expertId taskId holdLock =>
    exact grows_withExpert (fun expert _ => .of_eq keys_claimById)
  | releaseLock taskId => exact .refl _
  | reclaimExpired => exact .of_eq keys_reclaimExpired
  | release expertId taskId => exact grows_withExpert (fun expert _ => .of_eq keys_release)
  | submitGrade expertId taskId scores rationale seconds =>
    refine grows_withExpert (fun expert hx => grows_submitGrade ?_)
    exact List.mem_map_of_mem (expert_ok hx).1
  | enforceAttention expertId =>
    exact grows_withExpert (fun expert _ => .of_eq keys_enforceAttention)
  | reinstate expertId =>
    refine grows_withExpert (fun expert _ => .of_eq ?_)
    -- a reinstatement rewrites payouts and the expert, and keeps their ids
    exact (keys_payouts (f := Platform.putBack expert.id) (fun p => by
      unfold Platform.putBack
      split <;> rfl)).trans (keys_updateExpert (fun _ => rfl))
  | review gradeId decision reason =>
    unfold Platform.perform
    rw [exec_discard]
    exact grows_review
  | closePeriod label =>
    unfold Platform.perform
    rw [exec_discard]
    exact .of_eq keys_closePeriod
  | exportDelivery =>
    unfold Platform.perform Platform.exportDelivery
    rw [exec_get_bind, exec_lift_bind]
    cases P.deliveryRows <;> exact .refl _

theorem linked_step (call : Call) (h : P.keys.Linked) :
    (commit (Platform.step host) call P).keys.Linked := h.grows (grows_perform call)

theorem linked_new (settings : Settings) (clock : ℚ) : (Platform.new settings clock).keys.Linked :=
  ⟨fun _ hp => absurd hp List.not_mem_nil, fun _ hk => absurd hk List.not_mem_nil,
    List.Pairwise.nil, fun _ hn => absurd hn List.not_mem_nil⟩

theorem linked_run (settings : Settings) (clock : ℚ) (calls : List Call) :
    (run (Platform.step host) (.new settings clock) calls).keys.Linked := by
  induction calls using List.reverseRecOn with
  | nil => exact linked_new settings clock
  | append_singleton calls call ih =>
    rw [run_concat]
    exact linked_step call ih

end Keys

/-! ### Calls that throw -/

/-- The rows of a platform. -/
structure SameRows (P P' : Platform) : Prop where
  experts : P'.experts = P.experts
  tasks : P'.tasks = P.tasks
  grades : P'.grades = P.grades
  payouts : P'.payouts = P.payouts
  periods : P'.periods = P.periods
  attentionResults : P'.attentionResults = P.attentionResults
  deliveries : P'.deliveries = P.deliveries

theorem SameRows.refl (P : Platform) : SameRows P P := ⟨rfl, rfl, rfl, rfl, rfl, rfl, rfl⟩

/-- If the method throws, it leaves all rows as they were. -/
def Safe {α : Type} (m : Method α) (P : Platform) : Prop :=
  ∀ e P', exec m P = (.error e, P') → SameRows P P'

/-- The task can be claimed once the leases that are over are taken back. -/
def Claimable (P : Platform) (expert : Expert) (taskId : String) : Prop :=
  ∃ t, P.task taskId = .ok t ∧ P.locked.contains t.id = false ∧
    (t.status = .queued ∨ P.expired t) ∧ overlap t.requiredTags expert.tags ∧
    t.minTier.rank ≤ expert.tier.rank

/-- The call throws after it wrote: an active expert claims by id what cannot be claimed while
some lease is over, or a review approves a grade that has no verdict, no payout and no rate. -/
def Leaks (P : Platform) : Call → Prop
  | .claimById expertId taskId _ => ∃ expert, P.expert expertId = .ok expert ∧
      expert.status = .active ∧ ¬ Claimable P expert taskId ∧ ∃ t ∈ P.tasks, P.expired t
  | .review gradeId decision _ => decision = .approve ∧ ∃ g t expert,
      P.grade gradeId = .ok g ∧ g.review = none ∧ (∀ p ∈ P.payouts, p.gradeId ≠ g.id) ∧
      P.task g.taskId = .ok t ∧ P.expert g.expertId = .ok expert ∧
      ∀ cents, P.rateFor expert t.taskType ≠ .ok cents
  | _ => False

section Atomicity
variable {P : Platform} {host : Host} {expert : Expert}

/-- Taking leases back changes the tasks as soon as one of them is over. -/
theorem reclaimExpired_tasks : P.reclaimExpired.tasks = P.tasks ↔ ∀ t ∈ P.tasks, ¬ P.expired t := by
  unfold Platform.reclaimExpired
  dsimp only
  constructor
  · intro h t ht hexp
    have hmap := List.map_inj_left.mp (h.trans (List.map_id _).symm) t ht
    rw [if_pos hexp] at hmap
    have hstatus : TaskStatus.queued = t.status := congrArg Task.status hmap
    rw [Platform.expired, ← hstatus] at hexp
    exact absurd hexp (by simp)
  · intro h
    calc P.tasks.map (fun t => if P.expired t then t.reclaimed else t) = P.tasks.map id :=
          List.map_congr_left (fun t ht => if_neg (h t ht))
      _ = P.tasks := List.map_id _

theorem reclaimed_find (k : String) : P.reclaimExpired.tasks.find? (fun t => t.id = k) =
    (P.tasks.find? (fun t => t.id = k)).map (fun t => if P.expired t then t.reclaimed else t) := by
  unfold Platform.reclaimExpired
  dsimp only
  rw [List.find?_map]
  congr 1
  refine List.find?_congr (fun t _ => ?_)
  rw [Function.comp_apply]
  split <;> rfl

/-- The checks of a claim by id pass exactly for what can be claimed. -/
theorem claimableById_ok {taskId : String} :
    (∃ t, P.reclaimExpired.claimableById expert taskId = .ok t) ↔ Claimable P expert taskId := by
  unfold Platform.claimableById Claimable
  simp only [bind_ok_iff, orFail_ok_iff, require_ok_iff, pure_ok_iff, reclaimed_find,
    Option.map_eq_some_iff, Platform.task]
  -- reclaiming moves the status of an expired task and nothing the checks read
  have hrow (t : Task) : (if P.expired t then t.reclaimed else t).id = t.id ∧
      (if P.expired t then t.reclaimed else t).requiredTags = t.requiredTags ∧
      (if P.expired t then t.reclaimed else t).minTier = t.minTier ∧
      ((if P.expired t then t.reclaimed else t).status = .queued ↔
        t.status = .queued ∨ P.expired t) := by
    split_ifs with hexp
    · exact ⟨rfl, rfl, rfl, ⟨fun _ => Or.inr hexp, fun _ => rfl⟩⟩
    · exact ⟨rfl, rfl, rfl, ⟨Or.inl, fun h => h.resolve_right hexp⟩⟩
  have hlocked : P.reclaimExpired.locked = P.locked := rfl
  rw [hlocked]
  constructor
  · rintro ⟨t', _, ⟨t, ht, rfl⟩, _, hlock, _, hs, _, htags, _, htier, _⟩
    obtain ⟨hid, hreq, hmin, hstatus⟩ := hrow t
    rw [hid] at hlock
    exact ⟨t, ht, by simpa using hlock, hstatus.mp hs, by rwa [hreq] at htags,
      by rwa [hmin] at htier⟩
  · rintro ⟨t, ht, hlock, hs, htags, htier⟩
    obtain ⟨hid, hreq, hmin, hstatus⟩ := hrow t
    refine ⟨_, _, ⟨t, ht, rfl⟩, (), ?_, (), hstatus.mpr hs, (), ?_, (), ?_, rfl⟩
    · rw [hid]
      simpa using hlock
    · rwa [hreq]
    · rwa [hmin]

theorem map_error_iff {α β ε σ : Type} {f : α → β} {out : Except ε α × σ} {e : ε} {P' : σ} :
    (out.1.map f, out.2) = (.error e, P') ↔ out = (.error e, P') := by
  match out with
  | (.ok a, Q) => simp [Except.map]
  | (.error e', Q) => simp [Except.map]

theorem safe_discard {α : Type} {m : Method α} : Safe (discard m) P ↔ Safe m P := by
  unfold Safe
  simp only [exec_discard, map_error_iff]

theorem safe_withExpert {α : Type} {k : String} {m : Expert → Method α} :
    Safe (Platform.withExpert k m) P ↔ ∀ expert, P.expert k = .ok expert → Safe (m expert) P := by
  unfold Safe
  rw [Platform.exec_withExpert]
  cases P.expert k with
  | error e =>
    refine ⟨fun _ expert hx => absurd hx (by simp), fun _ e' P' h => ?_⟩
    obtain rfl : P = P' := congrArg Prod.snd h
    exact .refl P
  | ok expert =>
    simp only [map_error_iff]
    exact ⟨fun h x hx => Except.ok.inj hx ▸ h, fun h => h expert rfl⟩

/-- A method that answers or leaves everything as it was is safe. -/
theorem safe_of_exec {α : Type} {m : Method α}
    (h : (∃ a Q, exec m P = (.ok a, Q)) ∨ (exec m P).2 = P) : Safe m P := by
  intro e P' hrun
  rcases h with ⟨a, Q, hok⟩ | hsame
  · rw [hok] at hrun
    exact absurd (congrArg Prod.fst hrun) (by simp)
  · rw [hrun] at hsame
    rw [show P' = P from hsame]
    exact .refl P

theorem safe_release {taskId : String} : Safe (Platform.release expert taskId) P := by
  apply safe_of_exec
  rw [Platform.exec_release]
  cases P.task taskId with
  | error e => exact Or.inr rfl
  | ok task =>
    dsimp only
    split_ifs
    · exact Or.inl ⟨_, _, rfl⟩
    · exact Or.inr rfl

theorem safe_submitGrade {taskId : String} {scores : Dict ℚ} {rationale : String}
    {seconds : Number} :
    Safe (Platform.submitGrade host expert taskId scores rationale seconds) P := by
  apply safe_of_exec
  rw [Platform.exec_submitGrade]
  cases P.task taskId with
  | error e => exact Or.inr rfl
  | ok task =>
    dsimp only
    split_ifs
    · cases hv : P.validateScores scores with
      | error e => exact Or.inr rfl
      | ok u =>
        obtain ⟨rubric, hr⟩ := Platform.validateScores_rubric P hv
        rw [hr]
        exact Or.inl ⟨_, _, rfl⟩
    · exact Or.inr rfl

theorem safe_closePeriod {label : String} : Safe (Platform.closePeriod host label) P := by
  apply safe_of_exec
  rw [Platform.exec_closePeriod]
  split_ifs
  · exact Or.inr rfl
  · exact Or.inl ⟨_, _, rfl⟩

/-- A claim by id is unsafe when it is refused after it took a lease back. -/
theorem safe_claimById {taskId : String} {holdLock : Bool} :
    Safe (Platform.claimById expert taskId holdLock) P ↔
      ¬ (expert.status = .active ∧ ¬ Claimable P expert taskId ∧ ∃ t ∈ P.tasks, P.expired t) := by
  unfold Safe
  rw [Platform.exec_claimById, ← claimableById_ok]
  by_cases hactive : expert.status = .active
  · rw [if_pos hactive]
    cases P.reclaimExpired.claimableById expert taskId with
    | ok t =>
      refine ⟨fun _ h => h.2.1 ⟨t, rfl⟩, fun _ e P' h => ?_⟩
      exact absurd (congrArg Prod.fst h) (by simp)
    | error err =>
      constructor
      · rintro h ⟨_, _, t, ht, hexp⟩
        exact reclaimExpired_tasks.mp (h err _ rfl).tasks t ht hexp
      · intro h e P' hrun
        -- no lease was over, so reclaiming changed nothing
        have hnone : ∀ t ∈ P.tasks, ¬ P.expired t :=
          fun t ht hexp => h ⟨hactive, fun ⟨t', ht'⟩ => absurd ht' (by simp), t, ht, hexp⟩
        obtain rfl : P.reclaimExpired = P' := congrArg Prod.snd hrun
        exact ⟨rfl, reclaimExpired_tasks.mpr hnone, rfl, rfl, rfl, rfl, rfl⟩
  · rw [if_neg hactive]
    refine ⟨fun _ h => hactive h.1, fun _ e P' h => ?_⟩
    obtain rfl : P = P' := congrArg Prod.snd h
    exact .refl P

/-- An assignment that changes the row it finds changes the rows. -/
theorem assignTo_ne {α κ : Type} [DecidableEq κ] {key : α → κ} {k : κ} {f : α → α} {xs : List α}
    {x : α} (hx : xs.find? (fun x => key x = k) = some x) (hf : f x ≠ x) :
    assignTo key k f xs ≠ xs := by
  induction xs with
  | nil => exact absurd hx (by simp)
  | cons y ys ih =>
    rw [assignTo]
    rw [List.find?_cons] at hx
    by_cases hkey : key y = k
    · rw [if_pos hkey]
      obtain rfl : y = x := by simpa [hkey] using hx
      exact fun h => hf (List.cons.inj h).1
    · rw [if_neg hkey]
      exact fun h => ih (by simpa [hkey] using hx) (List.cons.inj h).2

/-- A mark changes the grades. -/
theorem marked_grades {gradeId : String} {g : Grade} (hg : P.grade gradeId = .ok g)
    (hnone : g.review = none) (verdict : Review) : (P.marked g.id verdict).grades ≠ P.grades := by
  have hfind : P.grades.find? (fun x => x.id = g.id) = some g := by
    rw [(grade_ok hg).2]
    rwa [Platform.grade, orFail_ok_iff] at hg
  refine assignTo_ne hfind (fun h => ?_)
  have hreview : some verdict = g.review := congrArg Grade.review h
  exact absurd (hreview.trans hnone) (Option.some_ne_none verdict)

/-- A review is unsafe when it approves a grade without a rate. -/
theorem safe_review (hl : P.keys.Linked) {gradeId : String} {decision : ReviewDecision}
    {reason : Option String} :
    Safe (Platform.review host gradeId decision reason) P ↔
      ¬ Leaks P (.review gradeId decision reason) := by
  unfold Safe Leaks
  rw [Platform.exec_review]
  cases hg : P.grade gradeId with
  | error err =>
    refine ⟨fun _ h => ?_, fun _ e P' h => ?_⟩
    · obtain ⟨_, g, _, _, hg', _⟩ := h
      exact absurd (hg.symm.trans hg') (by simp)
    · obtain rfl : P = P' := congrArg Prod.snd h
      exact .refl P
  | ok g =>
    -- from here on the grade, its task and its author are there
    have hmem := (grade_ok hg).1
    obtain ⟨htask, hexpert⟩ := hl.graded (g.taskId, g.expertId) (List.mem_map_of_mem hmem)
    obtain ⟨t, ht⟩ := task_exists htask
    obtain ⟨expert, hx⟩ := expert_exists hexpert
    dsimp only
    by_cases hnew : g.review.isNone
    case neg =>
      rw [if_neg hnew]
      refine ⟨fun _ h => ?_, fun _ e P' h => ?_⟩
      · obtain ⟨_, g', _, _, hg', hnone, _⟩ := h
        obtain rfl := Except.ok.inj (hg.symm.trans hg')
        exact hnew (Option.isNone_iff_eq_none.mpr hnone)
      · obtain rfl : P = P' := congrArg Prod.snd h
        exact .refl P
    rw [if_pos hnew, ht]
    dsimp only
    have hnone := Option.isNone_iff_eq_none.mp hnew
    -- a rejection pays nothing, so nothing throws after the verdict
    by_cases hd : decision = .approve
    case neg =>
      rw [if_neg hd]
      refine ⟨fun _ h => hd h.1, fun _ e P' h => ?_⟩
      exact absurd (congrArg Prod.fst h) (by simp)
    rw [if_pos hd, Platform.exec_createPayout]
    have hpayouts : (P.marked g.id ⟨gradeId, decision, reason, P.clock⟩).payouts = P.payouts := rfl
    have hexpert : (P.marked g.id ⟨gradeId, decision, reason, P.clock⟩).expert g.expertId =
        .ok expert := hx
    have hrate : (P.marked g.id ⟨gradeId, decision, reason, P.clock⟩).rateFor expert t.taskType =
        P.rateFor expert t.taskType := rfl
    rw [hpayouts, hexpert]
    cases hp : P.payouts.find? (fun p => p.gradeId = g.id) with
    | some existing =>
      refine ⟨fun _ h => ?_, fun _ e P' h => absurd (congrArg Prod.fst h) (by simp)⟩
      obtain ⟨_, g', _, _, hg', _, hunpaid, _⟩ := h
      obtain rfl := Except.ok.inj (hg.symm.trans hg')
      exact hunpaid existing (List.mem_of_find?_eq_some hp) (by simpa using List.find?_some hp)
    | none =>
      dsimp only
      rw [hrate]
      -- without a rate the verdict stays and the payout does not come
      cases hr : P.rateFor expert t.taskType with
      | ok cents =>
        refine ⟨fun _ h => ?_, fun _ e P' h => absurd (congrArg Prod.fst h) (by simp)⟩
        obtain ⟨_, g', t', expert', hg', _, _, ht', hx', hrateless⟩ := h
        obtain rfl := Except.ok.inj (hg.symm.trans hg')
        obtain rfl := Except.ok.inj (ht.symm.trans ht')
        obtain rfl := Except.ok.inj (hx.symm.trans hx')
        exact hrateless cents hr
      | error err =>
        constructor
        · intro h
          exact absurd (h err _ rfl).grades (marked_grades hg hnone _)
        · intro h
          refine absurd ⟨hd, g, t, expert, hg, hnone, fun p hp' => ?_, ht, hx, fun cents hc => ?_⟩ h
          · simpa using List.find?_eq_none.mp hp p hp'
          · exact absurd (hr.symm.trans hc) (by simp)

/-- A call is unsafe exactly when it leaks. -/
theorem safe_perform (hl : P.keys.Linked) (call : Call) :
    Safe (Platform.perform host call) P ↔ ¬ Leaks P call := by
  have hquiet {α : Type} {m : Method α} (h : Safe m P) : Safe m P ↔ ¬ False :=
    ⟨fun _ => id, fun _ => h⟩
  cases call with
  | claimById expertId taskId holdLock =>
    unfold Platform.perform Leaks
    rw [safe_withExpert]
    constructor
    · rintro h ⟨expert, hx, hleak⟩
      exact safe_claimById.mp (h expert hx) hleak
    · intro h expert hx
      exact safe_claimById.mpr (fun hleak => h ⟨expert, hx, hleak⟩)
  | review gradeId decision reason =>
    exact safe_discard.trans (safe_review hl)
  -- what throws in the others throws before anything is written
  | release expertId taskId => exact hquiet (safe_withExpert.mpr (fun expert _ => safe_release))
  | submitGrade expertId taskId scores rationale seconds =>
    exact hquiet (safe_withExpert.mpr (fun expert _ => safe_submitGrade))
  | closePeriod label => exact hquiet (safe_discard.mpr safe_closePeriod)
  | createTasks inputs =>
    refine hquiet (safe_of_exec ?_)
    unfold Platform.perform Platform.createTasks
    rw [exec_get_bind, exec_lift_bind]
    cases P.rubric with
    | none => exact Or.inr rfl
    | some rubric => exact Or.inl ⟨_, _, rfl⟩
  | exportDelivery =>
    refine hquiet (safe_of_exec ?_)
    unfold Platform.perform Platform.exportDelivery
    rw [exec_get_bind, exec_lift_bind]
    cases P.deliveryRows with
    | error e => exact Or.inr rfl
    | ok rows => exact Or.inl ⟨_, _, rfl⟩
  | claimNext expertId | enforceAttention expertId | reinstate expertId =>
    exact hquiet (safe_withExpert.mpr (fun expert _ => safe_of_exec (Or.inl ⟨_, _, rfl⟩)))
  | createRubric name version criteria id => exact hquiet (safe_of_exec (Or.inl ⟨_, _, rfl⟩))
  | putRateCards cards => exact hquiet (safe_of_exec (Or.inl ⟨_, _, rfl⟩))
  | createExpert input => exact hquiet (safe_of_exec (Or.inl ⟨_, _, rfl⟩))
  | advance ms => exact hquiet (safe_of_exec (Or.inl ⟨_, _, rfl⟩))
  | releaseLock taskId => exact hquiet (safe_of_exec (Or.inl ⟨_, _, rfl⟩))
  | reclaimExpired => exact hquiet (safe_of_exec (Or.inl ⟨_, _, rfl⟩))

end Atomicity

/-- In a run of the port every call that throws leaves all rows as they were if and only if no
call leaks. -/
theorem throws_keep_rows_iff (host : Host) (settings : Settings) (clock : ℚ) (calls : List Call) :
    (∀ earlier call later, calls = earlier ++ call :: later → Safe (Platform.perform host call)
      (run (Platform.step host) (.new settings clock) earlier)) ↔
    Along (Platform.step host) (fun P call => ¬ Leaks P call) (.new settings clock) calls := by
  rw [along_iff (Platform.step host) (C := fun P call => Safe (Platform.perform host call) P)]
  exact along_congr (Platform.step host) (P := fun P => P.keys.Linked)
    (fun call P h _ => linked_step call h) (fun call P h => safe_perform h call)
    (linked_new settings clock)

/-! A platform without rate cards, with one grade to review -/

def drawingHost : Host := ⟨fun _ => "", fun n => toString (n + 100), fun _ => []⟩

def noChecks : Settings := ⟨1800, 0, "", 10, 5, 7 / 10, 1⟩

def oneScore : Dict ℚ := ⟨[("accuracy", 4)], by decide⟩

def unpriced : Platform := run (Platform.step drawingHost) (.new noChecks 0)
  [.createRubric "quality" (.round 1) [("accuracy", .round 1)] none,
    .createExpert ⟨some "1", "Ada", ["code"], .junior, none⟩,
    .createTasks
      [⟨some "2", "t", "Explain.", [], ["code"], "text", .junior, 0, none, 1, false, none⟩],
    .claimNext "1",
    .submitGrade "1" "2" oneScore "Sound." (.round 60)]

def approval : Method Unit := Platform.perform drawingHost (.review "101" .approve none)

/-- The status code that a call threw. -/
def thrown (answer : Except ServiceError Unit) : Option ℕ :=
  match answer with
  | .ok _ => none
  | .error e => some e.statusCode

/-- A review that was refused for want of a rate stays, and cannot be repeated once there is a
rate card. -/
theorem refused_review_sticks :
    thrown (exec approval unpriced).1 = some 422 ∧ ¬ Safe approval unpriced ∧
    thrown (exec approval ((exec approval unpriced).2.putRateCards
      [⟨.junior, "default", .round 500⟩])).1 = some 409 := by
  have hthrown : thrown (exec approval unpriced).1 = some 422 := by decide +kernel
  refine ⟨hthrown, fun hsafe => ?_, by decide +kernel⟩
  have hbefore : unpriced.grades.map (fun g => g.review.isSome) = [false] := by decide +kernel
  have hafter : (exec approval unpriced).2.grades.map (fun g => g.review.isSome) = [true] := by
    decide +kernel
  match hrun : exec approval unpriced with
  | (.ok u, P') => exact absurd hthrown (by simp [hrun, thrown])
  | (.error e, P') =>
    rw [hrun, (hsafe e P' hrun).grades, hbefore] at hafter
    exact absurd hafter (by decide)

end Panelist.Port
