import Panelist.Throws
import Panelist.World

/-! `web/src/sim/demo.ts`, the grading pass: workers take turns, claiming in one round and
grading in the next, until none finds work. A grade may be refused because its lease ran out and
the task went to somebody else, yet whoever claimed last cannot have been robbed. -/
namespace Panelist.Port
open Script Transaction Transaction.Lasting

/-! ### Turns -/

/-- What a pass yields. -/
inductive DemoEvent where
  | reclaimed (count : ℕ) (refs : List String)
  | empty (expert : String)
  | claim (expert ref tag : String) (golden : Bool) (queueLeft : ℕ)
  | attention (expert ref : String) (passed : Bool) (maxDeviation : Number) (rate : Number)
      (checks : ℕ)
  | paused (expert : String) (rate : Number) (checks withheld : ℕ)
  | gradeConflict (expert ref : String)

structure Worker where
  sim : SimExpert
  rng : Rng
  pending : Option (String × SimTask)
  done : Bool

/-- The platform and what was yielded so far. The counts of `stats` decide nothing. -/
structure Stage where
  platform : Platform
  events : List DemoEvent

namespace Stage

def yields (S : Stage) (event : DemoEvent) : Stage := { S with events := S.events ++ [event] }

@[simp] theorem yields_platform (S : Stage) (event : DemoEvent) :
    (S.yields event).platform = S.platform := rfl

/-- `if (c) yield event`. -/
def yieldsIf (S : Stage) (c : Prop) [Decidable c] (event : DemoEvent) : Stage :=
  if c then S.yields event else S

@[simp] theorem yieldsIf_platform (S : Stage) (c : Prop) [Decidable c] (event : DemoEvent) :
    (S.yieldsIf c event).platform = S.platform := by
  unfold yieldsIf
  split_ifs <;> rfl

/-- `platform.clock.advance(ms)`. -/
def advance (S : Stage) (ms : ℚ≥0) : Stage :=
  { S with platform := { S.platform with clock := S.platform.clock + ms } }

end Stage

section Turns
variable (host : Host) (tasksById : String → Option SimTask)

/-- `expertAction` of a worker without a task. -/
def claimTurn (expert : Expert) (w : Worker) (S : Stage) : Except Failure Worker × Stage :=
  -- the leases `claimNext` is about to reclaim, for the event
  let before := S.platform.tasks.filter (fun t =>
    t.status = .assigned ∧ t.leaseExpiresAt.any (fun l => l < S.platform.clock))
  let (P, r) := S.platform.claimNext host expert
  let S : Stage := { S with platform := P }
  let S := S.yieldsIf (0 < before.length)
    (.reclaimed before.length (before.map Task.externalRef))
  match r with
  | .refused statusCode _ =>
    -- paused in the meantime
    if statusCode = 423 then (.ok { w with sim := { w.sim with paused := true }, done := true }, S)
    else (.ok { w with done := true }, S.yields (.empty w.sim.name))
  | .claimed task _ =>
    match tasksById task.id with
    -- the demo hands out only tasks of its world
    | none => (.error (.error "unknown task"), S)
    | some sim =>
      let tags := Platform.sorted (task.requiredTags.filter (fun t => expert.tags.contains t))
      let queueLeft := (P.tasks.filter (fun t => t.status = .queued ∧ ¬ t.isAttentionCheck)).length
      (.ok { w with
          sim := { w.sim with served := w.sim.served + 1 }
          pending := some (task.id, sim) },
        S.yields
          (.claim w.sim.name task.externalRef (tags.headD "") task.isAttentionCheck queueLeft))

/-- What an accepted grade yields. -/
def reportGrade (expert : Expert) (w : Worker) (task : Task) (grade : Grade) (S : Stage) : Stage :=
  if task.isAttentionCheck then
    let result := S.platform.attentionResults.find? (fun a => a.gradeId = grade.id)
    let (rate, _, checks) := S.platform.rollingPassRate expert.id
    let S := S.yields (.attention w.sim.name task.externalRef ((result.map (·.passed)).getD true)
      ((result.map (·.maxDeviation)).getD (.zero false)) (rate.getD (.round 1)) checks)
    -- `expert` is the row from before the grade
    let nowPaused := (S.platform.experts.find? (fun x => x.id = expert.id)).any
      (fun x => x.status = .paused)
    let withheld := (S.platform.payouts.filter (fun p =>
      p.expertId = expert.id ∧ p.status = .withheld)).length
    S.yieldsIf (expert.status ≠ .paused ∧ nowPaused)
      (.paused w.sim.name (rate.getD (.zero false)) checks withheld)
  else S

/-- `expertAction` of a worker that holds a task. -/
def gradeTurn (expert : Expert) (w : Worker) (taskId : String) (sim : SimTask) (S : Stage) :
    Except Failure Worker × Stage :=
  let (body, rng) := gradeFor w.rng w.sim sim
  let w := { w with pending := none, rng := rng }
  match S.platform.task taskId with
  | .error e => (.error (.service e), S)
  | .ok task =>
    match exec (Platform.submitGrade host expert taskId body.scores body.rationale
      body.timeSpentSeconds) S.platform with
    | (.ok grade, P) =>
      (.ok { w with sim := { w.sim with graded := w.sim.graded + 1 } },
        reportGrade expert w task grade { S with platform := P })
    -- what a refused call has written stays written
    | (.error e, P) =>
      let S : Stage := { S with platform := P }
      -- the lease ran out and the task was taken by another worker
      if e.statusCode = 409 then (.ok w, S.yields (.gradeConflict w.sim.name task.externalRef))
      else (.error (.service e), S)

def expertAction (w : Worker) (S : Stage) : Except Failure Worker × Stage :=
  match S.platform.expert w.sim.id with
  | .error e => (.error (.service e), S)
  | .ok expert =>
    match w.pending with
    | none => claimTurn host tasksById expert w S
    | some (taskId, sim) => gradeTurn host expert w taskId sim S

variable (actionMs : ℚ≥0)

/-- `for (const w of active)`. -/
def playRound : List Worker → Stage → Except Failure (List Worker) × Stage
  | [], S => (.ok [], S)
  | w :: ws, S =>
    match expertAction host tasksById w (S.advance actionMs) with
    | (.error e, S) => (.error e, S)
    | (.ok w, S) =>
      -- the clock has moved for every worker before
      match playRound ws S with
      | (.error e, S) => (.error e, S)
      | (.ok ws, S) => (.ok (w :: ws), S)

/-- `while (active.length > 0)`, at most `fuel` times; `none` when some are active still. -/
def passLoop : ℕ → List Worker → Stage → Option (Except Failure Unit × Stage)
  | _, [], S => some (.ok (), S)
  | 0, _ :: _, _ => none
  | fuel + 1, active, S =>
    match playRound host tasksById actionMs active S with
    | (.error e, S) => some (.error e, S)
    | (.ok ws, S) => passLoop fuel (ws.filter (fun w => !w.done)) S

def gradingPass (fuel : ℕ) (workers : List Worker) (S : Stage) :
    Option (Except Failure Unit × Stage) :=
  let workers := workers.map (fun w => { w with done := false })
  passLoop host tasksById actionMs fuel (workers.filter (fun w => !w.done)) S

end Turns

/-! ### Pairs without a grade -/

/-- Tasks and experts stay, grades may be added. -/
structure Keys.Adds (K K' : Keys) : Prop where
  tasks : K'.tasks = K.tasks
  seqs : K'.seqs = K.seqs
  experts : K'.experts = K.experts
  graded : ∀ p ∈ K.graded, p ∈ K'.graded

/-- No two tasks have the same id or the same number. -/
structure Keys.Distinct (K : Keys) : Prop where
  tasks : K.tasks.Nodup
  seqs : K.seqs.Nodup

/-- The pairs of a task and an expert that has not graded it. -/
def Keys.openPairs (K : Keys) : Finset (String × String) :=
  (K.tasks.toFinset ×ˢ K.experts.toFinset) \ K.graded.toFinset

section Pairs
variable {K K' : Keys}

theorem Keys.Adds.refl (K : Keys) : K.Adds K := ⟨rfl, rfl, rfl, fun _ h => h⟩

theorem Keys.Adds.of_eq (h : K' = K) : K.Adds K' := h ▸ .refl K

theorem Keys.Adds.trans {K'' : Keys} (h : K.Adds K') (h' : K'.Adds K'') : K.Adds K'' :=
  ⟨h'.tasks.trans h.tasks, h'.seqs.trans h.seqs, h'.experts.trans h.experts,
    fun p hp => h'.graded p (h.graded p hp)⟩

theorem Keys.Distinct.adds (h : K.Distinct) (hadds : K.Adds K') : K'.Distinct :=
  ⟨hadds.tasks ▸ h.tasks, hadds.seqs ▸ h.seqs⟩

theorem Keys.mem_openPairs {p : String × String} :
    p ∈ K.openPairs ↔ (p.1 ∈ K.tasks ∧ p.2 ∈ K.experts) ∧ p ∉ K.graded := by
  simp [Keys.openPairs]

theorem Keys.Adds.openPairs_subset (h : K.Adds K') : K'.openPairs ⊆ K.openPairs := by
  intro p hp
  rw [Keys.mem_openPairs, h.tasks, h.experts] at hp
  exact Keys.mem_openPairs.mpr ⟨hp.1, fun hgraded => hp.2 (h.graded p hgraded)⟩

/-- A grade for an open pair closes it. -/
theorem Keys.Adds.card_lt (h : K.Adds K') {p : String × String} (hp : p ∈ K.openPairs)
    (hgraded : p ∈ K'.graded) : K'.openPairs.card < K.openPairs.card := by
  apply Finset.card_lt_card
  exact Finset.ssubset_iff_subset_ne.mpr ⟨h.openPairs_subset,
    fun heq => (Keys.mem_openPairs.mp (heq ▸ hp)).2 hgraded⟩

end Pairs

/-! ### What the turns do -/

section Rows
variable {P : Platform} {host : Host} {expert : Expert}

/-- Where no two rows have the same key, an assignment writes the row with the key. -/
theorem assignTo_eq_map {α κ : Type} [DecidableEq κ] {key : α → κ} {k : κ} {f : α → α} {xs : List α}
    (h : (xs.map key).Nodup) :
    assignTo key k f xs = xs.map (fun x => if key x = k then f x else x) := by
  induction xs with
  | nil => rfl
  | cons x xs ih =>
    rw [List.map_cons, List.nodup_cons] at h
    rw [assignTo, List.map_cons]
    split_ifs with hkey
    · have hrest : ∀ y ∈ xs, key y ≠ k := fun y hy heq =>
        h.1 (List.mem_map.mpr ⟨y, hy, heq.trans hkey.symm⟩)
      congr 1
      exact (List.map_id _).symm.trans
        (List.map_congr_left (fun y hy => (if_neg (hrest y hy)).symm))
    · rw [ih h.2]

/-- A task is the one with its id. -/
theorem tasks_updateTask (hd : P.keys.Distinct) {task : Task} (hmem : task ∈ P.tasks)
    (f : Task → Task) : (P.updateTask task f).tasks =
      P.tasks.map (fun t => if t.id = task.id then f t else t) := by
  unfold Platform.updateTask
  dsimp only
  rw [assignTo_eq_map hd.seqs]
  refine List.map_congr_left (fun t ht => ?_)
  have hsame : t.seq = task.seq ↔ t.id = task.id :=
    ⟨fun h => congrArg Task.id (List.inj_on_of_nodup_map hd.seqs ht hmem h),
      fun h => congrArg Task.seq (List.inj_on_of_nodup_map hd.tasks ht hmem h)⟩
  simp only [hsame]

theorem Platform.task_ok_iff {k : String} {t : Task} :
    P.task k = .ok t ↔ P.tasks.find? (fun t => t.id = k) = some t := by
  rw [Platform.task, orFail_ok_iff]

/-- The task of `k` after one task was assigned to. -/
theorem task_updateTask (hd : P.keys.Distinct) {f : Task → Task} (h : ∀ t, (f t).id = t.id)
    {k : String} {task t : Task} (hmem : task ∈ P.tasks) (ht : P.task k = .ok t) :
    (P.updateTask task f).task k = .ok (if k = task.id then f t else t) := by
  rw [Platform.task_ok_iff] at ht ⊢
  have hid (t : Task) : (if t.id = task.id then f t else t).id = t.id := by
    split_ifs
    · exact h t
    · rfl
  have hk : t.id = k := by simpa using List.find?_some ht
  rw [tasks_updateTask hd hmem, List.find?_map]
  simp only [Function.comp_def, hid]
  rw [ht, Option.map_some, hk]

/-- A check writes neither tasks nor the rubric. -/
theorem checkGrade_frame {task : Task} {grade : Grade} :
    (P.checkGrade expert task grade).tasks = P.tasks ∧
    (P.checkGrade expert task grade).rubric = P.rubric := by
  have heval : (P.evaluateAttention task grade).1.tasks = P.tasks ∧
      (P.evaluateAttention task grade).1.rubric = P.rubric := by
    unfold Platform.evaluateAttention
    cases task.expectedScores with
    | none => exact ⟨rfl, rfl⟩
    | some expected =>
      dsimp only
      split_ifs <;> exact ⟨rfl, rfl⟩
  have henforce (Q : Platform) : (Q.enforceAttention expert).1.tasks = Q.tasks ∧
      (Q.enforceAttention expert).1.rubric = Q.rubric := by
    unfold Platform.enforceAttention
    split
    · exact ⟨rfl, rfl⟩
    · split_ifs <;> exact ⟨rfl, rfl⟩
  unfold Platform.checkGrade
  -- only a failed check goes on to the guard
  generalize P.evaluateAttention task grade = out at heval
  obtain ⟨Q, result⟩ := out
  cases result with
  | none => exact heval
  | some result =>
    dsimp only
    split_ifs
    · exact heval
    · exact ⟨(henforce Q).1.trans heval.1, (henforce Q).2.trans heval.2⟩

theorem claimNext_rubric : (P.claimNext host expert).1.rubric = P.rubric := by
  unfold Platform.claimNext
  split_ifs
  · rfl
  · dsimp only
    split <;> rfl

theorem validateScores_error {scores : Dict ℚ} {e : ServiceError}
    (h : P.validateScores scores = .error e) : e.statusCode = 422 := by
  unfold Platform.validateScores at h
  cases hr : P.rubric with
  | none =>
    rw [hr] at h
    exact congrArg ServiceError.statusCode (Except.error.inj h).symm
  | some rubric =>
    simp only [hr, orFail, bind, Except.bind, require] at h
    split_ifs at h
    · dsimp only at h
      split at h
      · exact congrArg ServiceError.statusCode (Except.error.inj h).symm
      · exact absurd h (by simp [pure, Except.pure])
    · exact congrArg ServiceError.statusCode (Except.error.inj h).symm

/-- A grade that is accepted closes the pair of its task and its holder. -/
theorem submitGrade_cases {taskId : String} {task : Task} (ht : P.task taskId = .ok task)
    {scores : Dict ℚ} {rationale : String} {seconds : Number} {P' : Platform} :
    (∀ grade, exec (Platform.submitGrade host expert taskId scores rationale seconds) P =
        (.ok grade, P') → task.HeldBy expert.id ∧ P'.rubric = P.rubric ∧
      P'.tasks = (P.updateTask task Task.graded).tasks ∧
      P'.keys = { P.keys with graded := P.keys.graded ++ [(task.id, expert.id)] }) ∧
    (∀ e, exec (Platform.submitGrade host expert taskId scores rationale seconds) P =
        (.error e, P') → P'.rubric = P.rubric ∧ P'.tasks = P.tasks ∧ P'.keys = P.keys ∧
      (e.statusCode = 409 ∧ ¬ task.HeldBy expert.id ∨ P.validateScores scores = .error e)) := by
  rw [Platform.exec_submitGrade, ht]
  dsimp only
  by_cases hheld : task.status = .assigned ∧ task.assignedExpertId = some expert.id
  -- not held: 409, before anything else
  case neg =>
    rw [if_neg hheld]
    refine ⟨fun grade h => absurd (congrArg Prod.fst h) (by simp), fun e h => ?_⟩
    obtain ⟨he, rfl⟩ := Prod.mk.inj h
    obtain rfl := Except.error.inj he
    exact ⟨rfl, rfl, rfl, Or.inl ⟨rfl, hheld⟩⟩
  rw [if_pos hheld]
  cases hv : P.validateScores scores with
  | error e =>
    refine ⟨fun grade h => absurd (congrArg Prod.fst h) (by simp), fun e' h => ?_⟩
    obtain ⟨he, rfl⟩ := Prod.mk.inj h
    exact ⟨rfl, rfl, rfl, Or.inr (congrArg Except.error (Except.error.inj he))⟩
  | ok u =>
    obtain ⟨rubric, hr⟩ := Platform.validateScores_rubric P hv
    rw [hr]
    refine ⟨fun grade h => ?_, fun e h => absurd (congrArg Prod.fst h) (by simp)⟩
    obtain ⟨-, rfl⟩ := Prod.mk.inj h
    refine ⟨hheld, checkGrade_frame.2.trans hr, checkGrade_frame.1, ?_⟩
    rw [Platform.afterGrade, keys_checkGrade,
      keys_updateTask (f := Task.graded) (fun _ => ⟨rfl, rfl⟩)]
    unfold Platform.keys
    rw [List.map_append]
    rfl

theorem pick_eligible {want : Option Bool} {t : Task} (h : P.pick expert want = some t) :
    t ∈ P.tasks ∧ P.isEligible expert t = true := by
  have hin := List.mem_of_head? h
  rw [Platform.candidates, List.mem_insertionSort] at hin
  obtain ⟨hmem, hcond⟩ := List.mem_filter.mp (List.mem_of_mem_filter hin)
  exact ⟨hmem, ((Bool.and_eq_true _ _).mp hcond).1⟩

theorem claimCandidate_eligible {t : Task} (h : P.claimCandidate host expert = some t) :
    t ∈ P.tasks ∧ P.isEligible expert t = true := by
  unfold Platform.claimCandidate at h
  rcases Option.or_eq_some_iff.mp h with hgolden | ⟨-, hregular⟩
  · split_ifs at hgolden
    exact pick_eligible hgolden
  · exact pick_eligible hregular

/-- What an expert is eligible for has no grade by them. -/
theorem ungraded_of_eligible {t : Task} (h : P.isEligible expert t = true) :
    (t.id, expert.id) ∉ P.keys.graded := by
  intro hgraded
  obtain ⟨g, hg, heq⟩ := List.mem_map.mp hgraded
  obtain ⟨htask, hauthor⟩ := Prod.mk.inj heq
  have hnot : (!P.alreadyGraded expert t) = true := ((Bool.and_eq_true _ _).mp h).2
  have hany : P.alreadyGraded expert t = true :=
    List.any_eq_true.mpr ⟨g, hg, decide_eq_true ⟨htask, hauthor⟩⟩
  rw [hany] at hnot
  exact absurd hnot (by decide)

/-- A task handed out was open for its holder. -/
theorem claimNext_claimed (hd : P.keys.Distinct) {P' : Platform} {task : Task}
    {preferred : Bool} (h : P.claimNext host expert = (P', .claimed task preferred)) :
    task.id ∈ P.keys.tasks ∧ (task.id, expert.id) ∉ P.keys.graded ∧
    ∃ t, P'.task task.id = .ok t ∧ t.HeldBy expert.id := by
  unfold Platform.claimNext at h
  by_cases hactive : expert.status ≠ .active
  · rw [if_pos hactive] at h
    exact absurd (congrArg Prod.snd h) (by simp)
  rw [if_neg hactive] at h
  dsimp only at h
  cases hc : P.reclaimExpired.claimCandidate host expert with
  | none =>
    rw [hc] at h
    exact absurd (congrArg Prod.snd h) (by simp)
  | some picked =>
    rw [hc] at h
    obtain ⟨rfl, hclaimed⟩ := Prod.mk.inj h
    obtain ⟨rfl, -⟩ := ClaimResult.claimed.inj hclaimed
    obtain ⟨hmem, heligible⟩ := claimCandidate_eligible hc
    -- it is eligible among the reclaimed tasks, which have the old ids
    have hid : (P.reclaimExpired.assign picked expert).2.id = picked.id := rfl
    rw [hid, ← keys_reclaimExpired]
    refine ⟨List.mem_map_of_mem hmem, ungraded_of_eligible heligible, ?_⟩
    obtain ⟨t, ht⟩ := task_exists (P := P.reclaimExpired) (List.mem_map_of_mem hmem)
    rw [← keys_reclaimExpired] at hd
    -- with distinct ids the row that is found is the row that was written
    have hassigned := task_updateTask hd (f := Task.assignTo P.reclaimExpired.clock
      P.reclaimExpired.settings.leaseSeconds expert.id) (fun _ => rfl) hmem ht
    rw [if_pos rfl] at hassigned
    exact ⟨_, hassigned, rfl, rfl⟩

end Rows

/-- The expert has graded the task or holds it. -/
def Due (P : Platform) (taskId expertId : String) : Prop :=
  (taskId, expertId) ∈ P.keys.graded ∨ ∃ t, P.task taskId = .ok t ∧ t.HeldBy expertId

/-- A worker that just claimed: the pair of its task and its expert is open and due. -/
def Worker.Claimed (w : Worker) (P : Platform) : Prop :=
  ∃ k sim, w.pending = some (k, sim) ∧ (k, w.sim.id) ∈ P.keys.openPairs ∧ Due P k w.sim.id

section Turns
variable {host : Host} {tasksById : String → Option SimTask} {expert : Expert} {w w' : Worker}
  {S S' : Stage}

/-- A turn without a task ends the worker's part or leaves it with a task. -/
theorem claimTurn_ok (hd : S.platform.keys.Distinct)
    (hx : S.platform.expert w.sim.id = .ok expert) (hw : w.pending = none)
    (h : claimTurn host tasksById expert w S = (.ok w', S')) :
    S'.platform.rubric = S.platform.rubric ∧ S'.platform.keys = S.platform.keys ∧
    w'.sim.id = w.sim.id ∧
    (w'.done = true ∧ w'.pending = none ∨ w'.done = w.done ∧ w'.Claimed S'.platform) := by
  have hkeys : (S.platform.claimNext host expert).1.keys = S.platform.keys := keys_claimNext
  have hrubric : (S.platform.claimNext host expert).1.rubric = S.platform.rubric :=
    claimNext_rubric
  have hclaimed := @claimNext_claimed S.platform host expert hd
  obtain ⟨hexpert, hid⟩ := expert_ok hx
  unfold claimTurn at h
  generalize S.platform.claimNext host expert = out at h hkeys hrubric hclaimed
  obtain ⟨P', r⟩ := out
  dsimp only at h hkeys hrubric
  generalize S.platform.tasks.filter _ = before at h
  generalize hT : ({ S with platform := P' } : Stage).yieldsIf (0 < before.length)
    (.reclaimed before.length (before.map Task.externalRef)) = T at h
  have hplatform : T.platform = P' := by rw [← hT, Stage.yieldsIf_platform]
  cases r with
  | refused statusCode detail =>
    dsimp only at h
    -- a refused claim ends the worker, whatever the answer reports first
    split_ifs at h
    all_goals
      obtain ⟨hw', rfl⟩ := Prod.mk.inj h
      obtain rfl := Except.ok.inj hw'
      refine ⟨?_, ?_, rfl, Or.inl ⟨rfl, hw⟩⟩
      · simpa [hplatform] using hrubric
      · simpa [hplatform] using hkeys
  | claimed task preferred =>
    dsimp only at h
    cases hsim : tasksById task.id with
    | none =>
      rw [hsim] at h
      exact absurd (congrArg Prod.fst h) (by simp)
    | some sim =>
      rw [hsim] at h
      obtain ⟨hw', rfl⟩ := Prod.mk.inj h
      obtain rfl := Except.ok.inj hw'
      -- a claimed task: its pair was open, and the row is held by the worker
      obtain ⟨htask, hopen, t, ht, hheld⟩ := hclaimed rfl
      rw [hid] at hopen hheld
      refine ⟨by simpa [hplatform] using hrubric, by simpa [hplatform] using hkeys, rfl,
        Or.inr ⟨rfl, task.id, sim, rfl, ?_, ?_⟩⟩
      · rw [Stage.yields_platform, hplatform, Keys.mem_openPairs, hkeys]
        exact ⟨⟨htask, hid ▸ List.mem_map_of_mem hexpert⟩, hopen⟩
      · rw [Stage.yields_platform, hplatform]
        exact Or.inr ⟨t, ht, hheld⟩

theorem reportGrade_platform (expert : Expert) (w : Worker) (task : Task) (grade : Grade)
    (S : Stage) : (reportGrade expert w task grade S).platform = S.platform := by
  unfold reportGrade
  split_ifs
  · simp
  · rfl

/-- A turn with a task grades it or finds it gone. -/
theorem gradeTurn_ok {taskId : String} {sim : SimTask}
    (h : gradeTurn host expert w taskId sim S = (.ok w', S')) :
    w'.pending = none ∧ w'.done = w.done ∧ w'.sim.id = w.sim.id ∧
    S'.platform.rubric = S.platform.rubric ∧ ∃ task, S.platform.task taskId = .ok task ∧
      (task.HeldBy expert.id ∧
        S'.platform.tasks = (S.platform.updateTask task Task.graded).tasks ∧
        S'.platform.keys =
          { S.platform.keys with graded := S.platform.keys.graded ++ [(task.id, expert.id)] } ∨
      ¬ task.HeldBy expert.id ∧ S'.platform.tasks = S.platform.tasks ∧
        S'.platform.keys = S.platform.keys) := by
  unfold gradeTurn at h
  generalize gradeFor w.rng w.sim sim = body at h
  dsimp only at h
  cases ht : S.platform.task taskId with
  | error e =>
    rw [ht] at h
    exact absurd (congrArg Prod.fst h) (by simp)
  | ok task =>
    rw [ht] at h
    dsimp only at h
    match hsubmit : exec (Platform.submitGrade host expert taskId body.1.scores body.1.rationale
      body.1.timeSpentSeconds) S.platform with
    -- the grade is in, or it is refused: by 409 alone the worker goes on
    | (.ok grade, P') =>
      rw [hsubmit] at h
      obtain ⟨hw', rfl⟩ := Prod.mk.inj h
      obtain rfl := Except.ok.inj hw'
      rw [reportGrade_platform]
      obtain ⟨hheld, hrubric, hrows⟩ := (submitGrade_cases ht).1 grade hsubmit
      exact ⟨rfl, rfl, rfl, hrubric, task, rfl, Or.inl ⟨hheld, hrows⟩⟩
    | (.error e, P') =>
      rw [hsubmit] at h
      dsimp only at h
      split_ifs at h with hconflict
      · obtain ⟨hw', rfl⟩ := Prod.mk.inj h
        obtain rfl := Except.ok.inj hw'
        obtain ⟨hrubric, htasks, hkeys, hgone | hinvalid⟩ := (submitGrade_cases ht).2 e hsubmit
        · exact ⟨rfl, rfl, rfl, hrubric, task, rfl, Or.inr ⟨hgone.2, htasks, hkeys⟩⟩
        · exact absurd (hconflict.symm.trans (validateScores_error hinvalid)) (by decide)
      · exact absurd (congrArg Prod.fst h) (by simp)

/-- Nobody else's turn takes a task that is due away, and the own one grades it. -/
theorem gradeTurn_due (hd : S.platform.keys.Distinct) {taskId : String} {sim : SimTask}
    (h : gradeTurn host expert w taskId sim S = (.ok w', S')) :
    S.platform.keys.Adds S'.platform.keys ∧
    (∀ k e, Due S.platform k e → Due S'.platform k e) ∧
    (Due S.platform taskId expert.id → (taskId, expert.id) ∈ S'.platform.keys.graded) := by
  obtain ⟨-, -, -, -, task, ht, ⟨hheld, htasks, hkeys⟩ | ⟨hnot, htasks, hkeys⟩⟩ := gradeTurn_ok h
  · have hid : task.id = taskId := (task_ok ht).2
    -- the worker held the task: their grade is in
    have hnew : (taskId, expert.id) ∈ S'.platform.keys.graded := by
      rw [hkeys, hid]
      exact List.mem_append_right _ (List.mem_singleton_self _)
    have hadds : S.platform.keys.Adds S'.platform.keys := by
      rw [hkeys]
      exact ⟨rfl, rfl, rfl, fun p hp => List.mem_append_left _ hp⟩
    refine ⟨hadds, fun k e hdue => ?_, fun _ => hnew⟩
    rcases hdue with hgraded | ⟨t, hk, hholds⟩
    · exact Or.inl (hadds.graded _ hgraded)
    by_cases hsame : k = taskId
    · -- the grade came from the holder
      subst hsame
      obtain rfl := Except.ok.inj (ht.symm.trans hk)
      obtain rfl : e = expert.id := Option.some.inj (hholds.2.symm.trans hheld.2)
      exact Or.inl hnew
    · have hlookup : S'.platform.task k = (S.platform.updateTask task Task.graded).task k := by
        unfold Platform.task
        rw [htasks]
      rw [task_updateTask hd (f := Task.graded) (fun _ => rfl) (task_ok ht).1 hk, hid,
        if_neg hsame] at hlookup
      exact Or.inr ⟨t, hlookup, hholds⟩
  -- refused: rows and grades are as before, and the worker held nothing
  · have hsame (k e : String) (hdue : Due S.platform k e) : Due S'.platform k e := by
      unfold Due Platform.task
      rw [htasks, hkeys]
      exact hdue
    refine ⟨.of_eq hkeys, hsame, fun hdue => ?_⟩
    rw [hkeys]
    exact hdue.resolve_right (fun ⟨t, hk, hholds⟩ =>
      hnot (Except.ok.inj (ht.symm.trans hk) ▸ hholds))

end Turns

/-! ### Rounds -/

section Rounds
variable {host : Host} {tasksById : String → Option SimTask} {actionMs : ℚ≥0}

theorem expertAction_ok {w w' : Worker} {S S' : Stage}
    (h : expertAction host tasksById w S = (.ok w', S')) :
    ∃ expert, S.platform.expert w.sim.id = .ok expert ∧
      (w.pending = none → claimTurn host tasksById expert w S = (.ok w', S')) ∧
      ∀ k sim, w.pending = some (k, sim) → gradeTurn host expert w k sim S = (.ok w', S') := by
  unfold expertAction at h
  cases hx : S.platform.expert w.sim.id with
  | error e =>
    rw [hx] at h
    exact absurd (congrArg Prod.fst h) (by simp)
  | ok expert =>
    rw [hx] at h
    refine ⟨expert, rfl, fun hnone => ?_, fun k sim hsome => ?_⟩
    · rw [hnone] at h
      exact h
    · rw [hsome] at h
      exact h

theorem playRound_cons {w : Worker} {ws ws' : List Worker} {S S' : Stage}
    (h : playRound host tasksById actionMs (w :: ws) S = (.ok ws', S')) :
    ∃ w' S₁ rest, expertAction host tasksById w (S.advance actionMs) = (.ok w', S₁) ∧
      playRound host tasksById actionMs ws S₁ = (.ok rest, S') ∧ ws' = w' :: rest := by
  unfold playRound at h
  match haction : expertAction host tasksById w (S.advance actionMs) with
  | (.error e, S₁) =>
    rw [haction] at h
    exact absurd (congrArg Prod.fst h) (by simp)
  | (.ok w', S₁) =>
    rw [haction] at h
    dsimp only at h
    match hround : playRound host tasksById actionMs ws S₁ with
    | (.error e, S₂) =>
      rw [hround] at h
      exact absurd (congrArg Prod.fst h) (by simp)
    | (.ok rest, S₂) =>
      rw [hround] at h
      obtain ⟨hws, rfl⟩ := Prod.mk.inj h
      exact ⟨w', S₁, rest, rfl, hround, (Except.ok.inj hws).symm⟩

/-- A round in which everybody claims: grades stay, and whoever came last is done or has a task
nobody took back since. -/
theorem playRound_claims {ws ws' : List Worker} {S S' : Stage}
    (hd : S.platform.keys.Distinct) (hws : ∀ w ∈ ws, w.pending = none ∧ w.done = false)
    (h : playRound host tasksById actionMs ws S = (.ok ws', S')) :
    S'.platform.keys = S.platform.keys ∧ ws'.length = ws.length ∧
    (∀ w ∈ ws', w.done = false → w.pending.isSome) ∧
    ∀ w, ws'.getLast? = some w → w.done = false → w.Claimed S'.platform := by
  induction ws generalizing S ws' with
  | nil =>
    obtain ⟨hempty, rfl⟩ := Prod.mk.inj h
    obtain rfl := Except.ok.inj hempty
    exact ⟨rfl, rfl, fun w hw => absurd hw List.not_mem_nil, fun w hw => absurd hw (by simp)⟩
  | cons w ws ih =>
    obtain ⟨w', S₁, rest, haction, hround, rfl⟩ := playRound_cons h
    obtain ⟨⟨hpending, hdone⟩, hrest⟩ := List.forall_mem_cons.mp hws
    obtain ⟨expert, hx, hclaim, -⟩ := expertAction_ok haction
    have hd₀ : (S.advance actionMs).platform.keys.Distinct := hd
    obtain ⟨-, hkeys, -, hturn⟩ := claimTurn_ok hd₀ hx hpending (hclaim hpending)
    obtain ⟨hkeys', hlength, hall, hlast⟩ := ih (hd₀.adds (.of_eq hkeys)) hrest hround
    refine ⟨hkeys'.trans hkeys, congrArg (· + 1) hlength, ?_, ?_⟩
    · refine List.forall_mem_cons.mpr ⟨fun hactive => ?_, hall⟩
      rcases hturn with ⟨hover, -⟩ | ⟨-, k, sim, hsome, -⟩
      · exact absurd (hover.symm.trans hactive) (by decide)
      · exact Option.isSome_iff_exists.mpr ⟨_, hsome⟩
    · intro w₁ hw₁ hactive
      cases hrestlast : rest.getLast? with
      | some w₂ =>
        rw [List.getLast?_cons, hrestlast] at hw₁
        obtain rfl : w₂ = w₁ := Option.some.inj hw₁
        exact hlast w₂ hrestlast hactive
      | none =>
        -- the turn at hand was the last one
        obtain rfl := List.getLast?_eq_none_iff.mp hrestlast
        obtain rfl : w' = w₁ := Option.some.inj hw₁
        obtain rfl := List.length_eq_zero_iff.mp hlength.symm
        obtain rfl : S₁ = S' := congrArg Prod.snd hround
        rcases hturn with ⟨hover, -⟩ | ⟨-, hclaimed⟩
        · exact absurd (hover.symm.trans hactive) (by decide)
        · exact hclaimed

/-- A round in which everybody grades closes the pair of every task that is due. -/
theorem playRound_grades {ws ws' : List Worker} {S S' : Stage}
    (hd : S.platform.keys.Distinct) (hws : ∀ w ∈ ws, w.pending.isSome ∧ w.done = false)
    (h : playRound host tasksById actionMs ws S = (.ok ws', S')) :
    S.platform.keys.Adds S'.platform.keys ∧ ws'.length = ws.length ∧
    (∀ w ∈ ws', w.pending = none) ∧
    ∀ w ∈ ws, ∀ k sim, w.pending = some (k, sim) → Due S.platform k w.sim.id →
      (k, w.sim.id) ∈ S'.platform.keys.graded := by
  -- the first worker closes its pair, and the later turns keep it closed
  induction ws generalizing S ws' with
  | nil =>
    obtain ⟨hempty, rfl⟩ := Prod.mk.inj h
    obtain rfl := Except.ok.inj hempty
    exact ⟨.refl _, rfl, fun w hw => absurd hw List.not_mem_nil,
      fun w hw => absurd hw List.not_mem_nil⟩
  | cons w ws ih =>
    obtain ⟨w', S₁, rest, haction, hround, rfl⟩ := playRound_cons h
    obtain ⟨⟨hpending, hdone⟩, hrest⟩ := List.forall_mem_cons.mp hws
    obtain ⟨⟨k, sim⟩, hsome⟩ := Option.isSome_iff_exists.mp hpending
    obtain ⟨expert, hx, -, hgrade⟩ := expertAction_ok haction
    obtain ⟨hnone, -⟩ := gradeTurn_ok (hgrade k sim hsome)
    have hd₀ : (S.advance actionMs).platform.keys.Distinct := hd
    -- pairs that are due for the others stay due
    obtain ⟨hadds, hstays, hcloses⟩ := gradeTurn_due hd₀ (hgrade k sim hsome)
    obtain ⟨hadds', hlength, hall, hclosed⟩ := ih (hd₀.adds hadds) hrest hround
    refine ⟨hadds.trans hadds', congrArg (· + 1) hlength, List.forall_mem_cons.mpr ⟨hnone, hall⟩,
      List.forall_mem_cons.mpr ⟨fun k' sim' hsome' hdue => ?_, fun v hv k' sim' hsome' hdue => ?_⟩⟩
    · obtain ⟨rfl, rfl⟩ := Prod.mk.inj (Option.some.inj (hsome.symm.trans hsome'))
      rw [← (expert_ok hx).2] at hdue ⊢
      exact hadds'.graded _ (hcloses hdue)
    · exact hclosed v hv k' sim' hsome' (hstays k' v.sim.id hdue)

theorem passLoop_nil (fuel : ℕ) (S : Stage) :
    passLoop host tasksById actionMs fuel [] S = some (.ok (), S) := by
  cases fuel <;> rfl

theorem passLoop_isSome {fuel : ℕ} {active : List Worker} {S : Stage}
    (h : ∀ ws S', playRound host tasksById actionMs active S = (.ok ws, S') →
      (passLoop host tasksById actionMs fuel (ws.filter (fun w => !w.done)) S').isSome) :
    (passLoop host tasksById actionMs (fuel + 1) active S).isSome := by
  cases active with
  | nil =>
    rw [passLoop_nil]
    rfl
  | cons w ws =>
    unfold passLoop
    match hround : playRound host tasksById actionMs (w :: ws) S with
    | (.error e, S') => rfl
    | (.ok ws', S') => exact h ws' S' hround

/-- Every two rounds a worker finishes or an open pair is closed. -/
theorem passLoop_terminates (m : ℕ) (active : List Worker) (S : Stage)
    (hd : S.platform.keys.Distinct) (hactive : ∀ w ∈ active, w.pending = none ∧ w.done = false)
    (hm : active.length + S.platform.keys.openPairs.card ≤ m) :
    (passLoop host tasksById actionMs (2 * m) active S).isSome := by
  induction m generalizing active S with
  | zero =>
    obtain rfl := List.length_eq_zero_iff.mp (by omega : active.length = 0)
    rfl
  | succ m ih =>
    have hfuel : 2 * (m + 1) = 2 * m + 1 + 1 := by omega
    rw [hfuel]
    by_cases hempty : active = []
    · rw [hempty, passLoop_nil]
      rfl
    refine passLoop_isSome (fun ws S₁ hclaims => passLoop_isSome (fun ws' S₂ hgrades => ?_))
    obtain ⟨hkeys, hlength, hpending, hlast⟩ := playRound_claims hd hactive hclaims
    have hd₁ : S₁.platform.keys.Distinct := hkeys.symm ▸ hd
    have hstill : ∀ w ∈ ws.filter (fun w => !w.done), w.pending.isSome ∧ w.done = false := by
      intro w hw
      obtain ⟨hw, hnot⟩ := List.mem_filter.mp hw
      have hdone : w.done = false := by simpa using hnot
      exact ⟨hpending w hw hdone, hdone⟩
    obtain ⟨hadds, hlength', hnone, hclosed⟩ := playRound_grades hd₁ hstill hgrades
    apply ih
    · exact hd₁.adds hadds
    · intro w hw
      obtain ⟨hw, hnot⟩ := List.mem_filter.mp hw
      exact ⟨hnone w hw, by simpa using hnot⟩
    have hleft : (ws'.filter (fun w => !w.done)).length ≤ ws'.length := List.length_filter_le _ _
    have hkept : (ws.filter (fun w => !w.done)).length ≤ ws.length := List.length_filter_le _ _
    have hopen : S₂.platform.keys.openPairs.card ≤ S.platform.keys.openPairs.card := by
      rw [← hkeys]
      exact Finset.card_le_card hadds.openPairs_subset
    by_cases hall : ∀ w ∈ ws, w.done = false
    · have hfilter : ws.filter (fun w => !w.done) = ws :=
        List.filter_eq_self.mpr (fun w hw => by rw [hall w hw]; rfl)
      rw [hfilter] at hclosed hlength'
      cases hw : ws.getLast? with
      | none =>
        obtain rfl := List.getLast?_eq_none_iff.mp hw
        exact absurd (List.length_eq_zero_iff.mp hlength.symm) hempty
      | some w =>
        -- the last claimant's grade closed a pair
        have hmem : w ∈ ws := List.mem_of_getLast? hw
        obtain ⟨k, sim, hsome, hpair, hdue⟩ := hlast w hw (hall w hmem)
        have hless := hadds.card_lt hpair (hclosed w hmem k sim hsome hdue)
        rw [hkeys] at hless
        omega
    · push Not at hall
      obtain ⟨w, hw, hdone⟩ := hall
      have hfewer : (ws.filter (fun w => !w.done)).length < ws.length := by
        rw [List.length_filter_lt_length_iff_exists]
        exact ⟨w, hw, by simpa using hdone⟩
      omega

end Rounds

/-! ### Passes that do not throw -/

/-- The platform grades by the demo's criteria and has tasks of the world only. -/
structure Ready (tasksById : String → Option SimTask) (P : Platform) : Prop where
  rubric : ∃ r, P.rubric = some r ∧ r.criteria.map Criterion.key = criteriaKeys ∧
    ∀ c ∈ r.criteria, c.scaleMin = 1 ∧ c.scaleMax = 5
  known : ∀ k ∈ P.keys.tasks, (tasksById k).isSome

/-- The worker's expert is on the platform, and so is its task. -/
def Worker.On (w : Worker) (P : Platform) : Prop :=
  w.sim.id ∈ P.keys.experts ∧ ∀ k sim, w.pending = some (k, sim) → k ∈ P.keys.tasks

section Returns
variable {host : Host} {tasksById : String → Option SimTask} {actionMs : ℚ≥0} {P P' : Platform}

theorem Ready.congr (h : Ready tasksById P) (hrubric : P'.rubric = P.rubric)
    (hkeys : P.keys.Adds P'.keys) : Ready tasksById P' := by
  refine ⟨hrubric ▸ h.rubric, ?_⟩
  rw [hkeys.tasks]
  exact h.known

theorem Worker.On.congr {w : Worker} (h : w.On P) (hkeys : P.keys.Adds P'.keys) : w.On P' := by
  unfold Worker.On
  rw [hkeys.tasks, hkeys.experts]
  exact h

theorem hasMember_of_key {rows : List (String × ℚ)} {k : String} (h : k ∈ rows.map Prod.fst) :
    hasMember rows k = true := by
  obtain ⟨row, hrow, rfl⟩ := List.mem_map.mp h
  have hsome : (rows.lookup row.1).isSome = true := by
    rw [List.lookup_isSome_iff]
    exact ⟨row, hrow, beq_self_eq_true _⟩
  unfold hasMember
  rw [hsome, Bool.true_or, Bool.true_or]

/-- Simulated scores are valid. -/
theorem Ready.validates (h : Ready tasksById P) {scores : Dict ℚ}
    (hkeys : scores.rows.map Prod.fst = criteriaKeys)
    (hrange : ∀ row ∈ scores.rows, 1 ≤ row.2 ∧ row.2 ≤ 5) :
    ∃ u, P.validateScores scores = .ok u := by
  obtain ⟨r, hr, hcriteria, hscale⟩ := h.rubric
  -- every criterion of the demo's rubric is scored
  have hmissing : criteriaKeys.filter (fun k => ¬ hasMember scores.rows k) = [] := by
    refine List.filter_eq_nil_iff.mpr (fun k hk => ?_)
    rw [hasMember_of_key (hkeys ▸ hk)]
    decide
  -- and nothing else
  have hunknown : criteriaKeys.filter (fun k => ¬ criteriaKeys.contains k) = [] :=
    List.filter_eq_nil_iff.mpr (fun k hk => by simpa using hk)
  -- each within 1 and 5
  have hinside : Platform.outOfScale r scores = none := by
    refine List.findSome?_eq_none_iff.mpr (fun row hrow => ?_)
    refine Option.bind_eq_none_iff.mpr (fun c hc => if_pos ?_)
    have hmem : c ∈ r.criteria := List.mem_reverse.mp (List.mem_of_find?_eq_some hc)
    rw [(hscale c hmem).1, (hscale c hmem).2]
    exact hrange row hrow
  refine ⟨(), ?_⟩
  unfold Platform.validateScores
  simp only [hr, hcriteria, hkeys, criteriaKeys_nodup.dedup, hmissing, hunknown, hinside, orFail,
    require, bind, Except.bind]
  rfl

theorem claimTurn_returns {expert : Expert} {w : Worker} {S : Stage}
    (hd : S.platform.keys.Distinct) (h : Ready tasksById S.platform) :
    ∃ w' S', claimTurn host tasksById expert w S = (.ok w', S') := by
  unfold claimTurn
  have hclaimed := @claimNext_claimed S.platform host expert hd
  generalize S.platform.claimNext host expert = out at hclaimed
  match out with
  | (P', .refused statusCode detail) =>
    dsimp only
    split_ifs <;> exact ⟨_, _, rfl⟩
  | (P', .claimed task preferred) =>
    obtain ⟨sim, hsim⟩ := Option.isSome_iff_exists.mp
      (h.known task.id (hclaimed rfl).1)
    dsimp only
    rw [hsim]
    exact ⟨_, _, rfl⟩

theorem gradeTurn_returns {expert : Expert} {w : Worker} {k : String} {sim : SimTask} {S : Stage}
    (h : Ready tasksById S.platform) (hk : k ∈ S.platform.keys.tasks) :
    ∃ w' S', gradeTurn host expert w k sim S = (.ok w', S') := by
  obtain ⟨task, ht⟩ := task_exists hk
  obtain ⟨hkeys, hrange⟩ := gradeFor_scores w.rng w.sim sim
  obtain ⟨u, hvalid⟩ := h.validates hkeys hrange
  unfold gradeTurn
  dsimp only
  rw [ht]
  dsimp only
  match hsubmit : exec (Platform.submitGrade host expert k (gradeFor w.rng w.sim sim).1.scores
    (gradeFor w.rng w.sim sim).1.rationale (gradeFor w.rng w.sim sim).1.timeSpentSeconds)
    S.platform with
  | (.ok grade, P') => exact ⟨_, _, rfl⟩
  | (.error e, P') =>
    -- refused because the task is someone else's by now; the scores are valid
    obtain ⟨-, -, -, hgone | hinvalid⟩ := (submitGrade_cases ht).2 e hsubmit
    · dsimp only
      rw [if_pos hgone.1]
      exact ⟨_, _, rfl⟩
    · exact absurd (hvalid.symm.trans hinvalid) (by simp)

/-- No turn of a ready pass throws, and the pass stays ready. -/
theorem expertAction_returns {w : Worker} {S : Stage} (hd : S.platform.keys.Distinct)
    (h : Ready tasksById S.platform) (hw : w.On S.platform) :
    ∃ w' S', expertAction host tasksById w S = (.ok w', S') ∧
      S'.platform.rubric = S.platform.rubric ∧ S.platform.keys.Adds S'.platform.keys ∧
      w'.On S'.platform := by
  obtain ⟨expert, hx⟩ := expert_exists hw.1
  have hid : w.sim.id ∈ S.platform.keys.experts := hw.1
  unfold expertAction
  rw [hx]
  -- with nothing in hand the turn claims, else it grades
  cases hpending : w.pending with
  | none =>
    obtain ⟨w', S', hrun⟩ : ∃ w' S', claimTurn host tasksById expert w S = (.ok w', S') :=
      claimTurn_returns hd h
    obtain ⟨hrubric, hkeys, hsim, hturn⟩ := claimTurn_ok hd hx hpending hrun
    refine ⟨w', S', hrun, hrubric, .of_eq hkeys, ?_, fun k sim hk => ?_⟩
    · rw [hsim, hkeys]
      exact hid
    · rcases hturn with ⟨-, hnone⟩ | ⟨-, k', sim', hsome, hopen, -⟩
      · exact absurd (hk.symm.trans hnone) (by simp)
      · obtain ⟨rfl, -⟩ := Prod.mk.inj (Option.some.inj (hsome.symm.trans hk))
        exact (Keys.mem_openPairs.mp hopen).1.1
  | some p =>
    obtain ⟨w', S', hrun⟩ : ∃ w' S', gradeTurn host expert w p.1 p.2 S = (.ok w', S') :=
      gradeTurn_returns h (hw.2 p.1 p.2 hpending)
    obtain ⟨hnone, -, hsim, hrubric, -⟩ := gradeTurn_ok hrun
    obtain ⟨hadds, -⟩ := gradeTurn_due hd hrun
    refine ⟨w', S', hrun, hrubric, hadds, ?_, fun k sim hk => ?_⟩
    · rw [hsim, hadds.experts]
      exact hid
    · exact absurd (hk.symm.trans hnone) (by simp)

theorem playRound_returns {ws : List Worker} {S : Stage} (hd : S.platform.keys.Distinct)
    (h : Ready tasksById S.platform) (hws : ∀ w ∈ ws, w.On S.platform) :
    ∃ ws' S', playRound host tasksById actionMs ws S = (.ok ws', S') ∧
      S'.platform.rubric = S.platform.rubric ∧ S.platform.keys.Adds S'.platform.keys ∧
      ∀ w ∈ ws', w.On S'.platform := by
  -- each worker finds a platform that the ones before have kept ready
  induction ws generalizing S with
  | nil => exact ⟨[], S, rfl, rfl, .refl _, fun w hw => absurd hw List.not_mem_nil⟩
  | cons w ws ih =>
    obtain ⟨hw, hrest⟩ := List.forall_mem_cons.mp hws
    obtain ⟨w', S₁, haction, hrubric, hadds, hon⟩ :=
      @expertAction_returns host tasksById w (S.advance actionMs) hd (h.congr rfl (.refl _)) hw
    obtain ⟨ws', S', hround, hrubric', hadds', hall⟩ :=
      ih (hd.adds hadds) (h.congr hrubric hadds) (fun v hv => (hrest v hv).congr hadds)
    refine ⟨w' :: ws', S', ?_, hrubric'.trans hrubric, hadds.trans hadds',
      List.forall_mem_cons.mpr ⟨hon.congr hadds', hall⟩⟩
    unfold playRound
    rw [haction]
    dsimp only
    rw [hround]

theorem passLoop_returns {fuel : ℕ} {active : List Worker} {S S' : Stage}
    {outcome : Except Failure Unit} (hd : S.platform.keys.Distinct)
    (h : Ready tasksById S.platform) (hactive : ∀ w ∈ active, w.On S.platform)
    (hrun : passLoop host tasksById actionMs fuel active S = some (outcome, S')) :
    outcome = .ok () := by
  -- a round goes through and leaves the platform ready for the next
  induction fuel generalizing active S with
  | zero =>
    cases active with
    | nil => exact congrArg Prod.fst (Option.some.inj hrun).symm
    | cons w ws => exact absurd hrun (by simp [passLoop])
  | succ fuel ih =>
    cases active with
    | nil => exact congrArg Prod.fst (Option.some.inj hrun).symm
    | cons w ws =>
      obtain ⟨ws', S₁, hround, hrubric, hadds, hall⟩ :=
        @playRound_returns host tasksById actionMs (w :: ws) S hd h hactive
      unfold passLoop at hrun
      rw [hround] at hrun
      exact ih (hd.adds hadds) (h.congr hrubric hadds)
        (fun v hv => hall v (List.mem_of_mem_filter hv)) hrun

/-- On a platform whose tasks have an id each, a pass of workers without a task ends within two
rounds for each worker and each pair of a task and an expert that has not graded it. If the
platform is seeded from the world the pass returns. -/
theorem gradingPass_terminates (host : Host) (settings : Settings) (clock : ℚ) (calls : List Call)
    (tasksById : String → Option SimTask) (actionMs : ℚ≥0) (workers : List Worker)
    (events : List DemoEvent)
    (hids : (run (Platform.step host) (.new settings clock) calls).keys.tasks.Nodup)
    (hworkers : ∀ w ∈ workers, w.pending = none) :
    let P := run (Platform.step host) (.new settings clock) calls
    ∃ outcome S', gradingPass host tasksById actionMs
        (2 * (workers.length + P.keys.openPairs.card)) workers ⟨P, events⟩ = some (outcome, S') ∧
      (Ready tasksById P → (∀ w ∈ workers, w.sim.id ∈ P.keys.experts) → outcome = .ok ()) := by
  have hlinked := @linked_run host settings clock calls
  dsimp only
  generalize run (Platform.step host) (.new settings clock) calls = P at hids hlinked
  have hd : P.keys.Distinct := ⟨hids, hlinked.numbered.increasing.imp Nat.ne_of_lt⟩
  unfold gradingPass
  dsimp only
  generalize hactive : (workers.map (fun w => { w with done := false })).filter
    (fun w => !w.done) = active
  -- the pass starts with every worker active and none pending
  have hreset : ∀ w ∈ active, (w.pending = none ∧ w.done = false) ∧
      ∃ v ∈ workers, v.sim.id = w.sim.id := by
    intro w hw
    rw [← hactive] at hw
    obtain ⟨v, hv, rfl⟩ := List.mem_map.mp (List.mem_of_mem_filter hw)
    exact ⟨⟨hworkers v hv, rfl⟩, v, hv, rfl⟩
  have hlength : active.length ≤ workers.length := by
    rw [← hactive]
    exact (List.length_filter_le _ _).trans_eq (List.length_map _)
  obtain ⟨⟨outcome, S'⟩, hrun⟩ := Option.isSome_iff_exists.mp
    (@passLoop_terminates host tasksById actionMs (workers.length + P.keys.openPairs.card) active
      ⟨P, events⟩ hd (fun w hw => (hreset w hw).1) (by dsimp only; omega))
  refine ⟨outcome, S', hrun, fun hready hexperts => passLoop_returns hd hready ?_ hrun⟩
  intro w hw
  obtain ⟨⟨hnone, -⟩, v, hv, hid⟩ := hreset w hw
  exact ⟨hid ▸ hexperts v hv, fun k sim hsome => absurd (hsome.symm.trans hnone) (by simp)⟩

/-! One worker and one task -/

def seedCalls : List Call :=
  [.createRubric "response-quality" (.round 1) [("accuracy", .round 2),
      ("completeness", .round (3 / 2)), ("clarity", .round 1), ("safety", .round 1)] none,
    .createExpert ⟨some "1", "expert-01", ["math"], .junior, none⟩,
    .createTasks
      [⟨some "2", "sim-0001", "Check.", [], ["math"], "single", .junior, 0, none, 1, false, none⟩]]

def seededTask (k : String) : Option SimTask :=
  if k = "2" then some ⟨Relational.Table.empty⟩ else none

def soleWorker : Worker := ⟨⟨"1", "expert-01", false, 0, 0, false⟩, ⟨1, 2, 3, 4⟩, none, false⟩

theorem ready_seedCalls :
    Ready seededTask (run (Platform.step drawingHost) (.new noChecks 0) seedCalls) := by
  have hkeys :
      (run (Platform.step drawingHost) (.new noChecks 0) seedCalls).keys.tasks = ["2"] := by
    decide +kernel
  refine ⟨⟨⟨"100", "response-quality", .round 1, [⟨"accuracy", .round 2, 1, 5, 0⟩,
    ⟨"completeness", .round (3 / 2), 1, 5, 1⟩, ⟨"clarity", .round 1, 1, 5, 2⟩,
    ⟨"safety", .round 1, 1, 5, 3⟩]⟩, rfl, rfl, by simp⟩, fun k hk => ?_⟩
  rw [hkeys, List.mem_singleton] at hk
  rw [hk]
  rfl

theorem gradingPass_terminates_sole :
    let P := run (Platform.step drawingHost) (.new noChecks 0) seedCalls
    ∃ S', gradingPass drawingHost seededTask 20 (2 * ([soleWorker].length + P.keys.openPairs.card))
      [soleWorker] ⟨P, []⟩ = some (.ok (), S') := by
  have hkeys : (run (Platform.step drawingHost) (.new noChecks 0) seedCalls).keys.tasks = ["2"] ∧
      (run (Platform.step drawingHost) (.new noChecks 0) seedCalls).keys.experts = ["1"] := by
    decide +kernel
  obtain ⟨outcome, S', hrun, hreturns⟩ := gradingPass_terminates drawingHost noChecks 0 seedCalls
    seededTask 20 [soleWorker] [] (by rw [hkeys.1]; exact List.nodup_singleton _)
    (by simp [soleWorker])
  have hworkers : ∀ w ∈ [soleWorker],
      w.sim.id ∈ (run (Platform.step drawingHost) (.new noChecks 0) seedCalls).keys.experts := by
    rw [hkeys.2]
    simp [soleWorker]
  rw [hreturns ready_seedCalls hworkers] at hrun
  exact ⟨S', hrun⟩

end Returns

/-! ### Two tasks of one id

The worker may only claim the second task, and its grade goes to the first one with the id: a
conflict. The lease of the second task is over before the worker claims again. -/

section Twins
variable {P P' : Platform} {host : Host} {S : Stage} {n m : ℕ} {now : ℚ}

def shortLeases : Settings := { noChecks with leaseSeconds := 3 }

def leadTask : Task where
  id := "t"
  seq := 1
  externalRef := "sim-0001"
  prompt := "Check."
  responses := []
  requiredTags := ["math"]
  taskType := "single"
  minTier := .lead
  rubricId := "100"
  priority := 0
  deadline := none
  status := .queued
  requiredGrades := 1
  gradesReceived := 0
  isAttentionCheck := false
  expectedScores := none
  assignedExpertId := none
  assignedAt := none
  leaseExpiresAt := none
  reclaimCount := 0

/-- The second task, after `n` of its leases ran out. -/
def juniorTask (n : ℕ) : Task :=
  { leadTask with seq := 2, externalRef := "sim-0002", minTier := .junior, reclaimCount := n }

/-- The worker's expert, after `m` serves. -/
def junior (m : ℕ) : Expert := ⟨"1", "expert-01", ["math"], .junior, none, .active, m⟩

def twinCalls : List Call :=
  [.createRubric "response-quality" (.round 1) [("accuracy", .round 1)] none,
    .createExpert ⟨some "1", "expert-01", ["math"], .junior, none⟩,
    .createTasks
      [⟨some "t", "sim-0001", "Check.", [], ["math"], "single", .lead, 0, none, 1, false, none⟩,
        ⟨some "t", "sim-0002", "Check.", [], ["math"], "single", .junior, 0, none, 1, false,
          none⟩]]

def twinTask (k : String) : Option SimTask :=
  if k = "t" then some ⟨Relational.Table.empty⟩ else none

/-- The rows that the turns of the worker leave alone. -/
structure TwinRows (P : Platform) (m : ℕ) : Prop where
  settings : P.settings = shortLeases
  experts : P.experts = [junior m]
  grades : P.grades = []
  locked : P.locked = []

/-- The second task can be claimed. -/
structure Twins (P : Platform) (n m : ℕ) : Prop extends TwinRows P m where
  tasks : P.reclaimExpired.tasks = [leadTask, juniorTask n]

/-- The worker has claimed the second task. -/
structure TwinHeld (P : Platform) (n m : ℕ) : Prop extends TwinRows P m where
  tasks : ∃ now ≤ P.clock, P.tasks = [leadTask, (juniorTask n).assignTo now 3 "1"]

/-- Another two actions are longer than the lease. -/
theorem TwinHeld.twins (h : TwinHeld P n m) :
    Twins { P with clock := P.clock + 4000 } (n + 1) m := by
  obtain ⟨now, hnow, htasks⟩ := h.tasks
  refine ⟨⟨h.settings, h.experts, h.grades, h.locked⟩, ?_⟩
  have hover : now + 3 * 1000 < P.clock + 4000 := by linarith
  unfold Platform.reclaimExpired Platform.expired
  dsimp only
  rw [htasks, h.locked, List.map_cons, List.map_cons, List.map_nil,
    if_neg (by simp [leadTask])]
  have hexpired : (decide (((juniorTask n).assignTo now 3 "1").status = .assigned) &&
      ((juniorTask n).assignTo now 3 "1").leaseExpiresAt.any (fun l => l < P.clock + 4000) &&
      !([] : List String).contains ((juniorTask n).assignTo now 3 "1").id) = true := by
    simp [Task.assignTo, hover]
  rw [if_pos hexpired]
  rfl

/-- The second task is all that the expert may claim. -/
theorem Twins.claim (h : Twins P n m) (host : Host) : ∃ P', P.claimNext host (junior m) =
    (P', .claimed ((juniorTask n).assignTo P.clock 3 "1") false) ∧ TwinHeld P' n (m + 1) := by
  have hsettings : P.reclaimExpired.settings = shortLeases := h.settings
  have hexperts : P.reclaimExpired.experts = [junior m] := h.experts
  have hgrades : P.reclaimExpired.grades = [] := h.grades
  have hlocked : P.reclaimExpired.locked = [] := h.locked
  have hgolden (index : ℕ) : prefersAttentionCheck host shortLeases (junior m).id index = false :=
    rfl
  -- the pick: of the two tasks only the second is open to a junior
  have hpick : P.reclaimExpired.claimCandidate host (junior m) = some (juniorTask n) := by
    unfold Platform.claimCandidate
    rw [hsettings, hgolden, if_neg Bool.false_ne_true, Option.none_or]
    unfold Platform.pick Platform.candidates Platform.isEligible Platform.alreadyGraded
    rw [h.tasks, hgrades, hlocked]
    rfl
  -- the claim goes to the row of that number, not to the first with the id
  have hassign : P.reclaimExpired.assign (juniorTask n) (junior m) =
      ({ P.reclaimExpired with
        tasks := [leadTask, (juniorTask n).assignTo P.clock 3 "1"]
        experts := [junior (m + 1)] }, (juniorTask n).assignTo P.clock 3 "1") := by
    unfold Platform.assign Platform.updateTask Platform.updateExpert
    dsimp only
    rw [h.tasks, hexperts, hsettings]
    rfl
  have hactive : ¬ (junior m).status ≠ .active := not_not.mpr rfl
  unfold Platform.claimNext
  rw [if_neg hactive]
  dsimp only
  rw [hpick]
  dsimp only
  rw [hassign]
  dsimp only
  rw [hsettings, hgolden]
  exact ⟨_, rfl, ⟨rfl, rfl, hgrades, hlocked⟩, P.clock, le_rfl, rfl⟩

theorem Platform.expert_junior (h : TwinRows P m) : P.expert "1" = .ok (junior m) := by
  unfold Platform.expert
  rw [h.experts]
  rfl

/-- The id belongs to the first task. -/
theorem TwinHeld.task (h : TwinHeld P n m) : P.task "t" = .ok leadTask := by
  obtain ⟨now, -, htasks⟩ := h.tasks
  unfold Platform.task
  rw [htasks]
  rfl

/-- A grade for the second task is refused, because the first one is not assigned. -/
theorem TwinHeld.submit (h : TwinHeld P n m) {scores : Dict ℚ} {rationale : String}
    {seconds : Number} :
    exec (Platform.submitGrade host (junior m) "t" scores rationale seconds) P =
      (.error ⟨409, "task is not assigned to this expert"⟩, P) := by
  rw [Platform.exec_submitGrade, h.task]
  exact if_neg (by simp [leadTask])

end Twins

section NeverDone
variable {host : Host} {tasksById : String → Option SimTask} {sim : SimTask} {w : Worker}
  {S : Stage} {n m : ℕ}

/-- A turn that claims the second task. -/
theorem Twins.turn (h : Twins S.platform n m) (hsim : tasksById "t" = some sim)
    (hid : w.sim.id = "1") (hpending : w.pending = none) :
    ∃ w' S', expertAction host tasksById w S = (.ok w', S') ∧ w'.sim.id = "1" ∧
      w'.pending = some ("t", sim) ∧ w'.done = w.done ∧ TwinHeld S'.platform n (m + 1) := by
  obtain ⟨P', hclaim, hheld⟩ := h.claim host
  unfold expertAction
  rw [hid, Platform.expert_junior h.toTwinRows, hpending]
  dsimp only
  unfold claimTurn
  rw [hclaim]
  dsimp only
  rw [show ((juniorTask n).assignTo S.platform.clock 3 "1").id = "t" from rfl, hsim]
  refine ⟨_, _, rfl, hid, rfl, rfl, ?_⟩
  rw [Stage.yields_platform, Stage.yieldsIf_platform]
  exact hheld

/-- A turn that grades it. -/
theorem TwinHeld.turn (h : TwinHeld S.platform n m) (hid : w.sim.id = "1")
    (hpending : w.pending = some ("t", sim)) :
    ∃ w' S', expertAction host tasksById w S = (.ok w', S') ∧ w'.sim.id = "1" ∧
      w'.pending = none ∧ w'.done = w.done ∧ S'.platform = S.platform := by
  unfold expertAction
  rw [hid, Platform.expert_junior h.toTwinRows, hpending]
  dsimp only
  unfold gradeTurn
  dsimp only
  rw [h.task]
  dsimp only
  rw [h.submit]
  exact ⟨_, _, rfl, hid, rfl, rfl, rfl⟩

theorem passLoop_sole {actionMs : ℚ≥0} {fuel : ℕ} {w' : Worker} {S' : Stage}
    (h : expertAction host tasksById w (S.advance actionMs) = (.ok w', S'))
    (hdone : w'.done = false) :
    passLoop host tasksById actionMs (fuel + 1) [w] S =
      passLoop host tasksById actionMs fuel [w'] S' := by
  have hround : playRound host tasksById actionMs [w] S = (.ok [w'], S') := by
    unfold playRound
    rw [h]
    rfl
  rw [passLoop, hround]
  · simp [hdone]
  · simp

/-- After every action the worker is as far as it was two actions before. -/
theorem passLoop_twins (hsim : tasksById "t" = some sim) (fuel : ℕ) (w : Worker) (S : Stage)
    (n m : ℕ) (hid : w.sim.id = "1") (hdone : w.done = false) :
    (w.pending = none → Twins (S.advance 4000).platform n m →
      passLoop host tasksById 4000 fuel [w] S = none) ∧
    (w.pending = some ("t", sim) → TwinHeld S.platform n m →
      passLoop host tasksById 4000 fuel [w] S = none) := by
  -- over the fuel; a turn that claims and one that grades follow each other
  induction fuel generalizing w S n m with
  | zero => exact ⟨fun _ _ => rfl, fun _ _ => rfl⟩
  | succ fuel ih =>
    constructor
    · intro hpending h
      obtain ⟨w', S', hturn, hid', hpending', hdone', hheld⟩ := h.turn hsim hid hpending
      rw [passLoop_sole hturn (hdone'.trans hdone)]
      exact (ih w' S' n (m + 1) hid' (hdone'.trans hdone)).2 hpending' hheld
    · intro hpending h
      have hlater : TwinHeld (S.advance 4000).platform n m := by
        obtain ⟨now, hnow, htasks⟩ := h.tasks
        exact ⟨⟨h.settings, h.experts, h.grades, h.locked⟩, now,
          hnow.trans (le_add_of_nonneg_right (by norm_num)), htasks⟩
      obtain ⟨w', S', hturn, hid', hpending', hdone', hsame⟩ := hlater.turn hid hpending
      rw [passLoop_sole hturn (hdone'.trans hdone)]
      refine (ih w' S' (n + 1) m hid' (hdone'.trans hdone)).1 hpending' ?_
      -- the grade was refused and the lease has run out
      have htwins := hlater.twins
      rw [← hsame] at htwins
      exact htwins

end NeverDone

/-- Two tasks of one id, one of them out of the worker's reach: the pass never ends. -/
theorem twins_never_done : ¬ ∀ host settings clock calls tasksById actionMs workers events,
    (∀ w ∈ workers, w.pending = none) → ∃ fuel,
      (gradingPass host tasksById actionMs fuel workers
        ⟨run (Platform.step host) (.new settings clock) calls, events⟩).isSome := by
  intro h
  have hsim : twinTask "t" = some ⟨Relational.Table.empty⟩ := rfl
  obtain ⟨fuel, hends⟩ := h drawingHost shortLeases 0 twinCalls twinTask 4000 [soleWorker] []
    (by simp [soleWorker])
  have htwins : Twins ((Stage.mk (run (Platform.step drawingHost) (.new shortLeases 0) twinCalls)
      []).advance 4000).platform 0 0 := ⟨⟨rfl, rfl, rfl, rfl⟩, rfl⟩
  have hnone := (@passLoop_twins drawingHost twinTask _ hsim fuel soleWorker _ 0 0 rfl rfl).1 rfl
    htwins
  have hpass : gradingPass drawingHost twinTask 4000 fuel [soleWorker]
      ⟨run (Platform.step drawingHost) (.new shortLeases 0) twinCalls, []⟩ = none := hnone
  rw [hpass] at hends
  exact absurd hends (by simp)

end Panelist.Port
