import Panelist.Pinning
import Panelist.References
import Panelist.ScoreMaps

/-! Golden tasks under publishing: when the holder of a golden task can still pass it. -/
namespace Panelist
open Relational Transaction

/-- The result `evaluate` stores for a grade on a task with these expected scores. -/
def checkRow (env : Env) (task : Task) (grade : Grade) (expected : Dict ℚ) : AttentionResult where
  id := env.uuid4 1
  taskId := task.id
  expertId := grade.expertId
  gradeId := grade.id
  passed := decide ((deviations expected grade.scoresSnapshot).foldl max 0 ≤
    env.settings.attentionTolerance)
  maxDeviation := (deviations expected grade.scoresSnapshot).foldl max 0
  createdAt := env.now

/-- The ids the request draws are not in use. -/
def FreshIds (env : Env) (db : Db) : Prop :=
  (∀ g ∈ db.grades, g.id ≠ env.uuid4 0) ∧ ∀ a ∈ db.attentionResults, a.id ≠ env.uuid4 1

/-- `expertId` can submit a score map for `t` that is accepted and passes the check. -/
def Passable (env : Env) (db : Db) (t : Task) (expertId : Uuid) : Prop :=
  ∃ body db' grade a, body.taskId = t.id ∧ submit env db expertId body = .ok (db', grade) ∧
    db'.attentionResults.get (env.uuid4 1) = some a ∧ a.gradeId = grade.id ∧ a.passed = true

section Check
variable {env : Env} {db db' : Db} {expert : Expert} {task : Task} {grade : Grade}
  {expected : Dict ℚ}

theorem Task.expected_golden (h : task.expected = some expected) :
    task.isAttentionCheck = true := by
  by_contra hn
  rw [Task.expected, if_neg hn] at h
  exact absurd h (by simp)

theorem attentionResults_enforce (env : Env) (db : Db) (expert : Expert) :
    (enforce env db expert).1.attentionResults = db.attentionResults := by
  rcases enforce_cases env db expert with h | ⟨_, _, h⟩ <;> rw [h]

theorem attentionResults_calibrationUpdate (env : Env) (db : Db) (expert : Expert)
    (actor : String) :
    (calibrationUpdate env db expert actor).1.attentionResults = db.attentionResults := by
  obtain ⟨_, _, h⟩ := calibrationUpdate_eq env db expert actor
  rw [h]

theorem attentionEvaluate_golden (hexp : task.expected = some expected) :
    attentionEvaluate env db task grade = (do
      let results ← orFail (db.attentionResults.insert (checkRow env task grade expected))
        (.integrity "attention_results_pkey")
      pure ({ db with attentionResults := results }, some (checkRow env task grade expected))) := by
  rw [attentionEvaluate, hexp]
  rfl

/-- What a submission on a golden task does after its check is stored. -/
def afterCheck (env : Env) (db : Db) (expert : Expert) (result : AttentionResult) : Db :=
  (calibrationUpdate env (if result.passed then db else (enforce env db expert).1) expert
    "system").1

theorem checkGrade_golden (hexp : task.expected = some expected) :
    checkGrade env db expert task grade = .ok db' ↔
      ∃ results, db.attentionResults.insert (checkRow env task grade expected) = some results ∧
        db' = afterCheck env { db with attentionResults := results } expert
          (checkRow env task grade expected) := by
  rw [checkGrade, attentionEvaluate_golden hexp]
  cases db.attentionResults.insert (checkRow env task grade expected) with
  | none => simp [orFail, bind, Except.bind]
  | some results =>
    simp only [orFail_ok_iff, bind_ok_iff, pure_ok_iff, exists_eq_left', Option.some.injEq]
    exact ⟨fun h => h.symm, fun h => h.symm⟩

theorem attentionResults_afterCheck (env : Env) (db : Db) (expert : Expert)
    (result : AttentionResult) :
    (afterCheck env db expert result).attentionResults = db.attentionResults := by
  rw [afterCheck, attentionResults_calibrationUpdate]
  split_ifs
  · rfl
  · exact attentionResults_enforce env db expert

/-- A grade on a golden task opens no round. -/
theorem settleGrade_golden (hexp : task.expected = some expected) :
    settleGrade env db expert task grade =
      checkGrade env (record { db with tasks := db.tasks.update task.id Task.graded }
        s!"expert:{expert.id.str}" "grade.submitted" "grade" grade.id.str) expert task grade := by
  have hround (db : Db) : roundIfComplete env db task = pure db := by
    rw [roundIfComplete, if_neg]
    rw [Task.graded_status_of_golden (Task.expected_golden hexp)]
    decide
  rw [settleGrade, hround]
  rfl

/-- A grade on a golden task settles by storing its check. -/
theorem settleGrade_golden_iff (hexp : task.expected = some expected)
    {results : Table AttentionResult} :
    (∃ db', settleGrade env db expert task grade = .ok db' ∧ db'.attentionResults = results) ↔
      db.attentionResults.insert (checkRow env task grade expected) = some results := by
  rw [settleGrade_golden hexp]
  constructor
  · rintro ⟨db', hcheck, rfl⟩
    obtain ⟨results, hins, rfl⟩ := (checkGrade_golden hexp).mp hcheck
    rw [attentionResults_afterCheck]
    exact hins
  · intro hins
    exact ⟨_, (checkGrade_golden hexp).mpr ⟨results, hins, rfl⟩, attentionResults_afterCheck ..⟩

/-- The holder of a golden task can pass it exactly when no grade of theirs is stored
and the expected scores fit the version the task is graded under. -/
theorem passable_iff {rubric : Rubric} {expertId : Uuid}
    (hx : db.experts.get expertId = some expert)
    (ht : db.tasks.get task.id = some task) (hs : task.status = .assigned)
    (hh : task.assignedExpertId = some expertId)
    (hrub : db.rubrics.get task.gradingRubricId = some rubric)
    (hexp : task.expected = some expected) (hτ : 0 ≤ env.settings.attentionTolerance)
    (hfresh : FreshIds env db) :
    Passable env db task expertId ↔ alreadyGraded db task.id expertId = false ∧
      Fits env.settings.attentionTolerance (criteriaOf db task.gradingRubricId) expected := by
  obtain rfl : expert.id = expertId := Table.get_pk hx
  have hrid : rubric.id = task.gradingRubricId := Table.get_pk hrub
  rw [alreadyGraded_eq_false, ← exists_passing_iff (criteriaOf_keys db _) hτ, ← hrid]
  constructor
  -- a grade that passed is a score map near the expected one
  · rintro ⟨body, db', grade, a, hbody, hsub, ha, -, hpass⟩
    obtain ⟨-, x, task', rubric', grades, hx', ht', -, hrub', -, hadm, rfl, hins, hsettle⟩ :=
      submit_ok_iff.mp hsub
    obtain rfl := Option.some.inj (hx.symm.trans hx')
    obtain rfl := Option.some.inj (ht.symm.trans (hbody ▸ ht'))
    obtain rfl := Option.some.inj (hrub.symm.trans hrub')
    refine ⟨fun g hg hgt hge => (Table.insert_eq_some.mp hins).1 g hg (Or.inr ?_), body.scores,
      hadm, ?_⟩
    · exact Prod.ext hgt hge
    · have hstored := (settleGrade_golden_iff hexp).mp ⟨db', hsettle, rfl⟩
      have hget := (Table.get_insert hstored (env.uuid4 1)).trans (if_pos rfl)
      rw [← Option.some.inj (hget.symm.trans ha)] at hpass
      exact of_decide_eq_true hpass
  -- the other way the grade is written down: the closest admissible scores
  · rintro ⟨hfree, scores, hadm, hpass⟩
    let body : GradeCreate := ⟨task.id, none, scores, "-", 0⟩
    have hrat : 1 ≤ body.rationale.length := by
      show 1 ≤ "-".length
      decide
    let grade := body.row env task expert rubric.id (criteriaOf db rubric.id)
    have hins : ∃ grades, db.grades.insert grade = some grades := by
      rw [← Option.ne_none_iff_exists', ne_eq, Table.insert_eq_none]
      rintro ⟨g, hg, hid | hpair⟩
      · exact hfresh.1 g hg hid
      · exact hfree g hg (congrArg Prod.fst hpair) (congrArg Prod.snd hpair)
    obtain ⟨grades, hins⟩ := hins
    have hcheck : ∃ results, db.attentionResults.insert (checkRow env task grade expected) =
        some results := by
      rw [← Option.ne_none_iff_exists', ne_eq, Table.insert_eq_none]
      rintro ⟨a, ha, hid⟩
      exact hfresh.2 a ha hid
    obtain ⟨results, hcheck⟩ := hcheck
    have hsettled :
        ∃ db', settleGrade env { db with grades := grades } expert task grade = .ok db' ∧
        db'.attentionResults = results := (settleGrade_golden_iff hexp).mpr hcheck
    obtain ⟨db', hsettle, hresults⟩ := hsettled
    refine ⟨body, db', grade, checkRow env task grade expected, rfl, submit_ok_iff.mpr
      ⟨hrat, expert, task, rubric, grades, hx, ht, ⟨hs, hh⟩, hrub, by simp [body], hadm, rfl,
        hins, hsettle⟩, ?_, rfl, decide_eq_true hpass⟩
    rw [hresults, Table.get_insert hcheck]
    exact if_pos rfl

end Check

/-! ### Golden tasks over a run -/

/-- Criteria belong to stored rubrics, tasks point to one, and a golden task has
expected scores. -/
structure Rooted (w : Work) : Prop where
  criteria : ∀ c ∈ w.criteria, ∃ v, w.rubrics.get c.rubricId = some v
  rubric : ∀ t ∈ w.tasks, ∃ v, w.rubrics.get t.rubricId = some v
  expected : ∀ t ∈ w.tasks, t.isAttentionCheck = true → ∃ e, t.expected = some e

section Roots
variable {r : Request} {db : Db} {x : Response} {w : Work}

theorem Task.expected_eq {t : Task} {e : Dict ℚ} (h : t.expected = some e) :
    t.expectedScores = some e := by
  rw [Task.expected, if_pos (Task.expected_golden h), Option.filter_eq_some_iff] at h
  exact h.1

theorem TaskCreate.expected {b : TaskCreate} (h : b.hasExpected = true)
    (hg : b.isAttentionCheck = true) (id : Uuid) (seq : ℕ) :
    ∃ e, (b.row id seq).expected = some e := by
  obtain ⟨e, he, hne⟩ := (Option.any_eq_true _ _).mp h
  refine ⟨e, ?_⟩
  rw [Task.expected, if_pos (show (b.row id seq).isAttentionCheck = true from hg)]
  exact Option.filter_eq_some_iff.mpr ⟨he, hne⟩

theorem Task.SameContent.golden {t t' : Task} (h : t.SameContent t') :
    t'.isAttentionCheck = t.isAttentionCheck ∧ t'.expected = t.expected := by
  rw [h]
  exact ⟨rfl, rfl⟩

theorem superseded_evolves (rubrics : Table Rubric) (previousId newId : Uuid) (now : Time) :
    rubrics.Evolves (fun _ _ => True)
      (rubrics.update previousId (Rubric.superseded now newId)) :=
  .update (fun _ => trivial) (fun _ => trivial)

/-- A request stores criteria of a new rubric only. -/
theorem TaskStep.criteria (hstep : TaskStep r db x w) :
    ∃ new, w.criteria.rows = db.rubricCriteria.rows ++ new ∧
      ∀ c ∈ new, db.rubrics.get c.rubricId = none ∧ ∃ v, w.rubrics.get c.rubricId = some v := by
  have hnew {rubric : Rubric} {rubrics : Table Rubric} {criteria : List CriterionIn}
      (hr : db.rubrics.insert rubric = some rubrics) {c : RubricCriterion}
      (hc : c ∈ criterionRows r.env rubric.id criteria) :
      db.rubrics.get c.rubricId = none ∧ rubrics.get c.rubricId = some rubric := by
    rw [criterionRows_rubricId hc]
    refine ⟨db.rubrics.get_eq_none.mpr (fun v hv => Table.insert_fresh hr hv), ?_⟩
    exact (Table.get_insert hr _).trans (if_pos rfl)
  cases hstep with
  | created hop hcurrent hr hc =>
    exact ⟨_, Table.rows_insertAll hc, fun c hmem => ⟨(hnew hr hmem).1, _, (hnew hr hmem).2⟩⟩
  | @published previous rubric =>
    rename_i hr hc
    refine ⟨_, Table.rows_insertAll hc, fun c hmem => ⟨(hnew hr hmem).1, ?_⟩⟩
    obtain ⟨v, hv, _⟩ := superseded_evolves _ previous.id rubric.id r.env.now _ _ (hnew hr hmem).2
    exact ⟨v, hv⟩
  | _ => exact ⟨[], (List.append_nil _).symm, fun c hc => absurd hc List.not_mem_nil⟩

theorem TaskStep.rubrics (hstep : TaskStep r db x w) :
    db.rubrics.Evolves (fun _ _ => True) w.rubrics := by
  have hrefl (T : Table Rubric) : T.Evolves (fun _ _ => True) T := .refl (fun _ => trivial) T
  cases hstep with
  | created hop hcurrent hr => exact .insert (fun _ => trivial) hr
  | @published previous rubric =>
    rename_i hr hc
    exact .trans (fun _ _ => trivial) (.insert (fun _ => trivial) hr)
      (superseded_evolves _ previous.id rubric.id r.env.now)
  | _ => exact hrefl _

/-- A task row is an old row that kept its content and its rubric or moved to a stored
one, or the row of a new task. -/
theorem TaskStep.origin (hstep : TaskStep r db x w) {t' : Task} (ht' : t' ∈ w.tasks) :
    (∃ t ∈ db.tasks, t.SameContent t' ∧
      (t'.rubricId = t.rubricId ∨ ∃ v, w.rubrics.get t'.rubricId = some v)) ∨
    ∃ b id seq, t' = TaskCreate.row b id seq ∧ (db.rubrics.get b.rubricId).isSome ∧
      (b.isAttentionCheck = true → b.hasExpected = true) := by
  have hrefl {t : Task} (ht : t ∈ db.tasks) : ∃ t₀ ∈ db.tasks, t₀.SameContent t ∧
      (t.rubricId = t₀.rubricId ∨ ∃ v, w.rubrics.get t.rubricId = some v) :=
    ⟨t, ht, Task.SameContent.refl t, Or.inl rfl⟩
  have hreclaimed {t : Task} (ht : t ∈ (reclaimExpired r.env db).1.tasks) :
      ∃ t₀ ∈ db.tasks, t₀.SameContent t ∧ t.rubricId = t₀.rubricId := by
    obtain ⟨t₀, ht₀, rfl⟩ := (Table.mem_updateWhere (f := Task.reclaimed) (fun _ => rfl)).mp ht
    refine ⟨t₀, ht₀, ?_⟩
    split_ifs <;> exact ⟨rfl, rfl⟩
  -- one row written by a function that keeps content and rubric
  have hwritten {T : Table Task} {k : Uuid} (f : Task → Task) (hf : Table.Keeps f)
      (hkeep : ∀ t : Task, t.SameContent (f t) ∧ (f t).rubricId = t.rubricId)
      (ht : t' ∈ T.update k f hf) :
      ∃ t ∈ T, t.SameContent t' ∧ t'.rubricId = t.rubricId := by
    obtain ⟨t, hmem, rfl⟩ := (Table.mem_update hf).mp ht
    refine ⟨t, hmem, ?_⟩
    split_ifs
    · exact hkeep t
    · exact ⟨Task.SameContent.refl t, rfl⟩
  -- only publishing changes the rubric of a stored task
  cases hstep with
  | kept | created => exact Or.inl (hrefl ht')
  | @published previous rubric =>
    rename_i hr hc
    obtain ⟨t, ht, rfl⟩ :=
      (Table.mem_updateWhere (f := Task.retargeted rubric.id) (fun _ => rfl)).mp ht'
    refine Or.inl ⟨t, ht, ?_⟩
    split_ifs
    · obtain ⟨v, hv, _⟩ := superseded_evolves _ previous.id rubric.id r.env.now rubric.id rubric
        ((Table.get_insert hr _).trans (if_pos rfl))
      exact ⟨rfl, Or.inr ⟨v, hv⟩⟩
    · exact ⟨Task.SameContent.refl t, Or.inl rfl⟩
  | queued hop hv hcurrent hexpected hrub hi =>
    rcases (Table.mem_insertAll hi).mp ht' with ht | ht
    · exact Or.inl (hrefl ht)
    · obtain ⟨⟨b, i⟩, hb, rfl⟩ := List.mem_map.mp ht
      have hmem := List.fst_mem_of_mem_zipIdx hb
      exact Or.inr ⟨b, _, _, rfl, hrub b hmem, hexpected b hmem⟩
  | reclaimed =>
    obtain ⟨t, ht, hsame, hrub⟩ := hreclaimed ht'
    exact Or.inl ⟨t, ht, hsame, Or.inl hrub⟩
  | @claimed e =>
    obtain ⟨t₁, ht₁, hsame₁, hrub₁⟩ :=
      hwritten (Task.assignTo r.env e.id) (fun _ => rfl) (fun _ => ⟨rfl, rfl⟩) ht'
    obtain ⟨t, ht, hsame, hrub⟩ := hreclaimed ht₁
    exact Or.inl ⟨t, ht, hsame.trans hsame₁, Or.inl (hrub₁.trans hrub)⟩
  | released =>
    obtain ⟨t, ht, hsame, hrub⟩ :=
      hwritten Task.unassigned (fun _ => rfl) (fun _ => ⟨rfl, rfl⟩) ht'
    exact Or.inl ⟨t, ht, hsame, Or.inl hrub⟩
  | @graded e task grade grades body f hf =>
    rename_i hcount
    obtain ⟨t, ht, hsame, hrub⟩ := hwritten f hf
      (fun t => by rcases hcount with rfl | rfl <;> exact ⟨rfl, rfl⟩) ht'
    exact Or.inl ⟨t, ht, hsame, Or.inl hrub⟩
  | reviewed =>
    obtain ⟨t, ht, hsame, hrub⟩ := hwritten _ (Task.reviewed_keeps _)
      (fun t => ⟨Task.reviewed_content _ t, t.reviewed_rubricId _⟩) ht'
    exact Or.inl ⟨t, ht, hsame, Or.inl hrub⟩
  | resolved =>
    obtain ⟨t, ht, hsame, hrub⟩ :=
      hwritten _ (Task.withStatus_keeps _) (fun _ => ⟨rfl, rfl⟩) ht'
    exact Or.inl ⟨t, ht, hsame, Or.inl hrub⟩

theorem Rooted.step (h : Rooted db.work) (hstep : TaskStep r db x w) : Rooted w := by
  have hgrow {k : Uuid} (hk : ∃ v, db.rubrics.get k = some v) : ∃ v, w.rubrics.get k = some v := by
    obtain ⟨v, hv⟩ := hk
    obtain ⟨v', hv', _⟩ := hstep.rubrics k v hv
    exact ⟨v', hv'⟩
  refine ⟨fun c hc => ?_, fun t' ht' => ?_, fun t' ht' hg => ?_⟩
  -- criteria come with their version
  · obtain ⟨new, hrows, hnew⟩ := hstep.criteria
    rw [← Table.mem_rows, hrows] at hc
    rcases List.mem_append.mp hc with hc | hc
    · exact hgrow (h.criteria c hc)
    · exact (hnew c hc).2
  -- a task keeps its version or moves to one that is there
  · rcases hstep.origin ht' with ⟨t, ht, _, hsame | hv⟩ | ⟨b, id, seq, rfl, hrub, _⟩
    · rw [hsame]
      exact hgrow (h.rubric t ht)
    · exact hv
    · exact hgrow (Option.isSome_iff_exists.mp hrub)
  -- what is expected of a golden task is set when it is created
  · rcases hstep.origin ht' with ⟨t, ht, hsame, _⟩ | ⟨b, id, seq, rfl, _, hexp⟩
    · rw [hsame.golden.2]
      exact h.expected t ht (hsame.golden.1 ▸ hg)
    · exact TaskCreate.expected (hexp hg) hg id seq

theorem Rooted.empty : Rooted Db.empty.work where
  criteria c hc := absurd hc (Table.not_mem_empty c)
  rubric t ht := absurd ht (Table.not_mem_empty t)
  expected t ht := absurd ht (Table.not_mem_empty t)

theorem Rooted.after (rs : List Request) : Rooted (after rs).work :=
  run_invariant Panelist.step (P := fun db => Rooted db.work)
    (fun _ _ _ _ h hstep => h.step (step_tasks hstep)) .empty rs

/-- The criteria of a stored rubric never change. -/
theorem criteriaOf_after (rs qs : List Request) {k : Uuid} {v : Rubric}
    (hk : (Panelist.after rs).rubrics.get k = some v) :
    criteriaOf (Panelist.after (rs ++ qs)) k = criteriaOf (Panelist.after rs) k := by
  induction qs using List.reverseRecOn with
  | nil => rw [List.append_nil]
  | append_singleton qs r ih =>
    rw [← ih, ← List.append_assoc, after_concat]
    rcases commit_cases Panelist.step r (Panelist.after (rs ++ qs)) with ⟨x, hstep⟩ | ⟨_, hsame⟩
    · obtain ⟨new, hrows, hnew⟩ := (step_tasks hstep).criteria
      have hstored : ∃ v', (Panelist.after (rs ++ qs)).rubrics.get k = some v' := by
        obtain ⟨v', hv', _⟩ := (retains_after rs qs).rubrics k v hk
        exact ⟨v', hv'⟩
      -- new criteria belong to a rubric that was not there before
      have hnone : new.filter (fun c => decide (c.rubricId = k)) = [] := by
        rw [List.filter_eq_nil_iff]
        intro c hc he
        obtain ⟨v', hv'⟩ := hstored
        rw [← of_decide_eq_true he, (hnew c hc).1] at hv'
        exact absurd hv' (by simp)
      change (List.filter _ (commit Panelist.step r _).rubricCriteria.rows).insertionSort _ = _
      have hrows' : (commit Panelist.step r (Panelist.after (rs ++ qs))).rubricCriteria.rows =
          (Panelist.after (rs ++ qs)).rubricCriteria.rows ++ new := hrows
      rw [hrows', List.filter_append, hnone, List.append_nil]
      rfl
    · rw [hsame]

end Roots

/-! ### Leases of golden tasks -/

section Leases
variable {r : Request} {db : Db} {x : Response} {w : Work}

/-- A claim answers with a row it stores, and leaves grades and criteria alone. -/
theorem TaskStep.answered {t : Task} (hstep : TaskStep r db (.claimed (some t)) w) :
    t ∈ w.tasks ∧ t.status = .assigned ∧ t.pinnedRubricId = some t.rubricId ∧
      w.grades = db.grades ∧ w.criteria = db.rubricCriteria ∧
      ∃ e, t.assignedExpertId = some e ∧ ∃ expert, db.experts.get e = some expert := by
  cases hstep with
  | kept _ hx => exact absurd rfl (hx t)
  | reclaimed _ hx => exact absurd rfl (hx t)
  | released _ _ _ _ hx => exact absurd rfl (hx t)
  | @claimed e task hop he ha ht hs =>
    refine ⟨?_, rfl, rfl, rfl, rfl, e.id, rfl, e, he⟩
    exact (Table.mem_update_of_get (f := Task.assignTo r.env e.id) (fun _ => rfl) ht).mpr
      (Or.inl rfl)

/-- A new grade ends the assignment of its task. -/
theorem TaskStep.ends_lease (hstep : TaskStep r db x w) {g : Grade} (hg : g ∈ w.grades)
    {t : Task} (ht : t ∈ w.tasks) (hid : g.taskId = t.id) (hs : t.status = .assigned) :
    g ∈ db.grades := by
  cases hstep with
  | @graded e task grade grades body f hf hop hget hst hh htask hexpert hrubric hi hcount =>
    rcases (Table.mem_insert hi).mp hg with hg | rfl
    · exact hg
    · rcases (Table.mem_update_of_get hf hget).mp ht with rfl | ⟨_, hne⟩
      · rcases hcount with rfl | rfl
        · simp only [Task.graded] at hs
          split_ifs at hs
        · exact absurd hs (by simp [Task.withStatus])
      · exact absurd (hid.symm.trans htask) hne
  | _ => exact hg

/-- While a claim is held no grade is stored on its task. -/
theorem Claim.grades {earlier lease : List Request} {c : Request} {e : Uuid} {t : Task}
    (h : Claim earlier c lease e t) (hs : t.status = .assigned) :
    ∀ g ∈ (after (earlier ++ c :: lease)).grades, g.taskId = t.id → g ∈ (after earlier).grades := by
  -- the row is assigned after each request of the lease, so none of them stores a grade on it
  have hstep (m m' : List Request) (r : Request) (hm : c :: lease = m ++ r :: m') :
      ∀ g ∈ (after (earlier ++ (m ++ [r]))).grades, g.taskId = t.id →
        g ∈ (after (earlier ++ m)).grades := by
    have hheld : (after (earlier ++ (m ++ [r]))).tasks.get t.id = some t := by
      cases m with
      | nil =>
        obtain ⟨rfl, rfl⟩ := List.cons_eq_cons.mp hm
        exact h.held [] _ rfl
      | cons c' m =>
        obtain ⟨rfl, rfl⟩ := List.cons_eq_cons.mp hm
        exact h.held (m ++ [r]) m' (by simp)
    intro g hg hid
    rw [← List.append_assoc, after_concat] at hg hheld
    rcases commit_cases step r (after (earlier ++ m)) with ⟨x, hok⟩ | ⟨_, hsame⟩
    · exact (step_tasks hok).ends_lease hg (Table.get_mem hheld) hid hs
    · rwa [hsame] at hg
  have hall (m m' : List Request) (hm : c :: lease = m ++ m') :
      ∀ g ∈ (after (earlier ++ m)).grades, g.taskId = t.id → g ∈ (after earlier).grades := by
    induction m using List.reverseRecOn generalizing m' with
    | nil =>
      intro g hg _
      rwa [List.append_nil] at hg
    | append_singleton m r ih =>
      intro g hg hid
      rw [List.append_assoc] at hm
      exact ih (r :: m') hm g (hstep m m' r hm g hg hid) hid
  exact hall (c :: lease) [] (by rw [List.append_nil])

theorem criteriaOf_congr {db db' : Db} (h : db'.rubricCriteria = db.rubricCriteria) (k : Uuid) :
    criteriaOf db' k = criteriaOf db k := by
  simp only [criteriaOf, h]

/-- Whether the holder of a golden task can pass it, in a reached state. -/
theorem passable_after (rs : List Request) {t : Task} {e : Uuid} (ht : t ∈ (after rs).tasks)
    (hg : t.isAttentionCheck = true) (hs : t.status = .assigned)
    (hh : t.assignedExpertId = some e) :
    ∃ expected, t.expectedScores = some expected ∧ ∀ env : Env,
      0 ≤ env.settings.attentionTolerance → FreshIds env (after rs) →
      (Passable env (after rs) t e ↔ alreadyGraded (after rs) t.id e = false ∧
        Fits env.settings.attentionTolerance (criteriaOf (after rs) t.rubricId) expected) := by
  have hroot := Rooted.after rs
  obtain ⟨expected, hexp⟩ := hroot.expected t ht hg
  obtain ⟨v, hv⟩ := hroot.rubric t ht
  -- the holder claimed the task, which pinned the version
  obtain ⟨earlier, c, lease, e', rfl, hclaim⟩ := held_under_claim rs t ht hs
  obtain rfl := Option.some.inj (hclaim.holder.symm.trans hh)
  obtain ⟨x, hx⟩ := hclaim.expert
  obtain ⟨x', hx', -⟩ := (retains_after earlier (c :: lease)).experts _ x hx
  have hpin : t.gradingRubricId = t.rubricId := by
    rw [Task.gradingRubricId, hclaim.pinned, Option.getD_some]
  refine ⟨expected, Task.expected_eq hexp, fun env hτ hfresh => ?_⟩
  rw [← hpin] at hv ⊢
  exact passable_iff hx' (Table.get_of_mem _ ht) hs hh hv hexp hτ hfresh

theorem exists_freshIds (db : Db) :
    ∃ env : Env, env.settings.attentionTolerance = 0 ∧ FreshIds env db := by
  obtain ⟨n, hn⟩ := Infinite.exists_notMem_finset
    ((db.grades.rows.map Grade.id ++ db.attentionResults.rows.map AttentionResult.id).toFinset)
  simp only [List.mem_toFinset, List.mem_append, List.mem_map, not_or, not_exists, not_and] at hn
  exact ⟨⟨0, { attentionTolerance := 0 }, fun _ => n, id, fun _ => [], fun _ => []⟩, rfl, hn.1,
    hn.2⟩

end Leases

/-- `t` is golden and was created in the run `rs` with a valid score map for its rubric. -/
def CreatedValid (rs : List Request) (t : Task) : Prop :=
  t.isAttentionCheck = true ∧ ∃ earlier k later body actor b i expected,
    rs = earlier ++ k :: later ∧ k.op = .createTasks body actor ∧
      (step k (after earlier)).isOk = true ∧ (b, i) ∈ body.zipIdx ∧ k.env.uuid4 i = t.id ∧
      b.expectedScores = some expected ∧ t.expectedScores = some expected ∧
      admissible (criteriaOf (after earlier) b.rubricId) expected

/-- In a run every holder of a validly created golden task can pass it, whatever the
tolerance, exactly when each claim of such a task is by an expert without a grade on it
and pins a version that its expected scores still fit. -/
theorem golden_passable_iff (rs : List Request) :
    (∀ earlier later, rs = earlier ++ later → ∀ t ∈ (after earlier).tasks, CreatedValid rs t →
      t.status = .assigned → ∀ e, t.assignedExpertId = some e → ∀ env : Env,
      0 ≤ env.settings.attentionTolerance → FreshIds env (after earlier) →
      Passable env (after earlier) t e) ↔
    ∀ earlier c later, rs = earlier ++ c :: later → ∀ db' t e,
      step c (after earlier) = .ok (db', .claimed (some t)) → t.assignedExpertId = some e →
      CreatedValid rs t → alreadyGraded (after earlier) t.id e = false ∧
        ∀ expected, t.expectedScores = some expected →
          Fits 0 (criteriaOf (after earlier) t.rubricId) expected := by
  constructor
  · rintro hpass earlier c later rfl db' t e hstep hh hvalid
    obtain ⟨hmem, hs, -, hgrades, hcriteria, -⟩ := (step_tasks hstep).answered
    have hdb : after (earlier ++ [c]) = db' := by rw [after_concat, commit_of_ok step hstep]
    rw [← hdb] at hmem hgrades hcriteria
    obtain ⟨expected, hexp, hiff⟩ := passable_after _ hmem hvalid.1 hs hh
    obtain ⟨env, hτ, hfresh⟩ := exists_freshIds (after (earlier ++ [c]))
    -- tolerance 0 at the moment of the claim is the strictest case
    have hall := (hiff env hτ.ge hfresh).mp
      (hpass (earlier ++ [c]) later (by simp) t hmem hvalid hs e hh env hτ.ge hfresh)
    rw [hτ] at hall
    refine ⟨?_, fun expected' hexp' => ?_⟩
    · rw [alreadyGraded_eq_false] at hall ⊢
      intro g hg
      exact hall.1 g (show g ∈ (after (earlier ++ [c])).work.grades by rwa [hgrades])
    · obtain rfl := Option.some.inj (hexp.symm.trans hexp')
      rw [← criteriaOf_congr hcriteria]
      exact hall.2
  · rintro hclaims reached later rfl t ht hvalid hs e hh env hτ hfresh
    obtain ⟨expected, hexp, hiff⟩ := passable_after reached ht hvalid.1 hs hh
    -- back to the claim that gave the task out: nothing it needs has changed since
    obtain ⟨earlier, c, lease, e', rfl, hclaim⟩ := held_under_claim reached t ht hs
    obtain rfl := Option.some.inj (hclaim.holder.symm.trans hh)
    obtain ⟨db', hstep⟩ := hclaim.answer
    obtain ⟨hfree, hfits⟩ :=
      hclaims earlier c (lease ++ later) (by simp) db' t e' hstep hh hvalid
    rw [hiff env hτ hfresh]
    constructor
    · rw [alreadyGraded_eq_false] at hfree ⊢
      intro g hg hid
      exact hfree g (hclaim.grades hs g hg hid) hid
    · obtain ⟨hmem, -, -, -, hcriteria, -⟩ := (step_tasks hstep).answered
      have hdb : after (earlier ++ [c]) = db' := by rw [after_concat, commit_of_ok step hstep]
      rw [← hdb] at hmem hcriteria
      obtain ⟨v, hv⟩ := (Rooted.after (earlier ++ [c])).rubric t hmem
      have hsame := criteriaOf_after (earlier ++ [c]) lease hv
      rw [List.append_assoc, List.singleton_append, criteriaOf_congr hcriteria] at hsame
      rw [hsame]
      exact (hfits expected hexp).mono hτ

namespace Scenario

/-- Task 500 is golden and expects accuracy 4 of rubric 100. -/
def golden : TaskCreate :=
  { task with isAttentionCheck := true, expectedScores := some (accuracy 4) }

/-- Version 600 asks for tone instead, and expert 300 claims the task under it. -/
def republished : List Request := setup ++ call 5 (.createTasks [golden] "admin") ::
  [call 6 (.publish 100 [⟨"tone", "Tone", 1, 1, 5⟩] "admin"), call 7 (.claimById 300 500)]

end Scenario

open Scenario in
/-- No grade of the holder passes at tolerance 1. -/
theorem golden_fails_every_grade :
    ∃ t ∈ (after republished).tasks, CreatedValid republished t ∧ t.status = .assigned ∧
      t.assignedExpertId = some 300 ∧ ∃ env : Env, env.settings.attentionTolerance = 1 ∧
        FreshIds env (after republished) ∧ ¬ Passable env (after republished) t 300 := by
  have hget : ((after republished).tasks.get 500).map (fun t => (t.status, t.isAttentionCheck,
      t.assignedExpertId, t.rubricId)) = some (.assigned, true, some 300, 600) := by
    decide +kernel
  have hexpected : ((after republished).tasks.get 500).map (fun t =>
      t.expectedScores.map Table.rows) = some (some [("accuracy", (4 : ℚ))]) := by
    decide +kernel
  have hcreated : (step (call 5 (.createTasks [golden] "admin")) (after setup)).isOk = true := by
    decide +kernel
  have hvalid : admissible (criteriaOf (after setup) 100) (accuracy 4) := by
    refine ⟨⟨?_, ?_⟩, ?_⟩ <;> decide +kernel
  have hnone : (after republished).grades.rows.length = 0 ∧
      (after republished).attentionResults.rows.length = 0 := by
    decide +kernel
  -- the new version has no criterion of the expected key
  have hgone : byKey (criteriaOf (after republished) 600) "accuracy" = none := by
    decide +kernel
  have hfresh : FreshIds (env 8) (after republished) := by
    constructor
    · intro g hmem
      rw [← Table.mem_rows, List.length_eq_zero_iff.mp hnone.1] at hmem
      exact absurd hmem List.not_mem_nil
    · intro a hmem
      rw [← Table.mem_rows, List.length_eq_zero_iff.mp hnone.2] at hmem
      exact absurd hmem List.not_mem_nil
  obtain ⟨t, ht, hrow⟩ := Option.map_eq_some_iff.mp hget
  simp only [Prod.mk.injEq] at hrow
  obtain ⟨hs, hg, hh, hrub⟩ := hrow
  rw [ht, Option.map_some, Option.some.injEq, Option.map_eq_some_iff] at hexpected
  obtain ⟨expected, hexpected, hrows⟩ := hexpected
  obtain rfl : expected = accuracy 4 := Table.ext hrows
  have hid : t.id = 500 := Table.get_pk ht
  refine ⟨t, Table.get_mem ht, ⟨hg, setup, _, _, [golden], "admin", golden, 0, accuracy 4, rfl,
    rfl, hcreated, by simp, hid.symm, rfl, hexpected, hvalid⟩, hs, hh, env 8, rfl, hfresh,
    fun hpass => ?_⟩
  obtain ⟨expected, hexp, hiff⟩ := passable_after republished (Table.get_mem ht) hg hs hh
  obtain rfl := Option.some.inj (hexp.symm.trans hexpected)
  have hfits := ((hiff (env 8) (by decide) hfresh).mp hpass).2.2 ("accuracy", 4)
    (List.mem_singleton_self _)
  rw [hrub, hgone] at hfits
  exact absurd hfits (by decide)

end Panelist
