import Panelist.TaskSteps

/-! A claim pins the version it shows, the lease keeps the row as claimed, and the
grade that ends the lease is produced against that version. -/
namespace Panelist
open Relational Transaction

/-- `t` is the answer of the claim `c` that `expertId` made after `earlier`, and the
row stays as claimed while the requests of `lease` run. -/
structure Claim (earlier : List Request) (c : Request) (lease : List Request) (expertId : Uuid)
    (t : Task) : Prop where
  op : c.op = .claimNext expertId ∨ c.op = .claimById expertId t.id
  expert : ∃ e, (after earlier).experts.get expertId = some e
  answer : ∃ db', step c (after earlier) = .ok (db', .claimed (some t))
  holder : t.assignedExpertId = some expertId
  pinned : t.pinnedRubricId = some t.rubricId
  held : ∀ m m', lease = m ++ m' → (after (earlier ++ c :: m)).tasks.get t.id = some t

/-- The grade `g` of `rs` ends the lease of a claim that showed its version. -/
def GradedAsShown (rs : List Request) (g : Grade) : Prop :=
  ∃ earlier c lease s later t, rs = earlier ++ c :: lease ++ s :: later ∧
    Claim earlier c lease g.expertId t ∧ t.id = g.taskId ∧ g.rubricId = t.rubricId ∧
    (∃ body, s.op = .submit g.expertId body) ∧
    ∃ db', step s (after (earlier ++ c :: lease)) = .ok (db', .grade g)

/-- The grades of a task for several graders were produced against the task's version. -/
def OneVersion (tasks : Table Task) (grades : Table Grade) : Prop :=
  ∀ t ∈ tasks, t.isAttentionCheck = false → 2 ≤ t.requiredGrades →
    ∀ g ∈ grades, g.taskId = t.id → g.rubricId = t.rubricId

section Steps
variable {r : Request} {db : Db} {x : Response} {w : Work}

/-- After a request an assigned row is as it was, or the request just claimed it. -/
theorem TaskStep.assigned (hstep : TaskStep r db x w) {t : Task} (ht : t ∈ w.tasks)
    (hs : t.status = .assigned) :
    db.tasks.get t.id = some t ∨ ∃ e, (r.op = .claimNext e ∨ r.op = .claimById e t.id) ∧
      (∃ expert, db.experts.get e = some expert) ∧ x = .claimed (some t) ∧
      t.assignedExpertId = some e ∧ t.pinnedRubricId = some t.rubricId := by
  have hreclaimed {s : Task} (hmem : s ∈ (reclaimExpired r.env db).1.tasks)
      (hst : s.status = .assigned) : db.tasks.get s.id = some s := by
    obtain ⟨t₀, ht₀, rfl⟩ := (Table.mem_updateWhere (f := Task.reclaimed) (fun _ => rfl)).mp hmem
    split_ifs at hst ⊢ with hexp
    · exact absurd hst (by simp [Task.reclaimed, Task.unassigned])
    · exact db.tasks.get_of_mem ht₀
  -- a row that is rewritten is not assigned afterwards, or is written back as it was
  have hupdated {task : Task} (f : Task → Task) (hf : Table.Keeps f)
      (hget : db.tasks.get task.id = some task)
      (hnew : (f task).status = .assigned → f task = task)
      (hmem : t ∈ db.tasks.update task.id f hf) : db.tasks.get t.id = some t := by
    rcases (Table.mem_update_of_get hf hget).mp hmem with rfl | ⟨hmem, _⟩
    · rw [hnew hs]
      exact hget
    · exact db.tasks.get_of_mem hmem
  -- a claim is the only step that leaves a task assigned which was not
  cases hstep with
  | kept => exact Or.inl (db.tasks.get_of_mem ht)
  | created => exact Or.inl (db.tasks.get_of_mem ht)
  | @published previous rubric =>
    obtain ⟨t₀, ht₀, rfl⟩ :=
      (Table.mem_updateWhere (f := Task.retargeted rubric.id) (fun _ => rfl)).mp ht
    -- only queued tasks are retargeted
    split_ifs at hs ⊢ with hon
    · simp only [Task.untouchedOn, Bool.and_eq_true, decide_eq_true_eq] at hon
      exact absurd (hon.1.2.symm.trans hs) (by decide)
    · exact Or.inl (db.tasks.get_of_mem ht₀)
  | queued hop hv hcurrent hexpected hrub hi =>
    rcases (Table.mem_insertAll hi).mp ht with ht | ht
    · exact Or.inl (db.tasks.get_of_mem ht)
    · obtain ⟨⟨b, i⟩, _, rfl⟩ := List.mem_map.mp ht
      exact absurd hs (by simp [TaskCreate.row])
  | reclaimed hop hx => exact Or.inl (hreclaimed ht hs)
  | @claimed e task hop he ha htask hq =>
    -- the claimed row, or one the reclaim before it has spared
    rcases (Table.mem_update_of_get (f := Task.assignTo r.env e.id) (fun _ => rfl) htask).mp ht with
      rfl | ⟨hmem, _⟩
    · exact Or.inr ⟨e.id, hop, ⟨e, he⟩, rfl, rfl, rfl⟩
    · exact Or.inl (hreclaimed hmem hs)
  | released hop htask hst hh hx =>
    exact Or.inl (hupdated Task.unassigned (fun _ => rfl) htask
      (fun he => absurd he (by simp [Task.unassigned])) ht)
  | @graded e task grade grades body f hf hop htask hst hh hg hexpert hrubric hi hcount =>
    refine Or.inl (hupdated f hf htask (fun he => absurd he ?_) ht)
    rcases hcount with rfl | rfl
    · simp only [Task.graded]
      split_ifs <;> simp
    · simp [Task.withStatus]
  | reviewed hop hb hg htask hget hallow hnone =>
    refine Or.inl (hupdated _ (Task.reviewed_keeps _) hget (fun he => ?_) ht)
    unfold Task.reviewed at he ⊢
    split_ifs at he ⊢
    · rfl
    · exact absurd he (by simp [Task.withStatus])
    · exact absurd he (by simp [Task.requeued])
    · exact absurd he (by simp [Task.withStatus])
    · rfl
  | resolved hop hrow =>
    obtain ⟨t₀, ht₀, rfl⟩ := (Table.mem_update (Task.withStatus_keeps _)).mp ht
    split_ifs at hs ⊢
    · exact absurd hs (by simp [Task.withStatus])
    · exact Or.inl (db.tasks.get_of_mem ht₀)

/-- While a task for several graders is in play its grades are all counted. -/
theorem Phase.received {t : Task} {gs : List Grade} {dec : Uuid → Option ReviewDecision}
    {c : Option Consensus} (h : Phase t gs dec c) (hg : t.isAttentionCheck = false)
    (hk : 2 ≤ t.requiredGrades) : t.gradesReceived = gs.length := by
  cases h with
  | golden hgold => exact absurd (hgold.symm.trans hg) (by decide)
  | awaiting _ hk1 => omega
  | submitted _ hk1 => omega
  | approved _ hk1 => omega
  | collecting _ _ _ hn => exact hn
  | agreed _ _ hn => exact hn
  | adjudicating _ _ hn => exact hn
  | adjudicated _ _ hn => exact hn

theorem OneVersion.of_rows {tasks tasks' : Table Task} {grades : Table Grade}
    (h : OneVersion tasks grades)
    (hrows : ∀ t' ∈ tasks', ∃ t ∈ tasks, t'.id = t.id ∧ t'.rubricId = t.rubricId ∧
      t'.isAttentionCheck = t.isAttentionCheck ∧ t'.requiredGrades = t.requiredGrades) :
    OneVersion tasks' grades := by
  intro t' ht' hgold hk g hg hgt
  obtain ⟨t, ht, hid, hrub, hgold', hk'⟩ := hrows t' ht'
  rw [hrub]
  exact h t ht (hgold'.symm.trans hgold) (hk' ▸ hk) g hg (hgt.trans hid)

theorem OneVersion.update {tasks : Table Task} {grades : Table Grade} (h : OneVersion tasks grades)
    {k : Uuid} (f : Task → Task) (hf : Table.Keeps f)
    (hrub : ∀ t, (f t).rubricId = t.rubricId)
    (hkind : ∀ t, (f t).isAttentionCheck = t.isAttentionCheck ∧
      (f t).requiredGrades = t.requiredGrades) : OneVersion (tasks.update k f hf) grades := by
  refine h.of_rows (fun t' ht' => ?_)
  obtain ⟨t, ht, rfl⟩ := (Table.mem_update hf).mp ht'
  refine ⟨t, ht, ?_⟩
  split_ifs
  · exact ⟨hf.pk_eq t, hrub t, hkind t⟩
  · exact ⟨rfl, rfl, rfl, rfl⟩

theorem OneVersion.reclaimed (h : OneVersion db.tasks db.grades) :
    OneVersion (reclaimExpired r.env db).1.tasks db.grades := by
  refine h.of_rows (fun t' ht' => ?_)
  obtain ⟨t, ht, rfl⟩ := (Table.mem_updateWhere (f := Task.reclaimed) (fun _ => rfl)).mp ht'
  refine ⟨t, ht, ?_⟩
  split_ifs <;> exact ⟨rfl, rfl, rfl, rfl⟩

theorem Task.reviewed_rubricId (t : Task) (d : ReviewDecision) :
    (t.reviewed d).rubricId = t.rubricId := by
  unfold Task.reviewed
  split_ifs <;> rfl

/-- Publishing moves a task of several graders only while it has no grade. -/
theorem OneVersion.published (hc : Consistent db) (h : OneVersion db.tasks db.grades)
    (previousId newId : Uuid) :
    OneVersion (db.tasks.updateWhere (Task.untouchedOn previousId) (Task.retargeted newId))
      db.grades := by
  intro t' ht' hgold hk g hg hgt
  obtain ⟨t, ht, rfl⟩ := (Table.mem_updateWhere (f := Task.retargeted newId) (fun _ => rfl)).mp ht'
  split_ifs at hgold hk hgt ⊢ with hon
  · have hn : t.gradesReceived = 0 := by
      simp only [Task.untouchedOn, Bool.and_eq_true, decide_eq_true_eq] at hon
      exact hon.2
    have hlen := (hc.phase t ht).received hgold hk
    rw [hn] at hlen
    have hnil : gradesOf db t.id = [] := List.length_eq_zero_iff.mp hlen.symm
    exact absurd (hnil ▸ mem_gradesOf.mpr ⟨hg, hgt⟩) (by simp)
  · exact h t ht hgold hk g hg hgt

/-- A request keeps one version per task of several graders, when an assigned task is
pinned to the version it points to. -/
theorem TaskStep.oneVersion (hstep : TaskStep r db x w) (hc : Consistent db)
    (hpin : ∀ t ∈ db.tasks, t.status = .assigned → t.pinnedRubricId = some t.rubricId)
    (h : OneVersion db.tasks db.grades) : OneVersion w.tasks w.grades := by
  cases hstep with
  | kept | created => exact h
  | published => exact h.published hc _ _
  | queued hop hv hcurrent hexpected hrub hi =>
    intro t ht hgold hk g hg hgt
    -- a new task has no grades
    rcases (Table.mem_insertAll hi).mp ht with ht | ht
    · exact h t ht hgold hk g hg hgt
    · obtain ⟨t₀, ht₀, he⟩ := hc.gradeTask g hg
      exact absurd (he.trans hgt) (Table.insertAll_fresh hi ht₀ ht)
  | reclaimed => exact h.reclaimed
  | @claimed e =>
    exact h.reclaimed.update (Task.assignTo r.env e.id) (fun _ => rfl) (fun _ => rfl)
      (fun _ => ⟨rfl, rfl⟩)
  | released =>
    exact h.update Task.unassigned (fun _ => rfl) (fun _ => rfl) (fun _ => ⟨rfl, rfl⟩)
  | reviewed =>
    exact h.update _ (Task.reviewed_keeps _) (fun t => t.reviewed_rubricId _)
      (fun t => t.reviewed_fields _)
  | resolved => exact h.update _ (Task.withStatus_keeps _) (fun _ => rfl) (fun _ => ⟨rfl, rfl⟩)
  | @graded e task grade grades body f hf hop ht hs hh htask hexpert hrubric hi hcount =>
    have hf' (t : Task) :
        (f t).rubricId = t.rubricId ∧ (f t).isAttentionCheck = t.isAttentionCheck ∧
        (f t).requiredGrades = t.requiredGrades := by
      rcases hcount with rfl | rfl <;> exact ⟨rfl, rfl, rfl⟩
    have hold : OneVersion (db.tasks.update task.id f hf) db.grades :=
      h.update f hf (fun t => (hf' t).1) (fun t => (hf' t).2)
    intro t ht' hgold hk g hg hgt
    -- the new grade is on the rubric its assigned task is pinned to
    rcases (Table.mem_insert hi).mp hg with hg | rfl
    · exact hold t ht' hgold hk g hg hgt
    · rcases (Table.mem_update_of_get hf ht).mp ht' with rfl | ⟨_, hne⟩
      · rw [hrubric, Task.gradingRubricId, hpin task (Table.get_mem ht) hs, (hf' task).1,
          Option.getD_some]
      · exact absurd (hgt.symm.trans htask) hne

end Steps

/-! ### Leases over a run -/

section Leases
variable {rs : List Request}

theorem after_concat (rs : List Request) (r : Request) :
    after (rs ++ [r]) = commit step r (after rs) := run_concat step .empty rs r

/-- A row the next request leaves as it is stays held. -/
theorem Claim.concat {earlier lease : List Request} {c r : Request} {e : Uuid} {t : Task}
    (h : Claim earlier c lease e t)
    (hget : (after (earlier ++ c :: lease ++ [r])).tasks.get t.id = some t) :
    Claim earlier c (lease ++ [r]) e t := by
  refine ⟨h.op, h.expert, h.answer, h.holder, h.pinned, fun m m' he => ?_⟩
  rcases m'.eq_nil_or_concat' with rfl | ⟨m', y, rfl⟩
  · rw [List.append_nil] at he
    rw [← he, ← List.cons_append, ← List.append_assoc]
    exact hget
  · rw [← List.append_assoc] at he
    exact h.held m m' (List.append_inj_left' he rfl)

/-- Every assigned task is held under a claim of the run. -/
theorem held_under_claim (rs : List Request) :
    ∀ t ∈ (after rs).tasks, t.status = .assigned →
      ∃ earlier c lease e, rs = earlier ++ c :: lease ∧ Claim earlier c lease e t := by
  induction rs using List.reverseRecOn with
  | nil => exact fun t ht => absurd ht (Table.not_mem_empty t)
  | append_singleton rs r ih =>
    intro t ht hs
    have hget := Table.get_of_mem _ ht
    -- a lease that goes on
    have hextend (hmem : t ∈ (after rs).tasks) : ∃ earlier c lease e,
        rs ++ [r] = earlier ++ c :: lease ∧ Claim earlier c lease e t := by
      obtain ⟨earlier, c, lease, e, rfl, hclaim⟩ := ih t hmem hs
      exact ⟨earlier, c, lease ++ [r], e, by simp, hclaim.concat hget⟩
    rw [after_concat] at ht hget
    rcases commit_cases step r (after rs) with ⟨x, hstep⟩ | ⟨_, hsame⟩
    · rcases (step_tasks hstep).assigned ht hs with hold | ⟨e, hop, hx, rfl, hh, hp⟩
      · exact hextend (Table.get_mem hold)
      · refine ⟨rs, r, [], e, rfl, hop, hx, ⟨_, hstep⟩, hh, hp, fun m m' he => ?_⟩
        obtain ⟨rfl, rfl⟩ := List.nil_eq_append_iff.mp he
        rw [after_concat]
        exact hget
    · rw [hsame] at ht
      exact hextend ht

theorem assigned_pinned (rs : List Request) :
    ∀ t ∈ (after rs).tasks, t.status = .assigned → t.pinnedRubricId = some t.rubricId := by
  intro t ht hs
  obtain ⟨_, _, _, _, _, hclaim⟩ := held_under_claim rs t ht hs
  exact hclaim.pinned

theorem oneVersion_after (rs : List Request) :
    OneVersion (after rs).tasks (after rs).grades := by
  induction rs using List.reverseRecOn with
  | nil => exact fun t ht => absurd ht (Table.not_mem_empty t)
  | append_singleton rs r ih =>
    rw [after_concat]
    exact commit_preserves step (P := fun db => OneVersion db.tasks db.grades) ih (fun db' x h =>
      (step_tasks h).oneVersion (Consistent.after rs) (assigned_pinned rs) ih)

theorem GradedAsShown.concat {g : Grade} (h : GradedAsShown rs g) (r : Request) :
    GradedAsShown (rs ++ [r]) g := by
  obtain ⟨earlier, c, lease, s, later, t, rfl, hrest⟩ := h
  exact ⟨earlier, c, lease, s, later ++ [r], t, by simp, hrest⟩

/-- A new grade is by the holder of its task, against the pinned version. -/
theorem TaskStep.newGrade {r : Request} {db : Db} {x : Response} {w : Work}
    (hstep : TaskStep r db x w) {g : Grade} (hg : g ∈ w.grades) :
    g ∈ db.grades ∨ x = .grade g ∧ (∃ body, r.op = .submit g.expertId body) ∧
      ∃ t ∈ db.tasks, t.id = g.taskId ∧ t.status = .assigned ∧
        t.assignedExpertId = some g.expertId ∧ g.rubricId = t.gradingRubricId := by
  cases hstep with
  | graded hop ht hs hh htask hexpert hrubric hi hcount =>
    rcases (Table.mem_insert hi).mp hg with hg | rfl
    · exact Or.inl hg
    · exact Or.inr ⟨rfl, ⟨_, hexpert ▸ hop⟩, _, Table.get_mem ht, htask.symm, hs, hexpert ▸ hh,
        hrubric⟩
  | _ => exact Or.inl hg

end Leases

/-- In every run each grade ends the lease of a claim whose answer showed the version
the grade carries, and the grades of a regular task of several graders carry one version. -/
theorem grades_follow_pins (rs : List Request) :
    (∀ g ∈ (after rs).grades, GradedAsShown rs g) ∧
      ∀ t ∈ (after rs).tasks, t.isAttentionCheck = false → 2 ≤ t.requiredGrades →
        ∀ g ∈ gradesOf (after rs) t.id, ∀ g' ∈ gradesOf (after rs) t.id,
          g.rubricId = g'.rubricId := by
  constructor
  -- a grade is new, and ends the lease of its author, or it is an old one
  · induction rs using List.reverseRecOn with
    | nil => exact fun g hg => absurd hg (Table.not_mem_empty g)
    | append_singleton rs r ih =>
      intro g hg
      rw [after_concat] at hg
      rcases commit_cases step r (after rs) with ⟨x, hstep⟩ | ⟨_, hsame⟩
      · rcases (step_tasks hstep).newGrade hg with hg | ⟨rfl, hop, t, ht, hid, hs, hh, hrub⟩
        · exact (ih g hg).concat r
        · obtain ⟨earlier, c, lease, e, rfl, hclaim⟩ := held_under_claim rs t ht hs
          obtain rfl := Option.some.inj (hclaim.holder.symm.trans hh)
          refine ⟨earlier, c, lease, r, [], t, rfl, hclaim, hid, ?_, hop, _, hstep⟩
          rw [hrub, Task.gradingRubricId, hclaim.pinned, Option.getD_some]
      · rw [hsame] at hg
        exact (ih g hg).concat r
  · intro t ht hgold hk g hg g' hg'
    have hone := oneVersion_after rs t ht hgold hk
    obtain ⟨hmem, hid⟩ := mem_gradesOf.mp hg
    obtain ⟨hmem', hid'⟩ := mem_gradesOf.mp hg'
    exact (hone g hmem hid).trans (hone g' hmem' hid').symm

end Panelist
