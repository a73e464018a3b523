import Panelist.Lifecycle

/-! The delivery export against the approved tasks: every approved task is either
exported by one row or counted as undelivered. -/
namespace Panelist
open Relational

/-- A grade the export has a row for, with its task. -/
structure Exportable (db : Db) (t : Task) (g : Grade) : Prop where
  regular : t.isAttentionCheck = false
  mem : g ∈ gradesOf db t.id
  approved : decision db g.id = some .approve
  picked : ∀ c, db.consensus.get t.id = some c → c.deliveredGradeId = some g.id

/-- The task ids of the exported rows, one entry per row. -/
def exportedTasks (db : Db) : List Uuid := (deliveredRows db).map (fun row => row.task.id)

section Rows
variable {db : Db} {t : Task} {g : Grade}

theorem deliveredRow_eq_some {row : Delivered} :
    deliveredRow db g = some row ↔ decision db g.id = some .approve ∧
      db.tasks.get g.taskId = some row.task ∧ row.task.isAttentionCheck = false ∧
      (∀ c, db.consensus.get row.task.id = some c → c.deliveredGradeId = some g.id) ∧
      row = ⟨g, row.task, db.consensus.get row.task.id⟩ := by
  unfold deliveredRow decision
  cases hv : db.reviews.get g.id with
  | none => simp
  | some v =>
    cases ht : db.tasks.get g.taskId with
    | none => simp
    | some task =>
      simp only [Option.map_some, Option.some.injEq, Option.mem_def]
      -- the conditions of the `WHERE`
      split_ifs with hc
      · obtain ⟨hd, hg, hp⟩ := hc
        refine ⟨fun he => ?_, fun he => ?_⟩
        · obtain rfl := Option.some.inj he
          exact ⟨hd, rfl, hg, hp, rfl⟩
        · obtain ⟨_, htask, _, _, he⟩ := he
          rw [he, htask]
      · refine ⟨fun he => absurd he (by simp), fun he => absurd ?_ hc⟩
        obtain ⟨hd, htask, hg, hp, _⟩ := he
        rw [htask]
        exact ⟨hd, hg, hp⟩

theorem mem_deliveredRows {row : Delivered} :
    row ∈ deliveredRows db ↔ ∃ g ∈ db.grades, deliveredRow db g = some row := by
  rw [deliveredRows, List.mem_insertionSort, List.mem_filterMap]
  exact Iff.rfl

/-- The rows of the export are the exportable grades of stored tasks. -/
theorem delivered_exportable {row : Delivered} (h : row ∈ deliveredRows db) :
    row.task ∈ db.tasks ∧ Exportable db row.task row.grade ∧
      row.round = db.consensus.get row.task.id := by
  obtain ⟨g, hg, he⟩ := mem_deliveredRows.mp h
  obtain ⟨hd, ht, hgold, hp, hrow⟩ := deliveredRow_eq_some.mp he
  have hgrade : row.grade = g := by rw [hrow]
  refine ⟨Table.get_mem ht, ⟨hgold, ?_, ?_, ?_⟩, by rw [hrow]⟩
  · rw [hgrade, mem_gradesOf]
    exact ⟨hg, (Table.get_pk ht).symm⟩
  · rw [hgrade]
    exact hd
  · rw [hgrade]
    exact hp

theorem mem_exportedTasks (ht : t ∈ db.tasks) :
    t.id ∈ exportedTasks db ↔ ∃ g, Exportable db t g := by
  rw [exportedTasks, List.mem_map]
  constructor
  · rintro ⟨row, hrow, he⟩
    obtain ⟨hmem, hexp, _⟩ := delivered_exportable hrow
    obtain rfl := db.tasks.eq_of_pk hmem ht he
    exact ⟨row.grade, hexp⟩
  · rintro ⟨g, hexp⟩
    obtain ⟨hg, htask⟩ := mem_gradesOf.mp hexp.mem
    refine ⟨⟨g, t, db.consensus.get t.id⟩, mem_deliveredRows.mpr ⟨g, hg, ?_⟩, rfl⟩
    refine deliveredRow_eq_some.mpr ⟨hexp.approved, ?_, hexp.regular, hexp.picked, rfl⟩
    rw [htask]
    exact db.tasks.get_of_mem ht

/-- The tasks the operator report counts as approved but undelivered. -/
theorem mem_undeliveredApproved :
    t ∈ undeliveredApproved db ↔ t ∈ db.tasks ∧ t.status = .approved ∧
      t.isAttentionCheck = false ∧ ∃ c, db.consensus.get t.id = some c ∧
        ∀ d, c.deliveredGradeId = some d → decision db d ≠ some .approve := by
  -- the pick is looked up by the review of its grade
  have hpick (c : Consensus) : approvedPick db c = false ↔
      ∀ d, c.deliveredGradeId = some d → decision db d ≠ some .approve := by
    simp only [approvedPick, List.any_eq_false, decide_eq_true_eq, not_and]
    constructor
    · intro h d hd he
      obtain ⟨v, hv, hva⟩ := Option.map_eq_some_iff.mp he
      refine h v (Table.get_mem hv) ?_ hva
      rw [hd, ← Table.get_pk hv]
      rfl
    · intro h v hv hd ha
      refine h v.gradeId hd ?_
      have hget : db.reviews.get v.gradeId = some v := db.reviews.get_of_mem hv
      rw [decision, hget, Option.map_some, ha]
  rw [undeliveredApproved, List.mem_filter, Table.mem_rows]
  cases db.consensus.get t.id with
  | none => simp
  | some c => simp [← hpick, and_assoc]

end Rows

section Consistency
variable {db : Db} {t : Task} {g g' : Grade}

theorem Exportable.unique (h : Consistent db) (ht : t ∈ db.tasks) (hg : Exportable db t g)
    (hg' : Exportable db t g') : g = g' := by
  obtain ⟨hmem, _⟩ := mem_gradesOf.mp hg.mem
  obtain ⟨hmem', _⟩ := mem_gradesOf.mp hg'.mem
  refine db.grades.eq_of_pk hmem hmem' ?_
  have hphase := h.phase t ht
  cases hround : db.consensus.get t.id with
  -- the round has picked one grade
  | some c => exact Option.some.inj ((hg.picked c hround).symm.trans (hg'.picked c hround))
  | none =>
    rw [hround] at hphase
    -- without a round at most one grade is not rejected
    have hself {x : Grade} (hx : Exportable db t x) (y : Grade)
        (hy : x.id ≠ y.id → decision db x.id = some .reject) : x.id = y.id := by
      by_contra hne
      exact absurd (hx.approved.symm.trans (hy hne)) (by simp)
    cases hphase with
    | golden hgold => exact absurd (hg.regular.symm.trans hgold) (by decide)
    | awaiting _ _ _ _ hd => exact absurd (hg.approved.symm.trans (hd g hg.mem)) (by simp)
    | @submitted x _ _ _ _ hx hd hrest =>
      exact (hself hg x (hrest g hg.mem)).trans (hself hg' x (hrest g' hg'.mem)).symm
    | @approved x _ _ _ _ hx hd hrest =>
      exact (hself hg x (hrest g hg.mem)).trans (hself hg' x (hrest g' hg'.mem)).symm
    | collecting _ _ _ _ _ hd => exact absurd (hg.approved.symm.trans (hd g hg.mem)) (by simp)

/-- One exportable grade for each task makes one row for each task. -/
theorem exportedTasks_nodup_of_unique (h : ∀ t ∈ db.tasks, ∀ g g', Exportable db t g →
    Exportable db t g' → g = g') : (exportedTasks db).Nodup := by
  have hperm : (exportedTasks db).Perm
      ((db.grades.rows.filterMap (deliveredRow db)).map (fun row => row.task.id)) :=
    (List.perm_insertionSort _ _).map _
  rw [hperm.nodup_iff, List.nodup_iff_pairwise_ne, List.pairwise_map, List.pairwise_filterMap]
  refine List.Pairwise.imp_of_mem (fun {a b} ha hb hne row hrow row' hrow' he => hne ?_)
    db.grades.nodup
  have hr : row ∈ deliveredRows db := mem_deliveredRows.mpr ⟨a, ha, hrow⟩
  have hr' : row' ∈ deliveredRows db := mem_deliveredRows.mpr ⟨b, hb, hrow'⟩
  obtain ⟨ht, hexp, _⟩ := delivered_exportable hr
  obtain ⟨ht', hexp', _⟩ := delivered_exportable hr'
  rw [db.tasks.eq_of_pk ht' ht he.symm] at hexp'
  have hgrades := h _ ht _ _ hexp hexp'
  rwa [(deliveredRow_eq_some.mp hrow).2.2.2.2, (deliveredRow_eq_some.mp hrow').2.2.2.2] at hgrades

theorem exportedTasks_nodup (h : Consistent db) : (exportedTasks db).Nodup :=
  exportedTasks_nodup_of_unique (fun _ ht _ _ hg hg' => hg.unique h ht hg')

/-- A non-golden task with an approved grade is approved. -/
theorem status_of_approved (h : Consistent db) (ht : t ∈ db.tasks)
    (hgold : t.isAttentionCheck = false) (hg : g ∈ gradesOf db t.id)
    (ha : decision db g.id = some .approve) : t.status = .approved := by
  have hphase := h.phase t ht
  generalize db.consensus.get t.id = round at hphase
  cases hphase with
  | golden he => exact absurd (he.symm.trans hgold) (by decide)
  | awaiting _ _ _ _ hd => exact absurd (ha.symm.trans (hd g hg)) (by simp)
  | @submitted x _ _ _ _ hmem hd hrest =>
    by_cases hx : g.id = x.id
    · exact absurd (ha.symm.trans (hx ▸ hd)) (by simp)
    · exact absurd (ha.symm.trans (hrest g hg hx)) (by simp)
  | approved _ _ hs => exact hs
  | collecting _ _ _ _ _ hd => exact absurd (ha.symm.trans (hd g hg)) (by simp)
  | adjudicating _ _ _ _ _ _ _ hd => exact absurd (ha.symm.trans (hd g hg)) (by simp)
  | adjudicated _ _ _ _ _ _ hs => exact hs
  | agreed _ _ _ _ _ _ hs => exact hs.trans (if_pos ⟨g, hg, ha⟩)

/-- What can stand between an approved task and its export: an unreviewed pick. -/
theorem approved_iff (h : Consistent db) (ht : t ∈ db.tasks) (hgold : t.isAttentionCheck = false) :
    t.status = .approved ↔ (∃ g, Exportable db t g) ∨ t ∈ undeliveredApproved db := by
  have hphase := h.phase t ht
  constructor
  · intro hs
    generalize hround : db.consensus.get t.id = round at hphase
    have hopen (hopen : t.isOpen) : False := by
      rcases hopen with he | he <;> exact absurd (he.symm.trans hs) (by decide)
    cases hphase with
    | golden hg => exact absurd (hg.symm.trans hgold) (by decide)
    | awaiting _ _ he => exact (hopen he).elim
    | submitted _ _ he => exact absurd (he.symm.trans hs) (by decide)
    | @approved g _ _ _ _ hmem hd =>
      exact Or.inl ⟨g, hgold, hmem, hd, fun c hc => absurd (hround.symm.trans hc) (by simp)⟩
    | collecting _ _ he => exact (hopen he).elim
    | adjudicating _ _ _ _ _ _ he => exact absurd (he.symm.trans hs) (by decide)
    | @adjudicated c d _ _ _ _ _ _ _ hmem hp hd =>
      refine Or.inl ⟨d, hgold, hmem, (hd d hmem).trans (by simp), fun c' hc => ?_⟩
      rw [← Option.some.inj (hround.symm.trans hc)]
      exact hp
    -- an agreed round: the export and the operators' count split on the verdict of its pick
    | @agreed c _ _ _ _ _ _ _ hp =>
      by_cases hpicked : ∃ d, c.deliveredGradeId = some d ∧ decision db d = some .approve
      · obtain ⟨d, hd, ha⟩ := hpicked
        rw [hd] at hp
        obtain ⟨⟨g, hmem, rfl⟩, _⟩ := hp
        refine Or.inl ⟨g, hgold, hmem, ha, fun c' hc => ?_⟩
        rw [← Option.some.inj (hround.symm.trans hc)]
        exact hd
      · exact Or.inr (mem_undeliveredApproved.mpr ⟨ht, hs, hgold, c, hround,
          fun d hd ha => hpicked ⟨d, hd, ha⟩⟩)
  · rintro (⟨g, hexp⟩ | hund)
    · exact status_of_approved h ht hgold hexp.mem hexp.approved
    · exact (mem_undeliveredApproved.mp hund).2.1

/-- An undelivered approved task still waits for a review. -/
theorem undelivered_unreviewed (h : Consistent db) (ht : t ∈ undeliveredApproved db) :
    ∃ g ∈ gradesOf db t.id, db.reviews.get g.id = none := by
  obtain ⟨hmem, hs, hgold, c, hround, hpick⟩ := mem_undeliveredApproved.mp ht
  have hphase := h.phase t hmem
  rw [hround] at hphase
  cases hphase with
  | adjudicating _ _ _ _ _ _ he => exact absurd (he.symm.trans hs) (by decide)
  | @adjudicated c d _ _ _ _ _ _ _ hd hp hdec =>
    exact absurd ((hdec d hd).trans (by simp)) (hpick d.id hp)
  | agreed _ _ _ _ _ _ he hp =>
    have happroved : ∃ g ∈ gradesOf db t.id, decision db g.id = some .approve := by
      by_contra hn
      rw [hs, settled, if_neg hn] at he
      split_ifs at he
    -- without a pick every grade is rejected, against the approved one
    cases hd : c.deliveredGradeId with
    | none =>
      rw [hd] at hp
      obtain ⟨g, hg, ha⟩ := happroved
      exact absurd ((hp g hg).symm.trans ha) (by simp)
    | some d =>
      rw [hd] at hp
      obtain ⟨⟨g, hg, rfl⟩, hr⟩ := hp
      -- the pick is neither approved nor rejected, so nobody has reviewed it
      refine ⟨g, hg, ?_⟩
      cases hv : db.reviews.get g.id with
      | none => rfl
      | some v =>
        have hdec : decision db g.id = some v.decision := by rw [decision, hv, Option.map_some]
        have hna := hpick g.id hd
        rw [hdec] at hr hna
        cases hvd : v.decision <;> simp [hvd] at hr hna

end Consistency

/-- The export accounts for the approved tasks. -/
structure ExportAccounts (db : Db) : Prop where
  onePerTask : (exportedTasks db).Nodup
  approvedOnly : ∀ row ∈ deliveredRows db,
    row.task.isAttentionCheck = false ∧ decision db row.grade.id = some .approve
  pick : ∀ c ∈ db.consensus, c.status = .agreed →
    ∀ d, c.deliveredGradeId = some d → decision db d ≠ some .reject
  union : ∀ t ∈ db.tasks, t.isAttentionCheck = false ∧ t.status = .approved ↔
    (exportedTasks db).count t.id = 1 ∨ t ∈ undeliveredApproved db
  disjoint : ∀ t ∈ undeliveredApproved db, t.id ∉ exportedTasks db
  undelivered : ∀ t ∈ undeliveredApproved db, t ∈ db.tasks ∧
    ∃ g ∈ gradesOf db t.id, db.reviews.get g.id = none
  reviewed : ∀ t ∈ db.tasks, t.isAttentionCheck = false → t.requiredGrades ≤ t.gradesReceived →
    (∀ g ∈ gradesOf db t.id, (db.reviews.get g.id).isSome) →
    (exportedTasks db).count t.id =
      if ∃ g ∈ gradesOf db t.id, decision db g.id = some .approve then 1 else 0

section Accounting
variable {db : Db} {t : Task}

theorem agreed_pick (h : Consistent db) {c : Consensus} (hc : c ∈ db.consensus)
    (hs : c.status = .agreed) {d : Uuid} (hd : c.deliveredGradeId = some d) :
    decision db d ≠ some .reject := by
  obtain ⟨t, ht, he⟩ := h.roundTask c hc
  have hround : db.consensus.get t.id = some c := db.consensus.get_eq_some.mpr ⟨hc, he.symm⟩
  have hphase := h.phase t ht
  rw [hround] at hphase
  cases hphase with
  | adjudicating _ _ _ _ hst => exact absurd (hst.symm.trans hs) (by decide)
  | adjudicated _ _ _ _ hst => exact absurd (hst.symm.trans hs) (by decide)
  | agreed _ _ _ _ _ _ _ hp =>
    rw [hd] at hp
    exact hp.2

theorem exported_count (h : Consistent db) (ht : t ∈ db.tasks) :
    (exportedTasks db).count t.id = 1 ↔ ∃ g, Exportable db t g := by
  rw [← mem_exportedTasks ht]
  constructor
  · intro hc
    exact List.count_pos_iff.mp (by omega)
  · exact List.count_eq_one_of_mem (exportedTasks_nodup h)

theorem undelivered_not_exported (ht : t ∈ undeliveredApproved db) :
    t.id ∉ exportedTasks db := by
  obtain ⟨hmem, _, _, c, hround, hpick⟩ := mem_undeliveredApproved.mp ht
  intro hexp
  obtain ⟨g, hg⟩ := (mem_exportedTasks hmem).mp hexp
  exact hpick g.id (hg.picked c hround) hg.approved

/-- A fully reviewed task is exported once, or not at all when nothing was approved. -/
theorem reviewed_count (h : Consistent db) (ht : t ∈ db.tasks)
    (hgold : t.isAttentionCheck = false)
    (hall : ∀ g ∈ gradesOf db t.id, (db.reviews.get g.id).isSome) :
    (exportedTasks db).count t.id =
      if ∃ g ∈ gradesOf db t.id, decision db g.id = some .approve then 1 else 0 := by
  split_ifs with happ
  · obtain ⟨g, hg, ha⟩ := happ
    have hs := status_of_approved h ht hgold hg ha
    rcases (approved_iff h ht hgold).mp hs with hexp | hund
    · exact (exported_count h ht).mpr hexp
    · obtain ⟨x, hx, hnone⟩ := undelivered_unreviewed h hund
      exact absurd (hall x hx) (by simp [hnone])
  · rw [List.count_eq_zero]
    intro hexp
    obtain ⟨g, hg⟩ := (mem_exportedTasks ht).mp hexp
    exact happ ⟨g, hg.mem, hg.approved⟩

end Accounting

/-- In every reachable state the export accounts for every approved task. -/
theorem export_accounts (rs : List Request) : ExportAccounts (after rs) := by
  have h := Consistent.after rs
  refine ⟨exportedTasks_nodup h, fun row hrow => ?_, fun c hc hs d hd => agreed_pick h hc hs hd,
    fun t ht => ?_, fun t ht => undelivered_not_exported ht, fun t ht => ?_,
    fun t ht hgold _ hall => reviewed_count h ht hgold hall⟩
  · obtain ⟨_, hexp, _⟩ := delivered_exportable hrow
    exact ⟨hexp.regular, hexp.approved⟩
  -- a task is exported once if it is approved and delivered, and never else
  · rw [exported_count h ht]
    constructor
    · rintro ⟨hgold, hs⟩
      exact (approved_iff h ht hgold).mp hs
    · rintro (⟨g, hg⟩ | hund)
      · exact ⟨hg.regular, status_of_approved h ht hg.regular hg.mem hg.approved⟩
      · obtain ⟨_, hs, hgold, _⟩ := mem_undeliveredApproved.mp hund
        exact ⟨hgold, hs⟩
  · exact ⟨(mem_undeliveredApproved.mp ht).1, undelivered_unreviewed h ht⟩

end Panelist
