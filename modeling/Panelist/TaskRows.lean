import Panelist.Lifecycle

/-! What a task row promises about the task's grades, reviews and round, spelled
out column by column, in every state a run reaches. -/
namespace Panelist
open Relational

/-- A non-golden task for one grader: its status follows the one grade in play. -/
structure SingleGrader (db : Db) (t : Task) : Prop where
  noRound : db.consensus.get t.id = none
  received : t.gradesReceived = (unrejected db t.id).length
  atMostOne : (unrejected db t.id).length ≤ 1
  isOpen : t.isOpen ↔ (unrejected db t.id).length = 0
  submitted : t.status = .submitted ↔ ∃ g, unrejected db t.id = [g] ∧ decision db g.id = none
  approved : t.status = .approved ↔
    ∃ g, unrejected db t.id = [g] ∧ decision db g.id = some .approve

/-- The round of a task all of whose grades are in. -/
structure RoundAgrees (db : Db) (t : Task) (c : Consensus) : Prop where
  graders : c.gradeCount = t.requiredGrades
  adjudication : t.status = .adjudication ↔ c.status = .adjudicating
  undecided : c.status = .adjudicating →
    (∀ g ∈ gradesOf db t.id, db.reviews.get g.id = none) ∧ c.deliveredGradeId = none
  submitted : c.status = .agreed →
    (t.status = .submitted ↔ ∀ g ∈ gradesOf db t.id, db.reviews.get g.id = none)
  approved : c.status = .agreed →
    (t.status = .approved ↔ ∃ g ∈ gradesOf db t.id, decision db g.id = some .approve)
  rejected : c.status = .agreed →
    (t.status = .rejected ↔ (∃ g ∈ gradesOf db t.id, decision db g.id = some .reject) ∧
      ∀ g ∈ gradesOf db t.id, decision db g.id ≠ some .approve)
  delivered : c.status = .agreed → ∀ d, c.deliveredGradeId = some d →
    (∃ g ∈ gradesOf db t.id, g.id = d) ∧ decision db d ≠ some .reject
  undelivered : c.status = .agreed → c.deliveredGradeId = none →
    ∀ g ∈ gradesOf db t.id, decision db g.id = some .reject
  adjudicated : c.status = .adjudicated → t.status = .approved ∧
    ∃ d ∈ gradesOf db t.id, c.deliveredGradeId = some d.id ∧
      ∀ g ∈ gradesOf db t.id,
        decision db g.id = some (if g.id = d.id then .approve else .reject)

/-- A non-golden task for several graders: open until the last grade, then
governed by its round. -/
structure SeveralGraders (db : Db) (t : Task) : Prop where
  received : t.gradesReceived = (gradesOf db t.id).length
  atMost : (gradesOf db t.id).length ≤ t.requiredGrades
  isOpen : t.isOpen ↔ (gradesOf db t.id).length < t.requiredGrades
  collecting : (gradesOf db t.id).length < t.requiredGrades →
    (∀ g ∈ gradesOf db t.id, db.reviews.get g.id = none) ∧ db.consensus.get t.id = none
  complete : (gradesOf db t.id).length = t.requiredGrades →
    ∃ c, db.consensus.get t.id = some c ∧ RoundAgrees db t c

/-- The row of a task agrees with its grades, reviews and round. -/
structure RowAgrees (db : Db) (t : Task) : Prop where
  leased : t.status = .assigned ↔
    t.assignedExpertId.isSome ∧ t.assignedAt.isSome ∧ t.leaseExpiresAt.isSome
  unleased : t.status ≠ .assigned →
    t.assignedExpertId = none ∧ t.assignedAt = none ∧ t.leaseExpiresAt = none
  golden : t.isAttentionCheck = true → t.isOpen ∧ db.consensus.get t.id = none
  graders : t.isAttentionCheck = false → 1 ≤ t.requiredGrades
  single : t.isAttentionCheck = false → t.requiredGrades = 1 → SingleGrader db t
  several : t.isAttentionCheck = false → 2 ≤ t.requiredGrades → SeveralGraders db t

section Rows
variable {db : Db} {t : Task}

theorem review_none {k : Uuid} : db.reviews.get k = none ↔ decision db k = none := by
  simp [decision]

theorem mem_unrejected_iff {g : Grade} :
    g ∈ unrejected db t.id ↔ g ∈ gradesOf db t.id ∧ decision db g.id ≠ some .reject := by
  rw [mem_unrejected, mem_gradesOf]

theorem unrejected_nodup (db : Db) (k : Uuid) : (unrejected db k).Nodup :=
  ((gradesFor_perm db k).nodup_iff.mpr (db.grades.nodup.filter _)).filter _

/-- One grade in play, the others rejected. -/
theorem unrejected_singleton {g : Grade} (hmem : g ∈ gradesOf db t.id)
    (hg : decision db g.id ≠ some .reject)
    (hrest : ∀ x ∈ gradesOf db t.id, x.id ≠ g.id → decision db x.id = some .reject) :
    unrejected db t.id = [g] := by
  have hiff (x : Grade) : x ∈ unrejected db t.id ↔ x ∈ [g] := by
    rw [mem_unrejected_iff, List.mem_singleton]
    constructor
    · rintro ⟨hx, hd⟩
      by_contra hne
      refine hd (hrest x hx (fun he => hne ?_))
      exact db.grades.eq_of_pk (mem_gradesOf.mp hx).1 (mem_gradesOf.mp hmem).1 he
    · rintro rfl
      exact ⟨hmem, hg⟩
  exact List.perm_singleton.mp ((List.perm_ext_iff_of_nodup (unrejected_nodup db t.id)
    (List.nodup_singleton g)).mpr hiff)

theorem Task.isOpen_of_eq {s : TaskStatus} (hs : t.status = s) :
    t.isOpen ↔ s = .queued ∨ s = .assigned := by
  rw [Task.isOpen, hs]

theorem Phase.single (h : Phase t (gradesOf db t.id) (decision db) (db.consensus.get t.id))
    (hgold : t.isAttentionCheck = false) (hone : t.requiredGrades = 1) : SingleGrader db t := by
  generalize hround : db.consensus.get t.id = round at h
  cases h with
  | golden hg => exact absurd (hg.symm.trans hgold) (by decide)
  | awaiting hg hk hs hn hd =>
    -- every grade is rejected
    have hnil : unrejected db t.id = [] := by
      rw [List.eq_nil_iff_forall_not_mem]
      exact fun x hx => (mem_unrejected_iff.mp hx).2 (hd x (mem_unrejected_iff.mp hx).1)
    have hopen (s : TaskStatus) (hq : s ≠ .queued) (ha : s ≠ .assigned) : t.status ≠ s := by
      rintro rfl
      exact hs.elim hq ha
    refine ⟨hround, by rw [hn, hnil, List.length_nil], by rw [hnil]; decide, ?_, ?_, ?_⟩
    · rw [hnil]
      exact ⟨fun _ => rfl, fun _ => hs⟩
    · rw [hnil]
      exact ⟨fun he => absurd he (hopen _ (by decide) (by decide)), by simp⟩
    · rw [hnil]
      exact ⟨fun he => absurd he (hopen _ (by decide) (by decide)), by simp⟩
  | @submitted g hg hk hs hn hmem hd hrest =>
    -- one grade is left, without a verdict
    have hone := unrejected_singleton hmem (by simp [hd]) hrest
    refine ⟨hround, by rw [hn, hone, List.length_singleton], by rw [hone]; exact le_rfl, ?_, ?_, ?_⟩
    · rw [Task.isOpen_of_eq hs, hone]
      simp
    · exact ⟨fun _ => ⟨g, hone, hd⟩, fun _ => hs⟩
    · refine ⟨fun he => absurd (hs.symm.trans he) (by decide), ?_⟩
      rintro ⟨x, hx, hxd⟩
      obtain rfl := List.singleton_inj.mp (hone.symm.trans hx)
      exact absurd (hd.symm.trans hxd) (by simp)
  | @approved g hg hk hs hn hmem hd hrest =>
    -- one grade is left, and it is approved
    have hone := unrejected_singleton hmem (by simp [hd]) hrest
    refine ⟨hround, by rw [hn, hone, List.length_singleton], by rw [hone]; exact le_rfl, ?_, ?_, ?_⟩
    · rw [Task.isOpen_of_eq hs, hone]
      simp
    · refine ⟨fun he => absurd (hs.symm.trans he) (by decide), ?_⟩
      rintro ⟨x, hx, hxd⟩
      obtain rfl := List.singleton_inj.mp (hone.symm.trans hx)
      exact absurd (hd.symm.trans hxd) (by simp)
    · exact ⟨fun _ => ⟨g, hone, hd⟩, fun _ => hs⟩
  | collecting _ hk => omega
  | agreed _ hk => omega
  | adjudicating _ hk => omega
  | adjudicated _ hk => omega

theorem settled_eq_submitted {gs : List Grade} {dec : Uuid → Option ReviewDecision} :
    settled gs dec = .submitted ↔ ∀ g ∈ gs, dec g.id = none := by
  refine ⟨fun h g hg => ?_, settled_of_none⟩
  unfold settled at h
  split_ifs at h with ha hr
  cases hd : dec g.id with
  | none => rfl
  | some d =>
    cases d with
    | approve => exact absurd ⟨g, hg, hd⟩ ha
    | reject => exact absurd ⟨g, hg, hd⟩ hr

theorem settled_eq_approved {gs : List Grade} {dec : Uuid → Option ReviewDecision} :
    settled gs dec = .approved ↔ ∃ g ∈ gs, dec g.id = some .approve := by
  unfold settled
  split_ifs with ha hr
  · exact ⟨fun _ => ha, fun _ => rfl⟩
  · exact ⟨fun h => absurd h (by decide), fun h => absurd h ha⟩
  · exact ⟨fun h => absurd h (by decide), fun h => absurd h ha⟩

theorem settled_eq_rejected {gs : List Grade} {dec : Uuid → Option ReviewDecision} :
    settled gs dec = .rejected ↔
      (∃ g ∈ gs, dec g.id = some .reject) ∧ ∀ g ∈ gs, dec g.id ≠ some .approve := by
  have hnone : (∀ g ∈ gs, dec g.id ≠ some .approve) ↔ ¬ ∃ g ∈ gs, dec g.id = some .approve := by
    simp
  rw [hnone]
  unfold settled
  split_ifs with ha hr
  · exact ⟨fun h => absurd h (by decide), fun h => absurd ha h.2⟩
  · exact ⟨fun _ => ⟨hr, ha⟩, fun _ => rfl⟩
  · exact ⟨fun h => absurd h (by decide), fun h => absurd h.1 hr⟩

theorem Phase.several (h : Phase t (gradesOf db t.id) (decision db) (db.consensus.get t.id))
    (hgold : t.isAttentionCheck = false) (htwo : 2 ≤ t.requiredGrades) : SeveralGraders db t := by
  generalize hround : db.consensus.get t.id = round at h
  have hclosed {n : ℕ} (hfull : n = t.requiredGrades) (hs : ¬ t.isOpen) :
      t.isOpen ↔ n < t.requiredGrades := ⟨fun he => absurd he hs, fun hlt => by omega⟩
  cases h with
  | golden hg => exact absurd (hg.symm.trans hgold) (by decide)
  -- the phases of one-grader tasks
  | awaiting _ hk => omega
  | submitted _ hk => omega
  | approved _ hk => omega
  | collecting hg hk hs hn hlt hd =>
    exact ⟨hn, by omega, ⟨fun _ => hlt, fun _ => hs⟩,
      fun _ => ⟨fun g hg => review_none.mpr (hd g hg), hround⟩, fun he => by omega⟩
  | @agreed c hg hk hn hfull hc hcount hs hp =>
    -- the status of an agreed task is settled by its verdicts
    obtain ⟨hq, ha, hadj⟩ := settled_ne_open (gradesOf db t.id) (decision db)
    have hstatus (s : ConsensusStatus) (hne : s ≠ .agreed) : c.status ≠ s := fun he =>
      hne (he.symm.trans hc)
    refine ⟨hn, hfull.le, hclosed hfull ?_, fun hlt => absurd hlt (by omega), fun _ =>
      ⟨c, hround, hcount, ?_, ?_, fun _ => ?_, fun _ => ?_, fun _ => ?_, fun _ d hd => ?_,
        fun _ hd => ?_, ?_⟩⟩
    · rw [Task.isOpen_of_eq hs]
      simp [hq, ha]
    · rw [hs]
      exact ⟨fun he => absurd he hadj, fun he => absurd he (hstatus _ (by decide))⟩
    · exact fun he => absurd he (hstatus _ (by decide))
    · simp only [hs, settled_eq_submitted, review_none]
    · rw [hs, settled_eq_approved]
    · rw [hs, settled_eq_rejected]
    · rw [hd] at hp
      exact hp
    · rw [hd] at hp
      exact hp
    · exact fun he => absurd he (hstatus _ (by decide))
  -- no grade of an open adjudication has a verdict
  | @adjudicating c hg hk hn hfull hc hcount hs hd hp =>
    have hstatus (s : ConsensusStatus) (hne : s ≠ .adjudicating) : c.status ≠ s := fun he =>
      hne (he.symm.trans hc)
    have hagreed := hstatus .agreed (by decide)
    refine ⟨hn, hfull.le, hclosed hfull ?_, fun hlt => absurd hlt (by omega), fun _ =>
      ⟨c, hround, hcount, ⟨fun _ => hc, fun _ => hs⟩,
        fun _ => ⟨fun g hg => review_none.mpr (hd g hg), hp⟩, fun he => absurd he hagreed,
        fun he => absurd he hagreed, fun he => absurd he hagreed, fun he => absurd he hagreed,
        fun he => absurd he hagreed, fun he => absurd he (hstatus _ (by decide))⟩⟩
    rw [Task.isOpen_of_eq hs]
    decide
  | @adjudicated c d hg hk hn hfull hc hcount hs hmem hp hd =>
    have hstatus (s : ConsensusStatus) (hne : s ≠ .adjudicated) : c.status ≠ s := fun he =>
      hne (he.symm.trans hc)
    have hagreed := hstatus .agreed (by decide)
    have hadj := hstatus .adjudicating (by decide)
    refine ⟨hn, hfull.le, hclosed hfull ?_, fun hlt => absurd hlt (by omega), fun _ =>
      ⟨c, hround, hcount, ⟨fun he => absurd (hs.symm.trans he) (by decide),
        fun he => absurd he hadj⟩, fun he => absurd he hadj, fun he => absurd he hagreed,
        fun he => absurd he hagreed, fun he => absurd he hagreed, fun he => absurd he hagreed,
        fun he => absurd he hagreed, fun _ => ⟨hs, d, hmem, hp, hd⟩⟩⟩
    rw [Task.isOpen_of_eq hs]
    decide

end Rows

/-- In every reachable state every task row agrees with the task's grades, their
reviews and its round. -/
theorem task_rows_agree (rs : List Request) {t : Task} (ht : t ∈ (after rs).tasks) :
    RowAgrees (after rs) t := by
  have h := Consistent.after rs
  have hlease := h.lease t ht
  have hphase := h.phase t ht
  refine ⟨⟨hlease.held, fun hheld => ?_⟩, hlease.free, fun hg => ?_, fun hg => ?_,
    hphase.single, hphase.several⟩
  -- a row with a holder is assigned: the other way round the lease columns are empty
  · by_contra hs
    rw [(hlease.free hs).1] at hheld
    exact absurd hheld.1 (by simp)
  · generalize (after rs).consensus.get t.id = round at hphase
    cases hphase with
    | golden _ hs => exact ⟨hs, rfl⟩
    | awaiting hf => exact absurd (hf.symm.trans hg) (by decide)
    | submitted hf => exact absurd (hf.symm.trans hg) (by decide)
    | approved hf => exact absurd (hf.symm.trans hg) (by decide)
    | collecting hf => exact absurd (hf.symm.trans hg) (by decide)
    | agreed hf => exact absurd (hf.symm.trans hg) (by decide)
    | adjudicating hf => exact absurd (hf.symm.trans hg) (by decide)
    | adjudicated hf => exact absurd (hf.symm.trans hg) (by decide)
  · generalize (after rs).consensus.get t.id = round at hphase
    cases hphase with
    | golden hf => exact absurd (hf.symm.trans hg) (by decide)
    | awaiting _ hk => omega
    | submitted _ hk => omega
    | approved _ hk => omega
    | collecting _ hk => omega
    | agreed _ hk => omega
    | adjudicating _ hk => omega
    | adjudicated _ hk => omega

open Scenario in
/-- A task of two graders whose scores agree, between the round and the reviews. -/
theorem task_rows_agree_pair :
    ∃ t ∈ (after (pair 4 4)).tasks, t.status = .submitted ∧ RowAgrees (after (pair 4 4)) t := by
  have hget : ((after (pair 4 4)).tasks.get 500).map Task.status = some .submitted := by
    decide +kernel
  obtain ⟨t, ht, hs⟩ := Option.map_eq_some_iff.mp hget
  exact ⟨t, Table.get_mem ht, hs, task_rows_agree (pair 4 4) (Table.get_mem ht)⟩

end Panelist
