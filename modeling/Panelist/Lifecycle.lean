import Panelist.Effects

/-! The lifecycle of a task: which combinations of its row, its grades, their
reviews and its round can occur, and that every effect moves between them. -/
namespace Panelist
open Relational Transaction

/-- In the queue or on an expert's desk. -/
def Task.isOpen (t : Task) : Prop := t.status = .queued ∨ t.status = .assigned

/-- A task is assigned to someone, since some time, until some time, or to no one at all. -/
structure Task.LeaseOk (t : Task) : Prop where
  held : t.status = .assigned →
    t.assignedExpertId.isSome ∧ t.assignedAt.isSome ∧ t.leaseExpiresAt.isSome
  free : t.status ≠ .assigned →
    t.assignedExpertId = none ∧ t.assignedAt = none ∧ t.leaseExpiresAt = none

/-- The status of a task with an agreed round: approved once any grade is
approved, rejected once the first decisions were all rejections. -/
def settled (gs : List Grade) (dec : Uuid → Option ReviewDecision) : TaskStatus :=
  if ∃ g ∈ gs, dec g.id = some .approve then .approved
  else if ∃ g ∈ gs, dec g.id = some .reject then .rejected
  else .submitted

/-- An agreed round selects a grade of the task that is not rejected, or none
when there is no such grade. -/
def Deliverable (gs : List Grade) (dec : Uuid → Option ReviewDecision) : Option Uuid → Prop
  | some d => (∃ g ∈ gs, g.id = d) ∧ dec d ≠ some .reject
  | none => ∀ g ∈ gs, dec g.id = some .reject

/-- Where a task is in its life, given its grades in table order, the decisions on
them, and its round. -/
inductive Phase (t : Task) (gs : List Grade) (dec : Uuid → Option ReviewDecision) :
    Option Consensus → Prop
  | golden (hg : t.isAttentionCheck = true) (hs : t.isOpen) : Phase t gs dec none
  | awaiting (hg : t.isAttentionCheck = false) (hk : t.requiredGrades = 1) (hs : t.isOpen)
      (hn : t.gradesReceived = 0) (hd : ∀ g ∈ gs, dec g.id = some .reject) : Phase t gs dec none
  | submitted {g : Grade} (hg : t.isAttentionCheck = false) (hk : t.requiredGrades = 1)
      (hs : t.status = .submitted) (hn : t.gradesReceived = 1) (hmem : g ∈ gs)
      (hd : dec g.id = none) (hrest : ∀ g' ∈ gs, g'.id ≠ g.id → dec g'.id = some .reject) :
      Phase t gs dec none
  | approved {g : Grade} (hg : t.isAttentionCheck = false) (hk : t.requiredGrades = 1)
      (hs : t.status = .approved) (hn : t.gradesReceived = 1) (hmem : g ∈ gs)
      (hd : dec g.id = some .approve)
      (hrest : ∀ g' ∈ gs, g'.id ≠ g.id → dec g'.id = some .reject) : Phase t gs dec none
  | collecting (hg : t.isAttentionCheck = false) (hk : 2 ≤ t.requiredGrades) (hs : t.isOpen)
      (hn : t.gradesReceived = gs.length) (hlt : gs.length < t.requiredGrades)
      (hd : ∀ g ∈ gs, dec g.id = none) : Phase t gs dec none
  | agreed {c : Consensus} (hg : t.isAttentionCheck = false) (hk : 2 ≤ t.requiredGrades)
      (hn : t.gradesReceived = gs.length) (hfull : gs.length = t.requiredGrades)
      (hc : c.status = .agreed) (hcount : c.gradeCount = t.requiredGrades)
      (hs : t.status = settled gs dec) (hp : Deliverable gs dec c.deliveredGradeId) :
      Phase t gs dec (some c)
  | adjudicating {c : Consensus} (hg : t.isAttentionCheck = false) (hk : 2 ≤ t.requiredGrades)
      (hn : t.gradesReceived = gs.length) (hfull : gs.length = t.requiredGrades)
      (hc : c.status = .adjudicating) (hcount : c.gradeCount = t.requiredGrades)
      (hs : t.status = .adjudication) (hd : ∀ g ∈ gs, dec g.id = none)
      (hp : c.deliveredGradeId = none) : Phase t gs dec (some c)
  | adjudicated {c : Consensus} {d : Grade} (hg : t.isAttentionCheck = false)
      (hk : 2 ≤ t.requiredGrades) (hn : t.gradesReceived = gs.length)
      (hfull : gs.length = t.requiredGrades) (hc : c.status = .adjudicated)
      (hcount : c.gradeCount = t.requiredGrades) (hs : t.status = .approved) (hmem : d ∈ gs)
      (hp : c.deliveredGradeId = some d.id)
      (hd : ∀ g ∈ gs, dec g.id = some (if g.id = d.id then .approve else .reject)) :
      Phase t gs dec (some c)

/-- `t'` differs from `t` at most in columns that do not move its phase. -/
structure Task.SameWork (t t' : Task) : Prop where
  golden : t'.isAttentionCheck = t.isAttentionCheck
  required : t'.requiredGrades = t.requiredGrades
  received : t'.gradesReceived = t.gradesReceived
  status : t'.status = t.status ∨ t.isOpen ∧ t'.isOpen

section Phases
variable {t t' : Task} {gs : List Grade} {dec dec' : Uuid → Option ReviewDecision}
  {c : Option Consensus}

theorem Task.SameWork.isOpen (h : t.SameWork t') (ht : t.isOpen) : t'.isOpen := by
  rcases h.status with hs | hs
  · unfold Task.isOpen at ht ⊢
    rwa [hs]
  · exact hs.2

theorem Task.SameWork.status_eq (h : t.SameWork t') {s : TaskStatus} (hs : t.status = s)
    (hq : s ≠ .queued) (ha : s ≠ .assigned) : t'.status = s := by
  rcases h.status with he | ⟨he, _⟩
  · exact he.trans hs
  · exact absurd he (by rw [Task.isOpen, hs]; simp [hq, ha])

theorem settled_ne_open (gs : List Grade) (dec : Uuid → Option ReviewDecision) :
    settled gs dec ≠ .queued ∧ settled gs dec ≠ .assigned ∧ settled gs dec ≠ .adjudication := by
  unfold settled
  split_ifs <;> simp

/-- Leases, reclaims and retargets keep the phase. -/
theorem Phase.sameWork (h : Phase t gs dec c) (hw : t.SameWork t') : Phase t' gs dec c := by
  -- an open phase only asks that the task is open; a closed one fixes its status
  cases h with
  | golden hg hs => exact .golden (hw.golden.trans hg) (hw.isOpen hs)
  | awaiting hg hk hs hn hd =>
    exact .awaiting (hw.golden.trans hg) (hw.required.trans hk) (hw.isOpen hs)
      (hw.received.trans hn) hd
  | submitted hg hk hs hn hmem hd hrest =>
    exact .submitted (hw.golden.trans hg) (hw.required.trans hk)
      (hw.status_eq hs (by decide) (by decide)) (hw.received.trans hn) hmem hd hrest
  | approved hg hk hs hn hmem hd hrest =>
    exact .approved (hw.golden.trans hg) (hw.required.trans hk)
      (hw.status_eq hs (by decide) (by decide)) (hw.received.trans hn) hmem hd hrest
  | collecting hg hk hs hn hlt hd =>
    exact .collecting (hw.golden.trans hg) (hw.required ▸ hk) (hw.isOpen hs)
      (hw.received.trans hn) (hw.required ▸ hlt) hd
  | agreed hg hk hn hfull hc hcount hs hp =>
    exact .agreed (hw.golden.trans hg) (hw.required ▸ hk) (hw.received.trans hn)
      (hfull.trans hw.required.symm) hc (hcount.trans hw.required.symm)
      (hw.status_eq hs (settled_ne_open gs dec).1 (settled_ne_open gs dec).2.1) hp
  | adjudicating hg hk hn hfull hc hcount hs hd hp =>
    exact .adjudicating (hw.golden.trans hg) (hw.required ▸ hk) (hw.received.trans hn)
      (hfull.trans hw.required.symm) hc (hcount.trans hw.required.symm)
      (hw.status_eq hs (by decide) (by decide)) hd hp
  | adjudicated hg hk hn hfull hc hcount hs hmem hp hd =>
    exact .adjudicated (hw.golden.trans hg) (hw.required ▸ hk) (hw.received.trans hn)
      (hfull.trans hw.required.symm) hc (hcount.trans hw.required.symm)
      (hw.status_eq hs (by decide) (by decide)) hmem hp hd

theorem settled_congr (h : ∀ g ∈ gs, dec' g.id = dec g.id) : settled gs dec' = settled gs dec := by
  have hiff (d : ReviewDecision) :
      (∃ g ∈ gs, dec' g.id = some d) ↔ ∃ g ∈ gs, dec g.id = some d :=
    exists_congr (fun g => and_congr_right (fun hg => by rw [h g hg]))
  simp only [settled, hiff]

/-- Only the decisions on the task's own grades matter. -/
theorem Phase.congr (h : Phase t gs dec c) (hdec : ∀ g ∈ gs, dec' g.id = dec g.id) :
    Phase t gs dec' c := by
  cases h with
  | golden hg hs => exact .golden hg hs
  | awaiting hg hk hs hn hd => exact .awaiting hg hk hs hn (fun g h => (hdec g h).trans (hd g h))
  | submitted hg hk hs hn hmem hd hrest =>
    exact .submitted hg hk hs hn hmem ((hdec _ hmem).trans hd)
      (fun g h hne => (hdec g h).trans (hrest g h hne))
  | approved hg hk hs hn hmem hd hrest =>
    exact .approved hg hk hs hn hmem ((hdec _ hmem).trans hd)
      (fun g h hne => (hdec g h).trans (hrest g h hne))
  | collecting hg hk hs hn hlt hd =>
    exact .collecting hg hk hs hn hlt (fun g h => (hdec g h).trans (hd g h))
  | agreed hg hk hn hfull hc hcount hs hp =>
    refine .agreed hg hk hn hfull hc hcount (hs.trans (settled_congr hdec).symm) ?_
    -- the pick is a grade of the task, or there is none and all are rejected
    revert hp
    cases ‹Consensus›.deliveredGradeId with
    | none => exact fun hp g hg => (hdec g hg).trans (hp g hg)
    | some d =>
      rintro ⟨⟨g, hg, rfl⟩, hr⟩
      exact ⟨⟨g, hg, rfl⟩, by rwa [hdec g hg]⟩
  | adjudicating hg hk hn hfull hc hcount hs hd hp =>
    exact .adjudicating hg hk hn hfull hc hcount hs
      (fun g h => (hdec g h).trans (hd g h)) hp
  | adjudicated hg hk hn hfull hc hcount hs hmem hp hd =>
    exact .adjudicated hg hk hn hfull hc hcount hs hmem hp
      (fun g h => (hdec g h).trans (hd g h))

end Phases

/-! ### Reads after a write -/

section Reads
variable {db : Db}

theorem gradesOf_insert {grades : Table Grade} {g : Grade} (h : db.grades.insert g = some grades)
    (k : Uuid) : gradesOf { db with grades := grades } k =
      if g.taskId = k then gradesOf db k ++ [g] else gradesOf db k := by
  simp only [gradesOf, (Table.insert_eq_some.mp h).2, List.filter_append, List.filter_singleton]
  by_cases hk : g.taskId = k <;> simp [hk]

theorem decision_insert {reviews : Table Review} {v : Review}
    (h : db.reviews.insert v = some reviews) (k : Uuid) :
    decision { db with reviews := reviews } k =
      if v.gradeId = k then some v.decision else decision db k := by
  have hg : reviews.get k = if v.gradeId = k then some v else db.reviews.get k :=
    Table.get_insert h k
  simp only [decision, hg]
  split_ifs <;> rfl

/-- A grade that gets its review had none before. -/
theorem decision_of_insert {reviews : Table Review} {v : Review}
    (h : db.reviews.insert v = some reviews) : decision db v.gradeId = none := by
  rw [decision, Option.map_eq_none_iff, Table.get_eq_none]
  exact fun s hs he => Table.insert_fresh h hs he

theorem decision_insertAll {reviews : Table Review} {vs : List Review}
    (h : db.reviews.insertAll vs = some reviews) {v : Review} (hv : v ∈ vs) :
    decision { db with reviews := reviews } v.gradeId = some v.decision := by
  have hg : reviews.get v.gradeId = some v :=
    reviews.get_of_mem ((Table.mem_insertAll h).mpr (Or.inr hv))
  simp [decision, hg]

theorem decision_insertAll_of_ne {reviews : Table Review} {vs : List Review}
    (h : db.reviews.insertAll vs = some reviews) {k : Uuid} (hk : ∀ v ∈ vs, v.gradeId ≠ k) :
    decision { db with reviews := reviews } k = decision db k := by
  have hg : reviews.get k = db.reviews.get k := Table.get_insertAll_of_none h hk
  simp only [decision, hg]

theorem unrejected_length (db : Db) (k : Uuid) :
    (unrejected db k).length =
      ((gradesOf db k).filter (fun g => decision db g.id ≠ some .reject)).length :=
  ((gradesFor_perm db k).filter _).length_eq

end Reads

/-! ### Moves between phases -/

section Moves
variable {t : Task} {gs : List Grade} {dec dec' : Uuid → Option ReviewDecision}
  {c : Option Consensus}

/-- An open task is golden or waits for grades. -/
theorem Phase.of_assigned (h : Phase t gs dec c) (hs : t.status = .assigned) :
    c = none ∧ (t.isAttentionCheck = true ∨ t.isAttentionCheck = false ∧
      (t.requiredGrades = 1 ∧ t.gradesReceived = 0 ∧ (∀ g ∈ gs, dec g.id = some .reject) ∨
        2 ≤ t.requiredGrades ∧ t.gradesReceived = gs.length ∧ gs.length < t.requiredGrades ∧
          ∀ g ∈ gs, dec g.id = none)) := by
  cases h with
  | golden hg _ => exact ⟨rfl, Or.inl hg⟩
  | awaiting hg hk _ hn hd => exact ⟨rfl, Or.inr ⟨hg, Or.inl ⟨hk, hn, hd⟩⟩⟩
  | collecting hg hk _ hn hlt hd => exact ⟨rfl, Or.inr ⟨hg, Or.inr ⟨hk, hn, hlt, hd⟩⟩⟩
  | submitted _ _ hs' => exact absurd (hs'.symm.trans hs) (by decide)
  | approved _ _ hs' => exact absurd (hs'.symm.trans hs) (by decide)
  | adjudicating _ _ _ _ _ _ hs' => exact absurd (hs'.symm.trans hs) (by decide)
  | adjudicated _ _ _ _ _ _ hs' => exact absurd (hs'.symm.trans hs) (by decide)
  | agreed _ _ _ _ _ _ hs' =>
    exact absurd (hs'.symm.trans hs) (settled_ne_open gs dec).2.1

/-- The status after one more decision on a grade that had none. -/
theorem settled_decide {g : Grade} {d : ReviewDecision} (hmem : g ∈ gs) (hnone : dec g.id = none)
    (hdec : ∀ k, dec' k = if g.id = k then some d else dec k) :
    settled gs dec' = if d = .approve then .approved
      else if settled gs dec = .approved then .approved else .rejected := by
  have hg : dec' g.id = some d := by rw [hdec, if_pos rfl]
  have hkeep {x : Grade} {e : ReviewDecision} (hx : dec x.id = some e) : dec' x.id = some e := by
    rw [hdec, if_neg (fun he => ?_)]
    · exact hx
    · rw [← he, hnone] at hx
      exact absurd hx (by simp)
  cases d with
  | approve =>
    rw [if_pos rfl]
    exact if_pos ⟨g, hmem, hg⟩
  | reject =>
    -- a rejection is no approval
    have hsame : (∃ x ∈ gs, dec' x.id = some .approve) ↔ ∃ x ∈ gs, dec x.id = some .approve := by
      refine exists_congr (fun x => and_congr_right (fun _ => ⟨fun hx => ?_, hkeep⟩))
      rw [hdec] at hx
      split_ifs at hx
      · exact absurd hx (by simp)
      · exact hx
    have hrej : ∃ x ∈ gs, dec' x.id = some .reject := ⟨g, hmem, hg⟩
    unfold settled
    simp only [hsame, if_pos hrej]
    split_ifs <;> simp_all

/-- After the rejections of earlier graders only the new grade is in play. -/
theorem inPlay_awaiting {g : Grade} (hd : ∀ x ∈ gs, dec x.id = some .reject)
    (hg : dec g.id = none) :
    ((gs ++ [g]).filter (fun x => dec x.id ≠ some .reject)).length = 1 := by
  have hnone : gs.filter (fun x => dec x.id ≠ some .reject) = [] := by
    rw [List.filter_eq_nil_iff]
    intro x hx
    simp [hd x hx]
  rw [List.filter_append, hnone]
  simp [hg]

theorem inPlay_collecting {g : Grade} (hd : ∀ x ∈ gs, dec x.id = none) (hg : dec g.id = none) :
    ((gs ++ [g]).filter (fun x => dec x.id ≠ some .reject)).length = gs.length + 1 := by
  have hall : (gs ++ [g]).filter (fun x => dec x.id ≠ some .reject) = gs ++ [g] := by
    rw [List.filter_eq_self]
    intro x hx
    rcases List.mem_append.mp hx with hx | hx
    · simp [hd x hx]
    · simp [List.mem_singleton.mp hx, hg]
  rw [hall, List.length_append, List.length_singleton]

theorem Task.graded_status_of_golden {t : Task} (hg : t.isAttentionCheck = true) :
    t.graded.status = .queued := if_pos (Or.inl hg)

theorem Task.graded_status_of_lt {t : Task} (h : t.gradesReceived + 1 < t.requiredGrades) :
    t.graded.status = .queued := if_pos (Or.inr h)

theorem Task.graded_status_of_le {t : Task} (hg : t.isAttentionCheck = false)
    (h : t.requiredGrades ≤ t.gradesReceived + 1) : t.graded.status = .submitted :=
  if_neg (fun hn => hn.elim (fun h => absurd (h.symm.trans hg) (by decide)) (by omega))

/-- Without a round the task is open again, or a single grader completed it. -/
theorem Phase.graded {g : Grade} (h : Phase t gs dec c) (hs : t.status = .assigned)
    (hg : dec g.id = none)
    (hround : t.graded.status = .submitted →
      ((gs ++ [g]).filter (fun x => dec x.id ≠ some .reject)).length < 2) :
    Phase t.graded (gs ++ [g]) dec none := by
  obtain ⟨-, hgold | ⟨hgold, ⟨hk, hn, hd⟩ | ⟨hk, hn, hlt, hd⟩⟩⟩ := h.of_assigned hs
  · exact .golden hgold (Or.inl (Task.graded_status_of_golden hgold))
  · refine .submitted hgold hk (Task.graded_status_of_le hgold (by omega)) (congrArg (· + 1) hn)
      (List.mem_append_right _ (List.mem_singleton_self g)) hg (fun x hx hxg => ?_)
    rcases List.mem_append.mp hx with hx | hx
    · exact hd x hx
    · exact absurd (congrArg Grade.id (List.mem_singleton.mp hx)) hxg
  -- a full task whose grades all count would have opened a round
  · have hmore : t.gradesReceived + 1 < t.requiredGrades := by
      by_contra hfull
      have hlen := hround (Task.graded_status_of_le hgold (by omega))
      rw [inPlay_collecting hd hg] at hlen
      omega
    refine .collecting hgold hk (Or.inl (Task.graded_status_of_lt hmore)) ?_ ?_ (fun x hx => ?_)
    · simpa [Task.graded] using hn
    · simpa [Task.graded, ← hn] using hmore
    · rcases List.mem_append.mp hx with hx | hx
      · exact hd x hx
      · rw [List.mem_singleton.mp hx]
        exact hg

/-- A grade that opens a round is the last of several. -/
theorem Phase.complete {g : Grade} (h : Phase t gs dec c) (hs : t.status = .assigned)
    (hg : dec g.id = none) (hdone : t.graded.status = .submitted)
    (hlen : 2 ≤ ((gs ++ [g]).filter (fun x => dec x.id ≠ some .reject)).length) :
    t.isAttentionCheck = false ∧ 2 ≤ t.requiredGrades ∧ t.gradesReceived = gs.length ∧
      (gs ++ [g]).length = t.requiredGrades ∧ (∀ x ∈ gs ++ [g], dec x.id = none) ∧
      ((gs ++ [g]).filter (fun x => dec x.id ≠ some .reject)).length = t.requiredGrades := by
  -- a golden task goes back to the queue, a single grader opens no round
  obtain ⟨-, hgold | ⟨hgold, ⟨hk, hn, hd⟩ | ⟨hk, hn, hlt, hd⟩⟩⟩ := h.of_assigned hs
  · exact absurd (hdone.symm.trans (Task.graded_status_of_golden hgold)) (by decide)
  · rw [inPlay_awaiting hd hg] at hlen
    omega
  · have hfull : ¬ t.gradesReceived + 1 < t.requiredGrades := fun hmore =>
      absurd (hdone.symm.trans (Task.graded_status_of_lt hmore)) (by decide)
    have hcount : (gs ++ [g]).length = t.requiredGrades := by
      rw [List.length_append, List.length_singleton]
      omega
    refine ⟨hgold, hk, hn, hcount, fun x hx => ?_, ?_⟩
    · rcases List.mem_append.mp hx with hx | hx
      · exact hd x hx
      · rw [List.mem_singleton.mp hx]
        exact hg
    · rw [inPlay_collecting hd hg, ← hcount, List.length_append, List.length_singleton]

theorem settled_of_none (h : ∀ x ∈ gs, dec x.id = none) : settled gs dec = .submitted := by
  unfold settled
  rw [if_neg, if_neg]
  · rintro ⟨x, hx, hr⟩
    exact absurd ((h x hx).symm.trans hr) (by simp)
  · rintro ⟨x, hx, hr⟩
    exact absurd ((h x hx).symm.trans hr) (by simp)

theorem Task.reviewed_fields (t : Task) (d : ReviewDecision) :
    (t.reviewed d).isAttentionCheck = t.isAttentionCheck ∧
      (t.reviewed d).requiredGrades = t.requiredGrades := by
  unfold Task.reviewed
  split_ifs <;> exact ⟨rfl, rfl⟩

/-- A review of a grade of a several-grader task counts nothing down. -/
theorem Task.reviewed_several {t : Task} (hg : t.isAttentionCheck = false)
    (hk : 2 ≤ t.requiredGrades) (d : ReviewDecision) :
    (t.reviewed d).gradesReceived = t.gradesReceived ∧
      (t.reviewed d).status = if d = .approve then .approved
        else if t.status = .approved then .approved else .rejected := by
  have hk1 : t.requiredGrades ≠ 1 := by omega
  by_cases hd : d = .approve
  · simp [Task.reviewed, hg, hd, Task.withStatus]
  · by_cases hs : t.status = .approved
    · simp [Task.reviewed, hg, hd, hk1, hs]
    · simp [Task.reviewed, hg, hd, hk1, hs, Task.withStatus]

theorem Deliverable.afterReview {g : Grade} {d : ReviewDecision} {p picked : Option Uuid}
    (h : Deliverable gs dec p) (hmem : g ∈ gs) (hnone : dec g.id = none)
    (hdec : ∀ k, dec' k = if g.id = k then some d else dec k)
    (hpick : Deliverable gs dec' picked) :
    Deliverable gs dec' (if d = .reject ∧ p = some g.id then picked else p) := by
  split_ifs with hc
  · exact hpick
  cases p with
  | none => exact absurd ((h g hmem).symm.trans hnone) (by simp)
  | some k =>
    refine ⟨h.1, ?_⟩
    rw [hdec]
    split_ifs with hk
    · rw [not_and, ← hk] at hc
      exact fun hr => hc (Option.some.inj hr) rfl
    · exact h.2

/-- A review takes a task from its phase to the next one. -/
theorem Phase.reviewed {g : Grade} {d : ReviewDecision} {picked : Option Uuid}
    (h : Phase t gs dec c) (hmem : g ∈ gs) (hnone : dec g.id = none)
    (hallow : rejectIfConsensusPending t = .ok ())
    (hdec : ∀ k, dec' k = if g.id = k then some d else dec k)
    (hpick : Deliverable gs dec' picked) :
    Phase (t.reviewed d) gs dec' (c.map (Consensus.afterReview d g.id picked)) := by
  have hself : dec' g.id = some d := by rw [hdec, if_pos rfl]
  have hother {x : Grade} (hx : x.id ≠ g.id) : dec' x.id = dec x.id := by
    rw [hdec, if_neg (fun he => hx he.symm)]
  have hkeep {x : Grade} {e : ReviewDecision} (hx : dec x.id = some e) : dec' x.id = some e := by
    rw [hother, hx]
    intro he
    exact absurd ((congrArg dec he).symm.trans hx) (by simp [hnone])
  have hpending := rejectIfConsensusPending_ok.mp hallow
  obtain ⟨hgold', hreq'⟩ := t.reviewed_fields d
  -- the phase before the verdict decides which phase follows
  cases h with
  | golden hg hs => exact .golden (hgold'.trans hg) (by simpa [Task.reviewed, hg] using hs)
  | awaiting hg hk hs hn hd => exact absurd ((hd g hmem).symm.trans hnone) (by simp)
  | @submitted g₀ hg hk hs hn hmem₀ hd₀ hrest =>
    -- the one grade not rejected yet is the one under review
    have hid : g₀.id = g.id := by
      by_contra hne
      exact absurd ((hrest g hmem (fun he => hne he.symm)).symm.trans hnone) (by simp)
    have hrest' (x : Grade) (hx : x ∈ gs) (hne : x.id ≠ g.id) : dec' x.id = some .reject := by
      rw [hother hne]
      exact hrest x hx (by rwa [hid])
    cases d with
    | approve =>
      refine .approved (hgold'.trans hg) (hreq'.trans hk) ?_ ?_ hmem hself hrest'
      · simp [Task.reviewed, hg, Task.withStatus]
      · simpa [Task.reviewed, hg, Task.withStatus] using hn
    | reject =>
      refine .awaiting (hgold'.trans hg) (hreq'.trans hk) (Or.inl ?_) ?_ (fun x hx => ?_)
      · simp [Task.reviewed, hg, hk, Task.requeued]
      · simp [Task.reviewed, hg, hk, Task.requeued, hn]
      · by_cases hne : x.id = g.id
        · rw [hne, hself]
        · exact hrest' x hx hne
  | @approved g₀ hg hk hs hn hmem₀ hd₀ hrest =>
    by_cases hid : g.id = g₀.id
    -- every grade of an approved task has its verdict already
    · rw [hid, hd₀] at hnone
      exact absurd hnone (by simp)
    · exact absurd ((hrest g hmem hid).symm.trans hnone) (by simp)
  | collecting hg hk hs hn hlt hd =>
    rcases hpending with (hb | hb) | hb
    · exact absurd (hb.symm.trans hg) (by decide)
    · omega
    · omega
  | @agreed c₀ hg hk hn hfull hc hcount hs hp =>
    -- the round stays agreed; its pick moves only when this verdict rejects it
    obtain ⟨hrec, hst⟩ := Task.reviewed_several hg hk d
    have hafter : (c₀.afterReview d g.id picked).status = .agreed ∧
        (c₀.afterReview d g.id picked).gradeCount = c₀.gradeCount ∧
        (c₀.afterReview d g.id picked).deliveredGradeId =
          if d = .reject ∧ c₀.deliveredGradeId = some g.id then picked
          else c₀.deliveredGradeId := by
      unfold Consensus.afterReview
      by_cases hm : d = .reject ∧ c₀.deliveredGradeId = some g.id
      · simp [hc, hm, Consensus.delivering]
      · simp [hc, hm]
    refine .agreed (hgold'.trans hg) (hreq' ▸ hk) (hrec.trans hn) (hfull.trans hreq'.symm)
      hafter.1 (hafter.2.1.trans (hcount.trans hreq'.symm)) ?_ ?_
    · rw [hst, settled_decide hmem hnone hdec, hs]
    · rw [hafter.2.2]
      exact hp.afterReview hmem hnone hdec hpick
  | adjudicating hg hk hn hfull hc hcount hs hd hp =>
    rcases hpending with (hb | hb) | hb
    · exact absurd (hb.symm.trans hg) (by decide)
    · omega
    · exact absurd hs hb.2
  | adjudicated hg hk hn hfull hc hcount hs hmem₀ hp hd =>
    exact absurd ((hd g hmem).symm.trans hnone) (by simp)

/-- An adjudication decides every grade of an open adjudication. -/
theorem Phase.adjudicate {row : Consensus} {d : Grade} {keyId : Uuid} {reason : String} {now : Time}
    (h : Phase t gs dec (some row)) (hrow : row.status = .adjudicating) (hmem : d ∈ gs)
    (hdec : ∀ g ∈ gs, dec' g.id = some (if g.id = d.id then .approve else .reject)) :
    Phase (t.withStatus .approved) gs dec' (some (row.adjudicate d.id keyId reason now)) := by
  cases h with
  | agreed _ _ _ _ hc => exact absurd (hc.symm.trans hrow) (by decide)
  | adjudicated _ _ _ _ hc => exact absurd (hc.symm.trans hrow) (by decide)
  | adjudicating hg hk hn hfull hc hcount hs hd hp =>
    exact .adjudicated hg hk hn hfull rfl hcount rfl hmem rfl hdec

end Moves

/-- The pick of a round is one of the grades in play. -/
theorem deliverable_newRound {env : Env} {db : Db} {k : Uuid} (h : 2 ≤ (unrejected db k).length)
    (hs : (newRound env k (unrejected db k)).status = .agreed) :
    Deliverable (gradesOf db k) (decision db)
      (newRound env k (unrejected db k)).deliveredGradeId := by
  have hagreed : spread (unrejected db k) ≤ env.settings.consensusTolerance := by
    by_contra hn
    simp [newRound, hn] at hs
  cases hp : closestToMean (unrejected db k) with
  | none =>
    rw [closestToMean_eq_none] at hp
    simp [hp] at h
  | some x =>
    have hx := mem_unrejected.mp (closestToMean_mem hp)
    have hd : (newRound env k (unrejected db k)).deliveredGradeId = some x.id := by
      simp [newRound, hagreed, hp]
    rw [hd]
    exact ⟨⟨x, mem_gradesOf.mpr hx.1, rfl⟩, hx.2⟩

/-- A redelivery picks a grade that is not rejected, if there is one. -/
theorem deliverable_repick (db : Db) (k : Uuid) :
    Deliverable (gradesOf db k) (decision db) (repick db k) := by
  -- the candidates are the approved grades in play, or all in play if none is approved
  have hpool {x : Grade} (hx : x ∈ redeliveryCandidates db k) : x ∈ unrejected db k := by
    rw [redeliveryCandidates_eq] at hx
    split_ifs at hx
    · exact hx
    · exact (List.mem_filter.mp hx).1
  unfold repick
  cases hp : closestToMean (redeliveryCandidates db k) with
  -- no candidate at all means nothing is in play
  | none =>
    intro x hx
    rw [closestToMean_eq_none] at hp
    by_contra hne
    have hmem : x ∈ unrejected db k := mem_unrejected.mpr ⟨mem_gradesOf.mp hx, hne⟩
    rw [redeliveryCandidates_eq] at hp
    split_ifs at hp with happ
    · exact absurd (hp ▸ hmem) (by simp)
    · exact happ hp
  | some x =>
    have hx := mem_unrejected.mp (hpool (closestToMean_mem hp))
    exact ⟨⟨x, mem_gradesOf.mpr hx.1, rfl⟩, hx.2⟩

theorem newRound_split {env : Env} {k : Uuid} {gs : List Grade}
    (hs : (newRound env k gs).status ≠ .agreed) :
    (newRound env k gs).status = .adjudicating ∧ (newRound env k gs).deliveredGradeId = none := by
  have hagreed : ¬ spread gs ≤ env.settings.consensusTolerance := by
    intro hn
    simp [newRound, hn] at hs
  simp [newRound, hagreed]

/-! ### The invariant -/

/-- Every task is in one of its phases, leases agree with statuses, and grades,
reviews and rounds refer to stored rows. -/
structure Consistent (db : Db) : Prop where
  lease : ∀ t ∈ db.tasks, t.LeaseOk
  phase : ∀ t ∈ db.tasks, Phase t (gradesOf db t.id) (decision db) (db.consensus.get t.id)
  gradeTask : ∀ g ∈ db.grades, ∃ t ∈ db.tasks, t.id = g.taskId
  reviewGrade : ∀ v ∈ db.reviews, ∃ g ∈ db.grades, g.id = v.gradeId
  roundTask : ∀ c ∈ db.consensus, ∃ t ∈ db.tasks, t.id = c.taskId

/-- `db'` differs from `db` only in one task, its grades, their reviews and its round. -/
structure Focus (db db' : Db) (task : Task) (f : Task → Task) : Prop where
  stored : db.tasks.get task.id = some task
  keeps : Table.Keeps f
  tasks : db'.tasks = db.tasks.update task.id f keeps
  grades : ∀ k, k ≠ task.id → gradesOf db' k = gradesOf db k
  decisions : ∀ g ∈ db.grades, g.taskId ≠ task.id → decision db' g.id = decision db g.id
  rounds : ∀ k, k ≠ task.id → db'.consensus.get k = db.consensus.get k
  kept : ∀ g ∈ db.grades, g ∈ db'.grades
  newGrade : ∀ g ∈ db'.grades, g ∈ db.grades ∨ g.taskId = task.id
  newReview : ∀ v ∈ db'.reviews, v ∈ db.reviews ∨ ∃ g ∈ db'.grades, g.id = v.gradeId
  newRound : ∀ c ∈ db'.consensus, (∃ c' ∈ db.consensus, c'.taskId = c.taskId) ∨ c.taskId = task.id

namespace Consistent
variable {db db' : Db}

theorem empty : Consistent .empty where
  lease t ht := absurd ht (Table.not_mem_empty t)
  phase t ht := absurd ht (Table.not_mem_empty t)
  gradeTask g hg := absurd hg (Table.not_mem_empty g)
  reviewGrade v hv := absurd hv (Table.not_mem_empty v)
  roundTask c hc := absurd hc (Table.not_mem_empty c)

/-- An assignment to task columns that moves no phase keeps the invariant. -/
theorem mapTasks (h : Consistent db) {f : Task → Task} (hf : Table.Keeps f)
    (hlease : ∀ t ∈ db.tasks, (f t).LeaseOk) (hwork : ∀ t ∈ db.tasks, t.SameWork (f t)) :
    Consistent { db with tasks := db.tasks.map f hf } := by
  have hid (t : Task) : (f t).id = t.id := hf.pk_eq t
  have hmem {t : Task} (ht : t ∈ db.tasks) : f t ∈ db.tasks.map f hf :=
    (Table.mem_map hf).mpr ⟨t, ht, rfl⟩
  refine ⟨fun s hs => ?_, fun s hs => ?_, fun g hg => ?_, h.reviewGrade, fun c hc => ?_⟩
  · obtain ⟨t, ht, rfl⟩ := (Table.mem_map hf).mp hs
    exact hlease t ht
  · obtain ⟨t, ht, rfl⟩ := (Table.mem_map hf).mp hs
    rw [hid]
    exact (h.phase t ht).sameWork (hwork t ht)
  · obtain ⟨t, ht, he⟩ := h.gradeTask g hg
    exact ⟨f t, hmem ht, (hid t).trans he⟩
  · obtain ⟨t, ht, he⟩ := h.roundTask c hc
    exact ⟨f t, hmem ht, (hid t).trans he⟩

theorem updateTasksWhere (h : Consistent db) (p : Task → Bool) (f : Task → Task)
    (hf : Table.Keeps f) (hlease : ∀ t, p t = true → t.LeaseOk → (f t).LeaseOk)
    (hwork : ∀ t, p t = true → t.SameWork (f t)) :
    Consistent { db with tasks := db.tasks.updateWhere p f hf } := by
  refine h.mapTasks (hf.ite p) (fun t ht => ?_) (fun t _ => ?_)
  · split_ifs with hp
    · exact hlease t hp (h.lease t ht)
    · exact h.lease t ht
  · split_ifs with hp
    · exact hwork t hp
    · exact ⟨rfl, rfl, rfl, Or.inl rfl⟩

theorem updateTask (h : Consistent db) {task : Task} (f : Task → Task) (hf : Table.Keeps f)
    (ht : db.tasks.get task.id = some task) (hlease : (f task).LeaseOk)
    (hwork : task.SameWork (f task)) :
    Consistent { db with tasks := db.tasks.update task.id f hf } := by
  have heq {t : Task} (hmem : t ∈ db.tasks) (hk : t.id = task.id) : t = task :=
    db.tasks.eq_of_pk hmem (Table.get_mem ht) hk
  refine h.mapTasks (hf.ite _) (fun t hmem => ?_) (fun t hmem => ?_)
  · split_ifs with hp
    · rw [heq hmem (of_decide_eq_true hp)]
      exact hlease
    · exact h.lease t hmem
  · split_ifs with hp
    · rw [heq hmem (of_decide_eq_true hp)]
      exact hwork
    · exact ⟨rfl, rfl, rfl, Or.inl rfl⟩

/-- Work on one task keeps the invariant when it leaves that task in a phase. -/
theorem focus (h : Consistent db) {task : Task} {f : Task → Task} (hf : Focus db db' task f)
    (hlease : (f task).LeaseOk)
    (hphase : Phase (f task) (gradesOf db' task.id) (decision db') (db'.consensus.get task.id)) :
    Consistent db' := by
  have hid (t : Task) : (f t).id = t.id := hf.keeps.pk_eq t
  have hmem {s : Task} : s ∈ db'.tasks ↔ s = f task ∨ s ∈ db.tasks ∧ s.id ≠ task.id := by
    rw [hf.tasks]
    exact Table.mem_update_of_get hf.keeps hf.stored
  have hkeep {k : Uuid} (hk : ∃ t ∈ db.tasks, t.id = k) : ∃ t ∈ db'.tasks, t.id = k := by
    obtain ⟨t, ht, rfl⟩ := hk
    by_cases he : t.id = task.id
    · exact ⟨f task, hmem.mpr (Or.inl rfl), (hid task).trans he.symm⟩
    · exact ⟨t, hmem.mpr (Or.inr ⟨ht, he⟩), rfl⟩
  have hself : ∃ t ∈ db'.tasks, t.id = task.id := hkeep ⟨task, Table.get_mem hf.stored, rfl⟩
  refine ⟨fun s hs => ?_, fun s hs => ?_, fun g hg => ?_, fun v hv => ?_, fun c hc => ?_⟩
  -- leases
  · rcases hmem.mp hs with rfl | ⟨hs, _⟩
    · exact hlease
    · exact h.lease s hs
  · rcases hmem.mp hs with rfl | ⟨hs, hne⟩
    · rw [hid]
      exact hphase
    · rw [hf.grades _ hne, hf.rounds _ hne]
      -- another task sees the same grades, verdicts and round as before
      refine (h.phase s hs).congr (fun g hg => ?_)
      obtain ⟨hg, hgt⟩ := mem_gradesOf.mp hg
      exact hf.decisions g hg (by rwa [hgt])
  · rcases hf.newGrade g hg with hg | hg
    · exact hkeep (h.gradeTask g hg)
    · rw [hg]
      exact hself
  · rcases hf.newReview v hv with hv | hv
    · obtain ⟨g, hg, he⟩ := h.reviewGrade v hv
      exact ⟨g, hf.kept g hg, he⟩
    · exact hv
  · rcases hf.newRound c hc with ⟨c', hc', he⟩ | he
    · exact he ▸ hkeep (h.roundTask c' hc')
    · rw [he]
      exact hself

/-- Fresh tasks start in the queue, without grades or a round. -/
theorem queued (h : Consistent db) {env : Env} {seq : ℕ} {body : List TaskCreate}
    {tasks : Table Task} (hv : validTasks body)
    (hi : db.tasks.insertAll (taskRows env db.taskSeq body) = some tasks) :
    Consistent { db with tasks := tasks, taskSeq := seq } := by
  have hnew {t : Task} (ht : t ∈ taskRows env db.taskSeq body) :
      t.LeaseOk ∧ Phase t (gradesOf db t.id) (decision db) (db.consensus.get t.id) := by
    -- the id is new, so no grade and no round names it
    have hfresh {k : Uuid} (hk : ∃ s ∈ db.tasks, s.id = k) : k ≠ t.id := by
      obtain ⟨s, hs, rfl⟩ := hk
      exact Table.insertAll_fresh hi hs ht
    have hgrades : gradesOf db t.id = [] := by
      rw [List.eq_nil_iff_forall_not_mem]
      intro g hg
      obtain ⟨hg, he⟩ := mem_gradesOf.mp hg
      exact hfresh (h.gradeTask g hg) he
    have hround : db.consensus.get t.id = none := by
      rw [Table.get_eq_none]
      exact fun c hc he => hfresh (h.roundTask c hc) he
    obtain ⟨⟨b, i⟩, hb, rfl⟩ := List.mem_map.mp ht
    have hk := (hv.2.2 b (List.fst_mem_of_mem_zipIdx hb)).2.2.1
    rw [hgrades, hround]
    refine ⟨⟨fun hs => absurd hs (by simp [TaskCreate.row]), fun _ => ⟨rfl, rfl, rfl⟩⟩, ?_⟩
    -- golden, for one grader, or for several
    cases hg : b.isAttentionCheck with
    | true => exact .golden hg (Or.inl rfl)
    | false =>
      rcases Nat.lt_or_ge b.requiredGrades 2 with hlt | hge
      · exact .awaiting hg (by simp only [TaskCreate.row]; omega) (Or.inl rfl) rfl (by simp)
      · exact .collecting hg hge (Or.inl rfl) rfl (by simp only [TaskCreate.row]; exact hk)
          (by simp)
  have hmem {t : Task} : t ∈ tasks ↔ t ∈ db.tasks ∨ t ∈ taskRows env db.taskSeq body :=
    Table.mem_insertAll hi
  refine ⟨fun t ht => ?_, fun t ht => ?_, fun g hg => ?_, h.reviewGrade, fun c hc => ?_⟩
  · exact (hmem.mp ht).elim (h.lease t) (fun ht => (hnew ht).1)
  · exact (hmem.mp ht).elim (h.phase t) (fun ht => (hnew ht).2)
  · exact (h.gradeTask g hg).imp (fun t ht => ⟨hmem.mpr (Or.inl ht.1), ht.2⟩)
  · exact (h.roundTask c hc).imp (fun t ht => ⟨hmem.mpr (Or.inl ht.1), ht.2⟩)

theorem congr (h : Consistent db) (ht : db'.tasks = db.tasks) (hg : db'.grades = db.grades)
    (hv : db'.reviews = db.reviews) (hc : db'.consensus = db.consensus) : Consistent db' := by
  have hgrades (k : Uuid) : gradesOf db' k = gradesOf db k := by simp only [gradesOf, hg]
  have hdec : decision db' = decision db := by
    funext k
    simp only [decision, hv]
  refine ⟨ht ▸ h.lease, ?_, ?_, ?_, ?_⟩
  · rw [ht, hc, hdec]
    intro t hmem
    rw [hgrades]
    exact h.phase t hmem
  · rw [ht, hg]
    exact h.gradeTask
  · rw [hv, hg]
    exact h.reviewGrade
  · rw [ht, hc]
    exact h.roundTask

/-- A new grade has no decision on it. -/
theorem decision_fresh (h : Consistent db) {g : Grade} {grades : Table Grade}
    (hi : db.grades.insert g = some grades) : decision db g.id = none := by
  rw [decision, Option.map_eq_none_iff, Table.get_eq_none]
  intro v hv he
  obtain ⟨x, hx, hxv⟩ := h.reviewGrade v hv
  exact Table.insert_fresh hi hx (hxv.trans he)

theorem graded (h : Consistent db) {env : Env} {task : Task} {g : Grade} {grades : Table Grade}
    {tasks : Table Task} {consensus : Table Consensus}
    (ht : db.tasks.get task.id = some task) (hs : task.status = .assigned)
    (hgt : g.taskId = task.id) (hi : db.grades.insert g = some grades)
    (hc : Rounds env { db with grades := grades } task tasks consensus) :
    Consistent { db with grades := grades, tasks := tasks, consensus := consensus } := by
  have hphase := h.phase task (Table.get_mem ht)
  have hfresh := h.decision_fresh hi
  have hnone := (hphase.of_assigned hs).1
  have hgrades : gradesOf { db with grades := grades } task.id = gradesOf db task.id ++ [g] := by
    rw [gradesOf_insert hi, if_pos hgt]
  -- `consensus.evaluate` looks at the grades with the new one among them
  have hlen : (unrejected { db with grades := grades } task.id).length =
      ((gradesOf db task.id ++ [g]).filter (fun x => decision db x.id ≠ some .reject)).length := by
    rw [unrejected_length, hgrades]
    rfl
  have hfocus {T : Table Task} {C : Table Consensus} (f : Task → Task) (hf : Table.Keeps f)
      (hT : T = db.tasks.update task.id f hf)
      (hC : ∀ k, k ≠ task.id → C.get k = db.consensus.get k)
      (hC' : ∀ c ∈ C, (∃ c' ∈ db.consensus, c'.taskId = c.taskId) ∨ c.taskId = task.id) :
      Focus db { db with grades := grades, tasks := T, consensus := C } task f :=
    { stored := ht
      keeps := hf
      tasks := hT
      grades := fun k hk => (gradesOf_insert hi k).trans (if_neg (fun he => hk (he.symm.trans hgt)))
      decisions := fun _ _ _ => rfl
      rounds := hC
      kept := fun x hx => (Table.mem_insert hi).mpr (Or.inl hx)
      newGrade := fun x hx => ((Table.mem_insert hi).mp hx).imp id
        (fun he => (congrArg Grade.taskId he).trans hgt)
      newReview := fun v hv => Or.inl hv
      newRound := hC' }
  have hinsert {row : Consensus} {C : Table Consensus} (hrow : row.taskId = task.id)
      (hC : db.consensus.insert row = some C) :
      (∀ k, k ≠ task.id → C.get k = db.consensus.get k) ∧ C.get task.id = some row ∧
        ∀ c ∈ C, (∃ c' ∈ db.consensus, c'.taskId = c.taskId) ∨ c.taskId = task.id := by
    refine ⟨fun k hk => ?_, ?_, fun c hmem => ?_⟩
    · rw [Table.get_insert hC, if_neg]
      exact fun he => hk (he.symm.trans hrow)
    · rw [Table.get_insert hC, if_pos]
      exact hrow
    · rcases (Table.mem_insert hC).mp hmem with hmem | rfl
      · exact Or.inl ⟨c, hmem, rfl⟩
      · exact Or.inr hrow
  have hlease (t : Task) (st : TaskStatus) (hst : st ≠ .assigned) :
      (t.graded.withStatus st).LeaseOk := ⟨fun he => absurd he hst, fun _ => ⟨rfl, rfl, rfl⟩⟩
  have hst : task.graded.status ≠ .assigned := by
    simp only [Task.graded]
    split_ifs <;> simp
  -- the lease is gone in each case; what is left is the phase of the task
  cases hc with
  | none hround =>
    refine h.focus (hfocus Task.graded (fun _ => rfl) rfl (fun _ _ => rfl)
      (fun c hc => Or.inl ⟨c, hc, rfl⟩)) (hlease task _ hst) ?_
    have hp := hphase.graded hs hfresh (fun hd => hlen ▸ hround hd)
    change Phase task.graded (gradesOf { db with grades := grades } task.id) (decision db)
      (db.consensus.get task.id)
    rw [hgrades, hnone]
    exact hp
  | agreed hdone htwo hagreed hins =>
    obtain ⟨hother, hrow, hmem⟩ := hinsert rfl hins
    refine h.focus (hfocus Task.graded (fun _ => rfl) rfl hother hmem) (hlease task _ hst) ?_
    obtain ⟨hg, hk, hn, hfull, hd, hall⟩ := hphase.complete hs hfresh hdone (hlen ▸ htwo)
    have hpick := deliverable_newRound htwo hagreed
    change Phase task.graded (gradesOf { db with grades := grades } task.id) (decision db)
      (consensus.get task.id)
    rw [hrow, hgrades]
    rw [hgrades] at hpick
    refine .agreed hg hk ?_ hfull hagreed (hlen.trans hall)
      (hdone.trans (settled_of_none hd).symm) hpick
    simpa [Task.graded] using hn
  | split hdone htwo hsplit hins =>
    obtain ⟨hother, hrow, hmem⟩ := hinsert rfl hins
    refine h.focus (hfocus (fun t => t.graded.withStatus .adjudication) (fun _ => rfl) rfl hother
      hmem) (hlease task .adjudication (by decide)) ?_
    obtain ⟨hg, hk, hn, hfull, hd, hall⟩ := hphase.complete hs hfresh hdone (hlen ▸ htwo)
    obtain ⟨hadj, hdel⟩ := newRound_split hsplit
    change Phase (task.graded.withStatus .adjudication)
      (gradesOf { db with grades := grades } task.id) (decision db) (consensus.get task.id)
    rw [hrow, hgrades]
    refine .adjudicating hg hk ?_ hfull hadj (hlen.trans hall) rfl hd hdel
    simpa [Task.graded, Task.withStatus] using hn

theorem reviewed (h : Consistent db) {task : Task} {g : Grade} {v : Review}
    {reviews : Table Review} (hg : db.grades.get g.id = some g) (htask : task.id = g.taskId)
    (ht : db.tasks.get task.id = some task) (hallow : rejectIfConsensusPending task = .ok ())
    (hv : v.gradeId = g.id) (hi : db.reviews.insert v = some reviews) :
    Consistent { db with
      reviews := reviews
      tasks := db.tasks.update task.id (Task.reviewed v.decision) (Task.reviewed_keeps _)
      consensus := db.consensus.update task.id
        (Consensus.afterReview v.decision g.id
          (repick { db with reviews := reviews } task.id))
        (Consensus.afterReview_keeps _ _ _) } := by
  have hphase := h.phase task (Table.get_mem ht)
  have hmem : g ∈ gradesOf db task.id := mem_gradesOf.mpr ⟨Table.get_mem hg, htask.symm⟩
  have hnone : decision db g.id = none := hv ▸ decision_of_insert hi
  have hdec (k : Uuid) : decision { db with reviews := reviews } k =
      if g.id = k then some v.decision else decision db k := by
    rw [decision_insert hi, hv]
  -- only an assigned task has a lease, and an assigned regular task is not reviewed
  have hlease : (task.reviewed v.decision).LeaseOk := by
    have hold := h.lease task (Table.get_mem ht)
    have hclosed : task.isAttentionCheck = false → task.status ≠ .assigned := fun hgold hs => by
      obtain ⟨-, hb | ⟨-, ⟨-, -, hb⟩ | ⟨hk, hn, hlt, -⟩⟩⟩ := hphase.of_assigned hs
      · exact absurd (hb.symm.trans hgold) (by decide)
      · exact absurd ((hb g hmem).symm.trans hnone) (by simp)
      · rcases rejectIfConsensusPending_ok.mp hallow with (hb | hb) | hb
        · exact absurd (hb.symm.trans hgold) (by decide)
        · omega
        · omega
    unfold Task.reviewed
    split_ifs with hgold hd hk hs
    · exact hold
    all_goals have hfree := hold.free (hclosed (Bool.eq_false_of_not_eq_true hgold))
    · exact ⟨fun he => absurd he (by simp [Task.withStatus]), fun _ => hfree⟩
    · exact ⟨fun he => absurd he (by simp [Task.requeued]), fun _ => hfree⟩
    · exact ⟨fun he => absurd he (by simp [Task.withStatus]), fun _ => hfree⟩
    · exact hold
  refine h.focus (f := Task.reviewed v.decision) ⟨ht, Task.reviewed_keeps _, rfl, fun _ _ => rfl,
    fun x hx hne => ?_, fun k hk => ?_, fun x hx => hx, fun x hx => Or.inl hx, fun w hw => ?_,
    fun c hc => ?_⟩ hlease ?_
  -- grades of other tasks keep their verdicts
  · refine (hdec x.id).trans (if_neg (fun he => hne ?_))
    rw [← db.grades.eq_of_pk (Table.get_mem hg) hx he]
    exact htask.symm
  · exact (Table.get_update _ _ _ (Consensus.afterReview_keeps _ _ _) k).trans
      (if_neg (fun he => hk he.symm))
  · rcases (Table.mem_insert hi).mp hw with hw | rfl
    · exact Or.inl hw
    · exact Or.inr ⟨g, Table.get_mem hg, hv.symm⟩
  · obtain ⟨c', hc', rfl⟩ := (Table.mem_update (Consensus.afterReview_keeps _ _ _)).mp hc
    refine Or.inl ⟨c', hc', ?_⟩
    split_ifs
    · exact ((Consensus.afterReview_keeps _ _ _).pk_eq c').symm
    · rfl
  · have hround := Table.get_update db.consensus task.id
      (Consensus.afterReview v.decision g.id (repick { db with reviews := reviews } task.id))
      (Consensus.afterReview_keeps _ _ _) task.id
    rw [if_pos rfl] at hround
    change Phase _ (gradesOf db task.id) (decision { db with reviews := reviews })
      ((db.consensus.update task.id _ (Consensus.afterReview_keeps _ _ _)).get task.id)
    rw [hround]
    -- the task itself
    exact hphase.reviewed hmem hnone hallow hdec
      (deliverable_repick { db with reviews := reviews } _)

theorem adjudicated (h : Consistent db) {env : Env} {row : Consensus} {task : Task}
    {delivered : Grade} {reviews : Table Review} {reason : String} {keyId : Uuid}
    (hrow : db.consensus.get task.id = some row) (hs : row.status = .adjudicating)
    (hd : delivered ∈ gradesFor db task.id) (ht : db.tasks.get task.id = some task)
    (hi : db.reviews.insertAll ((gradesFor db task.id).map
      (verdict env delivered reason keyId)) = some reviews) :
    Consistent { db with
      reviews := reviews
      tasks := db.tasks.update task.id (Task.withStatus .approved)
      consensus := db.consensus.update task.id
        (Consensus.adjudicate delivered.id keyId reason env.now) } := by
  have hphase := h.phase task (Table.get_mem ht)
  -- a task with a round is not out on a lease
  have hopen : task.status ≠ .assigned := fun he =>
    absurd (hrow.symm.trans (hphase.of_assigned he).1) (by simp)
  have hdec (x : Grade) (hx : x ∈ gradesOf db task.id) :
      decision { db with reviews := reviews } x.id =
        some (if x.id = delivered.id then .approve else .reject) :=
    decision_insertAll hi (List.mem_map_of_mem ((gradesFor_perm db task.id).mem_iff.mpr hx))
  refine h.focus (f := Task.withStatus .approved) ⟨ht, fun _ => rfl, rfl, fun _ _ => rfl,
    fun x hx hne => ?_, fun k hk => ?_, fun x hx => hx, fun x hx => Or.inl hx, fun w hw => ?_,
    fun c hc => ?_⟩ ⟨fun he => absurd he (by simp [Task.withStatus]),
      fun _ => (h.lease task (Table.get_mem ht)).free hopen⟩ ?_
  · refine decision_insertAll_of_ne hi (fun v hv he => hne ?_)
    obtain ⟨y, hy, rfl⟩ := List.mem_map.mp hv
    obtain ⟨hy, hyt⟩ := mem_gradesFor.mp hy
    rw [← db.grades.eq_of_pk hy hx he]
    exact hyt
  · have hget := Table.get_update db.consensus task.id
      (Consensus.adjudicate delivered.id keyId reason env.now) (fun _ => rfl) k
    rw [if_neg (fun he => hk he.symm)] at hget
    exact hget
  · rcases (Table.mem_insertAll hi).mp hw with hw | hw
    · exact Or.inl hw
    · obtain ⟨y, hy, rfl⟩ := List.mem_map.mp hw
      exact Or.inr ⟨y, (mem_gradesFor.mp hy).1, rfl⟩
  · obtain ⟨c', hc', rfl⟩ :=
      (Table.mem_update (f := Consensus.adjudicate delivered.id keyId reason env.now)
        (fun _ => rfl)).mp hc
    refine Or.inl ⟨c', hc', ?_⟩
    split_ifs <;> rfl
  · have hround := Table.get_update db.consensus task.id
      (Consensus.adjudicate delivered.id keyId reason env.now) (fun _ => rfl) task.id
    rw [if_pos rfl, hrow] at hround
    change Phase _ (gradesOf db task.id) (decision { db with reviews := reviews })
      ((db.consensus.update task.id (Consensus.adjudicate delivered.id keyId reason env.now)
        (fun _ => rfl)).get task.id)
    rw [hround]
    rw [hrow] at hphase
    exact hphase.adjudicate hs ((gradesFor_perm db task.id).mem_iff.mp hd) hdec

/-- Every effect keeps the invariant. -/
theorem effect {r : Request} (h : Consistent db) (he : Effect r db db') : Consistent db' := by
  cases he with
  | logged => exact h.congr rfl rfl rfl rfl
  | rubricAdded => exact h.congr rfl rfl rfl rfl
  | superseded => exact h.congr rfl rfl rfl rfl
  | joined => exact h.congr rfl rfl rfl rfl
  | recalibrated => exact h.congr rfl rfl rfl rfl
  | paused => exact h.congr rfl rfl rfl rfl
  | statusSet => exact h.congr rfl rfl rfl rfl
  | closed => exact h.congr rfl rfl rfl rfl
  | queued hv hi => exact h.queued hv hi
  | reclaimed =>
    -- a lease that is taken back: assigned before, queued after, no grade moved
    refine h.updateTasksWhere _ Task.reclaimed (fun _ => rfl)
      (fun t _ _ => ⟨fun hs => ?_, fun _ => ⟨rfl, rfl, rfl⟩⟩)
      (fun t hp => ⟨rfl, rfl, rfl, Or.inr ⟨Or.inr ?_, Or.inl rfl⟩⟩)
    · exact absurd hs (by simp [Task.reclaimed, Task.unassigned])
    · simp only [Task.leaseExpired, Bool.and_eq_true, decide_eq_true_eq] at hp
      exact hp.1
  | released hop ht hs hh =>
    exact h.updateTask Task.unassigned (fun _ => rfl) ht
      ⟨fun hs => absurd hs (by simp [Task.unassigned]), fun _ => ⟨rfl, rfl, rfl⟩⟩
      ⟨rfl, rfl, rfl, Or.inr ⟨Or.inr hs, Or.inl rfl⟩⟩
  | claimed hx ha ht hs =>
    exact (h.updateTask (Task.assignTo r.env _) (fun _ => rfl) ht
      ⟨fun _ => ⟨rfl, rfl, rfl⟩, fun hs => absurd rfl hs⟩
      ⟨rfl, rfl, rfl, Or.inr ⟨Or.inl hs, Or.inr rfl⟩⟩).congr rfl rfl rfl rfl
  | retargeted previousId newId =>
    exact h.updateTasksWhere _ (Task.retargeted newId) (fun _ => rfl)
      (fun t _ ht => ⟨ht.held, ht.free⟩)
      (fun t _ => ⟨rfl, rfl, rfl, Or.inl rfl⟩)
  | graded hop hx ht hs hh hrub hg hi hc =>
    subst hg
    exact h.graded ht hs rfl hi hc
  | reviewed hop hb hg htask ht hallow hv hi hp =>
    exact (h.reviewed hg htask ht hallow (hv ▸ rfl) hi).congr rfl rfl rfl rfl
  | adjudicated hop hrow hs hd ht hi hp =>
    exact (h.adjudicated hrow hs hd ht hi).congr rfl rfl rfl rfl

/-- Every state a run reaches is consistent. -/
theorem after (rs : List Request) : Consistent (after rs) :=
  after_invariant (fun h he => h.effect he) .empty rs

end Consistent

end Panelist

