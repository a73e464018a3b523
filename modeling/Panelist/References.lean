import Panelist.Effects

/-! What a row keeps for good and where its foreign keys point. No operation
deletes a row; an operation rewrites some columns of a row and never the others. -/
namespace Panelist
open Relational Transaction

/-- `t'` is `t` up to the columns that routing, grading and publishing rewrite. -/
def Task.SameContent (t t' : Task) : Prop :=
  t' = { t with
    rubricId := t'.rubricId
    pinnedRubricId := t'.pinnedRubricId
    status := t'.status
    gradesReceived := t'.gradesReceived
    assignedExpertId := t'.assignedExpertId
    assignedAt := t'.assignedAt
    leaseExpiresAt := t'.leaseExpiresAt
    reclaimCount := t'.reclaimCount }

theorem Task.SameContent.refl (t : Task) : t.SameContent t := rfl

theorem Task.SameContent.trans {t t' t'' : Task} (h : t.SameContent t')
    (h' : t'.SameContent t'') : t.SameContent t'' := by
  unfold Task.SameContent at h h' ⊢
  rw [h] at h'
  exact h'

/-- `p'` is `p` up to whether and when it was paid. -/
def Payout.SameTerms (p p' : Payout) : Prop :=
  p' = { p with status := p'.status, periodId := p'.periodId, paidAt := p'.paidAt }

theorem Payout.SameTerms.refl (p : Payout) : p.SameTerms p := rfl

theorem Payout.SameTerms.trans {p p' p'' : Payout} (h : p.SameTerms p') (h' : p'.SameTerms p'') :
    p.SameTerms p'' := by
  unfold Payout.SameTerms at h h' ⊢
  rw [h] at h'
  exact h'

def Rubric.SameVersion (r r' : Rubric) : Prop := r'.name = r.name ∧ r'.version = r.version

theorem Rubric.SameVersion.trans {r r' r'' : Rubric} (h : r.SameVersion r')
    (h' : r'.SameVersion r'') : r.SameVersion r'' := ⟨h'.1.trans h.1, h'.2.trans h.2⟩

/-- Every row of `db` is still in `db'`, with the columns that are written once. -/
structure Retains (db db' : Db) : Prop where
  experts : db.experts.Evolves (fun _ _ => True) db'.experts
  rubrics : db.rubrics.Evolves Rubric.SameVersion db'.rubrics
  criteria : db.rubricCriteria.Evolves Eq db'.rubricCriteria
  tasks : db.tasks.Evolves Task.SameContent db'.tasks
  grades : ∃ new, db'.grades.rows = db.grades.rows ++ new
  reviews : db.reviews.Evolves Eq db'.reviews
  periods : db.payoutPeriods.Evolves Eq db'.payoutPeriods
  payouts : db.payouts.Evolves Payout.SameTerms db'.payouts

theorem Payments.evolves {env : Env} {db : Db} {task : Task} {share : Grade → Option ℚ}
    {gs : List Grade} {P P' : Table Payout} (h : Payments env db task share gs P P') :
    P.Evolves Payout.SameTerms P' := by
  intro k p hp
  obtain ⟨hmem, hk⟩ := P.get_eq_some.mp hp
  exact ⟨p, P'.get_eq_some.mpr ⟨h.mono hmem, hk⟩, Payout.SameTerms.refl p⟩

theorem Rounds.tasks_evolve {env : Env} {db : Db} {task : Task} {tasks : Table Task}
    {consensus : Table Consensus} (h : Rounds env db task tasks consensus) :
    db.tasks.Evolves Task.SameContent tasks := by
  cases h with
  | none | agreed => exact .update Task.SameContent.refl (fun _ => rfl)
  | split => exact .update Task.SameContent.refl (fun _ => rfl)

theorem Task.reviewed_content (d : ReviewDecision) (t : Task) : t.SameContent (t.reviewed d) := by
  unfold Task.reviewed
  split_ifs <;> rfl

namespace Retains
variable {db db' db'' : Db}

theorem refl (db : Db) : Retains db db where
  experts := .refl (fun _ => trivial) _
  rubrics := .refl (fun _ => ⟨rfl, rfl⟩) _
  criteria := .refl (fun _ => rfl) _
  tasks := .refl Task.SameContent.refl _
  grades := ⟨[], (List.append_nil _).symm⟩
  reviews := .refl (fun _ => rfl) _
  periods := .refl (fun _ => rfl) _
  payouts := .refl Payout.SameTerms.refl _

theorem trans (h : Retains db db') (h' : Retains db' db'') : Retains db db'' where
  experts := h.experts.trans (fun _ _ => trivial) h'.experts
  rubrics := h.rubrics.trans Rubric.SameVersion.trans h'.rubrics
  criteria := h.criteria.trans Eq.trans h'.criteria
  tasks := h.tasks.trans Task.SameContent.trans h'.tasks
  grades := by
    obtain ⟨new, hnew⟩ := h.grades
    obtain ⟨new', hnew'⟩ := h'.grades
    exact ⟨new ++ new', by rw [hnew', hnew, List.append_assoc]⟩
  reviews := h.reviews.trans Eq.trans h'.reviews
  periods := h.periods.trans Eq.trans h'.periods
  payouts := h.payouts.trans Payout.SameTerms.trans h'.payouts

theorem grade (h : Retains db db') {k : Uuid} {g : Grade} (hg : db.grades.get k = some g) :
    db'.grades.get k = some g := by
  obtain ⟨new, hnew⟩ := h.grades
  obtain ⟨hmem, hk⟩ := db.grades.get_eq_some.mp hg
  refine db'.grades.get_eq_some.mpr ⟨?_, hk⟩
  rw [← Table.mem_rows, hnew]
  exact List.mem_append_left _ hmem

theorem grade_mem (h : Retains db db') {g : Grade} (hg : g ∈ db.grades) : g ∈ db'.grades :=
  Table.get_mem (h.grade (db.grades.get_of_mem hg))

theorem criterion (h : Retains db db') {k : Uuid} {c : RubricCriterion}
    (hc : db.rubricCriteria.get k = some c) : db'.rubricCriteria.get k = some c := by
  obtain ⟨c', hc', rfl⟩ := h.criteria k c hc
  exact hc'

theorem period (h : Retains db db') {k : Uuid} {q : PayoutPeriod}
    (hq : db.payoutPeriods.get k = some q) : db'.payoutPeriods.get k = some q := by
  obtain ⟨q', hq', rfl⟩ := h.periods k q hq
  exact hq'

/-- A decision stands. -/
theorem decision (h : Retains db db') {k : Uuid} {d : ReviewDecision}
    (hd : Panelist.decision db k = some d) : Panelist.decision db' k = some d := by
  obtain ⟨v, hv, rfl⟩ := Option.map_eq_some_iff.mp hd
  obtain ⟨v', hv', rfl⟩ := h.reviews k v hv
  rw [Panelist.decision, hv', Option.map_some]

end Retains

/-- Every effect retains every row. -/
theorem Effect.retains {r : Request} {db db' : Db} (h : Effect r db db') : Retains db db' := by
  cases h with
  | logged => exact { Retains.refl db with }
  | rubricAdded hr hc =>
    exact { Retains.refl db with
      rubrics := .insert (fun _ => ⟨rfl, rfl⟩) hr
      criteria := .insertAll (fun _ => rfl) hc }
  | superseded previousId newId =>
    exact { Retains.refl db with
      rubrics := .update (f := Rubric.superseded r.env.now newId) (h := fun _ => rfl)
        (fun _ => ⟨rfl, rfl⟩) (fun _ => ⟨rfl, rfl⟩) }
  | joined hs hi => exact { Retains.refl db with experts := .insert (fun _ => trivial) hi }
  | recalibrated h =>
    obtain ⟨f, hf, _, rfl⟩ := h
    exact { Retains.refl db with experts := .map (h := hf) (fun _ => trivial) }
  | @paused e =>
    exact { Retains.refl db with
      experts := .update (f := Expert.withStatus .paused) (h := fun _ => rfl) (fun _ => trivial)
        (fun _ => trivial)
      payouts := .updateWhere (f := Payout.withhold) (h := fun _ => rfl) Payout.SameTerms.refl
        (fun _ => rfl) }
  | @statusSet e status =>
    refine { Retains.refl db with
      experts := .update (f := Expert.withStatus status) (h := fun _ => rfl) (fun _ => trivial)
        (fun _ => trivial)
      payouts := ?_ }
    show db.payouts.Evolves Payout.SameTerms (payoutsAfterStatus db e status)
    unfold payoutsAfterStatus
    split
    · exact .updateWhere Payout.SameTerms.refl (fun _ => rfl)
    · exact .refl Payout.SameTerms.refl _
  -- the queue: rows are added, leased and given back, and keep their content
  | queued hv hi =>
    exact { Retains.refl db with tasks := .insertAll Task.SameContent.refl hi }
  | reclaimed =>
    exact { Retains.refl db with
      tasks := .updateWhere (f := Task.reclaimed) (h := fun _ => rfl) Task.SameContent.refl
        (fun _ => rfl) }
  | released =>
    exact { Retains.refl db with
      tasks := .update (f := Task.unassigned) (h := fun _ => rfl) Task.SameContent.refl
        (fun _ => rfl) }
  | @claimed e =>
    exact { Retains.refl db with
      tasks := .update (f := Task.assignTo r.env e.id) (h := fun _ => rfl) Task.SameContent.refl
        (fun _ => rfl)
      experts := .update (f := Expert.served) (h := fun _ => rfl) (fun _ => trivial)
        (fun _ => trivial) }
  | retargeted previousId newId =>
    exact { Retains.refl db with
      tasks := .updateWhere (f := Task.retargeted newId) (h := fun _ => rfl) Task.SameContent.refl
        (fun _ => rfl) }
  -- grades, verdicts and rounds: the payouts of a verdict are new rows
  | graded hop he ht hs hh hrub hg hi hc =>
    exact { Retains.refl db with
      grades := ⟨_, (Table.insert_eq_some.mp hi).2⟩
      tasks := hc.tasks_evolve }
  | reviewed hop hb hg htask ht hallow hv hi hp =>
    exact { Retains.refl db with
      reviews := .insert (fun _ => rfl) hi
      payouts := hp.evolves
      tasks := .update (h := Task.reviewed_keeps _) Task.SameContent.refl
        (Task.reviewed_content _) }
  | adjudicated hop hrow hs hd ht hi hp =>
    exact { Retains.refl db with
      reviews := .insertAll (fun _ => rfl) hi
      payouts := hp.evolves
      tasks := .update (f := Task.withStatus .approved) (h := fun _ => rfl) Task.SameContent.refl
        (fun _ => rfl) }
  | @closed period periods actor hop hi =>
    exact { Retains.refl db with
      periods := .insert (fun _ => rfl) hi
      payouts := .updateWhere (f := Payout.paidIn period.id r.env.now) (h := fun _ => rfl)
        Payout.SameTerms.refl (fun _ => rfl) }

theorem Effects.retains {r : Request} {db db' : Db} (h : Effects r db db') : Retains db db' := by
  induction h with
  | refl => exact Retains.refl db
  | tail _ hlast ih => exact ih.trans hlast.retains

/-- Whatever follows, the rows of a reached state stay. -/
theorem retains_after (rs qs : List Request) : Retains (after rs) (after (rs ++ qs)) :=
  after_append_invariant (P := Retains (after rs)) (fun h he => h.trans he.retains)
    (Retains.refl _) qs

/-! ### Foreign keys -/

/-- The foreign keys of a grade and of its scores. -/
structure Grade.Linked (db : Db) (g : Grade) : Prop where
  expert : ∃ e, db.experts.get g.expertId = some e
  rubric : ∃ r, db.rubrics.get g.rubricId = some r
  criteria : ∀ s ∈ g.scores, ∃ c, db.rubricCriteria.get s.criterionId = some c

/-- The foreign keys of a payout, and the columns it copies from its grade and task. -/
structure Payout.Linked (db : Db) (p : Payout) : Prop where
  grade : ∃ g, db.grades.get p.gradeId = some g ∧ p.expertId = g.expertId ∧ p.taskId = g.taskId
  task : ∃ t, db.tasks.get p.taskId = some t ∧ p.taskType = t.taskType
  period : ∀ k, p.periodId = some k → ∃ q, db.payoutPeriods.get k = some q

structure Linked (db : Db) : Prop where
  grades : ∀ g ∈ db.grades, g.Linked db
  payouts : ∀ p ∈ db.payouts, p.Linked db

section Links
variable {db db' : Db}

theorem Grade.Linked.mono {g : Grade} (h : g.Linked db) (hr : Retains db db') : g.Linked db' := by
  obtain ⟨⟨e, he⟩, ⟨r, hrub⟩, hc⟩ := h
  refine ⟨?_, ?_, fun s hs => ?_⟩
  · obtain ⟨e', he', _⟩ := hr.experts _ e he
    exact ⟨e', he'⟩
  · obtain ⟨r', hr', _⟩ := hr.rubrics _ r hrub
    exact ⟨r', hr'⟩
  · obtain ⟨c, hc⟩ := hc s hs
    exact ⟨c, hr.criterion hc⟩

/-- A payout stays linked when its terms stay, unless it joins a period that is not there. -/
theorem Payout.Linked.mono {p p' : Payout} (h : p.Linked db) (hr : Retains db db')
    (hterms : p.SameTerms p') (hperiod : p'.periodId = p.periodId ∨
      ∀ k, p'.periodId = some k → ∃ q, db'.payoutPeriods.get k = some q) : p'.Linked db' := by
  obtain ⟨⟨g, hg, hexp, htask⟩, ⟨t, ht, htype⟩, hq⟩ := h
  refine ⟨⟨g, ?_, ?_, ?_⟩, ?_, ?_⟩
  · rw [hterms]
    exact hr.grade hg
  · rw [hterms]
    exact hexp
  · rw [hterms]
    exact htask
  · obtain ⟨t', ht', hcontent⟩ := hr.tasks _ t ht
    refine ⟨t', ?_, ?_⟩
    · rw [hterms]
      exact ht'
    · rw [hterms, hcontent]
      exact htype
  · intro k hk
    -- either the period it was in, or the one it joins
    rcases hperiod with hsame | hnew
    · obtain ⟨q, hq⟩ := hq k (hsame.symm.trans hk)
      exact ⟨q, hr.period hq⟩
    · exact hnew k hk

/-- A new payout is linked to the grade it pays. -/
theorem PaidRow.linked {env : Env} {db₀ : Db} {task : Task} {share : Grade → Option ℚ}
    {gs : List Grade} {p : Payout} (h : PaidRow env db₀ task share gs p) (hr : Retains db₀ db)
    (ht : db₀.tasks.get task.id = some task)
    (hgs : ∀ g ∈ gs, g ∈ db₀.grades ∧ g.taskId = task.id) : p.Linked db := by
  obtain ⟨g, hg, f, expert, rate, _, he, _, _, rfl⟩ := h
  obtain ⟨hmem, htask⟩ := hgs g hg
  obtain ⟨t', ht', hcontent⟩ := hr.tasks _ task ht
  refine ⟨⟨g, hr.grade (db₀.grades.get_of_mem hmem), Table.get_pk he, htask.symm⟩, ⟨t', ht', ?_⟩,
    fun k hk => absurd hk (by simp [newPayout])⟩
  rw [hcontent]
  rfl

/-- The criteria named by the scores of a grade exist. -/
theorem gradeScores_criteria {rubricId : Uuid} {scores : Dict ℚ} {s : GradeScore}
    (h : s ∈ gradeScores (criteriaOf db rubricId) scores) :
    ∃ c, db.rubricCriteria.get s.criterionId = some c := by
  obtain ⟨kv, _, hs⟩ := List.mem_filterMap.mp h
  obtain ⟨c, hc, rfl⟩ := Option.map_eq_some_iff.mp hs
  have hmem : c ∈ criteriaOf db rubricId :=
    List.mem_reverse.mp (List.mem_of_find?_eq_some hc)
  rw [criteriaOf, List.mem_insertionSort, List.mem_filter] at hmem
  exact ⟨c, db.rubricCriteria.get_of_mem hmem.1⟩

theorem Linked.empty : Linked .empty :=
  ⟨fun g hg => absurd hg (Table.not_mem_empty g), fun p hp => absurd hp (Table.not_mem_empty p)⟩

theorem Linked.of_retains (h : Linked db) (hr : Retains db db') (hg : db'.grades = db.grades)
    (hp : ∀ p' ∈ db'.payouts, p'.Linked db' ∨
      ∃ p ∈ db.payouts, p.SameTerms p' ∧ p'.periodId = p.periodId) : Linked db' := by
  refine ⟨fun g hmem => ?_, fun p' hp' => ?_⟩
  · rw [hg] at hmem
    exact (h.grades g hmem).mono hr
  · rcases hp p' hp' with hnew | ⟨p, hmem, hterms, hperiod⟩
    · exact hnew
    · exact (h.payouts p hmem).mono hr hterms (Or.inl hperiod)

/-- The rows of an `UPDATE` that neither changes the terms nor the period of a payout. -/
theorem updated_terms {P : Table Payout} {q : Payout → Bool} {f : Payout → Payout}
    {h : Table.Keeps f} {p' : Payout} (hp' : p' ∈ P.updateWhere q f h)
    (hterms : ∀ p : Payout, p.SameTerms (f p))
    (hperiod : ∀ p : Payout, (f p).periodId = p.periodId) :
    ∃ p ∈ P, p.SameTerms p' ∧ p'.periodId = p.periodId := by
  obtain ⟨p, hp, rfl⟩ := (Table.mem_updateWhere h).mp hp'
  refine ⟨p, hp, ?_⟩
  split
  · exact ⟨hterms p, hperiod p⟩
  · exact ⟨Payout.SameTerms.refl p, rfl⟩

/-- Every effect keeps the foreign keys. -/
theorem Linked.effect {r : Request} (h : Linked db) (he : Effect r db db') : Linked db' := by
  have hr := he.retains
  cases he with
  -- neither grades nor payouts
  | logged | rubricAdded | superseded | joined | recalibrated | queued | reclaimed | released
  | claimed | retargeted =>
    exact h.of_retains hr rfl (fun p hp => Or.inr ⟨p, hp, Payout.SameTerms.refl p, rfl⟩)
  | paused =>
    refine h.of_retains hr rfl (fun p' hp' => Or.inr ?_)
    exact updated_terms (f := Payout.withhold) (h := fun _ => rfl) hp' (fun _ => rfl) (fun _ => rfl)
  | @statusSet e status =>
    refine h.of_retains hr rfl (fun p' hp' => Or.inr ?_)
    change p' ∈ payoutsAfterStatus db e status at hp'
    unfold payoutsAfterStatus at hp'
    split at hp'
    · exact updated_terms hp' (fun _ => rfl) (fun _ => rfl)
    · exact ⟨p', hp', Payout.SameTerms.refl p', rfl⟩
  | @graded e task rubric grade grades tasks consensus body hop hx ht hs hh hrub hg hi hc =>
    refine ⟨fun g hmem => ?_, fun p hp => ?_⟩
    · rcases (Table.mem_insert hi).mp hmem with hold | rfl
      · exact (h.grades g hold).mono hr
      · have hlinked : g.Linked db := by
          rw [hg]
          exact ⟨⟨e, hx⟩, ⟨rubric, hrub⟩, fun s hs => gradeScores_criteria hs⟩
        exact hlinked.mono hr
    · exact (h.payouts p hp).mono hr (Payout.SameTerms.refl p) (Or.inl rfl)
  | reviewed hop hb hg htask ht hallow hv hi hp =>
    refine h.of_retains hr rfl (fun p' hp' => ?_)
    -- old payouts as before, new ones of the graded task
    rcases hp.mem hp' with hold | hnew
    · exact Or.inr ⟨p', hold, Payout.SameTerms.refl p', rfl⟩
    · refine Or.inl (hnew.linked hr ht (fun x hx => ?_))
      obtain rfl := List.mem_singleton.mp hx
      exact ⟨Table.get_mem hg, htask.symm⟩
  | adjudicated hop hrow hs hd ht hi hp =>
    refine h.of_retains hr rfl (fun p' hp' => ?_)
    rcases hp.mem hp' with hold | hnew
    · exact Or.inr ⟨p', hold, Payout.SameTerms.refl p', rfl⟩
    · exact Or.inl (hnew.linked hr ht (fun x hx => mem_gradesFor.mp hx))
  | @closed period periods actor hop hi =>
    refine ⟨fun g hmem => (h.grades g hmem).mono hr, fun p' hp' => ?_⟩
    obtain ⟨p, hp, rfl⟩ := (Table.mem_updateWhere (f := Payout.paidIn period.id r.env.now)
      (fun _ => rfl)).mp hp'
    split
    -- a paid row names the period that was just added
    · refine (h.payouts p hp).mono hr rfl (Or.inr (fun k hk => ?_))
      obtain rfl := Option.some.inj hk
      exact ⟨period, periods.get_of_mem ((Table.mem_insert hi).mpr (Or.inr rfl))⟩
    · exact (h.payouts p hp).mono hr (Payout.SameTerms.refl p) (Or.inl rfl)

theorem Linked.after (rs : List Request) : Linked (after rs) :=
  after_invariant (fun h he => h.effect he) .empty rs

/-- The expert of a payout exists. -/
theorem Linked.payoutExpert (h : Linked db) {p : Payout} (hp : p ∈ db.payouts) :
    ∃ e, db.experts.get p.expertId = some e := by
  obtain ⟨g, hg, hexp, _⟩ := (h.payouts p hp).grade
  rw [hexp]
  exact (h.grades g (Table.get_mem hg)).expert

end Links

end Panelist
