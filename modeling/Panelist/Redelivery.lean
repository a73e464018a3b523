import Panelist.Lifecycle

/-! Which grade an agreed round delivers in the end. Decisions are final, so a
pick that is approved stays, and one that is rejected is replaced from the grades
approved so far. -/
namespace Panelist
open Relational Transaction

section OneEffect
variable {r : Request} {db db' : Db}

/-- A decision is never withdrawn or changed. -/
theorem Effect.decision_mono (he : Effect r db db') {k : Uuid} {d : ReviewDecision}
    (h : decision db k = some d) : decision db' k = some d := by
  obtain ⟨v, hv, rfl⟩ := Option.map_eq_some_iff.mp h
  cases he with
  | reviewed _ _ _ _ _ _ _ hi =>
    exact congrArg (Option.map Review.decision) (Table.get_insert_of_some hi hv)
  | adjudicated _ _ _ _ _ hi =>
    exact congrArg (Option.map Review.decision) (Table.get_insertAll_of_some hi hv)
  | _ => exact h

/-- An agreed round stays agreed over the same grades. Its pick changes only when
a review rejects it, to the grade a redelivery picks. -/
structure RoundMove (r : Request) (db db' : Db) (k : Uuid) (c c' : Consensus) : Prop where
  stored : db'.consensus.get k = some c'
  agreed : c'.status = .agreed
  grades : gradesOf db' k = gradesOf db k
  pick : c'.deliveredGradeId = c.deliveredGradeId ∨
    ∃ p keyId reason actor, r.op = .review keyId ⟨p, .reject, reason⟩ actor ∧
      c.deliveredGradeId = some p ∧ decision db p = none ∧ decision db' p = some .reject ∧
      c'.deliveredGradeId = repick db' k

theorem Effect.roundMove (he : Effect r db db') (h : Consistent db) {k : Uuid} {c : Consensus}
    (hc : db.consensus.get k = some c) (hs : c.status = .agreed) :
    ∃ c', RoundMove r db db' k c c' := by
  have hstay {C : Table Consensus} (hC : C.get k = db.consensus.get k) :
      C.get k = some c := hC.trans hc
  cases he with
  | graded hop hx ht hst hh hrub hg hi hround =>
    subst hg
    rename_i e task rubric grades tasks consensus body
    -- a task that is leased has no round yet
    have hne : task.id ≠ k := by
      rintro rfl
      have hnone := ((h.phase task (Table.get_mem ht)).of_assigned hst).1
      exact absurd (hc.symm.trans hnone) (by simp)
    refine ⟨c, ⟨?_, hs, ?_, Or.inl rfl⟩⟩
    · cases hround with
      | none => exact hc
      | agreed _ _ _ hins => exact Table.get_insert_of_some hins hc
      | split _ _ _ hins => exact Table.get_insert_of_some hins hc
    · exact (gradesOf_insert hi k).trans (if_neg hne)
  | @reviewed grade task v reviews payouts keyId body actor hop hb hg htask ht hallow hv hi hp =>
    -- a rejection of the delivered grade repicks, any other verdict leaves the round
    have hget := Table.get_update db.consensus task.id
      (Consensus.afterReview v.decision grade.id (repick { db with reviews := reviews } task.id))
      (Consensus.afterReview_keeps _ _ _) k
    by_cases hk : task.id = k
    · rw [if_pos hk, hc] at hget
      subst hk
      by_cases hm : v.decision = .reject ∧ c.deliveredGradeId = some grade.id
      · have hc' : c.afterReview v.decision grade.id
            (repick { db with reviews := reviews } task.id) =
            c.delivering (repick { db with reviews := reviews } task.id) :=
          if_pos ⟨hm.1, hs, hm.2⟩
        rw [Option.map_some, hc'] at hget
        have hvg : v.gradeId = grade.id := congrArg Review.gradeId hv
        have hvd : body.decision = .reject := (congrArg Review.decision hv).symm.trans hm.1
        refine ⟨_, ⟨hget, hs, rfl, Or.inr ⟨grade.id, keyId, body.reason, actor, ?_, hm.2,
          hvg ▸ decision_of_insert hi, ?_, rfl⟩⟩⟩
        · rw [hop, ← hb, ← hvd]
        · exact (decision_insert hi grade.id).trans ((if_pos hvg).trans (congrArg some hm.1))
      · have hc' : c.afterReview v.decision grade.id
            (repick { db with reviews := reviews } task.id) = c :=
          if_neg (fun hn => hm ⟨hn.1, hn.2.2⟩)
        rw [Option.map_some, hc'] at hget
        exact ⟨c, ⟨hget, hs, rfl, Or.inl rfl⟩⟩
    · rw [if_neg hk] at hget
      exact ⟨c, ⟨hstay hget, hs, rfl, Or.inl rfl⟩⟩
  | @adjudicated row task delivered reviews payouts reason keyId actor hop hrow hst =>
    have hne : task.id ≠ k := by
      rintro rfl
      -- an open adjudication is not agreed
      rw [Option.some.inj (hrow.symm.trans hc)] at hst
      exact absurd (hst.symm.trans hs) (by decide)
    have hget := Table.get_update db.consensus task.id
      (Consensus.adjudicate delivered.id keyId reason r.env.now) (fun _ => rfl) k
    rw [if_neg hne] at hget
    exact ⟨c, ⟨hstay hget, hs, rfl, Or.inl rfl⟩⟩
  | _ => exact ⟨c, ⟨hc, hs, rfl, Or.inl rfl⟩⟩

end OneEffect

/-! ### Along a run -/

/-- The round on `k` is agreed over `gs` and its pick is `p`, unless `p` was rejected. -/
def Picked (k p : Uuid) (gs : List Grade) (db : Db) : Prop :=
  Consistent db ∧ gradesOf db k = gs ∧ ∃ c, db.consensus.get k = some c ∧ c.status = .agreed ∧
    (decision db p = some .reject ∨ c.deliveredGradeId = some p)

theorem Picked.effect {r : Request} {db db' : Db} {k p : Uuid} {gs : List Grade}
    (h : Picked k p gs db) (he : Effect r db db') : Picked k p gs db' := by
  obtain ⟨hcons, hgs, c, hc, hs, hp⟩ := h
  obtain ⟨c', hmove⟩ := he.roundMove hcons hc hs
  refine ⟨hcons.effect he, hmove.grades.trans hgs, c', hmove.stored, hmove.agreed, ?_⟩
  rcases hp with hp | hp
  · exact Or.inl (he.decision_mono hp)
  · rcases hmove.pick with hsame | ⟨q, _, _, _, _, hq, _, hrej, _⟩
    · exact Or.inr (hsame.trans hp)
    · rw [← Option.some.inj (hq.symm.trans hp)]
      exact Or.inl hrej

/-- The round on `k` delivers `q` for good, since `q` is approved. -/
def Fixed (k q : Uuid) (db : Db) : Prop :=
  Consistent db ∧ decision db q = some .approve ∧
    ∃ c, db.consensus.get k = some c ∧ c.status = .agreed ∧ c.deliveredGradeId = some q

theorem Fixed.effect {r : Request} {db db' : Db} {k q : Uuid} (h : Fixed k q db)
    (he : Effect r db db') : Fixed k q db' := by
  obtain ⟨hcons, hq, c, hc, hs, hp⟩ := h
  obtain ⟨c', hmove⟩ := he.roundMove hcons hc hs
  refine ⟨hcons.effect he, he.decision_mono hq, c', hmove.stored, hmove.agreed, ?_⟩
  rcases hmove.pick with hsame | ⟨x, _, _, _, _, hx, hnone, _, _⟩
  · exact hsame.trans hp
  · rw [Option.some.inj (hx.symm.trans hp), hq] at hnone
    exact absurd hnone (by simp)

/-- All grades on the task are decided. -/
def Decided (db : Db) (k : Uuid) : Prop := ∀ g ∈ gradesOf db k, (decision db g.id).isSome

/-- With every grade decided an agreed round delivers an approved grade, or none
when every grade was rejected. -/
theorem decided_pick {db : Db} (h : Consistent db) {k : Uuid} {c : Consensus}
    (hc : db.consensus.get k = some c) (hs : c.status = .agreed) (hall : Decided db k) :
    (∀ d, c.deliveredGradeId = some d →
      (∃ g ∈ gradesOf db k, g.id = d) ∧ decision db d = some .approve) ∧
      (c.deliveredGradeId = none ↔ ∀ g ∈ gradesOf db k, decision db g.id = some .reject) := by
  -- the phase of the task says what an agreed round holds
  obtain ⟨t, ht, htk⟩ := h.roundTask c (Table.get_mem hc)
  obtain rfl : t.id = k := htk.trans (Table.get_pk hc)
  have hphase := h.phase t ht
  rw [hc] at hphase
  cases hphase with
  | adjudicating _ _ _ _ hst => exact absurd (hst.symm.trans hs) (by decide)
  | adjudicated _ _ _ _ hst => exact absurd (hst.symm.trans hs) (by decide)
  | agreed _ _ _ _ _ _ _ hp =>
    cases hd : c.deliveredGradeId with
    | none =>
      rw [hd] at hp
      exact ⟨fun d he => absurd he (by simp), fun _ => hp, fun _ => rfl⟩
    | some d =>
      rw [hd] at hp
      obtain ⟨⟨g, hg, rfl⟩, hr⟩ := hp
      -- the one delivered is not rejected, and it is decided
      have happ : decision db g.id = some .approve := by
        obtain ⟨x, hx⟩ := Option.isSome_iff_exists.mp (hall g hg)
        cases x with
        | approve => exact hx
        | reject => exact absurd hx hr
      refine ⟨fun d he => ?_, fun he => absurd he (by simp), fun hrej => ?_⟩
      · rw [← Option.some.inj he]
        exact ⟨⟨g, hg, rfl⟩, happ⟩
      · exact absurd ((hrej g hg).symm.trans happ) (by simp)

theorem agreed_pick_mem {db : Db} (h : Consistent db) {k p : Uuid} {c : Consensus}
    (hc : db.consensus.get k = some c) (hs : c.status = .agreed)
    (hp : c.deliveredGradeId = some p) : ∃ g ∈ gradesOf db k, g.id = p := by
  obtain ⟨t, ht, htk⟩ := h.roundTask c (Table.get_mem hc)
  obtain rfl : t.id = k := htk.trans (Table.get_pk hc)
  have hphase := h.phase t ht
  rw [hc] at hphase
  cases hphase with
  | adjudicating _ _ _ _ hst => exact absurd (hst.symm.trans hs) (by decide)
  | adjudicated _ _ _ _ hst => exact absurd (hst.symm.trans hs) (by decide)
  | agreed _ _ _ _ _ _ _ hdel =>
    rw [hp] at hdel
    exact hdel.1

/-- When the only approved grade is `q`, a redelivery picks `q`. -/
theorem repick_only {db : Db} {k q : Uuid}
    (h : ∀ g ∈ gradesOf db k, decision db g.id = some .approve ↔ g.id = q)
    (hq : ∃ g ∈ gradesOf db k, g.id = q) : repick db k = some q := by
  obtain ⟨g, hg, rfl⟩ := hq
  have hga := (h g hg).mpr rfl
  have hmem : g ∈ (unrejected db k).filter (fun x => decision db x.id = some .approve) := by
    rw [List.mem_filter, mem_unrejected]
    exact ⟨⟨mem_gradesOf.mp hg, by simp [hga]⟩, by simpa using hga⟩
  -- a grade in play is approved, so only approved ones are candidates
  have hcand : redeliveryCandidates db k =
      (unrejected db k).filter (fun x => decision db x.id = some .approve) := by
    rw [redeliveryCandidates_eq, if_neg (List.ne_nil_of_mem hmem)]
  cases hp : closestToMean (redeliveryCandidates db k) with
  | none =>
    rw [closestToMean_eq_none, hcand] at hp
    exact absurd (hp ▸ hmem) (by simp)
  | some x =>
    have hx := closestToMean_mem hp
    rw [hcand, List.mem_filter, mem_unrejected] at hx
    have hxa : decision db x.id = some .approve := by simpa using hx.2
    rw [repick, hp, Option.map_some, (h x (mem_gradesOf.mpr hx.1.1)).mp hxa]

/-- The outcome of a round over `gs` that first picked `p`. -/
structure Outcome (db : Db) (k p : Uuid) (gs : List Grade) (c : Consensus) : Prop where
  stored : db.consensus.get k = some c
  agreed : c.status = .agreed
  grades : gradesOf db k = gs
  keeps : decision db p = some .approve → c.deliveredGradeId = some p
  delivers : ∀ d, c.deliveredGradeId = some d →
    (∃ g ∈ gs, g.id = d) ∧ decision db d = some .approve
  nothing : c.deliveredGradeId = none ↔ ∀ g ∈ gs, decision db g.id = some .reject

section Runs
variable {rs qs qs' : List Request} {k p q : Uuid} {c : Consensus}

theorem picked_after (hc : (after rs).consensus.get k = some c) (hs : c.status = .agreed)
    (hp : c.deliveredGradeId = some p) (qs : List Request) :
    Picked k p (gradesOf (after rs) k) (after (rs ++ qs)) :=
  after_append_invariant (fun h he => Picked.effect h he)
    ⟨Consistent.after rs, rfl, c, hc, hs, Or.inr hp⟩ qs

theorem outcome_of_decided (hc : (after rs).consensus.get k = some c) (hs : c.status = .agreed)
    (hp : c.deliveredGradeId = some p) (hall : Decided (after (rs ++ qs)) k) :
    ∃ c', Outcome (after (rs ++ qs)) k p (gradesOf (after rs) k) c' := by
  obtain ⟨hcons, hgs, c', hc', hs', hpick⟩ := picked_after hc hs hp qs
  obtain ⟨hdel, hnone⟩ := decided_pick hcons hc' hs' hall
  rw [hgs] at hdel hnone
  refine ⟨c', hc', hs', hgs, fun happ => ?_, hdel, hnone⟩
  rcases hpick with hrej | hpick
  · exact absurd (hrej.symm.trans happ) (by simp)
  · exact hpick

/-- Two outcomes with the same decisions deliver the same grade when the first
pick is approved or no two grades are. -/
theorem Outcome.same {db db' : Db} {gs : List Grade} {c c' : Consensus}
    (h : Outcome db k p gs c) (h' : Outcome db' k p gs c')
    (hsame : ∀ g ∈ gs, decision db g.id = decision db' g.id) (hpmem : ∃ g ∈ gs, g.id = p)
    (hone : decision db p = some .approve ∨ ∀ g ∈ gs, ∀ g' ∈ gs,
      decision db g.id = some .approve → decision db g'.id = some .approve → g.id = g'.id) :
    c.deliveredGradeId = c'.deliveredGradeId := by
  -- an approved pick is kept; otherwise at most one grade can be delivered
  rcases hone with happ | hone
  · obtain ⟨g, hg, rfl⟩ := hpmem
    rw [h.keeps happ, h'.keeps ((hsame g hg).symm.trans happ)]
  · have hnone : c.deliveredGradeId = none ↔ c'.deliveredGradeId = none := by
      rw [h.nothing, h'.nothing]
      exact forall₂_congr (fun g hg => by rw [hsame g hg])
    cases hd : c.deliveredGradeId with
    | none => exact (hnone.mp hd).symm
    | some d =>
      cases hd' : c'.deliveredGradeId with
      | none => exact absurd (hd.symm.trans (hnone.mpr hd')) (by simp)
      | some d' =>
        obtain ⟨⟨g, hg, rfl⟩, ha⟩ := h.delivers d hd
        obtain ⟨⟨g', hg', rfl⟩, ha'⟩ := h'.delivers d' hd'
        rw [hone g hg g' hg' ha ((hsame g' hg').trans ha')]

/-- A rejection of the pick while `q` is the only approved grade fixes `q`. -/
theorem fixed_of_reject {r : Request} {db : Db} {x : Response} {keyId : Uuid}
    {reason : Option String} {actor : String} (h : Consistent db)
    (hc : db.consensus.get k = some c) (hs : c.status = .agreed)
    (hp : c.deliveredGradeId = some p) (hop : r.op = .review keyId ⟨p, .reject, reason⟩ actor)
    (hstep : step r db = .ok (commit step r db, x))
    (hq : ∀ g ∈ gradesOf db k, decision db g.id = some .approve ↔ g.id = q)
    (hqmem : ∃ g ∈ gradesOf db k, g.id = q) : Fixed k q (commit step r db) := by
  have hcons := effects_preserve (fun h he => Consistent.effect h he) (step_effects hstep) h
  have hqdec : decision db q = some .approve := by
    obtain ⟨g, hg, rfl⟩ := hqmem
    exact (hq g hg).mpr rfl
  have hqdec' : decision (commit step r db) q = some .approve :=
    effects_preserve (P := fun d => decision d q = some .approve)
      (fun h he => he.decision_mono h) (step_effects hstep) hqdec
  have hpmem := agreed_pick_mem h hc hs hp
  simp only [step, hop] at hstep
  obtain ⟨v, hreview, -⟩ := answer_ok hstep
  obtain ⟨grade, task, reviews, payouts, experts, changes, events, hg, ht, _, hv, hi, _, _, hdb⟩ :=
    review_ok hreview
  have hgid : grade.id = p := Table.get_pk hg
  -- the rejected grade belongs to the round's task
  have htk : task.id = k := by
    obtain ⟨g, hgk, hgp⟩ := hpmem
    obtain ⟨hgmem, hgt⟩ := mem_gradesOf.mp hgk
    have hsame : grade = g := db.grades.eq_of_pk (Table.get_mem hg) hgmem (hgid.trans hgp.symm)
    exact (Table.get_pk ht).trans ((congrArg Grade.taskId hsame).trans hgt)
  have hvp : v.gradeId = p := (congrArg Review.gradeId hv).trans hgid
  have hvd : v.decision = .reject := congrArg Review.decision hv
  -- with the rejection recorded the approved grades are still those before: only `q`
  have hpick : repick { db with reviews := reviews } k = some q := by
    refine repick_only (fun g hgk => ?_) hqmem
    rw [decision_insert hi, hvp, hvd]
    split_ifs with hpg
    · have hnone : decision db p = none := hvp ▸ decision_of_insert hi
      refine ⟨fun he => absurd he (by simp), fun he => ?_⟩
      rw [hpg, (hq g hgk).mpr he] at hnone
      exact absurd hnone (by simp)
    · exact hq g hgk
  have hget := Table.get_update db.consensus task.id
    (Consensus.afterReview v.decision grade.id (repick { db with reviews := reviews } task.id))
    (Consensus.afterReview_keeps _ _ _) k
  have hafter : c.afterReview .reject p (some q) = c.delivering (some q) := if_pos ⟨rfl, hs, hp⟩
  rw [if_pos htk, hc, htk, hpick, hvd, hgid, Option.map_some, hafter] at hget
  refine ⟨hcons, hqdec', c.delivering (some q), ?_, hs, rfl⟩
  rw [hdb]
  simpa only [htk, hpick, hvd, hgid] using hget

/-- What an agreed round delivers once every grade is decided, over every order
of the decisions and whatever else runs between them: the first pick if it is
approved, else an approved grade, else nothing. The order matters only when the
first pick is rejected and several grades are approved, and then the only grade
approved before the rejection is the one delivered. -/
theorem redelivery_outcome (hc : (after rs).consensus.get k = some c) (hs : c.status = .agreed)
    (hp : c.deliveredGradeId = some p) :
    (∀ qs, Decided (after (rs ++ qs)) k →
      ∃ c', Outcome (after (rs ++ qs)) k p (gradesOf (after rs) k) c') ∧
    (∀ qs qs' c₁ c₂, Decided (after (rs ++ qs)) k → Decided (after (rs ++ qs')) k →
      (∀ g ∈ gradesOf (after rs) k,
        decision (after (rs ++ qs)) g.id = decision (after (rs ++ qs')) g.id) →
      (decision (after (rs ++ qs)) p = some .approve ∨
        ∀ g ∈ gradesOf (after rs) k, ∀ g' ∈ gradesOf (after rs) k,
          decision (after (rs ++ qs)) g.id = some .approve →
          decision (after (rs ++ qs)) g'.id = some .approve → g.id = g'.id) →
      (after (rs ++ qs)).consensus.get k = some c₁ →
      (after (rs ++ qs')).consensus.get k = some c₂ →
      c₁.deliveredGradeId = c₂.deliveredGradeId) ∧
    (∀ qs r qs' q y keyId reason actor, r.op = .review keyId ⟨p, .reject, reason⟩ actor →
      step r (after (rs ++ qs)) = .ok y →
      (∃ g ∈ gradesOf (after rs) k, g.id = q) →
      (∀ g ∈ gradesOf (after rs) k,
        decision (after (rs ++ qs)) g.id = some .approve ↔ g.id = q) →
      ((after (rs ++ qs ++ [r] ++ qs')).consensus.get k).map Consensus.deliveredGradeId =
        some (some q)) := by
  have hpmem := agreed_pick_mem (Consistent.after rs) hc hs hp
  refine ⟨fun qs hall => outcome_of_decided hc hs hp hall,
    fun qs qs' c₁ c₂ hall hall' hsame hone h₁ h₂ => ?_,
    fun qs r qs' q ⟨db', x⟩ keyId reason actor hop hstep hqmem hq => ?_⟩
  · obtain ⟨c, hout⟩ := outcome_of_decided hc hs hp hall
    obtain ⟨c', hout'⟩ := outcome_of_decided hc hs hp hall'
    rw [← Option.some.inj (hout.stored.symm.trans h₁),
      ← Option.some.inj (hout'.stored.symm.trans h₂)]
    exact hout.same hout' hsame hpmem hone
  -- the pick had no verdict when the rejection came, so it was still the first pick
  · obtain ⟨hcons, hgs, c', hc', hs', hpick⟩ := picked_after hc hs hp qs
    have hnone : decision (after (rs ++ qs)) p = none := by
      simp only [step, hop] at hstep
      obtain ⟨v, hreview, -⟩ := answer_ok hstep
      obtain ⟨grade, _, _, _, _, _, _, hg, _, _, hv, hi, _⟩ := review_ok hreview
      have hvp : v.gradeId = p := (congrArg Review.gradeId hv).trans (Table.get_pk hg)
      exact hvp ▸ decision_of_insert hi
    rw [← hgs] at hqmem hq
    rw [← commit_of_ok step hstep] at hstep
    have hfixed := fixed_of_reject hcons hc' hs'
      (hpick.resolve_left (fun hrej => absurd (hrej.symm.trans hnone) (by simp))) hop hstep hq hqmem
    have hrun : after (rs ++ qs ++ [r]) = commit step r (after (rs ++ qs)) := run_concat _ _ _ _
    rw [← hrun] at hfixed
    obtain ⟨_, _, c₁, hc₁, _, hd⟩ :=
      after_append_invariant (fun h he => Fixed.effect h he) hfixed qs'
    rw [hc₁, Option.map_some, hd]

open Scenario in
/-- A round of three that picked grade 1500: approving that pick delivers it, and
rejecting it after the approval of 1700 alone delivers 1700. -/
theorem redelivery_outcome_trio :
    (∃ c', Outcome (after (trio ++ reviews [(1300, .reject), (1500, .approve), (1700, .approve)]))
      1100 1500 (gradesOf (after trio) 1100) c') ∧
    ((after (trio ++ reviews [(1700, .approve)] ++
      [call 19 (.review 7 ⟨1500, .reject, none⟩ "r")] ++
      reviews [])).consensus.get 1100).map Consensus.deliveredGradeId = some (some 1700) := by
  have hget : ((after trio).consensus.get 1100).map (fun c => (c.status, c.deliveredGradeId)) =
      some (.agreed, some 1500) := by decide +kernel
  obtain ⟨c, hc, hcd⟩ := Option.map_eq_some_iff.mp hget
  obtain ⟨hs, hp⟩ := Prod.mk.inj hcd
  obtain ⟨hdecided, -, hfirst⟩ := redelivery_outcome hc hs hp
  refine ⟨hdecided _ (by unfold Decided; decide +kernel), ?_⟩
  obtain ⟨y, hy⟩ := exists_of_isOk (m := step (call 19 (.review 7 ⟨1500, .reject, none⟩ "r"))
    (after (trio ++ reviews [(1700, .approve)]))) (by decide +kernel)
  exact hfirst _ _ _ 1700 y 7 none "r" rfl hy (by decide +kernel) (by decide +kernel)

open Scenario in
/-- The same three decisions in two orders deliver two different grades: the pick
1500 is rejected and both 1300 and 1700 are approved. -/
theorem redelivery_depends_on_order :
    ((after trio).consensus.get 1100).map (fun c => (c.status, c.gradeCount, c.deliveredGradeId)) =
        some (.agreed, 3, some 1500) ∧
      [1300, 1500, 1700].map (decision (after (trio ++
        reviews [(1300, .approve), (1500, .reject), (1700, .approve)]))) =
        [some .approve, some .reject, some .approve] ∧
      [1300, 1500, 1700].map (decision (after (trio ++
        reviews [(1700, .approve), (1500, .reject), (1300, .approve)]))) =
        [some .approve, some .reject, some .approve] ∧
      ((after (trio ++ reviews [(1300, .approve), (1500, .reject), (1700, .approve)])).consensus.get
        1100).map Consensus.deliveredGradeId = some (some 1300) ∧
      ((after (trio ++ reviews [(1700, .approve), (1500, .reject), (1300, .approve)])).consensus.get
        1100).map Consensus.deliveredGradeId = some (some 1700) := by
  refine ⟨?_, ?_, ?_, ?_, ?_⟩ <;> decide +kernel

end Runs

end Panelist
