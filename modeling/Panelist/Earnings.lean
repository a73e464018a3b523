import Panelist.Lifecycle
import Panelist.References

/-! Which grades are paid, how much, and that what was agreed at the creation of
a payout is never rewritten. -/
namespace Panelist
open Relational Transaction

/-- The operations that decide on grades. -/
def Op.decides : Op → Bool
  | .review .. => true
  | .resolve .. => true
  | _ => false

/-- No decision is recorded and no payout appears. -/
structure Undecided (db db' : Db) : Prop where
  reviews : db'.reviews = db.reviews
  payouts : ∃ f, ∃ hf : Table.Keeps f, (∀ p : Payout, p.SameTerms (f p)) ∧
    db'.payouts = db.payouts.map f hf

namespace Undecided
variable {db db' db'' : Db}

theorem of_same (hr : db'.reviews = db.reviews) (hp : db'.payouts = db.payouts) :
    Undecided db db' := by
  refine ⟨hr, id, fun _ => rfl, Payout.SameTerms.refl, ?_⟩
  rw [hp]
  exact Table.ext (List.map_id _).symm

theorem of_update (hr : db'.reviews = db.reviews) {q : Payout → Bool} {f : Payout → Payout}
    (hf : Table.Keeps f) (hterms : ∀ p : Payout, p.SameTerms (f p))
    (hp : db'.payouts = db.payouts.updateWhere q f hf) : Undecided db db' := by
  refine ⟨hr, _, hf.ite q, fun p => ?_, hp⟩
  split
  · exact hterms p
  · exact Payout.SameTerms.refl p

theorem trans (h : Undecided db db') (h' : Undecided db' db'') : Undecided db db'' := by
  obtain ⟨hr, f, hf, hterms, hp⟩ := h
  obtain ⟨hr', g, hg, hterms', hp'⟩ := h'
  refine ⟨hr'.trans hr, fun p => g (f p), fun p => (hg (f p)).trans (hf p),
    fun p => (hterms p).trans (hterms' (f p)), ?_⟩
  rw [hp', hp]
  exact Table.ext (List.map_map ..)

theorem decision (h : Undecided db db') (k : Uuid) :
    Panelist.decision db' k = Panelist.decision db k := by
  rw [Panelist.decision, Panelist.decision, h.reviews]

theorem paid_iff (h : Undecided db db') (k : Uuid) :
    (∃ p ∈ db'.payouts, p.gradeId = k) ↔ ∃ p ∈ db.payouts, p.gradeId = k := by
  obtain ⟨_, f, hf, hterms, hp⟩ := h
  have hid (p : Payout) : (f p).gradeId = p.gradeId := by rw [hterms p]
  rw [hp]
  constructor
  · rintro ⟨p', hp', rfl⟩
    obtain ⟨p, hmem, rfl⟩ := (Table.mem_map hf).mp hp'
    exact ⟨p, hmem, (hid p).symm⟩
  · rintro ⟨p, hmem, rfl⟩
    exact ⟨f p, (Table.mem_map hf).mpr ⟨p, hmem, rfl⟩, hid p⟩

end Undecided

/-- Only reviews and adjudications decide and pay. -/
theorem Effect.undecided {r : Request} {db db' : Db} (h : Effect r db db')
    (hop : r.op.decides = false) : Undecided db db' := by
  cases h with
  | logged | rubricAdded | superseded | joined | recalibrated | queued | reclaimed | released
  | claimed | retargeted | graded => exact .of_same rfl rfl
  | paused => exact .of_update rfl (fun _ => rfl) (f := Payout.withhold) (fun _ => rfl) rfl
  | @statusSet e status =>
    by_cases hback : e.status = .paused ∧ status = .active
    · exact .of_update rfl Payout.released_keeps (fun _ => rfl) (if_pos hback)
    · exact .of_same rfl (if_neg hback)
  | @closed period =>
    exact .of_update rfl (fun _ => rfl) (f := Payout.paidIn period.id r.env.now) (fun _ => rfl) rfl
  | reviewed hrev => exact absurd hop (by simp [hrev, Op.decides])
  | adjudicated hres => exact absurd hop (by simp [hres, Op.decides])

theorem Effects.undecided {r : Request} {db db' : Db} (h : Effects r db db')
    (hop : r.op.decides = false) : Undecided db db' := by
  induction h with
  | refl => exact .of_same rfl rfl
  | tail _ hlast ih => exact ih.trans (hlast.undecided hop)

/-- What a successful request does: a review, an adjudication, or neither. -/
theorem step_decides {r : Request} {db db' : Db} {x : Response} (h : step r db = .ok (db', x)) :
    (∃ keyId body actor v, r.op = .review keyId body actor ∧
      review r.env db keyId body actor = .ok (db', v)) ∨
    (∃ taskId gradeId reason keyId actor c, r.op = .resolve taskId gradeId reason keyId actor ∧
      resolve r.env db taskId gradeId reason keyId actor = .ok (db', c)) ∨
    r.op.decides = false := by
  cases hop : r.op with
  | review keyId body actor =>
    simp only [step, hop] at h
    obtain ⟨v, hv, -⟩ := answer_ok h
    exact Or.inl ⟨keyId, body, actor, v, rfl, hv⟩
  | resolve taskId gradeId reason keyId actor =>
    simp only [step, hop] at h
    obtain ⟨c, hc, -⟩ := answer_ok h
    exact Or.inr (Or.inl ⟨taskId, gradeId, reason, keyId, actor, c, rfl, hc⟩)
  | _ => exact Or.inr (Or.inr rfl)

/-- `r` resolves, in `db`, an adjudication that outvotes the grade `k`, while
outvoted grades are paid. -/
def Outvotes (k : Uuid) (db : Db) (r : Request) : Prop :=
  ∃ g taskId deliveredId reason keyId actor,
    r.op = .resolve taskId deliveredId reason keyId actor ∧ (step r db).isOk = true ∧
    db.grades.get k = some g ∧ g.taskId = taskId ∧ k ≠ deliveredId ∧
    r.env.settings.consensusOutvotedPayout ≠ .none

/-- The expert's rate for a type of task: their own, else the card of their tier
for the type, else the tier's default card. -/
def BaseRate (db : Db) (expert : Expert) (taskType : String) (cents : ℤ) : Prop :=
  expert.taskRateCents = some cents ∨ expert.taskRateCents = none ∧
    ∃ card, (db.rateCards.get (expert.tier, taskType)).or
      (db.rateCards.get (expert.tier, "default")) = some card ∧ card.rateCents = cents

/-- `r` creates, in `db`, a payout on the terms of `p`. -/
structure Creates (p : Payout) (db : Db) (r : Request) : Prop where
  first : ∀ q ∈ db.payouts, q.gradeId ≠ p.gradeId
  payable : PayableAmount p.amountCents
  terms : ∃ expert cents, db.experts.get p.expertId = some expert ∧ p.tier = expert.tier ∧
    BaseRate db expert p.taskType cents ∧
    (decision (commit step r db) p.gradeId = some .approve ∧ p.amountCents = payoutAmount cents 1 ∨
      Outvotes p.gradeId db r ∧ p.amountCents = payoutAmount cents
        (if r.env.settings.consensusOutvotedPayout = .full then 1
        else r.env.settings.consensusOutvotedRate))

theorem Creates.of_terms {p p' : Payout} {db : Db} {r : Request} (h : Creates p db r)
    (hterms : p.SameTerms p') : Creates p' db r := by
  obtain ⟨hfirst, hpayable, hterms'⟩ := h
  rw [hterms]
  exact ⟨hfirst, hpayable, hterms'⟩

section Steps
variable {env : Env} {db db' : Db} {task : Task} {share : Grade → Option ℚ} {gs : List Grade}
  {P P' : Table Payout} {r : Request}

theorem baseRate_iff {expert : Expert} {taskType : String} {cents : ℤ} :
    rateFor db expert taskType = .ok cents ↔ BaseRate db expert taskType cents := by
  unfold rateFor BaseRate
  cases expert.taskRateCents <;> simp

theorem Payments.paid_iff (h : Payments env db task share gs P P') (k : Uuid) :
    (∃ p ∈ P', p.gradeId = k) ↔
      (∃ p ∈ P, p.gradeId = k) ∨ ∃ g ∈ gs, g.id = k ∧ (share g).isSome := by
  constructor
  · rintro ⟨p, hp, rfl⟩
    rcases h.mem hp with hold | ⟨g, hg, f, _, _, hf, _, _, _, rfl⟩
    · exact Or.inl ⟨p, hold, rfl⟩
    · exact Or.inr ⟨g, hg, rfl, by rw [hf]; rfl⟩
  · rintro (⟨p, hp, rfl⟩ | ⟨g, hg, rfl, hs⟩)
    · exact ⟨p, h.mono hp, rfl⟩
    · obtain ⟨f, hf⟩ := Option.isSome_iff_exists.mp hs
      exact h.covers hg hf

/-- A row that payments add is for a grade without a payout. -/
theorem Payments.new_or_old (h : Payments env db task share gs P P') {p : Payout} (hp : p ∈ P') :
    p ∈ P ∨ (∀ q ∈ P, q.gradeId ≠ p.gradeId) ∧ PaidRow env db task share gs p := by
  by_cases hold : p ∈ P
  · exact Or.inl hold
  · refine Or.inr ⟨fun q hq he => hold ?_, (h.mem hp).resolve_left hold⟩
    have hsame : q = p := P'.eq_of_pk (h.mono hq) hp he
    rwa [← hsame]

theorem resolveShare_isSome {settings : Settings} {delivered g : Grade} :
    (resolveShare settings delivered g).isSome ↔
      g.id = delivered.id ∨ settings.consensusOutvotedPayout ≠ .none := by
  unfold resolveShare
  split_ifs with hd
  · simp [hd]
  · cases settings.consensusOutvotedPayout <;> simp [hd]

theorem outvotes_resolve {k : Uuid} (h : Outvotes k db r) :
    ∃ taskId deliveredId reason keyId actor,
      r.op = .resolve taskId deliveredId reason keyId actor := by
  obtain ⟨_, taskId, deliveredId, reason, keyId, actor, hop, _⟩ := h
  exact ⟨taskId, deliveredId, reason, keyId, actor, hop⟩

theorem not_outvotes {k : Uuid} (hop : r.op.decides = false) : ¬ Outvotes k db r := by
  intro h
  obtain ⟨_, _, _, _, _, hres⟩ := outvotes_resolve h
  exact absurd hop (by simp [hres, Op.decides])

/-- An adjudication decides on all grades of the round and pays its shares. -/
theorem resolve_pays {taskId gradeId : Uuid} {reason : String} {keyId : Uuid} {actor : String}
    {c : Consensus} (h : resolve env db taskId gradeId reason keyId actor = .ok (db', c)) :
    ∃ delivered task, delivered.id = gradeId ∧ task.id = taskId ∧
      db.reviews.insertAll ((gradesFor db taskId).map (verdict env delivered reason keyId)) =
        some db'.reviews ∧
      Payments env db task (resolveShare env.settings delivered) (gradesFor db taskId)
        db.payouts db'.payouts := by
  obtain ⟨row, delivered, task, db₁, events, hrow, hs, hd, hid, ht, hloop, hdb'⟩ := resolve_ok h
  obtain ⟨reviews, payouts, experts, changes, events', hi, hp, hcal, hdb₁⟩ :=
    resolveLoop_ok (gradesFor_experts db taskId) hloop
  rw [hdb', hdb₁]
  exact ⟨delivered, task, hid, Table.get_pk ht, hi, hp⟩

/-- A review decides on one grade and pays it when it approves it. -/
theorem review_pays {keyId : Uuid} {body : ReviewCreate} {actor : String} {v : Review}
    (h : review env db keyId body actor = .ok (db', v)) :
    ∃ grade task, grade.id = v.gradeId ∧ task.id = grade.taskId ∧
      db.reviews.insert v = some db'.reviews ∧
      Payments env db task (reviewShare v.decision) [grade] db.payouts db'.payouts := by
  obtain ⟨grade, task, reviews, payouts, experts, changes, events, hg, ht, hallow, hv, hi, hp, hcal,
    hdb'⟩ := review_ok h
  rw [hdb']
  exact ⟨grade, task, by rw [hv], Table.get_pk ht, hi, hp⟩

theorem reviewShare_isSome {d : ReviewDecision} {g : Grade} :
    (reviewShare d g).isSome ↔ d = .approve := by
  unfold reviewShare
  split_ifs with hd <;> simp [hd]

/-- The decision on a grade of the round after its adjudication. -/
theorem decision_verdicts {taskId : Uuid} {delivered : Grade} {reason : String} {keyId : Uuid}
    (hi : db.reviews.insertAll ((gradesFor db taskId).map (verdict env delivered reason keyId)) =
      some db'.reviews) {g : Grade} (hg : g ∈ gradesFor db taskId) :
    decision db g.id = none ∧
      decision db' g.id = some (if g.id = delivered.id then .approve else .reject) := by
  have hv : verdict env delivered reason keyId g ∈
      (gradesFor db taskId).map (verdict env delivered reason keyId) := List.mem_map_of_mem hg
  refine ⟨?_, decision_insertAll hi hv⟩
  rw [decision, Option.map_eq_none_iff, Table.get_eq_none]
  intro w hw
  exact Table.insertAll_fresh hi hw hv

/-- Only grades without a decision are outvoted. -/
theorem Outvotes.undecided {k : Uuid} (h : Outvotes k db r) : decision db k = none := by
  obtain ⟨g, taskId, deliveredId, reason, keyId, actor, hop, hok, hg, htid, -, -⟩ := h
  obtain ⟨⟨db', x⟩, hstep⟩ := exists_of_isOk hok
  rcases step_decides hstep with ⟨_, _, _, _, hop', -⟩ | ⟨_, _, _, _, _, _, hop', hres⟩ | hop'
  · exact absurd (hop.symm.trans hop') (by simp)
  · obtain ⟨rfl, -⟩ := Op.resolve.inj (hop.symm.trans hop')
    -- the adjudication inserts a review of every grade of the round
    obtain ⟨delivered, task, -, -, hi, -⟩ := resolve_pays hres
    have hround : g ∈ gradesFor db taskId := mem_gradesFor.mpr ⟨Table.get_mem hg, htid⟩
    rw [← Table.get_pk hg]
    exact (decision_verdicts hi hround).1
  · exact absurd hop' (by simp [hop, Op.decides])

/-- The grades that a request newly pays: the ones it approves and the ones it outvotes. -/
theorem paid_step {x : Response} (h : step r db = .ok (db', x)) (k : Uuid) :
    (∃ p ∈ db'.payouts, p.gradeId = k) ↔ (∃ p ∈ db.payouts, p.gradeId = k) ∨
      decision db k = none ∧ decision db' k = some .approve ∨ Outvotes k db r := by
  rcases step_decides h with ⟨keyId, body, actor, v, hop, hrev⟩ |
    ⟨taskId, gradeId, reason, keyId, actor, c, hop, hres⟩ | hop
  · obtain ⟨grade, task, hgrade, htask, hi, hp⟩ := review_pays hrev
    have hno : ¬ Outvotes k db r := by
      intro ho
      obtain ⟨_, _, _, _, _, hres⟩ := outvotes_resolve ho
      exact absurd (hop.symm.trans hres) (by simp)
    have hdec : decision db' k = if v.gradeId = k then some v.decision else decision db k :=
      decision_insert hi k
    rw [hp.paid_iff k, or_iff_left hno]
    apply or_congr_right
    constructor
    -- a review pays its own grade, and only when it approves it
    · rintro ⟨g, hg, rfl, hs⟩
      rw [List.mem_singleton.mp hg, hgrade] at *
      rw [if_pos rfl, reviewShare_isSome.mp hs] at hdec
      exact ⟨decision_of_insert hi, hdec⟩
    · rintro ⟨hnone, happ⟩
      by_cases hk : v.gradeId = k
      · rw [hdec, if_pos hk] at happ
        exact ⟨grade, List.mem_singleton_self grade, hgrade.trans hk,
          reviewShare_isSome.mpr (Option.some.inj happ)⟩
      · rw [hdec, if_neg hk, hnone] at happ
        exact absurd happ (by simp)
  · obtain ⟨delivered, task, hid, htask, hi, hp⟩ := resolve_pays hres
    rw [hp.paid_iff k]
    apply or_congr_right
    constructor
    · rintro ⟨g, hg, rfl, hs⟩
      obtain ⟨hnone, hdec⟩ := decision_verdicts hi hg
      by_cases hd : g.id = delivered.id
      · exact Or.inl ⟨hnone, by rw [hdec, if_pos hd]⟩
      · obtain ⟨hmem, htid⟩ := mem_gradesFor.mp hg
        refine Or.inr ⟨g, taskId, gradeId, reason, keyId, actor, hop, by rw [h]; rfl,
          db.grades.get_of_mem hmem, htid, fun he => hd (he.trans hid.symm), ?_⟩
        exact (resolveShare_isSome.mp hs).resolve_left hd
    -- an approval that is new is one of the verdicts just inserted
    · rintro (⟨hnone, happ⟩ | ⟨g, _, _, _, _, _, hop', _, hg, htid, hne, hrule⟩)
      · obtain ⟨v, hv, hva⟩ := Option.map_eq_some_iff.mp happ
        obtain ⟨hmem, hk⟩ := db'.reviews.get_eq_some.mp hv
        rcases (Table.mem_insertAll hi).mp hmem with hold | hnew
        · have hsome : db.reviews.get k = some v := db.reviews.get_eq_some.mpr ⟨hold, hk⟩
          rw [decision, hsome] at hnone
          exact absurd hnone (by simp)
        · obtain ⟨g, hg, rfl⟩ := List.mem_map.mp hnew
          have hgd : g.id = delivered.id := by
            by_contra hne
            exact absurd hva (by simp [verdict, hne])
          exact ⟨g, hg, hk, resolveShare_isSome.mpr (Or.inl hgd)⟩
      · rw [hop] at hop'
        obtain ⟨rfl, rfl, _⟩ := Op.resolve.inj hop'
        have hgk : g.id = k := Table.get_pk hg
        exact ⟨g, mem_gradesFor.mpr ⟨Table.get_mem hg, htid⟩, hgk,
          resolveShare_isSome.mpr (Or.inr hrule)⟩
  · have hun := (step_effects h).undecided hop
    rw [hun.paid_iff k, hun.decision k, or_iff_left (not_outvotes hop)]
    exact ⟨Or.inl, fun hp => hp.resolve_right (fun hd => absurd (hd.1.symm.trans hd.2) (by simp))⟩

/-- The expert and the rate of a row that payments add. -/
theorem newPayout_rate (env : Env) {expert : Expert} {g : Grade} {cents : ℤ}
    (he : db.experts.get g.expertId = some expert)
    (hr : rateFor db expert task.taskType = .ok cents) (amount : ℤ) :
    let p := newPayout env expert g task amount
    db.experts.get p.expertId = some expert ∧ p.tier = expert.tier ∧
      BaseRate db expert p.taskType cents :=
  ⟨db.experts.get_of_mem (Table.get_mem he), rfl, baseRate_iff.mp hr⟩

/-- A payout after a request was there before, on the same terms, or is created by it. -/
theorem created_step {x : Response} (h : step r db = .ok (db', x)) {p : Payout}
    (hp : p ∈ db'.payouts) : (∃ q ∈ db.payouts, q.SameTerms p) ∨ Creates p db r := by
  have hcommit : commit step r db = db' := commit_of_ok step h
  -- reviews and adjudications are the only requests that pay
  rcases step_decides h with ⟨keyId, body, actor, v, hop, hrev⟩ |
    ⟨taskId, gradeId, reason, keyId, actor, c, hop, hres⟩ | hop
  · obtain ⟨grade, task, hgrade, htask, hi, hpay⟩ := review_pays hrev
    rcases hpay.new_or_old hp with hold | ⟨hfirst, g, hg, f, expert, cents, hf, he, hr, ha, rfl⟩
    · exact Or.inl ⟨p, hold, Payout.SameTerms.refl p⟩
    · obtain rfl := List.mem_singleton.mp hg
      have happ : v.decision = .approve := reviewShare_isSome.mp (by rw [hf]; rfl)
      have hone : f = 1 := by
        rw [reviewShare, if_pos happ] at hf
        exact (Option.some.inj hf).symm
      obtain ⟨hexp, htier, hbase⟩ := newPayout_rate r.env he hr (payoutAmount cents f)
      refine Or.inr ⟨hfirst, ha, expert, cents, hexp, htier, hbase, Or.inl ⟨?_, ?_⟩⟩
      · show decision (commit step r db) g.id = some .approve
        rw [hcommit, hgrade, ← happ]
        exact (decision_insert hi _).trans (if_pos rfl)
      · show payoutAmount cents f = payoutAmount cents 1
        rw [hone]
  · obtain ⟨delivered, task, hid, htask, hi, hpay⟩ := resolve_pays hres
    rcases hpay.new_or_old hp with hold | ⟨hfirst, g, hg, f, expert, cents, hf, he, hr, ha, rfl⟩
    · exact Or.inl ⟨p, hold, Payout.SameTerms.refl p⟩
    · obtain ⟨hexp, htier, hbase⟩ := newPayout_rate r.env he hr (payoutAmount cents f)
      refine Or.inr ⟨hfirst, ha, expert, cents, hexp, htier, hbase, ?_⟩
      -- the delivered grade gets the whole rate, the others the share of the rule
      by_cases hd : g.id = delivered.id
      · refine Or.inl ⟨?_, ?_⟩
        · show decision (commit step r db) g.id = some .approve
          rw [hcommit, (decision_verdicts hi hg).2, if_pos hd]
        · show payoutAmount cents f = payoutAmount cents 1
          rw [resolveShare, if_pos hd] at hf
          rw [← Option.some.inj hf]
      · obtain ⟨hmem, htid⟩ := mem_gradesFor.mp hg
        refine Or.inr ⟨⟨g, taskId, gradeId, reason, keyId, actor, hop, by rw [h]; rfl,
          db.grades.get_of_mem hmem, htid, fun he => hd (he.trans hid.symm), ?_⟩, ?_⟩
        · exact (resolveShare_isSome.mp (by rw [hf]; rfl)).resolve_left hd
        · show payoutAmount cents f = _
          rw [resolveShare, if_neg hd] at hf
          cases hrule : r.env.settings.consensusOutvotedPayout with
          | none => simp [hrule] at hf
          | full => simp only [hrule, Option.some.injEq] at hf; rw [← hf, if_pos rfl]
          | part => simp only [hrule, Option.some.injEq] at hf; rw [← hf, if_neg (by decide)]
  · obtain ⟨_, f, hf, hterms, hmap⟩ := (step_effects h).undecided hop
    rw [hmap] at hp
    obtain ⟨q, hq, rfl⟩ := (Table.mem_map hf).mp hp
    exact Or.inl ⟨q, hq, hterms q⟩

end Steps

/-- The law of payouts after the requests `rs`. -/
structure PayoutLaw (rs : List Request) : Prop where
  earned : ∀ gradeId, (∃ p ∈ (after rs).payouts, p.gradeId = gradeId) ↔
    decision (after rs) gradeId = some .approve ∨ Occurs step (Outvotes gradeId) .empty rs
  onePerGrade : ((after rs).payouts.rows.map Payout.gradeId).Nodup
  onePerExpert : ((after rs).payouts.rows.map (fun p => (p.taskId, p.expertId))).Nodup
  copies : ∀ p ∈ (after rs).payouts, ∃ g ∈ (after rs).grades, ∃ t ∈ (after rs).tasks,
    p.gradeId = g.id ∧ p.expertId = g.expertId ∧ p.taskId = g.taskId ∧ p.taskId = t.id ∧
      p.taskType = t.taskType
  created : ∀ p ∈ (after rs).payouts, Occurs step (Creates p) .empty rs
  stands : ∀ qs, ∀ p ∈ (after rs).payouts, ∃ p' ∈ (after (rs ++ qs)).payouts, p.SameTerms p'

section Runs
variable {rs : List Request}

theorem earned_after (rs : List Request) (k : Uuid) :
    (∃ p ∈ (after rs).payouts, p.gradeId = k) ↔
      decision (after rs) k = some .approve ∨ Occurs step (Outvotes k) .empty rs := by
  induction rs using List.reverseRecOn with
  | nil =>
    constructor
    · rintro ⟨p, hp, _⟩
      exact absurd hp (Table.not_mem_empty p)
    · rintro (hd | ho)
      · exact absurd hd (by simp [decision, after, Db.empty])
      · exact absurd ho (not_occurs_nil step)
  | append_singleton rs r ih =>
    have hrun : after (rs ++ [r]) = commit step r (after rs) := run_concat step _ rs r
    rw [hrun, occurs_concat]
    -- a refused request changes nothing, and outvotes nobody
    rcases commit_cases step r (after rs) with ⟨x, hx⟩ | ⟨⟨e, he⟩, hsame⟩
    · have hmono (d : ReviewDecision) (hd : decision (after rs) k = some d) :
          decision (commit step r (after rs)) k = some d := (step_effects hx).retains.decision hd
      rw [paid_step hx k, ih]
      constructor
      · rintro ((hd | ho) | ⟨_, hd⟩ | ho)
        · exact Or.inl (hmono _ hd)
        · exact Or.inr (Or.inl ho)
        · exact Or.inl hd
        · exact Or.inr (Or.inr ho)
      -- an approval is paid at the step that decides it
      · rintro (hd | ho | ho)
        · cases hold : decision (after rs) k with
          | none => exact Or.inr (Or.inl ⟨rfl, hd⟩)
          | some d => exact Or.inl (Or.inl ((hmono d hold).symm.trans hd))
        · exact Or.inl (Or.inr ho)
        · exact Or.inr (Or.inr ho)
    · have hno : ¬ Outvotes k (after rs) r := by
        rintro ⟨_, _, _, _, _, _, _, hok, _⟩
        rw [he] at hok
        exact absurd hok (by simp [Except.isOk, Except.toBool])
      rw [hsame, ih]
      exact or_congr_right (or_iff_left hno).symm

/-- A paid grade is decided. -/
theorem payouts_decided (rs : List Request) :
    ∀ p ∈ (after rs).payouts, decision (after rs) p.gradeId ≠ none := by
  induction rs using List.reverseRecOn with
  | nil => exact fun p hp => absurd hp (Table.not_mem_empty p)
  | append_singleton rs r ih =>
    have hrun : after (rs ++ [r]) = commit step r (after rs) := run_concat step _ rs r
    rw [hrun]
    refine commit_preserves step (P := fun db => ∀ p ∈ db.payouts, decision db p.gradeId ≠ none) ih
      (fun db' x hx p hp => ?_)
    have hold (k : Uuid) (hk : decision (after rs) k ≠ none) : decision db' k ≠ none := by
      obtain ⟨d, hd⟩ := Option.ne_none_iff_exists'.mp hk
      rw [(step_effects hx).retains.decision hd]
      exact Option.some_ne_none d
    -- only reviews and adjudications pay, and they decide what they pay
    rcases step_decides hx with ⟨keyId, body, actor, v, hop, hrev⟩ |
      ⟨taskId, gradeId, reason, keyId, actor, round, hop, hres⟩ | hop
    · obtain ⟨grade, task, hgrade, htask, hi, hpay⟩ := review_pays hrev
      rcases hpay.mem hp with hmem | ⟨g, hg, f, _, _, _, _, _, _, rfl⟩
      · exact hold _ (ih p hmem)
      · obtain rfl := List.mem_singleton.mp hg
        have hdec : decision db' v.gradeId = _ := decision_insert hi v.gradeId
        show decision db' g.id ≠ none
        rw [hgrade, hdec, if_pos rfl]
        exact Option.some_ne_none _
    · obtain ⟨delivered, task, hid, htask, hi, hpay⟩ := resolve_pays hres
      rcases hpay.mem hp with hmem | ⟨g, hg, f, _, _, _, _, _, _, rfl⟩
      · exact hold _ (ih p hmem)
      · show decision db' g.id ≠ none
        rw [(decision_verdicts hi hg).2]
        exact Option.some_ne_none _
    · obtain ⟨q, hq, hterms⟩ : ∃ q ∈ (after rs).payouts, q.gradeId = p.gradeId := by
        exact (((step_effects hx).undecided hop).paid_iff p.gradeId).mp ⟨p, hp, rfl⟩
      rw [← hterms]
      exact hold _ (ih q hq)

theorem created_after (rs : List Request) :
    ∀ p ∈ (after rs).payouts, Occurs step (Creates p) .empty rs := by
  induction rs using List.reverseRecOn with
  | nil => exact fun p hp => absurd hp (Table.not_mem_empty p)
  | append_singleton rs r ih =>
    intro p hp
    have hrun : after (rs ++ [r]) = commit step r (after rs) := run_concat step _ rs r
    rw [hrun] at hp
    rw [occurs_concat]
    rcases commit_cases step r (after rs) with ⟨x, hx⟩ | ⟨_, hsame⟩
    · rcases created_step hx hp with ⟨q, hq, hterms⟩ | hnew
      · obtain ⟨earlier, i, later, hsplit, hcreates⟩ := ih q hq
        exact Or.inl ⟨earlier, i, later, hsplit, hcreates.of_terms hterms⟩
      · exact Or.inr hnew
    · rw [hsame] at hp
      exact Or.inl (ih p hp)

/-- After any history a payout exists exactly for each approved grade and each
paid outvoted one, on the terms of the moment it was created. -/
theorem payout_law (rs : List Request) : PayoutLaw rs := by
  have hlinked := Linked.after rs
  refine ⟨earned_after rs, ?_, ?_, fun p hp => ?_, created_after rs, fun qs p hp => ?_⟩
  · rw [List.nodup_iff_pairwise_ne, List.pairwise_map]
    exact (after rs).payouts.distinct.imp (fun hn he => hn (Or.inl he))
  · rw [List.nodup_iff_pairwise_ne, List.pairwise_map]
    exact (after rs).payouts.distinct.imp (fun hn he => hn (Or.inr he))
  · obtain ⟨⟨g, hg, hexp, htask⟩, ⟨t, ht, htype⟩, _⟩ := hlinked.payouts p hp
    exact ⟨g, Table.get_mem hg, t, Table.get_mem ht, (Table.get_pk hg).symm, hexp, htask,
      (Table.get_pk ht).symm, htype⟩
  · obtain ⟨p', hp', _, hterms⟩ := (retains_after rs qs).payouts.mem hp
    exact ⟨p', hp', hterms⟩

end Runs

end Panelist
