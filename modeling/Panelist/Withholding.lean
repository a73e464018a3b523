import Panelist.References

/-! Which payouts a paused expert and an active expert can have. The attention
guard and the payout rows it leads to keep both rules; a status set by an
administrator keeps them only under a condition. -/
namespace Panelist
open Relational Transaction

/-- No expert with status `es` has a payout with status `ps`. -/
def Clear (es : ExpertStatus) (ps : PayoutStatus) (db : Db) : Prop :=
  ∀ p ∈ db.payouts, ∀ e, db.experts.get p.expertId = some e → e.status = es → p.status ≠ ps

/-- A paused expert has no pending payout. -/
abbrev PausedWithheld : Db → Prop := Clear .paused .pending

/-- An active expert has no withheld payout. -/
abbrev ActiveReleased : Db → Prop := Clear .active .withheld

/-- The two rules. -/
def Rule (es : ExpertStatus) (ps : PayoutStatus) : Prop :=
  es = .paused ∧ ps = .pending ∨ es = .active ∧ ps = .withheld

section Effects
variable {es : ExpertStatus} {ps : PayoutStatus} {db db' : Db} {r : Request}

theorem Rule.ne_paid (h : Rule es ps) : ps ≠ .paid := by
  rcases h with ⟨-, rfl⟩ | ⟨-, rfl⟩ <;> decide

/-- A new payout follows the status of its expert. -/
theorem Rule.payoutStatus (h : Rule es ps) {e : Expert} (he : e.status = es) :
    e.payoutStatus ≠ ps := by
  unfold Expert.payoutStatus
  rcases h with ⟨rfl, rfl⟩ | ⟨rfl, rfl⟩
  · rw [if_pos he]
    decide
  · rw [if_neg (by rw [he]; decide)]
    decide

/-- Experts that keep their status and payouts that keep theirs. -/
theorem Clear.of_experts (h : Clear es ps db) (hlinked : Linked db)
    (hp : db'.payouts = db.payouts)
    (hexp : ∀ k e, db.experts.get k = some e → ∃ e', db'.experts.get k = some e' ∧
      e'.status = e.status) : Clear es ps db' := by
  intro p hmem e' he' hs
  rw [hp] at hmem
  obtain ⟨e, he⟩ := hlinked.payoutExpert hmem
  obtain ⟨x, hx, hxs⟩ := hexp _ e he
  obtain rfl := Option.some.inj (hx.symm.trans he')
  exact h p hmem e he (hxs.symm.trans hs)

theorem Clear.pays (hrule : Rule es ps) (h : Clear es ps db) {env : Env} {task : Task}
    {share : Grade → Option ℚ} {gs : List Grade} {P' : Table Payout}
    (hp : Payments env db task share gs db.payouts P') (he : db'.experts = db.experts)
    (hP' : db'.payouts = P') : Clear es ps db' := by
  intro p hmem e hget hs
  rw [hP'] at hmem
  rw [he] at hget
  rcases hp.mem hmem with hold | ⟨g, _, f, expert, rate, _, hexp, _, _, rfl⟩
  · exact h p hold e hget hs
  · -- the payout's expert is the grade's, at the status of this moment
    have hsame : db.experts.get expert.id = some expert :=
      db.experts.get_of_mem (Table.get_mem hexp)
    obtain rfl := Option.some.inj (hsame.symm.trans hget)
    exact hrule.payoutStatus hs

/-- The guard pauses an expert and withholds what was pending. -/
theorem Clear.guarded (hrule : Rule es ps) (h : Clear es ps db) {e : Expert}
    (he : db'.experts = db.experts.update e.id (Expert.withStatus .paused))
    (hP' : db'.payouts = db.payouts.updateWhere (Payout.ofExpert e.id .pending) Payout.withhold) :
    Clear es ps db' := by
  intro p' hmem x hget hs
  rw [hP'] at hmem
  obtain ⟨p, hp, rfl⟩ := (Table.mem_updateWhere (f := Payout.withhold) (fun _ => rfl)).mp hmem
  have hexp : (if Payout.ofExpert e.id .pending p then p.withhold else p).expertId =
      p.expertId := by
    split <;> rfl
  have hkeep :=
    Table.get_update db.experts e.id (Expert.withStatus .paused) (fun _ => rfl) p.expertId
  rw [hexp, he, hkeep] at hget
  -- a payout of the paused expert: pending becomes withheld, and nothing is pending
  by_cases hk : e.id = p.expertId
  · rw [if_pos hk] at hget
    obtain ⟨e₀, _, rfl⟩ := Option.map_eq_some_iff.mp hget
    rcases hrule with ⟨_, rfl⟩ | ⟨rfl, _⟩
    · by_cases hpend : p.status = .pending
      · have hmatch : Payout.ofExpert e.id .pending p = true := by
          simp [Payout.ofExpert, hk, hpend]
        rw [if_pos hmatch]
        simp [Payout.withhold]
      · have hmiss : Payout.ofExpert e.id .pending p = false := by
          simp [Payout.ofExpert, hpend]
        rw [hmiss]
        exact hpend
    · exact absurd hs (by simp [Expert.withStatus])
  · rw [if_neg hk] at hget
    have hmiss : Payout.ofExpert e.id .pending p = false := by
      rw [Payout.ofExpert, decide_eq_false (fun he => hk he.symm), Bool.false_and]
    rw [hmiss]
    exact h p hp x hget hs

/-- Everything but a status change by an administrator keeps both rules. -/
theorem Clear.effect (hrule : Rule es ps) (hlinked : Linked db) (h : Clear es ps db)
    (he : Effect r db db') (hop : ∀ expertId s actor, r.op ≠ .setStatus expertId s actor) :
    Clear es ps db' := by
  cases he with
  | logged | rubricAdded | superseded | queued | reclaimed | released | retargeted | graded =>
    exact h
  | joined hs hi =>
    exact h.of_experts hlinked rfl (fun k e hk => ⟨e, Table.get_insert_of_some hi hk, rfl⟩)
  | recalibrated hcal =>
    refine h.of_experts hlinked rfl (fun k e hk => ?_)
    -- recalibrations keep the status
    rcases hcal.get k with ⟨hnone, _⟩ | ⟨x, e', hx, he', hrec⟩
    · exact absurd (hnone.symm.trans hk) (by simp)
    · obtain rfl := Option.some.inj (hx.symm.trans hk)
      exact ⟨e', he', hrec.status_eq⟩
  | @claimed e task =>
    refine h.of_experts hlinked rfl (fun k x hk => ?_)
    have hget := Table.get_update db.experts e.id Expert.served (fun _ => rfl) k
    rw [hk] at hget
    split_ifs at hget
    · exact ⟨x.served, hget, rfl⟩
    · exact ⟨x, hget, rfl⟩
  | paused => exact h.guarded hrule rfl rfl
  | statusSet hset => exact absurd hset (hop _ _ _)
  | reviewed hop' hb hg htask ht hallow hv hi hp => exact h.pays hrule hp rfl rfl
  | adjudicated hop' hrow hs hd ht hi hp => exact h.pays hrule hp rfl rfl
  | @closed period periods actor hop' hi =>
    intro p' hp' e hget hs
    obtain ⟨p, hp, rfl⟩ := (Table.mem_updateWhere (f := Payout.paidIn period.id r.env.now)
      (fun _ => rfl)).mp hp'
    -- a payout that was due is paid now, the others are as before
    by_cases hdue : p.due = true
    · rw [if_pos hdue]
      exact hrule.ne_paid.symm
    · rw [if_neg hdue] at hget ⊢
      exact h p hp e hget hs

theorem Clear.effects (hrule : Rule es ps) (hlinked : Linked db) (h : Clear es ps db)
    (he : Effects r db db') (hop : ∀ expertId s actor, r.op ≠ .setStatus expertId s actor) :
    Clear es ps db' := by
  have hboth : Linked db' ∧ Clear es ps db' :=
    effects_preserve (P := fun d => Linked d ∧ Clear es ps d)
      (fun hd he' => ⟨hd.1.effect he', hd.2.effect hrule hd.1 he' hop⟩) he ⟨hlinked, h⟩
  exact hboth.2

end Effects

/-! ### Status changes -/

/-- The request sets a paused status only on an expert without pending payouts. -/
def PausesClear (db : Db) (r : Request) : Prop :=
  ∀ expertId actor, r.op = .setStatus expertId .paused actor →
    ∀ p ∈ db.payouts, p.expertId = expertId → p.status ≠ .pending

/-- The request makes an expert active who was paused, or has no withheld payouts. -/
def ActivatesClear (db : Db) (r : Request) : Prop :=
  ∀ expertId actor, r.op = .setStatus expertId .active actor →
    ∀ e, db.experts.get expertId = some e → e.status ≠ .paused →
      ∀ p ∈ db.payouts, p.expertId = expertId → p.status ≠ .withheld

section StatusChanges
variable {db db' : Db} {r : Request} {expert : Expert} {status : ExpertStatus}

/-- What a status change leaves of the experts. -/
theorem statusSet_get (he : db'.experts = db.experts.update expert.id (Expert.withStatus status))
    {k : Uuid} {e : Expert} (hget : db'.experts.get k = some e) :
    expert.id = k ∧ e.status = status ∨ expert.id ≠ k ∧ db.experts.get k = some e := by
  have hkeep := Table.get_update db.experts expert.id (Expert.withStatus status) (fun _ => rfl) k
  rw [he, hkeep] at hget
  split_ifs at hget with hk
  · obtain ⟨e₀, _, rfl⟩ := Option.map_eq_some_iff.mp hget
    exact Or.inl ⟨hk, rfl⟩
  · exact Or.inr ⟨hk, hget⟩

/-- A payout after a status change was there before, or is one of the expert's
withheld payouts, released. -/
theorem mem_payoutsAfterStatus {p' : Payout} :
    p' ∈ payoutsAfterStatus db expert status →
      p' ∈ db.payouts ∧ ¬ ((expert.status = .paused ∧ status = .active) ∧
        p'.expertId = expert.id ∧ p'.status = .withheld) ∨
      p'.expertId = expert.id ∧ p'.status = .pending ∧ status = .active := by
  unfold payoutsAfterStatus
  split_ifs with hback
  · intro hp'
    obtain ⟨p, hp, rfl⟩ := (Table.mem_updateWhere Payout.released_keeps).mp hp'
    split
    · rename_i hmatch
      simp only [Payout.ofExpert, Bool.and_eq_true, decide_eq_true_eq] at hmatch
      exact Or.inr ⟨hmatch.1, rfl, hback.2⟩
    · rename_i hmiss
      refine Or.inl ⟨hp, fun hn => hmiss ?_⟩
      simp [Payout.ofExpert, hn.2.1, hn.2.2]
  · exact fun hp' => Or.inl ⟨hp', fun hn => hback hn.1⟩

/-- Pausing an expert keeps the rule exactly when nothing of theirs is pending. -/
theorem pausedWithheld_set (h : PausedWithheld db)
    (hget : db.experts.get expert.id = some expert)
    (he : db'.experts = db.experts.update expert.id (Expert.withStatus status))
    (hP' : db'.payouts = payoutsAfterStatus db expert status) :
    PausedWithheld db' ↔
      (status = .paused → ∀ p ∈ db.payouts, p.expertId = expert.id → p.status ≠ .pending) := by
  constructor
  · rintro h' rfl p hp hexp
    -- pausing leaves the payouts as they are
    have hmem : p ∈ db'.payouts := by
      rw [hP', payoutsAfterStatus, if_neg (fun hn => absurd hn.2 (by decide))]
      exact hp
    have hpaused := Table.get_update db.experts expert.id (Expert.withStatus .paused)
      (fun _ => rfl) expert.id
    rw [if_pos rfl, hget, Option.map_some] at hpaused
    exact h' p hmem _ (by rw [he, hexp]; exact hpaused) rfl
  · intro hcond p' hp' e hexp hs
    rw [hP'] at hp'
    -- the expert whose status is set, or another one
    rcases statusSet_get he hexp with ⟨hk, hst⟩ | ⟨hk, hold⟩
    · obtain rfl := hst.symm.trans hs
      rcases mem_payoutsAfterStatus hp' with ⟨hp, _⟩ | ⟨_, _, hact⟩
      · exact hcond rfl p' hp hk.symm
      · exact absurd hact (by decide)
    · rcases mem_payoutsAfterStatus hp' with ⟨hp, _⟩ | ⟨hexp', _, _⟩
      · exact h p' hp e hold hs
      · exact absurd hexp'.symm hk

/-- Activating an expert keeps the rule exactly when they were paused or nothing
of theirs is withheld. -/
theorem activeReleased_set (h : ActiveReleased db)
    (hget : db.experts.get expert.id = some expert)
    (he : db'.experts = db.experts.update expert.id (Expert.withStatus status))
    (hP' : db'.payouts = payoutsAfterStatus db expert status) :
    ActiveReleased db' ↔ (status = .active → expert.status ≠ .paused →
      ∀ p ∈ db.payouts, p.expertId = expert.id → p.status ≠ .withheld) := by
  constructor
  · rintro h' rfl hnp p hp hexp
    have hmem : p ∈ db'.payouts := by
      rw [hP', payoutsAfterStatus, if_neg (fun hn => hnp hn.1)]
      exact hp
    have hactive := Table.get_update db.experts expert.id (Expert.withStatus .active)
      (fun _ => rfl) expert.id
    rw [if_pos rfl, hget, Option.map_some] at hactive
    exact h' p hmem _ (by rw [he, hexp]; exact hactive) rfl
  · intro hcond p' hp' e hexp hs
    rw [hP'] at hp'
    -- the expert whose status is set, or another one
    rcases statusSet_get he hexp with ⟨hk, hst⟩ | ⟨hk, hold⟩
    · obtain rfl := hst.symm.trans hs
      rcases mem_payoutsAfterStatus hp' with ⟨hp, hstays⟩ | ⟨_, hpend, _⟩
      -- from paused the withheld ones are released
      · by_cases hwas : expert.status = .paused
        · exact fun hw => hstays ⟨⟨hwas, rfl⟩, hk.symm, hw⟩
        · exact hcond rfl hwas p' hp hk.symm
      · rw [hpend]
        decide
    · rcases mem_payoutsAfterStatus hp' with ⟨hp, _⟩ | ⟨hexp', _, _⟩
      · exact h p' hp e hold hs
      · exact absurd hexp'.symm hk

end StatusChanges

/-! ### Runs -/

section Runs
variable {db : Db} {r : Request}

/-- An expert who does not exist has no payouts. -/
theorem Linked.no_payouts (h : Linked db) {k : Uuid} (hk : db.experts.get k = none) :
    ∀ p ∈ db.payouts, p.expertId ≠ k := by
  intro p hp he
  obtain ⟨e, hget⟩ := h.payoutExpert hp
  rw [he, hk] at hget
  exact absurd hget (by simp)

/-- What a status change by an administrator commits: its writes, or nothing when
there is no such expert. -/
theorem commit_setStatus (db : Db) {expertId : Uuid} {status : ExpertStatus} {actor : String}
    (hop : r.op = .setStatus expertId status actor) :
    (∃ expert, expert.id = expertId ∧ db.experts.get expert.id = some expert ∧
      (commit step r db).experts = db.experts.update expert.id (Expert.withStatus status) ∧
      (commit step r db).payouts = payoutsAfterStatus db expert status) ∨
    db.experts.get expertId = none ∧ commit step r db = db := by
  rcases commit_cases step r db with ⟨x, hx⟩ | ⟨⟨e, he⟩, hsame⟩
  · simp only [step, hop] at hx
    obtain ⟨_, hset, -⟩ := answer_ok hx
    obtain ⟨expert, events, hget, hdb'⟩ := setStatus_ok hset
    obtain rfl := Table.get_pk hget
    rw [hdb']
    exact Or.inl ⟨expert, rfl, hget, rfl, rfl⟩
  · simp only [step, hop, answer, map_error_iff, setStatus, bind_error_iff, orFail_error_iff,
      pure_error_iff, and_false, exists_false, or_false] at he
    exact Or.inr ⟨he.1, hsame⟩

/-- A request other than a status change keeps both rules. -/
theorem Clear.commit {es : ExpertStatus} {ps : PayoutStatus} (hrule : Rule es ps)
    (hlinked : Linked db) (h : Clear es ps db)
    (hop : ∀ expertId s actor, r.op ≠ .setStatus expertId s actor) :
    Clear es ps (commit step r db) :=
  commit_preserves step h (fun _ _ hx => h.effects hrule hlinked (step_effects hx) hop)

theorem pausedWithheld_commit (hlinked : Linked db) (h : PausedWithheld db) :
    PausedWithheld (commit step r db) ↔ PausesClear db r := by
  -- every other request that pauses withholds what is pending
  by_cases hop : ∃ expertId status actor, r.op = .setStatus expertId status actor
  · obtain ⟨expertId, status, actor, hop⟩ := hop
    -- it fails if there is no such expert
    rcases commit_setStatus db hop with ⟨expert, rfl, hget, he, hP'⟩ | ⟨hnone, hsame⟩
    · rw [pausedWithheld_set h hget he hP']
      constructor
      · intro hset k actor' hop' p hp hexp
        obtain ⟨rfl, rfl, _⟩ := Op.setStatus.inj (hop.symm.trans hop')
        exact hset rfl p hp hexp
      · rintro hcond rfl p hp hexp
        exact hcond _ actor hop p hp hexp
    · rw [hsame]
      refine iff_of_true h (fun k actor' hop' p hp hexp => ?_)
      obtain ⟨rfl, _⟩ := Op.setStatus.inj (hop.symm.trans hop')
      exact absurd hexp (hlinked.no_payouts hnone p hp)
  · simp only [not_exists] at hop
    refine iff_of_true (h.commit (Or.inl ⟨rfl, rfl⟩) hlinked hop) (fun k actor hop' => ?_)
    exact absurd hop' (hop k _ actor)

theorem activeReleased_commit (hlinked : Linked db) (h : ActiveReleased db) :
    ActiveReleased (commit step r db) ↔ ActivatesClear db r := by
  -- only `PATCH` sets a status to active
  by_cases hop : ∃ expertId status actor, r.op = .setStatus expertId status actor
  · obtain ⟨expertId, status, actor, hop⟩ := hop
    -- it fails if there is no such expert
    rcases commit_setStatus db hop with ⟨expert, rfl, hget, he, hP'⟩ | ⟨hnone, hsame⟩
    · rw [activeReleased_set h hget he hP']
      constructor
      · intro hset k actor' hop' e he' hnp p hp hexp
        obtain ⟨rfl, rfl, _⟩ := Op.setStatus.inj (hop.symm.trans hop')
        obtain rfl := Option.some.inj (hget.symm.trans he')
        exact hset rfl hnp p hp hexp
      · rintro hcond rfl hnp p hp hexp
        exact hcond _ actor hop expert hget hnp p hp hexp
    · rw [hsame]
      refine iff_of_true h (fun k actor' hop' e he' _ p hp hexp => ?_)
      obtain ⟨rfl, _⟩ := Op.setStatus.inj (hop.symm.trans hop')
      exact absurd hexp (hlinked.no_payouts hnone p hp)
  · simp only [not_exists] at hop
    refine iff_of_true (h.commit (Or.inr ⟨rfl, rfl⟩) hlinked hop) (fun k actor hop' => ?_)
    exact absurd hop' (hop k _ actor)

theorem Clear.empty (es : ExpertStatus) (ps : PayoutStatus) : Clear es ps .empty :=
  fun p hp => absurd hp (Table.not_mem_empty p)

theorem Linked.commit (h : Linked db) : Linked (commit step r db) :=
  commit_preserves step h (fun _ _ hx => effects_preserve Linked.effect (step_effects hx) h)

/-- A closing leaves a payout alone when it is not pending. -/
theorem closing_skips {label actor : String} (hop : r.op = .closePeriod label actor) {p : Payout}
    (hp : p ∈ db.payouts) (hs : p.status ≠ .pending) :
    p ∈ (Transaction.commit step r db).payouts := by
  rcases commit_cases step r db with ⟨x, hx⟩ | ⟨_, hsame⟩
  · simp only [step, hop] at hx
    obtain ⟨period, hclose, -⟩ := answer_ok hx
    obtain ⟨periods, events, _, _, hdb'⟩ := closePeriod_ok hclose
    rw [hdb']
    refine (Table.mem_updateWhere (f := Payout.paidIn period.id r.env.now) (fun _ => rfl)).mpr
      ⟨p, hp, if_neg (fun hdue => hs ?_)⟩
    simp only [Payout.due, Bool.and_eq_true, decide_eq_true_eq] at hdue
    exact hdue.1
  · rw [hsame]
    exact hp

end Runs

/-- The runs in which no paused expert ever has a pending payout are the ones
that never pause an expert with pending payouts by a status change. In them no
closing touches a payout of a paused expert. -/
theorem paused_withheld_iff (rs : List Request) :
    ((∀ earlier later, rs = earlier ++ later → PausedWithheld (after earlier)) ↔
      Along step PausesClear .empty rs) ∧
    (Along step PausesClear .empty rs → ∀ r label actor, r.op = .closePeriod label actor →
      ∀ p ∈ (after rs).payouts, ∀ e, (after rs).experts.get p.expertId = some e →
        e.status = .paused → p ∈ (after (rs ++ [r])).payouts) := by
  have hiff : (∀ earlier later, rs = earlier ++ later → PausedWithheld (after earlier)) ↔
      Along step PausesClear .empty rs :=
    throughout_iff_along step (fun _ _ h => h.commit)
      (fun _ _ hlinked h => pausedWithheld_commit hlinked h) Linked.empty (Clear.empty _ _)
  refine ⟨hiff, fun hrun r label actor hop p hp e he hs => ?_⟩
  -- the state at the closing is one of those reached
  have hclear : PausedWithheld (after rs) := hiff.mpr hrun rs [] (List.append_nil rs).symm
  rw [after, run_concat]
  exact closing_skips hop hp (hclear p hp e he hs)

/-- The runs in which no active expert ever has a withheld payout are the ones
that make an expert active only out of a pause, or without withheld payouts. -/
theorem active_released_iff (rs : List Request) :
    (∀ earlier later, rs = earlier ++ later → ActiveReleased (after earlier)) ↔
      Along step ActivatesClear .empty rs :=
  throughout_iff_along step (fun _ _ h => h.commit)
    (fun _ _ hlinked h => activeReleased_commit hlinked h) Linked.empty (Clear.empty _ _)

namespace Scenario

/-- Grade 700 by expert 300 on task 500, for one grader. -/
def single : List Request := setup ++
  [call 5 (.createTasks [task] "admin"), call 6 (.claimNext 300),
   call 7 (.submit 300 (grade 500 4))]

def approve (n : ℕ) : Request := call n (.review 7 ⟨700, .approve, none⟩ "reviewer")

def patch (n : ℕ) (status : ExpertStatus) : Request := call n (.setStatus 300 status "admin")

end Scenario

open Scenario in
/-- A pause by an administrator leaves the approved payout pending, and the next
closing pays it. -/
theorem paused_expert_is_paid :
    ¬ PausedWithheld (after (single ++ [approve 8, patch 9 .paused])) ∧
      ((after (single ++ [approve 8, patch 9 .paused])).payouts.get 700).map Payout.status =
        some .pending ∧
      ((after (single ++ [approve 8, patch 9 .paused,
        call 10 (.closePeriod "2026-09" "admin")])).payouts.get 700).map Payout.status =
          some .paid ∧
      ((after (single ++ [approve 8, patch 9 .paused,
        call 10 (.closePeriod "2026-09" "admin")])).experts.get 300).map Expert.status =
        some .paused := by
  refine ⟨fun h => ?_, by decide +kernel, by decide +kernel, by decide +kernel⟩
  -- payout 700 is pending, and its expert paused
  have hp : ((after (single ++ [approve 8, patch 9 .paused])).payouts.get 700).map
      (fun p => (p.expertId, p.status)) = some (300, .pending) := by decide +kernel
  have he : ((after (single ++ [approve 8, patch 9 .paused])).experts.get 300).map Expert.status =
      some .paused := by decide +kernel
  obtain ⟨p, hget, hpair⟩ := Option.map_eq_some_iff.mp hp
  obtain ⟨e, hexp, hs⟩ := Option.map_eq_some_iff.mp he
  obtain ⟨hid, hpend⟩ := Prod.mk.inj hpair
  exact h p (Table.get_mem hget) e (by rw [hid]; exact hexp) hs hpend

open Scenario in
/-- An expert who goes from paused to inactive to active keeps a withheld payout. -/
theorem active_expert_is_stranded :
    ¬ ActiveReleased (after (single ++ [patch 8 .paused, approve 9, patch 10 .inactive,
      patch 11 .active])) := by
  intro h
  have hp : ((after (single ++ [patch 8 .paused, approve 9, patch 10 .inactive,
      patch 11 .active])).payouts.get 700).map (fun p => (p.expertId, p.status)) =
      some (300, .withheld) := by decide +kernel
  have he : ((after (single ++ [patch 8 .paused, approve 9, patch 10 .inactive,
      patch 11 .active])).experts.get 300).map Expert.status = some .active := by decide +kernel
  obtain ⟨p, hget, hpair⟩ := Option.map_eq_some_iff.mp hp
  obtain ⟨e, hexp, hs⟩ := Option.map_eq_some_iff.mp he
  obtain ⟨hid, hheld⟩ := Prod.mk.inj hpair
  exact h p (Table.get_mem hget) e (by rw [hid]; exact hexp) hs hheld

end Panelist
