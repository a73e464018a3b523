import Panelist.Pinning
import Panelist.Standing

/-! Tier moves over whole runs: what a tick moves without new evidence, and how much
evidence lies between two moves in opposite directions. -/
namespace Panelist
open Relational Transaction

/-- The settings a recalibration reads are the same. -/
structure Settings.SameCalibration (s s' : Settings) : Prop where
  window : s.calibrationWindow = s'.calibrationWindow
  minSamples : s.calibrationMinSamples = s'.calibrationMinSamples
  promoteAt : s.calibrationPromoteAt = s'.calibrationPromoteAt
  demoteAt : s.calibrationDemoteAt = s'.calibrationDemoteAt

instance (s s' : Settings) : Decidable (s.SameCalibration s') :=
  decidable_of_iff (s.calibrationWindow = s'.calibrationWindow ∧
      s.calibrationMinSamples = s'.calibrationMinSamples ∧
      s.calibrationPromoteAt = s'.calibrationPromoteAt ∧
      s.calibrationDemoteAt = s'.calibrationDemoteAt)
    ⟨fun ⟨hw, hm, hp, hd⟩ => ⟨hw, hm, hp, hd⟩, fun h => ⟨h.1, h.2, h.3, h.4⟩⟩

theorem Settings.SameCalibration.symm {s s' : Settings} (h : s.SameCalibration s') :
    s'.SameCalibration s := ⟨h.window.symm, h.minSamples.symm, h.promoteAt.symm, h.demoteAt.symm⟩

theorem Settings.SameCalibration.trans {s s' s'' : Settings} (h : s.SameCalibration s')
    (h' : s'.SameCalibration s'') : s.SameCalibration s'' :=
  ⟨h.window.trans h'.window, h.minSamples.trans h'.minSamples, h.promoteAt.trans h'.promoteAt,
    h.demoteAt.trans h'.demoteAt⟩

/-- The evidence clears the upper or the lower edge of the band. -/
def Standing.Clears (env : Env) (s : Standing) (up : Bool) : Prop :=
  env.settings.calibrationMinSamples ≤ (s.score env).2 ∧ ∃ rate, (s.score env).1 = some rate ∧
    if up then env.settings.calibrationPromoteAt ≤ rate
    else rate < env.settings.calibrationPromoteAt ∧ rate ≤ env.settings.calibrationDemoteAt

/-- The end of `TIERS_ASCENDING` in one direction. -/
def topTier (up : Bool) : Tier := if up then .lead else .junior

namespace Standing
variable {env env' : Env} {k : Uuid} {s s' : Standing}

theorem score_congr (h : env.settings.SameCalibration env'.settings) :
    s.score env = s.score env' := by
  unfold score
  rw [h.window]

theorem target_congr (h : env.settings.SameCalibration env'.settings) (tier : Tier) :
    s.target env tier = s.target env' tier := by
  unfold target targetTier
  rw [score_congr h, h.minSamples, h.promoteAt, h.demoteAt]

theorem target_of_clears {up : Bool} (h : s.Clears env up) (tier : Tier) :
    s.target env tier = stepTier tier up := by
  obtain ⟨hmin, rate, hrate, hedge⟩ := h
  unfold target targetTier
  rw [hrate]
  cases up
  · obtain ⟨hlow, hedge⟩ := hedge
    simp [not_lt.mpr hmin, not_le.mpr hlow, hedge]
  · have hedge : env.settings.calibrationPromoteAt ≤ rate := hedge
    simp [not_lt.mpr hmin, hedge]

theorem target_of_not_clears (h : ∀ up, ¬ s.Clears env up) (tier : Tier) :
    s.target env tier = tier := by
  unfold target targetTier
  cases hrate : (s.score env).1 with
  | none => rfl
  | some rate =>
    dsimp only
    split_ifs with hmin hup hdown
    · rfl
    · exact absurd ⟨not_lt.mp hmin, rate, hrate, hup⟩ (h true)
    · exact absurd ⟨not_lt.mp hmin, rate, hrate, not_le.mp hup, hdown⟩ (h false)
    · rfl

theorem stepTier_eq_self {tier : Tier} {up : Bool} :
    stepTier tier up = tier ↔ tier = topTier up := by
  cases tier <;> cases up <;> decide

/-- There are three tiers, so two recalibrations on one state of the evidence reach the end. -/
theorem target_settles (tier : Tier) :
    s.target env (s.target env (s.target env tier)) = s.target env (s.target env tier) := by
  by_cases h : ∃ up, s.Clears env up
  · obtain ⟨up, h⟩ := h
    simp only [target_of_clears h]
    cases tier <;> cases up <;> rfl
  · rw [not_exists] at h
    simp only [target_of_not_clears h]

theorem target_of_no_evidence (h : s.evidence = []) (tier : Tier) : s.target env tier = tier := by
  obtain ⟨hr, hc⟩ := List.append_eq_nil_iff.mp h
  have hscore : s.score env = (none, 0) := by
    simp [score, flags, hr, hc, newestFirst]
  simp [target, hscore]

/-- A recalibration leaves the tier where it is. -/
def Settled (env : Env) (s : Standing) : Prop :=
  ∀ tier, s.tier = some tier → s.target env tier = tier

/-- One more recalibration settles the standing; who has no tier yet has no evidence. -/
structure Settles (env : Env) (s : Standing) : Prop where
  fresh : s.tier = none → s.evidence = []
  twice : ∀ tier, s.tier = some tier →
    s.target env (s.target env tier) = s.target env tier

theorem Settled.update (h : s.Settled env) : s.update env k = s := by
  obtain ⟨reviews, checks, tier, changes⟩ := s
  cases tier with
  | none => simp [Standing.update]
  | some tier =>
    have htarget := h tier rfl
    simp [Standing.update, row, htarget]

theorem Settled.congr (h : s.Settled env) (hs : env.settings.SameCalibration env'.settings) :
    s.Settled env' := fun tier ht => (target_congr hs tier).symm.trans (h tier ht)

theorem Settles.congr (h : s.Settles env) (hs : env.settings.SameCalibration env'.settings) :
    s.Settles env' where
  fresh := h.fresh
  twice tier ht := by
    simp only [← target_congr (s := s) hs]
    exact h.twice tier ht

theorem Settles.settled (h : s.Settles env) : (s.update env k).Settled env := by
  intro tier htier
  obtain ⟨t, ht, rfl⟩ := Option.map_eq_some_iff.mp htier
  exact h.twice t ht

theorem settles_update (hs : s.tier.isSome) : (s.update env k).Settles env := by
  obtain ⟨t, ht⟩ := Option.isSome_iff_exists.mp hs
  refine ⟨fun hn => absurd hn (by simp [update, ht]), fun tier htier => ?_⟩
  obtain ⟨t, _, rfl⟩ := Option.map_eq_some_iff.mp htier
  exact target_settles t

/-- Every step leaves a standing that one more recalibration settles. -/
theorem Step.settles (h : s.Step env k s') (hs : s.Settles env) : s'.Settles env := by
  cases h with
  | idle => exact hs
  | joined tier hnone =>
    have hnil : ({ s with tier := some tier } : Standing).evidence = [] := hs.fresh hnone
    refine ⟨fun hn => absurd hn (by simp), fun t _ => ?_⟩
    simp only [target_of_no_evidence hnil]
  | reviewed agrees hsome => exact settles_update hsome
  | checked agrees hsome => exact settles_update hsome
  | ticked =>
    refine ⟨fun hn => hs.fresh ?_, fun t ht => ?_⟩
    · simpa [update] using hn
    · rw [hs.settled t ht]
      exact hs.settled t ht

theorem Step.recorded_le (h : s.Step env k s') : s.recorded ≤ s'.recorded := by
  cases h with
  | idle => exact le_rfl
  | joined => exact le_rfl
  | reviewed => simp [recorded, evidence, update, Standing.reviewed]
  | checked => simp [recorded, evidence, update, Standing.checked]
  | ticked => exact le_rfl

/-- Without new evidence a settled standing stays as it is, except that a new expert joins. -/
theorem Step.settled (h : s.Step env k s') (hrec : s'.recorded = s.recorded) (hset : s.Settles env)
    (hs : s.Settled env) : s'.Settled env ∧ (s.tier.isSome → s' = s) := by
  cases h with
  | idle => exact ⟨hs, fun _ => rfl⟩
  | joined tier hnone =>
    have hnil : ({ s with tier := some tier } : Standing).evidence = [] := hset.fresh hnone
    exact ⟨fun t _ => target_of_no_evidence hnil t, fun hsome => absurd hsome (by simp [hnone])⟩
  | reviewed => simp [recorded, evidence, update, Standing.reviewed] at hrec
  | checked => simp [recorded, evidence, update, Standing.checked] at hrec
  | ticked =>
    rw [hs.update]
    exact ⟨hs, fun _ => rfl⟩

end Standing

/-! ### Ticks without new evidence -/

section Ticks
variable {k : Uuid}

theorem commit_standing {db : Db} (hc : Consistent db) (r : Request) (k : Uuid) :
    (db.standing k).Step r.env k ((commit step r db).standing k) := by
  rcases commit_cases step r db with ⟨x, hx⟩ | ⟨_, hsame⟩
  · exact step_standing hc hx k
  · rw [hsame]
    exact .idle

theorem after_standing (rs : List Request) (r : Request) (k : Uuid) :
    ((after rs).standing k).Step r.env k ((after (rs ++ [r])).standing k) := by
  rw [after_concat]
  exact commit_standing (Consistent.after rs) r k

theorem tick_commits {t : Request} {actor : String} (hop : t.op = .tick actor) (db : Db) :
    ∃ report, step t db = .ok (commit step t db, .report report) := by
  rcases commit_cases step t db with ⟨x, hx⟩ | ⟨⟨e, he⟩, _⟩
  · have hx' := hx
    simp only [step, hop] at hx'
    obtain ⟨report, _, rfl⟩ := answer_ok hx'
    exact ⟨report, hx⟩
  · simp only [step, hop, answer, tick, map_error_iff] at he
    exact absurd he (by simp)

theorem after_tick {t : Request} {actor : String} (hop : t.op = .tick actor) (rs : List Request)
    (k : Uuid) :
    (after (rs ++ [t])).standing k = ((after rs).standing k).update t.env k := by
  obtain ⟨report, ht⟩ := tick_commits hop (after rs)
  simp only [step, hop] at ht
  obtain ⟨_, ht, _⟩ := answer_ok ht
  rw [after_concat]
  exact (tick_standing ht).1 k

theorem recorded_mono (rs qs : List Request) (k : Uuid) :
    ((after rs).standing k).recorded ≤ ((after (rs ++ qs)).standing k).recorded := by
  induction qs using List.reverseRecOn with
  | nil => rw [List.append_nil]
  | append_singleton qs r ih =>
    rw [← List.append_assoc]
    exact ih.trans (after_standing (rs ++ qs) r k).recorded_le

theorem settles_after {s : Settings} {rs : List Request}
    (hs : ∀ r ∈ rs, r.env.settings.SameCalibration s) {env : Env}
    (he : env.settings.SameCalibration s) (k : Uuid) : ((after rs).standing k).Settles env := by
  induction rs using List.reverseRecOn with
  | nil => exact ⟨fun _ => rfl, fun t ht => absurd ht (by simp [after, Db.standing, Db.empty])⟩
  | append_singleton rs r ih =>
    have hr : r.env.settings.SameCalibration env.settings :=
      (hs r (by simp)).trans he.symm
    have hrs := ih (fun q hq => hs q (by simp [hq]))
    exact ((after_standing rs r k).settles (hrs.congr hr.symm)).congr hr

/-- A settled standing stays as it is until new evidence is recorded. -/
theorem settled_after {s : Settings} {rs qs : List Request}
    (hs : ∀ r ∈ rs ++ qs, r.env.settings.SameCalibration s) {env : Env}
    (he : env.settings.SameCalibration s)
    (hrec : ((after (rs ++ qs)).standing k).recorded = ((after rs).standing k).recorded)
    (hset : ((after rs).standing k).Settled env) : ((after (rs ++ qs)).standing k).Settled env := by
  induction qs using List.reverseRecOn with
  | nil => rwa [List.append_nil]
  | append_singleton qs r ih =>
    rw [← List.append_assoc] at hrec hs ⊢
    have hstep := after_standing (rs ++ qs) r k
    have hle := recorded_mono rs qs k
    have hle' := hstep.recorded_le
    have hsame (q : Request) (hq : q ∈ rs ++ qs) : q.env.settings.SameCalibration s :=
      hs q (List.mem_append_left _ hq)
    have hr : r.env.settings.SameCalibration env.settings := (hs r (by simp)).trans he.symm
    have hbefore := ih hsame (by omega)
    exact (hstep.settled (by omega) ((settles_after hsame he k).congr hr.symm)
      (hbefore.congr hr.symm)).1.congr hr

/-- Reports of ticks on a settled database are empty. -/
theorem report_of_settled {db db' : Db} {t : Request} {report : TickReport} {actor : String}
    (hop : t.op = .tick actor) (h : step t db = .ok (db', .report report))
    (hset : ∀ k, (db.standing k).Settled t.env) : report.tierChanges = [] := by
  simp only [step, hop] at h
  obtain ⟨_, h, he⟩ := answer_ok h
  obtain rfl := Response.report.inj he
  rw [(tick_standing h).2, List.filterMap_eq_nil_iff]
  intro e he
  have hmem : e ∈ db.experts := (List.mem_insertionSort _).mp he
  have htier : (db.standing e.id).tier = some e.tier :=
    congrArg (Option.map Expert.tier) (db.experts.get_of_mem hmem)
  rw [tierMoveOf, Standing.row, if_pos (hset e.id e.tier htier), Option.map_none]

/-- A tick moves an expert one step exactly when the evidence clears an edge of the band
and a tier is left in that direction, new evidence or not. Under one setting of the band
the first tick after a signal is the last to move: later ticks leave the tier and its
history alone until new evidence is recorded. -/
theorem tick_moves (rs : List Request) :
    (∀ t actor, t.op = .tick actor → ∀ k tier, ((after rs).standing k).tier = some tier →
      (∀ up, ((after rs).standing k).Clears t.env up → tier ≠ topTier up →
        ((after (rs ++ [t])).standing k).tier = some (stepTier tier up) ∧
        ∃ c, ((after (rs ++ [t])).standing k).changes = ((after rs).standing k).changes ++ [c] ∧
          c.fromTier = tier ∧ c.toTier = stepTier tier up) ∧
      ((∀ up, ((after rs).standing k).Clears t.env up → tier = topTier up) →
        (after (rs ++ [t])).standing k = (after rs).standing k)) ∧
    ∀ s : Settings, (∀ r ∈ rs, r.env.settings.SameCalibration s) →
      ∀ earlier t₁ between t₂ later a₁ a₂, rs = earlier ++ t₁ :: between ++ t₂ :: later →
      t₁.op = .tick a₁ → t₂.op = .tick a₂ →
      (∀ k, ((after (earlier ++ t₁ :: between)).standing k).recorded =
          ((after earlier).standing k).recorded →
        (after (earlier ++ t₁ :: between ++ [t₂])).standing k =
          (after (earlier ++ t₁ :: between)).standing k) ∧
      (between = [] → ∀ db' report, step t₂ (after (earlier ++ [t₁])) = .ok (db', .report report) →
        report.tierChanges = []) := by
  refine ⟨fun t actor hop k tier htier => ⟨fun up hclears hend => ?_, fun hend => ?_⟩, ?_⟩
  -- an edge is cleared and there is room: one step, one row
  · have htarget : ((after rs).standing k).target t.env tier = stepTier tier up :=
      Standing.target_of_clears hclears tier
    have hmoves : ((after rs).standing k).target t.env tier ≠ tier := by
      rw [htarget]
      exact fun h => hend (Standing.stepTier_eq_self.mp h)
    rw [after_tick hop]
    have hrow : ∃ c, ((after rs).standing k).row t.env k tier = some c ∧ c.fromTier = tier ∧
        c.toTier = stepTier tier up := ⟨_, if_neg hmoves, rfl, htarget⟩
    obtain ⟨c, hc, hfrom, hto⟩ := hrow
    refine ⟨by rw [Standing.update, htier, Option.map_some, htarget], c, ?_, hfrom, hto⟩
    rw [Standing.update, htier, Option.bind_some, hc]
    rfl
  · rw [after_tick hop]
    -- else the tick writes back what it finds
    apply Standing.Settled.update
    intro tier' htier'
    obtain rfl := Option.some.inj (htier.symm.trans htier')
    by_cases h : ∃ up, ((after rs).standing k).Clears t.env up
    · obtain ⟨up, h⟩ := h
      rw [Standing.target_of_clears h, Standing.stepTier_eq_self]
      exact hend up h
    · exact Standing.target_of_not_clears (not_exists.mp h) tier
  · rintro s hs earlier t₁ between t₂ later a₁ a₂ rfl hop₁ hop₂
    have hsame (q : Request) (hq : q ∈ earlier ++ t₁ :: between ++ [t₂]) :
        q.env.settings.SameCalibration s := by
      apply hs q
      simp only [List.mem_append, List.mem_cons, List.not_mem_nil, or_false] at hq ⊢
      tauto
    have ht₁ := hsame t₁ (by simp)
    have ht₂ := hsame t₂ (by simp)
    -- after one tick every standing is settled under these settings
    have hfirst (k : Uuid) : ((after (earlier ++ [t₁])).standing k).Settled t₂.env := by
      have hset : ((after earlier).standing k).Settles t₁.env :=
        settles_after (fun q hq => hsame q (by simp [hq])) ht₁ k
      rw [after_tick hop₁]
      exact (hset.settled).congr (ht₁.trans ht₂.symm)
    constructor
    · intro k hrec
      have hsplit : earlier ++ t₁ :: between = (earlier ++ [t₁]) ++ between := by simp
      have hlast : ((after ((earlier ++ [t₁]) ++ between)).standing k).Settled t₂.env := by
        refine settled_after (fun q hq => hsame q ?_) ht₂ ?_ (hfirst k)
        · rw [hsplit]
          exact List.mem_append_left _ hq
        · rw [← hsplit, hrec, after_tick hop₁]
          rfl
      rw [after_tick hop₂, hsplit]
      exact hlast.update
    · rintro rfl db' report h
      exact report_of_settled hop₂ h hfirst

/-! An expert whose only grade is approved. -/
namespace Scenario

/-- The request at a sample minimum of 1. -/
def lenient (r : Request) : Request :=
  { r with env := { r.env with settings := { r.env.settings with calibrationMinSamples := 1 } } }

def tickAt (n : ℕ) : Request := call n (.tick "system:tick")

def approved : List Request := setup ++
  [call 5 (.createTasks [task] "admin"), call 6 (.claimNext 300),
   call 7 (.submit 300 (grade 500 4)), call 8 (.review 7 ⟨700, .approve, none⟩ "reviewer")]

/-- The moves a tick reports. -/
def reportedMoves (r : Request) (db : Db) : List (Tier × Tier) :=
  match step r db with
  | .ok (_, .report report) => report.tierChanges.map (fun m => (m.fromTier, m.toTier))
  | _ => []

end Scenario

open Scenario in
/-- A tick right after the review that promoted an expert promotes them again; and when
the sample minimum is lowered between the review and two ticks, both ticks move. -/
theorem tick_moves_without_evidence :
    (((after (approved.map lenient)).standing 300).tier = some .senior ∧
      ((after (approved.map lenient)).standing 300).changes.length = 1 ∧
      ((after (approved.map lenient ++ [lenient (tickAt 9)])).standing 300).tier = some .lead ∧
      ((after (approved.map lenient ++ [lenient (tickAt 9)])).standing 300).changes.length = 2) ∧
    reportedMoves (lenient (tickAt 10)) (after (approved ++ [lenient (tickAt 9)])) =
      [(.senior, .lead)] := by
  decide +kernel

end Ticks

/-! ### How far two opposite moves are apart -/

/-- All signals, newest first. -/
def Standing.history (s : Standing) : List Signal := newestFirst s.evidence

/-- No two signals were recorded at one time. -/
def Standing.Ordered (s : Standing) : Prop := s.history.Pairwise (fun a b => b.1 < a.1)

instance {α : Type} : Std.Total (fun a b : Time × α => b.1 ≤ a.1) := ⟨fun a b => le_total b.1 a.1⟩

instance {α : Type} : IsTrans (Time × α) (fun a b => b.1 ≤ a.1) := ⟨fun _ _ _ h h' => h'.trans h⟩

theorem newestFirst_perm {α : Type} (l : List (Time × α)) : (newestFirst l).Perm l :=
  List.perm_insertionSort _ l

/-- The only strictly descending arrangement of the entries. -/
theorem newestFirst_eq {α : Type} {l l' : List (Time × α)} (hp : l.Perm l')
    (hs : l'.Pairwise (fun a b => b.1 < a.1)) : newestFirst l = l' := by
  have hsorted : l'.Pairwise (fun a b => b.1 ≤ a.1) := hs.imp le_of_lt
  have hdistinct : l'.Pairwise (fun a b => a.1 ≠ b.1) := hs.imp (fun h => h.ne')
  have hsymm : Std.Symm (fun a b : Time × α => a.1 ≠ b.1) := ⟨fun _ _ h => h.symm⟩
  refine ((newestFirst_perm l).trans hp).eq_of_pairwise ?_ (List.pairwise_insertionSort _ l) hsorted
  intro a b ha hb hab hba
  by_contra hne
  have ha' : a ∈ l' := hp.mem_iff.mp ((newestFirst_perm l).mem_iff.mp ha)
  exact hdistinct.forall ha' hb hne (le_antisymm hba hab)

namespace Standing
variable {env : Env} {k : Uuid} {s s' : Standing}

theorem mem_history {x : Signal} : x ∈ s.history ↔ x ∈ s.evidence :=
  (newestFirst_perm s.evidence).mem_iff

theorem length_history : s.history.length = s.recorded := (newestFirst_perm s.evidence).length_eq

/-- The flags are the newest entries of the one history behind the two tables. -/
theorem Ordered.flags (h : s.Ordered) (window : ℕ) :
    s.flags window = (s.history.map Prod.snd).take window := by
  have hdistinct : s.history.Pairwise (fun a b => a.1 ≠ b.1) := h.imp (fun h => h.ne')
  have hsymm : Std.Symm (fun a b : Signal => a.1 ≠ b.1) := ⟨fun _ _ h => h.symm⟩
  have hanti (a : Signal) (ha : a ∈ s.evidence) (b : Signal) (hb : b ∈ s.evidence)
      (hab : b.1 ≤ a.1) (hba : a.1 ≤ b.1) : a = b := by
    by_contra hne
    exact hdistinct.forall (mem_history.mpr ha) (mem_history.mpr hb) hne (le_antisymm hba hab)
  rw [Standing.flags, newestFirst, newestFirst, newestFirst,
    Windows.take_insertionSort_append window hanti, ← List.map_take]
  rfl

/-- A step adds its signal, if it records one, in front of the history. -/
theorem Step.history (h : s.Step env k s')
    (htime : s.recorded < s'.recorded → ∀ x ∈ s.evidence, x.1 < env.now) (ho : s.Ordered) :
    s'.Ordered ∧ ∃ new, s'.history = new ++ s.history := by
  -- a new signal is later than all others, so sorting puts it first
  have hadd (x : Signal) (hx : x.1 = env.now) (hperm : s'.evidence.Perm (x :: s.evidence)) :
      s'.Ordered ∧ ∃ new, s'.history = new ++ s.history := by
    have hlt : s.recorded < s'.recorded := by
      rw [recorded, recorded, hperm.length_eq, List.length_cons]
      omega
    have hsorted : (x :: s.history).Pairwise (fun a b => b.1 < a.1) := by
      refine List.pairwise_cons.mpr ⟨fun y hy => ?_, ho⟩
      rw [hx]
      exact htime hlt y (mem_history.mp hy)
    have heq : s'.history = x :: s.history :=
      newestFirst_eq (hperm.trans ((newestFirst_perm s.evidence).symm.cons x)) hsorted
    exact ⟨by rwa [Ordered, heq], [x], heq⟩
  cases h with
  | idle => exact ⟨ho, [], rfl⟩
  | joined => exact ⟨ho, [], rfl⟩
  | reviewed agrees => exact hadd (env.now, agrees) rfl (by
      simp only [evidence, update, Standing.reviewed, List.append_assoc]
      exact List.perm_middle)
  | checked agrees => exact hadd (env.now, agrees) rfl (by
      simp only [evidence, update, Standing.checked, ← List.append_assoc]
      exact (List.perm_append_singleton _ _))
  | ticked => exact ⟨ho, [], rfl⟩

theorem Step.mem_evidence (h : s.Step env k s') {x : Signal} (hx : x ∈ s'.evidence) :
    x ∈ s.evidence ∨ x.1 = env.now := by
  cases h with
  | idle => exact Or.inl hx
  | joined => exact Or.inl hx
  | reviewed agrees =>
    simp only [evidence, update, Standing.reviewed, List.mem_append, List.mem_singleton] at hx ⊢
    rcases hx with (hx | rfl) | hx
    · exact Or.inl (Or.inl hx)
    · exact Or.inr rfl
    · exact Or.inl (Or.inr hx)
  | checked agrees =>
    simp only [evidence, update, Standing.checked, List.mem_append, List.mem_singleton] at hx ⊢
    rcases hx with hx | hx | rfl
    · exact Or.inl (Or.inl hx)
    · exact Or.inl (Or.inr hx)
    · exact Or.inr rfl
  | ticked => exact Or.inl hx

/-- A row a step adds to the history records a move the evidence after it calls for. -/
theorem Step.row (h : s.Step env k s') {c : TierChange} (hc : s'.changes = s.changes ++ [c]) :
    c.samples = (s'.score env).2 ∧ ∃ up, s'.Clears env up ∧ c.fromTier ≠ topTier up ∧
      c.toTier = stepTier c.fromTier up := by
  -- a check, a review and a tick all end in `update`
  have hupdate (base : Standing) (hchanges : (base.update env k).changes = base.changes ++ [c]) :
      c.samples = ((base.update env k).score env).2 ∧ ∃ up, (base.update env k).Clears env up ∧
        c.fromTier ≠ topTier up ∧ c.toTier = stepTier c.fromTier up := by
    have hrow : (base.tier.bind (base.row env k)).toList = [c] := List.append_cancel_left hchanges
    rw [Option.toList_eq_singleton_iff, Option.bind_eq_some_iff] at hrow
    obtain ⟨tier, _, hrow⟩ := hrow
    unfold Standing.row at hrow
    split_ifs at hrow with hsame
    obtain rfl := Option.some.inj hrow
    refine ⟨rfl, ?_⟩
    by_cases hup : ∃ up, base.Clears env up
    · obtain ⟨up, hup⟩ := hup
      have htarget := target_of_clears hup tier
      refine ⟨up, hup, fun hend => hsame ?_, htarget⟩
      exact htarget.trans (stepTier_eq_self.mpr hend)
    · exact absurd (target_of_not_clears (not_exists.mp hup) tier) hsame
  -- the other steps add no row
  have hnone {t : Standing} (ht : t.changes = s.changes) (hc : t.changes = s.changes ++ [c]) :
      False := by
    rw [ht] at hc
    exact absurd hc (by simp)
  cases h with
  | idle => exact (hnone rfl hc).elim
  | joined => exact (hnone rfl hc).elim
  | reviewed agrees => exact hupdate _ hc
  | checked agrees => exact hupdate _ hc
  | ticked => exact hupdate _ hc

theorem score_eq {rate : ℚ} (h : (s.score env).1 = some rate) :
    (s.score env).2 = (s.flags env.settings.calibrationWindow).length ∧
      rate * (s.flags env.settings.calibrationWindow).length =
        (s.flags env.settings.calibrationWindow).count true := by
  unfold score at h ⊢
  by_cases hnil : s.flags env.settings.calibrationWindow = []
  · simp [hnil] at h
  · have hpos : ((s.flags env.settings.calibrationWindow).length : ℚ) ≠ 0 := by
      exact_mod_cast (List.length_pos_iff.mpr hnil).ne'
    rw [if_neg hnil] at h ⊢
    refine ⟨rfl, ?_⟩
    rw [← Option.some.inj h, div_mul_cancel₀ _ hpos]

theorem ordered_of_nodup (h : (s.evidence.map Prod.fst).Nodup) : s.Ordered := by
  have hsorted : s.history.Pairwise (fun a b => b.1 ≤ a.1) := List.pairwise_insertionSort _ _
  have htimes : (s.history.map Prod.fst).Nodup :=
    (((newestFirst_perm s.evidence).map Prod.fst).nodup_iff).mpr h
  have hdistinct : s.history.Pairwise (fun a b => a.1 ≠ b.1) := List.pairwise_map.mp htimes
  exact hsorted.imp₂ (fun _ _ hle hne => lt_of_le_of_ne hle (Ne.symm hne)) hdistinct

/-- The score is the share of agreement in the window of the one history. -/
theorem Ordered.score (h : s.Ordered) (env : Env) :
    s.score env =
      if min env.settings.calibrationWindow s.history.length = 0 then (none, 0)
      else (some (((s.history.take env.settings.calibrationWindow).countP Prod.snd : ℚ) /
          (min env.settings.calibrationWindow s.history.length : ℕ)),
        min env.settings.calibrationWindow s.history.length) := by
  have hcount : (s.flags env.settings.calibrationWindow).count true =
      (s.history.take env.settings.calibrationWindow).countP Prod.snd := by
    rw [h.flags, ← List.map_take, List.count, List.countP_map]
    refine List.countP_congr (fun x _ => ?_)
    simp
  have hlength : (s.flags env.settings.calibrationWindow).length =
      min env.settings.calibrationWindow s.history.length := by
    rw [h.flags, List.length_take, List.length_map]
  have hnil : s.flags env.settings.calibrationWindow = [] ↔
      min env.settings.calibrationWindow s.history.length = 0 := by
    rw [← hlength, List.length_eq_zero_iff]
  unfold Standing.score
  simp only [hnil, hcount, hlength]

end Standing

/-- The flags of an expert are the newest entries of the union of their reviews and checks,
newest first, whatever the two histories and the window are; the score is their share of
agreement. -/
theorem signals_newest (db : Db) (expertId : Uuid)
    (htimes : ((reviewSignals db expertId ++ checkSignals db expertId).map Prod.fst).Nodup) :
    ∃ history : List Signal,
      history.Perm (reviewSignals db expertId ++ checkSignals db expertId) ∧
      history.Pairwise (fun a b => b.1 < a.1) ∧
      (∀ window, signals db expertId window = (history.take window).map Prod.snd) ∧
      ∀ env : Env, score env db expertId =
        if min env.settings.calibrationWindow history.length = 0 then (none, 0)
        else (some (((history.take env.settings.calibrationWindow).countP Prod.snd : ℚ) /
            (min env.settings.calibrationWindow history.length : ℕ)),
          min env.settings.calibrationWindow history.length) := by
  have hordered : (db.standing expertId).Ordered := Standing.ordered_of_nodup htimes
  refine ⟨(db.standing expertId).history, newestFirst_perm _, hordered, fun window => ?_,
    fun env => ?_⟩
  · rw [List.map_take]
    exact hordered.flags window
  · exact hordered.score env

open Scenario in
theorem signals_newest_approved : ∃ history : List Signal,
    history.Perm (reviewSignals (after approved) 300 ++ checkSignals (after approved) 300) ∧
    history.Pairwise (fun a b => b.1 < a.1) ∧
    (∀ window, signals (after approved) 300 window = (history.take window).map Prod.snd) ∧
    ∀ env : Env, score env (after approved) 300 =
      if min env.settings.calibrationWindow history.length = 0 then (none, 0)
      else (some (((history.take env.settings.calibrationWindow).countP Prod.snd : ℚ) /
          (min env.settings.calibrationWindow history.length : ℕ)),
        min env.settings.calibrationWindow history.length) :=
  signals_newest (after approved) 300 (by decide +kernel)

/-- The share of signals `up` that calls for a move in the direction `up`. -/
def Settings.edge (s : Settings) (up : Bool) : ℚ :=
  if up then s.calibrationPromoteAt else 1 - s.calibrationDemoteAt

namespace Standing
variable {env : Env} {k : Uuid} {s s' : Standing}

/-- Evidence that clears an edge, as counts over the window. -/
theorem Clears.counts {up : Bool} (h : s.Clears env up) (ho : s.Ordered) :
    let window := (s.history.map Prod.snd).take env.settings.calibrationWindow
    (s.score env).2 = window.length ∧ env.settings.calibrationMinSamples ≤ window.length ∧
      env.settings.edge up * window.length ≤ window.count up := by
  obtain ⟨hmin, rate, hrate, hedge⟩ := h
  obtain ⟨hlen, hcount⟩ := score_eq hrate
  rw [ho.flags] at hlen hcount
  refine ⟨hlen, hlen ▸ hmin, ?_⟩
  have hnonneg : (0 : ℚ) ≤
      ((s.history.map Prod.snd).take env.settings.calibrationWindow).length := Nat.cast_nonneg _
  -- not passed is the rest of the window
  cases up
  · have hnot :
        ((((s.history.map Prod.snd).take env.settings.calibrationWindow).count false : ℕ) : ℚ) +
        ((s.history.map Prod.snd).take env.settings.calibrationWindow).count true =
          ((s.history.map Prod.snd).take env.settings.calibrationWindow).length := by
      exact_mod_cast List.count_not_add_count _ true
    have hle := mul_le_mul_of_nonneg_right hedge.2 hnonneg
    show (1 - env.settings.calibrationDemoteAt) * _ ≤ _
    linarith
  · exact (mul_le_mul_of_nonneg_right hedge hnonneg).trans_eq hcount

/-- Between evidence that clears one edge and later evidence that clears the other there
are at least as many new signals as the band is wide, in parts of the window. -/
theorem Clears.spaced {st : Settings} {env' : Env} {up : Bool} {new : List Signal}
    (hd : 0 ≤ st.calibrationDemoteAt) (hdp : st.calibrationDemoteAt < st.calibrationPromoteAt)
    (hp : st.calibrationPromoteAt ≤ 1) (he : env.settings.SameCalibration st)
    (he' : env'.settings.SameCalibration st) (h : s.Clears env up) (h' : s'.Clears env' (!up))
    (ho : s.Ordered) (ho' : s'.Ordered) (hnew : s'.history = new ++ s.history) :
    (st.calibrationPromoteAt - st.calibrationDemoteAt) * (s.score env).2 ≤ new.length := by
  obtain ⟨hlen, _, hcount⟩ := h.counts ho
  obtain ⟨_, _, hcount'⟩ := h'.counts ho'
  have hedge (up : Bool) : env.settings.edge up = st.edge up := by
    rw [Settings.edge, Settings.edge, he.promoteAt, he.demoteAt]
  have hedge' (up : Bool) : env'.settings.edge up = st.edge up := by
    rw [Settings.edge, Settings.edge, he'.promoteAt, he'.demoteAt]
  rw [hedge, he.window] at hcount
  rw [hedge', he'.window, hnew, List.map_append] at hcount'
  -- few signals of the other kind in the later window are many of this kind
  have hfew : ((((new.map Prod.snd ++ s.history.map Prod.snd).take st.calibrationWindow).count
      up : ℕ) : ℚ) ≤ (1 - st.edge (!up)) * ((new.map Prod.snd ++ s.history.map Prod.snd).take
        st.calibrationWindow).length := by
    have hsum : ((((new.map Prod.snd ++ s.history.map Prod.snd).take st.calibrationWindow).count
        (!up) : ℕ) : ℚ) + ((new.map Prod.snd ++ s.history.map Prod.snd).take
          st.calibrationWindow).count up =
        ((new.map Prod.snd ++ s.history.map Prod.snd).take st.calibrationWindow).length := by
      exact_mod_cast List.count_not_add_count _ up
    linarith
  have hwidth : st.edge up - (1 - st.edge (!up)) =
      st.calibrationPromoteAt - st.calibrationDemoteAt := by
    cases up <;> simp only [Settings.edge, Bool.not_true, Bool.not_false, if_true, if_false,
      Bool.false_eq_true] <;> ring
  have hbounds : 0 ≤ 1 - st.edge (!up) ∧ 1 - st.edge (!up) ≤ st.edge up ∧ st.edge up ≤ 1 := by
    cases up <;> simp only [Settings.edge, Bool.not_true, Bool.not_false, if_true, if_false,
      Bool.false_eq_true] <;> refine ⟨?_, ?_, ?_⟩ <;> linarith
  have hgap := Windows.band_gap up hbounds.1 hbounds.2.1 hbounds.2.2 st.calibrationWindow
    (new.map Prod.snd) (s.history.map Prod.snd) hcount hfew
  rwa [hwidth, ← he.window, ← hlen, List.length_map] at hgap

end Standing

section Moves
variable {k : Uuid}

/-- The timestamps of an expert's signals increase along the run. -/
def SignalsAscend (rs : List Request) (k : Uuid) : Prop :=
  ∀ earlier r later, rs = earlier ++ r :: later →
    ((after earlier).standing k).recorded < ((after (earlier ++ [r])).standing k).recorded →
    ∀ x ∈ ((after earlier).standing k).evidence, x.1 < r.env.now

/-- The request writes the row `c` of the expert's tier history. -/
def Moves (k : Uuid) (earlier : List Request) (r : Request) (c : TierChange) : Prop :=
  ((after (earlier ++ [r])).standing k).changes = ((after earlier).standing k).changes ++ [c]

theorem SignalsAscend.init {rs qs : List Request} (h : SignalsAscend (rs ++ qs) k) :
    SignalsAscend rs k := by
  rintro earlier r later rfl
  exact h earlier r (later ++ qs) (by simp)

/-- A request records a signal at its own time. -/
theorem time_of_signal (rs : List Request) {x : Signal}
    (hx : x ∈ ((after rs).standing k).evidence) : ∃ r ∈ rs, x.1 = r.env.now := by
  induction rs using List.reverseRecOn with
  | nil => exact absurd hx List.not_mem_nil
  | append_singleton rs r ih =>
    rcases (after_standing rs r k).mem_evidence hx with hx | hx
    · obtain ⟨q, hq, hxq⟩ := ih hx
      exact ⟨q, List.mem_append_left _ hq, hxq⟩
    · exact ⟨r, by simp, hx⟩

theorem SignalsAscend.of_times {rs : List Request}
    (h : rs.Pairwise (fun q r => q.env.now < r.env.now)) (k : Uuid) : SignalsAscend rs k := by
  rintro earlier r later rfl - x hx
  obtain ⟨q, hq, hxq⟩ := time_of_signal earlier hx
  rw [hxq]
  exact (List.pairwise_append.mp h).2.2 q hq r List.mem_cons_self

theorem ordered_after {rs : List Request} (h : SignalsAscend rs k) :
    ((after rs).standing k).Ordered := by
  induction rs using List.reverseRecOn with
  | nil => exact List.Pairwise.nil
  | append_singleton rs r ih =>
    exact ((after_standing rs r k).history (h rs r [] rfl) (ih h.init)).1

theorem history_after {rs qs : List Request} (h : SignalsAscend (rs ++ qs) k) :
    ∃ new, ((after (rs ++ qs)).standing k).history = new ++ ((after rs).standing k).history := by
  induction qs using List.reverseRecOn with
  | nil => exact ⟨[], by rw [List.append_nil]; rfl⟩
  | append_singleton qs r ih =>
    rw [← List.append_assoc] at h ⊢
    obtain ⟨new, hnew⟩ := ih h.init
    obtain ⟨x, hx⟩ := ((after_standing (rs ++ qs) r k).history (h (rs ++ qs) r [] rfl)
      (ordered_after h.init)).2
    exact ⟨x ++ new, by rw [hx, hnew, List.append_assoc]⟩

/-- The direction of a move shows in the ranks. -/
theorem rank_stepTier {tier : Tier} {up : Bool} (h : tier ≠ topTier up) :
    (tier.rank < (stepTier tier up).rank ↔ up = true) ∧
      ((stepTier tier up).rank < tier.rank ↔ up = false) := by
  revert h
  cases tier <;> cases up <;> decide

/-- No flapping: between a tier move of an expert, made on `c₁.samples` signals, and a
later move in the other direction at least `(promote_at - demote_at) * c₁.samples` new
signals are recorded about them. -/
theorem opposite_moves_spaced {s : Settings} (hd : 0 ≤ s.calibrationDemoteAt)
    (hdp : s.calibrationDemoteAt < s.calibrationPromoteAt) (hp : s.calibrationPromoteAt ≤ 1)
    {rs : List Request}
    (hs : ∀ r ∈ rs, r.env.settings.SameCalibration s) (htimes : SignalsAscend rs k)
    {earlier between later : List Request} {r₁ r₂ : Request} {c₁ c₂ : TierChange}
    (hrs : rs = earlier ++ r₁ :: between ++ r₂ :: later) (h₁ : Moves k earlier r₁ c₁)
    (h₂ : Moves k (earlier ++ r₁ :: between) r₂ c₂)
    (hopp : c₁.fromTier.rank < c₁.toTier.rank ∧ c₂.toTier.rank < c₂.fromTier.rank ∨
      c₁.toTier.rank < c₁.fromTier.rank ∧ c₂.fromTier.rank < c₂.toTier.rank) :
    (s.calibrationPromoteAt - s.calibrationDemoteAt) * s.calibrationMinSamples ≤
        (s.calibrationPromoteAt - s.calibrationDemoteAt) * c₁.samples ∧
      (s.calibrationPromoteAt - s.calibrationDemoteAt) * c₁.samples ≤
        (((after (earlier ++ r₁ :: between ++ [r₂])).standing k).recorded -
          ((after (earlier ++ [r₁])).standing k).recorded : ℕ) := by
  have hlast : earlier ++ r₁ :: between ++ [r₂] = (earlier ++ [r₁]) ++ (between ++ [r₂]) := by simp
  have hrun : rs = ((earlier ++ [r₁]) ++ (between ++ [r₂])) ++ later := by simp [hrs]
  have hascend : SignalsAscend ((earlier ++ [r₁]) ++ (between ++ [r₂])) k := by
    rw [hrun] at htimes
    exact htimes.init
  obtain ⟨hsamples, up₁, hclears₁, hend₁, hto₁⟩ := (after_standing earlier r₁ k).row h₁
  obtain ⟨_, up₂, hclears₂, hend₂, hto₂⟩ :=
    (after_standing (earlier ++ r₁ :: between) r₂ k).row h₂
  -- the second move goes the other way, so the other edge was cleared
  have hother : up₂ = !up₁ := by
    rw [hto₁, hto₂, (rank_stepTier hend₁).1, (rank_stepTier hend₁).2, (rank_stepTier hend₂).1,
      (rank_stepTier hend₂).2] at hopp
    rcases hopp with ⟨rfl, rfl⟩ | ⟨rfl, rfl⟩ <;> rfl
  obtain ⟨new, hnew⟩ := history_after hascend
  -- the signals recorded in between are what the history has grown by
  have hcount : new.length = ((after (earlier ++ r₁ :: between ++ [r₂])).standing k).recorded -
      ((after (earlier ++ [r₁])).standing k).recorded := by
    rw [hlast, ← Standing.length_history, ← Standing.length_history, hnew, List.length_append]
    omega
  have hr₁ : r₁.env.settings.SameCalibration s := hs r₁ (by simp [hrs])
  have hr₂ : r₂.env.settings.SameCalibration s := hs r₂ (by simp [hrs])
  rw [hother, hlast] at hclears₂
  have hspaced := hclears₁.spaced hd hdp hp hr₁ hr₂ hclears₂ (ordered_after hascend.init)
    (ordered_after hascend) hnew
  rw [← hcount, hsamples]
  refine ⟨?_, hspaced⟩
  have hmin : s.calibrationMinSamples ≤ c₁.samples := by
    rw [hsamples, ← hr₁.minSamples]
    exact hclears₁.1
  rw [← hsamples]
  have hmin' : (s.calibrationMinSamples : ℚ) ≤ c₁.samples := by exact_mod_cast hmin
  exact mul_le_mul_of_nonneg_left hmin' (by linarith)

deriving instance DecidableEq for TierChange

/-! An expert with two grades, the first approved and the second rejected. -/
namespace Scenario

def twoGrades : List Request := (setup ++
  [call 5 (.createTasks [task, task] "admin"), call 6 (.claimNext 300),
   call 7 (.submit 300 (grade 500 4)), call 8 (.claimNext 300),
   call 9 (.submit 300 (grade 501 4))]).map lenient

def approveFirst : Request := lenient (call 10 (.review 7 ⟨700, .approve, none⟩ "reviewer"))

def rejectSecond : Request := lenient (call 11 (.review 7 ⟨900, .reject, none⟩ "reviewer"))

def upFirst : TierChange := ⟨300, .junior, .senior, 1, 1, 10⟩

def downSecond : TierChange := ⟨300, .senior, .junior, 1 / 2, 2, 11⟩

end Scenario

open Scenario in
theorem opposite_moves_spaced_two :
    ((9 / 10 : ℚ) - 6 / 10) * (1 : ℕ) ≤ (9 / 10 - 6 / 10) * (upFirst.samples : ℕ) ∧
      ((9 / 10 : ℚ) - 6 / 10) * (upFirst.samples : ℕ) ≤
        (((after (twoGrades ++ approveFirst :: [] ++ [rejectSecond])).standing 300).recorded -
          ((after (twoGrades ++ [approveFirst])).standing 300).recorded : ℕ) := by
  have hup : Moves 300 twoGrades approveFirst upFirst := by
    unfold Moves
    decide +kernel
  have hdown : Moves 300 (twoGrades ++ approveFirst :: []) rejectSecond downSecond := by
    unfold Moves
    decide +kernel
  have hsame : ∀ r ∈ twoGrades ++ approveFirst :: [] ++ rejectSecond :: [],
      r.env.settings.SameCalibration { calibrationMinSamples := 1 } := by
    decide +kernel
  have htimes : SignalsAscend (twoGrades ++ approveFirst :: [] ++ rejectSecond :: []) 300 :=
    .of_times (by decide +kernel) 300
  exact opposite_moves_spaced (s := { calibrationMinSamples := 1 }) (by norm_num) (by norm_num)
    (by norm_num) hsame htimes rfl hup hdown (Or.inl (by decide))

end Moves

end Panelist
