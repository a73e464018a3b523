import Panelist.Models

/-! `panelist.services.calibration`: the rolling agreement rate and the tier steps. -/
namespace Panelist
open Relational

/-- Rows tagged with their creation time, newest first; equal times keep the
order the rows came in. -/
def newestFirst {α : Type} (l : List (Time × α)) : List (Time × α) :=
  l.insertionSort (fun a b => b.1 ≤ a.1)

def gradeExpert (db : Db) (gradeId : Uuid) : Option Uuid :=
  (db.grades.get gradeId).map Grade.expertId

/-- Newest-first agreement flags: reviewer approvals and passed golden checks. -/
def signals (db : Db) (expertId : Uuid) (window : ℕ) : List Bool :=
  let reviews := (newestFirst ((db.reviews.rows.filter
      (fun r => gradeExpert db r.gradeId == some expertId)).map
    (fun r => (r.createdAt, decide (r.decision = .approve))))).take window
  -- each side is cut to the window before the two are merged
  let checks := (newestFirst ((db.attentionResults.rows.filter
      (fun a => a.expertId = expertId)).map (fun a => (a.createdAt, a.passed)))).take window
  ((newestFirst (reviews ++ checks)).take window).map Prod.snd

def score (env : Env) (db : Db) (expertId : Uuid) : Option ℚ × ℕ :=
  let flags := signals db expertId env.settings.calibrationWindow
  if flags = [] then (none, 0)
  else (some ((flags.count true : ℚ) / flags.length), flags.length)

/-- `_step` by one, up or down, held at the ends of `TIERS_ASCENDING`. -/
def stepTier : Tier → (up : Bool) → Tier
  | .junior, true => .senior
  | .senior, true => .lead
  | .lead, true => .lead
  | .junior, false => .junior
  | .senior, false => .junior
  | .lead, false => .senior

/-- The tier `update` moves to at this rate and sample size. -/
def targetTier (env : Env) (tier : Tier) (rate : ℚ) : Tier :=
  -- promotion is looked at first, should the band be empty
  if env.settings.calibrationPromoteAt ≤ rate then stepTier tier true
  else if rate ≤ env.settings.calibrationDemoteAt then stepTier tier false
  else tier

def Expert.calibrated (rate : Option ℚ) (samples : ℕ) (e : Expert) : Expert :=
  { e with calibrationScore := rate, calibrationSamples := samples }

def Expert.movedTo (tier : Tier) (now : Time) (e : Expert) : Expert :=
  { e with tier := tier, tierUpdatedAt := some now }

/-- `calibration.update`: recompute the rolling score and move one tier when it
clears a band edge. -/
def calibrationUpdate (env : Env) (db : Db) (expert : Expert) (actor : String) :
    Db × Option TierChange :=
  let (rate, samples) := score env db expert.id
  -- the score is written also below the sample minimum
  let db := { db with experts := db.experts.update expert.id (Expert.calibrated rate samples) }
  match rate with
  | none => (db, none)
  | some rate =>
    if samples < env.settings.calibrationMinSamples then (db, none)
    else
      let target := targetTier env expert.tier rate
      -- at an end of the tiers the step goes nowhere and leaves no row
      if target = expert.tier then (db, none)
      else
        let change := ⟨expert.id, expert.tier, target, rate, samples, env.now⟩
        let db := { db with
          experts := db.experts.update expert.id (Expert.movedTo target env.now)
          tierChanges := db.tierChanges ++ [change] }
        (record db actor "expert.tier" "expert" expert.id.str, some change)

/-! ### What a recalibration writes -/

/-- The tier `calibrationUpdate` leaves `expert` with, if it moves it. -/
def tierMove (env : Env) (db : Db) (expert : Expert) : Option Tier :=
  match (score env db expert.id).1 with
  | none => none
  | some rate =>
    if (score env db expert.id).2 < env.settings.calibrationMinSamples then none
    else if targetTier env expert.tier rate = expert.tier then none
    else some (targetTier env expert.tier rate)

/-- The columns of an expert row after a recalibration of `expert`. -/
def recalibrated (env : Env) (db : Db) (expert : Expert) (x : Expert) : Expert :=
  let x := x.calibrated (score env db expert.id).1 (score env db expert.id).2
  (tierMove env db expert).elim x (fun tier => x.movedTo tier env.now)

theorem recalibrated_keeps (env : Env) (db : Db) (expert : Expert) :
    Table.Keeps (recalibrated env db expert) := by
  intro x
  unfold recalibrated
  cases tierMove env db expert <;> rfl

/-- `e'` is `e` up to the columns a recalibration writes. -/
def Expert.Recalibrated (e e' : Expert) : Prop :=
  e' = { e with
    tier := e'.tier
    calibrationScore := e'.calibrationScore
    calibrationSamples := e'.calibrationSamples
    tierUpdatedAt := e'.tierUpdatedAt }

namespace Expert.Recalibrated
variable {e e' e'' : Expert}

theorem refl (e : Expert) : e.Recalibrated e := rfl

theorem trans (h : e.Recalibrated e') (h' : e'.Recalibrated e'') : e.Recalibrated e'' := by
  unfold Expert.Recalibrated at h h' ⊢
  rw [h] at h'
  exact h'

theorem status_eq (h : e.Recalibrated e') : e'.status = e.status := by
  unfold Expert.Recalibrated at h
  rw [h]

theorem of_recalibrated (env : Env) (db : Db) (expert x : Expert) :
    x.Recalibrated (recalibrated env db expert x) := by
  unfold recalibrated
  cases tierMove env db expert <;> rfl

end Expert.Recalibrated

/-- `T'` is `T` after any number of recalibrations. -/
def Recalibrates (T T' : Table Expert) : Prop :=
  ∃ f, ∃ hf : Table.Keeps f, (∀ e : Expert, e.Recalibrated (f e)) ∧ T' = T.map f hf

theorem Recalibrates.refl (T : Table Expert) : Recalibrates T T :=
  ⟨id, fun _ => rfl, Expert.Recalibrated.refl, by cases T; simp [Table.map]⟩

theorem Recalibrates.trans {T T' T'' : Table Expert} (h : Recalibrates T T')
    (h' : Recalibrates T' T'') : Recalibrates T T'' := by
  obtain ⟨f, hf, hfe, rfl⟩ := h
  obtain ⟨g, hg, hge, rfl⟩ := h'
  exact ⟨fun e => g (f e), fun e => (hg (f e)).trans (hf e), fun e => (hfe e).trans (hge (f e)),
    by simp [Table.map, Function.comp_def]⟩

theorem Recalibrates.update (T : Table Expert) (env : Env) (db : Db) (expert : Expert) :
    Recalibrates T (T.update expert.id (recalibrated env db expert)
      (recalibrated_keeps env db expert)) := by
  refine ⟨_, (recalibrated_keeps env db expert).ite _, fun e => ?_, rfl⟩
  split
  · exact Expert.Recalibrated.of_recalibrated env db expert e
  · exact Expert.Recalibrated.refl e

theorem Recalibrates.get {T T' : Table Expert} (h : Recalibrates T T') (k : Uuid) :
    (T.get k = none ∧ T'.get k = none) ∨
      ∃ e e', T.get k = some e ∧ T'.get k = some e' ∧ e.Recalibrated e' := by
  obtain ⟨f, hf, hfe, rfl⟩ := h
  rw [Table.get_map]
  cases T.get k with
  | none => exact Or.inl ⟨rfl, rfl⟩
  | some e => exact Or.inr ⟨e, f e, rfl, rfl, hfe e⟩

/-- The row a recalibration of `expert` adds to the tier history, if it moves them. -/
def changeRow (env : Env) (db : Db) (expert : Expert) : Option TierChange :=
  (tierMove env db expert).map (fun tier =>
    ⟨expert.id, expert.tier, tier, (score env db expert.id).1.getD 0, (score env db expert.id).2,
      env.now⟩)

/-- A recalibration writes one expert row, adds at most one row to the tier history,
which is its answer, and otherwise only the trail. -/
theorem calibrationUpdate_spec (env : Env) (db : Db) (expert : Expert) (actor : String) :
    ∃ events, calibrationUpdate env db expert actor =
      ({ db with
        experts := db.experts.update expert.id (recalibrated env db expert)
          (recalibrated_keeps env db expert)
        tierChanges := db.tierChanges ++ (changeRow env db expert).toList
        auditEvents := events }, changeRow env db expert) := by
  -- without a move only the score and the sample count are written
  have hstay (hm : tierMove env db expert = none) :
      recalibrated env db expert =
        Expert.calibrated (score env db expert.id).1 (score env db expert.id).2 := by
    funext x
    simp [recalibrated, hm]
  have hquiet (hm : tierMove env db expert = none) : changeRow env db expert = none := by
    rw [changeRow, hm, Option.map_none]
  unfold calibrationUpdate
  cases hp : score env db expert.id with
  | mk rate samples =>
  cases rate with
  | none =>
    have hm : tierMove env db expert = none := by simp [tierMove, hp]
    refine ⟨db.auditEvents, ?_⟩
    simp only [hstay hm, hquiet hm, hp, Option.toList_none, List.append_nil]
    rfl
  | some rate =>
    dsimp only
    -- too few samples, the tier it has, or a move
    split_ifs with hfew hsame
    · have hm : tierMove env db expert = none := by simp [tierMove, hp, hfew]
      refine ⟨db.auditEvents, ?_⟩
      simp only [hstay hm, hquiet hm, hp, Option.toList_none, List.append_nil]
      rfl
    · have hm : tierMove env db expert = none := by simp [tierMove, hp, hsame]
      refine ⟨db.auditEvents, ?_⟩
      simp only [hstay hm, hquiet hm, hp, Option.toList_none, List.append_nil]
      rfl
    · have hm : tierMove env db expert = some (targetTier env expert.tier rate) := by
        simp [tierMove, hp, hfew, hsame]
      have hf : recalibrated env db expert = fun x =>
          (x.calibrated (some rate) samples).movedTo (targetTier env expert.tier rate) env.now := by
        funext x
        simp [recalibrated, hm, hp]
      have hrow : changeRow env db expert = some ⟨expert.id, expert.tier,
          targetTier env expert.tier rate, rate, samples, env.now⟩ := by
        simp [changeRow, hm, hp]
      have hu := db.experts.update_update expert.id (Expert.calibrated (some rate) samples)
        (Expert.movedTo (targetTier env expert.tier rate) env.now) (fun _ => rfl) (fun _ => rfl)
      refine ⟨db.auditEvents ++ [⟨actor, "expert.tier", "expert", expert.id.str⟩], ?_⟩
      simp only [record, hf, hu, hrow]
      rfl

theorem calibrationUpdate_eq (env : Env) (db : Db) (expert : Expert) (actor : String) :
    ∃ changes events, (calibrationUpdate env db expert actor).1 =
      { db with
        experts := db.experts.update expert.id (recalibrated env db expert)
          (recalibrated_keeps env db expert)
        tierChanges := changes
        auditEvents := events } := by
  obtain ⟨events, he⟩ := calibrationUpdate_spec env db expert actor
  exact ⟨_, events, congrArg Prod.fst he⟩

end Panelist
