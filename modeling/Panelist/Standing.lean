import Panelist.Lifecycle
import Panelist.References
import Panelist.Windows

/-! An expert's standing: the agreement signals recorded about them, their tier and
its history. Nothing else of the database enters a recalibration, and a request acts
on it in one of five ways. -/
namespace Panelist
open Relational Transaction

/-- When an agreement signal was recorded, and whether it agrees. -/
abbrev Signal := Time × Bool

def reviewSignals (db : Db) (expertId : Uuid) : List Signal :=
  (db.reviews.rows.filter (fun r => gradeExpert db r.gradeId == some expertId)).map
    (fun r => (r.createdAt, decide (r.decision = .approve)))

def checkSignals (db : Db) (expertId : Uuid) : List Signal :=
  (db.attentionResults.rows.filter (fun a => a.expertId = expertId)).map
    (fun a => (a.createdAt, a.passed))

structure Standing where
  reviews : List Signal
  checks : List Signal
  tier : Option Tier
  changes : List TierChange

def Db.standing (db : Db) (expertId : Uuid) : Standing where
  reviews := reviewSignals db expertId
  checks := checkSignals db expertId
  tier := (db.experts.get expertId).map Expert.tier
  changes := db.tierChanges.filter (fun c => c.expertId = expertId)

namespace Standing

/-- All signals, in the order of their tables. -/
def evidence (s : Standing) : List Signal := s.reviews ++ s.checks

/-- How many reviews, adjudications and golden checks have been recorded. -/
def recorded (s : Standing) : ℕ := s.evidence.length

def flags (s : Standing) (window : ℕ) : List Bool :=
  ((newestFirst ((newestFirst s.reviews).take window ++ (newestFirst s.checks).take window)).take
    window).map Prod.snd

def score (env : Env) (s : Standing) : Option ℚ × ℕ :=
  let flags := s.flags env.settings.calibrationWindow
  if flags = [] then (none, 0)
  else (some ((flags.count true : ℚ) / flags.length), flags.length)

/-- The tier a recalibration leaves an expert of this tier with. -/
def target (env : Env) (s : Standing) (tier : Tier) : Tier :=
  match (s.score env).1 with
  | none => tier
  | some rate =>
    if (s.score env).2 < env.settings.calibrationMinSamples then tier
    else targetTier env tier rate

/-- The history row of a recalibration that moves the tier. -/
def row (env : Env) (expertId : Uuid) (s : Standing) (tier : Tier) : Option TierChange :=
  if s.target env tier = tier then none
  else some ⟨expertId, tier, s.target env tier, (s.score env).1.getD 0, (s.score env).2, env.now⟩

/-- One recalibration. -/
def update (env : Env) (expertId : Uuid) (s : Standing) : Standing :=
  { s with
    tier := s.tier.map (s.target env)
    changes := s.changes ++ (s.tier.bind (s.row env expertId)).toList }

def reviewed (x : Signal) (s : Standing) : Standing := { s with reviews := s.reviews ++ [x] }

def checked (x : Signal) (s : Standing) : Standing := { s with checks := s.checks ++ [x] }

/-- What a request can do to the standing of one expert. -/
inductive Step (env : Env) (expertId : Uuid) (s : Standing) : Standing → Prop
  | idle : Step env expertId s s
  | joined (tier : Tier) (h : s.tier = none) : Step env expertId s { s with tier := some tier }
  | reviewed (agrees : Bool) (h : s.tier.isSome) :
      Step env expertId s ((s.reviewed (env.now, agrees)).update env expertId)
  | checked (agrees : Bool) (h : s.tier.isSome) :
      Step env expertId s ((s.checked (env.now, agrees)).update env expertId)
  | ticked : Step env expertId s (s.update env expertId)

end Standing

/-! ### A recalibration of the database is one of the standing -/

section Recalibration
variable (env : Env) (db : Db)

theorem score_standing (k : Uuid) : (db.standing k).score env = score env db k := rfl

theorem tierMove_eq (expert : Expert) : tierMove env db expert =
    if (db.standing expert.id).target env expert.tier = expert.tier then none
    else some ((db.standing expert.id).target env expert.tier) := by
  unfold tierMove Standing.target
  rw [score_standing]
  cases (score env db expert.id).1 with
  | none => simp
  | some rate =>
    dsimp only
    split_ifs <;> simp_all

theorem changeRow_eq (expert : Expert) :
    changeRow env db expert = (db.standing expert.id).row env expert.id expert.tier := by
  unfold changeRow Standing.row
  rw [tierMove_eq, score_standing]
  split_ifs <;> rfl

theorem tier_recalibrated (expert x : Expert) (h : x.tier = expert.tier) :
    (recalibrated env db expert x).tier = (db.standing expert.id).target env x.tier := by
  rw [recalibrated, tierMove_eq, h]
  split_ifs with hsame
  · exact h.trans hsame.symm
  · rfl

/-- Recalibrating an expert updates their standing and no other. -/
theorem standing_calibrationUpdate {expert : Expert} (actor : String)
    (he : (db.experts.get expert.id).map Expert.tier = some expert.tier) (k : Uuid) :
    (calibrationUpdate env db expert actor).1.standing k =
      if expert.id = k then (db.standing k).update env k else db.standing k := by
  obtain ⟨events, hu⟩ := calibrationUpdate_spec env db expert actor
  obtain ⟨x, hx, htier⟩ := Option.map_eq_some_iff.mp he
  rw [hu, changeRow_eq]
  by_cases hk : expert.id = k
  · rw [if_pos hk]
    subst hk
    -- their own row: the tier of the target, and one change if it moved
    have hnew : ((db.experts.update expert.id (recalibrated env db expert)
        (recalibrated_keeps env db expert)).get expert.id).map Expert.tier =
          (db.standing expert.id).tier.map ((db.standing expert.id).target env) := by
      rw [Table.get_update, if_pos rfl, hx, Db.standing, hx]
      exact congrArg some (tier_recalibrated env db expert x htier)
    have hrow : (db.standing expert.id).tier = some expert.tier := he
    have hchanges : (db.tierChanges ++ ((db.standing expert.id).row env expert.id
        expert.tier).toList).filter (fun c => c.expertId = expert.id) =
        (db.standing expert.id).changes ++ ((db.standing expert.id).row env expert.id
          expert.tier).toList := by
      rw [List.filter_append]
      unfold Standing.row
      split_ifs <;> simp [Db.standing]
    rw [Standing.update, hrow, Option.bind_some, ← hchanges, ← hrow, ← hnew]
    rfl
  · rw [if_neg hk]
    -- somebody else's changes are not among theirs
    have hchanges : (db.tierChanges ++ ((db.standing expert.id).row env expert.id
        expert.tier).toList).filter (fun c => c.expertId = k) = (db.standing k).changes := by
      rw [List.filter_append]
      unfold Standing.row
      split_ifs <;> simp [Db.standing, hk]
    have hother : ((db.experts.update expert.id (recalibrated env db expert)
        (recalibrated_keeps env db expert)).get k).map Expert.tier = (db.standing k).tier := by
      rw [Table.get_update, if_neg hk]
      rfl
    rw [Db.standing, hchanges, hother]
    rfl

end Recalibration

/-! ### What each request does to a standing -/

section Steps
variable {env : Env} {db db' : Db}

theorem standing_congr {k : Uuid} (hr : db'.reviews = db.reviews)
    (ha : db'.attentionResults = db.attentionResults) (hh : db'.tierChanges = db.tierChanges)
    (hg : ∀ v ∈ db.reviews, gradeExpert db' v.gradeId = gradeExpert db v.gradeId)
    (he : (db'.experts.get k).map Expert.tier = (db.experts.get k).map Expert.tier) :
    db'.standing k = db.standing k := by
  have hreviews : reviewSignals db' k = reviewSignals db k := by
    unfold reviewSignals
    rw [hr]
    refine congrArg _ (List.filter_congr (fun v hv => ?_))
    rw [hg v hv]
  rw [Db.standing, Db.standing, hreviews, checkSignals, checkSignals, ha, hh, he]

theorem tier_update {T : Table Expert} {i : Uuid} {f : Expert → Expert} (hf : Table.Keeps f)
    (ht : ∀ x, (f x).tier = x.tier) (k : Uuid) :
    ((T.update i f hf).get k).map Expert.tier = (T.get k).map Expert.tier := by
  rw [Table.get_update]
  split_ifs
  · rw [Option.map_map]
    exact congrArg (fun g => Option.map g (T.get k)) (funext ht)
  · rfl

theorem standing_reviewed {v : Review} {reviews : Table Review}
    (hi : db.reviews.insert v = some reviews) {expertId : Uuid}
    (hg : gradeExpert db v.gradeId = some expertId) (k : Uuid) :
    ({ db with reviews := reviews } : Db).standing k =
      if expertId = k then (db.standing k).reviewed (v.createdAt, decide (v.decision = .approve))
      else db.standing k := by
  have hgrades (i : Uuid) : gradeExpert { db with reviews := reviews } i = gradeExpert db i := rfl
  simp only [Db.standing, reviewSignals, (Table.insert_eq_some.mp hi).2, List.filter_append,
    hgrades, List.filter_singleton, hg]
  by_cases hk : expertId = k
  · simp [hk, Standing.reviewed, checkSignals]
  · simp [hk, checkSignals, beq_eq_false_iff_ne.mpr hk]

theorem standing_checked {a : AttentionResult} {results : Table AttentionResult}
    (hi : db.attentionResults.insert a = some results) (k : Uuid) :
    ({ db with attentionResults := results } : Db).standing k =
      if a.expertId = k then (db.standing k).checked (a.createdAt, a.passed)
      else db.standing k := by
  have hgrades (i : Uuid) :
      gradeExpert { db with attentionResults := results } i = gradeExpert db i := rfl
  simp only [Db.standing, checkSignals, (Table.insert_eq_some.mp hi).2, List.filter_append,
    List.filter_singleton]
  by_cases hk : a.expertId = k
  · simp [hk, Standing.checked, reviewSignals, hgrades]
  · simp [hk, reviewSignals, hgrades]

theorem standing_graded {grade : Grade} {grades : Table Grade} (hc : Consistent db)
    (hi : db.grades.insert grade = some grades) (k : Uuid) :
    ({ db with grades := grades } : Db).standing k = db.standing k := by
  refine standing_congr rfl rfl rfl (fun v hv => ?_) rfl
  obtain ⟨g, hg, hid⟩ := hc.reviewGrade v hv
  have hne : grade.id ≠ v.gradeId := fun he => Table.insert_fresh hi hg (hid.trans he.symm)
  exact congrArg (Option.map Grade.expertId) ((Table.get_insert hi v.gradeId).trans (if_neg hne))

theorem tier_isSome {k : Uuid} {e : Expert} (h : db.experts.get k = some e) :
    (db.standing k).tier.isSome := by
  rw [Db.standing, h]
  rfl

theorem gradeExpert_of_get {i : Uuid} {g : Grade} (h : db.grades.get i = some g) :
    gradeExpert db g.id = some g.expertId := by
  obtain rfl : g.id = i := Table.get_pk h
  rw [gradeExpert, h, Option.map_some]

theorem gradeExpert_calibrationUpdate (expert : Expert) (actor : String) (i : Uuid) :
    gradeExpert (calibrationUpdate env db expert actor).1 i = gradeExpert db i := by
  obtain ⟨_, _, hu⟩ := calibrationUpdate_eq env db expert actor
  rw [hu]
  rfl

/-- A stored review followed by its recalibration. -/
theorem standing_reviewed_update (db : Db) {db₁ db' : Db} {v : Review} {reviews : Table Review}
    {expert : Expert} {actor : String} (h : db' = (calibrationUpdate env db₁ expert actor).1)
    (hdb : db₁.reviews = reviews ∧ db₁.grades = db.grades ∧
      db₁.attentionResults = db.attentionResults ∧ db₁.tierChanges = db.tierChanges ∧
      db₁.experts = db.experts)
    (hi : db.reviews.insert v = some reviews) (hexp : db.experts.get expert.id = some expert)
    (hg : gradeExpert db v.gradeId = some expert.id) (k : Uuid) :
    db'.standing k =
      if expert.id = k then
        ((db.standing k).reviewed (v.createdAt, decide (v.decision = .approve))).update env k
      else db.standing k := by
  obtain ⟨hr, hgr, ha, hh, he⟩ := hdb
  have hsame : db₁.standing k = ({ db with reviews := reviews } : Db).standing k :=
    standing_congr hr ha hh (fun v _ => by rw [gradeExpert, hgr]; rfl) (by rw [he])
  have htier : (db₁.experts.get expert.id).map Expert.tier = some expert.tier := by
    rw [he, hexp, Option.map_some]
  rw [h, standing_calibrationUpdate env db₁ actor htier k, hsame, standing_reviewed hi hg k]
  split_ifs <;> rfl

theorem review_standing {keyId : Uuid} {body : ReviewCreate} {actor : String} {v : Review}
    (h : review env db keyId body actor = .ok (db', v)) (k : Uuid) :
    (db.standing k).Step env k (db'.standing k) := by
  obtain ⟨grade, task, reviews, payouts, expert, events, hgrade, _, _, rfl, hins, _, hexp, hdb'⟩ :=
    review_calibrates h
  have hid : expert.id = grade.expertId := Table.get_pk hexp
  have hauthor : gradeExpert db grade.id = some expert.id := by
    rw [hid, gradeExpert_of_get hgrade]
  rw [standing_reviewed_update db hdb' ⟨rfl, rfl, rfl, rfl, rfl⟩ hins (by rwa [hid]) hauthor k]
  split_ifs with hk
  · exact .reviewed _ (tier_isSome (by rwa [← hk, hid]))
  · exact .idle

/-- The loop of an adjudication decides at most one grade of each expert. -/
theorem resolveLoop_standing {task : Task} {delivered : Grade} {reason : String} {keyId : Uuid}
    {actor : String} {gs : List Grade} (hd : gs.Pairwise (fun a b => a.expertId ≠ b.expertId))
    (hg : ∀ g ∈ gs, gradeExpert db g.id = some g.expertId)
    (h : gs.foldlM (resolveGrade env task delivered reason keyId actor) db = .ok db') (k : Uuid) :
    (db.standing k).Step env k (db'.standing k) ∧
      ((∀ g ∈ gs, g.expertId ≠ k) → db'.standing k = db.standing k) := by
  induction gs generalizing db with
  | nil =>
    obtain rfl := pure_ok_iff.mp h
    exact ⟨.idle, fun _ => rfl⟩
  | cons g gs ih =>
    rw [List.pairwise_cons] at hd
    simp only [List.foldlM_cons, bind_ok_iff] at h
    obtain ⟨db₁, hfirst, hrest⟩ := h
    obtain ⟨reviews, payouts, expert, events, hins, _, hexp, hdb₁⟩ := resolveGrade_calibrates hfirst
    have hid : expert.id = g.expertId := Table.get_pk hexp
    have hone := standing_reviewed_update db hdb₁ ⟨rfl, rfl, rfl, rfl, rfl⟩ hins (by rwa [hid])
      (by rw [hid]; exact hg g List.mem_cons_self) k
    have hgrades (g' : Grade) (hg' : g' ∈ gs) : gradeExpert db₁ g'.id = some g'.expertId := by
      rw [hdb₁, gradeExpert_calibrationUpdate]
      exact hg g' (List.mem_cons_of_mem g hg')
    obtain ⟨hstep, hidle⟩ := ih hd.2 hgrades hrest
    by_cases hk : expert.id = k
    · -- the expert's one grade is this one, and the rest of the loop leaves them alone
      have hrest' := hidle (fun g' hg' he => hd.1 g' hg' (hid.symm.trans (hk.trans he.symm)))
      rw [if_pos hk] at hone
      refine ⟨?_, fun hne => absurd (hid.symm.trans hk) (hne g List.mem_cons_self)⟩
      rw [hrest', hone]
      exact .reviewed _ (tier_isSome (by rwa [← hk, hid]))
    · rw [if_neg hk] at hone
      -- somebody else is recalibrated: the rest of the loop decides
      rw [hone] at hstep hidle
      exact ⟨hstep, fun hne => hidle (fun g' hg' => hne g' (List.mem_cons_of_mem g hg'))⟩

theorem resolve_standing {taskId gradeId : Uuid} {reason : String} {keyId : Uuid} {actor : String}
    {c : Consensus} (h : resolve env db taskId gradeId reason keyId actor = .ok (db', c))
    (k : Uuid) : (db.standing k).Step env k (db'.standing k) := by
  obtain ⟨row, delivered, task, db₁, events, _, _, _, _, _, hloop, rfl⟩ := resolve_ok h
  have hauthors (g : Grade) (hg : g ∈ gradesFor db taskId) :
      gradeExpert db g.id = some g.expertId :=
    gradeExpert_of_get (db.grades.get_of_mem (mem_gradesFor.mp hg).1)
  exact (resolveLoop_standing (gradesFor_experts db taskId) hauthors hloop k).1

theorem submit_standing (hc : Consistent db) {expertId : Uuid} {body : GradeCreate} {grade : Grade}
    (h : submit env db expertId body = .ok (db', grade)) (k : Uuid) :
    (db.standing k).Step env k (db'.standing k) := by
  obtain ⟨e, task, rubric, grades, tasks, consensus, events, he, _, _, _, _, hg, hi, _, hcheck⟩ :=
    submit_ok h
  have hgraded := standing_graded hc hi k
  -- a regular grade is no signal; a check is one before the update reads it
  rcases checkGrade_calibrates hcheck with ⟨rfl, _⟩ |
    ⟨row, results, experts, payouts, events', hins, hexp, htime, hguard, hdb'⟩
  · have hsame : ({ db with
        grades := grades
        tasks := tasks
        consensus := consensus
        auditEvents := events } : Db).standing k = db.standing k := hgraded
    rw [hsame]
    exact .idle
  · have hid : e.id = expertId := Table.get_pk he
    have htiers (i : Uuid) :
        (experts.get i).map Expert.tier = (db.experts.get i).map Expert.tier := by
      rcases hguard with ⟨rfl, _⟩ | ⟨_, rfl, _⟩
      · rfl
      · exact tier_update (f := Expert.withStatus .paused) (fun _ => rfl) (fun _ => rfl) i
    have hrow : row.expertId = e.id := by
      rw [hexp, hg]
    have hchecked := standing_checked hins k
    rw [hdb', standing_calibrationUpdate env _ "system"
      (by rw [htiers, hid, he, Option.map_some]) k]
    have hsame : ({ db with
        grades := grades
        tasks := tasks
        consensus := consensus
        attentionResults := results
        experts := experts
        payouts := payouts
        auditEvents := events' } : Db).standing k =
          if e.id = k then (db.standing k).checked (env.now, row.passed) else db.standing k := by
      rw [← hgraded, ← htime, ← hrow]
      refine Eq.trans ?_ hchecked
      exact standing_congr rfl rfl rfl (fun _ _ => rfl) (htiers k)
    rw [hsame]
    split_ifs with hk
    · exact .checked _ (tier_isSome (by rwa [← hk, hid]))
    · exact .idle

/-- The line of a tick's report for an expert whose tier it moves. -/
def tierMoveOf (env : Env) (db : Db) (e : Expert) : Option TierMove :=
  ((db.standing e.id).row env e.id e.tier).map (fun c => ⟨e.name, c.fromTier, c.toTier⟩)

/-- The loop of a tick updates each expert's standing once and reports the moves. -/
theorem tickExpert_foldl_standing (env : Env) (actor : String) {experts : List Expert}
    (hd : experts.Pairwise (fun a b => a.id ≠ b.id)) (acc : Db × List TierMove × ℕ)
    (he : ∀ e ∈ experts, (acc.1.experts.get e.id).map Expert.tier = some e.tier) :
    (∀ k, (k ∈ experts.map Expert.id →
        (experts.foldl (tickExpert env actor) acc).1.standing k =
          (acc.1.standing k).update env k) ∧
      (k ∉ experts.map Expert.id →
        (experts.foldl (tickExpert env actor) acc).1.standing k = acc.1.standing k)) ∧
    (experts.foldl (tickExpert env actor) acc).2.1 =
      acc.2.1 ++ experts.filterMap (tierMoveOf env acc.1) := by
  -- over the loop; the experts still to come keep the standing they had
  induction experts generalizing acc with
  | nil => exact ⟨fun k => ⟨fun h => absurd h List.not_mem_nil, fun _ => rfl⟩,
      (List.append_nil _).symm⟩
  | cons e experts ih =>
    rw [List.pairwise_cons] at hd
    obtain ⟨db, moves, uncalibrated⟩ := acc
    have hstand (k : Uuid) : (tickExpert env actor (db, moves, uncalibrated) e).1.standing k =
        if e.id = k then (db.standing k).update env k else db.standing k :=
      standing_calibrationUpdate env db actor (he e List.mem_cons_self) k
    have hkept (e' : Expert) (he' : e' ∈ experts) :
        (tickExpert env actor (db, moves, uncalibrated) e).1.standing e'.id =
          db.standing e'.id := by
      rw [hstand, if_neg (hd.1 e' he')]
    obtain ⟨hrest, hmoves⟩ := ih hd.2 (tickExpert env actor (db, moves, uncalibrated) e)
      (fun e' he' => (congrArg Standing.tier (hkept e' he')).trans
        (he e' (List.mem_cons_of_mem e he')))
    refine ⟨fun k => ⟨fun hk => ?_, fun hk => ?_⟩, ?_⟩
    · rw [List.foldl_cons]
      -- no expert comes twice, so `k` is this one or a later one
      by_cases hlater : k ∈ experts.map Expert.id
      · rw [(hrest k).1 hlater]
        obtain ⟨e', he', rfl⟩ := List.mem_map.mp hlater
        rw [hkept e' he']
      · have hke : e.id = k := by
          rw [List.map_cons, List.mem_cons] at hk
          exact (hk.resolve_right hlater).symm
        rw [(hrest k).2 hlater, hstand, if_pos hke]
    · rw [List.map_cons, List.mem_cons, not_or] at hk
      rw [List.foldl_cons, (hrest k).2 hk.2, hstand, if_neg (fun hke => hk.1 hke.symm)]
    · obtain ⟨_, hu⟩ := calibrationUpdate_spec env db e actor
      have hline : (tickExpert env actor (db, moves, uncalibrated) e).2.1 =
          moves ++ (tierMoveOf env db e).toList := by
        simp only [tickExpert, tierMoveOf, hu, ← changeRow_eq]
        cases changeRow env db e <;> simp
      have hcongr : experts.filterMap
          (tierMoveOf env (tickExpert env actor (db, moves, uncalibrated) e).1) =
            experts.filterMap (tierMoveOf env db) := by
        refine List.filterMap_congr (fun e' he' => ?_)
        unfold tierMoveOf
        rw [hkept e' he']
      rw [List.foldl_cons, hmoves, hline, hcongr, List.append_assoc]
      congr 1
      cases hm : tierMoveOf env db e <;> simp [hm]

/-- A tick updates every expert's standing once; its report names the moves. -/
theorem tick_standing {actor : String} {report : TickReport}
    (h : tick env db actor = .ok (db', report)) :
    (∀ k, db'.standing k = (db.standing k).update env k) ∧
      report.tierChanges = (db.experts.rows.insertionSort
        (fun a b => a.name.toList ≤ b.name.toList)).filterMap (tierMoveOf env db) := by
  obtain ⟨hdb', hreport⟩ := Prod.mk.inj (pure_ok_iff.mp h)
  -- the tick goes through the experts by name; each is updated once
  have hperm := List.perm_insertionSort (fun a b : Expert => a.name.toList ≤ b.name.toList)
    db.experts.rows
  have hids : db.experts.rows.Pairwise (fun a b => a.id ≠ b.id) := db.experts.distinct
  obtain ⟨hstand, hmoves⟩ := tickExpert_foldl_standing env actor
    ((hperm.pairwise_iff (fun h => h.symm)).mpr hids) ((reclaimExpired env db).1, [], 0)
    (fun e he => congrArg (Option.map Expert.tier)
      (db.experts.get_of_mem (hperm.mem_iff.mp he : e ∈ db.experts)))
  refine ⟨fun k => ?_, by rw [← hreport]; exact hmoves⟩
  rw [← hdb']
  by_cases hmem : k ∈ (db.experts.rows.insertionSort
      (fun a b : Expert => a.name.toList ≤ b.name.toList)).map Expert.id
  · exact (hstand k).1 hmem
  · -- an expert who is not there has no tier to update
    have hnone : db.experts.get k = none := by
      rw [Table.get_eq_none]
      rintro e he rfl
      exact hmem (List.mem_map.mpr ⟨e, hperm.mem_iff.mpr he, rfl⟩)
    have htier : (db.standing k).tier = none := by
      rw [Db.standing, hnone, Option.map_none]
    have hidle : (db.standing k).update env k = db.standing k := by
      simp [Standing.update, htier]
      rw [← htier]
    rw [hidle]
    exact (hstand k).2 hmem

theorem createExpert_standing {body : ExpertCreate} {actor : String} {e : Expert}
    (h : createExpert env db body actor = .ok (db', e)) (k : Uuid) :
    (db.standing k).Step env k (db'.standing k) := by
  obtain ⟨experts, events, _, hi, rfl⟩ := createExpert_ok h
  have hget := Table.get_insert hi k
  -- the new expert, or anyone else
  by_cases hk : e.id = k
  · have hnone : db.experts.get k = none := by
      rw [Table.get_eq_none]
      exact fun x hx hxk => Table.insert_fresh hi hx (hxk.trans hk.symm)
    have hnew : ({ db with experts := experts, auditEvents := events } : Db).standing k =
        { db.standing k with tier := some e.tier } := by
      simp only [Db.standing, hget, show pk e = k from hk, if_pos, Option.map_some]
      rfl
    rw [hnew]
    exact .joined e.tier (by rw [Db.standing, hnone, Option.map_none])
  · have hsame : ({ db with experts := experts, auditEvents := events } : Db).standing k =
        db.standing k := by
      exact standing_congr rfl rfl rfl (fun _ _ => rfl)
        (congrArg (Option.map Expert.tier) (hget.trans (if_neg hk)))
    rw [hsame]
    exact .idle

theorem assign_standing (db : Db) (task : Task) (expert : Expert) (k : Uuid) :
    (assign env (reclaimExpired env db).1 task expert).1.standing k = db.standing k :=
  standing_congr rfl rfl rfl (fun _ _ => rfl)
    (tier_update (f := Expert.served) (fun _ => rfl) (fun _ => rfl) k)

/-- A request does one of the five things to a standing. -/
theorem step_standing {r : Request} {x : Response} (hc : Consistent db)
    (h : step r db = .ok (db', x)) (k : Uuid) : (db.standing k).Step r.env k (db'.standing k) := by
  have hidle (hsame : db'.standing k = db.standing k) :
      (db.standing k).Step r.env k (db'.standing k) := by
    rw [hsame]
    exact .idle
  -- only grades of golden tasks, verdicts and ticks touch a standing
  cases hop : r.op
  all_goals
    simp only [step, hop] at h
    obtain ⟨a, h, -⟩ := answer_ok h
  case createExpert => exact createExpert_standing h k
  case setStatus =>
    obtain ⟨e, events, _, rfl⟩ := setStatus_ok h
    exact hidle (standing_congr rfl rfl rfl (fun _ _ => rfl)
      (tier_update (f := Expert.withStatus _) (fun _ => rfl) (fun _ => rfl) k))
  case createKey =>
    obtain ⟨keys, events, rfl⟩ := createKey_ok h
    exact .idle
  case createExpertKey =>
    obtain ⟨keys, events, rfl⟩ := createExpertKey_ok h
    exact .idle
  case revokeKey =>
    obtain ⟨keys, events, rfl⟩ := revokeKey_ok h
    exact .idle
  case bootstrap =>
    obtain ⟨keys, rfl⟩ := bootstrap_ok h
    exact .idle
  case createRubric =>
    obtain ⟨db₁, events, hadd, _, rfl⟩ := createRubric_ok h
    obtain ⟨rubrics, rows, _, _, rfl⟩ := addRubric_ok hadd
    exact .idle
  case publish =>
    obtain ⟨previous, db₁, events, _, _, _, hadd, rfl⟩ := publish_ok h
    obtain ⟨rubrics, rows, _, _, rfl⟩ := addRubric_ok hadd
    exact .idle
  case putRateCards =>
    obtain ⟨events, rfl⟩ := putRateCards_ok h
    exact .idle
  case createTasks =>
    obtain ⟨tasks, events, _, _, _, _, _, rfl⟩ := createTasks_ok h
    exact .idle
  case claimNext =>
    obtain ⟨e, _, _, ⟨rfl, _⟩ | ⟨task, _, _, hassign⟩⟩ := claimNext_ok h
    · exact .idle
    · obtain rfl := congrArg Prod.fst hassign
      exact hidle (assign_standing db task e k)
  case claimById =>
    obtain ⟨e, task, _, _, _, _, _, _, hassign⟩ := claimById_ok_iff.mp h
    obtain rfl := congrArg Prod.fst hassign
    exact hidle (assign_standing db task e k)
  case release =>
    obtain ⟨e, task, _, _, _, _, rfl⟩ := release_ok h
    exact .idle
  case reclaim =>
    obtain rfl := congrArg Prod.fst (pure_ok_iff.mp h)
    exact .idle
  case submit => exact submit_standing hc h k
  case review => exact review_standing h k
  case resolve => exact resolve_standing h k
  case closePeriod =>
    obtain ⟨periods, events, _, _, rfl⟩ := closePeriod_ok h
    exact .idle
  case exportDelivery =>
    obtain ⟨deliveries, events, _, _, rfl⟩ := exportDelivery_ok h
    exact .idle
  case tick =>
    rw [(tick_standing h).1 k]
    exact .ticked

end Steps

end Panelist
