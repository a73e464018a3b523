import Panelist.Golden
import Panelist.Windows

/-! The attention guard over whole runs: which failed checks pause an expert, and what
a passed one leaves to the next failure. -/
namespace Panelist
open Relational Transaction Windows

/-- The settings the guard reads are the same. -/
structure Settings.SameAttention (s s' : Settings) : Prop where
  window : s.attentionWindow = s'.attentionWindow
  minChecks : s.attentionMinChecks = s'.attentionMinChecks
  threshold : s.attentionThreshold = s'.attentionThreshold

instance (s s' : Settings) : Decidable (s.SameAttention s') :=
  decidable_of_iff (s.attentionWindow = s'.attentionWindow ∧
      s.attentionMinChecks = s'.attentionMinChecks ∧
      s.attentionThreshold = s'.attentionThreshold)
    ⟨fun ⟨hw, hm, ht⟩ => ⟨hw, hm, ht⟩, fun h => ⟨h.1, h.2, h.3⟩⟩

/-- `ORDER BY created_at DESC, id DESC`. -/
def AttentionResult.Newer (a b : AttentionResult) : Prop :=
  b.createdAt < a.createdAt ∨ a.createdAt = b.createdAt ∧ b.id ≤ a.id

instance : DecidableRel AttentionResult.Newer :=
  fun a b => inferInstanceAs (Decidable (b.createdAt < a.createdAt ∨ _ ∧ b.id ≤ a.id))

instance : Std.Total AttentionResult.Newer where
  total a b := by
    unfold AttentionResult.Newer
    rcases lt_trichotomy a.createdAt b.createdAt with h | h | h
    · exact Or.inr (Or.inl h)
    · rcases le_total a.id b.id with hid | hid
      · exact Or.inr (Or.inr ⟨h.symm, hid⟩)
      · exact Or.inl (Or.inr ⟨h, hid⟩)
    · exact Or.inl (Or.inl h)

instance : IsTrans AttentionResult AttentionResult.Newer where
  trans a b c := by
    unfold AttentionResult.Newer
    rintro (h | ⟨h, hid⟩) (h' | ⟨h', hid'⟩)
    · exact Or.inl (h'.trans h)
    · exact Or.inl (h' ▸ h)
    · exact Or.inl (h ▸ h')
    · exact Or.inr ⟨h.trans h', hid'.trans hid⟩

theorem AttentionResult.Newer.antisymm {a b : AttentionResult} (h : a.Newer b) (h' : b.Newer a) :
    a.id = b.id := by
  rcases h with h | ⟨h, hid⟩
  · rcases h' with h' | ⟨h', _⟩
    · exact absurd (h.trans h') (lt_irrefl _)
    · exact absurd h (by rw [h']; exact lt_irrefl _)
  · rcases h' with h' | ⟨_, hid'⟩
    · exact absurd h' (by rw [h]; exact lt_irrefl _)
    · exact le_antisymm hid' hid

/-- An expert's status and their golden checks, in the order they were graded. -/
structure Watch where
  checks : List AttentionResult
  status : Option ExpertStatus

def Db.watch (db : Db) (expertId : Uuid) : Watch where
  checks := db.attentionResults.rows.filter (fun a => a.expertId = expertId)
  status := (db.experts.get expertId).map Expert.status

namespace Watch

/-- The verdicts the guard looks at, newest first. -/
def recent (s : Settings) (checks : List AttentionResult) : List AttentionResult :=
  (checks.insertionSort AttentionResult.Newer).take s.attentionWindow

/-- At least the minimum of checks is in the window, and too few of them passed. -/
def Low (s : Settings) (checks : List AttentionResult) : Prop :=
  recent s checks ≠ [] ∧ s.attentionMinChecks ≤ (recent s checks).length ∧
    ((recent s checks).countP AttentionResult.passed : ℚ) / (recent s checks).length <
      s.attentionThreshold

instance (s : Settings) (checks : List AttentionResult) : Decidable (Low s checks) :=
  inferInstanceAs (Decidable (_ ∧ _ ∧ _))

/-- One graded check. -/
def checked (s : Settings) (a : AttentionResult) (w : Watch) : Watch where
  checks := w.checks ++ [a]
  status := if a.passed = false ∧ Low s (w.checks ++ [a]) then w.status.map (fun _ => .paused)
    else w.status

/-- What a request of no administrator does to a watch. -/
inductive Step (s : Settings) (w : Watch) : Watch → Prop
  | idle : Step s w w
  | joined (h : w.status = none) : Step s w { w with status := some .active }
  | checked (a : AttentionResult) (h : w.status.isSome)
      (hid : ((w.checks ++ [a]).map AttentionResult.id).Nodup) : Step s w (w.checked s a)

theorem length_recent (s : Settings) (checks : List AttentionResult) :
    (recent s checks).length = min s.attentionWindow checks.length := by
  rw [recent, List.length_take, List.length_insertionSort]

theorem Low.congr {s s' : Settings} (h : s.SameAttention s') {checks : List AttentionResult} :
    Low s checks ↔ Low s' checks := by
  unfold Low recent
  rw [h.window, h.minChecks, h.threshold]

/-- A passed check does not make the rate low when enough checks were there before it. -/
theorem Low.of_pass {s : Settings} {checks : List AttentionResult} {a : AttentionResult}
    (hid : ((checks ++ [a]).map AttentionResult.id).Nodup) (hpass : a.passed = true)
    (hne : checks ≠ []) (hmin : s.attentionMinChecks ≤ checks.length)
    (h : Low s (checks ++ [a])) : Low s checks := by
  obtain ⟨hnonempty, hlen, hrate⟩ := h
  have hanti : ∀ x ∈ checks ++ [a], ∀ y ∈ checks ++ [a], x.Newer y → y.Newer x → x = y :=
    fun x hx y hy hxy hyx => List.inj_on_of_nodup_map hid hx hy (hxy.antisymm hyx)
  obtain ⟨before, rest, hold, hnew⟩ := insertionSort_concat hanti
  -- in the window the new check takes the place of an older one
  have hfails : (recent s (checks ++ [a])).countP (fun x => !x.passed) ≤
      (recent s checks).countP (fun x => !x.passed) := by
    rw [recent, recent, hold, hnew]
    exact countP_take_insert (by simp [hpass]) before rest s.attentionWindow
  have hsplit (l : List AttentionResult) : (l.countP AttentionResult.passed : ℚ) =
      l.length - l.countP (fun x => !x.passed) := by
    have := List.length_eq_countP_add_countP (l := l) AttentionResult.passed
    rw [this]
    push_cast
    simp
  have hwindow : 0 < s.attentionWindow := by
    rw [ne_eq, ← List.length_eq_zero_iff, length_recent] at hnonempty
    omega
  have hchecks : 0 < checks.length := List.length_pos_of_ne_nil hne
  -- the window gets no shorter, so fewer failures weigh no more
  have hgrow : (recent s checks).length ≤ (recent s (checks ++ [a])).length := by
    rw [length_recent, length_recent, List.length_append]
    omega
  have hpos : 0 < (recent s checks).length := by
    rw [length_recent]
    omega
  refine ⟨List.ne_nil_of_length_pos hpos, ?_, lt_of_le_of_lt ?_ hrate⟩
  · rw [length_recent, List.length_append] at hlen
    rw [length_recent]
    omega
  · have hpos' : (0 : ℚ) < (recent s checks).length := by exact_mod_cast hpos
    have hgrow' : ((recent s checks).length : ℚ) ≤ (recent s (checks ++ [a])).length := by
      exact_mod_cast hgrow
    have hfails' : ((recent s (checks ++ [a])).countP (fun x => !x.passed) : ℚ) ≤
        (recent s checks).countP (fun x => !x.passed) := by exact_mod_cast hfails
    rw [hsplit, hsplit, sub_div, sub_div, div_self hpos'.ne', div_self (hpos'.trans_le hgrow').ne']
    apply sub_le_sub_left
    exact div_le_div₀ (Nat.cast_nonneg _) hfails' hpos' hgrow'

theorem Step.congr {s s' : Settings} (h : s.SameAttention s') {w w' : Watch} (hw : w.Step s w') :
    w.Step s' w' := by
  cases hw with
  | idle => exact .idle
  | joined hnone => exact .joined hnone
  | checked a hsome hid =>
    have hsame : w.checked s a = w.checked s' a := by
      unfold Watch.checked
      simp only [Low.congr h]
    rw [hsame]
    exact .checked a hsome hid

/-- Some check from the minimum on has failed. -/
def LateFailure (s : Settings) (checks : List AttentionResult) : Prop :=
  ∃ i a, s.attentionMinChecks ≤ i + 1 ∧ checks[i]? = some a ∧ a.passed = false

instance (s : Settings) (checks : List AttentionResult) : Decidable (LateFailure s checks) :=
  decidable_of_iff (∃ i < checks.length, s.attentionMinChecks ≤ i + 1 ∧
      checks[i]?.any (fun a => !a.passed) = true)
    ⟨fun ⟨i, _, hi, h⟩ => by
      obtain ⟨a, ha, hfail⟩ := (Option.any_eq_true _ _).mp h
      exact ⟨i, a, hi, ha, by simpa using hfail⟩,
    fun ⟨i, a, hi, ha, hfail⟩ => ⟨i, (List.getElem?_eq_some_iff.mp ha).1, hi, by
      rw [ha]
      simp [hfail]⟩⟩

/-- After a late failure a low rate means a pause; an unknown expert has no checks. -/
structure Guarded (s : Settings) (w : Watch) : Prop where
  known : w.status = none → w.checks = []
  paused : LateFailure s w.checks → Low s w.checks → w.status = some .paused

theorem Step.guarded {s : Settings} {w w' : Watch} (h : w.Step s w') (hw : w.Guarded s) :
    w'.Guarded s := by
  cases h with
  | idle => exact hw
  | joined hnone =>
    refine ⟨fun h => absurd h (by simp), fun ⟨i, a, _, hi, _⟩ => ?_⟩
    -- somebody who joins has no checks yet
    rw [show ({ w with status := some .active } : Watch).checks = [] from hw.known hnone] at hi
    exact absurd hi (by simp)
  | checked a hsome hid =>
    refine ⟨fun hnone => ?_, fun hlate hlow => ?_⟩
    · simp only [Watch.checked] at hnone
      split_ifs at hnone <;> simp_all
    · by_cases hpass : a.passed = true
      · -- the failure is an earlier one, so the minimum was reached before this check
        have hsame : (w.checked s a).status = w.status := if_neg (by simp [hpass])
        obtain ⟨i, b, hi, hb, hfail⟩ := hlate
        have hb' : w.checks[i]? = some b := by
          change (w.checks ++ [a])[i]? = some b at hb
          rw [List.getElem?_append] at hb
          split_ifs at hb with hlt
          · exact hb
          · obtain ⟨hk, rfl⟩ : i - w.checks.length = 0 ∧ a = b := by
              simpa [List.getElem?_singleton] using hb
            exact absurd hpass (by simp [hfail])
        have hlen : i < w.checks.length := (List.getElem?_eq_some_iff.mp hb').1
        have hold : Low s w.checks := hlow.of_pass hid hpass
          (List.ne_nil_of_length_pos (by omega)) (by omega)
        rw [hsame]
        exact hw.paused ⟨i, b, hi, hb', hfail⟩ hold
      -- a failed check with a low window pauses at once
      · obtain ⟨status, hstatus⟩ := Option.isSome_iff_exists.mp hsome
        have hset : (w.checked s a).status = w.status.map (fun _ => .paused) :=
          if_pos ⟨by simpa using hpass, hlow⟩
        rw [hset, hstatus, Option.map_some]

end Watch

/-! ### What a request does to a watch -/

section Requests
variable {env : Env} {db db' : Db}

theorem watch_congr {k : Uuid} (hc : db'.attentionResults = db.attentionResults)
    (hs : (db'.experts.get k).map Expert.status = (db.experts.get k).map Expert.status) :
    db'.watch k = db.watch k := by
  rw [Db.watch, Db.watch, hc, hs]

theorem status_update {T : Table Expert} {i : Uuid} {f : Expert → Expert} (hf : Table.Keeps f)
    (h : ∀ e, (f e).status = e.status) (k : Uuid) :
    ((T.update i f hf).get k).map Expert.status = (T.get k).map Expert.status := by
  rw [Table.get_update]
  split_ifs
  · rw [Option.map_map]
    exact congrArg (fun g => (T.get k).map g) (funext h)
  · rfl

theorem status_recalibrates {T T' : Table Expert} (h : Recalibrates T T') (k : Uuid) :
    (T'.get k).map Expert.status = (T.get k).map Expert.status := by
  rcases h.get k with ⟨hn, hn'⟩ | ⟨e, e', he, he', hcal⟩
  · rw [hn, hn']
  · rw [he, he', Option.map_some, Option.map_some, hcal.status_eq]

/-- The expert's verdicts and the guard's are the same. -/
theorem trips_iff (env : Env) (db : Db) (k : Uuid) :
    trips env db k = true ↔ Watch.Low env.settings (db.watch k).checks := by
  have hrecent : recentChecks db k env.settings.attentionWindow =
      (Watch.recent env.settings (db.watch k).checks).map AttentionResult.passed := rfl
  have hcount (l : List AttentionResult) :
      (l.map AttentionResult.passed).count true = l.countP AttentionResult.passed := by
    rw [List.count, List.countP_map]
    exact List.countP_congr (fun a _ => by simp)
  unfold trips rollingPassRate Watch.Low
  rw [hrecent]
  by_cases hnil : Watch.recent env.settings (db.watch k).checks = []
  · simp [hnil]
  · simp [hnil, hcount]

theorem status_enforce {expert : Expert} (he : db.experts.get expert.id = some expert) (k : Uuid) :
    ((enforce env db expert).1.experts.get k).map Expert.status =
      if expert.id = k ∧ Watch.Low env.settings (db.watch k).checks then some .paused
      else (db.experts.get k).map Expert.status := by
  -- enough passed checks, paused already, or paused now
  by_cases hcalm : trips env db expert.id = false
  · have hsame : (enforce env db expert).1 = db := by rw [enforce, if_pos hcalm]
    rw [hsame, if_neg]
    rintro ⟨rfl, hlow⟩
    exact absurd ((trips_iff env db expert.id).mpr hlow) (by simp [hcalm])
  · have hlow : Watch.Low env.settings (db.watch expert.id).checks :=
      (trips_iff env db expert.id).mp (by simpa using hcalm)
    by_cases hpaused : expert.status = .paused
    · have hsame : (enforce env db expert).1 = db := by
        rw [enforce, if_neg hcalm, if_pos hpaused]
      rw [hsame]
      split_ifs with hk
      · rw [← hk.1, he, Option.map_some, hpaused]
      · rfl
    · have hset : (enforce env db expert).1.experts =
          db.experts.update expert.id (Expert.withStatus .paused) := by
        rw [enforce, if_neg hcalm, if_neg hpaused]
        rfl
      have hget := db.experts.get_update expert.id (Expert.withStatus .paused) (fun _ => rfl) k
      rw [(congrArg (fun T => Table.get T k) hset).trans hget]
      by_cases hk : expert.id = k
      · subst hk
        rw [if_pos rfl, if_pos ⟨rfl, hlow⟩, he]
        rfl
      · rw [if_neg hk, if_neg (fun h => hk h.1)]

theorem submit_watch {expertId : Uuid} {body : GradeCreate} {grade : Grade}
    (h : submit env db expertId body = .ok (db', grade)) (k : Uuid) :
    (db.watch k).Step env.settings (db'.watch k) := by
  obtain ⟨e, task, rubric, grades, tasks, consensus, events, he, _, _, _, _, hg, _, _, hcheck⟩ :=
    submit_ok h
  obtain rfl : e.id = expertId := Table.get_pk he
  have hkept : db'.attentionResults = db.attentionResults ∧ db'.experts = db.experts →
      (db.watch k).Step env.settings (db'.watch k) := by
    rintro ⟨hc, hx⟩
    rw [watch_congr hc (by rw [hx])]
    exact .idle
  -- a regular task leaves checks and status alone
  cases hexp : task.expected with
  | none =>
    simp only [checkGrade, attentionEvaluate, hexp, bind_ok_iff, pure_ok_iff,
      exists_eq_left'] at hcheck
    exact hkept ⟨by rw [← hcheck], by rw [← hcheck]⟩
  | some expected =>
    obtain ⟨results, hins, rfl⟩ := (checkGrade_golden hexp).mp hcheck
    set row := checkRow env task grade expected
    have hrow : row.expertId = e.id := by
      show grade.expertId = e.id
      rw [hg]
    have hrows : results.rows = db.attentionResults.rows ++ [row] :=
      (Table.insert_eq_some.mp hins).2
    let db₁ : Db := { db with
      grades := grades
      tasks := tasks
      consensus := consensus
      auditEvents := events
      attentionResults := results }
    have hchecks : (db₁.watch k).checks =
        if e.id = k then (db.watch k).checks ++ [row] else (db.watch k).checks := by
      show results.rows.filter _ = _
      rw [hrows, List.filter_append]
      split_ifs with hk
      · rw [List.filter_cons_of_pos (by simpa [hrow] using hk)]
        rfl
      · rw [List.filter_cons_of_neg (by simpa [hrow] using hk)]
        exact List.append_nil _
    have hresults : (afterCheck env db₁ e row).attentionResults = results :=
      attentionResults_afterCheck ..
    -- the guard reads the checks with the new one among them; the update after it keeps the
    -- status
    have hstatus : ((afterCheck env db₁ e row).experts.get k).map Expert.status =
        if row.passed = false ∧ e.id = k ∧ Watch.Low env.settings (db₁.watch k).checks
          then some .paused else (db.experts.get k).map Expert.status := by
      unfold afterCheck
      obtain ⟨changes, events', hu⟩ := calibrationUpdate_eq env
        (if row.passed then db₁ else (enforce env db₁ e).1) e "system"
      rw [hu, status_recalibrates (.update _ env _ e) k]
      cases row.passed with
      | true => simp [db₁]
      | false =>
        have hguard := @status_enforce env db₁ e he k
        simpa [db₁] using hguard
    have hwatch : (afterCheck env db₁ e row).watch k = ⟨(db₁.watch k).checks,
        ((afterCheck env db₁ e row).experts.get k).map Expert.status⟩ := by
      rw [Db.watch, hresults]
      rfl
    change (db.watch k).Step env.settings ((afterCheck env db₁ e row).watch k)
    rw [hwatch, hstatus, hchecks]
    by_cases hk : e.id = k
    -- the submitting expert; nobody else has a new check
    · subst hk
      have hnodup : (((db.watch e.id).checks ++ [row]).map AttentionResult.id).Nodup := by
        rw [if_pos rfl] at hchecks
        rw [← hchecks]
        exact List.pairwise_map.mpr (results.distinct.filter _)
      have hset : (⟨(db.watch e.id).checks ++ [row],
          if row.passed = false ∧ e.id = e.id ∧
            Watch.Low env.settings ((db.watch e.id).checks ++ [row]) then some .paused
          else (db.experts.get e.id).map Expert.status⟩ : Watch) =
            (db.watch e.id).checked env.settings row := by
        simp only [Watch.checked, Db.watch, he, true_and, Option.map_some]
      rw [if_pos rfl, hset]
      exact .checked row (by simp [Db.watch, he]) hnodup
    · rw [if_neg hk, if_neg (fun h => hk h.2.1)]
      exact .idle

/-- An administrator's request to set this expert's status. -/
def Request.SetsStatus (k : Uuid) (r : Request) : Prop :=
  match r.op with
  | .setStatus expertId _ _ => expertId = k
  | _ => False

instance (k : Uuid) (r : Request) : Decidable (r.SetsStatus k) := by
  unfold Request.SetsStatus
  split <;> infer_instance

/-- A request that does not set the expert's status acts on the watch in one of three ways. -/
theorem step_watch {r : Request} {x : Response} {k : Uuid} (h : step r db = .ok (db', x))
    (hadmin : ¬ r.SetsStatus k) :
    (db.watch k).Step r.env.settings (db'.watch k) := by
  have hkept (hsame : db'.watch k = db.watch k) :
      (db.watch k).Step r.env.settings (db'.watch k) := by
    rw [hsame]
    exact .idle
  have hassign (task : Task) (e : Expert) :
      (assign r.env (reclaimExpired r.env db).1 task e).1.watch k = db.watch k :=
    watch_congr rfl (status_update (f := Expert.served) (fun _ => rfl) (fun _ => rfl) k)
  cases hop : r.op
  all_goals
    simp only [step, hop] at h
    obtain ⟨a, h, -⟩ := answer_ok h
  case createExpert =>
    obtain ⟨experts, events, hs, hi, rfl⟩ := createExpert_ok h
    have hget := Table.get_insert hi k
    by_cases hk : a.id = k
    · have hnone : db.experts.get k = none := by
        rw [Table.get_eq_none]
        exact fun e he hek => Table.insert_fresh hi he (hek.trans hk.symm)
      have hjoined : ({ db with experts := experts, auditEvents := events } : Db).watch k =
          { db.watch k with status := some .active } := by
        simp only [Db.watch, hget, show pk a = k from hk, if_pos, Option.map_some, hs]
      rw [hjoined]
      exact .joined (by rw [Db.watch, hnone, Option.map_none])
    · exact hkept (watch_congr rfl (congrArg (Option.map Expert.status) (hget.trans (if_neg hk))))
  case setStatus =>
    obtain ⟨e, events, he, rfl⟩ := setStatus_ok h
    obtain rfl := Table.get_pk he
    -- an administrator's change of `k` is excluded
    have hne : e.id ≠ k := by
      rintro rfl
      exact hadmin (show Request.SetsStatus _ r by rw [Request.SetsStatus, hop]; rfl)
    have hget (status : ExpertStatus) := (db.experts.get_update e.id (Expert.withStatus status)
      (fun _ => rfl) k).trans (if_neg hne)
    exact hkept (watch_congr rfl (congrArg (Option.map Expert.status) (hget _)))
  case createKey =>
    obtain ⟨keys, events, rfl⟩ := createKey_ok h
    exact .idle
  case createExpertKey =>
    obtain ⟨keys, events, rfl⟩ := createExpertKey_ok h
    exact .idle
  case revokeKey =>
    obtain ⟨keys, events, rfl⟩ := revokeKey_ok h
    exact .idle
  case bootstrap =>
    obtain ⟨keys, rfl⟩ := bootstrap_ok h
    exact .idle
  case createRubric =>
    obtain ⟨db₁, events, hadd, _, rfl⟩ := createRubric_ok h
    obtain ⟨rubrics, rows, _, _, rfl⟩ := addRubric_ok hadd
    exact .idle
  case publish =>
    obtain ⟨previous, db₁, events, _, _, _, hadd, rfl⟩ := publish_ok h
    obtain ⟨rubrics, rows, _, _, rfl⟩ := addRubric_ok hadd
    exact .idle
  case putRateCards =>
    obtain ⟨events, rfl⟩ := putRateCards_ok h
    exact .idle
  case createTasks =>
    obtain ⟨tasks, events, _, _, _, _, _, rfl⟩ := createTasks_ok h
    exact .idle
  case claimNext =>
    obtain ⟨e, _, _, ⟨rfl, _⟩ | ⟨task, _, _, hclaim⟩⟩ := claimNext_ok h
    · exact .idle
    · obtain rfl := congrArg Prod.fst hclaim
      exact hkept (hassign task e)
  case claimById =>
    obtain ⟨e, task, _, _, _, _, _, _, hclaim⟩ := claimById_ok_iff.mp h
    obtain rfl := congrArg Prod.fst hclaim
    exact hkept (hassign task e)
  case release =>
    obtain ⟨e, task, _, _, _, _, rfl⟩ := release_ok h
    exact .idle
  case reclaim =>
    obtain rfl := congrArg Prod.fst (pure_ok_iff.mp h)
    exact .idle
  case submit => exact submit_watch h k
  case review =>
    obtain ⟨grade, task, reviews, payouts, experts, changes, events, _, _, _, _, _, _, hcal, rfl⟩ :=
      review_ok h
    exact hkept (watch_congr rfl (status_recalibrates hcal k))
  case resolve =>
    obtain ⟨row, delivered, task, db₁, events, _, _, _, _, _, hloop, rfl⟩ := resolve_ok h
    obtain ⟨reviews, payouts, experts, changes, events', _, _, hcal, rfl⟩ :=
      resolveLoop_ok (gradesFor_experts db _) hloop
    exact hkept (watch_congr rfl (status_recalibrates hcal k))
  case closePeriod =>
    obtain ⟨periods, events, _, _, rfl⟩ := closePeriod_ok h
    exact .idle
  case exportDelivery =>
    obtain ⟨deliveries, events, _, _, rfl⟩ := exportDelivery_ok h
    exact .idle
  case tick =>
    obtain ⟨experts, changes, events, hcal, rfl⟩ := tick_ok h
    exact hkept (watch_congr rfl (status_recalibrates hcal k))

end Requests

/-! ### Over a run -/

/-- With the same settings throughout and no administrator at work, every state of a
run is guarded. -/
theorem guarded_after {s : Settings} {k : Uuid} (rs : List Request)
    (hs : ∀ r ∈ rs, r.env.settings.SameAttention s) (hadmin : ∀ r ∈ rs, ¬ r.SetsStatus k) :
    ((after rs).watch k).Guarded s := by
  induction rs using List.reverseRecOn with
  | nil =>
    refine ⟨fun _ => rfl, fun ⟨i, a, _, hi, _⟩ => ?_⟩
    exact absurd hi (by simp [after, Db.watch, Db.empty, Table.empty])
  | append_singleton rs r ih =>
    have hold := ih (fun q hq => hs q (List.mem_append_left _ hq))
      (fun q hq => hadmin q (List.mem_append_left _ hq))
    have hlast : r ∈ rs ++ [r] := List.mem_append_right _ (List.mem_singleton_self r)
    rw [after_concat]
    rcases commit_cases step r (after rs) with ⟨x, hstep⟩ | ⟨_, hsame⟩
    · exact ((step_watch hstep (hadmin r hlast)).congr (hs r hlast)).guarded hold
    · rw [hsame]
      exact hold

/-- In every state of a run without an administrator's status change: when a check
from the minimum on has failed, a window that holds the minimum of results with a rate
below the threshold means a paused expert, whatever was graded since. -/
theorem paused_of_low_rate {env : Env} {rs : List Request} {k : Uuid}
    (hs : ∀ r ∈ rs, r.env.settings.SameAttention env.settings)
    (hadmin : ∀ r ∈ rs, ¬ r.SetsStatus k)
    (hlate : Watch.LateFailure env.settings ((after rs).watch k).checks)
    {rate : ℚ} {passed total : ℕ}
    (hrate : rollingPassRate env (after rs) k = (some rate, passed, total))
    (hmin : env.settings.attentionMinChecks ≤ total)
    (hlow : rate < env.settings.attentionThreshold) :
    ∃ e, (after rs).experts.get k = some e ∧ e.status = .paused := by
  have htrips : trips env (after rs) k = true := by
    rw [trips, hrate]
    simp [hmin, hlow]
  have hpaused : ((after rs).watch k).status = some .paused :=
    (guarded_after rs hs hadmin).paused hlate ((trips_iff env _ k).mp htrips)
  exact Option.map_eq_some_iff.mp hpaused

/-! Three golden tasks, graded one after the other by expert 300. -/
namespace Scenario

def checked (q₁ q₂ q₃ : ℚ) : List Request := setup ++
  [call 5 (.createTasks [golden, golden, golden] "admin"),
   call 6 (.claimNext 300), call 7 (.submit 300 (grade 500 q₁)),
   call 8 (.claimNext 300), call 9 (.submit 300 (grade 501 q₂)),
   call 10 (.claimNext 300), call 11 (.submit 300 (grade 502 q₃))]

def statusOf (db : Db) (k : Uuid) : Option ExpertStatus := (db.experts.get k).map Expert.status

end Scenario

open Scenario in
/-- A failed check below the minimum and two passed ones after it: the third check is
the first one that counts, the rate is too low, and the expert is still active. -/
theorem low_rate_unnoticed :
    (∀ r ∈ checked 1 4 4, ¬ r.SetsStatus 300 ∧ r.env.settings.SameAttention (env 12).settings) ∧
      1 ≤ (env 12).settings.attentionMinChecks ∧
      (env 12).settings.attentionMinChecks ≤ (env 12).settings.attentionWindow ∧
      rollingPassRate (env 12) (after (checked 1 4 4)) 300 = (some (2 / 3), 2, 3) ∧
      (env 12).settings.attentionMinChecks ≤ 3 ∧ 2 / 3 < (env 12).settings.attentionThreshold ∧
      statusOf (after (checked 1 4 4)) 300 = some .active := by
  decide +kernel

open Scenario in
/-- The same expert after two passed checks and a failed one. -/
theorem paused_of_low_rate_third :
    ∃ e, (after (checked 4 1 1)).experts.get 300 = some e ∧ e.status = .paused :=
  @paused_of_low_rate (env 12) (checked 4 1 1) 300 (by decide +kernel) (by decide +kernel)
    (by decide +kernel) (1 / 3) 1 3 (by decide +kernel) (by decide +kernel) (by decide +kernel)

end Panelist
