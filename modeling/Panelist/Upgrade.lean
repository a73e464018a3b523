import Panelist.Amounts
import Panelist.Export
import Panelist.References

/-! The upgrade from 3.0.0. Its migration creates the table of rounds empty, so a task whose
grades were all in has none, and two of its grades can both be approved and exported. A grade
cannot be approved if its author's own rate is one that no payout can have. -/
namespace Panelist
open Relational Transaction

/-- Migration `7c41a0b52e63`: the rows stay, the new table `consensus` is empty. -/
def upgrade (old : Db) : Db := { old with consensus := .empty }

/-- A 3.0.0 database: no task waits for an adjudication, foreign keys hold, and a payout is
for the task and the expert of its grade. There are no rounds to speak of. -/
structure Legacy (old : Db) : Prop where
  status : ∀ t ∈ old.tasks, t.status ≠ .adjudication
  gradeTask : ∀ g ∈ old.grades, ∃ t ∈ old.tasks, t.id = g.taskId
  gradeExpert : ∀ g ∈ old.grades, ∃ e ∈ old.experts, e.id = g.expertId
  reviewGrade : ∀ v ∈ old.reviews, ∃ g ∈ old.grades, g.id = v.gradeId
  payoutGrade : ∀ p ∈ old.payouts, ∃ g ∈ old.grades, g.id = p.gradeId ∧ g.taskId = p.taskId ∧
    g.expertId = p.expertId

/-- A rate whose whole can be paid. -/
def PayableRate (cents : ℤ) : Prop := PayableAmount (payoutAmount cents 1)

/-- `g` is not approved and never will be: it is not paid, and its author has a rate of their own
that no payout can have. -/
structure Barred (db : Db) (g : Grade) : Prop where
  stored : db.grades.get g.id = some g
  ownRate : ∃ e own, db.experts.get g.expertId = some e ∧ e.taskRateCents = some own ∧
    ¬ PayableRate own
  unapproved : decision db g.id ≠ some .approve
  unpaid : decision db g.id = none → ∀ p ∈ db.payouts, p.gradeId ≠ g.id

/-- No two grades of the task have `p`. -/
def AtMostOne (db : Db) (k : Uuid) (p : Grade → Prop) : Prop :=
  ∀ a ∈ gradesOf db k, ∀ b ∈ gradesOf db k, p a → p b → a = b

/-- Of the grades of the task at most one is neither rejected nor `barred`. -/
def AtMostOneCandidate (db : Db) (barred : Grade → Prop) (k : Uuid) : Prop :=
  AtMostOne db k (fun g => decision db g.id ≠ some .reject ∧ ¬ barred g)

def AtMostOneApproved (db : Db) (k : Uuid) : Prop :=
  AtMostOne db k (fun g => decision db g.id = some .approve)

/-- `_reject_if_consensus_pending` refuses reviews because grades are missing. -/
def Task.waiting (t : Task) : Prop := 2 ≤ t.requiredGrades ∧ t.gradesReceived < t.requiredGrades

/-- At most one grade of the task is a candidate; a task that still waits for grades may have
more of them, of which at most one is approved. -/
def OneCandidate (db : Db) (barred : Grade → Prop) (t : Task) : Prop :=
  AtMostOneCandidate db barred t.id ∨ t.waiting ∧ AtMostOneApproved db t.id

/-! ### Rates of their own -/

def Expert.SameRate (e e' : Expert) : Prop := e'.taskRateCents = e.taskRateCents

theorem Expert.SameRate.trans {e e' e'' : Expert} (h : e.SameRate e') (h' : e'.SameRate e'') :
    e.SameRate e'' := Eq.trans h' h

/-- No effect changes an expert's own rate. -/
theorem Effect.ownRates {r : Request} {db db' : Db} (h : Effect r db db') :
    db.experts.Evolves Expert.SameRate db'.experts := by
  have hrefl (e : Expert) : e.SameRate e := rfl
  cases h with
  | joined hs hi => exact .insert hrefl hi
  | recalibrated h =>
    obtain ⟨f, hf, hsame, rfl⟩ := h
    refine .map (h := hf) (fun e => ?_)
    unfold Expert.SameRate
    rw [hsame e]
  | paused =>
    exact .update (f := Expert.withStatus .paused) (h := fun _ => rfl) hrefl (fun _ => rfl)
  | @statusSet e status =>
    exact .update (f := Expert.withStatus status) (h := fun _ => rfl) hrefl (fun _ => rfl)
  | claimed => exact .update (f := Expert.served) (h := fun _ => rfl) hrefl (fun _ => rfl)
  | _ => exact .refl hrefl db.experts

theorem Effects.ownRates {r : Request} {db db' : Db} (h : Effects r db db') :
    db.experts.Evolves Expert.SameRate db'.experts :=
  effects_preserve (P := fun db' => db.experts.Evolves Expert.SameRate db'.experts)
    (fun h he => h.trans Expert.SameRate.trans he.ownRates) h
    (.refl (R := Expert.SameRate) (fun _ => rfl) _)

/-! ### Barred grades -/

namespace Barred
variable {db db' : Db} {g : Grade}

/-- Whatever comes, the grade and the rate of its author stay. -/
theorem keep (h : Barred db g) {r : Request} (he : Effect r db db')
    (hdecision : decision db' g.id ≠ some .approve)
    (hunpaid : decision db' g.id = none → ∀ p ∈ db'.payouts, p.gradeId ≠ g.id) :
    Barred db' g := by
  obtain ⟨e, own, hx, hown, hpay⟩ := h.ownRate
  obtain ⟨e', hx', hsame⟩ := he.ownRates _ _ hx
  exact ⟨he.retains.grade h.stored, ⟨e', own, hx', Eq.trans hsame hown, hpay⟩, hdecision, hunpaid⟩

theorem undecided (h : Barred db g) {r : Request} (he : Effect r db db')
    (hu : Undecided db db') : Barred db' g := by
  refine h.keep he (by rw [hu.decision]; exact h.unapproved) (fun hnone p hp hg => ?_)
  rw [hu.decision] at hnone
  obtain ⟨q, hq, hqg⟩ := (hu.paid_iff g.id).mp ⟨p, hp, hg⟩
  exact h.unpaid hnone q hq hqg

/-- Without a payout the whole rate of the author would have to be paid. -/
theorem not_whole (h : Barred db g) (hnone : decision db g.id = none) {env : Env} {task : Task}
    {share : Grade → Option ℚ} {gs : List Grade} {P : Table Payout}
    (hp : Payments env db task share gs db.payouts P) (hg : g ∈ gs)
    (hids : ∀ x ∈ gs, x.id = g.id → x = g) (hf : share g = some 1) : False := by
  obtain ⟨p, hpP, hpg⟩ := hp.covers hg hf
  rcases hp.mem hpP with hold | ⟨x, hx, f, e, rate, hfx, hex, hr, ha, rfl⟩
  · exact h.unpaid hnone p hold hpg
  · obtain rfl := hids x hx hpg
    obtain rfl : (1 : ℚ) = f := Option.some.inj (hf.symm.trans hfx)
    obtain ⟨e', own, hx', hown, hpay⟩ := h.ownRate
    obtain rfl := Option.some.inj (hex.symm.trans hx')
    have hrate : rate = own := by
      simp only [rateFor, hown] at hr
      exact (Except.ok.inj hr).symm
    exact hpay (hrate ▸ ha)

/-- A payout of other grades is not for this one. -/
theorem not_paid (h : Barred db g) (hnone : decision db g.id = none) {env : Env} {task : Task}
    {share : Grade → Option ℚ} {gs : List Grade} {P : Table Payout}
    (hp : Payments env db task share gs db.payouts P) (hgs : ∀ x ∈ gs, x.id ≠ g.id) :
    ∀ p ∈ P, p.gradeId ≠ g.id := by
  intro p hpP
  rcases hp.mem hpP with hold | ⟨x, hx, _, _, _, _, _, _, _, rfl⟩
  · exact h.unpaid hnone p hold
  · exact hgs x hx

theorem effect (h : Barred db g) {r : Request} (he : Effect r db db') : Barred db' g := by
  have he' := he
  cases he with
  -- what decides nothing moves no verdict, and payouts only in their status
  | logged | rubricAdded | superseded | joined | recalibrated | queued | reclaimed | released
  | claimed | retargeted | graded => exact h.undecided he' (.of_same rfl rfl)
  | paused =>
    exact h.undecided he' (.of_update rfl (fun _ => rfl) (f := Payout.withhold) (fun _ => rfl) rfl)
  | @statusSet e status =>
    by_cases hback : e.status = .paused ∧ status = .active
    · exact h.undecided he' (.of_update rfl Payout.released_keeps (fun _ => rfl) (if_pos hback))
    · exact h.undecided he' (.of_same rfl (if_neg hback))
  | @closed period =>
    exact h.undecided he'
      (.of_update rfl (fun _ => rfl) (f := Payout.paidIn period.id r.env.now) (fun _ => rfl) rfl)
  | @reviewed grade task v reviews payouts keyId body actor hop hb hg htask ht hallow hv hi hp =>
    have hdec := decision_insert hi g.id
    by_cases hid : v.gradeId = g.id
    -- the verdict is on `g` itself: an approval would have had to pay
    · have hnone : decision db g.id = none := hid ▸ decision_of_insert hi
      have hgrade : grade = g := by
        have hgid : grade.id = g.id := by rw [← hid, hv]
        exact Option.some.inj ((hgid ▸ hg).symm.trans h.stored)
      subst hgrade
      rw [if_pos hid] at hdec
      refine h.keep he' (fun happ => ?_) (fun hn => absurd (hdec.symm.trans hn) (by simp))
      have happrove : v.decision = .approve := Option.some.inj (hdec.symm.trans happ)
      exact h.not_whole hnone hp List.mem_cons_self
        (fun x hx _ => List.mem_singleton.mp hx) (by rw [reviewShare, if_pos happrove])
    · rw [if_neg hid] at hdec
      refine h.keep he' (fun happ => h.unapproved (hdec.symm.trans happ)) (fun hn => ?_)
      -- the verdict is on another grade, and pays that one
      refine h.not_paid (hdec.symm.trans hn) hp (fun x hx he => hid ?_)
      rw [hv, ← he, List.mem_singleton.mp hx]
  | @adjudicated row task delivered reviews payouts reason keyId actor hop hrow hs hd ht hi hp =>
    by_cases hmem : g ∈ gradesFor db task.id
    · obtain ⟨hnone, hdec⟩ :=
        @decision_verdicts _ db { db with reviews := reviews } _ _ _ _ hi g hmem
      refine h.keep he' (fun happ => ?_) (fun hn => absurd (hdec.symm.trans hn) (by simp))
      by_cases hid : g.id = delivered.id
      · refine h.not_whole hnone hp hmem (fun x hx he => ?_) (by rw [resolveShare, if_pos hid])
        exact db.grades.eq_of_pk (mem_gradesFor.mp hx).1 (Table.get_mem h.stored) he
      · rw [if_neg hid] at hdec
        exact absurd (Option.some.inj (hdec.symm.trans happ)) (by decide)
    -- the adjudication of another task
    · have hother : ∀ x ∈ gradesFor db task.id, x.id ≠ g.id := by
        intro x hx he
        rw [db.grades.eq_of_pk (mem_gradesFor.mp hx).1 (Table.get_mem h.stored) he] at hx
        exact hmem hx
      have hdec : decision { db with reviews := reviews } g.id = decision db g.id := by
        refine decision_insertAll_of_ne hi (fun v hv => ?_)
        obtain ⟨x, hx, rfl⟩ := List.mem_map.mp hv
        exact hother x hx
      refine h.keep he' (fun happ => h.unapproved (hdec.symm.trans happ)) (fun hn => ?_)
      exact h.not_paid (hdec.symm.trans hn) hp hother

/-- A request that does not decide on a grade does not bar it. -/
theorem before {r : Request} {x : Response} (hstep : step r db = .ok (db', x)) (h : Barred db' g)
    (hg : g ∈ db.grades) (hx : ∃ e, db.experts.get g.expertId = some e)
    (hdec : decision db' g.id = decision db g.id) : Barred db g := by
  have hretains := (step_effects hstep).retains
  obtain ⟨e, hx⟩ := hx
  obtain ⟨e', hx', hsame⟩ := (step_effects hstep).ownRates _ _ hx
  obtain ⟨e'', own, hx'', hown, hpay⟩ := h.ownRate
  obtain rfl := Option.some.inj (hx'.symm.trans hx'')
  refine ⟨db.grades.get_of_mem hg, ⟨e, own, hx, Eq.trans (Eq.symm hsame) hown, hpay⟩,
    hdec ▸ h.unapproved, fun hnone p hp hpg => ?_⟩
  obtain ⟨p', hp', hpk, -⟩ := hretains.payouts.mem hp
  exact h.unpaid (hdec.trans hnone) p' hp' (Eq.trans hpk hpg)

end Barred

/-! ### What every operation keeps -/

/-- Every task without a round has one candidate. -/
structure Upgraded (barred : Grade → Prop) (db : Db) : Prop where
  gradeTask : ∀ g ∈ db.grades, ∃ t ∈ db.tasks, t.id = g.taskId
  reviewGrade : ∀ v ∈ db.reviews, ∃ g ∈ db.grades, g.id = v.gradeId
  roundTask : ∀ c ∈ db.consensus, ∃ t ∈ db.tasks, t.id = c.taskId
  candidate : ∀ t ∈ db.tasks, t.isAttentionCheck = false → db.consensus.get t.id = none →
    OneCandidate db barred t

section Candidates
variable {db db' : Db} {barred : Grade → Prop} {t t' : Task}

theorem AtMostOne.mono {k : Uuid} {p q : Grade → Prop} (h : AtMostOne db k p)
    (hg : ∀ g ∈ gradesOf db' k, q g → g ∈ gradesOf db k ∧ p g) : AtMostOne db' k q := by
  intro a ha b hb hpa hpb
  obtain ⟨ha, hpa⟩ := hg a ha hpa
  obtain ⟨hb, hpb⟩ := hg b hb hpb
  exact h a ha b hb hpa hpb

/-- Approved grades are candidates. -/
theorem OneCandidate.approved (h : OneCandidate db barred t)
    (happ : ∀ g ∈ gradesOf db t.id, decision db g.id = some .approve → ¬ barred g) :
    AtMostOneApproved db t.id := by
  rcases h with hone | ⟨-, hone⟩
  · refine AtMostOne.mono hone (fun g hg ha => ⟨hg, ?_, happ g hg ha⟩)
    rw [ha]
    decide
  · exact hone

/-- A task with the same grades, decisions and counters. -/
theorem OneCandidate.congr (h : OneCandidate db barred t) (hid : t'.id = t.id)
    (hgrades : gradesOf db' t.id = gradesOf db t.id)
    (hdec : ∀ g ∈ gradesOf db t.id, decision db' g.id = decision db g.id)
    (hwait : t.waiting → t'.waiting) : OneCandidate db' barred t' := by
  have hsame {q : Option ReviewDecision → Grade → Prop}
      (hp : AtMostOne db t.id (fun g => q (decision db g.id) g)) :
      AtMostOne db' t'.id (fun g => q (decision db' g.id) g) := by
    rw [hid]
    refine hp.mono (fun g hg hpg => ?_)
    rw [hgrades] at hg
    exact ⟨hg, hdec g hg ▸ hpg⟩
  rcases h with hone | ⟨hw, hone⟩
  · exact Or.inl (hsame (q := fun d g => d ≠ some .reject ∧ ¬ barred g) hone)
  · exact Or.inr ⟨hwait hw, hsame (q := fun d _ => d = some .approve) hone⟩

theorem gradesOf_congr (hg : db'.grades = db.grades) (k : Uuid) :
    gradesOf db' k = gradesOf db k := by
  rw [gradesOf, gradesOf, hg]

theorem decision_congr (hv : db'.reviews = db.reviews) (k : Uuid) :
    decision db' k = decision db k := by
  rw [decision, decision, hv]

end Candidates

namespace Upgraded
variable {db db' : Db} {barred : Grade → Prop}

theorem congr (h : Upgraded barred db) (ht : db'.tasks = db.tasks) (hg : db'.grades = db.grades)
    (hv : db'.reviews = db.reviews) (hc : db'.consensus = db.consensus) : Upgraded barred db' := by
  refine ⟨?_, ?_, ?_, fun t hmem hgold hround => ?_⟩
  · rw [hg, ht]
    exact h.gradeTask
  · rw [hg, hv]
    exact h.reviewGrade
  · rw [hc, ht]
    exact h.roundTask
  · rw [ht] at hmem
    rw [hc] at hround
    exact (h.candidate t hmem hgold hround).congr rfl (gradesOf_congr hg _)
      (fun g _ => decision_congr hv g.id) id

/-- Assignments to columns other than the two counters and the kind of a task. -/
theorem mapTasks (h : Upgraded barred db) {f : Task → Task} (hf : Table.Keeps f)
    (hsame : ∀ t, (f t).isAttentionCheck = t.isAttentionCheck ∧
      (f t).requiredGrades = t.requiredGrades ∧ (f t).gradesReceived = t.gradesReceived) :
    Upgraded barred { db with tasks := db.tasks.map f hf } := by
  have hid (t : Task) : (f t).id = t.id := hf.pk_eq t
  have hkeep {k : Uuid} (hk : ∃ t ∈ db.tasks, t.id = k) : ∃ t ∈ db.tasks.map f hf, t.id = k := by
    obtain ⟨t, ht, rfl⟩ := hk
    exact ⟨f t, (Table.mem_map hf).mpr ⟨t, ht, rfl⟩, hid t⟩
  refine ⟨fun g hg => hkeep (h.gradeTask g hg), h.reviewGrade, fun c hc => hkeep (h.roundTask c hc),
    fun s hs hgold hround => ?_⟩
  obtain ⟨t, ht, rfl⟩ := (Table.mem_map hf).mp hs
  obtain ⟨hkind, hreq, hrec⟩ := hsame t
  rw [hkind] at hgold
  rw [hid] at hround
  refine (h.candidate t ht hgold hround).congr (hid t) rfl (fun _ _ => rfl) (fun hw => ?_)
  rw [Task.waiting, hreq, hrec]
  exact hw

theorem updateTask (h : Upgraded barred db) {k : Uuid} (f : Task → Task) (hf : Table.Keeps f)
    (hsame : ∀ t, (f t).isAttentionCheck = t.isAttentionCheck ∧
      (f t).requiredGrades = t.requiredGrades ∧ (f t).gradesReceived = t.gradesReceived) :
    Upgraded barred { db with tasks := db.tasks.update k f hf } := by
  refine h.mapTasks (hf.ite _) (fun t => ?_)
  split_ifs
  · exact hsame t
  · exact ⟨rfl, rfl, rfl⟩

theorem updateTasksWhere (h : Upgraded barred db) (p : Task → Bool) (f : Task → Task)
    (hf : Table.Keeps f)
    (hsame : ∀ t, (f t).isAttentionCheck = t.isAttentionCheck ∧
      (f t).requiredGrades = t.requiredGrades ∧ (f t).gradesReceived = t.gradesReceived) :
    Upgraded barred { db with tasks := db.tasks.updateWhere p f hf } := by
  refine h.mapTasks (hf.ite p) (fun t => ?_)
  split_ifs
  · exact hsame t
  · exact ⟨rfl, rfl, rfl⟩

/-- New tasks have no grades. -/
theorem queued (h : Upgraded barred db) {rows : List Task} {tasks : Table Task} {seq : ℕ}
    (hi : db.tasks.insertAll rows = some tasks) :
    Upgraded barred { db with tasks := tasks, taskSeq := seq } := by
  have hkeep {k : Uuid} (hk : ∃ t ∈ db.tasks, t.id = k) : ∃ t ∈ tasks, t.id = k := by
    obtain ⟨t, ht, rfl⟩ := hk
    exact ⟨t, (Table.mem_insertAll hi).mpr (Or.inl ht), rfl⟩
  refine ⟨fun g hg => hkeep (h.gradeTask g hg), h.reviewGrade, fun c hc => hkeep (h.roundTask c hc),
    fun t ht hgold hround => ?_⟩
  rcases (Table.mem_insertAll hi).mp ht with ht | ht
  · exact h.candidate t ht hgold hround
  · refine Or.inl (fun a ha => ?_)
    obtain ⟨ha, hat⟩ := mem_gradesOf.mp ha
    obtain ⟨s, hs, hid⟩ := h.gradeTask a ha
    exact absurd (hid.trans hat) (Table.insertAll_fresh hi hs ht)

/-- A new grade ends the wait for grades, or leaves it one grade shorter. -/
theorem graded (h : Upgraded barred db) {env : Env} {task : Task} {g : Grade} {grades : Table Grade}
    {tasks : Table Task} {consensus : Table Consensus} (ht : db.tasks.get task.id = some task)
    (happ : ∀ g ∈ db.grades, decision db g.id = some .approve → ¬ barred g)
    (hgt : g.taskId = task.id) (hi : db.grades.insert g = some grades)
    (hc : Rounds env { db with grades := grades } task tasks consensus) :
    Upgraded barred { db with grades := grades, tasks := tasks, consensus := consensus } := by
  have hfresh : decision db g.id = none := by
    rw [decision, Option.map_eq_none_iff, Table.get_eq_none]
    intro v hv he
    obtain ⟨x, hx, hxv⟩ := h.reviewGrade v hv
    exact Table.insert_fresh hi hx (hxv.trans he)
  -- the other tasks, and the task itself while it has no round
  have hsplit {f : Task → Task} {C : Table Consensus} (hf : Table.Keeps f)
      (hrounds : ∀ k, k ≠ task.id → C.get k = none → db.consensus.get k = none)
      (hmem : ∀ c ∈ C, c ∈ db.consensus ∨ c.taskId = task.id)
      (hself : (f task).isAttentionCheck = false → C.get task.id = none →
        OneCandidate { db with grades := grades } barred (f task)) :
      Upgraded barred
        { db with grades := grades, tasks := db.tasks.update task.id f hf, consensus := C } := by
    have hid (t : Task) : (f t).id = t.id := hf.pk_eq t
    have htasks {s : Task} : s ∈ db.tasks.update task.id f hf ↔
        s = f task ∨ s ∈ db.tasks ∧ s.id ≠ task.id := Table.mem_update_of_get hf ht
    have hkeep {k : Uuid} (hk : ∃ t ∈ db.tasks, t.id = k) :
        ∃ t ∈ db.tasks.update task.id f hf, t.id = k := by
      obtain ⟨t, hmem, rfl⟩ := hk
      by_cases he : t.id = task.id
      · exact ⟨f task, htasks.mpr (Or.inl rfl), (hid task).trans he.symm⟩
      · exact ⟨t, htasks.mpr (Or.inr ⟨hmem, he⟩), rfl⟩
    have hstored := hkeep ⟨task, Table.get_mem ht, rfl⟩
    refine ⟨fun x hx => ?_, fun v hv => ?_, fun c hc => ?_, fun s hs hgold hround => ?_⟩
    · rcases (Table.mem_insert hi).mp hx with hx | rfl
      · exact hkeep (h.gradeTask x hx)
      · rw [hgt]
        exact hstored
    · obtain ⟨x, hx, hxv⟩ := h.reviewGrade v hv
      exact ⟨x, (Table.mem_insert hi).mpr (Or.inl hx), hxv⟩
    · rcases hmem c hc with hc | hc
      · exact hkeep (h.roundTask c hc)
      · rw [hc]
        exact hstored
    · rcases htasks.mp hs with rfl | ⟨hs, hne⟩
      · rw [hid] at hround
        exact (hself hgold hround).congr rfl rfl (fun _ _ => rfl) id
      · refine (h.candidate s hs hgold (hrounds s.id hne hround)).congr rfl ?_ (fun _ _ => rfl) id
        exact (gradesOf_insert hi s.id).trans (if_neg (fun he => hne (he.symm.trans hgt)))
  have hinsert {row : Consensus} {C : Table Consensus} (hrow : row.taskId = task.id)
      (hC : db.consensus.insert row = some C) :
      (∀ k, k ≠ task.id → C.get k = none → db.consensus.get k = none) ∧
        (∀ c ∈ C, c ∈ db.consensus ∨ c.taskId = task.id) ∧ C.get task.id ≠ none := by
    refine ⟨fun k hk hnone => ?_, fun c hmem => ?_, ?_⟩
    · rw [Table.get_insert hC, if_neg (fun he => hk (he.symm.trans hrow))] at hnone
      exact hnone
    · rcases (Table.mem_insert hC).mp hmem with hmem | rfl
      · exact Or.inl hmem
      · exact Or.inr hrow
    · rw [Table.get_insert hC, if_pos (show pk row = task.id from hrow)]
      exact Option.some_ne_none row
  cases hc with
  | none hround =>
    refine hsplit (f := Task.graded) (fun _ => rfl) (fun _ _ h => h) (fun c hc => Or.inl hc)
      (fun hgold hnone => ?_)
    have hgold : task.isAttentionCheck = false := hgold
    by_cases hmore : task.gradesReceived + 1 < task.requiredGrades
    · -- still waiting: the new grade is undecided
      refine Or.inr ⟨⟨by show 2 ≤ task.requiredGrades; omega, hmore⟩, ?_⟩
      have hone := (h.candidate task (Table.get_mem ht) hgold hnone).approved
        (fun x hx => happ x (mem_gradesOf.mp hx).1)
      refine AtMostOne.mono hone (fun x hx ha => ?_)
      have hx : x ∈ gradesOf { db with grades := grades } task.id := hx
      rw [gradesOf_insert hi, if_pos hgt] at hx
      rcases List.mem_append.mp hx with hx | hx
      · exact ⟨hx, ha⟩
      · rw [List.mem_singleton.mp hx] at ha
        exact absurd (hfresh.symm.trans ha) (by simp)
    · -- complete without a round: fewer than two grades are not rejected
      have hlt := hround (Task.graded_status_of_le hgold (Nat.not_lt.mp hmore))
      refine Or.inl (fun a ha b hb hpa hpb => ?_)
      have ha : a ∈ unrejected { db with grades := grades } task.id :=
        mem_unrejected.mpr ⟨mem_gradesOf.mp ha, hpa.1⟩
      have hb : b ∈ unrejected { db with grades := grades } task.id :=
        mem_unrejected.mpr ⟨mem_gradesOf.mp hb, hpb.1⟩
      obtain ⟨c, hc⟩ := List.length_eq_one_iff.mp
        (le_antisymm (Nat.lt_succ_iff.mp hlt) (List.length_pos_of_mem ha))
      rw [hc] at ha hb
      exact (List.mem_singleton.mp ha).trans (List.mem_singleton.mp hb).symm
  | agreed hdone htwo hagreed hins =>
    obtain ⟨hother, hmem, hsome⟩ := hinsert rfl hins
    exact hsplit (f := Task.graded) (fun _ => rfl) hother hmem
      (fun _ hnone => absurd hnone hsome)
  | split hdone htwo hsplit' hins =>
    obtain ⟨hother, hmem, hsome⟩ := hinsert rfl hins
    exact hsplit (f := fun t => t.graded.withStatus .adjudication) (fun _ => rfl) hother hmem
      (fun _ hnone => absurd hnone hsome)

/-- Decisions on grades of one task, which has a round or one candidate that stays the only
one, and a change to its row. -/
theorem decided (h : Upgraded barred db) {task : Task} {reviews : Table Review} {f : Task → Task}
    {c : Consensus → Consensus} (hf : Table.Keeps f) (hc : Table.Keeps c)
    (ht : db.tasks.get task.id = some task)
    (hkind : (f task).isAttentionCheck = task.isAttentionCheck)
    (hreviews : ∀ v ∈ reviews, v ∈ db.reviews ∨ ∃ g ∈ db.grades, g.id = v.gradeId)
    (hother : ∀ g ∈ db.grades, g.taskId ≠ task.id →
      decision { db with reviews := reviews } g.id = decision db g.id)
    (hself : task.isAttentionCheck = false → db.consensus.get task.id = none →
      OneCandidate { db with reviews := reviews } barred (f task)) :
    Upgraded barred { db with
      reviews := reviews
      tasks := db.tasks.update task.id f hf
      consensus := db.consensus.update task.id c hc } := by
  have hid (t : Task) : (f t).id = t.id := hf.pk_eq t
  have htasks {s : Task} : s ∈ db.tasks.update task.id f hf ↔
      s = f task ∨ s ∈ db.tasks ∧ s.id ≠ task.id := Table.mem_update_of_get hf ht
  -- an id that had a task has one still, and a round that is missing was missing
  have hkeep {k : Uuid} (hk : ∃ t ∈ db.tasks, t.id = k) :
      ∃ t ∈ db.tasks.update task.id f hf, t.id = k := by
    obtain ⟨t, hmem, rfl⟩ := hk
    by_cases he : t.id = task.id
    · exact ⟨f task, htasks.mpr (Or.inl rfl), (hid task).trans he.symm⟩
    · exact ⟨t, htasks.mpr (Or.inr ⟨hmem, he⟩), rfl⟩
  have hnone {k : Uuid} (hk : (db.consensus.update task.id c hc).get k = none) :
      db.consensus.get k = none := by
    rw [Table.get_update] at hk
    split_ifs at hk
    · exact Option.map_eq_none_iff.mp hk
    · exact hk
  refine ⟨fun g hg => hkeep (h.gradeTask g hg), fun v hv => ?_, fun r hr => ?_,
    fun s hs hgold hround => ?_⟩
  · rcases hreviews v hv with hv | hv
    · exact h.reviewGrade v hv
    · exact hv
  · obtain ⟨r', hr', rfl⟩ := (Table.mem_update hc).mp hr
    have hrt : (if pk r' = task.id then c r' else r').taskId = r'.taskId := by
      split_ifs
      · exact hc.pk_eq r'
      · rfl
    rw [hrt]
    exact hkeep (h.roundTask r' hr')
  -- the decided task has the grades it had, the others their verdicts too
  · have hround := hnone hround
    rcases htasks.mp hs with rfl | ⟨hs, hne⟩
    · rw [hid] at hround
      exact (hself (hkind ▸ hgold) hround).congr rfl rfl (fun _ _ => rfl) id
    · refine (h.candidate s hs hgold hround).congr rfl rfl (fun g hg => ?_) id
      obtain ⟨hg, hgt⟩ := mem_gradesOf.mp hg
      exact hother g hg (fun he => hne (hgt.symm.trans he))

theorem reviewed (h : Upgraded barred db) {task : Task} {g : Grade} {v : Review}
    {reviews : Table Review} (hg : db.grades.get g.id = some g) (htask : task.id = g.taskId)
    (ht : db.tasks.get task.id = some task) (hallow : rejectIfConsensusPending task = .ok ())
    (hv : v.gradeId = g.id) (hi : db.reviews.insert v = some reviews) :
    Upgraded barred { db with
      reviews := reviews
      tasks := db.tasks.update task.id (Task.reviewed v.decision) (Task.reviewed_keeps _)
      consensus := db.consensus.update task.id
        (Consensus.afterReview v.decision g.id
          (repick { db with reviews := reviews } task.id))
        (Consensus.afterReview_keeps _ _ _) } := by
  have hnone : decision db g.id = none := hv ▸ decision_of_insert hi
  have hdec (k : Uuid) : decision { db with reviews := reviews } k =
      if g.id = k then some v.decision else decision db k := by
    rw [decision_insert hi, hv]
  refine h.decided (Task.reviewed_keeps _) (Consensus.afterReview_keeps _ _ _) ht ?_
    (fun w hw => ?_)
    (fun x hx hne => ?_) (fun hgold hround => Or.inl ?_)
  · unfold Task.reviewed
    split_ifs <;> rfl
  · rcases (Table.mem_insert hi).mp hw with hw | rfl
    · exact Or.inl hw
    · exact Or.inr ⟨g, Table.get_mem hg, hv.symm⟩
  · refine (hdec x.id).trans (if_neg (fun he => hne ?_))
    rw [← db.grades.eq_of_pk (Table.get_mem hg) hx he]
    exact htask.symm
  · -- a review is allowed on a task that does not wait
    have hone : AtMostOneCandidate db barred task.id := by
      refine (h.candidate task (Table.get_mem ht) hgold hround).resolve_right (fun hw => ?_)
      obtain ⟨⟨hreq, hrec⟩, -⟩ := hw
      rcases rejectIfConsensusPending_ok.mp hallow with (hb | hb) | hb
      · exact absurd (hb.symm.trans hgold) (by decide)
      · omega
      · omega
    have hid : (task.reviewed v.decision).id = task.id :=
      (Task.reviewed_keeps v.decision).pk_eq task
    rw [hid]
    -- a verdict only takes candidates away
    refine AtMostOne.mono hone (fun x hx hp => ⟨hx, ?_, hp.2⟩)
    have hreject := hp.1
    rw [hdec] at hreject
    by_cases he : g.id = x.id
    · rw [← he, hnone]
      simp
    · rwa [if_neg he] at hreject

theorem adjudicated (h : Upgraded barred db) {env : Env} {row : Consensus} {task : Task}
    {delivered : Grade} {reviews : Table Review} {reason : String} {keyId : Uuid}
    (hrow : db.consensus.get task.id = some row) (ht : db.tasks.get task.id = some task)
    (hi : db.reviews.insertAll ((gradesFor db task.id).map
      (verdict env delivered reason keyId)) = some reviews) :
    Upgraded barred { db with
      reviews := reviews
      tasks := db.tasks.update task.id (Task.withStatus .approved)
      consensus := db.consensus.update task.id
        (Consensus.adjudicate delivered.id keyId reason env.now) } := by
  -- the adjudicated task has a round, so it needs no candidate
  refine h.decided (f := Task.withStatus .approved)
    (c := Consensus.adjudicate delivered.id keyId reason env.now) (fun _ => rfl)
    (fun _ => rfl) ht rfl
    (fun w hw => ?_) (fun x hx hne => ?_)
    (fun _ hround => absurd (hrow.symm.trans hround) (Option.some_ne_none row))
  · rcases (Table.mem_insertAll hi).mp hw with hw | hw
    · exact Or.inl hw
    · obtain ⟨y, hy, rfl⟩ := List.mem_map.mp hw
      exact Or.inr ⟨y, (mem_gradesFor.mp hy).1, rfl⟩
  · refine decision_insertAll_of_ne hi (fun v hv he => hne ?_)
    obtain ⟨y, hy, rfl⟩ := List.mem_map.mp hv
    obtain ⟨hy, hyt⟩ := mem_gradesFor.mp hy
    rw [← db.grades.eq_of_pk hy hx he]
    exact hyt

/-- Every effect keeps one candidate for each task without a round. -/
theorem effect {r : Request} (h : Upgraded barred db) (hbar : ∀ g, barred g → Barred db g)
    (he : Effect r db db') : Upgraded barred db' := by
  -- grades, verdicts and the status of tasks are what decides; the rest moves other columns
  cases he with
  | logged => exact h.congr rfl rfl rfl rfl
  | rubricAdded => exact h.congr rfl rfl rfl rfl
  | superseded => exact h.congr rfl rfl rfl rfl
  | joined => exact h.congr rfl rfl rfl rfl
  | recalibrated => exact h.congr rfl rfl rfl rfl
  | paused => exact h.congr rfl rfl rfl rfl
  | statusSet => exact h.congr rfl rfl rfl rfl
  | closed => exact h.congr rfl rfl rfl rfl
  | queued hv hi => exact h.queued hi
  | reclaimed => exact h.updateTasksWhere _ Task.reclaimed (fun _ => rfl) (fun _ => ⟨rfl, rfl, rfl⟩)
  | released => exact h.updateTask Task.unassigned (fun _ => rfl) (fun _ => ⟨rfl, rfl, rfl⟩)
  | claimed =>
    exact (h.updateTask (Task.assignTo r.env _) (fun _ => rfl)
      (fun _ => ⟨rfl, rfl, rfl⟩)).congr rfl rfl rfl rfl
  | retargeted previousId newId =>
    exact h.updateTasksWhere _ (Task.retargeted newId) (fun _ => rfl) (fun _ => ⟨rfl, rfl, rfl⟩)
  | graded hop hx ht hs hh hrub hg hi hc =>
    subst hg
    exact h.graded ht (fun x _ happ hx => (hbar x hx).unapproved happ) rfl hi hc
  | reviewed hop hb hg htask ht hallow hv hi hp =>
    exact (h.reviewed hg htask ht hallow (hv ▸ rfl) hi).congr rfl rfl rfl rfl
  | adjudicated hop hrow hs hd ht hi hp =>
    exact (h.adjudicated hrow ht hi).congr rfl rfl rfl rfl

theorem run (h : Upgraded barred db) (hbar : ∀ g, barred g → Barred db g) (rs : List Request) :
    Upgraded barred (run step db rs) ∧ ∀ g, barred g → Barred (Transaction.run step db rs) g :=
  run_invariant step (P := fun db => Upgraded barred db ∧ ∀ g, barred g → Barred db g)
    (fun _ _ _ _ hdb hstep => effects_preserve
      (P := fun db => Upgraded barred db ∧ ∀ g, barred g → Barred db g)
      (fun h he => ⟨h.1.effect h.2 he, fun g hg => (h.2 g hg).effect he⟩) (step_effects hstep) hdb)
    ⟨h, hbar⟩ rs

/-- Two exported grades of one task are one grade. -/
theorem exportable_unique (h : Upgraded barred db) (hbar : ∀ g, barred g → Barred db g) {t : Task}
    (ht : t ∈ db.tasks) {g g' : Grade}
    (hg : Exportable db t g) (hg' : Exportable db t g') : g = g' := by
  cases hround : db.consensus.get t.id with
  | some c =>
    exact db.grades.eq_of_pk (mem_gradesOf.mp hg.mem).1 (mem_gradesOf.mp hg'.mem).1
      (Option.some.inj ((hg.picked c hround).symm.trans (hg'.picked c hround)))
  | none =>
    exact (h.candidate t ht hg.regular hround).approved
      (fun x _ happ hx => (hbar x hx).unapproved happ) g hg.mem g' hg'.mem hg.approved hg'.approved

end Upgraded

/-! ### Approving the candidates of a task -/

/-- An approval goes through: the task neither waits nor is it disputed, its grades have
authors, and every tier has a rate for it that can be paid. -/
structure Approvable (db : Db) (k : Uuid) : Prop where
  task : ∃ t, db.tasks.get k = some t ∧ t.isAttentionCheck = false ∧ ¬ t.waiting ∧
    t.status ≠ .adjudication ∧ ∀ tier, ∃ card, db.rateCards.get (tier, t.taskType) = some card ∧
      PayableRate card.rateCents
  round : db.consensus.get k = none
  author : ∀ g ∈ gradesOf db k, ∃ e, db.experts.get g.expertId = some e
  payoutGrade : ∀ p ∈ db.payouts, ∃ g ∈ db.grades, g.id = p.gradeId ∧ g.taskId = p.taskId ∧
    g.expertId = p.expertId

section Approvals
variable {db : Db} {k : Uuid} {g : Grade}

theorem Approvable.rate {t : Task} (hcards : ∀ tier, ∃ card,
    db.rateCards.get (tier, t.taskType) = some card ∧ PayableRate card.rateCents)
    {e : Expert} (hown : ∀ own, e.taskRateCents = some own → PayableRate own) :
    ∃ cents, rateFor db e t.taskType = .ok cents ∧ PayableRate cents := by
  unfold rateFor
  cases he : e.taskRateCents with
  | some cents => exact ⟨cents, rfl, hown cents he⟩
  | none =>
    obtain ⟨card, hcard, hpay⟩ := hcards e.tier
    refine ⟨card.rateCents, ?_, hpay⟩
    simp [hcard, Option.or]

/-- A grade that is not barred is paid, or was paid before. -/
theorem Approvable.pays (h : Approvable db k) (env : Env) (hg : g ∈ gradesOf db k)
    (hnone : db.reviews.get g.id = none) (hbar : ¬ Barred db g) {t : Task}
    (ht : db.tasks.get k = some t) (reviews : Table Review) (actor : String) :
    ∃ db', reviewPayout env { db with reviews := reviews } g t .approve actor = .ok db' := by
  obtain ⟨e, he⟩ := h.author g hg
  obtain ⟨t', ht', -, -, -, hcards⟩ := h.task
  obtain rfl := Option.some.inj (ht.symm.trans ht')
  have hid : t.id = k := Table.get_pk ht
  obtain ⟨hmem, hgt⟩ := mem_gradesOf.mp hg
  rw [reviewPayout, if_pos rfl, createForGrade]
  cases hp : db.payouts.get g.id with
  | some existing =>
    refine ⟨{ db with reviews := reviews }, ?_⟩
    simp [he]
  | none =>
    have hdec : decision db g.id = none := by rw [decision, hnone]; rfl
    have hown : ∀ own, e.taskRateCents = some own → PayableRate own := by
      intro own hset
      by_contra hpay
      refine hbar ⟨db.grades.get_of_mem hmem, ⟨e, own, he, hset, hpay⟩, by rw [hdec]; decide, ?_⟩
      exact fun _ => db.payouts.get_eq_none.mp hp
    obtain ⟨cents, hrate, hpay⟩ := Approvable.rate hcards hown
    cases hins : db.payouts.insert (newPayout env e g t (payoutAmount cents 1)) with
    | some payouts =>
      refine ⟨record { db with reviews := reviews, payouts := payouts } actor "payout.created"
        "payout" (env.payoutUuid4 g.id).str, ?_⟩
      have hrate' : rateFor { db with reviews := reviews } e t.taskType = .ok cents := hrate
      simp only [map_ok_iff, bind_ok_iff, require_ok_iff, exists_const, orFail_ok_iff, Prod.exists]
      refine ⟨_, newPayout env e g t (payoutAmount cents 1), ⟨e, he, ?_⟩, rfl⟩
      exact ⟨cents, hrate', hpay.1, payouts, hins, hpay.2, rfl⟩
    | none =>
      -- a payout in the way would be one for this grade
      obtain ⟨p, hpm, hclash⟩ := Table.insert_eq_none.mp hins
      obtain ⟨x, hx, hxid, hxt, hxe⟩ := h.payoutGrade p hpm
      have hsame : x = g := by
        rcases hclash with hid' | hte
        · exact db.grades.eq_of_pk hx hmem (hxid.trans hid')
        · obtain ⟨hpt, hpe⟩ := Prod.mk.inj hte
          refine db.grades.eq_of_clash hx hmem (Or.inr (Prod.ext ?_ ?_))
          · exact (hxt.trans hpt).trans (hid.trans hgt.symm)
          · exact (hxe.trans hpe).trans (Table.get_pk he)
      have hget := db.payouts.get_of_mem hpm
      change db.payouts.get p.gradeId = some p at hget
      rw [← hxid, hsame, hp] at hget
      exact absurd hget (by simp)

/-- The approval of a grade that has no review. -/
def approval (env : Env) (g : Grade) : Request :=
  ⟨env, .review 0 ⟨g.id, .approve, none⟩ "reviewer"⟩

theorem Approvable.approves (h : Approvable db k) (env : Env) (hg : g ∈ gradesOf db k)
    (hnone : db.reviews.get g.id = none) (hbar : ¬ Barred db g) :
    ∃ db' v, review env db 0 ⟨g.id, .approve, none⟩ "reviewer" = .ok (db', v) := by
  obtain ⟨t, ht, hgold, hwait, hadj, -⟩ := h.task
  obtain ⟨hmem, hgt⟩ := mem_gradesOf.mp hg
  obtain ⟨e, he⟩ := h.author g hg
  have hallow : rejectIfConsensusPending t = .ok () := by
    rw [rejectIfConsensusPending_ok]
    by_cases hreq : t.requiredGrades < 2
    · exact Or.inl (Or.inr hreq)
    · exact Or.inr ⟨not_lt.mp (fun hlt => hwait ⟨not_lt.mp hreq, hlt⟩), hadj⟩
  cases hins : db.reviews.insert ⟨g.id, 0, .approve, none, env.now⟩ with
  | none =>
    obtain ⟨v, hv, hclash⟩ := Table.insert_eq_none.mp hins
    exact absurd hclash (db.reviews.get_eq_none.mp hnone v hv)
  | some reviews =>
    obtain ⟨db₁, hpay⟩ := h.pays env hg hnone hbar ht reviews "reviewer"
    -- neither the payout nor the task touches the author
    have hexperts : db₁.experts = db.experts := by
      obtain ⟨_, _, _, rfl⟩ := reviewPayout_ok hpay
      rfl
    have htask : db.tasks.get g.taskId = some t := by
      rw [hgt]
      exact ht
    have hget : db.grades.get g.id = some g := db.grades.get_of_mem hmem
    have hauthor : (record (reviewTask db₁ t .approve "reviewer") "reviewer"
        s!"grade.{ReviewDecision.approve.value}" "grade" g.id.str).experts.get g.expertId =
          some e := by
      rw [← he, ← hexperts]
      unfold reviewTask
      split_ifs <;> rfl
    refine ⟨(calibrationUpdate env (record (reviewTask db₁ t .approve "reviewer") "reviewer"
      s!"grade.{ReviewDecision.approve.value}" "grade" g.id.str) e "reviewer").1,
      ⟨g.id, 0, .approve, none, env.now⟩, ?_⟩
    simp only [review, bind_ok_iff, orFail_ok_iff, require_ok_iff, pure_ok_iff, exists_const]
    refine ⟨g, hget, by rw [hnone]; rfl, t, htask, (), hallow, by simp [Review.storable], reviews,
      hins, db₁, hpay, e, ?_, rfl⟩
    exact hauthor

/-- A candidate of the task can be approved, no other decision changes, no other grade is barred
by it, and the task stays approvable. -/
theorem Approvable.approve (h : Approvable db k) (env : Env) (hg : g ∈ gradesOf db k)
    (hdec : decision db g.id ≠ some .reject) (hbar : ¬ Barred db g) :
    ∃ rs : List Request, Approvable (run step db rs) k ∧
      gradesOf (run step db rs) k = gradesOf db k ∧
      decision (run step db rs) g.id = some .approve ∧
      (∀ x, x ≠ g.id → decision (run step db rs) x = decision db x) ∧
      ∀ x ∈ gradesOf db k, x.id ≠ g.id → Barred (run step db rs) x → Barred db x := by
  cases hrev : db.reviews.get g.id with
  | some v =>
    -- a grade with a verdict needs no request
    refine ⟨[], h, rfl, ?_, fun _ _ => rfl, fun _ _ _ => id⟩
    rw [run_nil]
    rw [decision, hrev, Option.map_some] at hdec ⊢
    cases hd : v.decision with
    | approve => rfl
    | reject => exact absurd (congrArg some hd) hdec
  | none =>
    -- otherwise one approving review decides it, and no other grade
    obtain ⟨db', v, hok⟩ := h.approves env hg hrev hbar
    have hstep : step (approval env g) db = .ok (db', .review v) := by
      show answer .review (review env db 0 ⟨g.id, .approve, none⟩ "reviewer") = _
      rw [hok]
      rfl
    have hrun : run step db [approval env g] = db' := by
      rw [run_cons, run_nil, commit_of_ok step hstep]
    obtain ⟨grade, task, reviews, payouts, experts, changes, events, hget, ht, -, hv, hins, hpay,
      hcal, hdb'⟩ := review_ok hok
    have hgmem := (mem_gradesOf.mp hg).1
    obtain rfl : grade = g := Option.some.inj (hget.symm.trans (db.grades.get_of_mem hgmem))
    obtain ⟨t, ht', hgold, hwait, hadj, hcards⟩ := h.task
    have hgt : grade.taskId = k := (mem_gradesOf.mp hg).2
    rw [hgt] at ht
    obtain rfl : task = t := Option.some.inj (ht.symm.trans ht')
    have hid : task.id = k := Table.get_pk ht
    have hdecide : v.decision = .approve := by rw [hv]
    have hdecs (x : Uuid) :
        decision db' x = if grade.id = x then some .approve else decision db x := by
      have hx := decision_insert hins x
      rw [hv] at hx
      rw [hdb']
      exact hx
    refine ⟨[approval env grade], ?_, ?_, ?_, fun x hx => ?_, fun x hx hne hb => ?_⟩
    · rw [hrun, hdb']
      refine ⟨⟨task.reviewed v.decision, ?_, ?_, ?_, ?_, ?_⟩, ?_, fun x hx => ?_, fun p hp => ?_⟩
      -- the task of the round stays one that can be approved
      · have hrow :=
          db.tasks.get_update task.id (Task.reviewed v.decision) (Task.reviewed_keeps _) k
        rw [if_pos hid, ht] at hrow
        exact hrow
      · rw [hdecide]
        simp [Task.reviewed, hgold, Task.withStatus]
      · rw [hdecide]
        simpa [Task.reviewed, hgold, Task.withStatus, Task.waiting] using hwait
      · rw [hdecide]
        simp [Task.reviewed, hgold, Task.withStatus]
      · rw [hdecide]
        simpa [Task.reviewed, hgold, Task.withStatus] using hcards
      -- its round has no row, and the pick makes none
      · have hrow := db.consensus.get_update task.id (Consensus.afterReview v.decision grade.id
          (repick { db with reviews := reviews } task.id)) (Consensus.afterReview_keeps _ _ _) k
        rw [if_pos hid, h.round] at hrow
        exact hrow
      · obtain ⟨e, he⟩ := h.author x hx
        rcases hcal.get x.expertId with ⟨hnone, _⟩ | ⟨_, e', _, he', _⟩
        · exact absurd (he.symm.trans hnone) (by simp)
        · exact ⟨e', he'⟩
      · rcases hpay.mem hp with hold | hnew
        · exact h.payoutGrade p hold
        · obtain ⟨x, hx, f, expert, rate, _, he, _, _, rfl⟩ := hnew
          obtain rfl := List.mem_singleton.mp hx
          exact ⟨x, hgmem, rfl, hgt.trans hid.symm, (Table.get_pk he).symm⟩
    · rw [hrun, hdb']
      rfl
    · rw [hrun, hdecs, if_pos rfl]
    · rw [hrun, hdecs, if_neg (fun he => hx he.symm)]
    · rw [hrun] at hb
      exact hb.before hstep (mem_gradesOf.mp hx).1 (h.author x hx)
        ((hdecs x.id).trans (if_neg (fun he => hne he.symm)))

end Approvals

/-! ### Exactly the databases that keep one row for each task -/

theorem mergeRateCard_payable (cards : Table RateCard) (card : RateCardIn) {k : Tier × String}
    (hcard : PayableRate card.rateCents)
    (h : k = (card.tier, card.taskType) ∨ ∃ c, cards.get k = some c ∧ PayableRate c.rateCents) :
    ∃ c, (mergeRateCard cards card).get k = some c ∧ PayableRate c.rateCents := by
  unfold mergeRateCard
  -- a new card, or the one that is replaced
  cases hins : cards.insert ⟨card.tier, card.taskType, card.rateCents⟩ with
  | some cards' =>
    have hget := Table.get_insert hins k
    rcases h with rfl | ⟨c, hc, hpay⟩
    · exact ⟨_, hget.trans (if_pos rfl), hcard⟩
    · exact ⟨c, Table.get_insert_of_some hins hc, hpay⟩
  | none =>
    have hget := cards.get_update (card.tier, card.taskType)
      (fun c => { c with rateCents := card.rateCents }) (fun _ => rfl) k
    by_cases hk : k = (card.tier, card.taskType)
    · obtain ⟨c, hc, hclash⟩ := Table.insert_eq_none.mp hins
      have hkey : pk c = k := Eq.trans hclash hk.symm
      have hstored := cards.get_of_mem hc
      rw [hkey] at hstored
      rw [if_pos hk.symm, hstored] at hget
      exact ⟨_, hget, hcard⟩
    · obtain ⟨c, hc, hpay⟩ := h.resolve_left hk
      rw [if_neg (Ne.symm hk), hc] at hget
      exact ⟨c, hget, hpay⟩

/-- A rate for the type of task in every tier. -/
def ratesFor (taskType : String) : List RateCardIn :=
  [⟨.junior, taskType, 100⟩, ⟨.senior, taskType, 100⟩, ⟨.lead, taskType, 100⟩]

theorem ratesFor_get (cards : Table RateCard) (taskType : String) (tier : Tier) :
    ∃ c, ((ratesFor taskType).foldl mergeRateCard cards).get (tier, taskType) = some c ∧
      PayableRate c.rateCents := by
  have hpay : PayableRate 100 := by
    rw [PayableRate, payoutAmount_one (by norm_num)]
    exact ⟨by decide, by decide⟩
  let junior : RateCardIn := ⟨.junior, taskType, 100⟩
  let senior : RateCardIn := ⟨.senior, taskType, 100⟩
  have hjunior := mergeRateCard_payable cards junior hpay (Or.inl rfl)
  have hsenior := mergeRateCard_payable (mergeRateCard cards junior) senior hpay (Or.inl rfl)
  cases tier with
  | junior =>
    have hkept := mergeRateCard_payable (mergeRateCard cards junior) senior hpay (Or.inr hjunior)
    exact mergeRateCard_payable _ ⟨.lead, taskType, 100⟩ hpay (Or.inr hkept)
  | senior => exact mergeRateCard_payable _ ⟨.lead, taskType, 100⟩ hpay (Or.inr hsenior)
  | lead => exact mergeRateCard_payable _ ⟨.lead, taskType, 100⟩ hpay (Or.inl rfl)

/-- Rows of one task do not repeat only if one grade of it is exportable. -/
theorem unique_of_nodup {db : Db} (h : (exportedTasks db).Nodup) {t : Task} (ht : t ∈ db.tasks)
    {g g' : Grade} (hg : Exportable db t g) (hg' : Exportable db t g') : g = g' := by
  have hrow {x : Grade} (hx : Exportable db t x) :
      (⟨x, t, db.consensus.get t.id⟩ : Delivered) ∈ deliveredRows db := by
    obtain ⟨hmem, htask⟩ := mem_gradesOf.mp hx.mem
    refine mem_deliveredRows.mpr ⟨x, hmem, ?_⟩
    refine deliveredRow_eq_some.mpr ⟨hx.approved, ?_, hx.regular, hx.picked, rfl⟩
    rw [htask]
    exact db.tasks.get_of_mem ht
  have hsame := List.inj_on_of_nodup_map h (hrow hg) (hrow hg') rfl
  exact congrArg Delivered.grade hsame

section Legacies
variable {old : Db} {t : Task}

theorem Legacy.upgraded (h : Legacy old)
    (hone : ∀ t ∈ old.tasks, t.isAttentionCheck = false → OneCandidate old (Barred old) t) :
    Upgraded (Barred old) (upgrade old) where
  gradeTask := h.gradeTask
  reviewGrade := h.reviewGrade
  roundTask c hc := absurd hc (Table.not_mem_empty c)
  candidate t ht hgold _ := (hone t ht hgold).congr rfl rfl (fun _ _ => rfl) id

theorem Barred.upgrade {g : Grade} (h : Barred old g) : Barred (Panelist.upgrade old) g :=
  ⟨h.stored, h.ownRate, h.unapproved, h.unpaid⟩

/-- A task that does not wait for grades is approvable once every tier has a rate. -/
theorem Legacy.approvable (h : Legacy old) (ht : t ∈ old.tasks) (hgold : t.isAttentionCheck = false)
    (hwait : ¬ t.waiting) (env : Env) :
    ∃ rs : List Request, Approvable (run step (upgrade old) rs) t.id ∧
      gradesOf (run step (upgrade old) rs) t.id = gradesOf old t.id ∧
      (∀ x, decision (run step (upgrade old) rs) x = decision old x) ∧
      ∀ x ∈ gradesOf old t.id, Barred (run step (upgrade old) rs) x → Barred old x := by
  -- one request: rate cards for every tier and this type of task
  have hok : ∃ db', putRateCards (upgrade old) (ratesFor t.taskType) "admin" = .ok (db', ()) := by
    simp only [putRateCards, bind_ok_iff, require_ok_iff, pure_ok_iff, exists_const]
    exact ⟨_, by simp [ratesFor], by simp [ratesFor, storableInt], rfl⟩
  obtain ⟨db', hok⟩ := hok
  have hstep : step ⟨env, .putRateCards (ratesFor t.taskType) "admin"⟩ (upgrade old) =
      .ok (db', .done) := by
    show answer (fun _ => .done) (putRateCards (upgrade old) (ratesFor t.taskType) "admin") = _
    rw [hok]
    rfl
  have hrun :
      run step (upgrade old) [⟨env, .putRateCards (ratesFor t.taskType) "admin"⟩] = db' := by
    rw [run_cons, run_nil, commit_of_ok step hstep]
  obtain ⟨events, hdb'⟩ := putRateCards_ok hok
  have hauthor : ∀ g ∈ old.grades, ∃ e, old.experts.get g.expertId = some e := by
    intro g hg
    obtain ⟨e, he, heid⟩ := h.gradeExpert g hg
    exact ⟨e, old.experts.get_eq_some.mpr ⟨he, heid⟩⟩
  refine ⟨[⟨env, .putRateCards (ratesFor t.taskType) "admin"⟩], ?_, ?_, ?_, fun x hx hb => ?_⟩
  · rw [hrun, hdb']
    exact {
      task := ⟨t, old.tasks.get_of_mem ht, hgold, hwait, h.status t ht,
        ratesFor_get old.rateCards t.taskType⟩
      round := rfl
      author := fun g hg => hauthor g (mem_gradesOf.mp hg).1
      payoutGrade := h.payoutGrade }
  · rw [hrun, hdb']
    rfl
  · rw [hrun, hdb']
    exact fun _ => rfl
  · rw [hrun] at hb
    have hmem := (mem_gradesOf.mp hx).1
    have hbefore : Barred (upgrade old) x :=
      hb.before hstep hmem (hauthor x hmem) (by rw [hdb']; rfl)
    exact ⟨hbefore.stored, hbefore.ownRate, hbefore.unapproved, hbefore.unpaid⟩

/-- Two candidates of a task that does not wait can both be approved, and are exported. -/
theorem Legacy.two_rows (h : Legacy old) (ht : t ∈ old.tasks) (hgold : t.isAttentionCheck = false)
    (hno : ¬ OneCandidate old (Barred old) t) :
    ∃ rs : List Request, ¬ (exportedTasks (run step (upgrade old) rs)).Nodup := by
  obtain ⟨hmany, hwait⟩ := not_or.mp hno
  by_cases happ : AtMostOneApproved old t.id
  · have hwait : ¬ t.waiting := fun hw => hwait ⟨hw, happ⟩
    simp only [AtMostOneCandidate, AtMostOne, not_forall] at hmany
    obtain ⟨a, ha, b, hb, ⟨hda, hfree⟩, ⟨hdb, hfree'⟩, hne⟩ := hmany
    obtain ⟨rs₀, h₀, hg₀, hd₀, hbar₀⟩ := h.approvable ht hgold hwait (Scenario.env 0)
    -- approve one, then the other
    obtain ⟨rs₁, h₁, hg₁, ha₁, hd₁, hbar₁⟩ := h₀.approve (Scenario.env 1) (hg₀ ▸ ha)
      (by rw [hd₀]; exact hda) (fun hbar => hfree (hbar₀ a ha hbar))
    have hid : b.id ≠ a.id := fun he =>
      hne (old.grades.eq_of_pk (mem_gradesOf.mp ha).1 (mem_gradesOf.mp hb).1 he.symm)
    obtain ⟨rs₂, h₂, hg₂, hb₂, hd₂, -⟩ := h₁.approve (Scenario.env 2) (hg₁ ▸ hg₀ ▸ hb)
      (by rw [hd₁ b.id hid, hd₀]; exact hdb)
      (fun hbar => hfree' (hbar₀ b hb (hbar₁ b (hg₀ ▸ hb) hid hbar)))
    refine ⟨rs₀ ++ (rs₁ ++ rs₂), ?_⟩
    rw [run_append, run_append]
    intro hnodup
    obtain ⟨t', ht', hgold', -⟩ := h₂.task
    have hid' : t'.id = t.id := Table.get_pk ht'
    have hexp {x : Grade} (hx : x ∈ gradesOf old t.id)
        (hdx : decision (run step (run step (run step (upgrade old) rs₀) rs₁) rs₂) x.id =
          some .approve) :
        Exportable (run step (run step (run step (upgrade old) rs₀) rs₁) rs₂) t' x := by
      refine ⟨hgold', ?_, hdx, fun c hc => ?_⟩
      · rw [hid', hg₂, hg₁, hg₀]
        exact hx
      · rw [hid', h₂.round] at hc
        exact absurd hc (by simp)
    refine hne (unique_of_nodup hnodup (Table.get_mem ht') (hexp ha ?_) (hexp hb hb₂))
    rw [hd₂ a.id hid.symm, ha₁]
  · refine ⟨[], fun hnodup => happ (fun a ha b hb hda hdb => ?_)⟩
    have hexp {x : Grade} (hx : x ∈ gradesOf old t.id) (hdx : decision old x.id = some .approve) :
        Exportable (upgrade old) t x :=
      ⟨hgold, hx, hdx, fun c hc => absurd (Table.get_mem hc) (Table.not_mem_empty c)⟩
    exact @unique_of_nodup (upgrade old) hnodup t ht _ _ (hexp ha hda) (hexp hb hdb)

/-- After the upgrade every sequence of operations exports at most one row for each task
exactly when every regular task of the 3.0.0 database has one candidate. -/
theorem oneRow_after_upgrade_iff (old : Db) (h : Legacy old) :
    (∀ rs : List Request, (exportedTasks (run step (upgrade old) rs)).Nodup) ↔
      ∀ t ∈ old.tasks, t.isAttentionCheck = false → OneCandidate old (Barred old) t := by
  constructor
  · intro hall t ht hgold
    by_contra hno
    obtain ⟨rs, hrs⟩ := h.two_rows ht hgold hno
    exact hrs (hall rs)
  · intro hone rs
    obtain ⟨hup, hbar⟩ := (h.upgraded hone).run (fun _ hb => hb.upgrade) rs
    exact exportedTasks_nodup_of_unique
      (fun t ht g g' hg hg' => hup.exportable_unique hbar ht hg hg')

/-- What a run reached, its rounds forgotten, is a 3.0.0 database if nothing is disputed. -/
theorem legacy_after (rs : List Request) (h : ∀ t ∈ (after rs).tasks, t.status ≠ .adjudication) :
    Legacy (after rs) where
  status := h
  gradeTask := (Consistent.after rs).gradeTask
  gradeExpert g hg := by
    obtain ⟨e, he⟩ := ((Linked.after rs).grades g hg).expert
    exact ⟨e, Table.get_mem he, Table.get_pk he⟩
  reviewGrade := (Consistent.after rs).reviewGrade
  payoutGrade p hp := by
    obtain ⟨g, hg, hexp, htask⟩ := ((Linked.after rs).payouts p hp).grade
    exact ⟨g, Table.get_mem hg, Table.get_pk hg, htask.symm, hexp.symm⟩

end Legacies

namespace Scenario

/-- Task 500 has both of its grades, which are unreviewed, when the upgrade comes. -/
def complete : Db := after (pair 4 5)

end Scenario

open Scenario in
theorem complete_legacy : Legacy complete := by
  have hall : complete.tasks.rows.all (fun t => t.status ≠ .adjudication) = true := by
    decide +kernel
  exact legacy_after _ (fun t ht => by simpa using List.all_eq_true.mp hall t ht)

open Scenario in
/-- Both grades are approved after the upgrade and exported. -/
theorem upgrade_exports_twice : Legacy complete ∧
    exportedTasks (run step (upgrade complete) (reviews [(700, .approve), (900, .approve)])) =
      [500, 500] ∧
    ¬ ∀ rs : List Request, (exportedTasks (run step (upgrade complete) rs)).Nodup := by
  have hrows : exportedTasks (run step (upgrade complete)
      (reviews [(700, .approve), (900, .approve)])) = [500, 500] := by decide +kernel
  refine ⟨complete_legacy, hrows, fun hall => ?_⟩
  have hnodup := hall (reviews [(700, .approve), (900, .approve)])
  rw [hrows] at hnodup
  exact absurd hnodup (by decide)

open Scenario in
theorem oneRow_after_upgrade_iff_complete : Legacy complete ∧
    ((∀ rs : List Request, (exportedTasks (run step (upgrade complete) rs)).Nodup) ↔
      ∀ t ∈ complete.tasks, t.isAttentionCheck = false →
        OneCandidate complete (Barred complete) t) :=
  ⟨complete_legacy, oneRow_after_upgrade_iff complete complete_legacy⟩

end Panelist
