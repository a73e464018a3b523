import Panelist.ReviewOrder

/-! The attention guard and the transactions that pay the same expert. A payer decides the
status of a new payout on the expert as it was loaded; the guard withholds the payouts its
UPDATE finds. A payout that is decided before the pause and stored after the UPDATE stays
pending. -/
namespace Panelist
open Relational ReadCommitted ReadCommitted.Prog

inductive PayCall where
  | submit (env : Env) (expertId : Uuid) (body : GradeCreate)
  | review (env : Env) (keyId : Uuid) (body : ReviewCreate) (actor : String)
  | resolve (env : Env) (taskId deliveredGradeId : Uuid) (reason : String) (keyId : Uuid)
      (actor : String)

/-- The calls as transactions, answering whether the guard paused the expert. -/
def paying : PayCall → Session Bool
  | .submit env expertId body => do
    let submission ← Session.submit env expertId body
    pure submission.paused
  | .review env keyId body actor => do
    let _ ← Session.review env keyId body actor
    pure false
  | .resolve env taskId deliveredGradeId reason keyId actor => do
    let _ ← Session.resolve env taskId deliveredGradeId reason keyId actor
    pure false

abbrev PayEntry := Entry Db Bool PayCall

/-- How many transactions had committed when the experts were loaded that a payer pays. -/
def expertsLoadedAt (e : PayEntry) : ℕ :=
  match e.call with
  | .submit .. => e.clock.getD 0 0
  | .review .. => e.clock.getD 1 0
  | .resolve .. => e.clock.getD 2 0

/-- How many transactions had committed when the guard's UPDATE looked for payouts. -/
def withheldAt (e : PayEntry) : ℕ := e.clock.getD 3 0

/-- A submission that paused its author. -/
def Guards (expertId : Uuid) (e : PayEntry) : Prop :=
  e.answer = true ∧ ∃ env body, e.call = .submit env expertId body

def expertStatus (db : Db) (expertId : Uuid) : Option ExpertStatus :=
  (db.experts.get expertId).map Expert.status

def PausedUnpaid (db : Db) (expertId : Uuid) : Prop :=
  expertStatus db expertId = some .paused →
    ∀ p ∈ db.payouts, p.expertId = expertId → p.status ≠ .pending

/-- A stored payout of the expert is pending. -/
def pendingOf (expertId : Uuid) (db : Db) (gradeId : Uuid) : Bool :=
  (db.payouts.get gradeId).any (Payout.ofExpert expertId .pending)

/-- Payouts may have been added, with the status that goes with an expert of `loaded`. -/
def Pays (loaded db db' : Db) : Prop :=
  (∀ k, expertStatus db' k = expertStatus db k) ∧
  ∀ g, db'.payouts.get g = db.payouts.get g ∨ db.payouts.get g = none ∧
    ∃ p expert, db'.payouts.get g = some p ∧ loaded.experts.get p.expertId = some expert ∧
      p.status = expert.payoutStatus

/-- The expert is paused, and of the pending payouts those in `snapshot` are withheld. -/
def Withholds (expertId : Uuid) (snapshot db db' : Db) : Prop :=
  (∀ k, expertStatus db' k = if k = expertId then some .paused else expertStatus db k) ∧
  ∀ g, db'.payouts.get g = (db.payouts.get g).map (fun p =>
    if p.ofExpert expertId .pending && pendingOf expertId snapshot g then p.withhold else p)

structure PayLaw (base : Db) (past : List PayEntry) (e : PayEntry) : Prop where
  loaded : expertsLoadedAt e ≤ past.length
  active : ∀ k, Guards k e → expertStatus (storeAt base past (expertsLoadedAt e)) k ≠ some .paused
  step : e.answer = false ∧ Pays (storeAt base past (expertsLoadedAt e)) e.before e.after ∨
    withheldAt e ≤ past.length ∧ ∃ expertId, Guards expertId e ∧
      Withholds expertId (storeAt base past (withheldAt e)) e.before e.after

/-! ### Runs of payers and guards -/

/-- A payout stays with its expert and never becomes pending again. -/
def Payout.Settles (p p' : Payout) : Prop :=
  p'.expertId = p.expertId ∧ (p'.status = .pending → p.status = .pending)

theorem Payout.Settles.refl (p : Payout) : p.Settles p := ⟨rfl, fun h => h⟩

theorem Payout.Settles.trans {a b c : Payout} (h : a.Settles b) (h' : b.Settles c) : a.Settles c :=
  ⟨h'.1.trans h.1, fun hc => h.2 (h'.2 hc)⟩

theorem Payout.ofExpert_iff {expertId : Uuid} {status : PayoutStatus} {p : Payout} :
    p.ofExpert expertId status = true ↔ p.expertId = expertId ∧ p.status = status := by
  simp [Payout.ofExpert]

theorem pendingOf_iff {expertId g : Uuid} {db : Db} : pendingOf expertId db g = true ↔
    ∃ p, db.payouts.get g = some p ∧ p.expertId = expertId ∧ p.status = .pending := by
  simp only [pendingOf, Option.any_eq_true, Payout.ofExpert_iff]

section Run
variable {base : Db} {past log : List PayEntry} {e : PayEntry} {x g : Uuid}

theorem PayLaw.settles (h : PayLaw base past e) :
    Table.Evolves Payout.Settles e.before.payouts e.after.payouts := by
  intro g p hp
  rcases h.step with ⟨_, _, hpays⟩ | ⟨_, _, _, _, hwith⟩
  · rcases hpays g with hsame | ⟨hnone, _⟩
    · exact ⟨p, hsame.trans hp, Payout.Settles.refl p⟩
    · exact absurd (hp.symm.trans hnone) (by simp)
  · refine ⟨_, (hwith g).trans (by rw [hp]; rfl), ?_⟩
    dsimp only
    split_ifs
    · exact ⟨rfl, fun hw => absurd hw (by simp [Payout.withhold])⟩
    · exact Payout.Settles.refl p

theorem payouts_settle (h : Lawful (PayLaw base) base log) (hle : past <+: log) :
    Table.Evolves Payout.Settles (now base past).payouts (now base log).payouts := by
  apply h.stretch (R := fun db db' => Table.Evolves Payout.Settles db.payouts db'.payouts) hle
  · exact fun db => Table.Evolves.refl Payout.Settles.refl db.payouts
  · exact fun hab hbc => hab.trans Payout.Settles.trans hbc
  · exact fun _ _ _ hlaw => hlaw.settles

/-- What is pending now was pending before, if it was there. -/
theorem pending_before (h : Lawful (PayLaw base) base log) (hle : past <+: log)
    (hnow : pendingOf x (now base log) g = true) (hthere : (now base past).payouts.get g ≠ none) :
    pendingOf x (now base past) g = true := by
  obtain ⟨p, hp⟩ := Option.ne_none_iff_exists'.mp hthere
  obtain ⟨p', hp', hx, hs⟩ := pendingOf_iff.mp hnow
  obtain ⟨q, hq, hsettles⟩ := payouts_settle h hle g p hp
  obtain rfl := Option.some.inj (hp'.symm.trans hq)
  exact pendingOf_iff.mpr ⟨p, hp, hsettles.1.symm.trans hx, hsettles.2 hs⟩

/-- Nobody is set active again. -/
theorem paused_stays (h : Lawful (PayLaw base) base log) (hle : past <+: log)
    (hp : expertStatus (now base past) x = some .paused) :
    expertStatus (now base log) x = some .paused := by
  revert hp
  apply h.stretch (R := fun db db' => expertStatus db x = some .paused →
    expertStatus db' x = some .paused) hle
  · exact fun _ hp => hp
  · exact fun hab hbc hp => hbc (hab hp)
  · intro _ e _ hlaw hp
    rcases hlaw.step with ⟨_, hst, _⟩ | ⟨_, k, _, hst, _⟩
    · rw [hst, hp]
    · rw [hst]
      split_ifs
      · rfl
      · exact hp

/-- Only a guard pauses an expert. -/
theorem exists_guard (h : Lawful (PayLaw base) base log)
    (hbase : expertStatus base x ≠ some .paused)
    (hnow : expertStatus (now base log) x = some .paused) :
    ∃ q d, q ++ [d] <+: log ∧ Guards x d := by
  -- over the log; the guard is the entry at which the status changes
  induction log using List.reverseRecOn with
  | nil => exact absurd hnow hbase
  | append_singleton past e ih =>
    obtain ⟨hpast, hbefore, hlaw⟩ := Lawful.concat.mp h
    by_cases hp : expertStatus (now base past) x = some .paused
    · obtain ⟨q, d, hq, hd⟩ := ih hpast hp
      exact ⟨q, d, hq.trans (List.prefix_append past [e]), hd⟩
    · refine ⟨past, e, List.prefix_refl _, ?_⟩
      rw [now_concat] at hnow
      rw [← hbefore] at hp
      rcases hlaw.step with ⟨_, hst, _⟩ | ⟨_, k, hguard, hst, _⟩
      · exact absurd ((hst x).symm.trans hnow) hp
      · rw [hst] at hnow
        by_cases hk : x = k
        · exact hk ▸ hguard
        · rw [if_neg hk] at hnow
          exact absurd hnow hp

/-- A guard that committed paused its expert. -/
theorem paused_of_guard (h : Lawful (PayLaw base) base log) {q : List PayEntry} {d : PayEntry}
    (hq : q ++ [d] <+: log) (hd : Guards x d) : expertStatus (now base log) x = some .paused := by
  apply paused_stays h hq
  obtain ⟨_, _, hlaw⟩ := Lawful.concat.mp (h.of_prefix hq)
  rw [now_concat]
  rcases hlaw.step with ⟨hno, _⟩ | ⟨_, k, hguard, hst, _⟩
  · exact absurd (hd.1.symm.trans hno) (by simp)
  · obtain ⟨_, _, hc⟩ := hd.2
    obtain ⟨_, _, hc'⟩ := hguard.2
    rw [hc] at hc'
    injection hc' with _ hk _
    rw [hst, if_pos hk]

/-- `e` stores a payout of the expert in the row `g`, decided on a status that was not
paused. -/
def PaysActive (base : Db) (x : Uuid) (past : List PayEntry) (e : PayEntry) (g : Uuid) : Prop :=
  e.before.payouts.get g = none ∧ (e.after.payouts.get g).any (fun p => p.expertId = x) = true ∧
    expertStatus (storeAt base past (expertsLoadedAt e)) x ≠ some .paused

/-- A payout stored by `PaysActive` is pending. -/
theorem PaysActive.pending (hlaw : PayLaw base past e) (h : PaysActive base x past e g) :
    e.answer = false ∧ pendingOf x e.after g = true := by
  obtain ⟨hnone, hany, hst⟩ := h
  obtain ⟨p, hp, hx⟩ := (Option.any_eq_true _ _).mp hany
  have hx : p.expertId = x := of_decide_eq_true hx
  rcases hlaw.step with ⟨hno, _, hpays⟩ | ⟨_, _, _, _, hwith⟩
  · refine ⟨hno, pendingOf_iff.mpr ⟨p, hp, hx, ?_⟩⟩
    rcases hpays g with hsame | ⟨_, p', expert, hp', hexpert, hstatus⟩
    · exact absurd (hp.symm.trans (hsame.trans hnone)) (by simp)
    · obtain rfl := Option.some.inj (hp.symm.trans hp')
      rw [hstatus, Expert.payoutStatus, if_neg]
      intro hpaused
      exact hst (by rw [expertStatus, ← hx, hexpert, Option.map_some, hpaused])
  · rw [hwith g, hnone] at hp
    exact absurd hp (by simp)

/-- A guard leaves what it did not see pending, and withholds what it saw. -/
theorem pending_after_guard {k : Uuid} {snapshot db db' : Db} (h : Withholds k snapshot db db') :
    pendingOf x db' g = true ↔
      pendingOf x db g = true ∧ (k = x → pendingOf x snapshot g = false) := by
  have hrow := h.2 g
  cases hp : db.payouts.get g with
  | none =>
    rw [hp] at hrow
    simp [pendingOf, hrow, hp]
  | some p =>
    rw [hp, Option.map_some] at hrow
    have hafter : pendingOf x db' g = Payout.ofExpert x .pending
        (if p.ofExpert k .pending && pendingOf k snapshot g then p.withhold else p) := by
      rw [pendingOf, hrow]
      rfl
    have hbefore : pendingOf x db g = p.ofExpert x .pending := by
      rw [pendingOf, hp]
      rfl
    rw [hafter, hbefore]
    -- withheld by the guard, or not covered by its snapshot
    by_cases hcover : (p.ofExpert k .pending && pendingOf k snapshot g) = true
    · rw [if_pos hcover]
      obtain ⟨hpk, hsnap⟩ := (Bool.and_eq_true _ _).mp hcover
      have hwithheld : p.withhold.ofExpert x .pending = false := by
        simp [Payout.ofExpert, Payout.withhold]
      rw [hwithheld]
      refine ⟨fun hf => absurd hf (by simp), fun ⟨hpx, hno⟩ => ?_⟩
      have hkx : k = x := (Payout.ofExpert_iff.mp hpk).1.symm.trans (Payout.ofExpert_iff.mp hpx).1
      rw [← hkx, hsnap] at hno
      exact absurd (hno rfl) (by simp)
    · rw [if_neg hcover]
      refine ⟨fun hpx => ⟨hpx, fun hkx => ?_⟩, fun hpx => hpx.1⟩
      subst hkx
      rw [hpx, Bool.true_and, Bool.not_eq_true] at hcover
      exact hcover

/-- Where a pending payout comes from: it was there at the start and no guard committed, or
it was stored by a payer, and every guard looked before that. -/
theorem pending_source (h : Lawful (PayLaw base) base log)
    (hnow : pendingOf x (now base log) g = true) :
    (pendingOf x base g = true ∧ ∀ q d, q ++ [d] <+: log → ¬ Guards x d) ∨
    ∃ past e, past ++ [e] <+: log ∧ PaysActive base x past e g ∧
      ∀ q d, q ++ [d] <+: log → Guards x d → withheldAt d ≤ past.length := by
  induction log using List.reverseRecOn with
  | nil => exact Or.inl ⟨hnow, fun q d hq => absurd (List.prefix_nil.mp hq) (by simp)⟩
  | append_singleton log e ih =>
    obtain ⟨hlog, hbefore, hlaw⟩ := Lawful.concat.mp h
    -- an entry of the longer history is one of the shorter or `e`
    have hsplit : ∀ q d, q ++ [d] <+: log ++ [e] → q ++ [d] <+: log ∨ q = log ∧ d = e := by
      intro q d hq
      rcases List.prefix_concat_iff.mp hq with heq | hq
      · obtain ⟨rfl, hd⟩ := List.append_inj' heq rfl
        exact Or.inr ⟨rfl, List.singleton_inj.mp hd⟩
      · exact Or.inl hq
    rw [now_concat] at hnow
    -- `e` pauses nobody and may pay, or it pauses and pays nothing
    rcases hlaw.step with ⟨hno, hst, hpays⟩ | ⟨hseen, k, hguard, hwith⟩
    · have hnoguard : ¬ Guards x e := fun hg => absurd (hg.1.symm.trans hno) (by simp)
      -- the payout is as before, or `e` has made it
      rcases hpays g with hsame | ⟨hnone, p, expert, hp, hexpert, hstatus⟩
      · have hp : pendingOf x (now base log) g = true := by
          rw [← hbefore, pendingOf, ← hsame]
          exact hnow
        rcases ih hlog hp with ⟨hb, hall⟩ | ⟨past, d, hd, hpays, hall⟩
        · refine Or.inl ⟨hb, fun q d hq => ?_⟩
          rcases hsplit q d hq with hq | ⟨_, rfl⟩
          · exact hall q d hq
          · exact hnoguard
        · refine Or.inr ⟨past, d, hd.trans (List.prefix_append log [e]), hpays, fun q d hq hg => ?_⟩
          rcases hsplit q d hq with hq | ⟨_, rfl⟩
          · exact hall q d hq hg
          · exact absurd hg hnoguard
      · obtain ⟨p', hp', hx, hs⟩ := pendingOf_iff.mp hnow
        obtain rfl := Option.some.inj (hp.symm.trans hp')
        refine Or.inr ⟨log, e, List.prefix_refl _, ⟨hnone, ?_, ?_⟩, fun q d hq hg => ?_⟩
        · rw [hp]
          exact decide_eq_true hx
        · rw [expertStatus, ← hx, hexpert, Option.map_some]
          intro hpaused
          rw [hstatus, Expert.payoutStatus, if_pos (Option.some.inj hpaused)] at hs
          exact absurd hs (by decide)
        · rcases hsplit q d hq with hq | ⟨_, rfl⟩
          · obtain ⟨_, _, hd⟩ := Lawful.concat.mp (hlog.of_prefix hq)
            have hlen := hq.length_le
            rw [List.length_append] at hlen
            rcases hd.step with ⟨hdno, _⟩ | ⟨hseen, _⟩
            · exact absurd (hg.1.symm.trans hdno) (by simp)
            · omega
          · exact absurd hg hnoguard
    · obtain ⟨hp, hunseen⟩ := (pending_after_guard hwith).mp hnow
      rw [hbefore] at hp
      have hpre := List.take_prefix (withheldAt e) log
      -- a row that was there when the guard looked was pending then, and is withheld now
      have hmissed : k = x → (storeAt base log (withheldAt e)).payouts.get g = none := by
        intro hk
        by_contra hthere
        have hseen := pending_before hlog hpre hp hthere
        exact absurd ((hunseen hk).symm.trans hseen) (by simp)
      have hkguard : Guards x e → k = x := by
        intro hg
        obtain ⟨_, _, hc⟩ := hg.2
        obtain ⟨_, _, hc'⟩ := hguard.2
        rw [hc] at hc'
        injection hc' with _ hk _
        exact hk.symm
      rcases ih hlog hp with ⟨hb, hall⟩ | ⟨past, d, hd, hpays, hall⟩
      · refine Or.inl ⟨hb, fun q d hq => ?_⟩
        rcases hsplit q d hq with hq | ⟨_, rfl⟩
        · exact hall q d hq
        · intro hg
          obtain ⟨p, hp, _⟩ := pendingOf_iff.mp hb
          obtain ⟨p', hp', _⟩ := payouts_settle (hlog.of_prefix hpre) List.nil_prefix g p hp
          exact absurd ((hmissed (hkguard hg)).symm.trans hp') (by simp)
      · refine Or.inr ⟨past, d, hd.trans (List.prefix_append log [e]), hpays, fun q d' hq hg => ?_⟩
        rcases hsplit q d' hq with hq | ⟨_, rfl⟩
        · exact hall q d' hq hg
        · by_contra hlate
          have hd' : past ++ [d] <+: log.take (withheldAt d') := by
            refine List.prefix_of_prefix_length_le hd hpre ?_
            rw [List.length_append, List.length_take, List.length_singleton]
            omega
          obtain ⟨_, _, hdlaw⟩ := Lawful.concat.mp (hlog.of_prefix hd)
          obtain ⟨p, hp, _⟩ := pendingOf_iff.mp (hpays.pending hdlaw).2
          rw [← now_concat base past d] at hp
          obtain ⟨p', hp', _⟩ := payouts_settle (hlog.of_prefix hpre) hd' g p hp
          exact absurd ((hmissed (hkguard hg)).symm.trans hp') (by simp)

/-- A pending payout no guard sees stays pending. -/
theorem pending_stays (h : Lawful (PayLaw base) base log) (hle : past <+: log)
    (hp : pendingOf x (now base past) g = true)
    (hunseen : ∀ q d, q ++ [d] <+: log → Guards x d →
      pendingOf x (storeAt base q (withheldAt d)) g = false) :
    pendingOf x (now base log) g = true := by
  obtain ⟨later, rfl⟩ := hle
  induction later using List.reverseRecOn with
  | nil => rwa [List.append_nil]
  | append_singleton later e ih =>
    rw [← List.append_assoc] at h hunseen ⊢
    obtain ⟨hlog, hbefore, hlaw⟩ := Lawful.concat.mp h
    have hp' := ih hlog (fun q d hq => hunseen q d (hq.trans (List.prefix_append _ [e])))
    rw [← hbefore] at hp'
    rw [now_concat]
    -- a paying request writes new rows only; a guard writes what it sees
    rcases hlaw.step with ⟨_, _, hpays⟩ | ⟨_, k, hguard, hwith⟩
    · rcases hpays g with hsame | ⟨hnone, _⟩
      · rw [pendingOf, hsame]
        exact hp'
      · rw [pendingOf, hnone] at hp'
        exact absurd hp' (by simp)
    · refine (pending_after_guard hwith).mpr ⟨hp', ?_⟩
      rintro rfl
      exact hunseen _ e (List.prefix_refl _) hguard

/-- A row stored after the guard looked is not in what it saw. -/
theorem unseen_of_later (h : Lawful (PayLaw base) base log) (hle : past ++ [e] <+: log)
    (hnone : e.before.payouts.get g = none) {q : List PayEntry} {d : PayEntry}
    (hq : q ++ [d] <+: log) (hlen : withheldAt d ≤ past.length) :
    pendingOf x (storeAt base q (withheldAt d)) g = false := by
  have hpast := (List.prefix_append past [e]).trans hle
  have hsnap : q.take (withheldAt d) <+: past := by
    refine List.prefix_of_prefix_length_le
      ((List.take_prefix _ q).trans ((List.prefix_append q [d]).trans hq)) hpast ?_
    rw [List.length_take]
    omega
  obtain ⟨_, hbefore, _⟩ := Lawful.concat.mp (h.of_prefix hle)
  rw [← Bool.not_eq_true]
  intro hp
  obtain ⟨p, hp, _⟩ := pendingOf_iff.mp hp
  obtain ⟨p', hp', _⟩ := payouts_settle (h.of_prefix hpast) hsnap g p hp
  rw [hbefore] at hnone
  exact absurd (hnone.symm.trans hp') (by simp)

/-- Nobody guards an expert who was paused from the start. -/
theorem not_guards (h : Lawful (PayLaw base) base log) (hbase : expertStatus base x = some .paused)
    {q : List PayEntry} {d : PayEntry} (hq : q ++ [d] <+: log) : ¬ Guards x d := by
  intro hd
  obtain ⟨hpast, _, hlaw⟩ := Lawful.concat.mp (h.of_prefix hq)
  have hloaded := List.take_prefix (expertsLoadedAt d) q
  exact hlaw.active x hd (paused_stays (hpast.of_prefix hloaded) List.nil_prefix hbase)

/-- A paused expert has no pending payout at the end exactly when that was so at the start
and some guard looked after each payout that was decided on a status before the pause. -/
theorem pausedUnpaid_lawful (h : Lawful (PayLaw base) base log) :
    PausedUnpaid (now base log) x ↔ PausedUnpaid base x ∧
      ∀ past e g, past ++ [e] <+: log → PaysActive base x past e g →
        (∃ q d, q ++ [d] <+: log ∧ Guards x d) →
        ∃ q d, q ++ [d] <+: log ∧ Guards x d ∧ past.length < withheldAt d := by
  constructor
  · intro hend
    -- from the end to the condition: what was pending at the pause stays pending
    refine ⟨fun hpaused p hp hx hs => ?_, ?_⟩
    · have hpending : pendingOf x base (pk p) = true :=
        pendingOf_iff.mpr ⟨p, Table.get_of_mem _ hp, hx, hs⟩
      have hlast := pending_stays h List.nil_prefix hpending
        (fun q d hq hd => absurd hd (not_guards h hpaused hq))
      obtain ⟨p', hp', hx', hs'⟩ := pendingOf_iff.mp hlast
      exact hend (paused_stays h List.nil_prefix hpaused) p' (Table.get_mem hp') hx' hs'
    rintro past e g hle hpays ⟨q, d, hq, hd⟩
    -- a payment whose payer loaded the expert after no guard stays pending as well
    by_contra hlate
    push Not at hlate
    obtain ⟨_, _, hlaw⟩ := Lawful.concat.mp (h.of_prefix hle)
    have hstored : pendingOf x (now base (past ++ [e])) g = true := by
      rw [now_concat]
      exact (hpays.pending hlaw).2
    have hpending := pending_stays h hle hstored (fun q d hq hg =>
      unseen_of_later h hle hpays.1 hq (hlate q d hq hg))
    obtain ⟨p, hp, hx, hs⟩ := pendingOf_iff.mp hpending
    exact hend (paused_of_guard h hq hd) p (Table.get_mem hp) hx hs
  · rintro ⟨hbase, hcond⟩ hpaused p hp hx hs
    have hpending : pendingOf x (now base log) (pk p) = true :=
      pendingOf_iff.mpr ⟨p, Table.get_of_mem _ hp, hx, hs⟩
    -- back: a pending payout was there at the start or some call paid it
    have hguard : expertStatus base x ≠ some .paused → ∃ q d, q ++ [d] <+: log ∧ Guards x d :=
      fun hb => exists_guard h hb hpaused
    rcases pending_source h hpending with ⟨hb, hno⟩ | ⟨past, e, hle, hpays, hall⟩
    · by_cases hbp : expertStatus base x = some .paused
      · obtain ⟨p₀, hp₀, hx₀, hs₀⟩ := pendingOf_iff.mp hb
        exact hbase hbp p₀ (Table.get_mem hp₀) hx₀ hs₀
      · obtain ⟨q, d, hq, hd⟩ := hguard hbp
        exact hno q d hq hd
    · -- the payer loaded the expert before the pause, so there was one
      have hbp : expertStatus base x ≠ some .paused := by
        intro hbp
        have hpast := (List.prefix_append past [e]).trans hle
        exact hpays.2.2 (paused_stays (h.of_prefix ((List.take_prefix _ past).trans hpast))
          List.nil_prefix hbp)
      obtain ⟨q, d, hq, hd, hlen⟩ := hcond past e _ hle hpays (hguard hbp)
      exact absurd (hall q d hq hd) (by omega)

end Run

/-! ### The transactions -/

/-- The statuses of the experts and the payouts. -/
def payView (db : Db) : (Uuid → Option ExpertStatus) × Table Payout :=
  (expertStatus db, db.payouts)

def samePay : Setoid Db := Setoid.ker payView

/-- What a lock on an expert or a payout protects. -/
def payRows : Lock → Setoid Db
  | .expert id => Setoid.ker (fun db => expertStatus db id)
  | .payout g => Setoid.ker (fun db => db.payouts.get g)
  | _ => ⊤

theorem payRows_of_same (row : Lock) (db db' : Db) (h : samePay.r db db') :
    (payRows row).r db db' := by
  have h : payView db = payView db' := h
  cases row with
  | expert id => exact congrArg (fun v : (Uuid → Option ExpertStatus) × Table Payout => v.1 id) h
  | payout g => exact congrArg (fun v : (Uuid → Option ExpertStatus) × Table Payout => v.2.get g) h
  | _ => trivial

/-- Writing other columns of an expert is nothing to the guard. -/
theorem samePay_expertRow {f : Expert → Expert} {hf : Table.Keeps f}
    (hst : ∀ e, (f e).status = e.status)
    (k : Uuid) (db : Db) : samePay.r db (Session.expertRow f hf k db) := by
  show payView db = payView _
  refine Prod.ext (funext fun x => ?_) rfl
  show _ = ((db.experts.update k f hf).get x).map Expert.status
  rw [Table.get_update]
  split_ifs
  · cases hx : db.experts.get x with
    | none => simp [payView, expertStatus, hx]
    | some e => simp [payView, expertStatus, hx, hst]
  · rfl

theorem samePay_flush {expert new : Expert} (db : Db) :
    samePay.r db (Session.expertRow (expert.flush new) (expert.flush_keeps new) expert.id db) := by
  have hst : ∀ e, (expert.flush new e).status = e.status := fun _ => rfl
  exact samePay_expertRow hst expert.id db

theorem writes_calibrate_pay {env : Env} {expert : Expert} {actor : String} :
    (Session.calibrate env expert actor).Writes (fun f => ∀ db, samePay.r db (f db)) :=
  Session.writes_calibrate (fun _ db => samePay_flush db) (fun _ _ => rfl) (fun _ _ => rfl)

theorem samePay_review (r : Review) (db : Db) :
    samePay.r db ((Session.addReview r db).getD db) := by
  unfold Session.addReview
  split_ifs
  · cases db.reviews.insert r <;> rfl
  · rfl

namespace Pays
variable {loaded a b c : Db}

theorem refl (loaded db : Db) : Pays loaded db db := ⟨fun _ => rfl, fun _ => Or.inl rfl⟩

theorem trans (h : Pays loaded a b) (h' : Pays loaded b c) : Pays loaded a c := by
  refine ⟨fun k => (h'.1 k).trans (h.1 k), fun g => ?_⟩
  rcases h'.2 g with hsame | ⟨hnone, p, expert, hp, hrest⟩
  · rcases h.2 g with hsame' | ⟨hnone, p, expert, hp, hrest⟩
    · exact Or.inl (hsame.trans hsame')
    · exact Or.inr ⟨hnone, p, expert, hsame.trans hp, hrest⟩
  · refine Or.inr ⟨?_, p, expert, hp, hrest⟩
    -- what is not there afterwards was not there before
    rcases h.2 g with hsame' | ⟨hnone', _⟩
    · exact hsame'.symm.trans hnone
    · exact hnone'

theorem of_same (h : samePay.r a b) : Pays loaded a b := by
  have h : payView a = payView b := h
  refine ⟨fun k => ?_, fun g => Or.inl ?_⟩
  · exact (congrFun (congrArg Prod.fst h) k).symm
  · exact congrArg (fun v : (Uuid → Option ExpertStatus) × Table Payout => v.2.get g) h.symm

/-- A payout added for an expert of `loaded`. -/
theorem addPayout {env : Env} {grade : Grade} {expert : Expert} {task : Task} {amount : ℤ}
    (hexpert : loaded.experts.get expert.id = some expert) (db : Db) :
    Pays loaded db
      ((Session.addPayout (Session.newPayout env grade expert task amount) db).getD db) := by
  unfold Session.addPayout
  split_ifs
  case neg => exact refl loaded db
  cases hins : db.payouts.insert (Session.newPayout env grade expert task amount) with
  | none => exact refl loaded db
  | some payouts =>
    refine ⟨fun _ => rfl, fun g => ?_⟩
    have hget := Table.get_insert hins g
    by_cases hg : pk (Session.newPayout env grade expert task amount) = g
    · refine Or.inr ⟨?_, _, expert, hget.trans (if_pos hg), hexpert, rfl⟩
      rw [Table.get_eq_none]
      intro p hp hk
      exact Table.insert_fresh hins hp (hk.trans hg.symm)
    · exact Or.inl (hget.trans (if_neg hg))

theorem grows {s s' s'' : Local payRows Bool PayCall} (h : s.Grows (Pays loaded) s')
    (h' : s'.Grows (Pays loaded) s'') : s.Grows (Pays loaded) s'' :=
  Local.Grows.trans (fun {_ _ _} hab hbc => Pays.trans hab hbc) h h'

theorem grows_same {s s' : Local payRows Bool PayCall} (h : s.Grows samePay.r s') :
    s.Grows (Pays loaded) s' := h.mono (fun _ _ hab => of_same hab)

end Pays

/-- Adding a payout touches the row of its grade. -/
theorem payRows_addPayout {p : Payout} {row : Lock} (hrow : row ≠ .payout p.gradeId) (db : Db) :
    (payRows row).r db ((Session.addPayout p db).getD db) := by
  unfold Session.addPayout
  split_ifs
  case neg => exact (payRows row).refl db
  cases hins : db.payouts.insert p with
  | none => exact (payRows row).refl db
  | some payouts =>
    cases row with
    | expert id => rfl
    | payout g =>
      have hne : ¬ pk p = g := fun he => hrow (he ▸ rfl)
      exact ((Table.get_insert hins g).trans (if_neg hne)).symm
    | _ => trivial

section Payers
variable {base loaded : Db} {law : List PayEntry → PayEntry → Prop} {s : Local payRows Bool PayCall}
variable {env : Env} {grade : Grade} {expert : Expert} {task : Task} {actor : String}

/-- The status of the payout `createForGrade` adds is the one of the expert it was given. -/
theorem wp_createForGrade {fraction : ℚ} {Q : Payout → Local payRows Bool PayCall → Prop}
    (hexpert : loaded.experts.get expert.id = some expert)
    (hQ : ∀ p s', s.Grows (Pays loaded) s' → Q p s') :
    (Session.createForGrade env grade expert task actor fraction).wp payRows law base Q s := by
  unfold Session.createForGrade
  rw [wp_bind, wp_see]
  intro log _ _
  have hsaw : s.Grows (Pays loaded) (s.saw log) := Local.Grows.saw (Pays.refl loaded) log
  -- a payout that exists is returned as it is
  split
  · exact hQ _ _ hsaw
  rw [wp_bind]
  refine wp_frame payRows_of_same (Session.writes_rateFor expert task.taskType) ?_
  intro rate s₁ hs₁
  extract_lets payout
  rw [wp_bind]
  -- the index holds the row of the grade, and the insert writes no other
  refine wp_insert_locked (by simp) ?_ ?_
  · intro row hrow db
    exact payRows_addPayout (fun he => hrow (he ▸ List.mem_cons_self)) db
  intro s₂ hlocked _ hw
  rw [wp_bind, wp_demand]
  intro _
  rw [wp_bind]
  refine wp_frame payRows_of_same (Session.writes_log (fun _ _ => rfl)) ?_
  intro _ s₃ hs₃
  apply hQ
  -- what was read, locked and written, one after the other
  have h₁ : s.Grows (Pays loaded) s₁ := Pays.grows hsaw (Pays.grows_same hs₁)
  have h₂ : s.Grows (Pays loaded) s₂ :=
    Pays.grows h₁ (Local.Grows.locked (Pays.refl loaded) hlocked)
  have h₃ := Pays.grows h₂ (Local.Grows.wrote (Pays.addPayout hexpert) hw)
  exact Pays.grows h₃ (Pays.grows_same hs₃)

theorem wp_reviewPayout {decision : ReviewDecision}
    {Q : Option Payout → Local payRows Bool PayCall → Prop}
    (hexpert : loaded.experts.get expert.id = some expert)
    (hQ : ∀ p s', s.Grows (Pays loaded) s' → Q p s') :
    (Session.reviewPayout env grade expert task decision actor).wp payRows law base Q s := by
  unfold Session.reviewPayout
  split_ifs
  · rw [wp_bind]
    exact wp_createForGrade hexpert (fun p s' h => hQ _ s' h)
  · exact hQ _ s (Local.Grows.refl (Pays.refl loaded) s)

theorem wp_resolvePayout {delivered : Grade} {Q : Unit → Local payRows Bool PayCall → Prop}
    (hexpert : loaded.experts.get expert.id = some expert)
    (hQ : ∀ s', s.Grows (Pays loaded) s' → Q () s') :
    (Session.resolvePayout env grade delivered expert task actor).wp payRows law base Q s := by
  unfold Session.resolvePayout Session.outvotedPayout
  split_ifs
  · rw [wp_bind]
    exact wp_createForGrade hexpert (fun _ s' h => hQ s' h)
  · cases env.settings.consensusOutvotedPayout with
    | none => exact hQ s (Local.Grows.refl (Pays.refl loaded) s)
    | full =>
      dsimp only
      rw [wp_bind]
      exact wp_createForGrade hexpert (fun _ s' h => hQ s' h)
    | part =>
      dsimp only
      rw [wp_bind]
      exact wp_createForGrade hexpert (fun _ s' h => hQ s' h)

/-- One pass of the loop of an adjudication. -/
theorem wp_resolveGrade {delivered : Grade} {reason : String} {keyId : Uuid}
    {Q : Unit → Local payRows Bool PayCall → Prop}
    (hQ : ∀ s', s.Grows (Pays loaded) s' → Q () s') :
    (Session.resolveGrade env loaded task delivered reason keyId actor grade).wp payRows law base
      Q s := by
  unfold Session.resolveGrade
  rw [wp_bind, wp_demandSome]
  intro expert hget
  have hid : expert.id = grade.expertId := Table.get_pk hget
  rw [← hid] at hget
  extract_lets verdict
  rw [wp_bind]
  -- the review, the payout, and the calibration of the author
  refine wp_frame payRows_of_same ?_ ?_
  · exact Writes.insert (samePay_review verdict)
  intro _ s₁ hs₁
  rw [wp_bind]
  refine wp_resolvePayout hget ?_
  intro s₂ hs₂
  rw [wp_bind]
  refine wp_frame payRows_of_same writes_calibrate_pay ?_
  intro _ s₃ hs₃
  apply hQ
  have h₁ : s.Grows (Pays loaded) s₁ := Pays.grows_same hs₁
  exact Pays.grows (Pays.grows h₁ hs₂) (Pays.grows_same hs₃)

/-- A payer that has loaded the experts at `loadedAt` commits as the law says. -/
theorem commits_of_pays {call : PayCall} {loadedAt : List PayEntry} (hlog : ∀ log, s.knows log →
      loadedAt <+: log) (hpays : ∀ db, Pays (now base loadedAt) db (s.pending db))
    (hclock : ∀ answer before after, expertsLoadedAt ⟨call, answer, s.clock, before, after⟩ =
      loadedAt.length) : Commits payRows (PayLaw base) base call false s := by
  intro log _ hk
  have hle := hlog log hk
  refine ⟨?_, fun k hk => absurd hk.1 (by simp), Or.inl ⟨rfl, ?_⟩⟩
  · rw [hclock]
    exact hle.length_le
  · rw [hclock, storeAt_of_prefix hle]
    exact hpays _

end Payers

/-- What a prefix of the clock says of its entries. -/
theorem clock_getD {clock clock' : List ℕ} (h : clock <+: clock') {n : ℕ} (hn : n < clock.length) :
    clock'.getD n 0 = clock.getD n 0 := by
  obtain ⟨rest, rfl⟩ := h
  rw [List.getD_eq_getElem?_getD, List.getElem?_append_left hn, List.getD_eq_getElem?_getD]

theorem writes_reviewTask_pay {task : Task} {decision : ReviewDecision} {actor : String} :
    (Session.reviewTask task decision actor).Writes (fun f => ∀ db, samePay.r db (f db)) := by
  unfold Session.reviewTask
  split_ifs
  · exact Writes.pure _
  · exact Writes.set (fun _ => rfl)
  · exact (Writes.set (fun _ => rfl)).bind (fun _ => Session.writes_log (fun _ _ => rfl))
  · exact Writes.set (fun _ => rfl)
  · exact Writes.pure _

theorem wp_paying_review (base : Db) (env : Env) (keyId : Uuid) (body : ReviewCreate)
    (actor : String) :
    (paying (.review env keyId body actor)).wp payRows (PayLaw base) base
      (Commits payRows (PayLaw base) base (.review env keyId body actor)) Local.start := by
  unfold paying
  dsimp only
  unfold Session.review
  rw [wp_bind, wp_bind, wp_forUpdate]
  -- the grade is locked, and the task and the expert are read
  intro log₁ _ _
  rw [wp_bind, wp_demandSome]
  intro grade hgrade
  rw [if_pos (by rw [hgrade]; rfl), wp_bind, wp_see]
  intro log₂ _ _
  rw [wp_bind, wp_demandSome]
  intro task _
  unfold Session.expert
  rw [wp_bind, wp_bind, wp_see]
  intro loadedAt _ _
  rw [wp_demandSome]
  intro expert hget
  have hid : expert.id = grade.expertId := Table.get_pk hget
  have hexpert : (now base loadedAt).experts.get expert.id = some expert := hid ▸ hget
  rw [wp_bind, wp_see]
  intro log₃ _ _
  rw [wp_bind, wp_demand]
  intro _
  rw [wp_bind, wp_demand]
  intro _
  -- up to the payout the transaction writes nothing that payouts depend on
  extract_lets verdict
  rw [wp_bind]
  refine wp_frame payRows_of_same ?_ ?_
  · exact Writes.insert (samePay_review verdict)
  intro _ s₁ hs₁
  rw [wp_bind]
  refine wp_frame payRows_of_same (Writes.forUpdate _ _) ?_
  intro _ s₂ hs₂
  rw [wp_bind]
  refine wp_reviewPayout hexpert ?_
  intro payout s₃ hs₃
  -- after it the task, the round and the calibration are written, no payout
  refine wp_frame payRows_of_same ?_ ?_
  · refine writes_reviewTask_pay.bind (fun _ => ?_)
    refine (Writes.when (Session.writes_redeliver (fun _ _ => rfl) (fun _ _ => rfl))).bind
      (fun _ => ?_)
    refine (Session.writes_log (fun _ _ => rfl)).bind (fun _ => ?_)
    exact writes_calibrate_pay.bind (fun _ => Writes.pure _)
  intro _ s₄ hs₄
  have h₃ := Pays.grows (Pays.grows (Pays.grows_same hs₁) (Pays.grows_same hs₂)) hs₃
  have h₄ := Pays.grows h₃ (Pays.grows_same hs₄)
  rw [wp_pure]
  refine commits_of_pays (fun log hk => (h₄.knows log hk).1.2) h₄.pending (fun _ _ _ => ?_)
  exact clock_getD h₄.clock (by simp [Local.saw, Local.start])

theorem wp_paying_resolve (base : Db) (env : Env) (taskId deliveredGradeId : Uuid) (reason : String)
    (keyId : Uuid) (actor : String) :
    (paying (.resolve env taskId deliveredGradeId reason keyId actor)).wp payRows (PayLaw base) base
      (Commits payRows (PayLaw base) base
        (.resolve env taskId deliveredGradeId reason keyId actor)) Local.start := by
  unfold paying
  dsimp only
  unfold Session.resolve
  rw [wp_bind, wp_bind, wp_demand]
  intro _
  rw [wp_bind, wp_forUpdate]
  intro log₁ _ _
  rw [wp_bind, wp_demandSome]
  intro row hrow
  rw [if_pos (by rw [hrow]; rfl), wp_bind, wp_see]
  intro log₂ _ _
  rw [wp_bind, wp_demandSome]
  intro task _
  rw [wp_bind, wp_demand]
  intro _
  rw [wp_bind, wp_see]
  intro log₃ _ _
  extract_lets grades
  rw [wp_bind, wp_see]
  intro loadedAt _ _
  rw [wp_bind, wp_demandSome]
  intro delivered _
  rw [wp_bind]
  refine wp_frame payRows_of_same (Writes.forUpdate _ _) ?_
  intro _ s₁ hs₁
  rw [wp_bind]
  -- every pass pays on the experts of `loadedAt`
  refine wp_mono (wp_foldlM (fun _ _ s => s₁.Grows (Pays (now base loadedAt)) s)
    (Local.Grows.refl (Pays.refl _) s₁) ?_) ?_
  · intro _ grade _ s _ _ hs
    exact wp_resolveGrade (fun s' hs' => Pays.grows hs hs')
  intro _ s₂ hs₂
  extract_lets decided
  refine wp_frame payRows_of_same ?_ ?_
  · refine (Writes.set (fun _ => rfl)).bind (fun _ => ?_)
    refine (Writes.set (fun _ => rfl)).bind (fun _ => ?_)
    exact (Session.writes_log (fun _ _ => rfl)).bind (fun _ => Writes.pure _)
  intro _ s₃ hs₃
  have h₃ := Pays.grows (Pays.grows (Pays.grows_same hs₁) hs₂) (Pays.grows_same hs₃)
  rw [wp_pure]
  refine commits_of_pays (fun log hk => (h₃.knows log hk).2) h₃.pending (fun _ _ _ => ?_)
  exact clock_getD h₃.clock (by simp [Local.saw, Local.start])

/-! ### The guard -/

theorem mem_pendingPayouts {expertId g : Uuid} {db : Db} :
    g ∈ (db.payouts.rows.filter (Payout.ofExpert expertId .pending)).map Payout.gradeId ↔
      pendingOf expertId db g = true := by
  rw [pendingOf, Option.any_eq_true, List.mem_map]
  constructor
  · rintro ⟨p, hp, rfl⟩
    obtain ⟨hp, hpending⟩ := List.mem_filter.mp hp
    exact ⟨p, db.payouts.get_of_mem hp, hpending⟩
  · rintro ⟨p, hp, hpending⟩
    exact ⟨p, List.mem_filter.mpr ⟨Table.get_mem hp, hpending⟩, Table.get_pk hp⟩

/-- The UPDATE of the guard has passed the rows `done`. -/
structure Withheld (base : Db) (expertId : Uuid) (s₀ : Local payRows Bool PayCall)
    (done : List Uuid) (s : Local payRows Bool PayCall) : Prop where
  clock : s.clock = s₀.clock
  knows : ∀ log, s.knows log → s₀.knows log
  experts : ∀ db, expertStatus (s.pending db) = expertStatus (s₀.pending db)
  payouts : ∀ log, Lawful (PayLaw base) base log → s.knows log → ∀ g,
    (s.pending (now base log)).payouts.get g = ((now base log).payouts.get g).map (fun p =>
      if p.ofExpert expertId .pending && decide (g ∈ done) then p.withhold else p)

section Guard
variable {base : Db} {x g : Uuid} {s s₀ : Local payRows Bool PayCall} {done : List Uuid}

/-- A row that is pending under the guard's own writes is pending, and not yet done. -/
theorem Withheld.pending_iff (h : Withheld base x s₀ done s) {log : List PayEntry}
    (hl : Lawful (PayLaw base) base log) (hk : s.knows log) :
    pendingOf x (s.pending (now base log)) g = true ↔
      pendingOf x (now base log) g = true ∧ g ∉ done := by
  have hrow := h.payouts log hl hk g
  cases hp : (now base log).payouts.get g with
  | none =>
    rw [hp] at hrow
    simp [pendingOf, hrow, hp]
  | some p =>
    rw [hp, Option.map_some] at hrow
    -- the own writes withhold the done ones
    have hown : pendingOf x (s.pending (now base log)) g = Payout.ofExpert x .pending
        (if p.ofExpert x .pending && decide (g ∈ done) then p.withhold else p) := by
      rw [pendingOf, hrow]
      rfl
    have hstored : pendingOf x (now base log) g = p.ofExpert x .pending := by
      rw [pendingOf, hp]
      rfl
    rw [hown, hstored]
    cases hpending : p.ofExpert x .pending with
    | false => simp [hpending]
    | true =>
      by_cases hg : g ∈ done
      · simp [hg, Payout.ofExpert, Payout.withhold]
      · simp [hg, hpending]

/-- The re-check finds the row still pending: it is locked and withheld. -/
theorem Withheld.withhold (h : Withheld base x s₀ done s) {log : List PayEntry}
    (hl : Lawful (PayLaw base) base log) (hk : s.knows log)
    (hstill : pendingOf x (s.pending (now base log)) g = true) (hw : _) :
    Withheld base x s₀ (done ++ [g]) (((s.hold base (.payout g) log).looked log).wrote
      (fun db => { db with payouts := db.payouts.update g Payout.withhold }) hw) where
  clock := h.clock
  knows log' hk' := h.knows log' hk'.1.1
  experts := h.experts
  payouts log' hl' hk' g' := by
    have hget := ((s.pending (now base log')).payouts.get_update g Payout.withhold
      (fun _ => rfl) g')
    refine hget.trans ?_
    rw [h.payouts log' hl' hk'.1.1 g']
    by_cases hg : g = g'
    · subst hg
      rw [if_pos rfl]
      -- the row is locked, so it is the one that was pending at `log`
      obtain ⟨hpending, _⟩ := (h.pending_iff hl hk).mp hstill
      have hlocked : (now base log).payouts.get g = (now base log').payouts.get g := hk'.1.2
      obtain ⟨p, hp, hof⟩ := (Option.any_eq_true _ _).mp hpending
      rw [← hlocked, hp]
      simp only [Option.map_some, hof, Bool.true_and, List.mem_append, List.mem_singleton, or_true,
        decide_true, if_true]
      split_ifs <;> rfl
    · rw [if_neg hg]
      have hmem : g' ∈ done ++ [g] ↔ g' ∈ done := by
        rw [List.mem_append, List.mem_singleton]
        exact or_iff_left (fun he => hg he.symm)
      simp only [hmem]

/-- The re-check finds the row settled: nobody makes it pending again. -/
theorem Withheld.pass (h : Withheld base x s₀ done s) {log : List PayEntry}
    (hl : Lawful (PayLaw base) base log) (hk : s.knows log)
    (hthere : (now base log).payouts.get g ≠ none)
    (hsettled : ¬ pendingOf x (s.pending (now base log)) g = true) :
    Withheld base x s₀ (done ++ [g]) (s.looked log) where
  clock := h.clock
  knows log' hk' := h.knows log' hk'.1
  experts := h.experts
  payouts log' hl' hk' g' := by
    refine (h.payouts log' hl' hk'.1 g').trans ?_
    by_cases hg : g' = g
    · subst hg
      -- not withheld here, so it must not be pending in any later log
      by_cases hdone : g' ∈ done
      · simp [hdone]
      have hnot : pendingOf x (now base log') g' ≠ true := by
        intro hp
        have hbefore := pending_before hl' hk'.2 hp hthere
        exact hsettled ((h.pending_iff hl hk).mpr ⟨hbefore, hdone⟩)
      cases hp : (now base log').payouts.get g' with
      | none => rfl
      | some p =>
        have hof : p.ofExpert x .pending = false := by
          rw [pendingOf, hp] at hnot
          exact Bool.not_eq_true _ ▸ hnot
        simp [hof]
    · have hmem : g' ∈ done ++ [g] ↔ g' ∈ done := by
        rw [List.mem_append, List.mem_singleton]
        exact or_iff_left hg
      simp only [hmem]

/-- Experts stay. -/
theorem experts_stay {past log : List PayEntry} (h : Lawful (PayLaw base) base log)
    (hle : past <+: log) (hp : expertStatus (now base past) x ≠ none) :
    expertStatus (now base log) x ≠ none := by
  revert hp
  apply h.stretch (R := fun db db' => expertStatus db x ≠ none → expertStatus db' x ≠ none) hle
  · exact fun _ hp => hp
  · exact fun hab hbc hp => hbc (hab hp)
  · intro _ e _ hlaw hp
    rcases hlaw.step with ⟨_, hst, _⟩ | ⟨_, k, _, hst, _⟩
    · rwa [hst]
    · rw [hst]
      split_ifs
      · simp
      · exact hp

theorem expertStatus_paused (db : Db) (k x : Uuid) :
    expertStatus (Session.expertRow (Expert.withStatus .paused) (fun _ => rfl) k db) x =
      if k = x then (expertStatus db x).map (fun _ => .paused) else expertStatus db x := by
  have hget := db.experts.get_update k (Expert.withStatus .paused) (fun _ => rfl) x
  refine (congrArg (Option.map Expert.status) hget).trans ?_
  split_ifs
  · rw [expertStatus, Option.map_map, Option.map_map]
    rfl
  · rfl

theorem Withholds.of_same {snapshot a b c : Db} (h : Withholds x snapshot a b)
    (h' : samePay.r b c) : Withholds x snapshot a c := by
  have h' : payView b = payView c := h'
  have hst : expertStatus c = expertStatus b := (congrArg Prod.fst h').symm
  have hpay : c.payouts = b.payouts := (congrArg Prod.snd h').symm
  exact ⟨fun k => hst ▸ h.1 k, fun g => hpay ▸ h.2 g⟩

/-- The guard has paused the expert: it will commit as the law says. -/
def Guarded (base : Db) (expertId : Uuid) (s : Local payRows Bool PayCall) : Prop :=
  ∃ n, s.clock[3]? = some n ∧ ∀ log, Lawful (PayLaw base) base log → s.knows log →
    n ≤ log.length ∧ Withholds expertId (storeAt base log n) (now base log)
      (s.pending (now base log))

theorem Guarded.grows {s' : Local payRows Bool PayCall} (h : Guarded base x s)
    (hs : s.Grows samePay.r s') : Guarded base x s' := by
  obtain ⟨n, hn, hlaw⟩ := h
  refine ⟨n, ?_, fun log hl hk => ?_⟩
  · obtain ⟨rest, hrest⟩ := hs.clock
    obtain ⟨hlt, _⟩ := List.getElem?_eq_some_iff.mp hn
    rw [← hrest, List.getElem?_append_left hlt]
    exact hn
  · obtain ⟨hlen, hwith⟩ := hlaw log hl (hs.knows log hk)
    exact ⟨hlen, hwith.of_same (hs.pending _)⟩

/-- The guard does nothing, or pauses the expert and withholds what it sees. -/
theorem wp_enforce {env : Env} {expert : Expert} {Q : Bool → Local payRows Bool PayCall → Prop}
    (hlen : s.clock.length = 2) (hsame : ∀ db, samePay.r db (s.pending db))
    (hthere : ∀ log, Lawful (PayLaw base) base log → s.knows log →
      expertStatus (now base log) expert.id ≠ none)
    (hidle : ∀ s', s.Grows samePay.r s' → Q false s')
    (hpause : expert.status ≠ .paused → ∀ s', (∀ log, s'.knows log → s.knows log) →
      s.clock <+: s'.clock → Guarded base expert.id s' → Q true s') :
    (Session.enforce env expert).wp payRows (PayLaw base) base Q s := by
  unfold Session.enforce
  -- the rolling rate
  rw [wp_bind, wp_see]
  intro log₁ _ _
  have hsaw : s.Grows samePay.r (s.saw log₁) := Local.Grows.saw samePay.refl log₁
  have hown : ∀ db, payView (s.pending db) = payView db := fun db => (hsame db).symm
  split_ifs with _ hactive
  · exact hidle _ hsaw
  · exact hidle _ hsaw
  rw [wp_bind]
  -- the expert's row
  refine wp_updateRow ?_ ?_ ?_
  · intro row hrow db
    cases row with
    | expert id =>
      have hne : ¬ expert.id = id := fun he => hrow (he ▸ rfl)
      exact ((expertStatus_paused db expert.id id).trans (if_neg hne)).symm
    | payout g => rfl
    | _ => trivial
  case refine_3 =>
    -- the expert was loaded, so the row is there
    intro log hl hk hnone
    refine absurd ?_ (hthere log hl hk.1)
    have hst : expertStatus (s.pending (now base log)) expert.id =
        expertStatus (now base log) expert.id := congrFun (congrArg Prod.fst (hown _)) _
    have hnone : (s.pending (now base log)).experts.get expert.id = none :=
      Option.isSome_eq_false_iff.mp hnone |> Option.isNone_iff_eq_none.mp
    rw [← hst, expertStatus, hnone]
    rfl
  intro log₂ _ _ _ hw
  rw [wp_bind]
  have hpay : ∀ db, (s.pending db).payouts = db.payouts := fun db => congrArg Prod.snd (hown db)
  set s₀ := (((s.saw log₁).hold base (.expert expert.id) log₂).looked log₂).wrote _ hw with hs₀
  have hpay₀ : ∀ db g, pendingOf expert.id (s₀.pending db) g = pendingOf expert.id db g :=
    fun db g => congrArg (fun T : Table Payout =>
      (T.get g).any (Payout.ofExpert expert.id .pending)) (hpay db)
  -- the bulk update: found on one snapshot, each row looked at again under its lock
  refine wp_updateWhere (fun found => Withheld base expert.id (s₀.saw found)) ?_ ?_ ?_ ?_ ?_
  · intro g row hrow db
    cases row with
    | payout g' =>
      have hne : ¬ g = g' := fun he => hrow (he ▸ rfl)
      exact ((db.payouts.get_update g Payout.withhold (fun _ => rfl) g').trans (if_neg hne)).symm
    | expert id => rfl
    | _ => trivial
  · intro found _ _
    refine ⟨rfl, fun _ hk => hk, fun _ => rfl, fun log _ _ g => ?_⟩
    have hstored : ((s₀.saw found).pending (now base log)).payouts = (now base log).payouts :=
      hpay _
    rw [hstored]
    simp
  · intro found done g s' _ hI log hl hk hstill hf
    exact hI.withhold hl hk hstill hf
  · intro found done g s' hg hI log hl hk hstill
    rw [mem_pendingPayouts, hpay₀] at hg
    have hle : found <+: log := (hI.knows log hk).2
    have hthere : (now base log).payouts.get g ≠ none := by
      obtain ⟨p, hp, _⟩ := pendingOf_iff.mp hg
      obtain ⟨p', hp', _⟩ := payouts_settle hl hle g p hp
      rw [hp']
      simp
    exact hI.pass hl hk hthere (fun hp => absurd (hstill.symm.trans hp) (by simp))
  intro found n s₁ _ _ hs₁
  rw [wp_bind]
  refine wp_frame payRows_of_same (Session.writes_log (fun _ _ => rfl)) ?_
  intro _ s₂ hs₂
  rw [wp_pure]
  have hguarded : Guarded base expert.id s₁ := by
    refine ⟨found.length, ?_, fun log hl hk => ?_⟩
    · rw [hs₁.clock]
      show (s.clock ++ [log₁.length] ++ [found.length])[3]? = _
      rw [List.getElem?_append_right (by simp [hlen])]
      simp [hlen]
    have hle : found <+: log := (hs₁.knows log hk).2
    have hlog : s.knows log := (hs₁.knows log hk).1.1.1.1
    refine ⟨hle.length_le, fun k => ?_, fun g => ?_⟩
    · rw [hs₁.experts]
      refine (expertStatus_paused _ expert.id k).trans ?_
      have hst : expertStatus (s.pending (now base log)) k = expertStatus (now base log) k :=
        congrFun (congrArg Prod.fst (hown _)) k
      change (if expert.id = k then (expertStatus (s.pending (now base log)) k).map _
        else expertStatus (s.pending (now base log)) k) = _
      rw [hst]
      by_cases hk : expert.id = k
      · subst hk
        obtain ⟨st, hst⟩ := Option.ne_none_iff_exists'.mp (hthere log hl hlog)
        rw [if_pos rfl, if_pos rfl, hst]
        rfl
      · rw [if_neg hk, if_neg (fun he => hk he.symm)]
    · rw [hs₁.payouts log hl hk g, storeAt_of_prefix hle]
      have hmem : (g ∈ (((s₀.pending (now base found)).payouts.rows.filter
          (Payout.ofExpert expert.id .pending)).map Payout.gradeId)) ↔
          pendingOf expert.id (now base found) g = true := by
        rw [mem_pendingPayouts, hpay₀]
      simp only [hmem, Bool.decide_eq_true]
  refine hpause hactive s₂ (fun log hk => (hs₁.knows log (hs₂.knows log hk)).1.1.1.1) ?_
    (hguarded.grows hs₂)
  have hclock : s.clock <+: s₁.clock := by
    rw [hs₁.clock]
    exact (List.prefix_append _ [log₁.length]).trans (List.prefix_append _ _)
  exact hclock.trans hs₂.clock

theorem samePay_result (r : AttentionResult) (db : Db) :
    samePay.r db ((Session.addResult r db).getD db) := by
  unfold Session.addResult
  cases db.attentionResults.insert r <;> rfl

/-- The golden check ends like the guard. -/
theorem wp_checkGrade {env : Env} {expert : Expert} {task : Task} {grade : Grade}
    {Q : Bool → Local payRows Bool PayCall → Prop}
    (hlen : task.expected ≠ none → s.clock.length = 2) (hsame : ∀ db, samePay.r db (s.pending db))
    (hthere : ∀ log, Lawful (PayLaw base) base log → s.knows log →
      expertStatus (now base log) expert.id ≠ none)
    (hidle : ∀ s', s.Grows samePay.r s' → Q false s')
    (hpause : expert.status ≠ .paused → ∀ s', (∀ log, s'.knows log → s.knows log) →
      s.clock <+: s'.clock → Guarded base expert.id s' → Q true s') :
    (Session.checkGrade env expert task grade).wp payRows (PayLaw base) base Q s := by
  unfold Session.checkGrade
  cases hexp : task.expected with
  | none => exact hidle s (Local.Grows.refl samePay.refl s)
  | some expected =>
    dsimp only
    rw [wp_bind]
    refine wp_insert_locked (by simp)
      (fun row _ db => payRows_of_same row _ _ (samePay_result _ db)) ?_
    intro s₁ hlocked _ hw
    have h₁ : s.Grows samePay.r (s₁.wrote _ hw) :=
      (Local.Grows.locked samePay.refl hlocked).comp
        (Local.Grows.wrote (samePay_result _) hw)
    rw [wp_bind]
    -- the calibration after the guard touches neither statuses nor payouts
    have hrated : ∀ b s', (∀ s'', s'.Grows samePay.r s'' → Q b s'') →
        (do let _ ← Session.calibrate env expert "system"; pure b : Session Bool).wp payRows
          (PayLaw base) base Q s' := by
      intro b s' hQ
      rw [wp_bind]
      exact wp_frame payRows_of_same writes_calibrate_pay (fun _ s'' hs'' => hQ s'' hs'')
    split_ifs
    · exact hrated false _ (fun s'' hs'' => hidle s'' (h₁.comp hs''))
    refine wp_enforce ?_ ?_ ?_ ?_ ?_
    · exact hlocked.clock ▸ hlen (by simp [hexp])
    · exact fun db => samePay.trans (hsame db) (h₁.pending db)
    · exact fun log hl hk => hthere log hl (h₁.knows log hk)
    · intro s₂ hs₂
      have h₂ := h₁.comp hs₂
      exact hrated false s₂ (fun s₃ hs₃ => hidle s₃ (h₂.comp hs₃))
    · intro hactive s₂ hk₂ hc₂ hguarded
      refine hrated true s₂ (fun s₃ hs₃ => hpause hactive s₃ ?_ ?_ (hguarded.grows hs₃))
      · exact fun log hk => h₁.knows log (hk₂ log (hs₃.knows log hk))
      · exact (h₁.clock.trans hc₂).trans hs₃.clock

theorem samePay_grade (g : Grade) (db : Db) : samePay.r db ((Session.addGrade g db).getD db) := by
  unfold Session.addGrade
  cases db.grades.insert g <;> rfl

theorem samePay_round (c : Consensus) (db : Db) :
    samePay.r db ((Session.addRound c db).getD db) := by
  unfold Session.addRound
  cases db.consensus.insert c <;> rfl

theorem writes_consensusEvaluate_pay {env : Env} {taskId : Uuid} :
    (Session.consensusEvaluate env taskId).Writes (fun f => ∀ db, samePay.r db (f db)) := by
  refine Writes.see.bind (fun _ => Writes.see.bind (fun _ => ?_))
  dsimp only
  split_ifs
  · exact Writes.pure _
  · refine (Writes.when (Writes.set (fun _ => rfl))).bind (fun _ => ?_)
    exact (Writes.insert (samePay_round _)).bind (fun _ => Session.writes_log (fun _ _ => rfl))

/-- A golden task is not submitted, it is queued again. -/
theorem expected_of_submitted {task : Task} (h : task.graded.status = .submitted) :
    task.expected = none := by
  unfold Task.expected
  rw [if_neg]
  intro hgolden
  simp [Task.graded, hgolden] at h

theorem wp_paying_submit (base : Db) (env : Env) (expertId : Uuid) (body : GradeCreate) :
    (paying (.submit env expertId body)).wp payRows (PayLaw base) base
      (Commits payRows (PayLaw base) base (.submit env expertId body)) Local.start := by
  unfold paying
  dsimp only
  unfold Session.submit
  rw [wp_bind, wp_bind, wp_demand]
  intro _
  unfold Session.expert
  rw [wp_bind, wp_bind, wp_see]
  intro loadedAt hloaded _
  rw [wp_demandSome]
  intro expert hget
  have hid : expert.id = expertId := Table.get_pk hget
  unfold Session.lockTask
  rw [wp_bind, wp_forUpdate]
  intro log₁ _ _
  rw [wp_bind, wp_demandSome]
  intro task htask
  rw [if_pos (by unfold Session.taskExists; rw [htask]; rfl), wp_bind, wp_demand]
  intro _
  rw [wp_bind, wp_see]
  intro log₂ _ _
  rw [wp_bind, wp_demandSome]
  intro rubric _
  rw [wp_bind, wp_demand]
  intro _
  extract_lets criteria keys given grade
  rw [wp_bind, wp_demand]
  intro _
  rw [wp_bind, wp_demand]
  intro _
  rw [wp_bind]
  refine wp_insert_locked (by simp)
    (fun row _ db => payRows_of_same row _ _ (samePay_grade _ db)) ?_
  intro s₁ hlocked _ hw
  rw [wp_bind, wp_set]
  refine ⟨fun row _ db => payRows_of_same row _ _ rfl, ?_⟩
  have hrefl : ∀ db, samePay.r db db := samePay.refl
  rw [wp_bind]
  -- a round is evaluated for tasks that are not golden
  refine wp_mono (Q := fun _ s => s₁.Grows samePay.r s ∧
    (task.expected ≠ none → s.clock.length = 2)) ?_ ?_
  · rw [wp_when]
    have htask : ∀ db, samePay.r db (Session.taskRow Task.graded (fun _ => rfl) task.id db) :=
      fun _ => rfl
    have h₁ := (Local.Grows.wrote (samePay_grade grade) hw).comp
      (Local.Grows.wrote htask (fun row _ db => payRows_of_same row _ _ (htask db)))
    refine ⟨fun hsub => ?_, fun _ => ⟨h₁, fun _ => ?_⟩⟩
    · refine wp_frame payRows_of_same writes_consensusEvaluate_pay (fun _ s' hs' => ?_)
      exact ⟨h₁.comp hs', fun hexp => absurd (expected_of_submitted hsub) hexp⟩
    · exact congrArg List.length hlocked.clock
  rintro _ s₂ ⟨hs₂, hlen⟩
  unfold Session.log
  rw [wp_bind, wp_set]
  have hlogged : ∀ db, samePay.r db (record db s!"expert:{expert.id.str}" "grade.submitted" "grade"
    grade.id.str) := fun _ => rfl
  refine ⟨fun row _ db => payRows_of_same row _ _ (hlogged db), ?_⟩
  rw [wp_bind]
  have hbefore := ((Local.Grows.locked hrefl hlocked).comp hs₂).comp (Local.Grows.wrote hlogged
    (fun row _ db => payRows_of_same row _ _ (hlogged db)))
  refine wp_checkGrade hlen (fun db => hbefore.pending db) ?_ ?_ ?_
  · -- the expert was loaded
    intro log hl hk
    have hle : loadedAt <+: log := (hbefore.knows log hk).1.1.1.2
    refine experts_stay hl hle ?_
    rw [expertStatus, hid, show (now base loadedAt).experts.get expertId = some expert from hget]
    simp
  · intro s₃ hs₃
    have h₃ := hbefore.comp hs₃
    rw [wp_pure, wp_pure]
    refine commits_of_pays (fun log hk => (h₃.knows log hk).1.1.1.2)
      (fun db => Pays.of_same (h₃.pending db)) (fun _ _ _ => ?_)
    exact clock_getD h₃.clock (by simp [Local.saw, Local.start])
  · rintro hactive s₃ hk₃ hc₃ ⟨n, hn, hlaw⟩
    rw [wp_pure, wp_pure]
    intro log hl hk
    have hle : loadedAt <+: log := (hbefore.knows log (hk₃ log hk)).1.1.1.2
    have hfirst : s₃.clock.getD 0 0 = loadedAt.length :=
      clock_getD (hbefore.clock.trans hc₃) (by simp [Local.saw, Local.start])
    have hfourth : s₃.clock.getD 3 0 = n := by
      rw [List.getD_eq_getElem?_getD, hn]
      rfl
    obtain ⟨hseen, hwith⟩ := hlaw log hl hk
    refine ⟨hfirst.le.trans hle.length_le, ?_,
      Or.inr ⟨hfourth.le.trans hseen, expertId, ⟨rfl, env, body, rfl⟩, ?_⟩⟩
    · rintro k ⟨_, _, _, hc⟩
      injection hc with _ hk _
      subst hk
      show expertStatus (storeAt base log (s₃.clock.getD 0 0)) expertId ≠ _
      rw [hfirst, storeAt_of_prefix hle, expertStatus,
        show (now base loadedAt).experts.get expertId = some expert from hget]
      exact fun he => hactive (Option.some.inj he)
    · show Withholds expertId (storeAt base log (s₃.clock.getD 3 0)) _ _
      rw [hfourth, ← hid]
      exact hwith

end Guard

/-- Every payer commits as the law says, under every interleaving. -/
theorem paying_verified (base : Db) : Verified payRows (PayLaw base) base paying := by
  intro call
  cases call with
  | submit env expertId body => exact wp_paying_submit base env expertId body
  | review env keyId body actor => exact wp_paying_review base env keyId body actor
  | resolve env taskId deliveredGradeId reason keyId actor =>
    exact wp_paying_resolve base env taskId deliveredGradeId reason keyId actor

/-- In every interleaving of submissions, reviews and adjudications, a paused expert ends
without a pending payout exactly when it was so before and, if a guard paused the expert,
the UPDATE of some guard came after each payout decided on a status from before. -/
theorem pausedUnpaid_iff (base : Db) (expertId : Uuid) (schedule : List (Choice PayCall ℕ)) :
    PausedUnpaid (now base (committed paying base schedule)) expertId ↔
      PausedUnpaid base expertId ∧
      ∀ past e g, past ++ [e] <+: committed paying base schedule →
        PaysActive base expertId past e g →
        (∃ q d, q ++ [d] <+: committed paying base schedule ∧ Guards expertId d) →
        ∃ q d, q ++ [d] <+: committed paying base schedule ∧ Guards expertId d ∧
          past.length < withheldAt d :=
  pausedUnpaid_lawful (lawful_committed (paying_verified base) schedule)

namespace Scenario

/-- Expert 300 has graded task 500 and holds the golden task 800. -/
def watched : List Request := setup ++
  [call 5 (.createTasks [task] "admin"), call 6 (.claimNext 300),
   call 7 (.submit 300 (grade 500 4)),
   call 8 (.createTasks
     [{ task with isAttentionCheck := true, expectedScores := some (accuracy 4) }] "admin"),
   call 9 (.claimById 300 800)]

/-- A guard that one failed check trips. -/
def strict (n : ℕ) : Env :=
  { env n with settings := { (env n).settings with attentionMinChecks := 1 } }

/-- Transaction 1 approves grade 700 and has loaded its expert; transaction 2 fails the
golden task, pauses the expert and commits; then transaction 1 goes on. -/
def crossed : List (Choice PayCall ℕ) :=
  [.start 1 (.review (strict 10) 7 ⟨700, .approve, none⟩ "reviewer"), .run 1, .run 1, .run 1,
   .start 2 (.submit (strict 11) 300 (grade 800 1))] ++
    List.replicate 25 (.run 2) ++ List.replicate 25 (.run 1)

end Scenario

open Scenario in
/-- The expert ends paused with a pending payout; nobody was paused before. -/
theorem paused_with_pending : PausedUnpaid (after watched) 300 ∧
    ¬ PausedUnpaid (now (after watched) (committed paying (after watched) crossed)) 300 := by
  constructor
  · intro hpaused
    have hactive : expertStatus (after watched) 300 = some .active := by decide +kernel
    exact absurd (hactive.symm.trans hpaused) (by decide)
  · intro h
    have hpaused : expertStatus (now (after watched)
        (committed paying (after watched) crossed)) 300 = some .paused := by decide +kernel
    have hpending : pendingOf 300 (now (after watched)
        (committed paying (after watched) crossed)) 700 = true := by decide +kernel
    obtain ⟨p, hp, hx, hs⟩ := pendingOf_iff.mp hpending
    exact h hpaused p (Table.get_mem hp) hx hs

end Panelist
