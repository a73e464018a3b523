import Panelist.Grouping
import Panelist.References

/-! Period statements and the ledger: what a closing adds up, that nothing
rewrites a statement afterwards, and that the books balance. -/
namespace Panelist
open Relational Transaction

/-- A payout is in a period, since some time, exactly when it is paid. -/
def Payout.Booked (p : Payout) : Prop :=
  (p.status = .paid ↔ p.periodId.isSome = true) ∧ (p.status = .paid ↔ p.paidAt.isSome = true)

def Booked (db : Db) : Prop := ∀ p ∈ db.payouts, p.Booked

/-- How the payout table changes: rows rewritten by `f`, new rows after them. A
paid row is never rewritten, and a row joins a period only when it is new. -/
structure PayoutsMove (db : Db) (f : Payout → Payout) (new : List Payout) (db' : Db) : Prop where
  rows : db'.payouts.rows = db.payouts.rows.map f ++ new
  terms : ∀ p : Payout, p.SameTerms (f p)
  paid : ∀ p : Payout, p.status = .paid → f p = p
  booked : ∀ p : Payout, p.Booked → (f p).Booked
  period : ∀ p k, (f p).periodId = some k → p.periodId = some k ∨
    ∀ q ∈ db.payoutPeriods, q.id ≠ k
  unpaid : ∀ p ∈ new, p.status ≠ .paid ∧ p.periodId = none ∧ p.paidAt = none

section Moves
variable {db db' : Db} {r : Request}

theorem PayoutsMove.same (h : db'.payouts = db.payouts) : PayoutsMove db id [] db' where
  rows := by rw [h, List.map_id, List.append_nil]
  terms := Payout.SameTerms.refl
  paid _ _ := rfl
  booked _ hp := hp
  period _ _ hk := Or.inl hk
  unpaid _ hp := absurd hp List.not_mem_nil

/-- An `UPDATE` of unpaid payouts that leaves their period alone. -/
theorem PayoutsMove.restatus {q : Payout → Bool} {f : Payout → Payout}
    (h : db'.payouts.rows = db.payouts.rows.map (fun p => if q p then f p else p))
    {s : PayoutStatus} (hs : s ≠ .paid) (hfs : ∀ p : Payout, f p = { p with status := s })
    (hq : ∀ p : Payout, q p = true → p.status ≠ .paid) :
    PayoutsMove db (fun p => if q p then f p else p) [] db' where
  rows := by rw [h, List.append_nil]
  terms p := by
    split
    · rw [hfs]
      rfl
    · exact Payout.SameTerms.refl p
  paid p hp := if_neg (fun hqp => hq p hqp hp)
  booked p hp := by
    split
    -- paid before and booked before, so neither now
    · rename_i hqp
      have hunpaid := hq p hqp
      rw [hfs]
      exact ⟨iff_of_false hs (fun he => hunpaid (hp.1.mpr he)),
        iff_of_false hs (fun he => hunpaid (hp.2.mpr he))⟩
    · exact hp
  period p k hk := by
    split at hk
    · rw [hfs] at hk
      exact Or.inl hk
    · exact Or.inl hk
  unpaid _ hp := absurd hp List.not_mem_nil

theorem Payments.move {env : Env} {db₀ : Db} {task : Task} {share : Grade → Option ℚ}
    {gs : List Grade} {P' : Table Payout} (h : Payments env db₀ task share gs db.payouts P')
    (hP' : db'.payouts = P') : ∃ new, PayoutsMove db id new db' := by
  obtain ⟨new, hrows, hnew⟩ := h.rows
  refine ⟨new, ⟨by rw [hP', hrows, List.map_id], Payout.SameTerms.refl, fun _ _ => rfl,
    fun _ hp => hp, fun _ _ hk => Or.inl hk, fun p hp => ?_⟩⟩
  obtain ⟨g, _, f, expert, rate, _, _, _, _, rfl⟩ := hnew p hp
  refine ⟨?_, rfl, rfl⟩
  show expert.payoutStatus ≠ .paid
  unfold Expert.payoutStatus
  split <;> simp

theorem Payout.ofExpert_status {expertId : Uuid} {s : PayoutStatus} {p : Payout}
    (h : Payout.ofExpert expertId s p = true) : p.status = s := by
  simp only [Payout.ofExpert, Bool.and_eq_true, decide_eq_true_eq] at h
  exact h.2

theorem Payout.due_status {p : Payout} (h : p.due = true) : p.status = .pending := by
  simp only [Payout.due, Bool.and_eq_true, decide_eq_true_eq] at h
  exact h.1

/-- Every effect moves the payouts so. -/
theorem Effect.payoutsMove (h : Effect r db db') : ∃ f new, PayoutsMove db f new db' := by
  -- most effects leave the payouts alone
  cases h with
  | logged | rubricAdded | superseded | joined | recalibrated | queued | reclaimed | released
  | claimed | retargeted | graded => exact ⟨id, [], .same rfl⟩
  | paused =>
    refine ⟨_, [], .restatus (f := Payout.withhold) (s := .withheld) rfl (by decide) (fun _ => rfl)
      (fun p hp => ?_)⟩
    rw [Payout.ofExpert_status hp]
    decide
  | @statusSet e status =>
    -- only the way back from paused releases anything
    by_cases hback : e.status = .paused ∧ status = .active
    · refine ⟨_, [], .restatus (f := Payout.released) (s := .pending)
        (congrArg Table.rows (if_pos hback)) (by decide) (fun _ => rfl) (fun p hp => ?_)⟩
      rw [Payout.ofExpert_status hp]
      decide
    · exact ⟨id, [], .same (if_neg hback)⟩
  | reviewed hop hb hg htask ht hallow hv hi hp =>
    exact ⟨id, Payments.move hp rfl⟩
  | adjudicated hop hrow hs hd ht hi hp =>
    exact ⟨id, Payments.move hp rfl⟩
  | @closed period periods actor hop hi =>
    refine ⟨fun p => if p.due then p.paidIn period.id r.env.now else p, [],
      ⟨(List.append_nil _).symm, fun p => ?_, fun p hp => if_neg (fun hd => ?_), fun p hp => ?_,
        fun p k hk => ?_, fun _ hp => absurd hp List.not_mem_nil⟩⟩
    · split
      · rfl
      · exact Payout.SameTerms.refl p
    · rw [Payout.due_status hd] at hp
      exact absurd hp (by decide)
    · split
      · exact ⟨iff_of_true rfl rfl, iff_of_true rfl rfl⟩
      · exact hp
    · split at hk
      · -- the period is fresh, so no statement is rewritten
        obtain rfl := Option.some.inj hk
        exact Or.inr (fun q hq => Table.insert_fresh hi hq)
      · exact Or.inl hk

variable {f : Payout → Payout} {new : List Payout}

theorem PayoutsMove.mem (h : PayoutsMove db f new db') {p' : Payout} :
    p' ∈ db'.payouts ↔ (∃ p ∈ db.payouts, f p = p') ∨ p' ∈ new := by
  rw [← Table.mem_rows, h.rows, List.mem_append, List.mem_map]
  exact Iff.rfl

theorem Booked.effect (h : Booked db) (he : Effect r db db') : Booked db' := by
  obtain ⟨f, new, hmove⟩ := he.payoutsMove
  intro p' hp'
  rcases hmove.mem.mp hp' with ⟨p, hp, rfl⟩ | hnew
  · exact hmove.booked p (h p hp)
  · obtain ⟨hs, hperiod, hat⟩ := hmove.unpaid p' hnew
    exact ⟨iff_of_false hs (by simp [hperiod]), iff_of_false hs (by simp [hat])⟩

theorem Booked.after (rs : List Request) : Booked (after rs) :=
  after_invariant (fun h he => h.effect he) (fun p hp => absurd hp (Table.not_mem_empty p)) rs

/-- A paid row stays as it is. -/
theorem Effect.paid_stays (he : Effect r db db') {p : Payout} (hp : p ∈ db.payouts)
    (hs : p.status = .paid) : p ∈ db'.payouts := by
  obtain ⟨f, new, hmove⟩ := he.payoutsMove
  exact hmove.mem.mpr (Or.inl ⟨p, hp, hmove.paid p hs⟩)

/-- No effect rewrites the statement of a closed period. -/
theorem Effect.statement_stays (he : Effect r db db') (hbook : Booked db) {P : PayoutPeriod}
    (hP : P ∈ db.payoutPeriods) : periodPayouts db' P.id = periodPayouts db P.id := by
  obtain ⟨f, new, hmove⟩ := he.payoutsMove
  -- new payouts are in no period
  have hnew : new.filter (fun p => p.periodId == some P.id) = [] := by
    rw [List.filter_eq_nil_iff]
    intro p hp
    simp [(hmove.unpaid p hp).2.1]
  have hold : ∀ l : List Payout, (∀ p ∈ l, p ∈ db.payouts) →
      (l.map f).filter (fun p => p.periodId == some P.id) =
        l.filter (fun p => p.periodId == some P.id) := by
    intro l hl
    induction l with
    | nil => rfl
    | cons p l ih =>
      have ih := ih (fun x hx => hl x (List.mem_cons_of_mem p hx))
      have hbooked := hbook p (hl p List.mem_cons_self)
      rw [List.map_cons, List.filter_cons, List.filter_cons, ih]
      by_cases hp : p.periodId = some P.id
      · -- a row of the statement is paid, hence not rewritten
        have hpaid : p.status = .paid := hbooked.1.mpr (by rw [hp]; rfl)
        rw [hmove.paid p hpaid]
      · have hfp : (f p).periodId ≠ some P.id := by
          intro hk
          rcases hmove.period p P.id hk with hsame | hfresh
          · exact hp hsame
          · exact hfresh P hP rfl
        simp [hp, hfp]
  unfold periodPayouts
  rw [hmove.rows, List.filter_append, hnew, List.append_nil]
  exact hold db.payouts.rows (fun _ hp => hp)

/-- The rows after a run are those before it, on the same terms, and new ones. -/
def Appends (P P' : Table Payout) : Prop :=
  ∃ f new, P'.rows = P.rows.map f ++ new ∧ ∀ p : Payout, p.SameTerms (f p)

theorem Appends.effect {P : Table Payout} (h : Appends P db.payouts) (he : Effect r db db') :
    Appends P db'.payouts := by
  obtain ⟨f, new, hrows, hterms⟩ := h
  obtain ⟨g, new', hmove⟩ := he.payoutsMove
  refine ⟨fun p => g (f p), new.map g ++ new', ?_, fun p => (hterms p).trans (hmove.terms (f p))⟩
  rw [hmove.rows, hrows, List.map_append, List.map_map, List.append_assoc]
  rfl

end Moves

/-! ### The ledger and the periods as sums over the payouts -/

def withStatus (db : Db) (status : PayoutStatus) : List Payout :=
  db.payouts.rows.filter (fun p => p.status = status)

/-- The payouts of `db'` for grades without a payout in `db`. -/
def newPayouts (db db' : Db) : List Payout :=
  db'.payouts.rows.filter (fun p => (db.payouts.get p.gradeId).isNone)

section Sums
variable {db db' : Db}

/-- The ledger's groups of one status add up to all payouts with that status. -/
theorem totalsByStatus_eq (h : Linked db) (status : PayoutStatus) :
    (ledger db).totalsByStatus status = sumCents (withStatus db status) := by
  let groups := db.experts.rows.flatMap (fun e =>
    [ledgerGroup db e .pending, ledgerGroup db e .withheld, ledgerGroup db e .paid])
  have hsorted : (ledger db).totalsByStatus status =
      (((groups.filter (fun r => 0 < r.payoutCount)).filter (fun r => r.status = status)).map
        LedgerRow.totalCents).sum :=
    (((List.perm_insertionSort _ _).filter _).map _).sum_eq
  -- a group without payouts is no row, and would add nothing
  have hempty : ∀ r ∈ groups.filter (fun r => r.status = status),
      decide (0 < r.payoutCount) = false → r.totalCents = 0 := by
    intro r hr hcount
    obtain ⟨e, _, hmem⟩ := List.mem_flatMap.mp (List.mem_filter.mp hr).1
    have hgroup (s : PayoutStatus) (h0 : decide (0 < (ledgerGroup db e s).payoutCount) = false) :
        (ledgerGroup db e s).totalCents = 0 := by
      have hnil : db.payouts.rows.filter (Payout.ofExpert e.id s) = [] := by
        rw [← List.length_eq_zero_iff]
        simpa [ledgerGroup] using h0
      simp [ledgerGroup, hnil, sumCents]
    simp only [List.mem_cons, List.not_mem_nil, or_false] at hmem
    rcases hmem with rfl | rfl | rfl
    · exact hgroup _ hcount
    · exact hgroup _ hcount
    · exact hgroup _ hcount
  have hone : groups.filter (fun r => r.status = status) =
      db.experts.rows.map (fun e => ledgerGroup db e status) := by
    simp only [groups, List.filter_flatMap, List.map_eq_flatMap]
    congr 1
    funext e
    cases status <;> rfl
  have hkeys : (db.experts.rows.map Expert.id).Nodup := db.experts.nodup_pk
  have hgroups : (db.experts.rows.map (fun e => ledgerGroup db e status)).map LedgerRow.totalCents =
      (db.experts.rows.map Expert.id).map
        (groupSum (fun p => some p.expertId) Payout.amountCents (withStatus db status)) := by
    rw [List.map_map, List.map_map]
    apply List.map_congr_left
    intro e _
    simp only [Function.comp_apply, groupSum, withStatus, List.filter_filter, ledgerGroup, sumCents,
      Option.some.injEq]
    rfl
  calc
    _ = (((groups.filter (fun r => r.status = status)).filter
          (fun r => 0 < r.payoutCount)).map LedgerRow.totalCents).sum := by
        rw [hsorted, List.filter_comm]
    _ = ((groups.filter (fun r => r.status = status)).map LedgerRow.totalCents).sum :=
        sum_filter_of_zero hempty
    _ = (((withStatus db status).filter (fun p => (some p.expertId).isSome)).map
          Payout.amountCents).sum := by
        rw [hone, hgroups]
        apply sum_groupSum _ _ hkeys
        intro p hp k hk
        obtain ⟨e, he⟩ := h.payoutExpert (List.mem_filter.mp hp).1
        rw [← Option.some.inj hk, ← Table.get_pk he]
        exact List.mem_map_of_mem (Table.get_mem he)
    _ = sumCents (withStatus db status) := by simp [sumCents]

theorem grandTotal_eq (h : Linked db) :
    (ledger db).grandTotalCents = sumCents db.payouts.rows := by
  have hsum : ∀ l : List Payout, sumCents (l.filter (fun p => p.status = .pending)) +
      sumCents (l.filter (fun p => p.status = .withheld)) +
        sumCents (l.filter (fun p => p.status = .paid)) = sumCents l := by
    intro l
    induction l with
    | nil => rfl
    | cons p l ih =>
      simp only [sumCents] at ih ⊢
      cases hs : p.status <;> simp [hs] <;> omega
  show (ledger db).totalsByStatus .pending + (ledger db).totalsByStatus .withheld +
    (ledger db).totalsByStatus .paid = _
  rw [totalsByStatus_eq h, totalsByStatus_eq h, totalsByStatus_eq h]
  exact hsum db.payouts.rows

/-- The statements of all periods add up to what is paid. -/
theorem periods_balance (h : Linked db) (hbook : Booked db) :
    (db.payoutPeriods.rows.map (fun P => (periodTotals db P).totalCents)).sum =
      (ledger db).totalsByStatus .paid := by
  have hkeys : (db.payoutPeriods.rows.map PayoutPeriod.id).Nodup := db.payoutPeriods.nodup_pk
  -- the statements are the groups of the paid payouts by period
  have hgroups : db.payoutPeriods.rows.map (fun P => (periodTotals db P).totalCents) =
      (db.payoutPeriods.rows.map PayoutPeriod.id).map
        (groupSum Payout.periodId Payout.amountCents db.payouts.rows) := by
    rw [List.map_map]
    apply List.map_congr_left
    intro P _
    have hfilter : periodPayouts db P.id =
        db.payouts.rows.filter (fun p => p.periodId = some P.id) :=
      List.filter_congr (fun p _ => by rw [Bool.eq_iff_iff]; simp)
    simp [periodTotals, hfilter, groupSum, sumCents]
  have hpaid : db.payouts.rows.filter (fun p => p.periodId.isSome) = withStatus db .paid := by
    apply List.filter_congr
    intro p hp
    have hb := (hbook p hp).1
    by_cases hs : p.status = .paid
    · simp [hs, hb.mp hs]
    · simpa [hs] using fun he => hs (hb.mpr he)
  rw [totalsByStatus_eq h, hgroups, sum_groupSum _ _ hkeys, hpaid]
  · rfl
  · intro p hp k hk
    obtain ⟨q, hq⟩ := (h.payouts p hp).period k hk
    rw [← Table.get_pk hq]
    exact List.mem_map_of_mem (Table.get_mem hq)

theorem sumCents_map {f : Payout → Payout} (hf : ∀ p : Payout, p.SameTerms (f p))
    (l : List Payout) : sumCents (l.map f) = sumCents l := by
  unfold sumCents
  rw [List.map_map]
  congr 1
  apply List.map_congr_left
  intro p _
  show (f p).amountCents = p.amountCents
  rw [hf p]

/-- New payouts are all that moves the total. -/
theorem sumCents_appends (h : Appends db.payouts db'.payouts) :
    sumCents db'.payouts.rows = sumCents db.payouts.rows + sumCents (newPayouts db db') := by
  obtain ⟨f, new, hrows, hterms⟩ := h
  have hid (p : Payout) : (f p).gradeId = p.gradeId := by rw [hterms p]
  -- the old rows keep their grade, and the new ones have grades without a payout
  have hold : (db.payouts.rows.map f).filter
      (fun p => (db.payouts.get p.gradeId).isNone) = [] := by
    rw [List.filter_eq_nil_iff]
    intro p' hp'
    obtain ⟨p, hp, rfl⟩ := List.mem_map.mp hp'
    have hget : db.payouts.get p.gradeId = some p := db.payouts.get_of_mem hp
    simp [hid, hget]
  have hnew : new.filter (fun p => (db.payouts.get p.gradeId).isNone) = new := by
    rw [List.filter_eq_self]
    intro p hp
    rw [Option.isNone_iff_eq_none, Table.get_eq_none]
    intro q hq he
    have hd := db'.payouts.distinct
    rw [hrows] at hd
    have hclash := (List.pairwise_append.mp hd).2.2 (f q) (List.mem_map_of_mem hq) p hp
    exact hclash (Or.inl ((hid q).trans he))
  have hnewPayouts : newPayouts db db' = new := by
    rw [newPayouts, hrows, List.filter_append, hold, hnew, List.nil_append]
  rw [hnewPayouts, hrows]
  unfold sumCents at *
  rw [List.map_append, List.sum_append]
  congr 1
  exact sumCents_map hterms db.payouts.rows

end Sums

/-- The law of period statements after the requests `rs`. -/
structure PeriodLaw (rs : List Request) : Prop where
  closing : ∀ r label actor P db', r.op = .closePeriod label actor →
    step r (after rs) = .ok (db', .period P) → P ∈ (after (rs ++ [r])).payoutPeriods ∧
      (periodTotals (after (rs ++ [r])) P).totalCents = sumCents (withStatus (after rs) .pending) ∧
      (periodTotals (after (rs ++ [r])) P).payoutCount = (withStatus (after rs) .pending).length
  frozen : ∀ P ∈ (after rs).payoutPeriods, ∀ qs,
    periodTotals (after (rs ++ qs)) P = periodTotals (after rs) P ∧
      periodPayouts (after (rs ++ qs)) P.id = periodPayouts (after rs) P.id
  paid : ∀ p ∈ (after rs).payouts, (p.status = .paid ↔ p.periodId.isSome = true) ∧
    (p.status = .paid ↔ p.paidAt.isSome = true)
  onePeriod : ∀ p ∈ (after rs).payouts, p.status = .paid →
    ∃ P ∈ (after rs).payoutPeriods, p ∈ periodPayouts (after rs) P.id ∧
      ∀ Q ∈ (after rs).payoutPeriods, p ∈ periodPayouts (after rs) Q.id → Q = P
  stays : ∀ p ∈ (after rs).payouts, p.status = .paid → ∀ qs, p ∈ (after (rs ++ qs)).payouts
  balance : ((after rs).payoutPeriods.rows.map
    (fun P => (periodTotals (after rs) P).totalCents)).sum =
      (ledger (after rs)).totalsByStatus .paid
  grandTotal : ∀ qs, (ledger (after (rs ++ qs))).grandTotalCents =
    (ledger (after rs)).grandTotalCents + sumCents (newPayouts (after rs) (after (rs ++ qs)))

section Runs
variable {rs : List Request}

/-- A closing takes exactly the pending payouts into the new period. -/
theorem closing_statement {db db' : Db} {env : Env} {label actor : String} {P : PayoutPeriod}
    (hlinked : Linked db) (hbook : Booked db)
    (h : closePeriod env db label actor = .ok (db', P)) :
    P ∈ db'.payoutPeriods ∧
      periodPayouts db' P.id = (withStatus db .pending).map (Payout.paidIn P.id env.now) := by
  obtain ⟨periods, events, hP, hi, hdb'⟩ := closePeriod_ok h
  rw [hdb']
  refine ⟨(Table.mem_insert hi).mpr (Or.inr rfl), ?_⟩
  -- row by row, whatever part of the table is looked at
  have hrows : ∀ l : List Payout, (∀ p ∈ l, p ∈ db.payouts) →
      (l.map (fun p => if p.due then p.paidIn P.id env.now else p)).filter
          (fun p => p.periodId == some P.id) =
        (l.filter (fun p => p.status = .pending)).map (Payout.paidIn P.id env.now) := by
    intro l hl
    induction l with
    | nil => rfl
    | cons p l ih =>
      have ih := ih (fun x hx => hl x (List.mem_cons_of_mem p hx))
      have hmem := hl p List.mem_cons_self
      have hbooked := (hbook p hmem).1
      rw [List.map_cons, List.filter_cons, ih, List.filter_cons]
      by_cases hs : p.status = .pending
      · have hnone : p.periodId = none := by
          rw [← Option.not_isSome_iff_eq_none]
          intro he
          exact absurd (hs.symm.trans (hbooked.mpr he)) (by decide)
        have hdue : p.due = true := by simp [Payout.due, hs, hnone]
        simp [hdue, hs, Payout.paidIn]
      · have hdue : p.due = false := by simp [Payout.due, hs]
        have hother : p.periodId ≠ some P.id := by
          intro he
          -- the period is fresh, so no payout refers to it
          obtain ⟨q, hq⟩ := (hlinked.payouts p hmem).period P.id he
          exact Table.insert_fresh hi (Table.get_mem hq) (Table.get_pk hq)
        simp [hdue, hs, hother]
  exact hrows db.payouts.rows (fun _ hp => hp)

theorem statement_frozen {P : PayoutPeriod} (hP : P ∈ (after rs).payoutPeriods)
    (qs : List Request) :
    periodPayouts (after (rs ++ qs)) P.id = periodPayouts (after rs) P.id := by
  have hrun : Booked (after (rs ++ qs)) ∧ P ∈ (after (rs ++ qs)).payoutPeriods ∧
      periodPayouts (after (rs ++ qs)) P.id = periodPayouts (after rs) P.id := by
    apply after_append_invariant (P := fun db => Booked db ∧ P ∈ db.payoutPeriods ∧
      periodPayouts db P.id = periodPayouts (after rs) P.id)
    · rintro r db db' ⟨hbook, hmem, hsame⟩ he
      refine ⟨hbook.effect he, ?_, (he.statement_stays hbook hmem).trans hsame⟩
      exact Table.get_mem (he.retains.period (db.payoutPeriods.get_of_mem hmem))
    · exact ⟨Booked.after rs, hP, rfl⟩
  exact hrun.2.2

/-- Over every history a closing sums up what was pending, nothing rewrites a
statement afterwards, and statements and ledger agree. -/
theorem period_law (rs : List Request) : PeriodLaw rs := by
  have hlinked := Linked.after rs
  have hbook := Booked.after rs
  -- the closing, the frozen statement, the paid rows, their one statement, the totals
  refine ⟨fun r label actor P db' hop hstep => ?_, fun P hP qs => ?_, hbook, fun p hp hs => ?_,
    fun p hp hs qs => ?_, periods_balance hlinked hbook, fun qs => ?_⟩
  · have hrun : after (rs ++ [r]) = db' := by
      rw [after, run_concat]
      exact commit_of_ok step hstep
    simp only [step, hop] at hstep
    obtain ⟨Q, hclose, hQ⟩ := answer_ok hstep
    obtain rfl := Response.period.inj hQ
    obtain ⟨hP, hpayouts⟩ := closing_statement hlinked hbook hclose
    rw [hrun]
    refine ⟨hP, ?_, ?_⟩
    · show sumCents (periodPayouts db' P.id) = _
      rw [hpayouts]
      exact sumCents_map (f := Payout.paidIn P.id r.env.now) (fun _ => rfl) _
    · show (periodPayouts db' P.id).length = _
      rw [hpayouts, List.length_map]
  -- no later request touches the statement
  · have hsame := statement_frozen hP qs
    refine ⟨?_, hsame⟩
    unfold periodTotals
    rw [hsame]
  -- a paid payout is in exactly one statement
  · obtain ⟨k, hk⟩ := Option.isSome_iff_exists.mp ((hbook p hp).1.mp hs)
    obtain ⟨P, hP⟩ := (hlinked.payouts p hp).period k hk
    have hPk : p.periodId = some P.id := by rw [hk, ← Table.get_pk hP]; rfl
    refine ⟨P, Table.get_mem hP, List.mem_filter.mpr ⟨hp, by simpa using hPk⟩, fun Q hQ hpQ => ?_⟩
    have hQk : p.periodId = some Q.id := by simpa using (List.mem_filter.mp hpQ).2
    exact Table.eq_of_pk _ hQ (Table.get_mem hP) (Option.some.inj (hQk.symm.trans hPk))
  · exact after_append_invariant (P := fun db => p ∈ db.payouts)
      (fun h he => he.paid_stays h hs) hp qs
  · rw [grandTotal_eq (Linked.after (rs ++ qs)), grandTotal_eq hlinked]
    apply sumCents_appends
    apply after_append_invariant (P := fun db => Appends (after rs).payouts db.payouts)
      (fun h he => h.effect he)
    exact ⟨id, [], by rw [List.map_id, List.append_nil], Payout.SameTerms.refl⟩

end Runs

end Panelist
