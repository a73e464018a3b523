import Panelist.Earnings

/-! The sign and the size of payouts. The rate of a card is checked to be nonnegative when it
is stored; the rate of an expert's own is not, and only an amount that rounds to 0 is paid
from a negative one. -/
namespace Panelist
open Relational Transaction

/-- No payout is negative, and an outvoted grade is paid at most the full rate its expert
and type of task have at that moment. -/
structure PayoutBounds (rs : List Request) : Prop where
  nonneg : ∀ p ∈ (after rs).payouts, 0 ≤ p.amountCents
  outvoted : ∀ earlier r later, rs = earlier ++ r :: later → ∀ p ∈ (after rs).payouts,
    (∀ q ∈ (after earlier).payouts, q.gradeId ≠ p.gradeId) →
    Outvotes p.gradeId (after earlier) r → ∀ expert cents,
    (after earlier).experts.get p.expertId = some expert →
    rateFor (after earlier) expert p.taskType = .ok cents → p.amountCents ≤ cents

/-- `r` outvotes, in `db`, a grade of an expert whose own rate is negative, while outvoted grades
are paid. -/
def OutvotesNegative (db : Db) (r : Request) : Prop :=
  ∃ g ∈ db.grades, Outvotes g.id db r ∧ ∃ expert, db.experts.get g.expertId = some expert ∧
    ∃ own, expert.taskRateCents = some own ∧ own < 0

/-! ### Shares of a rate -/

section Shares
variable {cents : ℤ} {f : ℚ}

/-- An amount that is stored is no more than the rate it is a share of, also where the rate is
too large to be stored. -/
theorem payoutAmount_le (hc : 0 ≤ cents) (hf : 0 ≤ f) (hf' : f ≤ 1)
    (ha : PayableAmount (payoutAmount cents f)) : payoutAmount cents f ≤ cents := by
  rcases lt_or_ge cents (2 ^ 31) with hsmall | hlarge
  · have hcents : (0 : ℚ) ≤ cents := by exact_mod_cast hc
    have hle : (cents : ℚ) * f ≤ cents := mul_le_of_le_one_right hcents hf'
    have hbound : |(cents : ℚ) * f| < 2 ^ 53 := by
      rw [abs_of_nonneg (mul_nonneg hcents hf)]
      have hsmall' : (cents : ℚ) < 2 ^ 31 := by exact_mod_cast hsmall
      linarith
    exact Binary64.nearestEven_le (Binary64.nearest_le hle hbound)
  · exact ha.1.2.le.trans hlarge

/-! The settings hold a double, and the product is rounded once more. -/
example : payoutAmount 45 (Binary64.nearest (7 / 10)) = 31 := by decide +kernel

example : payoutAmount 30 (Binary64.nearest (55 / 100)) = 16 := by decide +kernel

theorem payoutAmount_one (h : |cents| ≤ 2 ^ 53) : payoutAmount cents 1 = cents := by
  rw [payoutAmount, mul_one, Binary64.nearest_intCast h]
  exact Binary64.nearestEven_intCast cents

end Shares

/-! ### Rates over a run -/

/-- Only `PUT /rate-cards` writes rate cards, and it checks them. -/
theorem step_rateCards {r : Request} {db db' : Db} {x : Response} (h : step r db = .ok (db', x)) :
    db'.rateCards = db.rateCards ∨ ∃ body : List RateCardIn, (∀ card ∈ body, 0 ≤ card.rateCents) ∧
      db'.rateCards = body.foldl mergeRateCard db.rateCards := by
  cases hop : r.op
  all_goals
    simp only [step, hop] at h
    obtain ⟨_, h, _⟩ := answer_ok h
  case putRateCards =>
    simp only [putRateCards, bind_ok_iff, require_ok_iff, exists_const, pure_ok_iff,
      Prod.mk.injEq] at h
    obtain ⟨hbody, _, rfl, _⟩ := h
    exact Or.inr ⟨_, hbody, rfl⟩
  -- the others leave them
  all_goals left
  case createExpert =>
    obtain ⟨_, _, _, _, rfl⟩ := createExpert_ok h
    rfl
  case setStatus =>
    obtain ⟨_, _, _, rfl⟩ := setStatus_ok h
    rfl
  case createKey =>
    obtain ⟨_, _, rfl⟩ := createKey_ok h
    rfl
  case createExpertKey =>
    obtain ⟨_, _, rfl⟩ := createExpertKey_ok h
    rfl
  case revokeKey =>
    obtain ⟨_, _, rfl⟩ := revokeKey_ok h
    rfl
  case bootstrap =>
    obtain ⟨_, rfl⟩ := bootstrap_ok h
    rfl
  case createRubric =>
    obtain ⟨_, _, hadd, _, rfl⟩ := createRubric_ok h
    obtain ⟨_, _, _, _, rfl⟩ := addRubric_ok hadd
    rfl
  case publish =>
    obtain ⟨_, _, _, _, _, _, hadd, rfl⟩ := publish_ok h
    obtain ⟨_, _, _, _, rfl⟩ := addRubric_ok hadd
    rfl
  case createTasks =>
    obtain ⟨_, _, _, _, _, _, _, rfl⟩ := createTasks_ok h
    rfl
  case claimNext =>
    obtain ⟨_, _, _, ⟨rfl, _⟩ | ⟨_, _, _, hassign⟩⟩ := claimNext_ok h
    · rfl
    · obtain rfl := congrArg Prod.fst hassign
      rfl
  case claimById =>
    obtain ⟨_, _, _, _, _, _, _, _, hassign⟩ := claimById_ok_iff.mp h
    obtain rfl := congrArg Prod.fst hassign
    rfl
  case release =>
    obtain ⟨_, _, _, _, _, _, rfl⟩ := release_ok h
    rfl
  case reclaim =>
    obtain rfl := congrArg Prod.fst (pure_ok_iff.mp h)
    rfl
  case submit =>
    obtain ⟨_, _, _, _, _, _, _, _, _, _, _, _, _, _, _, hcheck⟩ := submit_ok h
    obtain ⟨_, _, _, _, _, _, _, _, rfl⟩ := checkGrade_ok hcheck
    rfl
  case review =>
    obtain ⟨_, _, _, _, _, _, _, _, _, _, _, _, _, _, rfl⟩ := review_ok h
    rfl
  case resolve =>
    obtain ⟨_, _, _, _, _, _, _, _, _, _, hloop, rfl⟩ := resolve_ok h
    obtain ⟨_, _, _, _, _, _, _, _, rfl⟩ := resolveLoop_ok (gradesFor_experts db _) hloop
    rfl
  case closePeriod =>
    obtain ⟨_, _, _, _, rfl⟩ := closePeriod_ok h
    rfl
  case exportDelivery =>
    obtain ⟨_, _, _, _, rfl⟩ := exportDelivery_ok h
    rfl
  case tick =>
    obtain ⟨_, _, _, _, rfl⟩ := tick_ok h
    rfl

theorem mergeRateCard_nonneg {cards : Table RateCard} {card : RateCardIn}
    (h : ∀ c ∈ cards, 0 ≤ c.rateCents) (hcard : 0 ≤ card.rateCents) :
    ∀ c ∈ mergeRateCard cards card, 0 ≤ c.rateCents := by
  intro c hc
  unfold mergeRateCard at hc
  split at hc
  · rename_i hins
    rcases (Table.mem_insert hins).mp hc with hold | rfl
    · exact h c hold
    · exact hcard
  · obtain ⟨c₀, hc₀, rfl⟩ := (Table.mem_update
      (f := fun c : RateCard => { c with rateCents := card.rateCents }) (fun _ => rfl)).mp hc
    split_ifs
    · exact hcard
    · exact h c₀ hc₀

/-- Every stored rate card is nonnegative. -/
theorem rateCards_nonneg (rs : List Request) : ∀ c ∈ (after rs).rateCards, 0 ≤ c.rateCents := by
  have hempty : ∀ c ∈ Db.empty.rateCards, 0 ≤ c.rateCents :=
    fun c hc => absurd hc (Table.not_mem_empty c)
  refine run_invariant step (P := fun db => ∀ c ∈ db.rateCards, 0 ≤ c.rateCents)
    (fun r db db' x h hstep => ?_) hempty rs
  rcases step_rateCards hstep with hsame | ⟨body, hbody, hmerged⟩
  · rw [hsame]
    exact h
  -- the cards of one request are merged one after another
  · have hfold : ∀ (body : List RateCardIn) (cards : Table RateCard),
        (∀ card ∈ body, 0 ≤ card.rateCents) → (∀ c ∈ cards, 0 ≤ c.rateCents) →
        ∀ c ∈ body.foldl mergeRateCard cards, 0 ≤ c.rateCents := by
      intro body
      induction body with
      | nil => exact fun _ _ hcards => hcards
      | cons card body ih =>
        intro cards hbody hcards
        obtain ⟨hcard, hbody⟩ := List.forall_mem_cons.mp hbody
        exact ih _ hbody (mergeRateCard_nonneg hcards hcard)
    rw [hmerged]
    exact hfold body db.rateCards hbody h

/-- A rate is negative only as an expert's own. -/
theorem BaseRate.nonneg {rs : List Request} {expert : Expert} {taskType : String} {cents : ℤ}
    (h : BaseRate (after rs) expert taskType cents)
    (hown : ∀ own, expert.taskRateCents = some own → 0 ≤ own) : 0 ≤ cents := by
  rcases h with hset | ⟨-, card, hcard, rfl⟩
  · exact hown cents hset
  · refine rateCards_nonneg rs card ?_
    rcases Option.or_eq_some_iff.mp hcard with hget | ⟨-, hget⟩
    · exact Table.get_mem hget
    · exact Table.get_mem hget

/-! ### The bounds -/

section Bounds
variable {rs earlier later : List Request} {r : Request} {p : Payout}

/-- With no negative rate a payout is at most the full rate. -/
theorem Creates.bounds (h : Creates p (after earlier) r)
    (hrate : 0 ≤ r.env.settings.consensusOutvotedRate ∧ r.env.settings.consensusOutvotedRate ≤ 1)
    (hown : ∀ expert, (after earlier).experts.get p.expertId = some expert →
      ∀ own, expert.taskRateCents = some own → 0 ≤ own) :
    ∀ expert cents, (after earlier).experts.get p.expertId = some expert →
      rateFor (after earlier) expert p.taskType = .ok cents → p.amountCents ≤ cents := by
  obtain ⟨expert, cents, hx, -, hbase, hamount⟩ := h.terms
  have hc : 0 ≤ cents := hbase.nonneg (hown expert hx)
  intro expert' cents' hx' hr'
  obtain rfl := Option.some.inj (hx.symm.trans hx')
  obtain rfl : cents' = cents := Except.ok.inj (hr'.symm.trans (baseRate_iff.mpr hbase))
  have hpayable := h.payable
  rcases hamount with ⟨-, hamount⟩ | ⟨-, hamount⟩
  · rw [hamount] at hpayable ⊢
    exact payoutAmount_le hc zero_le_one le_rfl hpayable
  · rw [hamount] at hpayable ⊢
    split_ifs at hpayable ⊢
    · exact payoutAmount_le hc zero_le_one le_rfl hpayable
    · exact payoutAmount_le hc hrate.1 hrate.2 hpayable

/-- A payout goes to the author of its grade, who is known before the payout is. -/
theorem paid_author (hrs : rs = earlier ++ r :: later) (hp : p ∈ (after rs).payouts) {g : Grade}
    (hg : (after earlier).grades.get p.gradeId = some g) : p.expertId = g.expertId := by
  obtain ⟨g', hg', hauthor, -⟩ := ((Linked.after rs).payouts p hp).grade
  have hkept : (after rs).grades.get p.gradeId = some g := by
    rw [hrs]
    exact (retains_after earlier (r :: later)).grade hg
  obtain rfl := Option.some.inj (hkept.symm.trans hg')
  exact hauthor

/-- A payout for a grade that a request outvotes, and that had none, is created by it. -/
theorem creates_of_outvotes (hp : p ∈ (after (earlier ++ r :: later)).payouts)
    (hfirst : ∀ q ∈ (after earlier).payouts, q.gradeId ≠ p.gradeId)
    (hout : Outvotes p.gradeId (after earlier) r) : Creates p (after earlier) r := by
  obtain ⟨-, -, -, -, -, -, -, hok, -⟩ := id hout
  obtain ⟨⟨db', x⟩, hstep⟩ := exists_of_isOk hok
  obtain ⟨q, hq, hqp⟩ := (paid_step hstep p.gradeId).mpr (Or.inr (Or.inr hout))
  have hafter : after (earlier ++ [r]) = db' :=
    (run_concat step .empty earlier r).trans (commit_of_ok step hstep)
  rcases created_step hstep hq with ⟨q₀, hq₀, hterms⟩ | hcreates
  · refine absurd ?_ (hfirst q₀ hq₀)
    rw [hterms] at hqp
    exact hqp
  · -- the row found at the creation is the one stored in the end
    have hkeep := (retains_after (earlier ++ [r]) later).payouts.mem (hafter ▸ hq)
    rw [List.append_assoc, List.singleton_append] at hkeep
    obtain ⟨p', hp', hpk, hterms⟩ := hkeep
    have hsame : p' = p := Table.eq_of_pk _ hp' hp (hpk.trans hqp)
    rw [← hsame]
    exact hcreates.of_terms hterms

end Bounds

/-- With an outvoted rate between 0 and 1 payouts keep their bounds exactly when no adjudication
outvotes a grade of an expert with a negative rate of their own; what such an expert is
paid, if anything, is a share that rounds to 0. -/
theorem payoutBounds_iff (rs : List Request)
    (hrate : ∀ r ∈ rs, 0 ≤ r.env.settings.consensusOutvotedRate ∧
      r.env.settings.consensusOutvotedRate ≤ 1) :
    PayoutBounds rs ↔ Along step (fun db r => ¬ OutvotesNegative db r) .empty rs := by
  rw [← along_iff]
  constructor
  · rintro h earlier r later hrs ⟨g, hg, hout, expert, hx, own, hown, hneg⟩
    -- the grade is paid by this very request, at least 0
    obtain ⟨p, hp, hpg⟩ := (earned_after rs g.id).mpr (Or.inr ⟨earlier, r, later, hrs, hout⟩)
    rw [← hpg] at hout
    have hfirst : ∀ q ∈ (after earlier).payouts, q.gradeId ≠ p.gradeId := by
      intro q hq he
      exact payouts_decided earlier q hq (he ▸ hout.undecided)
    have hauthor : p.expertId = g.expertId :=
      paid_author hrs hp (hpg ▸ (after earlier).grades.get_of_mem hg)
    have hnonneg : 0 ≤ p.amountCents := (creates_of_outvotes (hrs ▸ hp) hfirst hout).payable.2
    have hle : p.amountCents ≤ own := h.outvoted earlier r later hrs p hp hfirst hout expert own
      (hauthor ▸ hx) (baseRate_iff.mpr (Or.inl hown))
    omega
  · intro h
    refine ⟨fun p hp => ?_, fun earlier r later hrs p hp hfirst hout => ?_⟩
    · obtain ⟨earlier, r, later, hrs, hcreates⟩ := created_after rs p hp
      exact hcreates.payable.2
    · have hcreates := creates_of_outvotes (hrs ▸ hp) hfirst hout
      refine hcreates.bounds (hrate r (by rw [hrs]; simp)) ?_
      intro expert hx own hown
      by_contra hneg
      obtain ⟨g, -, -, -, -, -, -, -, hg, -⟩ := id hout
      have hauthor : p.expertId = g.expertId := paid_author hrs hp hg
      have hid : g.id = p.gradeId := Table.get_pk hg
      exact h earlier r later hrs ⟨g, Table.get_mem hg, hid ▸ hout, expert, hauthor ▸ hx, own, hown,
        not_le.mp hneg⟩

namespace Scenario

/-- Expert 300 has a rate of −1 of their own; grades 700 and 900 on task 500 disagree. -/
def disputed : List Request :=
  [call 1 (.createRubric "helpfulness" 1 [⟨"accuracy", "Accuracy", 1, 1, 5⟩] "admin"),
   call 2 (.putRateCards [⟨.junior, "default", 300⟩] "admin"),
   call 3 (.createExpert ⟨"A", ["python"], .junior, some (-1)⟩ "admin"),
   call 4 (.createExpert ⟨"B", ["python"], .junior, none⟩ "admin"),
   call 5 (.createTasks [{ task with requiredGrades := 2 }] "admin"),
   call 6 (.claimNext 300), call 7 (.submit 300 (grade 500 1)),
   call 8 (.claimNext 400), call 9 (.submit 400 (grade 500 5))]

/-- Grade 900 is delivered, grade 700 is outvoted and paid half of −1, rounded. -/
def adjudication : Request := call 10 (.resolve 500 900 "Closer." 7 "senior")

end Scenario

open Scenario in
/-- The outvoted grade of the expert with rate −1 is paid 0. -/
theorem outvoted_above_rate : ¬ PayoutBounds (disputed ++ [adjudication]) := by
  have hpaid : ((after (disputed ++ [adjudication])).payouts.get 700).map (fun p =>
      (p.expertId, p.amountCents)) = some (300, 0) := by
    decide +kernel
  have hexpert : ((after disputed).experts.get 300).map Expert.taskRateCents =
      some (some (-1)) := by
    decide +kernel
  have hgrade : ((after disputed).grades.get 700).map Grade.taskId = some 500 := by
    decide +kernel
  have hok : (step adjudication (after disputed)).isOk = true := by
    decide +kernel
  have hnone : (after disputed).payouts.rows.length = 0 := by
    decide +kernel
  obtain ⟨p, hp, hrow⟩ := Option.map_eq_some_iff.mp hpaid
  obtain ⟨hpe, hpa⟩ := Prod.mk.inj hrow
  have hpk : p.gradeId = 700 := Table.get_pk hp
  obtain ⟨expert, hx, hown⟩ := Option.map_eq_some_iff.mp hexpert
  obtain ⟨g, hg, hgt⟩ := Option.map_eq_some_iff.mp hgrade
  intro h
  have hle := h.outvoted disputed adjudication [] rfl p (Table.get_mem hp) (fun q hq => by
      rw [← Table.mem_rows, List.length_eq_zero_iff.mp hnone] at hq
      exact absurd hq List.not_mem_nil)
    (by rw [hpk]; exact ⟨g, 500, 900, _, _, _, rfl, hok, hg, hgt, by decide, by decide⟩)
    expert (-1) (by rw [hpe]; exact hx) (baseRate_iff.mpr (Or.inl hown))
  -- 0 would be at most −1
  omega

open Scenario in
theorem payoutBounds_pair : PayoutBounds (pair 1 5 ++ [adjudication]) ↔
    Along step (fun db r => ¬ OutvotesNegative db r) .empty (pair 1 5 ++ [adjudication]) :=
  payoutBounds_iff _ (by decide +kernel)

end Panelist
