import Panelist.PeriodCsv
import Panelist.Statements
import Panelist.Withholding

/-! `period_csv`: the statement of a period as the service's `csv.writer` writes it. Nothing in it
can break its table, and nothing that happens later changes a character of it. -/
namespace Panelist
open Relational Transaction

/-! ### The text -/

/-- A payout and the name it joins with. -/
abbrev StatementRow := Payout × String

/-- What the text takes from outside the model: a `datetime` in the zone of the database session,
the collation of the database, and what it makes of `ORDER BY name, created_at`, where the order
of ties is its own. -/
structure Printing where
  isoformat : Time → List Char
  collates : String → String → Prop
  arrange : List StatementRow → List StatementRow
  arrange_perm : ∀ rows, (arrange rows).Perm rows
  arrange_ordered : ∀ rows, (arrange rows).Pairwise (fun a b =>
    collates a.2 b.2 ∧ (collates b.2 a.2 → a.1.createdAt ≤ b.1.createdAt))

def statementColumns : Csv.Record :=
  ["period".toList, "payout_id".toList, "expert_id".toList, "expert_name".toList,
    "task_id".toList, "tier".toList, "task_type".toList, "amount_cents".toList, "paid_at".toList]

def statementFields (printing : Printing) (period : PayoutPeriod) (row : StatementRow) :
    Csv.Record :=
  let (payout, name) := row
  [period.label.toList, payout.id.str.toList, payout.expertId.str.toList,
    name.toList, payout.taskId.str.toList, payout.tier.value.toList, payout.taskType.toList,
    (toString payout.amountCents).toList, (payout.paidAt.map printing.isoformat).getD []]

/-- The query of `period_csv` before its `ORDER BY`. -/
def statementRows (db : Db) (period : PayoutPeriod) : List StatementRow :=
  (periodPayouts db period.id).filterMap (fun p =>
    (db.experts.get p.expertId).map (fun e => (p, e.name)))

def periodCsv (printing : Printing) (db : Db) (period : PayoutPeriod) : List Char :=
  Csv.write (statementColumns ::
    (printing.arrange (statementRows db period)).map (statementFields printing period))

/-- What a reader of the table adds up. -/
def csvTotal (text : List Char) : ℤ :=
  (((Csv.parse text).getD []).tail.map (fun r => Port.readDecimal (r.getD 7 []))).sum

/-! ### Names -/

def Expert.SameName (e e' : Expert) : Prop := e'.name = e.name

theorem Expert.SameName.trans {e e' e'' : Expert} (h : e.SameName e') (h' : e'.SameName e'') :
    e.SameName e'' := Eq.trans h' h

/-- No effect renames an expert. -/
theorem Effect.names {r : Request} {db db' : Db} (h : Effect r db db') :
    db.experts.Evolves Expert.SameName db'.experts := by
  have hrefl (e : Expert) : e.SameName e := rfl
  cases h with
  | joined hs hi => exact .insert hrefl hi
  | recalibrated h =>
    obtain ⟨f, hf, hsame, rfl⟩ := h
    apply Table.Evolves.map (h := hf)
    intro e
    unfold Expert.SameName
    rw [hsame e]
  | paused =>
    exact .update (f := Expert.withStatus .paused) (h := fun _ => rfl) hrefl (fun _ => rfl)
  | @statusSet e status =>
    exact .update (f := Expert.withStatus status) (h := fun _ => rfl) hrefl (fun _ => rfl)
  | claimed => exact .update (f := Expert.served) (h := fun _ => rfl) hrefl (fun _ => rfl)
  | _ => exact .refl hrefl db.experts

theorem names_after (rs qs : List Request) :
    (after rs).experts.Evolves Expert.SameName (after (rs ++ qs)).experts :=
  after_append_invariant (P := fun db => (after rs).experts.Evolves Expert.SameName db.experts)
    (fun h he => h.trans Expert.SameName.trans he.names)
    (.refl (R := Expert.SameName) (fun _ => rfl) _) qs

/-! ### The rows -/

section Rows
variable {db : Db} {period : PayoutPeriod} {printing : Printing}

theorem mem_statementRows {row : StatementRow} : row ∈ statementRows db period ↔
    row.1 ∈ periodPayouts db period.id ∧
      ∃ e, db.experts.get row.1.expertId = some e ∧ e.name = row.2 := by
  obtain ⟨payout, name⟩ := row
  simp only [statementRows, List.mem_filterMap, Option.map_eq_some_iff, Prod.mk.injEq]
  constructor
  · rintro ⟨p, hp, e, he, rfl, hname⟩
    exact ⟨hp, e, he, hname⟩
  · rintro ⟨hp, e, he, hname⟩
    exact ⟨payout, hp, e, he, rfl, hname⟩

/-- The join loses no payout: each has its expert. -/
theorem statementRows_fst (h : Linked db) :
    (statementRows db period).map Prod.fst = periodPayouts db period.id := by
  have hjoin : ∀ l : List Payout, (∀ p ∈ l, p ∈ db.payouts) →
      (l.filterMap (fun p => (db.experts.get p.expertId).map (fun e => (p, e.name)))).map
        Prod.fst = l := by
    intro l hl
    induction l with
    | nil => rfl
    | cons p l ih =>
      obtain ⟨hp, hl⟩ := List.forall_mem_cons.mp hl
      obtain ⟨e, he⟩ := h.payoutExpert hp
      rw [List.filterMap_cons, he, Option.map_some]
      exact congrArg (p :: ·) (ih hl)
  apply hjoin
  intro p hp
  exact (List.mem_filter.mp hp).1

/-- Whatever stands in its fields, the text is read back. -/
theorem parse_periodCsv : Csv.parse (periodCsv printing db period) =
    some (statementColumns ::
      (printing.arrange (statementRows db period)).map (statementFields printing period)) := by
  apply Csv.parse_write
  intro r hr
  rcases List.mem_cons.mp hr with rfl | hr
  · exact List.cons_ne_nil _ _
  · obtain ⟨row, -, rfl⟩ := List.mem_map.mp hr
    exact List.cons_ne_nil _ _

theorem csvTotal_periodCsv (h : Linked db) :
    csvTotal (periodCsv printing db period) = (periodTotals db period).totalCents := by
  have hread (row : StatementRow) :
      Port.readDecimal ((statementFields printing period row).getD 7 []) = row.1.amountCents :=
    Port.readDecimal_toString row.1.amountCents
  calc csvTotal (periodCsv printing db period)
      = ((printing.arrange (statementRows db period)).map (fun row => row.1.amountCents)).sum := by
        rw [csvTotal, parse_periodCsv, Option.getD_some, List.tail_cons, List.map_map]
        congr 1
        exact List.map_congr_left (fun row _ => hread row)
    _ = ((statementRows db period).map (fun row => row.1.amountCents)).sum :=
        ((printing.arrange_perm _).map _).sum_eq
    _ = sumCents ((statementRows db period).map Prod.fst) := by rw [sumCents, List.map_map]; rfl
    _ = (periodTotals db period).totalCents := by rw [statementRows_fst h]; rfl

end Rows

/-- What the statement of a period says, row by row. -/
structure Statement (printing : Printing) (db : Db) (period : PayoutPeriod)
    (rows : List StatementRow) : Prop where
  reads : Csv.parse (periodCsv printing db period) =
    some (statementColumns :: rows.map (statementFields printing period))
  payouts : (rows.map Prod.fst).Perm (periodPayouts db period.id)
  names : ∀ row ∈ rows, ∃ e, db.experts.get row.1.expertId = some e ∧ e.name = row.2
  order : rows.Pairwise (fun a b => printing.collates a.2 b.2 ∧
    (printing.collates b.2 a.2 → a.1.createdAt ≤ b.1.createdAt))
  total : csvTotal (periodCsv printing db period) = (periodTotals db period).totalCents

theorem statement_of_linked {db : Db} (h : Linked db) (printing : Printing)
    (period : PayoutPeriod) :
    Statement printing db period (printing.arrange (statementRows db period)) where
  reads := parse_periodCsv
  payouts := by
    rw [← statementRows_fst h]
    exact (printing.arrange_perm _).map Prod.fst
  names _ hrow := (mem_statementRows.mp ((printing.arrange_perm _).mem_iff.mp hrow)).2
  order := printing.arrange_ordered _
  total := csvTotal_periodCsv h

section Runs
variable {rs : List Request}

theorem statementRows_frozen {P : PayoutPeriod} (hP : P ∈ (after rs).payoutPeriods)
    (qs : List Request) : statementRows (after (rs ++ qs)) P = statementRows (after rs) P := by
  unfold statementRows
  rw [statement_frozen hP qs]
  apply List.filterMap_congr
  intro p hp
  -- the expert of a payout is stored already, under the name it keeps
  obtain ⟨e, he⟩ := (Linked.after rs).payoutExpert (List.mem_filter.mp hp).1
  obtain ⟨e', he', hname⟩ := names_after rs qs p.expertId e he
  have hname : e'.name = e.name := hname
  rw [he, he', Option.map_some, Option.map_some, hname]

/-- After every run the statement of a closed period reads back as its payouts, each once, with
the names of their experts in order, and adds up to the period's total. No later request changes
the text, and the texts of all periods add up to what the ledger has as paid. -/
theorem statement_reads_back (printing : Printing) {P : PayoutPeriod}
    (hP : P ∈ (after rs).payoutPeriods) (qs : List Request) :
    (∃ rows, Statement printing (after rs) P rows) ∧
    periodCsv printing (after (rs ++ qs)) P = periodCsv printing (after rs) P ∧
    ((after rs).payoutPeriods.rows.map
        (fun Q => csvTotal (periodCsv printing (after rs) Q))).sum =
      (ledger (after rs)).totalsByStatus .paid := by
  have hlinked := Linked.after rs
  refine ⟨⟨_, statement_of_linked hlinked printing P⟩, ?_, ?_⟩
  · unfold periodCsv
    rw [statementRows_frozen hP qs]
  · rw [← periods_balance hlinked (Booked.after rs)]
    exact congrArg List.sum (List.map_congr_left (fun Q _ => csvTotal_periodCsv hlinked))

end Runs

namespace Scenario

/-- One payout, paid in a period with a comma in its label. -/
def booked : List Request := single ++ [approve 8, call 9 (.closePeriod "September, 2026" "admin")]

/-- `datetime.isoformat()` in UTC. -/
def utcIsoformat (t : Time) : List Char :=
  (Port.isoText (t / 1000)).take 19 ++
    (if t % 1000000 = 0 then [] else '.' :: Port.padded 6 (t % 1000000).toNat) ++ "+00:00".toList

example : utcIsoformat 1788253200000009 = "2026-09-01T09:00:00.000009+00:00".toList := by decide

/-- The collation `C`, by code points. -/
def statementKey (row : StatementRow) : List Char ×ₗ Time := toLex (row.2.toList, row.1.createdAt)

instance : Std.Total (fun a b : StatementRow => statementKey a ≤ statementKey b) :=
  ⟨fun a b => le_total (statementKey a) (statementKey b)⟩

instance : IsTrans StatementRow (fun a b => statementKey a ≤ statementKey b) :=
  ⟨fun _ _ _ hab hbc => hab.trans hbc⟩

def utcPrinting : Printing where
  isoformat := utcIsoformat
  collates a b := a.toList ≤ b.toList
  arrange rows := rows.insertionSort (fun a b => statementKey a ≤ statementKey b)
  arrange_perm rows := List.perm_insertionSort _ rows
  arrange_ordered rows := by
    refine (List.pairwise_insertionSort _ rows).imp (fun {a b} hab => ?_)
    rcases Prod.Lex.le_iff.mp hab with hlt | ⟨heq, hle⟩
    · exact ⟨hlt.le, fun hge => absurd hge (not_le.mpr hlt)⟩
    · exact ⟨le_of_eq heq, fun _ => hle⟩

end Scenario

open Scenario in
theorem statement_reads_back_comma : ∃ P : PayoutPeriod, P.label = "September, 2026" ∧
    (∃ rows, Statement utcPrinting (after booked) P rows) ∧
    periodCsv utcPrinting (after (booked ++ [patch 10 .inactive])) P =
      periodCsv utcPrinting (after booked) P ∧
    ((after booked).payoutPeriods.rows.map
        (fun Q => csvTotal (periodCsv utcPrinting (after booked) Q))).sum =
      (ledger (after booked)).totalsByStatus .paid := by
  have hlabel : ((after booked).payoutPeriods.get 900).map PayoutPeriod.label =
      some "September, 2026" := by decide +kernel
  obtain ⟨P, hget, hname⟩ := Option.map_eq_some_iff.mp hlabel
  exact ⟨P, hname, statement_reads_back utcPrinting (Table.get_mem hget) [patch 10 .inactive]⟩

end Panelist
