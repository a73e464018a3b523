import Panelist.Csv
import Panelist.Throws

/-! `periodCsv` of the port joins the fields of a row with commas and quotes none of them, where
the service's `csv.writer` quotes what needs it. -/
namespace Panelist.Port
open Script Serial Transaction

/-! ### Dates -/

/-- `padStart(k, "0")` of a whole number. -/
def padded (k n : ℕ) : List Char := (Nat.toDigits 10 n).leftpad k '0'

/-- Year, month and day of a day number, by eras of 400 years that start in March. -/
def civil (day : ℤ) : ℤ × ℕ × ℕ :=
  -- counted from the first of March of year 0, so that a leap day ends its year
  let z := day + 719468
  let era := z / 146097
  let doe := (z % 146097).toNat
  let yoe := (doe - doe / 1460 + doe / 36524 - doe / 146096) / 365
  let doy := doe - (365 * yoe + yoe / 4 - yoe / 100)
  let mp := (5 * doy + 2) / 153
  let month := if mp < 10 then mp + 3 else mp - 9
  (era * 400 + yoe + (if month ≤ 2 then 1 else 0), month, doy - (153 * mp + 2) / 5 + 1)

/-- Four digits, or a sign and six. -/
def yearText (year : ℤ) : List Char :=
  if 0 ≤ year ∧ year ≤ 9999 then padded 4 year.toNat
  else (if year < 0 then '-' else '+') :: padded 6 year.natAbs

def isoText (ms : ℤ) : List Char :=
  let (year, month, day) := civil (ms / 86400000)
  let t := (ms % 86400000).toNat
  yearText year ++ '-' :: padded 2 month ++ '-' :: padded 2 day ++ 'T' :: padded 2 (t / 3600000) ++
    ':' :: padded 2 (t / 60000 % 60) ++ ':' :: padded 2 (t / 1000 % 60) ++
    '.' :: padded 3 (t % 1000) ++ ['Z']

example : isoText 1788253200000 = "2026-09-01T09:00:00.000Z".toList := by decide

/-- The largest time a `Date` holds. -/
def maxTime : ℚ := 8640000000000000

/-- `new Date(ms).toISOString()`. -/
def toISOString (ms : ℚ) : Except Failure (List Char) := do
  require (|ms| ≤ maxTime) (.error "Invalid time value")
  pure (isoText (ms.num.tdiv ms.den))

/-! ### The table of a period -/

/-- The column names. -/
def csvHeader : Csv.Record :=
  ["period".toList, "payout_id".toList, "expert_id".toList, "expert_name".toList,
    "task_id".toList, "tier".toList, "task_type".toList, "amount_cents".toList, "paid_at".toList]

section Table
variable (host : Host) (localeCompare : String → String → ℤ) (P : Platform) (period : PayoutPeriod)

/-- The values of a payout's row. -/
def csvFields (p : Payout) (name : String) (paidAt : List Char) : Csv.Record :=
  [period.label.toList, p.id.toList, p.expertId.toList, name.toList, p.taskId.toList,
    p.tier.value.toList, p.taskType.toList, numberText host.numberText p.amountCents, paidAt]

/-- `p.paidAt === null ? "" : new Date(p.paidAt).toISOString()`. -/
def paidAtText (p : Payout) : Except Failure (List Char) :=
  match p.paidAt with
  | none => pure []
  | some ms => toISOString ms

/-- `this.expert(p.expertId).name`. -/
def payoutName (p : Payout) : Except Failure String :=
  match P.expert p.expertId with
  | .ok expert => .ok expert.name
  | .error e => .error (.service e)

/-- The comparator: by name, then by sequence. -/
def csvOrder (a b : Payout × String) : ℤ :=
  if localeCompare a.2 b.2 ≠ 0 then localeCompare a.2 b.2 else a.1.seq - b.1.seq

def csvRow (row : Payout × String) : Except Failure Csv.Record := do
  let paidAt ← paidAtText row.1
  pure (csvFields host period row.1 row.2 paidAt)

/-- `[header, ...lines].join("\r\n") + "\r\n"`. -/
def csvText (lines : List (List Char)) : List Char :=
  List.intercalate Csv.lineBreak (Csv.joined csvHeader :: lines) ++ Csv.lineBreak

def Platform.periodCsv : Except Failure (List Char) := do
  let named ← (P.inPeriod period).mapM (fun p => (fun name => (p, name)) <$> payoutName P p)
  let sorted := named.insertionSort (fun a b => csvOrder localeCompare a b ≤ 0)
  let rows ← sorted.mapM (csvRow host period)
  pure (csvText (rows.map Csv.joined))

/-- The values of all rows, in the order of the payouts. -/
def Platform.csvRows : Except Failure (List Csv.Record) := do
  let named ← (P.inPeriod period).mapM (fun p => (fun name => (p, name)) <$> payoutName P p)
  named.mapM (csvRow host period)

end Table

/-! ### What needs no quotes -/

/-- Text without a comma, a quote or a line break. -/
def Unquoted (text : List Char) : Prop := text.any Csv.special = false

section Unquoted
variable {a b : List Char} {c : Char}

theorem Unquoted.append (ha : Unquoted a) (hb : Unquoted b) : Unquoted (a ++ b) := by
  rw [Unquoted, List.any_append, Bool.or_eq_false_iff]
  exact ⟨ha, hb⟩

theorem Unquoted.cons (hc : Csv.special c = false) (hb : Unquoted b) : Unquoted (c :: b) := by
  rw [Unquoted, List.any_cons, Bool.or_eq_false_iff]
  exact ⟨hc, hb⟩

theorem Unquoted.of_mem (h : ∀ c ∈ a, Csv.special c = false) : Unquoted a :=
  List.any_eq_false.mpr (fun c hc => by rw [h c hc]; decide)

theorem Unquoted.mem (h : Unquoted a) (hc : c ∈ a) : Csv.special c = false :=
  Bool.eq_false_iff.mpr (List.any_eq_false.mp h c hc)

theorem special_digitChar {d : ℕ} (h : d < 16) : Csv.special (Nat.digitChar d) = false := by
  revert d
  decide

theorem unquoted_digits {base n : ℕ} (hb : 1 < base) (hb' : base ≤ 16) :
    Unquoted (Nat.toDigits base n) := by
  refine .of_mem (fun c hc => ?_)
  obtain ⟨d, hd, rfl⟩ := exists_digitChar hb hc
  exact special_digitChar (hd.trans_le hb')

theorem unquoted_leftpad {k : ℕ} (h : Unquoted a) : Unquoted (a.leftpad k '0') := by
  rw [List.leftpad]
  refine .append (.of_mem (fun c hc => ?_)) h
  rw [List.eq_of_mem_replicate hc]
  decide

theorem unquoted_padded (k n : ℕ) : Unquoted (padded k n) :=
  unquoted_leftpad (unquoted_digits (by decide) (by decide))

theorem unquoted_isoText (ms : ℤ) : Unquoted (isoText ms) := by
  have hyear (y : ℤ) : Unquoted (yearText y) := by
    unfold yearText
    split_ifs
    · exact unquoted_padded _ _
    · exact .cons (by decide) (unquoted_padded _ _)
    · exact .cons (by decide) (unquoted_padded _ _)
  have hpart (c : Char) (k n : ℕ) (hc : Csv.special c = false) : Unquoted (c :: padded k n) :=
    .cons hc (unquoted_padded k n)
  unfold isoText
  dsimp only
  exact (((((((hyear _).append (hpart '-' _ _ (by decide))).append
    (hpart '-' _ _ (by decide))).append (hpart 'T' _ _ (by decide))).append
    (hpart ':' _ _ (by decide))).append (hpart ':' _ _ (by decide))).append
    (hpart '.' _ _ (by decide))).append rfl

theorem unquoted_tier (tier : Tier) : Unquoted tier.value.toList := by
  cases tier <;> rfl

end Unquoted

/-- How numbers are written that are not whole or have more than 21 digits, and how a table's
reader reads what is written: no number needs quotes, and the finite ones are read back. -/
structure Numerals (other : ℚ → List Char) where
  read : List Char → Option ℚ
  unquoted : ∀ q, Unquoted (other q)
  reads : ∀ n : Number, read (numberText other n) = n.toRat

/-- Decimal text of a negative number. -/
theorem toString_negSucc (m : ℕ) :
    (toString (Int.negSucc m)).toList = '-' :: Nat.toDigits 10 (m + 1) := by
  show ("-" ++ Nat.repr (m + 1)).toList = _
  rw [String.toList_append, Nat.repr, String.toList_ofList, String.toList_ofList]
  rfl

theorem toString_ofNat (m : ℕ) : (toString (Int.ofNat m)).toList = Nat.toDigits 10 m := by
  show (Nat.repr m).toList = _
  rw [Nat.repr, String.toList_ofList]

theorem unquoted_int (n : ℤ) : Unquoted (toString n).toList := by
  cases n with
  | ofNat m =>
    rw [toString_ofNat]
    exact unquoted_digits (by decide) (by decide)
  | negSucc m =>
    rw [toString_negSucc]
    exact .cons (by decide) (unquoted_digits (by decide) (by decide))

theorem unquoted_numberText {other : ℚ → List Char} (numerals : Numerals other) (n : Number) :
    Unquoted (numberText other n) := by
  cases n with
  | finite q h =>
    unfold numberText
    dsimp only
    split_ifs
    · exact unquoted_int q.num
    · exact numerals.unquoted q
  | negZero => rfl
  | infinite negative => cases negative <;> rfl
  | nan => rfl

/-- The sum of numbers that are all finite. -/
def exactSum : List (Option ℚ) → Option ℚ
  | [] => some 0
  | x :: xs => x.bind (fun q => (exactSum xs).map (fun s => q + s))

theorem exactSum_perm {xs ys : List (Option ℚ)} (h : xs.Perm ys) : exactSum xs = exactSum ys := by
  induction h with
  | nil => rfl
  | cons x _ ih => rw [exactSum, exactSum, ih]
  | swap x y l =>
    cases x <;> cases y <;> cases hl : exactSum l <;> simp [exactSum, hl, add_left_comm]
  | trans _ _ ih₁ ih₂ => exact ih₁.trans ih₂

theorem exactSum_some (qs : List ℚ) : exactSum (qs.map some) = some qs.sum := by
  induction qs with
  | nil => rfl
  | cons q qs ih => rw [List.map_cons, exactSum, ih, List.sum_cons]; rfl

/-- All amounts are finite, and adding them up from 0 loses nothing to rounding. -/
def AddsUp (amounts : List Number) : Prop :=
  ∃ total, exactSum (amounts.map (·.toRat)) = some total ∧
    (Binary64.Value.sum amounts).toRat = some total

/-- Whole amounts add up as long as they stay below `2 ^ 53`. -/
theorem addsUp_whole {amounts : List Number} {ns : List ℤ}
    (h : amounts.map (·.toRat) = ns.map (fun n : ℤ => some (n : ℚ)))
    (hle : (ns.map abs).sum ≤ 2 ^ 53) : AddsUp amounts := by
  refine ⟨(ns.sum : ℤ), ?_, Binary64.Value.toRat_sum h hle⟩
  have hcast : ns.map (fun n : ℤ => some (n : ℚ)) = (ns.map (fun n : ℤ => (n : ℚ))).map some := by
    rw [List.map_map]
    rfl
  rw [h, hcast, exactSum_some, Int.cast_list_sum]

/-! ### Round trips -/

/-- Read by RFC 4180 the text of a period has the header and a record for each payout, with its
values, and the amounts add up to the total. -/
def RoundTrips (host : Host) (numerals : Numerals host.numberText)
    (localeCompare : String → String → ℤ) (P : Platform) (period : PayoutPeriod) : Prop :=
  ∃ text rows records, P.periodCsv host localeCompare period = .ok text ∧
    P.csvRows host period = .ok rows ∧ Csv.parse text = some (csvHeader :: records) ∧
    records.Perm rows ∧
    ∃ total, exactSum (records.map (fun r => numerals.read (r.getD 7 []))) = some total ∧
      (P.periodTotals period).totalCents.toRat = some total

/-- No text of the payout's row needs quotes, and its time is one a `Date` holds. -/
structure CsvSafe (P : Platform) (period : PayoutPeriod) (p : Payout) : Prop where
  dated : ∀ t, p.paidAt = some t → |t| ≤ maxTime
  label : Unquoted period.label.toList
  id : Unquoted p.id.toList
  expertId : Unquoted p.expertId.toList
  taskId : Unquoted p.taskId.toList
  taskType : Unquoted p.taskType.toList
  name : ∀ expert, P.expert p.expertId = .ok expert → Unquoted expert.name.toList

section Proof
variable {host : Host} {localeCompare : String → String → ℤ} {P : Platform} {period : PayoutPeriod}

theorem mapM_eq_ok {α β ε : Type} {f : α → Except ε β} {g : α → β} {xs : List α}
    (h : ∀ x ∈ xs, f x = .ok (g x)) : xs.mapM f = .ok (xs.map g) := by
  induction xs with
  | nil => rfl
  | cons x xs ih =>
    obtain ⟨hx, hxs⟩ := List.forall_mem_cons.mp h
    rw [List.mapM_cons, hx, ih hxs]
    rfl

theorem csvText_eq (rows : List Csv.Record) :
    csvText (rows.map Csv.joined) = Csv.raw (csvHeader :: rows) := by
  unfold csvText
  generalize csvHeader = header
  induction rows generalizing header with
  | nil => simp [Csv.raw, List.intercalate]
  | cons r rows ih =>
    have hraw : Csv.raw (header :: r :: rows) =
        Csv.joined header ++ (Csv.lineBreak ++ Csv.raw (r :: rows)) := by
      simp [Csv.raw]
    rw [hraw, ← ih r]
    simp [List.intercalate]

/-- The name in a payout's row. -/
def nameOf (P : Platform) (p : Payout) : String :=
  ((P.experts.find? (fun e => e.id = p.expertId)).map Expert.name).getD ""

/-- The last field of a payout's row. -/
def paidText (p : Payout) : List Char :=
  (p.paidAt.map (fun ms => isoText (ms.num.tdiv ms.den))).getD []

theorem payoutName_eq (hl : P.keys.Linked) {p : Payout} (hp : p ∈ P.payouts) :
    ∃ expert, P.expert p.expertId = .ok expert ∧ payoutName P p = .ok (nameOf P p) ∧
      nameOf P p = expert.name := by
  obtain ⟨expert, hx⟩ := expert_exists (hl.paid p.expertId (List.mem_map_of_mem hp))
  have hfind := hx
  rw [Platform.expert, orFail_ok_iff] at hfind
  have hname : nameOf P p = expert.name := by rw [nameOf, hfind]; rfl
  exact ⟨expert, hx, by rw [payoutName, hx, hname], hname⟩

theorem paidAtText_ok_iff {p : Payout} {text : List Char} : paidAtText p = .ok text ↔
    (∀ t, p.paidAt = some t → |t| ≤ maxTime) ∧ paidText p = text := by
  unfold paidAtText paidText
  cases p.paidAt with
  | none => simp
  | some ms =>
    simp only [toISOString, bind_ok_iff, require_ok_iff, exists_const, pure_ok_iff,
      Option.some.injEq, forall_eq', Option.map_some, Option.getD_some]

/-- The row of a payout, for the name that stands in it. -/
def rowOf (host : Host) (period : PayoutPeriod) (row : Payout × String) : Csv.Record :=
  csvFields host period row.1 row.2 (paidText row.1)

theorem csvRow_ok_iff {row : Payout × String} {r : Csv.Record} : csvRow host period row = .ok r ↔
    (∀ t, row.1.paidAt = some t → |t| ≤ maxTime) ∧ rowOf host period row = r := by
  unfold csvRow rowOf
  simp only [bind_ok_iff, pure_ok_iff, paidAtText_ok_iff]
  constructor
  · rintro ⟨text, ⟨hdated, rfl⟩, hr⟩
    exact ⟨hdated, hr⟩
  · rintro ⟨hdated, hr⟩
    exact ⟨_, ⟨hdated, rfl⟩, hr⟩

/-- The payouts of the period with the names of their experts. -/
def namedPayouts (P : Platform) (period : PayoutPeriod) : List (Payout × String) :=
  (P.inPeriod period).map (fun p => (p, nameOf P p))

theorem named_eq (hl : P.keys.Linked) :
    (P.inPeriod period).mapM (fun p => (fun name => (p, name)) <$> payoutName P p) =
      .ok (namedPayouts P period) := by
  refine mapM_eq_ok (fun p hp => ?_)
  obtain ⟨expert, -, hname, -⟩ := payoutName_eq hl (List.mem_of_mem_filter hp)
  rw [hname]
  rfl

theorem mapM_csvRow_ok_iff {named : List (Payout × String)} {rows : List Csv.Record} :
    named.mapM (csvRow host period) = .ok rows ↔
      (∀ row ∈ named, ∀ t, row.1.paidAt = some t → |t| ≤ maxTime) ∧
      named.map (rowOf host period) = rows := by
  induction named generalizing rows with
  | nil => simp [pure, Except.pure]
  | cons row named ih =>
    simp only [List.mapM_cons, bind_ok_iff, csvRow_ok_iff, ih, pure_ok_iff, List.forall_mem_cons,
      List.map_cons]
    constructor
    · rintro ⟨r, ⟨hdated, rfl⟩, rest, ⟨hall, rfl⟩, rfl⟩
      exact ⟨⟨hdated, hall⟩, rfl⟩
    · rintro ⟨⟨hdated, hall⟩, rfl⟩
      exact ⟨_, ⟨hdated, rfl⟩, _, ⟨hall, rfl⟩, rfl⟩

/-- The rows in the order in which the text has them. -/
def sortedPayouts (localeCompare : String → String → ℤ) (P : Platform) (period : PayoutPeriod) :
    List (Payout × String) :=
  (namedPayouts P period).insertionSort (fun a b => csvOrder localeCompare a b ≤ 0)

theorem sortedPayouts_perm :
    (sortedPayouts localeCompare P period).Perm (namedPayouts P period) :=
  List.perm_insertionSort _ _

theorem csvRows_ok_iff (hl : P.keys.Linked) {rows : List Csv.Record} :
    P.csvRows host period = .ok rows ↔
      (∀ row ∈ namedPayouts P period, ∀ t, row.1.paidAt = some t → |t| ≤ maxTime) ∧
      (namedPayouts P period).map (rowOf host period) = rows := by
  unfold Platform.csvRows
  rw [named_eq hl, ← mapM_csvRow_ok_iff]
  rfl

theorem periodCsv_ok_iff (hl : P.keys.Linked) {text : List Char} :
    P.periodCsv host localeCompare period = .ok text ↔
      (∀ row ∈ namedPayouts P period, ∀ t, row.1.paidAt = some t → |t| ≤ maxTime) ∧
      Csv.raw (csvHeader :: (sortedPayouts localeCompare P period).map (rowOf host period)) =
        text := by
  -- a row throws only where its date does
  have hbind : P.periodCsv host localeCompare period = .ok text ↔
      ∃ rows, (sortedPayouts localeCompare P period).mapM (csvRow host period) = .ok rows ∧
        csvText (rows.map Csv.joined) = text := by
    unfold Platform.periodCsv
    rw [named_eq hl]
    simp only [bind_ok_iff, pure_ok_iff, Except.ok.injEq, exists_eq_left']
    rfl
  rw [hbind]
  simp only [mapM_csvRow_ok_iff, sortedPayouts_perm.mem_iff, csvText_eq]
  constructor
  · rintro ⟨_, ⟨hdated, rfl⟩, htext⟩
    exact ⟨hdated, htext⟩
  · rintro ⟨hdated, htext⟩
    exact ⟨_, ⟨hdated, rfl⟩, htext⟩

/-- The fields of a row that are free text decide whether it needs quotes. -/
theorem rowOf_unquoted_iff (numerals : Numerals host.numberText) {row : Payout × String} :
    (∀ f ∈ rowOf host period row, Unquoted f) ↔
      Unquoted period.label.toList ∧ Unquoted row.1.id.toList ∧ Unquoted row.1.expertId.toList ∧
        Unquoted row.2.toList ∧ Unquoted row.1.taskId.toList ∧
        Unquoted row.1.taskType.toList := by
  have hpaid : Unquoted (paidText row.1) := by
    unfold paidText
    cases row.1.paidAt with
    | none => rfl
    | some ms => exact unquoted_isoText _
  have hcents := unquoted_numberText numerals row.1.amountCents
  simp only [rowOf, csvFields, List.forall_mem_cons, unquoted_tier, hcents, hpaid, true_and,
    List.not_mem_nil, IsEmpty.forall_iff, implies_true, and_true]

theorem mem_namedPayouts {row : Payout × String} (h : row ∈ namedPayouts P period) :
    row.1 ∈ P.inPeriod period ∧ row.2 = nameOf P row.1 := by
  obtain ⟨p, hp, rfl⟩ := List.mem_map.mp h
  exact ⟨hp, rfl⟩

/-- The payouts are safe when their rows are dated and free of special characters. -/
theorem csvSafe_iff (numerals : Numerals host.numberText) (hl : P.keys.Linked) :
    (∀ p ∈ P.inPeriod period, CsvSafe P period p) ↔
      (∀ row ∈ namedPayouts P period, ∀ t, row.1.paidAt = some t → |t| ≤ maxTime) ∧
      ∀ r ∈ (namedPayouts P period).map (rowOf host period), ∀ f ∈ r, Unquoted f := by
  constructor
  · intro h
    refine ⟨fun row hrow => (h row.1 (mem_namedPayouts hrow).1).dated, fun r hr => ?_⟩
    obtain ⟨row, hrow, rfl⟩ := List.mem_map.mp hr
    obtain ⟨hp, hname⟩ := mem_namedPayouts hrow
    obtain ⟨expert, hx, -, hexpert⟩ := payoutName_eq hl (List.mem_of_mem_filter hp)
    have hsafe := h row.1 hp
    refine (rowOf_unquoted_iff numerals).mpr
      ⟨hsafe.label, hsafe.id, hsafe.expertId, ?_, hsafe.taskId, hsafe.taskType⟩
    rw [hname, hexpert]
    exact hsafe.name expert hx
  · rintro ⟨hdated, hclean⟩ p hp
    have hrow : (p, nameOf P p) ∈ namedPayouts P period := List.mem_map_of_mem hp
    obtain ⟨hlabel, hid, hexpertId, hname, htaskId, htype⟩ :=
      (rowOf_unquoted_iff numerals).mp (hclean _ (List.mem_map_of_mem hrow))
    obtain ⟨expert, hx, -, hexpert⟩ := payoutName_eq hl (List.mem_of_mem_filter hp)
    refine ⟨hdated _ hrow, hlabel, hid, hexpertId, htaskId, htype, fun expert' hx' => ?_⟩
    rw [← Except.ok.inj (hx.symm.trans hx'), ← hexpert]
    exact hname

/-- The column of amounts has the exact sum of the amounts. -/
theorem amounts_sum (numerals : Numerals host.numberText) :
    exactSum (((sortedPayouts localeCompare P period).map (rowOf host period)).map
      (fun r => numerals.read (r.getD 7 []))) =
      exactSum (((P.inPeriod period).map Payout.amountCents).map (·.toRat)) := by
  have hread (row : Payout × String) :
      numerals.read ((rowOf host period row).getD 7 []) = row.1.amountCents.toRat :=
    numerals.reads _
  have hcolumn : ((sortedPayouts localeCompare P period).map (rowOf host period)).map
      (fun r => numerals.read (r.getD 7 [])) =
      (sortedPayouts localeCompare P period).map (fun row => row.1.amountCents.toRat) := by
    rw [List.map_map]
    exact List.map_congr_left (fun row _ => hread row)
  rw [hcolumn, exactSum_perm
    (sortedPayouts_perm.map (fun row : Payout × String => row.1.amountCents.toRat))]
  unfold namedPayouts
  rw [List.map_map, List.map_map]
  rfl

/-- The table of a platform whose rows are linked round-trips exactly when it needs no quotes and
its amounts add up. -/
theorem roundTrips_iff (numerals : Numerals host.numberText) (hl : P.keys.Linked) :
    RoundTrips host numerals localeCompare P period ↔
      (∀ p ∈ P.inPeriod period, CsvSafe P period p) ∧
        AddsUp ((P.inPeriod period).map Payout.amountCents) := by
  have hheader : ∀ f ∈ csvHeader, Unquoted f := by
    simp only [csvHeader, List.forall_mem_cons]
    refine ⟨?_, ?_, ?_, ?_, ?_, ?_, ?_, ?_, ?_, fun f hf => absurd hf List.not_mem_nil⟩ <;> rfl
  have hnonempty : ∀ r ∈ csvHeader :: (sortedPayouts localeCompare P period).map
      (rowOf host period), r ≠ [] := by
    refine List.forall_mem_cons.mpr ⟨List.cons_ne_nil _ _, fun r hr => ?_⟩
    obtain ⟨row, -, rfl⟩ := List.mem_map.mp hr
    exact List.cons_ne_nil _ _
  have hperm : ((sortedPayouts localeCompare P period).map (rowOf host period)).Perm
      ((namedPayouts P period).map (rowOf host period)) := sortedPayouts_perm.map _
  rw [csvSafe_iff numerals hl]
  constructor
  · rintro ⟨text, rows, records, htext, hrows, hparse, hrecords, total, hcolumn, htotal⟩
    obtain ⟨hdated, rfl⟩ := (periodCsv_ok_iff hl).mp htext
    obtain ⟨-, rfl⟩ := (csvRows_ok_iff hl).mp hrows
    -- raw lines read back exactly when no field would need quotes
    have hclean := (Csv.parse_raw_iff hnonempty).mp
      ⟨_, hparse, (hrecords.trans hperm.symm).cons csvHeader⟩
    refine ⟨⟨hdated, fun r hr => hclean r (List.mem_cons_of_mem _ (hperm.mem_iff.mpr hr))⟩,
      total, ?_, htotal⟩
    rw [← amounts_sum numerals, ← hcolumn]
    exact exactSum_perm ((hperm.trans hrecords.symm).map _)
  · rintro ⟨⟨hdated, hclean⟩, total, hexact, htotal⟩
    refine ⟨_, _, (sortedPayouts localeCompare P period).map (rowOf host period),
      (periodCsv_ok_iff hl).mpr ⟨hdated, rfl⟩, (csvRows_ok_iff hl).mpr ⟨hdated, rfl⟩, ?_, hperm,
      total, (amounts_sum numerals).trans hexact, htotal⟩
    -- without such fields the raw text is what a writer that quotes produces
    rw [← Csv.write_eq_raw (List.forall_mem_cons.mpr ⟨hheader,
      fun r hr => hclean r (hperm.mem_iff.mp hr)⟩)]
    exact Csv.parse_write hnonempty

end Proof

/-- In every run of the port the table of a period round-trips if and only if its label and the
ids, names and task types in it have no comma, quote or line break, all times are dates and the
amounts add up. -/
theorem periodCsv_roundTrips_iff (host : Host) (numerals : Numerals host.numberText)
    (localeCompare : String → String → ℤ) (settings : Settings) (clock : ℚ) (calls : List Call)
    (period : PayoutPeriod) :
    let P := run (Platform.step host) (.new settings clock) calls
    RoundTrips host numerals localeCompare P period ↔
      (∀ p ∈ P.inPeriod period, CsvSafe P period p) ∧
        AddsUp ((P.inPeriod period).map Payout.amountCents) :=
  roundTrips_iff numerals (linked_run settings clock calls)

/-! An expert with a comma in the name -/

/-- A number as a fraction. -/
def fractionText (q : ℚ) : List Char := (toString q.num).toList ++ '/' :: Nat.toDigits 10 q.den

def fractionHost : Host := { drawingHost with numberText := fractionText }

def readDecimal : List Char → ℤ
  | '-' :: digits => -(Nat.ofDigitChars 10 digits 0 : ℤ)
  | digits => Nat.ofDigitChars 10 digits 0

theorem readDecimal_toString (n : ℤ) : readDecimal (toString n).toList = n := by
  cases n with
  | negSucc m =>
    rw [toString_negSucc, readDecimal, Nat.ofDigitChars_ten_toDigits]
    rfl
  | ofNat m =>
    rw [toString_ofNat]
    -- no digit is a minus sign
    have hdigits : ∀ c ∈ Nat.toDigits 10 m, c ≠ '-' := by
      intro c hc hdash
      obtain ⟨d, hd, rfl⟩ := exists_digitChar (by decide) hc
      have hnot : ∀ d < 10, Nat.digitChar d ≠ '-' := by decide
      exact hnot d hd hdash
    have hread : readDecimal (Nat.toDigits 10 m) = Nat.ofDigitChars 10 (Nat.toDigits 10 m) 0 := by
      unfold readDecimal
      split
      · rename_i digits heq
        exact absurd rfl (hdigits '-' (heq ▸ List.mem_cons_self))
      · rfl
    rw [hread, Nat.ofDigitChars_ten_toDigits]
    rfl

/-- Whole numbers in decimal, others as fractions. -/
def readFraction (text : List Char) : Option ℚ :=
  if text.any Char.isAlpha then none
  else some (readDecimal (text.takeWhile (· ≠ '/')) /
    if '/' ∈ text then readDecimal ((text.dropWhile (· ≠ '/')).drop 1) else 1)

theorem digit_cases {c : Char} {n : ℕ} (h : c ∈ Nat.toDigits 10 n) :
    c.isAlpha = false ∧ c ≠ '/' := by
  obtain ⟨d, hd, rfl⟩ := exists_digitChar (by decide) h
  have hall : ∀ d < 10, (Nat.digitChar d).isAlpha = false ∧ Nat.digitChar d ≠ '/' := by decide
  exact hall d hd

theorem toString_cases {c : Char} {n : ℤ} (h : c ∈ (toString n).toList) :
    c.isAlpha = false ∧ c ≠ '/' := by
  cases n with
  | ofNat m =>
    rw [toString_ofNat] at h
    exact digit_cases h
  | negSucc m =>
    rw [toString_negSucc] at h
    rcases List.mem_cons.mp h with rfl | h
    · decide
    · exact digit_cases h

theorem readFraction_int (n : ℤ) : readFraction (toString n).toList = some (n : ℚ) := by
  have halpha : (toString n).toList.any Char.isAlpha = false :=
    List.any_eq_false.mpr (fun c hc => by rw [(toString_cases hc).1]; decide)
  have hslash : '/' ∉ (toString n).toList := fun h => (toString_cases h).2 rfl
  have hall : (toString n).toList.takeWhile (· ≠ '/') = (toString n).toList :=
    List.takeWhile_eq_self_iff.mpr (fun c hc => by simpa using (toString_cases hc).2)
  rw [readFraction, halpha, if_neg Bool.false_ne_true, if_neg hslash, hall, readDecimal_toString,
    Int.cast_one, div_one]

theorem readFraction_fraction (q : ℚ) : readFraction (fractionText q) = some q := by
  have halpha : (fractionText q).any Char.isAlpha = false := by
    rw [fractionText, List.any_append, List.any_cons, Bool.or_eq_false_iff, Bool.or_eq_false_iff]
    exact ⟨List.any_eq_false.mpr (fun c hc => by rw [(toString_cases hc).1]; decide), by decide,
      List.any_eq_false.mpr (fun c hc => by rw [(digit_cases hc).1]; decide)⟩
  have hslash : '/' ∈ fractionText q := List.mem_append_right _ List.mem_cons_self
  have hhead : ∀ c ∈ (toString q.num).toList, decide (c ≠ '/') = true :=
    fun c hc => by simpa using (toString_cases hc).2
  have htake : (fractionText q).takeWhile (· ≠ '/') = (toString q.num).toList := by
    rw [fractionText, List.takeWhile_append_of_pos hhead, List.takeWhile_cons_of_neg (by simp),
      List.append_nil]
  have hdrop : (fractionText q).dropWhile (· ≠ '/') = '/' :: Nat.toDigits 10 q.den := by
    rw [fractionText, List.dropWhile_append_of_pos hhead, List.dropWhile_cons_of_neg (by simp)]
  have hden : readDecimal (Nat.toDigits 10 q.den) = q.den := by
    have hread := readDecimal_toString (q.den : ℤ)
    rwa [show ((q.den : ℤ) : ℤ) = Int.ofNat q.den from rfl, toString_ofNat] at hread
  rw [readFraction, halpha, if_neg Bool.false_ne_true, if_pos hslash, htake, hdrop, List.drop_one,
    List.tail_cons, hden, readDecimal_toString, Int.cast_natCast, Rat.num_div_den]

def fractions : Numerals fractionHost.numberText where
  read := readFraction
  unquoted q := (unquoted_int q.num).append
    (.cons (by decide) (unquoted_digits (by decide) (by decide)))
  reads n := by
    cases n with
    | finite q h =>
      unfold numberText
      dsimp only
      split_ifs with hwhole
      · have hq : (q.num : ℚ) = q := Rat.den_eq_one_iff _ |>.mp hwhole.1
        rw [readFraction_int, hq]
        rfl
      · exact readFraction_fraction q
    | negZero => exact readFraction_int 0
    | infinite negative => cases negative <;> rfl
    | nan => rfl

def commaCalls : List Call :=
  [.createRubric "quality" (.round 1) [("accuracy", .round 1)] none,
    .putRateCards [⟨.junior, "default", .round 500⟩],
    .createExpert ⟨some "1", "Lovelace, Ada", ["code"], .junior, none⟩,
    .createTasks
      [⟨some "2", "t", "Explain.", [], ["code"], "text", .junior, 0, none, 1, false, none⟩],
    .claimNext "1",
    .submitGrade "1" "2" oneScore "Sound." (.round 60),
    .review "101" .approve none,
    .closePeriod "2026-09-A"]

/-- The comma in the name splits its field. -/
theorem comma_splits_name : ¬ RoundTrips fractionHost fractions (fun _ _ => 0)
    (run (Platform.step fractionHost) (.new noChecks 0) commaCalls) ⟨"103", "2026-09-A", 0⟩ := by
  have hl : (run (Platform.step fractionHost) (.new noChecks 0) commaCalls).keys.Linked :=
    linked_run noChecks 0 commaCalls
  have hpayouts : (run (Platform.step fractionHost) (.new noChecks 0) commaCalls).payouts.map
      Payout.periodId = [some "103"] := by decide +kernel
  have hnames : (run (Platform.step fractionHost) (.new noChecks 0) commaCalls).experts.map
      Expert.name = ["Lovelace, Ada"] := by decide +kernel
  rw [roundTrips_iff fractions hl]
  rintro ⟨hsafe, -⟩
  obtain ⟨p, hp, hperiod⟩ := List.mem_map.mp (hpayouts ▸ List.mem_singleton_self (some "103"))
  obtain ⟨expert, hx, -⟩ := payoutName_eq hl hp
  have hname : expert.name = "Lovelace, Ada" := by
    have hmem := List.mem_map_of_mem (f := Expert.name) (expert_ok hx).1
    rwa [hnames, List.mem_singleton] at hmem
  have hquoted := (hsafe p (List.mem_filter.mpr ⟨hp, decide_eq_true hperiod⟩)).name expert hx
  rw [hname] at hquoted
  exact absurd hquoted (by unfold Unquoted; decide)

end Panelist.Port
