import Panelist.Export
import Panelist.Golden
import Panelist.Hysteresis
import Panelist.Lines
import Panelist.References

/-! Exporting again. Without a decision on a regular task in between, the same grades go out in
the same order, and each line says what it said before, except for the tier of the author: that
is read from the expert's row when the export is made. -/
namespace Panelist
open Relational Transaction Serial

/-- Every review of `B` that `A` does not have is of a golden grade. An adjudication records a
review of each grade of its task. -/
def OnlyGoldenVerdicts (A B : Db) : Prop :=
  ∀ v ∈ B.reviews, v ∉ A.reviews → ∃ g t, B.grades.get v.gradeId = some g ∧
    B.tasks.get g.taskId = some t ∧ t.isAttentionCheck = true

/-- The export of `B` has the bytes of the export of `A`, and so the checksum. -/
def SameExport (floatRepr : ℚ → List Char) (A B : Db) : Prop :=
  (buildJsonl floatRepr B).1 = (buildJsonl floatRepr A).1 ∧
    ∀ sha256 : ByteArray → List UInt8, hexDigest (sha256 (buildJsonl floatRepr B).1) =
      hexDigest (sha256 (buildJsonl floatRepr A).1)

/-! ### The rounds of approved tasks -/

/-- The round of task `k` is the one of `A`, or there is a new review on the task. -/
def RoundStays (A : Db) (k : Uuid) (db : Db) : Prop :=
  db.consensus.get k = A.consensus.get k ∨
    ∃ v g, v ∈ db.reviews ∧ v ∉ A.reviews ∧ db.grades.get v.gradeId = some g ∧ g.taskId = k

/-- A regular task with an approved grade. -/
def Approved (db : Db) (k : Uuid) : Prop :=
  (∃ t, db.tasks.get k = some t ∧ t.isAttentionCheck = false) ∧
    ∃ g ∈ db.grades, g.taskId = k ∧ decision db g.id = some .approve

section Rounds
variable {A db db' : Db} {k : Uuid}

theorem Approved.mono (h : Approved db k) (hr : Retains db db') : Approved db' k := by
  obtain ⟨⟨t, ht, hgold⟩, g, hg, hk, hd⟩ := h
  obtain ⟨t', ht', hsame⟩ := hr.tasks k t ht
  exact ⟨⟨t', ht', hsame.golden.1.trans hgold⟩, g, hr.grade_mem hg, hk, hr.decision hd⟩

/-- No one works on an approved task any more. -/
theorem Approved.not_assigned (h : Approved db k) (hc : Consistent db) {t : Task}
    (ht : db.tasks.get k = some t) : t.status ≠ .assigned := by
  obtain ⟨⟨t', ht', hgold⟩, g, hg, hk, hd⟩ := h
  obtain rfl := Option.some.inj (ht'.symm.trans ht)
  have hid : t'.id = k := Table.get_pk ht
  have hmem : g ∈ gradesOf db t'.id := mem_gradesOf.mpr ⟨hg, hk.trans hid.symm⟩
  intro hs
  rw [status_of_approved hc (Table.get_mem ht) hgold hmem hd] at hs
  exact absurd hs (by decide)

/-- A round that was not touched, and the reviews there were. -/
theorem RoundStays.mono (h : RoundStays A k db) (hr : Retains db db')
    (hround : db'.consensus.get k = db.consensus.get k) : RoundStays A k db' := by
  rcases h with h | ⟨v, g, hv, hnew, hg, hk⟩
  · exact Or.inl (hround.trans h)
  · obtain ⟨v', hv', rfl⟩ := hr.reviews v.gradeId v (db.reviews.get_of_mem hv)
    exact Or.inr ⟨v, g, Table.get_mem hv', hnew, hr.grade hg, hk⟩

/-- A review that the earlier tables could not have held. -/
theorem fresh_review (hr : Retains A db) {v : Review}
    (hv : ∀ s ∈ db.reviews, s.gradeId ≠ v.gradeId) :
    v ∉ A.reviews := by
  intro hmem
  obtain ⟨v', hv', rfl⟩ := hr.reviews v.gradeId v (A.reviews.get_of_mem hmem)
  exact hv v (Table.get_mem hv') rfl

/-- Only a decision on its task touches the round of an approved task. -/
theorem RoundStays.effect {r : Request} (hc : Consistent db) (hr : Retains A db)
    (happ : Approved db k) (h : RoundStays A k db) (he : Effect r db db') : RoundStays A k db' := by
  have hkeep := he.retains
  cases he with
  | logged | rubricAdded | superseded | joined | recalibrated | paused | statusSet | queued
  | reclaimed | released | claimed | retargeted | closed => exact h.mono hkeep rfl
  | @graded e task rubric grade grades tasks consensus body hop hx ht hs hh hrub hg hi hround =>
    -- an approved task is not assigned, so the round that opens is of another
    have hne : k ≠ task.id := by
      rintro rfl
      exact happ.not_assigned hc ht hs
    refine h.mono hkeep ?_
    have hother {row : Consensus} {C : Table Consensus} (hrow : row.taskId = task.id)
        (hC : db.consensus.insert row = some C) : C.get k = db.consensus.get k := by
      rw [Table.get_insert hC, if_neg (fun he => hne (he.symm.trans hrow))]
    cases hround with
    | none => rfl
    | agreed _ _ _ hins => exact hother rfl hins
    | split _ _ _ hins => exact hother rfl hins
  | @reviewed grade task v reviews payouts keyId body actor hop hb hg htask ht hallow hv hi hp =>
    have hvg : v.gradeId = grade.id := by rw [hv]
    by_cases hk : k = task.id
    -- a verdict on a grade of this task is the new verdict the statement allows
    · refine Or.inr ⟨v, grade, (Table.mem_insert hi).mpr (Or.inr rfl),
        fresh_review hr (fun s hs => Table.insert_fresh hi hs), ?_, htask.symm.trans hk.symm⟩
      rw [hvg]
      exact hg
    · refine h.mono hkeep ?_
      exact (Table.get_update _ _ _ (Consensus.afterReview_keeps _ _ _) _).trans
        (if_neg (fun he => hk he.symm))
  | @adjudicated row task delivered reviews payouts reason keyId actor hop hrow hs hd ht hi hp =>
    obtain ⟨hdmem, hdt⟩ := mem_gradesFor.mp hd
    by_cases hk : k = task.id
    · have hv : verdict r.env delivered reason keyId delivered ∈
          (gradesFor db task.id).map (verdict r.env delivered reason keyId) :=
        List.mem_map_of_mem hd
      exact Or.inr ⟨_, delivered, (Table.mem_insertAll hi).mpr (Or.inr hv),
        fresh_review hr (fun s hs => Table.insertAll_fresh hi hs hv),
        db.grades.get_of_mem hdmem, hdt.trans hk.symm⟩
    · refine h.mono hkeep ?_
      exact (Table.get_update db.consensus task.id
        (Consensus.adjudicate delivered.id keyId reason r.env.now) (fun _ => rfl) k).trans
        (if_neg (fun he => hk he.symm))

end Rounds

/-- What holds of an approved task of `A` from then on. -/
structure Since (A : Db) (k : Uuid) (db : Db) : Prop where
  consistent : Consistent db
  retains : Retains A db
  approved : Approved db k
  round : RoundStays A k db

theorem Since.effect {A db db' : Db} {k : Uuid} {r : Request} (h : Since A k db)
    (he : Effect r db db') : Since A k db' where
  consistent := h.consistent.effect he
  retains := h.retains.trans he.retains
  approved := h.approved.mono he.retains
  round := h.round.effect h.consistent h.retains h.approved he

/-- `B` comes after `A`, without a decision on a regular task in between. -/
structure Later (A B : Db) : Prop where
  consistent : Consistent A
  linked : Linked A
  retains : Retains A B
  verdicts : OnlyGoldenVerdicts A B
  rounds : ∀ k, Approved A k → B.consensus.get k = A.consensus.get k

theorem later_after (rs qs : List Request) (h : OnlyGoldenVerdicts (after rs) (after (rs ++ qs))) :
    Later (after rs) (after (rs ++ qs)) where
  consistent := Consistent.after rs
  linked := Linked.after rs
  retains := retains_after rs qs
  verdicts := h
  -- a pick moves only with a new review of the task
  rounds k happ := by
    have hstart : Since (after rs) k (after rs) :=
      ⟨Consistent.after rs, Retains.refl _, happ, Or.inl rfl⟩
    have hend : Since (after rs) k (after (rs ++ qs)) :=
      after_append_invariant (fun h he => h.effect he) hstart qs
    rcases hend.round with hsame | ⟨v, g, hv, hnew, hg, hk⟩
    · exact hsame
    · -- the new review would be of a golden grade
      obtain ⟨g', t, hg', ht, hgold⟩ := h v hv hnew
      obtain rfl := Option.some.inj (hg.symm.trans hg')
      obtain ⟨⟨t', ht', hregular⟩, -⟩ := hend.approved
      rw [hk] at ht
      obtain rfl := Option.some.inj (ht.symm.trans ht')
      exact absurd (hgold.symm.trans hregular) (by decide)

/-! ### The rows of the second export -/

/-- The row with the task as `B` has it. -/
def Delivered.reread (B : Db) (row : Delivered) : Delivered :=
  { row with task := (B.tasks.get row.task.id).getD row.task }

namespace Later
variable {A B : Db} {g : Grade}

/-- A grade that the first export had no row for gets none through a golden review. -/
theorem row_of_golden (h : Later A B) {v : Review} (hv : B.reviews.get g.id = some v)
    (hg : B.grades.get g.id = some g) (hnew : v ∉ A.reviews) : deliveredRow B g = none := by
  obtain ⟨g', t, hg', ht, hgold⟩ := h.verdicts v (Table.get_mem hv) hnew
  have hvg : v.gradeId = g.id := Table.get_pk hv
  rw [hvg] at hg'
  obtain rfl := Option.some.inj (hg.symm.trans hg')
  rw [deliveredRow, hv, ht]
  exact if_neg (fun hc => absurd (hgold.symm.trans hc.2.1) (by decide))

/-- A grade that came in between is not exported. -/
theorem new_row (h : Later A B) (hg : g ∈ B.grades) (hnew : g ∉ A.grades) :
    deliveredRow B g = none := by
  cases hv : B.reviews.get g.id with
  | none => rw [deliveredRow, hv]
  | some v =>
    refine h.row_of_golden hv (B.grades.get_of_mem hg) (fun hmem => ?_)
    obtain ⟨x, hx, hxv⟩ := h.consistent.reviewGrade v hmem
    have hid : x.id = g.id := hxv.trans (Table.get_pk hv)
    rw [B.grades.eq_of_pk (h.retains.grade_mem hx) hg hid] at hx
    exact hnew hx

/-- A grade of the first export has the same row in the second. -/
theorem old_row (h : Later A B) (hg : g ∈ A.grades) :
    deliveredRow B g = (deliveredRow A g).map (Delivered.reread B) := by
  obtain ⟨t, hmem, htid⟩ := h.consistent.gradeTask g hg
  have ht : A.tasks.get g.taskId = some t := A.tasks.get_eq_some.mpr ⟨hmem, htid⟩
  obtain ⟨t', ht', hsame⟩ := h.retains.tasks _ t ht
  have hid : t'.id = t.id := (Table.get_pk ht').trans htid.symm
  cases hv : A.reviews.get g.id with
  | none =>
    have hA : deliveredRow A g = none := by rw [deliveredRow, hv]
    rw [hA]
    cases hv' : B.reviews.get g.id with
    | none => rw [deliveredRow, hv']; rfl
    | some v =>
      refine h.row_of_golden hv' (h.retains.grade (A.grades.get_of_mem hg)) (fun hmem => ?_)
      have hvg : v.gradeId = g.id := Table.get_pk hv'
      have hget : A.reviews.get v.gradeId = some v := A.reviews.get_of_mem hmem
      rw [← hvg, hget] at hv
      exact absurd hv (by simp)
  | some v =>
    obtain ⟨v', hv', rfl⟩ := h.retains.reviews _ v hv
    by_cases happ : v.decision = .approve ∧ t.isAttentionCheck = false
    -- an approved regular grade keeps its round
    · have hround : B.consensus.get t.id = A.consensus.get t.id := by
        refine h.rounds t.id ⟨⟨t, A.tasks.get_of_mem hmem, happ.2⟩, g, hg, htid.symm, ?_⟩
        rw [decision, hv, Option.map_some, happ.1]
      have hreread : Delivered.reread B ⟨g, t, A.consensus.get t.id⟩ =
          ⟨g, t', A.consensus.get t.id⟩ := by
        rw [Delivered.reread, htid, ht', Option.getD_some]
      simp only [deliveredRow, hv, hv', ht, ht', hsame.golden.1, hid, hround]
      split_ifs
      · rw [Option.map_some, hreread]
      · rfl
    · -- rejected, or golden
      have hno : ¬ (v.decision = .approve ∧ t'.isAttentionCheck = false) := by
        rw [hsame.golden.1]
        exact happ
      simp only [deliveredRow, hv, hv', ht, ht']
      rw [if_neg (fun hc => hno ⟨hc.1, hc.2.1⟩), if_neg (fun hc => happ ⟨hc.1, hc.2.1⟩)]
      rfl

/-- The second export has the rows of the first, in the same order. -/
theorem deliveredRows_eq (h : Later A B) :
    deliveredRows B = (deliveredRows A).map (Delivered.reread B) := by
  obtain ⟨new, hnew⟩ := h.retains.grades
  have hnone : new.filterMap (deliveredRow B) = [] := by
    refine List.filterMap_eq_nil_iff.mpr (fun g hg => ?_)
    have hnodup := B.grades.nodup
    rw [hnew] at hnodup
    refine h.new_row ?_ (fun hold => (List.disjoint_of_nodup_append hnodup) hold hg)
    rw [← Table.mem_rows, hnew]
    exact List.mem_append_right _ hg
  have hold : A.grades.rows.filterMap (deliveredRow B) =
      (A.grades.rows.filterMap (deliveredRow A)).map (Delivered.reread B) := by
    rw [List.map_filterMap]
    exact List.filterMap_congr (fun g hg => h.old_row hg)
  rw [deliveredRows, deliveredRows, hnew, List.filterMap_append, hnone, List.append_nil, hold]
  refine (List.map_insertionSort _ _ _ _ (fun a ha b hb => ?_)).symm
  -- the order reads the task's number and the grade, which both stay
  have hseq {row : Delivered} (hrow : row ∈ A.grades.rows.filterMap (deliveredRow A)) :
      (row.reread B).task.seq = row.task.seq := by
    obtain ⟨g, -, hg⟩ := List.mem_filterMap.mp hrow
    obtain ⟨-, ht, -⟩ := deliveredRow_eq_some.mp hg
    obtain ⟨t', ht', hsame⟩ := h.retains.tasks _ _ ht
    have hid : row.task.id = g.taskId := Table.get_pk ht
    rw [Delivered.reread, hid, ht', Option.getD_some, hsame]
  rw [deliveredBefore, deliveredBefore, hseq ha, hseq hb]
  rfl

end Later

/-! ### The lines of the second export -/

/-- What `_rows` yields for a row of `db`, with a given tier of the author. -/
def rowWithTier (db : Db) (row : Delivered) (tier : Tier) : Json :=
  .obj (rowFields row (rubricName db row.grade.rubricId) (rubricVersion db row.grade.rubricId) tier
    (exportedScores db row.grade))

theorem rowJson_eq (db : Db) (row : Delivered) :
    rowJson db row = rowWithTier db row (expertTier db row.grade.expertId) := rfl

/-- Tiers are told apart by how often two letters occur in them. -/
theorem tier_eq_of_count (floatRepr : ℚ → List Char) {tier tier' : Tier}
    (h : ∀ c ∈ ['j', 'd'], (dumps floatRepr (.str tier.value)).count c =
      (dumps floatRepr (.str tier'.value)).count c) : tier = tier' := by
  have hj := h 'j' (by decide)
  have hd := h 'd' (by decide)
  rw [dumps, dumps] at hj hd
  revert hj hd
  cases tier <;> cases tier' <;> decide +kernel

/-- A line determines the tier it shows. -/
theorem tier_of_dumps {floatRepr : ℚ → List Char} {db : Db} {row : Delivered} {tier tier' : Tier}
    (h : dumps floatRepr (rowWithTier db row tier) = dumps floatRepr (rowWithTier db row tier')) :
    tier = tier' := by
  let fields := rowFields row (rubricName db row.grade.rubricId)
    (rubricVersion db row.grade.rubricId) tier (exportedScores db row.grade)
  have hsplit (t : Tier) : rowWithTier db row t =
      .obj (fields.take 8 ++ ("expert_tier", .str t.value) :: fields.drop 9) := rfl
  rw [hsplit, hsplit] at h
  refine tier_eq_of_count floatRepr (fun c hc => count_of_dumps_eq ?_ h)
  simp only [List.mem_cons, List.not_mem_nil, or_false] at hc
  rcases hc with rfl | rfl
  · decide
  · decide

namespace Later
variable {A B : Db} {floatRepr : ℚ → List Char}

/-- All that is not the tier is in the second row what it was in the first. -/
theorem rowJson_reread (h : Later A B) {row : Delivered} (hrow : row ∈ deliveredRows A) :
    rowJson B (row.reread B) = rowWithTier A row (expertTier B row.grade.expertId) := by
  obtain ⟨g, hg, he⟩ := mem_deliveredRows.mp hrow
  obtain ⟨-, ht, -, -, hform⟩ := deliveredRow_eq_some.mp he
  have hgrade : row.grade = g := by rw [hform]
  obtain ⟨t', ht', hsame⟩ := h.retains.tasks _ _ ht
  have hid : row.task.id = g.taskId := Table.get_pk ht
  have htask : (row.reread B).task = t' := by
    rw [Delivered.reread, hid, ht', Option.getD_some]
  -- rubrics and criteria are never rewritten
  obtain ⟨-, ⟨rubric, hrub⟩, hcriteria⟩ := h.linked.grades g hg
  obtain ⟨rubric', hrub', hname, hversion⟩ := h.retains.rubrics _ rubric hrub
  have hn : rubricName B g.rubricId = rubricName A g.rubricId := by
    rw [rubricName, rubricName, hrub, hrub', Option.map_some, Option.map_some, hname]
  have hv : rubricVersion B g.rubricId = rubricVersion A g.rubricId := by
    rw [rubricVersion, rubricVersion, hrub, hrub', Option.map_some, Option.map_some, hversion]
  have hs : exportedScores B g = exportedScores A g := by
    rw [exportedScores, exportedScores]
    refine congrArg (fun l => (List.insertionSort _ l).map Prod.snd) ?_
    refine List.filterMap_congr (fun s hs => ?_)
    obtain ⟨c, hc⟩ := hcriteria s hs
    rw [hc, h.retains.criterion hc]
  -- of the task only columns that no operation rewrites are exported
  have hfields (name : String) (version : ℤ) (tier : Tier) (scores : List (String × ℚ)) :
      rowFields (row.reread B) name version tier scores =
        rowFields row name version tier scores := by
    rw [rowFields, htask, hsame]
    rfl
  have hstays : (row.reread B).grade = row.grade := rfl
  rw [rowJson_eq, rowWithTier, rowWithTier, hfields, hstays, hgrade, hn, hv, hs]

/-- The tiers decide. -/
theorem body_eq_iff (h : Later A B) (hfloat : ∀ q, '\n' ∉ floatRepr q) :
    (buildJsonl floatRepr B).1 = (buildJsonl floatRepr A).1 ↔
      ∀ row ∈ deliveredRows A,
        expertTier B row.grade.expertId = expertTier A row.grade.expertId := by
  have hbody (db : Db) : (buildJsonl floatRepr db).1 = (String.ofList (terminated
      ((deliveredRows db).map (fun row => dumps floatRepr (rowJson db row))))).toUTF8 := by
    rw [terminated, List.flatMap_map]
    rfl
  have hclean (db : Db) :
      ∀ x ∈ (deliveredRows db).map (fun row => dumps floatRepr (rowJson db row)), '\n' ∉ x := by
    intro x hx
    obtain ⟨row, -, rfl⟩ := List.mem_map.mp hx
    exact newline_dumps hfloat _
  -- the later lines are the earlier ones with the tiers of now
  have hlines : (deliveredRows B).map (fun row => dumps floatRepr (rowJson B row)) =
      (deliveredRows A).map (fun row =>
        dumps floatRepr (rowWithTier A row (expertTier B row.grade.expertId))) := by
    rw [h.deliveredRows_eq, List.map_map]
    refine List.map_congr_left (fun row hrow => ?_)
    show dumps floatRepr (rowJson B (row.reread B)) = _
    rw [h.rowJson_reread hrow]
  rw [hbody, hbody, toUTF8_eq_iff]
  constructor
  · intro he row hrow
    -- equal bodies have equal lines, since no line holds a line break
    have hsame := terminated_inj (hclean B) (hclean A) he
    rw [hlines, List.map_inj_left] at hsame
    exact tier_of_dumps (hsame row hrow)
  · intro htiers
    rw [hlines]
    refine congrArg terminated (List.map_congr_left (fun row hrow => ?_))
    rw [htiers row hrow, rowJson_eq]

end Later

theorem exported_iff {db : Db} {k : Uuid} : (∃ row ∈ deliveredRows db, row.grade.expertId = k) ↔
    ∃ t ∈ db.tasks, ∃ g, Exportable db t g ∧ g.expertId = k := by
  constructor
  · rintro ⟨row, hrow, he⟩
    obtain ⟨ht, hexp, -⟩ := delivered_exportable hrow
    exact ⟨row.task, ht, row.grade, hexp, he⟩
  · rintro ⟨t, ht, g, hexp, he⟩
    obtain ⟨hg, htask⟩ := mem_gradesOf.mp hexp.mem
    refine ⟨⟨g, t, db.consensus.get t.id⟩, mem_deliveredRows.mpr ⟨g, hg, ?_⟩, he⟩
    refine deliveredRow_eq_some.mpr ⟨hexp.approved, ?_, hexp.regular, hexp.picked, rfl⟩
    rw [htask]
    exact db.tasks.get_of_mem ht

theorem Later.sameExport_iff {A B : Db} (h : Later A B) {floatRepr : ℚ → List Char}
    (hfloat : ∀ q, '\n' ∉ floatRepr q) :
    SameExport floatRepr A B ↔ ∀ t ∈ A.tasks, ∀ g, Exportable A t g →
      expertTier B g.expertId = expertTier A g.expertId := by
  have hsame : SameExport floatRepr A B ↔
      (buildJsonl floatRepr B).1 = (buildJsonl floatRepr A).1 :=
    ⟨And.left, fun he => ⟨he, fun sha256 => by rw [he]⟩⟩
  rw [hsame, h.body_eq_iff hfloat]
  constructor
  · intro htiers t ht g hexp
    obtain ⟨row, hrow, he⟩ := exported_iff.mpr ⟨t, ht, g, hexp, rfl⟩
    rw [← he]
    exact htiers row hrow
  · intro htiers row hrow
    obtain ⟨ht, hexp, -⟩ := delivered_exportable hrow
    exact htiers row.task ht row.grade hexp

/-- Between two exports without a decision on a regular task, the body stays the same exactly
when the authors of the exported grades keep their tiers. The writer of floats does not start
new lines. -/
theorem reexport_iff (floatRepr : ℚ → List Char) (hfloat : ∀ q, '\n' ∉ floatRepr q)
    (rs qs : List Request) (h : OnlyGoldenVerdicts (after rs) (after (rs ++ qs))) :
    SameExport floatRepr (after rs) (after (rs ++ qs)) ↔
      ∀ t ∈ (after rs).tasks, ∀ g, Exportable (after rs) t g →
        expertTier (after (rs ++ qs)) g.expertId = expertTier (after rs) g.expertId :=
  (later_after rs qs h).sameExport_iff hfloat

deriving instance DecidableEq for Review

namespace Scenario

/-- Expert 300 passes golden task 900. -/
def goldenPassed : List Request :=
  [call 9 (.createTasks [golden] "admin"), call 10 (.claimById 300 900),
   call 11 (.submit 300 (grade 900 4))].map lenient

end Scenario

open Scenario in
theorem golden_pass_only_verdicts :
    OnlyGoldenVerdicts (after (approved.map lenient))
      (after (approved.map lenient ++ goldenPassed)) := by
  have hsame : (after (approved.map lenient ++ goldenPassed)).reviews.rows =
      (after (approved.map lenient)).reviews.rows := by decide +kernel
  intro v hv hnew
  rw [← Table.mem_rows, hsame] at hv
  exact absurd hv hnew

open Scenario in
theorem reexport_iff_golden_pass :
    SameExport decimalRepr (after (approved.map lenient))
        (after (approved.map lenient ++ goldenPassed)) ↔
      ∀ t ∈ (after (approved.map lenient)).tasks, ∀ g,
        Exportable (after (approved.map lenient)) t g →
        expertTier (after (approved.map lenient ++ goldenPassed)) g.expertId =
          expertTier (after (approved.map lenient)) g.expertId :=
  reexport_iff decimalRepr newline_decimalRepr (approved.map lenient) goldenPassed
    golden_pass_only_verdicts

open Scenario in
/-- The golden check promotes the author of the only exported grade, so the line changes. -/
theorem golden_pass_changes_export :
    ¬ ∀ (floatRepr : ℚ → List Char) (rs qs : List Request), (∀ q, '\n' ∉ floatRepr q) →
      OnlyGoldenVerdicts (after rs) (after (rs ++ qs)) →
      SameExport floatRepr (after rs) (after (rs ++ qs)) := by
  intro hall
  have hsame := hall decimalRepr (approved.map lenient) goldenPassed newline_decimalRepr
    golden_pass_only_verdicts
  have htiers := ((later_after _ _ golden_pass_only_verdicts).body_eq_iff
    newline_decimalRepr).mp hsame.1
  have hmoved : (deliveredRows (after (approved.map lenient))).any (fun row =>
      expertTier (after (approved.map lenient ++ goldenPassed)) row.grade.expertId ≠
        expertTier (after (approved.map lenient)) row.grade.expertId) = true := by decide +kernel
  obtain ⟨row, hrow, hne⟩ := List.any_eq_true.mp hmoved
  exact absurd (htiers row hrow) (by simpa using hne)

end Panelist
