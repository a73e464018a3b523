import Panelist.Analytics
import Panelist.Effects

/-! The agreement statistics against each other: the global one is the pair statistics
pooled over all pairs of experts. -/
namespace Panelist
open Relational

section Joins
variable {M : Type} [AddCommMonoid M] {db : Db}

/-- The sum of `v` over the scores two grades give to common criteria. -/
def Grade.overlap (v : ℚ → ℚ → M) (ga gb : Grade) : M :=
  ((ga.joined gb).map (fun s => v s.1 s.2)).sum

theorem Grade.overlap_eq (v : ℚ → ℚ → M) (ga gb : Grade) : ga.overlap v gb =
    (ga.scores.map (fun sa => (gb.scores.map (fun sb =>
      if sb.criterionId = sa.criterionId then v sa.score sb.score else 0)).sum)).sum := by
  rw [Grade.overlap, Grade.joined, sum_map_flatMap]
  refine congrArg List.sum (List.map_congr_left (fun sa _ => ?_))
  rw [List.map_map, sum_map_filter]
  exact congrArg List.sum (List.map_congr_left (fun sb _ => by simp))

theorem Grade.overlap_comm {v : ℚ → ℚ → M} (hv : ∀ x y, v x y = v y x) (ga gb : Grade) :
    ga.overlap v gb = gb.overlap v ga := by
  rw [Grade.overlap_eq, Grade.overlap_eq, sum_sum_comm]
  refine congrArg List.sum (List.map_congr_left (fun sb _ => ?_))
  refine congrArg List.sum (List.map_congr_left (fun sa _ => ?_))
  rw [hv]
  exact if_congr eq_comm rfl rfl

/-- What `v` adds up to over the rows of a join of grades with themselves. -/
def rowSum (v : ℚ → ℚ → M) (rows : List (Uuid × ℚ × ℚ)) : M :=
  (rows.map (fun r => v r.2.1 r.2.2)).sum

theorem rowSum_joined (v : ℚ → ℚ → M) (k : Uuid) (ga gb : Grade) :
    rowSum v ((ga.joined gb).map (fun s => (k, s))) = ga.overlap v gb := by
  rw [rowSum, List.map_map]
  rfl

theorem rowSum_pairRows (v : ℚ → ℚ → M) (db : Db) (a b : Uuid) : rowSum v (pairRows db a b) =
    total (fun ga gb => if (ga.expertId = a ∧ gb.expertId = b) ∧ gb.taskId = ga.taskId
      then ga.overlap v gb else 0) db.grades.rows := by
  rw [rowSum, pairRows, sum_map_flatMap, sum_map_filter]
  refine congrArg List.sum (List.map_congr_left (fun ga _ => ?_))
  rw [sum_map_flatMap, sum_map_filter]
  by_cases ha : ga.expertId = a
  · rw [if_pos (decide_eq_true ha)]
    refine congrArg List.sum (List.map_congr_left (fun gb _ => ?_))
    simp only [ha, true_and, decide_eq_true_eq, and_comm]
    exact if_congr Iff.rfl (rowSum_joined v _ ga gb) rfl
  · rw [if_neg (by simpa using ha)]
    exact (List.sum_eq_zero (by simp [ha])).symm

theorem rowSum_globalRows (v : ℚ → ℚ → M) (db : Db) : rowSum v (globalRows db) =
    total (fun ga gb => if gb.id < ga.id then
      (if gb.taskId = ga.taskId ∧ regularTask db ga.taskId then ga.overlap v gb else 0) else 0)
        db.grades.rows := by
  rw [rowSum, globalRows, sum_map_flatMap]
  refine congrArg List.sum (List.map_congr_left (fun ga _ => ?_))
  rw [sum_map_flatMap, sum_map_filter]
  refine congrArg List.sum (List.map_congr_left (fun gb _ => ?_))
  refine (if_congr ?_ (rowSum_joined v _ ga gb) rfl).trans (ite_and _ _ _ _)
  simp only [decide_eq_true_eq]
  tauto

/-! ### Pairs of experts -/

/-- The unordered pairs of distinct experts, each written with the smaller id first. -/
def expertPairs (db : Db) : List (Uuid × Uuid) :=
  let ids := db.experts.rows.map Expert.id
  (ids.product ids).filter (fun p => p.1 < p.2)

theorem mem_expertPairs {a b : Uuid} : (a, b) ∈ expertPairs db ↔
    (∃ x ∈ db.experts, x.id = a) ∧ (∃ y ∈ db.experts, y.id = b) ∧ a < b := by
  simp [expertPairs, Table.mem_rows, and_assoc]

theorem nodup_expertPairs (db : Db) : (expertPairs db).Nodup := by
  have hids : (db.experts.rows.map Expert.id).Nodup := db.experts.nodup_pk
  exact (hids.product hids).filter _

theorem sum_total {ι : Type} (f : ι → Grade → Grade → M) (ps : List ι) (l : List Grade) :
    (ps.map (fun p => total (f p) l)).sum =
      total (fun x y => (ps.map (fun p => f p x y)).sum) l := by
  unfold total
  rw [sum_sum_comm]
  refine congrArg List.sum (List.map_congr_left (fun x _ => ?_))
  exact sum_sum_comm _ ps l

/-- The rows of all pairs of experts are the rows of the global join, in one of the two
orders. -/
theorem sum_rowSum_pairRows [IsAddTorsionFree M] {v : ℚ → ℚ → M} (hv : ∀ x y, v x y = v y x)
    (hexp : ∀ g ∈ db.grades, ∃ e ∈ db.experts, e.id = g.expertId)
    (hplain : ∀ g ∈ db.grades, regularTask db g.taskId = true) :
    ((expertPairs db).map (fun p => rowSum v (pairRows db p.1 p.2))).sum =
      rowSum v (globalRows db) := by
  let k (ga gb : Grade) : M := if gb.taskId = ga.taskId then ga.overlap v gb else 0
  have hk (ga gb : Grade) : k ga gb = k gb ga :=
    if_congr eq_comm (Grade.overlap_comm hv ga gb) rfl
  -- a pair of grades counts for the one pair of their authors
  have hpairs : ((expertPairs db).map (fun p => rowSum v (pairRows db p.1 p.2))).sum =
      total (fun ga gb => if ga.expertId < gb.expertId then k ga gb else 0) db.grades.rows := by
    simp only [rowSum_pairRows]
    rw [sum_total]
    refine total_congr (fun ga hga gb hgb => ?_)
    by_cases hlt : ga.expertId < gb.expertId
    · have hmem : (ga.expertId, gb.expertId) ∈ expertPairs db :=
        mem_expertPairs.mpr ⟨hexp ga hga, hexp gb hgb, hlt⟩
      rw [if_pos hlt, sum_map_unique (nodup_expertPairs db) hmem (fun p _ hne => if_neg (fun h =>
        hne (Prod.ext h.1.1.symm h.1.2.symm)))]
      exact if_congr (by simp) rfl rfl
    · rw [if_neg hlt]
      apply List.sum_eq_zero
      intro c hc
      obtain ⟨p, hp, rfl⟩ := List.mem_map.mp hc
      refine if_neg (fun h => hlt ?_)
      rw [h.1.1, h.1.2]
      exact (mem_expertPairs.mp hp).2.2
  have hglobal : rowSum v (globalRows db) =
      total (fun ga gb => if gb.id < ga.id then k ga gb else 0) db.grades.rows := by
    rw [rowSum_globalRows]
    refine total_congr (fun ga hga gb _ => ?_)
    simp only [k, hplain ga hga, and_true]
  rw [hpairs, hglobal]
  refine total_reoriented hk (fun _ _ => lt_asymm) (fun _ _ => lt_asymm) ?_
  -- grades of one task: different authors exactly when different grades
  intro ga hga gb hgb hne
  have htask : gb.taskId = ga.taskId := by
    by_contra hn
    exact hne (if_neg hn)
  rw [lt_or_lt_iff_ne, lt_or_lt_iff_ne, not_iff_not]
  constructor
  · intro he
    rw [db.grades.eq_of_clash hga hgb (Or.inr (Prod.ext htask.symm he))]
  · intro he
    rw [db.grades.eq_of_pk hgb hga he]

/-! ### The statistics as sums over rows -/

theorem rowSum_one (rows : List (Uuid × ℚ × ℚ)) : rowSum (fun _ _ => 1) rows = rows.length := by
  rw [rowSum, List.map_const', List.sum_replicate, smul_eq_mul, mul_one]

theorem countP_eq_rowSum (p : ℚ → ℚ → Prop) [∀ x y, Decidable (p x y)]
    (rows : List (Uuid × ℚ × ℚ)) :
    rows.countP (fun r => p r.2.1 r.2.2) = rowSum (fun x y => if p x y then 1 else 0) rows := by
  induction rows with
  | nil => rfl
  | cons r rows ih =>
    rw [List.countP_cons, ih, rowSum, rowSum, List.map_cons, List.sum_cons, add_comm]
    simp only [decide_eq_true_eq]

/-- `|x - y|`, and whether it is 0 or at most 1. -/
def scoreDiff (x y : ℚ) : ℚ := |x - y|

def scoreExact (x y : ℚ) : ℕ := if x = y then 1 else 0

def scoreWithin (x y : ℚ) : ℕ := if |x - y| ≤ 1 then 1 else 0

theorem pairAgreement_eq (db : Db) (a b : Uuid) : pairAgreement db a b =
    { expertA := a
      expertB := b
      sharedTasks := ((pairRows db a b).map Prod.fst).dedup.length
      comparedScores := rowSum (fun _ _ => 1) (pairRows db a b)
      exactAgreement := ratio (rowSum scoreExact (pairRows db a b) : ℕ)
        (rowSum (fun _ _ => 1) (pairRows db a b))
      meanAbsDiff := ratio (rowSum scoreDiff (pairRows db a b))
        (rowSum (fun _ _ => 1) (pairRows db a b))
      withinOne := ratio (rowSum scoreWithin (pairRows db a b) : ℕ)
        (rowSum (fun _ _ => 1) (pairRows db a b)) } := by
  -- the two counts are sums of indicators
  have hexact : ((pairRows db a b).map (fun r => |r.2.1 - r.2.2|)).countP (fun d => d = 0) =
      rowSum scoreExact (pairRows db a b) := by
    rw [List.countP_map]
    refine (List.countP_congr (fun r _ => ?_)).trans (countP_eq_rowSum (fun x y => x = y) _)
    simp [sub_eq_zero]
  have hwithin : ((pairRows db a b).map (fun r => |r.2.1 - r.2.2|)).countP (fun d => d ≤ 1) =
      rowSum scoreWithin (pairRows db a b) := by
    rw [List.countP_map]
    exact countP_eq_rowSum (fun x y => |x - y| ≤ 1) _
  rw [pairAgreement]
  simp only [hexact, hwithin, List.length_map, rowSum_one]
  rfl

theorem globalAgreement_eq (db : Db) : globalAgreement db =
    { multiGradedTasks := ((globalRows db).map Prod.fst).dedup.length
      comparedPairs := rowSum (fun _ _ => 1) (globalRows db)
      meanAbsDiff := ratio (rowSum scoreDiff (globalRows db))
        (rowSum (fun _ _ => 1) (globalRows db))
      exactAgreement := ratio (rowSum scoreExact (globalRows db) : ℕ)
        (rowSum (fun _ _ => 1) (globalRows db))
      withinOne := ratio (rowSum scoreWithin (globalRows db) : ℕ)
        (rowSum (fun _ _ => 1) (globalRows db)) } := by
  rw [globalAgreement]
  simp only [countP_eq_rowSum (fun x y => x = y), countP_eq_rowSum (fun x y => |x - y| ≤ 1),
    rowSum_one]
  rfl

/-! ### Symmetry -/

theorem mem_joined {ga gb : Grade} {x y : ℚ} : (x, y) ∈ ga.joined gb ↔
    ∃ sa ∈ ga.scores, ∃ sb ∈ gb.scores, sb.criterionId = sa.criterionId ∧
      sa.score = x ∧ sb.score = y := by
  simp [Grade.joined, and_assoc]

theorem mem_pairRows {a b k : Uuid} {x y : ℚ} : (k, x, y) ∈ pairRows db a b ↔
    ∃ ga ∈ db.grades, ∃ gb ∈ db.grades, ga.expertId = a ∧ gb.expertId = b ∧
      ga.taskId = k ∧ gb.taskId = k ∧ (x, y) ∈ ga.joined gb := by
  simp only [pairRows, List.mem_flatMap, List.mem_filter, List.mem_map, decide_eq_true_eq,
    Prod.mk.injEq, Prod.exists, Table.mem_rows]
  constructor
  · rintro ⟨ga, ⟨hga, ha⟩, gb, ⟨hgb, htask, hb⟩, x', y', hj, hk, rfl, rfl⟩
    exact ⟨ga, hga, gb, hgb, ha, hb, hk, htask.trans hk, hj⟩
  · rintro ⟨ga, hga, gb, hgb, ha, hb, hk, htask, hj⟩
    exact ⟨ga, ⟨hga, ha⟩, gb, ⟨hgb, htask.trans hk.symm, hb⟩, x, y, hj, hk, rfl, rfl⟩

theorem mem_pairRows_swap {a b k : Uuid} {x y : ℚ} (h : (k, x, y) ∈ pairRows db a b) :
    (k, y, x) ∈ pairRows db b a := by
  obtain ⟨ga, hga, gb, hgb, ha, hb, hk, htask, hj⟩ := mem_pairRows.mp h
  obtain ⟨sa, hsa, sb, hsb, hcrit, rfl, rfl⟩ := mem_joined.mp hj
  exact mem_pairRows.mpr ⟨gb, hgb, ga, hga, hb, ha, htask, hk,
    mem_joined.mpr ⟨sb, hsb, sa, hsa, hcrit.symm, rfl, rfl⟩⟩

theorem rowSum_pairRows_comm {v : ℚ → ℚ → M} (hv : ∀ x y, v x y = v y x) (db : Db) (a b : Uuid) :
    rowSum v (pairRows db b a) = rowSum v (pairRows db a b) := by
  rw [rowSum_pairRows, rowSum_pairRows, ← total_swap]
  refine total_congr (fun ga _ gb _ => ?_)
  refine if_congr ?_ (Grade.overlap_comm hv gb ga) rfl
  rw [and_comm (a := gb.expertId = b), eq_comm (a := ga.taskId)]

theorem scoreDiff_comm (x y : ℚ) : scoreDiff x y = scoreDiff y x := abs_sub_comm x y

theorem scoreExact_comm (x y : ℚ) : scoreExact x y = scoreExact y x := if_congr eq_comm rfl rfl

theorem scoreWithin_comm (x y : ℚ) : scoreWithin x y = scoreWithin y x := by
  rw [scoreWithin, scoreWithin, abs_sub_comm]

/-- Agreement is symmetric in the two experts. -/
theorem pairAgreement_comm (db : Db) (a b : Uuid) :
    pairAgreement db b a = { pairAgreement db a b with expertA := b, expertB := a } := by
  have htasks : ((pairRows db b a).map Prod.fst).dedup.length =
      ((pairRows db a b).map Prod.fst).dedup.length := by
    apply List.Perm.length_eq
    rw [List.perm_ext_iff_of_nodup (List.nodup_dedup _) (List.nodup_dedup _)]
    intro k
    have hmem (a b : Uuid) :
        k ∈ (pairRows db a b).map Prod.fst → k ∈ (pairRows db b a).map Prod.fst := by
      intro h
      obtain ⟨⟨k', x, y⟩, hr, rfl⟩ := List.mem_map.mp h
      exact List.mem_map.mpr ⟨_, mem_pairRows_swap hr, rfl⟩
    rw [List.mem_dedup, List.mem_dedup]
    exact ⟨hmem b a, hmem a b⟩
  rw [pairAgreement_eq, pairAgreement_eq, htasks, rowSum_pairRows_comm (fun _ _ => rfl),
    rowSum_pairRows_comm scoreExact_comm, rowSum_pairRows_comm scoreDiff_comm,
    rowSum_pairRows_comm scoreWithin_comm]

end Joins

/-! ### Pooling -/

/-- The mean of a statistic over pairs of experts, weighted by their compared scores. -/
def weightedMean (ps : List PairAgreement) (f : PairAgreement → Option ℚ) : Option ℚ :=
  ratio (ps.map (fun p => p.comparedScores * (f p).getD 0)).sum
    (ps.map PairAgreement.comparedScores).sum

section Pooled
variable {db : Db}

theorem ratio_mul {x : ℚ} {n : ℕ} (h : n = 0 → x = 0) : n * (ratio x n).getD 0 = x := by
  unfold ratio
  split_ifs with hn
  · simp [hn, h hn]
  · have : (n : ℚ) ≠ 0 := Nat.cast_ne_zero.mpr hn
    rw [Option.getD_some]
    field_simp

theorem rowSum_of_no_rows {M : Type} [AddCommMonoid M] (v : ℚ → ℚ → M)
    {rows : List (Uuid × ℚ × ℚ)} (h : rowSum (fun _ _ => 1) rows = 0) : rowSum v rows = 0 := by
  rw [rowSum_one, List.length_eq_zero_iff] at h
  rw [h]
  rfl

theorem rowSum_cast (v : ℚ → ℚ → ℕ) (rows : List (Uuid × ℚ × ℚ)) :
    ((rowSum v rows : ℕ) : ℚ) = rowSum (fun x y => (v x y : ℚ)) rows := by
  rw [rowSum, Nat.cast_list_sum, List.map_map]
  rfl

/-- A statistic that is a sum over rows, divided by their number, pools to the same
statistic of the global join. -/
theorem weightedMean_pairs {v : ℚ → ℚ → ℚ} (hv : ∀ x y, v x y = v y x)
    (hexp : ∀ g ∈ db.grades, ∃ e ∈ db.experts, e.id = g.expertId)
    (hplain : ∀ g ∈ db.grades, regularTask db g.taskId = true) {f : PairAgreement → Option ℚ}
    (hf : ∀ a b, f (pairAgreement db a b) =
      ratio (rowSum v (pairRows db a b)) (rowSum (fun _ _ => 1) (pairRows db a b))) :
    weightedMean ((expertPairs db).map (fun p => pairAgreement db p.1 p.2)) f =
      ratio (rowSum v (globalRows db)) (rowSum (fun _ _ => 1) (globalRows db)) := by
  have hcount (a b : Uuid) : (pairAgreement db a b).comparedScores =
      rowSum (fun _ _ => 1) (pairRows db a b) := by rw [pairAgreement_eq]
  have hterm (a b : Uuid) : (pairAgreement db a b).comparedScores *
      (f (pairAgreement db a b)).getD 0 = rowSum v (pairRows db a b) := by
    rw [hcount, hf]
    exact ratio_mul (rowSum_of_no_rows v)
  rw [weightedMean, List.map_map, List.map_map, ← sum_rowSum_pairRows hv hexp hplain,
    ← sum_rowSum_pairRows (v := fun _ _ => 1) (fun _ _ => rfl) hexp hplain]
  congr 2
  · exact List.map_congr_left (fun p _ => hterm p.1 p.2)
  · exact List.map_congr_left (fun p _ => hcount p.1 p.2)

end Pooled

/-- In every reachable state without grades on golden tasks, agreement is symmetric in
the two experts and the global statistics are the pair statistics pooled over all
unordered pairs of distinct experts. -/
theorem pooled_agreement (rs : List Request) (hplain : ∀ g ∈ (after rs).grades, ∀ t,
      (after rs).tasks.get g.taskId = some t → t.isAttentionCheck = false) :
    (∀ a b, pairAgreement (after rs) b a =
      { pairAgreement (after rs) a b with expertA := b, expertB := a }) ∧
    let ps := (expertPairs (after rs)).map (fun p => pairAgreement (after rs) p.1 p.2)
    (globalAgreement (after rs)).comparedPairs = (ps.map PairAgreement.comparedScores).sum ∧
      (globalAgreement (after rs)).meanAbsDiff = weightedMean ps PairAgreement.meanAbsDiff ∧
      (globalAgreement (after rs)).exactAgreement = weightedMean ps PairAgreement.exactAgreement ∧
      (globalAgreement (after rs)).withinOne = weightedMean ps PairAgreement.withinOne := by
  have hexp : ∀ g ∈ (after rs).grades, ∃ e ∈ (after rs).experts, e.id = g.expertId := by
    intro g hg
    obtain ⟨e, he⟩ := ((Linked.after rs).grades g hg).expert
    exact ⟨e, Table.get_mem he, Table.get_pk he⟩
  -- without golden grades both queries range over all grades
  have hregular : ∀ g ∈ (after rs).grades, regularTask (after rs) g.taskId = true := by
    intro g hg
    obtain ⟨t, ht, hid⟩ := (Consistent.after rs).gradeTask g hg
    have hget := (after rs).tasks.get_eq_some.mpr ⟨ht, hid⟩
    simp [regularTask, hget, hplain g hg t hget]
  refine ⟨pairAgreement_comm _, ?_, ?_, ?_, ?_⟩
  · rw [globalAgreement_eq, List.map_map, ← sum_rowSum_pairRows (fun _ _ => rfl) hexp hregular]
    exact congrArg List.sum (List.map_congr_left (fun p _ => by
      rw [Function.comp, pairAgreement_eq]))
  · rw [globalAgreement_eq, weightedMean_pairs scoreDiff_comm hexp hregular (fun a b => by
      rw [pairAgreement_eq])]
  · rw [globalAgreement_eq, weightedMean_pairs (fun x y => congrArg Nat.cast (scoreExact_comm x y))
      hexp hregular (fun a b => by rw [pairAgreement_eq, ← rowSum_cast]), ← rowSum_cast]
  · rw [globalAgreement_eq, weightedMean_pairs (fun x y => congrArg Nat.cast (scoreWithin_comm x y))
      hexp hregular (fun a b => by rw [pairAgreement_eq, ← rowSum_cast]), ← rowSum_cast]

open Scenario in
/-- Two graders of one regular task. -/
theorem pooled_agreement_pair : (globalAgreement (after (pair 4 5))).comparedPairs = 1 ∧
    (globalAgreement (after (pair 4 5))).meanAbsDiff =
      weightedMean ((expertPairs (after (pair 4 5))).map
        (fun p => pairAgreement (after (pair 4 5)) p.1 p.2)) PairAgreement.meanAbsDiff := by
  have hplain : (after (pair 4 5)).tasks.rows.all (fun t => !t.isAttentionCheck) = true := by
    decide +kernel
  refine ⟨by decide +kernel, (pooled_agreement (pair 4 5) (fun g _ t ht => ?_)).2.2.1⟩
  simpa using List.all_eq_true.mp hplain t (Table.get_mem ht)

end Panelist
