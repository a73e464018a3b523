import Panelist.Lifecycle
import Panelist.Pairs
import Panelist.References

/-! `panelist.services.analytics`: agreement between experts, with exact averages. -/
namespace Panelist
open Relational

/-- The scores two grades give to common criteria. -/
def Grade.joined (ga gb : Grade) : List (ℚ × ℚ) :=
  ga.scores.flatMap (fun sa =>
    (gb.scores.filter (fun sb => sb.criterionId = sa.criterionId)).map
      (fun sb => (sa.score, sb.score)))

/-- `x / n if n else None`. -/
def ratio (x : ℚ) (n : ℕ) : Option ℚ := if n = 0 then none else some (x / n)

structure PairAgreement where
  expertA : Uuid
  expertB : Uuid
  sharedTasks : ℕ
  comparedScores : ℕ
  exactAgreement : Option ℚ
  meanAbsDiff : Option ℚ
  withinOne : Option ℚ

/-- The query of `pair_agreement`. -/
def pairRows (db : Db) (expertA expertB : Uuid) : List (Uuid × ℚ × ℚ) :=
  (db.grades.rows.filter (fun ga => ga.expertId = expertA)).flatMap (fun ga =>
    (db.grades.rows.filter (fun gb => gb.taskId = ga.taskId ∧ gb.expertId = expertB)).flatMap
      (fun gb => (ga.joined gb).map (fun s => (ga.taskId, s))))

/-- Agreement between two experts on tasks both graded, per criterion score. -/
def pairAgreement (db : Db) (expertA expertB : Uuid) : PairAgreement :=
  let rows := pairRows db expertA expertB
  let diffs := rows.map (fun r => |r.2.1 - r.2.2|)
  let n := diffs.length
  { expertA := expertA
    expertB := expertB
    sharedTasks := (rows.map Prod.fst).dedup.length
    comparedScores := n
    exactAgreement := ratio (diffs.countP (fun d => d = 0)) n
    meanAbsDiff := ratio diffs.sum n
    withinOne := ratio (diffs.countP (fun d => d ≤ 1)) n }

structure GlobalAgreement where
  multiGradedTasks : ℕ
  comparedPairs : ℕ
  meanAbsDiff : Option ℚ
  exactAgreement : Option ℚ
  withinOne : Option ℚ

/-- `Task.is_attention_check.is_(False)` for a stored task. -/
def regularTask (db : Db) (taskId : Uuid) : Bool :=
  (db.tasks.get taskId).any (fun t => !t.isAttentionCheck)

/-- The query of `global_agreement` before it aggregates. -/
def globalRows (db : Db) : List (Uuid × ℚ × ℚ) :=
  db.grades.rows.flatMap (fun ga =>
    (db.grades.rows.filter (fun gb => gb.taskId = ga.taskId ∧ gb.id < ga.id ∧
        regularTask db ga.taskId)).flatMap
      (fun gb => (ga.joined gb).map (fun s => (ga.taskId, s))))

/-- Mean pairwise absolute score difference across every multi-graded, non-golden task. -/
def globalAgreement (db : Db) : GlobalAgreement :=
  let rows := globalRows db
  let n := rows.length
  { multiGradedTasks := (rows.map Prod.fst).dedup.length
    comparedPairs := n
    meanAbsDiff := ratio (rows.map (fun r => |r.2.1 - r.2.2|)).sum n
    exactAgreement := ratio (rows.countP (fun r => r.2.1 = r.2.2)) n
    withinOne := ratio (rows.countP (fun r => |r.2.1 - r.2.2| ≤ 1)) n }

structure CriterionAgreement where
  scores : List (Uuid × ℚ)
  mean : ℚ
  range : ℚ

structure TaskAgreement where
  taskId : Uuid
  grades : ℕ
  criteria : List (String × CriterionAgreement)
  meanPairwiseAbsDiff : Option ℚ

/-- The query of `task_agreement`. -/
def taskScores (db : Db) (taskId : Uuid) : List (Uuid × String × ℚ) :=
  (db.grades.rows.filter (fun g => g.taskId = taskId)).flatMap (fun g =>
    g.scores.filterMap (fun s => (db.rubricCriteria.get s.criterionId).map
      (fun c => (g.expertId, c.key, s.score))))

/-- `d[k] = v` on a `dict`: a new key goes to the end. -/
def dictSet {κ β : Type} [DecidableEq κ] (d : List (κ × β)) (k : κ) (v : β) : List (κ × β) :=
  if d.any (fun p => p.1 = k) then d.map (fun p => if p.1 = k then (k, v) else p)
  else d ++ [(k, v)]

/-- `d.get(k, {})`. -/
def dictGet {κ β : Type} [DecidableEq κ] (d : List (κ × List β)) (k : κ) : List β :=
  ((d.find? (fun p => p.1 = k)).map Prod.snd).getD []

/-- `by_criterion`; the inner dictionaries are keyed by the expert. -/
def byCriterion (rows : List (Uuid × String × ℚ)) : List (String × List (Uuid × ℚ)) :=
  rows.foldl (fun d r => dictSet d r.2.1 (dictSet (dictGet d r.2.1) r.1 r.2.2)) []

/-- The differences one criterion contributes. -/
def criterionDiffs (scores : List (Uuid × ℚ)) : List ℚ :=
  (combinations (scores.map Prod.snd)).map (fun p => |p.1 - p.2|)

/-- `pair_diffs`. -/
def pairDiffs (db : Db) (taskId : Uuid) : List ℚ :=
  (byCriterion (taskScores db taskId)).flatMap (fun c => criterionDiffs c.2)

def taskAgreement (db : Db) (taskId : Uuid) : TaskAgreement :=
  let rows := taskScores db taskId
  let diffs := pairDiffs db taskId
  { taskId := taskId
    grades := (rows.map Prod.fst).dedup.length
    criteria := (byCriterion rows).map (fun c =>
      let values := c.2.map Prod.snd
      (c.1, ⟨c.2, values.sum / values.length, values.foldl max (values.headD 0) -
        values.foldl min (values.headD 0)⟩))
    meanPairwiseAbsDiff := ratio diffs.sum diffs.length }

end Panelist
