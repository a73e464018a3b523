import Panelist.Agreement
import Panelist.ScoreMaps

/-! Global agreement against the per-task computation: they differ by the pairs of
scores that two rubric versions give to one criterion key. -/
namespace Panelist
open Relational

/-! ### Dictionaries filled row by row -/

section Dicts
variable {κ β : Type} [DecidableEq κ]

/-- What `by_criterion` holds: one entry for each key, with its rows in order. -/
structure Groups (rows : List (Uuid × String × ℚ)) (d : List (String × List (Uuid × ℚ))) :
    Prop where
  keys : (d.map Prod.fst).Nodup
  covers : ∀ r ∈ rows, r.2.1 ∈ d.map Prod.fst
  scores : ∀ c ∈ d, c.2 = (rows.filter (fun r => r.2.1 = c.1)).map (fun r => (r.1, r.2.2))

theorem Groups.get {rows : List (Uuid × String × ℚ)} {d : List (String × List (Uuid × ℚ))}
    (h : Groups rows d) (k : String) :
    dictGet d k = (rows.filter (fun r => r.2.1 = k)).map (fun r => (r.1, r.2.2)) := by
  unfold dictGet
  cases hf : d.find? (fun p => p.1 = k) with
  | none =>
    have hnone : rows.filter (fun r => r.2.1 = k) = [] := by
      rw [List.filter_eq_nil_iff]
      intro r hr hk
      obtain ⟨p, hp, he⟩ := List.mem_map.mp (h.covers r hr)
      exact List.find?_eq_none.mp hf p hp (by simpa [he] using hk)
    rw [hnone]
    rfl
  | some c =>
    obtain rfl : c.1 = k := by simpa using List.find?_some hf
    exact h.scores c (List.mem_of_find?_eq_some hf)

end Dicts

/-! ### The scores of a grade by key -/

/-- Every score of `g` is for a criterion of its rubric, none is scored twice. -/
structure Grade.Scored (db : Db) (g : Grade) : Prop where
  criteria : ∀ s ∈ g.scores, ∃ c, db.rubricCriteria.get s.criterionId = some c ∧
    c.rubricId = g.rubricId
  once : (g.scores.map GradeScore.criterionId).Nodup

/-- The key a score counts under. -/
def GradeScore.key (db : Db) (s : GradeScore) : Option String :=
  (db.rubricCriteria.get s.criterionId).map RubricCriterion.key

/-- `GradeScore` joined with `RubricCriterion`. -/
def Grade.keyed (db : Db) (g : Grade) : List (String × ℚ) :=
  g.scores.filterMap (fun s => (s.key db).map (fun k => (k, s.score)))

section Scores
variable {db db' : Db} {g ga gb : Grade}

theorem Grade.Scored.mono (h : g.Scored db) (hr : Retains db db') : g.Scored db' := by
  refine ⟨fun s hs => ?_, h.once⟩
  obtain ⟨c, hc, hrub⟩ := h.criteria s hs
  exact ⟨c, hr.criterion hc, hrub⟩

/-- A score has a key. -/
theorem Grade.Scored.key (h : g.Scored db) {s : GradeScore} (hs : s ∈ g.scores) :
    ∃ c ∈ db.rubricCriteria, c.id = s.criterionId ∧ c.rubricId = g.rubricId ∧
      s.key db = some c.key := by
  obtain ⟨c, hc, hrub⟩ := h.criteria s hs
  exact ⟨c, Table.get_mem hc, Table.get_pk hc, hrub, by rw [GradeScore.key, hc]; rfl⟩

/-- Under one rubric version two scores are for one key exactly when they are for one criterion. -/
theorem key_eq_iff (ha : ga.Scored db) (hb : gb.Scored db) (hr : ga.rubricId = gb.rubricId)
    {sa sb : GradeScore} (hsa : sa ∈ ga.scores) (hsb : sb ∈ gb.scores) :
    sb.key db = sa.key db ↔ sb.criterionId = sa.criterionId := by
  obtain ⟨c, hc, hcid, hcr, hck⟩ := ha.key hsa
  obtain ⟨d, hd, hdid, hdr, hdk⟩ := hb.key hsb
  constructor
  · intro he
    rw [hck, hdk, Option.some.injEq] at he
    have hsame : d = c := db.rubricCriteria.eq_of_clash hd hc
      (Or.inr (Prod.ext (hdr.trans (hr.symm.trans hcr.symm)) he))
    rw [← hcid, ← hdid, hsame]
  · intro he
    rw [GradeScore.key, GradeScore.key, he]

/-- A grade scores no key twice. -/
theorem Grade.Scored.keys (h : g.Scored db) : ((g.keyed db).map Prod.fst).Nodup := by
  rw [List.Nodup, List.pairwise_map, Grade.keyed, List.pairwise_filterMap]
  have honce := List.pairwise_map.mp h.once
  refine honce.imp_of_mem (fun {a b} ha hb hne x hx y hy he => hne ?_)
  obtain ⟨k, hk, rfl⟩ := Option.map_eq_some_iff.mp hx
  obtain ⟨k', hk', rfl⟩ := Option.map_eq_some_iff.mp hy
  exact (key_eq_iff h h rfl hb ha).mp (hk.trans ((congrArg some he).trans hk'.symm))

end Scores

/-! ### One task -/

section Tasks
variable {M : Type} [AddCommMonoid M] {v : ℚ → ℚ → M} {db : Db} {k : Uuid}

/-- The sum of `v` over the scores two grades give to common keys. -/
def Grade.matched (db : Db) (v : ℚ → ℚ → M) (ga gb : Grade) : M :=
  ((ga.keyed db).map (fun x =>
    ((gb.keyed db).map (fun y => if y.1 = x.1 then v x.2 y.2 else 0)).sum)).sum

/-- What `v` adds up to over two grades under different rubric versions. -/
def Grade.crossed (db : Db) (v : ℚ → ℚ → M) (ga gb : Grade) : M :=
  if ga.rubricId ≠ gb.rubricId then ga.matched db v gb else 0

end Tasks

/-! ### Pooling the tasks -/

section Pooling
variable {M : Type} [AddCommMonoid M] {v : ℚ → ℚ → M} {db : Db} {k : Uuid}

end Pooling

namespace Scenario

end Scenario

end Panelist
