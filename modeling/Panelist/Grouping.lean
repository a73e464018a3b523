import Mathlib
import Panelist.Table

/-! Sums over the groups of a list of rows, as `GROUP BY` forms them: every row
counts in the one group of its key. And sums over a table, as its rows are rewritten. -/
namespace Relational

section Groups
variable {α κ : Type*} [DecidableEq κ] (key : α → Option κ) (val : α → ℤ)

/-- The sum of `val` over the rows with key `k`. -/
def groupSum (rows : List α) (k : κ) : ℤ :=
  ((rows.filter (fun r => key r = some k)).map val).sum

theorem groupSum_cons (r : α) (rows : List α) (k : κ) :
    groupSum key val (r :: rows) k =
      (if key r = some k then val r else 0) + groupSum key val rows k := by
  unfold groupSum
  by_cases hk : key r = some k
  · simp [hk]
  · simp [hk]

theorem sum_single {keys : List κ} (hn : keys.Nodup) {k : κ} (hk : k ∈ keys) (v : ℤ) :
    (keys.map (fun k' => if k = k' then v else 0)).sum = v := by
  induction keys with
  | nil => exact absurd hk (by simp)
  | cons k' keys ih =>
    obtain ⟨hfresh, hn⟩ := List.nodup_cons.mp hn
    rw [List.map_cons, List.sum_cons]
    by_cases he : k = k'
    · have hrest : (keys.map (fun k' => if k = k' then v else 0)).sum = 0 := by
        apply List.sum_eq_zero
        intro x hx
        obtain ⟨k'', hk'', rfl⟩ := List.mem_map.mp hx
        apply if_neg
        rintro rfl
        exact hfresh (he ▸ hk'')
      rw [if_pos he, hrest, add_zero]
    · rw [if_neg he, zero_add]
      exact ih hn ((List.mem_cons.mp hk).resolve_left he)

/-- The groups of distinct keys together hold the rows that have a key. -/
theorem sum_groupSum {keys : List κ} (hn : keys.Nodup) {rows : List α}
    (h : ∀ r ∈ rows, ∀ k, key r = some k → k ∈ keys) :
    (keys.map (groupSum key val rows)).sum =
      ((rows.filter (fun r => (key r).isSome)).map val).sum := by
  induction rows with
  | nil =>
    apply List.sum_eq_zero
    intro x hx
    obtain ⟨k, _, rfl⟩ := List.mem_map.mp hx
    rfl
  | cons r rows ih =>
    have ih := ih (fun s hs => h s (List.mem_cons_of_mem r hs))
    -- the first row counts in the group of its key, if it has one
    have hsplit : (keys.map (groupSum key val (r :: rows))).sum =
        (keys.map (fun k => if key r = some k then val r else 0)).sum +
          (keys.map (groupSum key val rows)).sum := by
      rw [← List.sum_map_add]
      exact congrArg List.sum (List.map_congr_left (fun k _ => groupSum_cons key val r rows k))
    rw [hsplit, ih]
    cases hk : key r with
    | none => simp [hk]
    | some k =>
      have hmem : k ∈ keys := h r List.mem_cons_self k hk
      simp [hk, sum_single hn hmem]

end Groups

/-- Rows that count for nothing can be left out of a sum. -/
theorem sum_filter_of_zero {α : Type*} {val : α → ℤ} {p : α → Bool} {rows : List α}
    (h : ∀ r ∈ rows, p r = false → val r = 0) :
    ((rows.filter p).map val).sum = (rows.map val).sum := by
  induction rows with
  | nil => rfl
  | cons r rows ih =>
    have ih := ih (fun s hs => h s (List.mem_cons_of_mem r hs))
    cases hp : p r with
    | true => simp [hp, ih]
    | false => simp [hp, ih, h r List.mem_cons_self hp]

/-! ### Sums over a table -/

namespace Table
variable {ρ γ κ : Type} [DecidableEq κ] [Row ρ γ κ] (T : Table ρ) (w : ρ → ℕ)

/-- What the rows weigh together. -/
def total : ℕ := (T.rows.map w).sum

theorem sum_map_ite (p : ρ → Bool) (f : ρ → ρ) (rows : List ρ) :
    ((rows.map (fun r => if p r then f r else r)).map w).sum + ((rows.filter p).map w).sum =
      (rows.map w).sum + ((rows.filter p).map (fun r => w (f r))).sum := by
  induction rows with
  | nil => rfl
  | cons r rows ih =>
    by_cases hp : p r = true
    · simp only [List.map_cons, List.sum_cons, List.filter_cons, hp, if_true]
      omega
    · simp only [List.map_cons, List.sum_cons, List.filter_cons, hp, Bool.false_eq_true, if_false]
      omega

/-- The rows that an `UPDATE` matches are weighed anew. -/
theorem total_updateWhere (p : ρ → Bool) (f : ρ → ρ) (hf : Keeps f) :
    (T.updateWhere p f hf).total w + ((T.rows.filter p).map w).sum =
      T.total w + ((T.rows.filter p).map (fun r => w (f r))).sum :=
  sum_map_ite w p f T.rows

variable {T} {w}

theorem filter_pk {k : κ} {r : ρ} (h : T.get k = some r) :
    T.rows.filter (fun s => decide (pk s = k)) = [r] := by
  obtain ⟨hmem, hk⟩ := T.get_eq_some.mp h
  apply List.perm_singleton.mp
  rw [List.perm_ext_iff_of_nodup (T.nodup.filter _) (List.nodup_singleton r)]
  intro s
  rw [List.mem_filter, List.mem_singleton, decide_eq_true_eq]
  constructor
  · intro hs
    exact T.eq_of_pk hs.1 hmem (hs.2.trans hk.symm)
  · rintro rfl
    exact ⟨hmem, hk⟩

theorem total_update {k : κ} {r : ρ} {f : ρ → ρ} {hf : Keeps f} (h : T.get k = some r) :
    (T.update k f hf).total w + w r = T.total w + w (f r) := by
  have hsum : (T.update k f hf).total w + ([r].map w).sum =
      T.total w + ([r].map (fun s => w (f s))).sum := by
    rw [← filter_pk h]
    exact T.total_updateWhere w (fun s => decide (pk s = k)) f hf
  rwa [List.map_singleton, List.map_singleton, List.sum_singleton, List.sum_singleton] at hsum

end Table

end Relational
