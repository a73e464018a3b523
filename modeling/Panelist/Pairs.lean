import Mathlib

/-! Sums over pairs of rows: the ordered pairs of a list, the unordered ones in the
order of their positions, and the ones a comparison of the rows picks out. For a
symmetric summand that vanishes on the diagonal they agree up to a factor of two. -/
namespace Relational

section Sums
variable {α β M : Type*} [AddCommMonoid M]

theorem sum_map_filter (p : α → Bool) (f : α → M) (l : List α) :
    ((l.filter p).map f).sum = (l.map (fun x => if p x then f x else 0)).sum := by
  induction l with
  | nil => rfl
  | cons x l ih =>
    cases hp : p x with
    | true => simp [hp, ih]
    | false => simp [hp, ih]

theorem sum_map_flatMap (g : α → List β) (f : β → M) (l : List α) :
    ((l.flatMap g).map f).sum = (l.map (fun x => ((g x).map f).sum)).sum := by
  induction l with
  | nil => rfl
  | cons x l ih => rw [List.flatMap_cons, List.map_append, List.sum_append, ih, List.map_cons,
      List.sum_cons]

theorem sum_map_filterMap (g : α → Option β) (f : β → M) (l : List α) :
    ((l.filterMap g).map f).sum = (l.map (fun x => ((g x).map f).getD 0)).sum := by
  induction l with
  | nil => rfl
  | cons x l ih =>
    cases hg : g x with
    | none => simp [hg, ih]
    | some y => simp [hg, ih]

/-- A sum with one summand that counts. -/
theorem sum_map_unique {l : List α} (hn : l.Nodup) {a : α} (ha : a ∈ l) {f : α → M}
    (h : ∀ x ∈ l, x ≠ a → f x = 0) : (l.map f).sum = f a := by
  induction l with
  | nil => exact absurd ha List.not_mem_nil
  | cons x l ih =>
    obtain ⟨hfresh, hn⟩ := List.nodup_cons.mp hn
    rw [List.map_cons, List.sum_cons]
    rcases List.mem_cons.mp ha with rfl | ha
    · rw [List.sum_eq_zero, add_zero]
      intro y hy
      obtain ⟨z, hz, rfl⟩ := List.mem_map.mp hy
      exact h z (List.mem_cons_of_mem _ hz) (fun he => hfresh (he ▸ hz))
    · rw [h x List.mem_cons_self (fun he => hfresh (he ▸ ha)), zero_add]
      exact ih hn ha (fun y hy => h y (List.mem_cons_of_mem _ hy))

theorem sum_sum_comm (f : α → β → M) (l : List α) (m : List β) :
    (l.map (fun x => (m.map (f x)).sum)).sum =
      (m.map (fun y => (l.map (fun x => f x y)).sum)).sum := by
  induction l with
  | nil => simp
  | cons x l ih =>
    rw [List.map_cons, List.sum_cons, ih, ← List.sum_map_add]
    exact congrArg List.sum (List.map_congr_left (fun y _ => by simp))

/-- The sum over all ordered pairs. -/
def total (f : α → α → M) (l : List α) : M := (l.map (fun x => (l.map (f x)).sum)).sum

theorem total_congr {f g : α → α → M} {l : List α} (h : ∀ x ∈ l, ∀ y ∈ l, f x y = g x y) :
    total f l = total g l :=
  congrArg List.sum (List.map_congr_left (fun x hx =>
    congrArg List.sum (List.map_congr_left (fun y hy => h x hx y hy))))

theorem total_swap (f : α → α → M) (l : List α) : total (fun x y => f y x) l = total f l :=
  sum_sum_comm _ l l

theorem total_add (f g : α → α → M) (l : List α) :
    total (fun x y => f x y + g x y) l = total f l + total g l := by
  unfold total
  rw [← List.sum_map_add]
  exact congrArg List.sum (List.map_congr_left (fun x _ => List.sum_map_add))

/-- A comparison that decides every pair that counts picks out half of the total. -/
theorem total_oriented {f : α → α → M} {l : List α} (R : α → α → Prop) [DecidableRel R]
    (hsymm : ∀ x y, f x y = f y x) (hasymm : ∀ x y, R x y → ¬ R y x)
    (hdecides : ∀ x ∈ l, ∀ y ∈ l, ¬ R x y → ¬ R y x → f x y = 0) :
    total f l = 2 • total (fun x y => if R x y then f x y else 0) l := by
  have hsplit : total f l =
      total (fun x y => (if R x y then f x y else 0) + (if R y x then f y x else 0)) l := by
    apply total_congr
    intro x hx y hy
    by_cases hxy : R x y
    · rw [if_pos hxy, if_neg (hasymm x y hxy), add_zero]
    · by_cases hyx : R y x
      · rw [if_neg hxy, if_pos hyx, zero_add, hsymm]
      · rw [if_neg hxy, if_neg hyx, add_zero, hdecides x hx y hy hxy hyx]
  rw [hsplit, total_add, total_swap (fun x y => if R x y then f x y else 0), two_nsmul]

/-- Two comparisons that decide the same pairs pick out the same sum. -/
theorem total_reoriented [IsAddTorsionFree M] {f : α → α → M} {l : List α} {R S : α → α → Prop}
    [DecidableRel R] [DecidableRel S] (hsymm : ∀ x y, f x y = f y x)
    (hR : ∀ x y, R x y → ¬ R y x) (hS : ∀ x y, S x y → ¬ S y x)
    (hsame : ∀ x ∈ l, ∀ y ∈ l, f x y ≠ 0 → (R x y ∨ R y x ↔ S x y ∨ S y x)) :
    total (fun x y => if R x y then f x y else 0) l =
      total (fun x y => if S x y then f x y else 0) l := by
  -- only the pairs that both of them decide count on either side
  let g (x y : α) : M := if R x y ∨ R y x then f x y else 0
  have hg (x y : α) : g x y = g y x := if_congr or_comm (hsymm x y) rfl
  have hgR : total g l = 2 • total (fun x y => if R x y then f x y else 0) l := by
    rw [total_oriented R hg hR (fun x _ y _ hxy hyx => if_neg (not_or.mpr ⟨hxy, hyx⟩))]
    congr 1
    refine total_congr (fun x _ y _ => ?_)
    by_cases hxy : R x y
    · rw [if_pos hxy, if_pos hxy]
      exact if_pos (Or.inl hxy)
    · rw [if_neg hxy, if_neg hxy]
  have hgS : total g l = 2 • total (fun x y => if S x y then f x y else 0) l := by
    rw [total_oriented S hg hS (fun x hx y hy hxy hyx => ?_)]
    · congr 1
      refine total_congr (fun x hx y hy => ?_)
      by_cases hxy : S x y
      · rw [if_pos hxy, if_pos hxy]
        by_cases hf : f x y = 0
        · show (if R x y ∨ R y x then f x y else 0) = f x y
          rw [hf, ite_self]
        · exact if_pos ((hsame x hx y hy hf).mpr (Or.inl hxy))
      · rw [if_neg hxy, if_neg hxy]
    · by_cases hf : f x y = 0
      · show (if R x y ∨ R y x then f x y else 0) = 0
        rw [hf, ite_self]
      · refine if_neg (fun h => ?_)
        rcases (hsame x hx y hy hf).mp h with h | h
        · exact hxy h
        · exact hyx h
  exact nsmul_right_injective two_ne_zero (hgR.symm.trans hgS)

/-- `itertools.combinations(l, 2)`. -/
def combinations : List α → List (α × α)
  | [] => []
  | x :: l => l.map (Prod.mk x) ++ combinations l

end Sums

end Relational
