import Mathlib

/-! Linear combinations of values that each lie in a range of their own, and when such a
combination always stays between the smallest and the largest of the values. -/
namespace Mixture

variable {ι K : Type*} [Field K] [LinearOrder K] [IsStrictOrderedRing K]

/-- The combination of the values `s` with the coefficients `v`. -/
def mix (xs : List ι) (v s : ι → K) : K := (xs.map (fun i => v i * s i)).sum

/-- The choice within the ranges that combines highest while no value exceeds `cap`. -/
def capped (v lo hi : ι → K) (cap : K) (i : ι) : K := if 0 ≤ v i then min (hi i) cap else lo i

/-- The choice within the ranges that combines lowest while no value is below `floor`. -/
def floored (v lo hi : ι → K) (floor : K) (i : ι) : K := if 0 ≤ v i then max (lo i) floor else hi i

/-- No choice combines past the cap or the floor its values keep. -/
structure Steady (xs : List ι) (v lo hi : ι → K) : Prop where
  high : ∀ cap, (∀ i ∈ xs, lo i ≤ cap) → mix xs v (capped v lo hi cap) ≤ cap
  low : ∀ floor, (∀ i ∈ xs, floor ≤ hi i) → floor ≤ mix xs v (floored v lo hi floor)

section Mixes
variable {xs : List ι} {v lo hi s t : ι → K} {x : K}

theorem mix_mono (h : ∀ i ∈ xs, v i * s i ≤ v i * t i) : mix xs v s ≤ mix xs v t :=
  List.sum_le_sum h

omit [LinearOrder K] [IsStrictOrderedRing K] in
theorem mix_congr (h : ∀ i ∈ xs, s i = t i) : mix xs v s = mix xs v t :=
  congrArg List.sum (List.map_congr_left (fun i hi => by rw [h i hi]))

omit [LinearOrder K] [IsStrictOrderedRing K] in
theorem mix_const (xs : List ι) (v : ι → K) (x : K) :
    mix xs v (fun _ => x) = (xs.map v).sum * x := by
  unfold mix
  exact List.sum_map_mul_right xs v x

omit [LinearOrder K] [IsStrictOrderedRing K] in
theorem mix_neg (xs : List ι) (v s : ι → K) : mix xs v (fun i => -s i) = -mix xs v s := by
  unfold mix
  rw [List.sum_neg, List.map_map]
  exact congrArg List.sum (List.map_congr_left (fun i _ => mul_neg (v i) (s i)))

theorem capped_neg (v lo hi : ι → K) (x : K) :
    capped v (fun i => -hi i) (fun i => -lo i) (-x) = fun i => -floored v lo hi x i := by
  funext i
  unfold capped floored
  split_ifs
  · exact min_neg_neg (lo i) x
  · rfl

/-- A combination always stays at or below one of its values exactly when it does so for
the highest choice under each cap. -/
theorem exists_ge_iff (hne : xs ≠ []) (hr : ∀ i ∈ xs, lo i ≤ hi i) :
    (∀ s : ι → K, (∀ i ∈ xs, lo i ≤ s i ∧ s i ≤ hi i) → ∃ i ∈ xs, mix xs v s ≤ s i) ↔
      ∀ cap, (∀ i ∈ xs, lo i ≤ cap) → mix xs v (capped v lo hi cap) ≤ cap := by
  constructor
  · intro h cap hcap
    obtain ⟨i, hi', hle⟩ := h (capped v lo hi cap) (fun i hmem => by
      unfold capped
      split_ifs
      · exact ⟨le_min (hr i hmem) (hcap i hmem), min_le_left _ _⟩
      · exact ⟨le_rfl, hr i hmem⟩)
    refine hle.trans ?_
    unfold capped
    split_ifs
    · exact min_le_right _ _
    · exact hcap i hi'
  · intro h s hs
    -- the largest value is the cap
    obtain ⟨m, hm, hmax⟩ := Set.exists_max_image {i | i ∈ xs} s (List.finite_toSet xs)
      (List.exists_mem_of_ne_nil xs hne)
    refine ⟨m, hm, le_trans (mix_mono (fun i hi' => ?_))
      (h (s m) (fun i hi' => (hs i hi').1.trans (hmax i hi')))⟩
    unfold capped
    split_ifs with hv
    · exact mul_le_mul_of_nonneg_left (le_min (hs i hi').2 (hmax i hi')) hv
    · exact mul_le_mul_of_nonpos_left (hs i hi').1 (not_le.mp hv).le

/-- The same from below, which is the same above for the negated values. -/
theorem exists_le_iff (hne : xs ≠ []) (hr : ∀ i ∈ xs, lo i ≤ hi i) :
    (∀ s : ι → K, (∀ i ∈ xs, lo i ≤ s i ∧ s i ≤ hi i) → ∃ i ∈ xs, s i ≤ mix xs v s) ↔
      ∀ floor, (∀ i ∈ xs, floor ≤ hi i) → floor ≤ mix xs v (floored v lo hi floor) := by
  have hmirror := @exists_ge_iff _ _ _ _ _ xs v (fun i => -hi i) (fun i => -lo i) hne
    (fun i hi' => neg_le_neg (hr i hi'))
  -- negated values, both ways
  constructor
  · intro h floor hfloor
    have hneg := hmirror.mp (fun s hs => ?_) (-floor) (fun i hi' => neg_le_neg (hfloor i hi'))
    · rw [capped_neg, mix_neg] at hneg
      exact neg_le_neg_iff.mp hneg
    · obtain ⟨i, hi', hle⟩ := h (fun i => -s i)
        (fun i hi' => ⟨le_neg_of_le_neg (hs i hi').2, neg_le_of_neg_le (hs i hi').1⟩)
      rw [mix_neg] at hle
      exact ⟨i, hi', neg_le_neg_iff.mp hle⟩
  · intro h s hs
    have hcapped : ∀ cap, (∀ i ∈ xs, -hi i ≤ cap) →
        mix xs v (capped v (fun i => -hi i) (fun i => -lo i) cap) ≤ cap := by
      intro cap hcap
      have hfloor := h (-cap) (fun i hi' => neg_le_of_neg_le (hcap i hi'))
      rw [← neg_neg cap, capped_neg, mix_neg]
      exact neg_le_neg hfloor
    obtain ⟨i, hi', hle⟩ := hmirror.mpr hcapped (fun i => -s i)
      (fun i hi' => ⟨neg_le_neg (hs i hi').2, neg_le_neg (hs i hi').1⟩)
    rw [mix_neg] at hle
    exact ⟨i, hi', neg_le_neg_iff.mp hle⟩

/-- Every choice combines to between its smallest and its largest value exactly when the
combination is steady. -/
theorem between_iff (hne : xs ≠ []) (hr : ∀ i ∈ xs, lo i ≤ hi i) :
    (∀ s : ι → K, (∀ i ∈ xs, lo i ≤ s i ∧ s i ≤ hi i) →
      (∃ i ∈ xs, s i ≤ mix xs v s) ∧ ∃ i ∈ xs, mix xs v s ≤ s i) ↔ Steady xs v lo hi := by
  constructor
  · intro h
    exact ⟨(exists_ge_iff hne hr).mp (fun s hs => (h s hs).2),
      (exists_le_iff hne hr).mp (fun s hs => (h s hs).1)⟩
  · intro h s hs
    exact ⟨(exists_le_iff hne hr).mpr h.low s hs, (exists_ge_iff hne hr).mpr h.high s hs⟩

/-! ### Means -/

/-- A mean is steady whatever the ranges. -/
theorem Steady.of_mean (hsum : (xs.map v).sum = 1) (hv : ∀ i ∈ xs, 0 ≤ v i) :
    Steady xs v lo hi where
  high cap _ := by
    have hle : mix xs v (capped v lo hi cap) ≤ mix xs v (fun _ => cap) := by
      refine mix_mono (fun i hi' => mul_le_mul_of_nonneg_left ?_ (hv i hi'))
      rw [capped, if_pos (hv i hi')]
      exact min_le_right _ _
    rwa [mix_const, hsum, one_mul] at hle
  low floor _ := by
    have hle : mix xs v (fun _ => floor) ≤ mix xs v (floored v lo hi floor) := by
      refine mix_mono (fun i hi' => mul_le_mul_of_nonneg_left ?_ (hv i hi'))
      rw [floored, if_pos (hv i hi')]
      exact le_max_right _ _
    rwa [mix_const, hsum, one_mul] at hle

/-- At a value of all the ranges the highest choice combines at least as high as that value
everywhere, and higher when a coefficient is negative and its range reaches below. -/
theorem mix_capped_shared (hx : ∀ i ∈ xs, lo i ≤ x ∧ x ≤ hi i) :
    (xs.map v).sum * x ≤ mix xs v (capped v lo hi x) ∧
      ((∀ i ∈ xs, lo i < x) → mix xs v (capped v lo hi x) ≤ (xs.map v).sum * x →
        ∀ i ∈ xs, 0 ≤ v i) := by
  have hterm : ∀ i ∈ xs, v i * x ≤ v i * capped v lo hi x i := by
    intro i hi'
    unfold capped
    split_ifs with hv
    · rw [min_eq_right (hx i hi').2]
    · exact mul_le_mul_of_nonpos_left (hx i hi').1 (not_le.mp hv).le
  rw [← mix_const]
  refine ⟨mix_mono hterm, fun hlow hle i hi' => ?_⟩
  by_contra hv
  refine absurd hle (not_le.mpr (List.sum_lt_sum _ _ hterm ⟨i, hi', ?_⟩))
  rw [capped, if_neg hv]
  exact mul_lt_mul_of_neg_left (hlow i hi') (not_le.mp hv)

/-- The lowest choice at a value of all the ranges. -/
theorem mix_floored_shared (hx : ∀ i ∈ xs, lo i ≤ x ∧ x ≤ hi i) :
    mix xs v (floored v lo hi x) ≤ (xs.map v).sum * x := by
  rw [← mix_const]
  refine mix_mono (fun i hi' => ?_)
  unfold floored
  split_ifs with hv
  · rw [max_eq_right (hx i hi').1]
  · exact mul_le_mul_of_nonpos_left (hx i hi').2 (not_le.mp hv).le

/-- Coefficients that sum to 1 or to 0 combine steadily over ranges with two common values
exactly when they form a mean. -/
theorem steady_iff_mean {a b : K} (hsum : (xs.map v).sum = 1 ∨ (xs.map v).sum = 0) (hab : a < b)
    (hshare : ∀ i ∈ xs, lo i ≤ a ∧ b ≤ hi i) :
    Steady xs v lo hi ↔ (xs.map v).sum = 1 ∧ ∀ i ∈ xs, 0 ≤ v i := by
  constructor
  · intro h
    -- both common values lie in every range
    have ha : ∀ i ∈ xs, lo i ≤ a ∧ a ≤ hi i :=
      fun i hi' => ⟨(hshare i hi').1, hab.le.trans (hshare i hi').2⟩
    have hb : ∀ i ∈ xs, lo i ≤ b ∧ b ≤ hi i :=
      fun i hi' => ⟨(hshare i hi').1.trans hab.le, (hshare i hi').2⟩
    rcases hsum with hsum | hsum
    -- a cap at the upper common value finds a negative coefficient
    · refine ⟨hsum, (mix_capped_shared hb).2 (fun i hi' => (ha i hi').1.trans_lt hab) ?_⟩
      rw [hsum, one_mul]
      exact h.high b (fun i hi' => (hb i hi').1)
    · -- with sum 0 the combination at `a` forces `0 ≤ a` and the one at `b` forces `b ≤ 0`
      have hlow : 0 ≤ a := by
        have hle := (mix_capped_shared ha (v := v)).1.trans (h.high a (fun i hi' => (ha i hi').1))
        rwa [hsum, zero_mul] at hle
      have hhigh : b ≤ 0 := by
        have hle := (h.low b (fun i hi' => (hb i hi').2)).trans (mix_floored_shared hb (v := v))
        rwa [hsum, zero_mul] at hle
      exact absurd (hlow.trans_lt hab) (not_lt.mpr hhigh)
  · rintro ⟨hsum, hv⟩
    exact .of_mean hsum hv

end Mixes

end Mixture
