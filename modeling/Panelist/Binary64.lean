import Mathlib

/-! Arithmetic of binary64 floating-point numbers: rounding to nearest with ties to even, the
values with their signed zero and infinities, and sums of them. -/
namespace Binary64

/-! ### Rounding to an integer -/

/-- The nearest integer; ties go to the even neighbour. -/
def nearestEven (q : ℚ) : ℤ :=
  let n := q.floor
  let r := q - n
  if r < 1 / 2 then n
  else if 1 / 2 < r then n + 1
  -- a tie
  else if n % 2 = 0 then n
  else n + 1

section NearestEven
variable {q : ℚ} {n : ℤ}

theorem le_nearestEven (h : (n : ℚ) ≤ q) : n ≤ nearestEven q := by
  have hfloor : n ≤ q.floor := Rat.le_floor_iff.mpr h
  unfold nearestEven
  dsimp only
  split_ifs <;> omega

theorem nearestEven_le (h : q ≤ n) : nearestEven q ≤ n := by
  have hle : q.floor ≤ n := by exact_mod_cast (Rat.floor_le q).trans h
  rcases hle.lt_or_eq with hlt | heq
  · unfold nearestEven
    dsimp only
    split_ifs <;> omega
  · -- then `q` is `n` and there is nothing to round
    have hq : q - (q.floor : ℚ) = 0 := by
      rw [heq]
      have hge : (n : ℚ) ≤ q := heq ▸ Rat.floor_le q
      linarith
    unfold nearestEven
    dsimp only
    rw [hq, if_pos (by norm_num)]
    exact hle

theorem nearestEven_intCast (n : ℤ) : nearestEven n = n :=
  (nearestEven_le le_rfl).antisymm (le_nearestEven le_rfl)

end NearestEven

/-! ### Rounding to a significand of 53 bits -/

/-- The exponent of the leading bit. -/
def leading (q : ℚ) : ℤ :=
  let k : ℤ := q.num.natAbs.log2 - q.den.log2
  if |q| < 2 ^ k then k - 1 else k

/-- The exponent of the last place that a number of this size has. -/
def lastPlace (q : ℚ) : ℤ := max (leading q - 52) (-1074)

/-- The nearest number on the grid of `q`, whose exponents have no upper bound. -/
def nearest (q : ℚ) : ℚ := nearestEven (q / 2 ^ lastPlace q) * 2 ^ lastPlace q

theorem two_zpow_leading_le {q : ℚ} (hq : q ≠ 0) : (2 : ℚ) ^ leading q ≤ |q| := by
  unfold leading
  dsimp only
  split_ifs with h
  · have hnum : (2 : ℚ) ^ q.num.natAbs.log2 ≤ q.num.natAbs := by
      exact_mod_cast Nat.log2_self_le (Int.natAbs_ne_zero.mpr (Rat.num_ne_zero.mpr hq))
    have hden : (q.den : ℚ) < 2 ^ (q.den.log2 + 1) := by exact_mod_cast Nat.lt_log2_self
    have habs : |q| = q.num.natAbs / q.den := by
      conv_lhs => rw [← Rat.num_div_den q, abs_div, Nat.abs_cast, ← Int.cast_abs]
      rw [Int.abs_eq_natAbs, Int.cast_natCast]
    have hsplit : (2 : ℚ) ^ ((q.num.natAbs.log2 : ℤ) - q.den.log2 - 1) =
        2 ^ q.num.natAbs.log2 / 2 ^ (q.den.log2 + 1) := by
      rw [sub_sub, zpow_sub₀ two_ne_zero, zpow_natCast]
      norm_cast
    rw [hsplit, habs]
    exact div_le_div₀ (Nat.cast_nonneg _) hnum (by exact_mod_cast q.den_pos) hden.le
  · exact not_lt.mp h

theorem abs_lt_two_zpow_leading (q : ℚ) : |q| < 2 ^ (leading q + 1) := by
  have hnum : (q.num.natAbs : ℚ) < 2 ^ (q.num.natAbs.log2 + 1) := by
    exact_mod_cast Nat.lt_log2_self
  have hden : (2 : ℚ) ^ q.den.log2 ≤ q.den := by
    exact_mod_cast Nat.log2_self_le q.den_nz
  have habs : |q| = q.num.natAbs / q.den := by
    conv_lhs => rw [← Rat.num_div_den q, abs_div, Nat.abs_cast, ← Int.cast_abs]
    rw [Int.abs_eq_natAbs, Int.cast_natCast]
  have hlt : |q| < 2 ^ ((q.num.natAbs.log2 : ℤ) - q.den.log2 + 1) := by
    -- the quotient of the bounds of its parts
    have hsplit : (2 : ℚ) ^ ((q.num.natAbs.log2 : ℤ) - q.den.log2 + 1) =
        2 ^ (q.num.natAbs.log2 + 1) / 2 ^ q.den.log2 := by
      rw [sub_add_eq_add_sub, zpow_sub₀ two_ne_zero, zpow_natCast]
      norm_cast
    rw [hsplit, habs]
    exact div_lt_div₀ hnum hden (by positivity) (by positivity)
  unfold leading
  dsimp only
  -- a numerator below its denominator's power takes one place off
  split_ifs with h
  · rwa [sub_add_cancel]
  · exact hlt

section Nearest
variable {q : ℚ} {n : ℤ}

/-- Below `2 ^ 53` the grid holds every integer. -/
theorem lastPlace_nonpos (h : |q| < 2 ^ 53) : lastPlace q ≤ 0 := by
  have hlead : leading q ≤ 52 := by
    by_cases hq : q = 0
    · rw [hq]
      decide
    · have hlt : (2 : ℚ) ^ leading q < 2 ^ (53 : ℤ) := (two_zpow_leading_le hq).trans_lt h
      have := (zpow_lt_zpow_iff_right₀ (by norm_num : (1 : ℚ) < 2)).mp hlt
      omega
  unfold lastPlace
  omega

theorem intCast_div_zpow {e : ℤ} (he : e ≤ 0) (n : ℤ) :
    (n : ℚ) / 2 ^ e = ((n * 2 ^ e.natAbs : ℤ) : ℚ) := by
  have habs : (2 : ℚ) ^ e = (2 ^ e.natAbs)⁻¹ := by
    rw [← zpow_natCast, ← zpow_neg]
    congr 1
    omega
  rw [habs, div_inv_eq_mul]
  push_cast
  rfl

/-- A grid that holds the integers does not round across one. -/
theorem nearest_le (h : q ≤ n) (hq : |q| < 2 ^ 53) : nearest q ≤ n := by
  have he : lastPlace q ≤ 0 := lastPlace_nonpos hq
  have hpos : (0 : ℚ) < 2 ^ lastPlace q := by positivity
  have hgrid : q / 2 ^ lastPlace q ≤ ((n * 2 ^ (lastPlace q).natAbs : ℤ) : ℚ) := by
    rw [← intCast_div_zpow he]
    exact div_le_div_of_nonneg_right h hpos.le
  have hround : (nearestEven (q / 2 ^ lastPlace q) : ℚ) ≤ n / 2 ^ lastPlace q := by
    rw [intCast_div_zpow he]
    exact_mod_cast nearestEven_le hgrid
  exact (le_div_iff₀ hpos).mp hround

theorem nearest_zero : nearest 0 = 0 := by
  have hzero : nearestEven 0 = 0 := by exact_mod_cast nearestEven_intCast 0
  rw [nearest, zero_div, hzero, Int.cast_zero, zero_mul]

/-- Rounding leaves a significand of at most 53 bits as it is. -/
theorem nearest_grid {N e : ℤ} (hN : |N| ≤ 2 ^ 53) (he : -1074 ≤ e) :
    nearest (N * 2 ^ e) = N * 2 ^ e := by
  by_cases hzero : N = 0
  · rw [hzero, Int.cast_zero, zero_mul, nearest_zero]
  generalize hq : (N : ℚ) * 2 ^ e = q
  have habs : |q| = |(N : ℚ)| * 2 ^ e := by
    rw [← hq, abs_mul, abs_of_pos (by positivity : (0 : ℚ) < 2 ^ e)]
  have hNq : |(N : ℚ)| ≤ 2 ^ 53 := by exact_mod_cast hN
  -- the grid of `q` holds it, be it as fine as `e` or one place coarser
  obtain ⟨M, hM⟩ : ∃ M : ℤ, q / 2 ^ lastPlace q = M := by
    rcases le_or_gt (lastPlace q) e with hle | hgt
    · refine ⟨N * 2 ^ (e - lastPlace q).toNat, ?_⟩
      rw [← hq, mul_div_assoc, ← zpow_sub₀ two_ne_zero, hq]
      push_cast
      rw [← zpow_natCast, Int.toNat_of_nonneg (by omega)]
    · have hlead : lastPlace q = leading q - 52 := by
        unfold lastPlace at hgt ⊢
        omega
      have hne : q ≠ 0 := by
        rw [← hq]
        exact mul_ne_zero (Int.cast_ne_zero.mpr hzero) (by positivity)
      have hlow := two_zpow_leading_le hne
      have hsplit : (2 : ℚ) ^ (53 + e) = 2 ^ 53 * 2 ^ e := by
        rw [zpow_add₀ two_ne_zero]
        rfl
      have hplace : leading q = 53 + e := by
        have hup : (2 : ℚ) ^ leading q ≤ 2 ^ (53 + e) := by
          rw [hsplit]
          exact (hlow.trans_eq habs).trans (mul_le_mul_of_nonneg_right hNq (by positivity))
        have := (zpow_le_zpow_iff_right₀ (by norm_num : (1 : ℚ) < 2)).mp hup
        omega
      have hfull : |N| = 2 ^ 53 := by
        rw [hplace, habs, hsplit] at hlow
        have := le_of_mul_le_mul_right hlow (by positivity : (0 : ℚ) < 2 ^ e)
        exact hN.antisymm (by exact_mod_cast this)
      obtain ⟨M, hM⟩ : ∃ M : ℤ, N = 2 * M := by
        rcases abs_eq (by norm_num : (0 : ℤ) ≤ 2 ^ 53) |>.mp hfull with h | h
        · exact ⟨2 ^ 52, by rw [h]; norm_num⟩
        · exact ⟨-2 ^ 52, by rw [h]; norm_num⟩
      refine ⟨M, ?_⟩
      have hexp : lastPlace q = e + 1 := by omega
      rw [hexp, ← hq, hM, zpow_add₀ two_ne_zero]
      push_cast
      field_simp
  rw [nearest, hM, nearestEven_intCast, ← hM]
  exact div_mul_cancel₀ q (by positivity)

theorem nearest_intCast (h : |n| ≤ 2 ^ 53) : nearest n = n := by
  have hgrid := nearest_grid (e := 0) h (by decide)
  rwa [zpow_zero, mul_one] at hgrid

theorem nearest_nearest (q : ℚ) : nearest (nearest q) = nearest q := by
  have hpos : (0 : ℚ) < 2 ^ lastPlace q := by positivity
  have hquot : |q / 2 ^ lastPlace q| ≤ 2 ^ 53 := by
    rw [abs_div, abs_of_pos hpos, div_le_iff₀ hpos]
    calc |q| ≤ 2 ^ (leading q + 1) := (abs_lt_two_zpow_leading q).le
      _ ≤ 2 ^ (53 + lastPlace q) := zpow_le_zpow_right₀ one_le_two (by unfold lastPlace; omega)
      _ = 2 ^ 53 * 2 ^ lastPlace q := by
        rw [zpow_add₀ two_ne_zero]
        rfl
  have hround : |nearestEven (q / 2 ^ lastPlace q)| ≤ 2 ^ 53 := by
    obtain ⟨hlow, hup⟩ := abs_le.mp hquot
    exact abs_le.mpr ⟨le_nearestEven (by exact_mod_cast hlow),
      nearestEven_le (by exact_mod_cast hup)⟩
  exact nearest_grid hround (le_max_right _ _)

end Nearest

/-! ### Values -/

/-- A rational that a finite value stands for. -/
def Representable (q : ℚ) : Prop := nearest q = q ∧ |q| < 2 ^ 1024

instance (q : ℚ) : Decidable (Representable q) := inferInstanceAs (Decidable (_ ∧ _))

/-- `finite 0` is the positive zero. -/
inductive Value where
  | finite (q : ℚ) (h : Representable q)
  | negZero
  | infinite (negative : Bool)
  | nan
deriving DecidableEq

theorem representable_zero : Representable 0 :=
  ⟨nearest_zero, by rw [abs_zero]; exact pow_pos two_pos _⟩

theorem representable_intCast {n : ℤ} (h : |n| ≤ 2 ^ 53) : Representable n := by
  refine ⟨nearest_intCast h, ?_⟩
  rw [← Int.cast_abs]
  calc ((|n| : ℤ) : ℚ) ≤ 2 ^ 53 := by exact_mod_cast h
    _ < 2 ^ 1024 := pow_lt_pow_right₀ one_lt_two (by decide)

namespace Value

def ofInt (n : ℤ) (h : |n| ≤ 2 ^ 53) : Value := .finite n (representable_intCast h)

def zero (negative : Bool) : Value := if negative then .negZero else .finite 0 representable_zero

/-- The value nearest to a number; an underflow keeps the sign. -/
def round (q : ℚ) : Value :=
  if nearest q = 0 then zero (q < 0)
  else if h : |nearest q| < 2 ^ 1024 then .finite (nearest q) ⟨nearest_nearest q, h⟩
  else .infinite (q < 0)

/-- What a finite value stands for. -/
def toRat : Value → Option ℚ
  | .finite q _ => some q
  | .negZero => some 0
  | .infinite _ | .nan => none

def isNegative : Value → Bool
  | .finite q _ => q < 0
  | .negZero => true
  | .infinite negative => negative
  | .nan => false

def neg : Value → Value
  | .finite q _ => if q = 0 then .negZero else round (-q)
  | .negZero => zero false
  | .infinite negative => .infinite (!negative)
  | .nan => .nan

def add (x y : Value) : Value :=
  match x.toRat, y.toRat with
  | some p, some q => if x = .negZero ∧ y = .negZero then .negZero else round (p + q)
  | some _, none => y
  | none, some _ => x
  -- opposite infinities have no sum
  | none, none => if x = y then x else .nan

def mul (x y : Value) : Value :=
  let negative := x.isNegative != y.isNegative
  match x.toRat, y.toRat with
  | some p, some q => if p * q = 0 then zero negative else round (p * q)
  | p, q =>
    if x = .nan ∨ y = .nan ∨ p = some 0 ∨ q = some 0 then .nan else .infinite negative

def div (x y : Value) : Value :=
  let negative := x.isNegative != y.isNegative
  match x.toRat, y.toRat with
  -- a zero divisor gives an infinity, or no number at all for 0 / 0
  | some p, some q =>
    if q = 0 then if p = 0 then .nan else .infinite negative
    else if p = 0 then zero negative
    else round (p / q)
  -- finite over infinite is a zero of the sign of both
  | some _, none => if y = .nan then .nan else zero negative
  | none, some _ => if x = .nan then .nan else .infinite negative
  | none, none => .nan

/-- `abs(x) >= abs(y)`, false for `nan`. -/
def absGe (x y : Value) : Bool :=
  match x.toRat, y.toRat with
  | some p, some q => |q| ≤ |p|
  | none, some _ => x ≠ .nan
  | some _, none => false
  | none, none => x ≠ .nan ∧ y ≠ .nan

/-- Left to right from 0. -/
def sum (xs : List Value) : Value := xs.foldl add (zero false)

/-- A running sum, and what its additions rounded away. -/
structure Running where
  total : Value
  lost : Value

/-- The next addition of a compensated sum. -/
def Running.step (s : Running) (x : Value) : Running :=
  let t := add s.total x
  let rounded := if absGe s.total x then add (add s.total t.neg) x else add (add x t.neg) s.total
  ⟨t, add s.lost rounded⟩

/-- The compensated sum of the values, by the algorithm of Neumaier. -/
def compensatedSum : List Value → Value
  | [] => zero false
  | x :: xs =>
    let s := xs.foldl Running.step ⟨add (zero false) x, zero false⟩
    -- a compensation that is not finite would turn an overflow into `nan`
    if s.lost.toRat.all (fun q => q = 0) then s.total else add s.total s.lost

/-! ### Whole values are added exactly -/

section Whole
variable {x y : Value} {m n : ℤ}

theorem toRat_zero (negative : Bool) : (zero negative).toRat = some 0 := by
  cases negative <;> rfl

theorem round_intCast (h : |n| ≤ 2 ^ 53) : round n = ofInt n h := by
  have hn := representable_intCast h
  unfold round ofInt
  simp only [nearest_intCast h]
  split_ifs with hzero
  · obtain rfl : n = 0 := Int.cast_eq_zero.mp hzero
    rfl
  · rfl
  · exact absurd hn.2 ‹_›

theorem toRat_round (h : |n| ≤ 2 ^ 53) : (round n).toRat = some (n : ℚ) := by
  rw [round_intCast h]
  rfl

theorem toRat_neg (hx : x.toRat = some (n : ℚ)) (h : |n| ≤ 2 ^ 53) :
    x.neg.toRat = some ((-n : ℤ) : ℚ) := by
  cases x with
  | finite q hq =>
    obtain rfl : q = n := Option.some.inj hx
    rw [neg]
    split_ifs with hzero
    · rw [Int.cast_neg, hzero, neg_zero]
      rfl
    · rw [← Int.cast_neg]
      exact toRat_round (by rwa [abs_neg])
  | negZero =>
    obtain hzero : (0 : ℚ) = n := Option.some.inj hx
    rw [Int.cast_neg, ← hzero, neg_zero]
    exact toRat_zero _
  | infinite negative => exact absurd hx (by simp [toRat])
  | nan => exact absurd hx (by simp [toRat])

theorem toRat_add (hx : x.toRat = some (m : ℚ)) (hy : y.toRat = some (n : ℚ))
    (h : |m + n| ≤ 2 ^ 53) : (add x y).toRat = some ((m + n : ℤ) : ℚ) := by
  unfold add
  rw [hx, hy]
  dsimp only
  split_ifs with hneg
  · rw [hneg.1] at hx
    rw [hneg.2] at hy
    have hm : (0 : ℚ) = m := Option.some.inj hx
    have hn : (0 : ℚ) = n := Option.some.inj hy
    rw [Int.cast_add, ← hm, ← hn, add_zero]
    rfl
  · rw [← Int.cast_add]
    exact toRat_round h

theorem toRat_mul (hx : x.toRat = some (m : ℚ)) (hy : y.toRat = some (n : ℚ))
    (h : |m * n| ≤ 2 ^ 53) : (mul x y).toRat = some ((m * n : ℤ) : ℚ) := by
  unfold mul
  dsimp only
  rw [hx, hy]
  dsimp only
  split_ifs with hzero
  · rw [toRat_zero, Int.cast_mul, hzero]
  · rw [← Int.cast_mul]
    exact toRat_round h

/-- A quotient is rounded once. -/
theorem toRat_div (hx : x.toRat = some (m : ℚ)) (hy : y.toRat = some (n : ℚ)) (hn : n ≠ 0) :
    (div x y).toRat = (round ((m : ℚ) / n)).toRat := by
  unfold div
  dsimp only
  rw [hx, hy]
  dsimp only
  rw [if_neg (Int.cast_ne_zero.mpr hn)]
  split_ifs with hzero
  · have hround := toRat_round (n := 0) (by decide)
    rw [Int.cast_zero] at hround
    rw [hzero, zero_div, hround, toRat_zero]
  · rfl

/-- Sums that stay below `2 ^ 53` throughout are exact. -/
theorem toRat_foldl_add {xs : List Value} {ns : List ℤ} {s : Value} {a : ℤ}
    (hs : s.toRat = some (a : ℚ)) (hxs : xs.map toRat = ns.map (fun n : ℤ => some (n : ℚ)))
    (h : |a| + (ns.map abs).sum ≤ 2 ^ 53) :
    (xs.foldl add s).toRat = some ((a + ns.sum : ℤ) : ℚ) := by
  induction xs generalizing ns s a with
  | nil =>
    obtain rfl := List.map_eq_nil_iff.mp hxs.symm
    rwa [List.sum_nil, add_zero]
  | cons x xs ih =>
    obtain ⟨n, ns, rfl, hn, hns⟩ := List.map_eq_cons_iff.mp hxs.symm
    rw [List.map_cons, List.sum_cons] at h
    have htail : 0 ≤ (ns.map abs).sum := List.sum_nonneg (by simp)
    have habs := abs_add_le a n
    rw [List.sum_cons, ← add_assoc]
    exact ih (toRat_add hs hn.symm (by omega)) hns.symm (by omega)

theorem toRat_sum {xs : List Value} {ns : List ℤ}
    (hxs : xs.map toRat = ns.map (fun n : ℤ => some (n : ℚ))) (h : (ns.map abs).sum ≤ 2 ^ 53) :
    (sum xs).toRat = some (ns.sum : ℚ) := by
  have hsum := toRat_foldl_add (s := zero false) (a := 0) (toRat_zero _) hxs (by simpa using h)
  rwa [zero_add] at hsum

/-- There is nothing to compensate for. -/
theorem step_exact {s : Running} (hs : s.total.toRat = some (m : ℚ)) (hlost : s.lost.toRat = some 0)
    (hx : x.toRat = some (n : ℚ)) (h : |m| + |n| ≤ 2 ^ 53) :
    (s.step x).total.toRat = some ((m + n : ℤ) : ℚ) ∧ (s.step x).lost.toRat = some 0 := by
  have habs := abs_add_le m n
  have hm := abs_nonneg m
  have hn := abs_nonneg n
  have ht : (add s.total x).toRat = some ((m + n : ℤ) : ℚ) := toRat_add hs hx (by omega)
  have hneg := toRat_neg ht (by omega)
  have hlost' : s.lost.toRat = some ((0 : ℤ) : ℚ) := by rw [hlost, Int.cast_zero]
  refine ⟨ht, ?_⟩
  have hzero {z : Value} (hz : z.toRat = some ((0 : ℤ) : ℚ)) : (add s.lost z).toRat = some 0 := by
    rw [toRat_add hlost' hz (by norm_num), add_zero, Int.cast_zero]
  unfold Running.step
  dsimp only
  apply hzero
  -- what is subtracted again leaves the smaller operand, and then nothing
  split_ifs
  · have hback := toRat_add hs hneg (by rw [show m + -(m + n) = -n by ring, abs_neg]; omega)
    rw [show m + -(m + n) = -n by ring] at hback
    rw [toRat_add hback hx (by rw [neg_add_cancel]; norm_num), neg_add_cancel]
  · have hback := toRat_add hx hneg (by rw [show n + -(m + n) = -m by ring, abs_neg]; omega)
    rw [show n + -(m + n) = -m by ring] at hback
    rw [toRat_add hback hs (by rw [neg_add_cancel]; norm_num), neg_add_cancel]

theorem foldl_step_exact {xs : List Value} {ns : List ℤ} {s : Running}
    (hs : s.total.toRat = some (m : ℚ)) (hlost : s.lost.toRat = some 0)
    (hxs : xs.map toRat = ns.map (fun n : ℤ => some (n : ℚ)))
    (h : |m| + (ns.map abs).sum ≤ 2 ^ 53) :
    (xs.foldl Running.step s).total.toRat = some ((m + ns.sum : ℤ) : ℚ) ∧
      (xs.foldl Running.step s).lost.toRat = some 0 := by
  induction xs generalizing ns s m with
  | nil =>
    obtain rfl := List.map_eq_nil_iff.mp hxs.symm
    rw [List.sum_nil, add_zero]
    exact ⟨hs, hlost⟩
  | cons x xs ih =>
    obtain ⟨n, ns, rfl, hn, hns⟩ := List.map_eq_cons_iff.mp hxs.symm
    rw [List.map_cons, List.sum_cons] at h
    have htail : 0 ≤ (ns.map abs).sum := List.sum_nonneg (by simp)
    have habs := abs_add_le m n
    obtain ⟨htotal, hlost'⟩ := step_exact hs hlost hn.symm (by omega)
    rw [List.sum_cons, ← add_assoc]
    exact ih htotal hlost' hns.symm (by omega)

theorem toRat_compensatedSum {xs : List Value} {ns : List ℤ}
    (hxs : xs.map toRat = ns.map (fun n : ℤ => some (n : ℚ))) (h : (ns.map abs).sum ≤ 2 ^ 53) :
    (compensatedSum xs).toRat = some (ns.sum : ℚ) := by
  cases xs with
  | nil =>
    obtain rfl := List.map_eq_nil_iff.mp hxs.symm
    exact (toRat_zero _).trans (by rw [List.sum_nil, Int.cast_zero])
  | cons x xs =>
    obtain ⟨n, ns, rfl, hn, hns⟩ := List.map_eq_cons_iff.mp hxs.symm
    rw [List.map_cons, List.sum_cons] at h
    have htail : 0 ≤ (ns.map abs).sum := List.sum_nonneg (by simp)
    have hzero : (zero false).toRat = some ((0 : ℤ) : ℚ) := by rw [toRat_zero, Int.cast_zero]
    -- the sum starts at 0
    have hfirst : (add (zero false) x).toRat = some (n : ℚ) := by
      have hadd := toRat_add hzero hn.symm (by rw [zero_add]; omega)
      rwa [zero_add] at hadd
    -- every partial sum is exact, so nothing is lost to compensate for
    obtain ⟨htotal, hlost⟩ := foldl_step_exact (s := ⟨add (zero false) x, zero false⟩) hfirst
      (toRat_zero false) hns.symm h
    unfold compensatedSum
    dsimp only
    rw [hlost, if_pos (by simp), htotal, List.sum_cons]

end Whole

end Value

end Binary64
