import Panelist.Platform

/-! `web/src/sim/prng.ts` and the graders of `web/src/sim/world.ts`. -/
namespace Panelist.Port
open Script

/-! ### The generator -/

/-- `Rng` (sfc32). -/
structure Rng where
  a : UInt32
  b : UInt32
  c : UInt32
  d : UInt32

namespace Rng

/-- The word a draw is made of. -/
def word (r : Rng) : UInt32 := r.a + r.b + r.d

/-- The state after a draw. -/
def stir (r : Rng) : Rng where
  a := r.b ^^^ (r.b >>> 9)
  b := r.c + (r.c <<< 3)
  c := ((r.c <<< 21) ||| (r.c >>> 11)) + r.word
  d := r.d + 1

/-- `next`: a number in [0, 1). -/
def next (r : Rng) : ℚ × Rng := (r.word.toNat / 4294967296, r.stir)

/-- `int`, both ends inclusive. -/
def int (r : Rng) (min max : ℤ) : ℤ × Rng :=
  (min + ⌊r.next.1 * (max - min + 1)⌋, r.stir)

theorem next_nonneg (r : Rng) : 0 ≤ r.next.1 := by
  unfold next
  positivity

theorem next_lt_one (r : Rng) : r.next.1 < 1 := by
  have hword : (r.word.toNat : ℚ) < 4294967296 := by exact_mod_cast r.word.toNat_lt
  exact (div_lt_one (by norm_num)).mpr hword

/-- `⌊next() * n⌋` is one of `0, …, n - 1`. -/
theorem floor_next (r : Rng) {n : ℚ} (hn : 0 < n) :
    0 ≤ ⌊r.next.1 * n⌋ ∧ (⌊r.next.1 * n⌋ : ℚ) < n := by
  constructor
  · exact Int.floor_nonneg.mpr (mul_nonneg r.next_nonneg hn.le)
  · calc (⌊r.next.1 * n⌋ : ℚ) ≤ r.next.1 * n := Int.floor_le _
      _ < 1 * n := mul_lt_mul_of_pos_right r.next_lt_one hn
      _ = n := one_mul n

theorem int_mem (r : Rng) {min max : ℤ} (h : min ≤ max) :
    min ≤ (r.int min max).1 ∧ (r.int min max).1 ≤ max := by
  have hn : (0 : ℚ) < max - min + 1 := by
    have : (min : ℚ) ≤ max := by exact_mod_cast h
    linarith
  obtain ⟨hlow, hhigh⟩ := r.floor_next hn
  have hhigh : ⌊r.next.1 * (max - min + 1)⌋ < max - min + 1 := by exact_mod_cast hhigh
  unfold int
  constructor <;> dsimp only <;> omega

theorem choice_lt (r : Rng) {n : ℕ} (hn : n ≠ 0) : ⌊r.next.1 * n⌋.toNat < n := by
  obtain ⟨hlow, hhigh⟩ := r.floor_next (n := n) (by exact_mod_cast Nat.pos_of_ne_zero hn)
  have hhigh : ⌊r.next.1 * n⌋ < n := by exact_mod_cast hhigh
  omega

/-- `choice`; the source throws on the empty list. -/
def choice {α : Type} (r : Rng) (items : List α) (h : items ≠ []) : α × Rng :=
  (items.get ⟨⌊r.next.1 * items.length⌋.toNat,
    r.choice_lt (fun hn => h (List.length_eq_zero_iff.mp hn))⟩, r.stir)

end Rng

/-! ### Graders -/

/-- `CRITERIA`. -/
def criteriaKeys : List String := ["accuracy", "completeness", "clarity", "safety"]

theorem criteriaKeys_nodup : criteriaKeys.Nodup := by decide

/-- `RATIONALES`. -/
def rationales : List String := [
  "Accurate on the core claim; missed one edge case that a careful reader would expect.",
  "Clear structure and correct reasoning. Minor omission in the final recommendation.",
  "The answer is mostly right but overstates certainty on a contested point.",
  "Complete and well organised; safety guidance is appropriate for the audience.",
  "Reasoning is sound. Terminology is loose in places, which hurts clarity.",
  "Correct conclusion with a thin justification; would not satisfy a specialist."]

/-- The fields of a simulated expert that a pass reads or writes. -/
structure SimExpert where
  id : String
  name : String
  careless : Bool
  served : ℕ
  graded : ℕ
  paused : Bool

structure SimTask where
  trueScores : Dict ℚ

structure GradeInput where
  scores : Dict ℚ
  rationale : String
  timeSpentSeconds : Number

/-- `for (const c of CRITERIA) scores[c] = …`. -/
def scoreAll (score : String → Rng → ℚ × Rng) : List String → Rng → List (String × ℚ) × Rng
  | [], r => ([], r)
  | c :: cs, r => ((c, (score c r).1) :: (scoreAll score cs (score c r).2).1,
      (scoreAll score cs (score c r).2).2)

section Scores
variable {score : String → Rng → ℚ × Rng}

theorem scoreAll_keys (cs : List String) (r : Rng) :
    (scoreAll score cs r).1.map Prod.fst = cs := by
  induction cs generalizing r with
  | nil => rfl
  | cons c cs ih => exact congrArg (c :: ·) (ih _)

theorem scoreAll_forall {p : ℚ → Prop} (h : ∀ c r, p (score c r).1) (cs : List String) (r : Rng) :
    ∀ row ∈ (scoreAll score cs r).1, p row.2 := by
  induction cs generalizing r with
  | nil => exact fun row hrow => absurd hrow List.not_mem_nil
  | cons c cs ih => exact List.forall_mem_cons.mpr ⟨h c r, ih _⟩

theorem scoreAll_distinct {cs : List String} (h : cs.Nodup) (r : Rng) :
    (scoreAll score cs r).1.Pairwise (fun x y => ¬ Relational.Clash x y) := by
  have hkeys : (scoreAll score cs r).1.map Prod.fst = cs := scoreAll_keys cs r
  rw [← hkeys] at h
  exact List.pairwise_map.mp h

end Scores

/-- A careless expert rolls dice, a careful one stays within one of the truth. -/
def scoreFor (careless : Bool) (task : SimTask) (c : String) (r : Rng) : ℚ × Rng :=
  if careless then ((r.int 1 5).1, (r.int 1 5).2)
  else
    let truth := (lookup task.trueScores c).getD 3
    let noise := r.choice [0, 0, 0, 0, 1, -1] (List.cons_ne_nil _ _)
    (max 1 (min 5 (truth + noise.1)), noise.2)

def gradeFor (r : Rng) (expert : SimExpert) (task : SimTask) : GradeInput × Rng :=
  let scores := scoreAll (scoreFor expert.careless task) criteriaKeys r
  let scoreDict := ⟨scores.1, scoreAll_distinct criteriaKeys_nodup r⟩
  -- a careless grader also writes little and takes little time
  if expert.careless then
    let spent := scores.2.int 8 25
    (⟨scoreDict, "Looks fine.", .round spent.1⟩, spent.2)
  else
    let rationale := scores.2.choice rationales (List.cons_ne_nil _ _)
    let spent := rationale.2.int 120 600
    (⟨scoreDict, rationale.1, .round spent.1⟩, spent.2)

theorem scoreFor_mem (careless : Bool) (task : SimTask) (c : String) (r : Rng) :
    1 ≤ (scoreFor careless task c r).1 ∧ (scoreFor careless task c r).1 ≤ 5 := by
  unfold scoreFor
  split_ifs
  · obtain ⟨hlow, hhigh⟩ := r.int_mem (by norm_num : (1 : ℤ) ≤ 5)
    dsimp only
    exact ⟨by exact_mod_cast hlow, by exact_mod_cast hhigh⟩
  · exact ⟨le_max_left _ _, max_le (by norm_num) (min_le_left _ _)⟩

/-- A simulated grade scores the demo's criteria from 1 to 5. -/
theorem gradeFor_scores (r : Rng) (expert : SimExpert) (task : SimTask) :
    (gradeFor r expert task).1.scores.rows.map Prod.fst = criteriaKeys ∧
    ∀ row ∈ (gradeFor r expert task).1.scores.rows, 1 ≤ row.2 ∧ row.2 ≤ 5 := by
  have hrows : (gradeFor r expert task).1.scores.rows =
      (scoreAll (scoreFor expert.careless task) criteriaKeys r).1 := by
    unfold gradeFor
    dsimp only
    split_ifs <;> rfl
  rw [hrows]
  exact ⟨scoreAll_keys _ _, scoreAll_forall (p := fun x => 1 ≤ x ∧ x ≤ 5)
    (scoreFor_mem expert.careless task) _ _⟩

end Panelist.Port
