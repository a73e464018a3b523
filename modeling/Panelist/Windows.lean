import Mathlib

/-! The newest entries of a history: a window read from several sorted sources is the
window of all of them together, and a share of agreeing entries crosses a band only
over as many new entries as the band is wide. -/
namespace Windows
open List

section Newest
variable {α : Type*} {r : α → α → Prop} [DecidableRel r] [Std.Total r] [IsTrans α r]

/-- The first entries of a merge come from the first entries of its parts. -/
theorem take_merge (le : α → α → Bool) {w m n : ℕ} (hm : w ≤ m) (hn : w ≤ n) (l l' : List α) :
    ((l.take m).merge (l'.take n) le).take w = (l.merge l' le).take w := by
  induction w generalizing m n l l' with
  | zero => simp
  | succ w ih =>
    obtain ⟨m, rfl⟩ := Nat.exists_eq_add_of_le' hm
    obtain ⟨n, rfl⟩ := Nat.exists_eq_add_of_le' hn
    rcases l with _ | ⟨a, l⟩
    · simp [List.take_take]
    rcases l' with _ | ⟨b, l'⟩
    · simp [List.take_take]
    · rw [← Nat.add_assoc, ← Nat.add_assoc, take_succ_cons, take_succ_cons, cons_merge_cons,
        cons_merge_cons]
      -- the smaller head is the first entry on both sides; its list is shorter by one
      by_cases hle : le a b = true
      · rw [if_pos hle, if_pos hle, take_succ_cons, take_succ_cons, ← take_succ_cons (a := b)]
        rw [ih (by omega) (by omega)]
      · rw [if_neg hle, if_neg hle, take_succ_cons, take_succ_cons, ← take_succ_cons (a := a)]
        rw [ih (by omega) (by omega)]

/-- Sorting two sorted parts together merges them, when no two entries are tied. -/
theorem insertionSort_append {l l' : List α} (hl : l.Pairwise r) (hl' : l'.Pairwise r)
    (hanti : ∀ a ∈ l ++ l', ∀ b ∈ l ++ l', r a b → r b a → a = b) :
    (l ++ l').insertionSort r = l.merge l' (r · ·) := by
  have hperm : (l ++ l').insertionSort r ~ l.merge l' (r · ·) :=
    (perm_insertionSort r _).trans (merge_perm_append ..).symm
  apply hperm.eq_of_pairwise _ (pairwise_insertionSort r _) (hl.merge hl')
  intro a b ha hb
  exact hanti a ((mem_insertionSort r).mp ha) b (mem_append.mpr (mem_merge.mp hb))

/-- The window of two sources is the window of their windows. -/
theorem take_insertionSort_append {l l' : List α} (w : ℕ)
    (hanti : ∀ a ∈ l ++ l', ∀ b ∈ l ++ l', r a b → r b a → a = b) :
    (((l.insertionSort r).take w ++ (l'.insertionSort r).take w).insertionSort r).take w =
      ((l ++ l').insertionSort r).take w := by
  have hmem {a : α} (ha : a ∈ l.insertionSort r ++ l'.insertionSort r) : a ∈ l ++ l' := by
    simpa using ha
  have hsub : (l.insertionSort r).take w ++ (l'.insertionSort r).take w ⊆
      l.insertionSort r ++ l'.insertionSort r :=
    ((take_sublist _ _).append (take_sublist _ _)).subset
  -- sorting the two sources first changes nothing
  have hsorted : (l ++ l').insertionSort r =
      (l.insertionSort r ++ l'.insertionSort r).insertionSort r := by
    have hperm : (l ++ l').insertionSort r ~
        (l.insertionSort r ++ l'.insertionSort r).insertionSort r :=
      (perm_insertionSort r _).trans (((perm_insertionSort r l).append
        (perm_insertionSort r l')).symm.trans (perm_insertionSort r _).symm)
    apply hperm.eq_of_pairwise _ (pairwise_insertionSort r _) (pairwise_insertionSort r _)
    intro a b ha hb
    exact hanti a ((mem_insertionSort r).mp ha) b (hmem ((mem_insertionSort r).mp hb))
  rw [hsorted, insertionSort_append (pairwise_insertionSort r l) (pairwise_insertionSort r l')
      (fun a ha b hb => hanti a (hmem ha) b (hmem hb)),
    insertionSort_append ((pairwise_insertionSort r l).take) ((pairwise_insertionSort r l').take)
      (fun a ha b hb => hanti a (hmem (hsub ha)) b (hmem (hsub hb))),
    take_merge _ le_rfl le_rfl]

/-- Sorting one more entry puts it somewhere among the sorted ones. -/
theorem insertionSort_concat {l : List α} {a : α}
    (hanti : ∀ x ∈ l ++ [a], ∀ y ∈ l ++ [a], r x y → r y x → x = y) :
    ∃ s t, l.insertionSort r = s ++ t ∧ (l ++ [a]).insertionSort r = s ++ a :: t := by
  have hsort : (l ++ [a]).insertionSort r = (l.insertionSort r).orderedInsert r a := by
    have hperm : (l ++ [a]).insertionSort r ~ (l.insertionSort r).orderedInsert r a :=
      (perm_insertionSort r _).trans ((perm_append_comm.trans
        ((perm_insertionSort r l).symm.cons a)).trans (perm_orderedInsert r a _).symm)
    apply hperm.eq_of_pairwise _ (pairwise_insertionSort r _)
      ((pairwise_insertionSort r l).orderedInsert a _)
    intro x y hx hy
    have hy' : y ∈ l ++ [a] := by
      have := (mem_orderedInsert r).mp hy
      rw [mem_insertionSort] at this
      simpa [or_comm] using this
    exact hanti x ((mem_insertionSort r).mp hx) y hy'
  refine ⟨_, _, (takeWhile_append_dropWhile (p := fun b => ¬ r a b)).symm, ?_⟩
  rw [hsort, orderedInsert_eq_take_drop]

end Newest

/-- One more entry pushes others out of a window and none in. -/
theorem countP_take_insert {α : Type*} {p : α → Bool} {a : α} (ha : p a = false) (l l' : List α)
    (w : ℕ) : ((l ++ a :: l').take w).countP p ≤ ((l ++ l').take w).countP p := by
  rw [take_append, take_append, countP_append, countP_append]
  refine Nat.add_le_add_left ?_ _
  cases w - l.length with
  | zero => simp
  | succ n =>
    rw [take_succ_cons, countP_cons_of_neg (by simp [ha])]
    exact (take_sublist_take_left (Nat.le_succ n)).countP_le

section Band
variable {K : Type*} [Field K] [LinearOrder K] [IsStrictOrderedRing K]

/-- What a shorter window loses of the agreeing entries is at most what it drops. -/
theorem count_take_le {α : Type*} [BEq α] (b : α) {m w : ℕ} (hm : m ≤ w) (l : List α) :
    (l.take w).count b + (l.take m).length ≤ (l.take m).count b + (l.take w).length := by
  have hsplit : l.take w = l.take m ++ (l.drop m).take (w - m) := by
    rw [← take_add, Nat.add_sub_cancel' hm]
  have hle : ((l.drop m).take (w - m)).count b ≤ ((l.drop m).take (w - m)).length := count_le_length
  rw [hsplit, count_append, length_append]
  omega

/-- The share of `b` in a window falls from `p` to `d` only after `(p - d)` times as
many new entries as the window held. -/
theorem band_gap {α : Type*} [BEq α] (b : α) {p d : K} (hd : 0 ≤ d) (hdp : d ≤ p) (hp : p ≤ 1)
    (w : ℕ) (new old : List α) (hold : p * (old.take w).length ≤ (old.take w).count b)
    (hnew : (((new ++ old).take w).count b : K) ≤ d * ((new ++ old).take w).length) :
    (p - d) * (old.take w).length ≤ new.length := by
  rcases le_total (old.take w).length new.length with hlong | hshort
  · -- the whole window has been replaced
    calc (p - d) * (old.take w).length ≤ 1 * (old.take w).length := by gcongr; linarith
      _ ≤ new.length := by rw [one_mul]; exact_mod_cast hlong
  · have hw : new.length ≤ w := hshort.trans (length_take_le w old)
    have hwindow : (new ++ old).take w = new ++ old.take (w - new.length) := by
      rw [take_append, take_of_length_le hw]
    -- an entry leaves the window for each new one
    have hloss := count_take_le b (Nat.sub_le w new.length) old
    have hkept : (old.take w).length ≤ (old.take (w - new.length)).length + new.length := by
      rw [length_take, length_take]
      omega
    rw [hwindow, count_append, length_append] at hnew
    push_cast at hnew
    have hloss' : ((old.take w).count b : K) + (old.take (w - new.length)).length ≤
        (old.take (w - new.length)).count b + (old.take w).length := by exact_mod_cast hloss
    have hkept' : ((old.take w).length : K) ≤ (old.take (w - new.length)).length + new.length := by
      exact_mod_cast hkept
    have hcount : (0 : K) ≤ new.count b := Nat.cast_nonneg _
    have hscaled := mul_le_mul_of_nonneg_left hkept' (by linarith : (0 : K) ≤ 1 - d)
    linarith

end Band

end Windows
