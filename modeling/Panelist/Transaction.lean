import Mathlib

/-! Requests that commit or roll back: the two ways a request gives up, and runs
of a system whose failed steps leave the state as it was. -/
namespace Transaction

section Fallible
variable {ε α β : Type}

/-- Give up with `e` unless `p` holds. -/
def require (p : Prop) [Decidable p] (e : ε) : Except ε Unit :=
  if p then .ok () else .error e

/-- The value, or give up with `e` when there is none. -/
def orFail (o : Option α) (e : ε) : Except ε α :=
  match o with
  | some a => .ok a
  | none => .error e

@[simp] theorem bind_ok_iff {m : Except ε α} {k : α → Except ε β} {y : β} :
    (m >>= k) = .ok y ↔ ∃ x, m = .ok x ∧ k x = .ok y := by
  cases m <;> simp [bind, Except.bind]

@[simp] theorem map_ok_iff {m : Except ε α} {f : α → β} {y : β} :
    f <$> m = .ok y ↔ ∃ x, m = .ok x ∧ f x = y := by
  cases m <;> simp [Functor.map, Except.map]

@[simp] theorem pure_ok_iff {x y : α} : (pure x : Except ε α) = .ok y ↔ x = y := by
  simp [pure, Except.pure]

@[simp] theorem throw_ok_iff {e : ε} {y : α} : (throw e : Except ε α) = .ok y ↔ False := by
  simp [throw, throwThe, MonadExceptOf.throw]

@[simp] theorem require_ok_iff {p : Prop} [Decidable p] {e : ε} {u : Unit} :
    require p e = .ok u ↔ p := by
  unfold require
  split <;> simp_all

@[simp] theorem orFail_ok_iff {o : Option α} {e : ε} {a : α} : orFail o e = .ok a ↔ o = some a := by
  cases o <;> simp [orFail]

@[simp] theorem bind_error_iff {m : Except ε α} {k : α → Except ε β} {e : ε} :
    (m >>= k) = .error e ↔ m = .error e ∨ ∃ x, m = .ok x ∧ k x = .error e := by
  cases m <;> simp [bind, Except.bind]

@[simp] theorem map_error_iff {m : Except ε α} {f : α → β} {e : ε} :
    f <$> m = .error e ↔ m = .error e := by
  cases m <;> simp [Functor.map, Except.map]

@[simp] theorem pure_error_iff {x : α} {e : ε} : (pure x : Except ε α) = .error e ↔ False := by
  simp [pure, Except.pure]

@[simp] theorem throw_error_iff {e e' : ε} : (throw e : Except ε α) = .error e' ↔ e = e' := by
  simp [throw, throwThe, MonadExceptOf.throw]

@[simp] theorem require_error_iff {p : Prop} [Decidable p] {e e' : ε} :
    require p e = .error e' ↔ ¬ p ∧ e = e' := by
  unfold require
  split <;> simp_all

@[simp] theorem orFail_error_iff {o : Option α} {e e' : ε} :
    orFail o e = .error e' ↔ o = none ∧ e = e' := by
  cases o <;> simp [orFail]

theorem ok_bind (a : α) (k : α → Except ε β) : (Except.ok a >>= k) = k a := rfl

theorem require_pos {p : Prop} [Decidable p] {e : ε} {k : Unit → Except ε β} (h : p) :
    (require p e >>= k) = k () := by
  rw [require, if_pos h]
  rfl

theorem require_neg {p : Prop} [Decidable p] {e : ε} {k : Unit → Except ε β} (h : ¬ p) :
    (require p e >>= k) = .error e := by
  rw [require, if_neg h]
  rfl

/-- Why a computation gave up, if it did. -/
def failure : Except ε α → Option ε
  | .error e => some e
  | .ok _ => none

theorem exists_of_isOk {m : Except ε α} (h : m.isOk = true) : ∃ a, m = .ok a := by
  cases m with
  | error e => exact absurd h (by simp [Except.isOk, Except.toBool])
  | ok a => exact ⟨a, rfl⟩

end Fallible

section Run
variable {σ ι ε ρ : Type*} (step : ι → σ → Except ε (σ × ρ))

/-- The state after a request: its own on success, the old one after a rollback. -/
def commit (i : ι) (s : σ) : σ :=
  match step i s with
  | .ok (s', _) => s'
  | .error _ => s

def run (s : σ) (l : List ι) : σ := l.foldl (fun s i => commit step i s) s

@[simp] theorem run_nil (s : σ) : run step s [] = s := rfl

@[simp] theorem run_cons (s : σ) (i : ι) (l : List ι) :
    run step s (i :: l) = run step (commit step i s) l := rfl

theorem run_append (s : σ) (l m : List ι) :
    run step s (l ++ m) = run step (run step s l) m := List.foldl_append

theorem run_concat (s : σ) (l : List ι) (i : ι) :
    run step s (l ++ [i]) = commit step i (run step s l) := by
  rw [run_append, run_cons, run_nil]

theorem commit_of_ok {i : ι} {s s' : σ} {r : ρ} (h : step i s = .ok (s', r)) :
    commit step i s = s' := by rw [commit, h]

theorem commit_of_error {i : ι} {s : σ} {e : ε} (h : step i s = .error e) :
    commit step i s = s := by rw [commit, h]

/-- A request either succeeds with the committed state or changes nothing. -/
theorem commit_cases (i : ι) (s : σ) :
    (∃ r, step i s = .ok (commit step i s, r)) ∨
      (∃ e, step i s = .error e) ∧ commit step i s = s := by
  cases h : step i s with
  | error e => exact Or.inr ⟨⟨e, rfl⟩, commit_of_error step h⟩
  | ok p => exact Or.inl ⟨p.2, by rw [commit_of_ok step h]⟩

/-- A property that successful steps preserve is preserved by every commit. -/
theorem commit_preserves {P : σ → Prop} {i : ι} {s : σ} (hs : P s)
    (hstep : ∀ s' r, step i s = .ok (s', r) → P s') : P (commit step i s) := by
  rcases commit_cases step i s with ⟨r, hr⟩ | ⟨_, he⟩
  · exact hstep _ r hr
  · rw [he]
    exact hs

/-- Every request of the run meets `C` in the state it is made in. -/
def Along (C : σ → ι → Prop) : σ → List ι → Prop
  | _, [] => True
  | s, i :: l => C s i ∧ Along C (commit step i s) l

/-- What holds at the start and survives every admitted request holds after the run. -/
theorem run_preserves {P : σ → Prop} {C : σ → ι → Prop}
    (hstep : ∀ i s s' r, P s → C s i → step i s = .ok (s', r) → P s')
    {s : σ} {l : List ι} (hs : P s) (hl : Along step C s l) : P (run step s l) := by
  induction l generalizing s with
  | nil => exact hs
  | cons i l ih =>
    exact ih (commit_preserves step hs (fun s' r => hstep i s s' r hs hl.1)) hl.2

theorem along_trivial (s : σ) (l : List ι) : Along step (fun _ _ => True) s l := by
  induction l generalizing s with
  | nil => exact trivial
  | cons i l ih => exact ⟨trivial, ih _⟩

/-- The invariant rule: an initial property that every successful step preserves
holds in every state a run reaches. -/
theorem run_invariant {P : σ → Prop} (hstep : ∀ i s s' r, P s → step i s = .ok (s', r) → P s')
    {s : σ} (hs : P s) (l : List ι) : P (run step s l) :=
  run_preserves step (fun i s s' r hP _ h => hstep i s s' r hP h) hs (along_trivial step s l)

theorem along_iff {C : σ → ι → Prop} {s : σ} {l : List ι} :
    (∀ earlier i later, l = earlier ++ i :: later → C (run step s earlier) i) ↔
      Along step C s l := by
  induction l generalizing s with
  | nil => exact ⟨fun _ => trivial, fun _ earlier i later he => absurd he (by simp)⟩
  | cons j l ih =>
    constructor
    · intro h
      refine ⟨h [] j l rfl, ih.mp (fun earlier i later he => ?_)⟩
      exact h (j :: earlier) i later (by rw [he, List.cons_append])
    · rintro ⟨hj, hl⟩ earlier i later he
      cases earlier with
      | nil =>
        obtain ⟨rfl, _⟩ := List.cons_eq_cons.mp he
        exact hj
      | cons k earlier =>
        obtain ⟨rfl, rfl⟩ := List.cons_eq_cons.mp he
        exact ih.mpr hl earlier i later rfl

/-- Two conditions on requests that agree wherever `P` holds pick out the same runs,
when a request that meets them keeps `P`. -/
theorem along_congr {P : σ → Prop} {C D : σ → ι → Prop}
    (hkeep : ∀ i s, P s → C s i → P (commit step i s)) (h : ∀ i s, P s → (C s i ↔ D s i))
    {s : σ} (hs : P s) {l : List ι} : Along step C s l ↔ Along step D s l := by
  induction l generalizing s with
  | nil => exact Iff.rfl
  | cons i l ih =>
    constructor
    · rintro ⟨hi, hl⟩
      exact ⟨(h i s hs).mp hi, (ih (hkeep i s hs hi)).mp hl⟩
    · rintro ⟨hi, hl⟩
      have hi := (h i s hs).mpr hi
      exact ⟨hi, (ih (hkeep i s hs hi)).mpr hl⟩

/-- Where, under an invariant `J`, a request meets `C` exactly when it keeps `P`,
the runs that keep `P` throughout are the ones all of whose requests meet `C`. -/
theorem throughout_iff_along {J P : σ → Prop} {C : σ → ι → Prop}
    (hJ : ∀ i s, J s → J (commit step i s))
    (hstep : ∀ i s, J s → P s → (P (commit step i s) ↔ C s i)) {s : σ} (hs : J s) (hP : P s)
    {l : List ι} :
    (∀ earlier later, l = earlier ++ later → P (run step s earlier)) ↔ Along step C s l := by
  -- over the run, with the condition of its first request
  induction l generalizing s with
  | nil =>
    constructor
    · exact fun _ => trivial
    · rintro - earlier later he
      obtain ⟨rfl, _⟩ := List.nil_eq_append_iff.mp he
      exact hP
  | cons i l ih =>
    constructor
    · intro h
      have hnext : P (commit step i s) := h [i] l rfl
      refine ⟨(hstep i s hs hP).mp hnext, (ih (hJ i s hs) hnext).mp ?_⟩
      rintro earlier later rfl
      exact h (i :: earlier) later rfl
    · rintro ⟨hi, hl⟩ earlier later he
      have hnext : P (commit step i s) := (hstep i s hs hP).mpr hi
      cases earlier with
      | nil => exact hP
      | cons j earlier =>
        obtain ⟨rfl, rfl⟩ := List.cons_eq_cons.mp he
        exact (ih (hJ i s hs) hnext).mpr hl earlier later rfl

/-- Some request of the run meets `E` in the state it is made in. -/
def Occurs (E : σ → ι → Prop) (s : σ) (l : List ι) : Prop :=
  ∃ earlier i later, l = earlier ++ i :: later ∧ E (run step s earlier) i

theorem not_occurs_nil {E : σ → ι → Prop} {s : σ} : ¬ Occurs step E s [] := by
  rintro ⟨earlier, i, later, he, _⟩
  exact absurd he (by simp)

theorem occurs_concat {E : σ → ι → Prop} {s : σ} {l : List ι} {i : ι} :
    Occurs step E s (l ++ [i]) ↔ Occurs step E s l ∨ E (run step s l) i := by
  constructor
  · rintro ⟨earlier, j, later, he, hE⟩
    rcases later.eq_nil_or_concat' with rfl | ⟨later, x, rfl⟩
    · obtain ⟨rfl, hj⟩ := List.append_inj' he rfl
      obtain rfl := List.singleton_inj.mp hj
      exact Or.inr hE
    · rw [← List.cons_append, ← List.append_assoc] at he
      obtain ⟨rfl, _⟩ := List.append_inj' he rfl
      exact Or.inl ⟨earlier, j, later, rfl, hE⟩
  · rintro (⟨earlier, j, later, rfl, hE⟩ | hE)
    · exact ⟨earlier, j, later ++ [i], by simp, hE⟩
    · exact ⟨l, i, [], rfl, hE⟩

/-- Some request of the run meets `E`, and no later one meets `R`. -/
def Since (E R : σ → ι → Prop) (s : σ) (l : List ι) : Prop :=
  ∃ earlier i later, l = earlier ++ i :: later ∧ E (run step s earlier) i ∧
    ∀ l₁ j l₂, later = l₁ ++ j :: l₂ → ¬ R (run step s (earlier ++ i :: l₁)) j

theorem not_since_nil {E R : σ → ι → Prop} {s : σ} : ¬ Since step E R s [] := by
  rintro ⟨earlier, i, later, he, _⟩
  exact absurd he (by simp)

theorem since_concat {E R : σ → ι → Prop} {s : σ} {l : List ι} {i : ι} :
    Since step E R s (l ++ [i]) ↔
      E (run step s l) i ∨ Since step E R s l ∧ ¬ R (run step s l) i := by
  constructor
  · rintro ⟨earlier, j, later, he, hE, hR⟩
    -- the last request is the event, or comes after it and does not end it
    rcases later.eq_nil_or_concat' with rfl | ⟨later, x, rfl⟩
    · obtain ⟨rfl, hj⟩ := List.append_inj' he rfl
      obtain rfl := List.singleton_inj.mp hj
      exact Or.inl hE
    · rw [← List.cons_append, ← List.append_assoc] at he
      obtain ⟨rfl, hx⟩ := List.append_inj' he rfl
      obtain rfl := List.singleton_inj.mp hx
      refine Or.inr ⟨⟨earlier, j, later, rfl, hE, fun l₁ k l₂ hk => ?_⟩, hR later i [] rfl⟩
      exact hR l₁ k (l₂ ++ [i]) (by rw [hk, List.append_assoc, List.cons_append])
  · rintro (hE | ⟨⟨earlier, j, later, rfl, hE, hR⟩, hi⟩)
    · exact ⟨l, i, [], rfl, hE, fun l₁ j l₂ hj => absurd hj (by simp)⟩
    · refine ⟨earlier, j, later ++ [i], by simp, hE, fun l₁ k l₂ hk => ?_⟩
      rcases l₂.eq_nil_or_concat' with rfl | ⟨l₂, x, rfl⟩
      · obtain ⟨rfl, hlast⟩ := List.append_inj' hk rfl
        obtain rfl := List.singleton_inj.mp hlast
        exact hi
      · rw [← List.cons_append, ← List.append_assoc] at hk
        exact hR l₁ k l₂ (List.append_inj' hk rfl).1

/-- What a request brings about with `E` and ends with `R` holds after a run in which some
request met `E` and none has met `R` since. -/
theorem run_since {P : σ → Prop} {E R : σ → ι → Prop}
    (hstep : ∀ i s, P (commit step i s) ↔ E s i ∨ P s ∧ ¬ R s i) {s : σ} (hs : ¬ P s)
    (l : List ι) : P (run step s l) ↔ Since step E R s l := by
  induction l using List.reverseRecOn with
  | nil => exact iff_of_false hs (not_since_nil step)
  | append_singleton l i ih => rw [run_concat, hstep, since_concat, ih]

end Run

end Transaction
