import Panelist.Transaction

/-! Computations whose side effects outlast a rollback: a state that a step may write and
that stays written when a later step gives up. -/
namespace Transaction

/-- A fallible computation over a state that its failure does not restore. -/
abbrev Lasting (κ ε α : Type) := ExceptT ε (StateM κ) α

namespace Lasting
variable {κ ε α β : Type}

/-- The outcome of a computation and the state it leaves. -/
def exec (m : Lasting κ ε α) (c : κ) : Except ε α × κ := m.run.run c

/-- A computation without side effects. -/
def lift (x : Except ε α) : Lasting κ ε α := ExceptT.mk (pure x)

/-- A single write to the state, which may be refused. -/
def write (f : κ → Option κ) (e : ε) : Lasting κ ε Unit :=
  ExceptT.mk (fun c => match f c with
    | some c' => (.ok (), c')
    | none => (.error e, c))

variable {m : Lasting κ ε α} {k : α → Lasting κ ε β} {c c' : κ}

@[simp] theorem exec_lift (x : Except ε α) (c : κ) : exec (lift x) c = (x, c) := rfl

theorem exec_bind (m : Lasting κ ε α) (k : α → Lasting κ ε β) (c : κ) :
    exec (m >>= k) c = match exec m c with
      | (.ok a, c') => exec (k a) c'
      | (.error e, c') => (.error e, c') := by
  unfold exec
  rw [ExceptT.run_bind, StateT.run_bind]
  generalize m.run.run c = out
  match out with
  | (.ok a, c') => rfl
  | (.error e, c') => rfl

theorem exec_bind_ok {a : α} (h : exec m c = (.ok a, c')) : exec (m >>= k) c = exec (k a) c' := by
  rw [exec_bind, h]

theorem exec_bind_error {e : ε} (h : exec m c = (.error e, c')) :
    exec (m >>= k) c = (.error e, c') := by
  rw [exec_bind, h]

theorem exec_write (f : κ → Option κ) (e : ε) (c : κ) :
    exec (write f e) c = match f c with
      | some c' => (.ok (), c')
      | none => (.error e, c) := rfl

/-- A step without side effects either succeeds and leaves the state to the rest, or fails. -/
theorem exec_lift_bind (x : Except ε α) (k : α → Lasting κ ε β) (c : κ) :
    exec (lift x >>= k) c = match x with
      | .ok a => exec (k a) c
      | .error e => (.error e, c) := by
  rw [exec_bind, exec_lift]
  cases x <;> rfl

/-! ### Reading and writing the state -/

@[simp] theorem exec_get_bind (k : κ → Lasting κ ε α) (c : κ) : exec (get >>= k) c = exec (k c) c :=
  rfl

@[simp] theorem exec_modify_bind (f : κ → κ) (k : PUnit → Lasting κ ε α) (c : κ) :
    exec (modify f >>= k) c = exec (k ⟨⟩) (f c) := rfl

@[simp] theorem exec_modify (f : κ → κ) (c : κ) :
    exec (modify f : Lasting κ ε PUnit) c = (.ok ⟨⟩, f c) := rfl

/-- The answer of a computation is mapped, its state is not. -/
theorem exec_map (f : α → β) (m : Lasting κ ε α) (c : κ) :
    exec (f <$> m) c = ((exec m c).1.map f, (exec m c).2) := by
  rw [map_eq_pure_bind, exec_bind]
  match exec m c with
  | (.ok a, c') => rfl
  | (.error e, c') => rfl

/-! ### Computations that do what another one does, apart from their side effects -/

/-- Whatever `m` answers, `x` answers as well. -/
def Erases (m : Lasting κ ε α) (x : Except ε α) : Prop :=
  ∀ c a c', exec m c = (.ok a, c') → x = .ok a

theorem Erases.pure (a : α) : Erases (pure a : Lasting κ ε α) (.ok a) := by
  intro c a' c' h
  exact congrArg Prod.fst h

theorem Erases.lift (x : Except ε α) : Erases (lift x : Lasting κ ε α) x := by
  intro c a c' h
  exact congrArg Prod.fst h

theorem Erases.bind {x : Except ε α} {y : α → Except ε β} (hm : Erases m x)
    (hk : ∀ a, Erases (k a) (y a)) : Erases (m >>= k) (x >>= y) := by
  intro c b c' h
  rw [exec_bind] at h
  split at h
  · rename_i a c₁ hrun
    rw [hm c a c₁ hrun]
    exact hk a c₁ b c' h
  · exact absurd (congrArg Prod.fst h) (by simp)

theorem Erases.map {x : Except ε α} (hm : Erases m x) (f : α → β) : Erases (f <$> m) (f <$> x) := by
  have hbind := hm.bind (k := fun a => Pure.pure (f a)) (y := fun a => .ok (f a))
    (fun a => .pure (f a))
  rw [map_eq_pure_bind]
  cases x <;> exact hbind

theorem Erases.foldlM {σ : Type} {step : σ → α → Lasting κ ε σ} {step' : σ → α → Except ε σ}
    (h : ∀ s a, Erases (step s a) (step' s a)) (l : List α) (s : σ) :
    Erases (l.foldlM step s) (l.foldlM step' s) := by
  induction l generalizing s with
  | nil => exact .pure s
  | cons a l ih =>
    rw [List.foldlM_cons, List.foldlM_cons]
    exact (h s a).bind ih

end Lasting

end Transaction
