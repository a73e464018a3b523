import Panelist.ReadCommitted
import Panelist.Table

/-! Transactions one at a time. A transaction that runs while no other one is under way sees
the committed store and its own writes, never waits, and commits what `Prog.alone` computes;
so a serial schedule is a run of the transactions taken as single steps. -/
namespace ReadCommitted
open Transaction Relational

namespace Prog

section Texts
variable {σ κ α β ν : Type}

@[simp] theorem alone_bind (p : Prog σ κ α) (k : α → Prog σ κ β) (db : σ) :
    (p >>= k).alone db = (p.alone db).bind (fun x => (k x.2).alone x.1) := by
  show (p.bind k).alone db = _
  induction p generalizing db with
  | done a => rfl
  | fail => rfl
  | read next ih => exact ih db db
  | lock row keep next ih => exact ih db db
  | skipLocked candidates next ih => exact ih _ db db
  | write f next ih => exact ih (f db)

@[simp] theorem alone_pure (a : α) (db : σ) : (pure a : Prog σ κ α).alone db = some (db, a) := rfl

@[simp] theorem alone_see (db : σ) : (see : Prog σ κ σ).alone db = some (db, db) := rfl

@[simp] theorem alone_forUpdate (row : κ) (keep : σ → Bool) (db : σ) :
    (forUpdate row keep).alone db = some (db, db) := rfl

@[simp] theorem alone_claimFirst (candidates : σ → List κ) (db : σ) :
    (claimFirst candidates).alone db = some (db, ((candidates db).head?, db)) := rfl

@[simp] theorem alone_set (f : σ → σ) (db : σ) :
    (set f : Prog σ κ Unit).alone db = some (f db, ()) := rfl

@[simp] theorem alone_demand (p : Prop) [Decidable p] (db : σ) :
    (demand p : Prog σ κ Unit).alone db = if p then some (db, ()) else none := by
  unfold demand
  split_ifs <;> rfl

@[simp] theorem alone_demandSome (o : Option α) (db : σ) :
    (demandSome o : Prog σ κ α).alone db = o.map (fun a => (db, a)) := by
  cases o <;> rfl

@[simp] theorem alone_when (c : Prop) [Decidable c] (p : Prog σ κ Unit) (db : σ) :
    (when c p).alone db = if c then p.alone db else some (db, ()) := by
  unfold when
  split_ifs <;> rfl

@[simp] theorem alone_updateRow (row : κ) (found : σ → Bool) (f : σ → σ) (db : σ) :
    (updateRow row found f).alone db = some (if found db then f db else db, ()) := by
  show Prog.alone (if found db then _ else _) db = _
  split_ifs <;> rfl

/-- An `INSERT` with keys gives up exactly when the row is refused. -/
@[simp] theorem alone_insert {keys : List κ} (hkeys : keys ≠ []) (f : σ → Option σ) (db : σ) :
    (insert keys f).alone db = (f db).map (fun db' => (db', ())) := by
  induction keys with
  | nil => exact absurd rfl hkeys
  | cons key keys ih =>
    show Prog.alone (if (f db).isSome then _ else _) db = _
    cases hf : f db with
    | none => rfl
    | some db' =>
      cases keys with
      | nil =>
        show some ((f db).getD db, ()) = _
        rw [hf]
        rfl
      | cons key' keys =>
        rw [hf] at ih
        exact ih (by simp)

theorem alone_foldlM (g : β → ν → Prog σ κ β) (xs : List ν) (b : β) (db : σ) :
    (xs.foldlM g b).alone db =
      xs.foldlM (fun (s : σ × β) x => (g s.2 x).alone s.1) (db, b) := by
  induction xs generalizing b db with
  | nil => rfl
  | cons x xs ih =>
    rw [List.foldlM_cons, List.foldlM_cons, alone_bind]
    exact congrArg _ (funext fun s => ih s.2 s.1)

/-- `UPDATE … WHERE` takes its rows one after another. -/
theorem alone_updateWhere (key : ν → κ) (matching : σ → List ν) (still : ν → σ → Bool)
    (f : ν → σ → σ) (db : σ) : (updateWhere key matching still f).alone db =
      some ((matching db).foldl
        (fun s x => if still x s.1 then (f x s.1, s.2 + 1) else s) (db, 0)) := by
  have hrow : ∀ (s : σ × ℕ) (x : ν), Prog.alone (Prog.lock (key x) (still x) (fun db =>
      if still x db then write (f x) (done (s.2 + 1)) else done s.2)) s.1 =
      some (if still x s.1 then (f x s.1, s.2 + 1) else s) := by
    intro s x
    show Prog.alone (if still x s.1 then _ else _) s.1 = _
    split_ifs <;> rfl
  show (((matching db).foldlM (fun n x => Prog.lock (key x) (still x) (fun db =>
    if still x db then write (f x) (done (n + 1)) else done n)) 0 : Prog σ κ ℕ)).alone db = _
  rw [alone_foldlM]
  simp only [hrow]
  exact List.foldlM_pure

end Texts

section Rows
variable {σ κ ρ γ δ : Type} [DecidableEq δ] [Row ρ γ δ] {p : ρ → Bool} {f : ρ → ρ}

/-- One row of an `UPDATE … WHERE`, and the count so far. -/
def updateOne (p : ρ → Bool) (f : ρ → ρ) (hf : Table.Keeps f) (s : Table ρ × ℕ) (k : δ) :
    Table ρ × ℕ :=
  if (s.1.get k).any p then (s.1.update k f hf, s.2 + 1) else s

/-- Rows of distinct keys that are updated one after another are updated at once. -/
theorem foldl_updateOne (hf : Table.Keeps f) {keys : List δ} (hkeys : keys.Nodup) (T : Table ρ)
    (n : ℕ) (hall : ∀ k ∈ keys, (T.get k).any p = true) :
    keys.foldl (updateOne p f hf) (T, n) =
      (T.updateWhere (fun r => decide (pk r ∈ keys)) f hf, n + keys.length) := by
  induction keys generalizing T n with
  | nil =>
    have hsame : T.updateWhere (fun r => decide (pk r ∈ ([] : List δ))) f hf = T := by
      refine Table.ext ?_
      simp [Table.rows_updateWhere]
    rw [hsame]
    rfl
  | cons k keys ih =>
    obtain ⟨hfresh, hrest⟩ := List.nodup_cons.mp hkeys
    have hlater : ∀ k' ∈ keys, ((T.update k f hf).get k').any p = true := by
      intro k' hk'
      rw [Table.get_update, if_neg]
      · exact hall k' (List.mem_cons_of_mem k hk')
      · rintro rfl
        exact hfresh hk'
    -- updating `k` and then the others is updating all of them
    have hboth : (T.update k f hf).updateWhere (fun r => decide (pk r ∈ keys)) f hf =
        T.updateWhere (fun r => decide (pk r ∈ k :: keys)) f hf := by
      refine Table.ext ?_
      rw [Table.rows_updateWhere, Table.rows_updateWhere, Table.update, Table.rows_updateWhere,
        List.map_map]
      refine List.map_congr_left (fun r _ => ?_)
      by_cases hk : pk r = k
      · simp [hk, hf.pk_eq, hfresh]
      · simp [hk]
    have hfirst : updateOne p f hf (T, n) k = (T.update k f hf, n + 1) :=
      if_pos (hall k List.mem_cons_self)
    rw [List.foldl_cons, hfirst, ih hrest _ _ hlater, hboth, List.length_cons]
    congr 1
    omega

/-- The rows an `UPDATE … WHERE` finds are updated as the whole table is. -/
theorem foldl_updateWhere (hf : Table.Keeps f) (T : Table ρ) :
    ((T.rows.filter p).map pk).foldl (updateOne p f hf) (T, 0) =
      (T.updateWhere p f hf, (T.rows.filter p).length) := by
  have hkeys : ((T.rows.filter p).map pk).Nodup := by
    refine (T.nodup.filter p).map_on (fun r hr s hs he => ?_)
    exact T.eq_of_pk (List.mem_filter.mp hr).1 (List.mem_filter.mp hs).1 he
  -- each row still matches when its turn comes, as keys are distinct
  have hall : ∀ k ∈ (T.rows.filter p).map pk, (T.get k).any p = true := by
    intro k hk
    obtain ⟨r, hr, rfl⟩ := List.mem_map.mp hk
    obtain ⟨hmem, hp⟩ := List.mem_filter.mp hr
    rw [T.get_of_mem hmem, Option.any_some, hp]
  rw [foldl_updateOne hf hkeys T 0 hall, List.length_map, Nat.zero_add]
  congr 1
  refine Table.ext (List.map_congr_left (fun r hr => ?_))
  have hiff : pk r ∈ (T.rows.filter p).map pk ↔ p r = true := by
    constructor
    · intro hmem
      obtain ⟨s, hs, he⟩ := List.mem_map.mp hmem
      obtain ⟨hsT, hps⟩ := List.mem_filter.mp hs
      obtain rfl := T.eq_of_pk hsT hr he
      exact hps
    · exact fun hp => List.mem_map.mpr ⟨r, List.mem_filter.mpr ⟨hr, hp⟩, rfl⟩
  simp only [decide_eq_true_eq, hiff]

/-- An `UPDATE … WHERE` of one table of the store. -/
theorem alone_updateTable (get : σ → Table ρ) (put : Table ρ → σ → σ) (key : δ → κ)
    (hf : Table.Keeps f) (hget : ∀ T db, get (put T db) = T)
    (hput : ∀ T T' db, put T (put T' db) = put T db) (hself : ∀ db, put (get db) db = db) (db : σ) :
    (updateWhere key (fun db => ((get db).rows.filter p).map pk)
      (fun k db => ((get db).get k).any p) (fun k db => put ((get db).update k f hf) db)).alone db =
      some (put ((get db).updateWhere p f hf) db, ((get db).rows.filter p).length) := by
  -- the rest of the store stands still
  have hfold : ∀ (keys : List δ) (s : Table ρ × ℕ),
      keys.foldl (fun (s : σ × ℕ) k => if ((get s.1).get k).any p
        then (put ((get s.1).update k f hf) s.1, s.2 + 1) else s) (put s.1 db, s.2) =
      (put (keys.foldl (updateOne p f hf) s).1 db, (keys.foldl (updateOne p f hf) s).2) := by
    intro keys
    induction keys with
    | nil => exact fun s => rfl
    | cons k keys ih =>
      intro s
      rw [List.foldl_cons, List.foldl_cons, ← ih, hget, updateOne]
      split_ifs
      · rw [hput]
      · rfl
  have hrows := hfold (((get db).rows.filter p).map pk) (get db, 0)
  rw [hself, foldl_updateWhere] at hrows
  rw [alone_updateWhere, hrows]

end Rows

end Prog

/-! ### Serial schedules -/

section Serial
variable {σ κ α ρ ι : Type} [DecidableEq κ] [DecidableEq ι] {code : ρ → Prog σ κ α}

/-- The transactions as single steps. -/
def whole (code : ρ → Prog σ κ α) (call : ρ) (db : σ) : Except Unit (σ × α) :=
  match (code call).alone db with
  | some x => .ok x
  | none => .error ()

/-- `c'` is `c` after the transaction `i`, which computed `r`, and no lock is held. -/
structure Ended (c c' : Config σ κ α ρ ι) (i : ι) (call : ρ) (r : Option (σ × α)) : Prop where
  base : c'.base = c.base
  owner : ∀ row, c'.owner row = none
  phase : c'.phase = Function.update c.phase i .over
  log : match r with
    | some (db, a) => ∃ clock, c'.log = c.log ++ [⟨call, a, clock, c.store, db⟩]
    | none => c'.log = c.log

/-- Nothing more happens in a transaction that is over. -/
theorem run_over {c : Config σ κ α ρ ι} {i : ι} (h : c.phase i = .over) (n : ℕ) :
    run (step code) c (List.replicate n (.run i)) = c := by
  induction n with
  | zero => rfl
  | succ n ih =>
    have hrefused : step code (.run i) c = .error () := by simp only [step, h]
    rw [List.replicate_succ, run_cons, commit_of_error _ hrefused, ih]

omit [DecidableEq κ] in
theorem free_of_none {c : Config σ κ α ρ ι} {i : ι} {row : κ}
    (h : c.owner row = none ∨ c.owner row = some i) : c.free i row = true := by
  unfold Config.free
  rcases h with h | h <;> rw [h]
  exact decide_eq_true rfl

/-- `c₁` is `c` after one step of the transaction `i`, which is now at `t`. -/
structure Moved (c c₁ : Config σ κ α ρ ι) (i : ι) (t : Txn σ κ α ρ) : Prop where
  base : c₁.base = c.base
  log : c₁.log = c.log
  phase : c₁.phase = Function.update c.phase i (.running t)
  owner : ∀ row, c₁.owner row = none ∨ c₁.owner row = some i

omit [DecidableEq κ] in
theorem Ended.of_moved {c c₁ c' : Config σ κ α ρ ι} {i : ι} {t : Txn σ κ α ρ} {call : ρ}
    {r : Option (σ × α)} (hm : Moved c c₁ i t) (h : Ended c₁ c' i call r) :
    Ended c c' i call r where
  base := h.base.trans hm.base
  owner := h.owner
  phase := by rw [h.phase, hm.phase, Function.update_idem]
  log := by
    have hlog := h.log
    have hstore : c₁.store = c.store := by rw [Config.store, Config.store, hm.base, hm.log]
    rw [hm.log, hstore] at hlog
    exact hlog

omit [DecidableEq ι] in
theorem owner_hold_free {c : Config σ κ α ρ ι} {i : ι} {row : κ}
    (h : ∀ r, c.owner r = none ∨ c.owner r = some i) (r : κ) :
    (c.hold i row).owner r = none ∨ (c.hold i row).owner r = some i := by
  by_cases hr : r = row
  · subst hr
    exact Or.inr (Function.update_self ..)
  · have hsame : (c.hold i row).owner r = c.owner r := Function.update_of_ne hr ..
    rw [hsame]
    exact h r

omit [DecidableEq κ] in
theorem owner_finish_none {c : Config σ κ α ρ ι} {i : ι}
    (h : ∀ r, c.owner r = none ∨ c.owner r = some i) (r : κ) : (c.finish i).owner r = none := by
  show (if c.owner r = some i then none else c.owner r) = none
  split_ifs with hr
  · rfl
  · exact (h r).resolve_right hr

/-- The transaction ends with `r` if it is left alone long enough. -/
def Ends (code : ρ → Prog σ κ α) (c : Config σ κ α ρ ι) (i : ι) (call : ρ) (r : Option (σ × α)) :
    Prop :=
  ∃ n c', (∀ m, n ≤ m → run (step code) c (List.replicate m (.run i)) = c') ∧ Ended c c' i call r

theorem Ends.now {c : Config σ κ α ρ ι} (c' : Config σ κ α ρ ι) {i : ι} {call : ρ}
    {r : Option (σ × α)} (hstep : step code (.run i) c = .ok (c', ())) (h : Ended c c' i call r) :
    Ends code c i call r := by
  refine ⟨1, c', fun m hm => ?_, h⟩
  obtain ⟨m, rfl⟩ : ∃ k, m = k + 1 := ⟨m - 1, by omega⟩
  rw [List.replicate_succ, run_cons, commit_of_ok _ hstep]
  exact run_over (by rw [h.phase, Function.update_self]) m

theorem Ends.later {c c₁ : Config σ κ α ρ ι} {i : ι} {t : Txn σ κ α ρ} {call : ρ}
    {r : Option (σ × α)} (hstep : step code (.run i) c = .ok (c₁, ())) (hm : Moved c c₁ i t)
    (h : Ends code c₁ i call r) : Ends code c i call r := by
  obtain ⟨n, c', hrun, hended⟩ := h
  refine ⟨n + 1, c', fun m hmn => ?_, hended.of_moved hm⟩
  obtain ⟨m, rfl⟩ : ∃ k, m = k + 1 := ⟨m - 1, by omega⟩
  rw [List.replicate_succ, run_cons, commit_of_ok _ hstep]
  exact hrun m (by omega)

/-- What a transaction does from here on, when no other one holds a lock. -/
theorem ends_alone (code : ρ → Prog σ κ α) (p : Prog σ κ α) (c : Config σ κ α ρ ι) (i : ι)
    (t : Txn σ κ α ρ) (ht : t.prog = p) (hi : c.phase i = .running t)
    (hfree : ∀ row, c.owner row = none ∨ c.owner row = some i) :
    Ends code c i t.call (p.alone (t.pending c.store)) := by
  -- over the program: nobody else holds a lock, so no step blocks or skips
  induction p generalizing c t with
  | done a =>
    refine Ends.now { c.finish i with
      log := c.log ++ [⟨t.call, a, t.clock, c.store, t.pending c.store⟩] } ?_
      ⟨rfl, owner_finish_none hfree, rfl, t.clock, rfl⟩
    simp only [step, hi, Config.advance, ht]
  | fail =>
    refine Ends.now (c.finish i) ?_ ⟨rfl, owner_finish_none hfree, rfl, rfl⟩
    simp only [step, hi, Config.advance, ht]
  | read next ih =>
    have hstep : step code (.run i) c = .ok (c.setPhase i (.running { t with
        prog := next (t.pending c.store)
        clock := t.clock ++ [c.log.length] }), ()) := by
      simp only [step, hi, Config.advance, ht]
    exact Ends.later hstep ⟨rfl, rfl, rfl, hfree⟩
      (ih (t.pending c.store) _ { t with
        prog := next (t.pending c.store)
        clock := t.clock ++ [c.log.length] } rfl (Function.update_self ..) hfree)
  | lock row keep next ih =>
    have hrow : c.free i row = true := free_of_none (hfree row)
    have hstep : step code (.run i) c = .ok ((if keep (t.pending c.store) then c.hold i row else
        c).resume i t (next (t.pending c.store)), ()) := by
      simp only [step, hi, Config.advance, ht, hrow, if_true]
    split_ifs at hstep
    · exact Ends.later hstep ⟨rfl, rfl, rfl, owner_hold_free hfree⟩
        (ih (t.pending c.store) _ { t with prog := next (t.pending c.store) } rfl
          (Function.update_self ..) (owner_hold_free hfree))
    · exact Ends.later hstep ⟨rfl, rfl, rfl, hfree⟩
        (ih (t.pending c.store) _ { t with prog := next (t.pending c.store) } rfl
          (Function.update_self ..) hfree)
  | skipLocked candidates next ih =>
    have hfirst : (candidates (t.pending c.store)).find? (c.free i) =
        (candidates (t.pending c.store)).head? := by
      cases candidates (t.pending c.store) with
      | nil => rfl
      | cons row rest => exact List.find?_cons_of_pos (free_of_none (hfree row))
    have hstep : step code (.run i) c = .ok (((candidates (t.pending c.store)).head?.elim c
        (c.hold i)).resume i t (next (candidates (t.pending c.store)).head? (t.pending c.store)),
        ()) := by
      simp only [step, hi, Config.advance, ht, hfirst]
    show Ends code c i t.call ((next (candidates (t.pending c.store)).head?
      (t.pending c.store)).alone (t.pending c.store))
    cases hhead : (candidates (t.pending c.store)).head? with
    | none =>
      rw [hhead] at hstep
      exact Ends.later hstep ⟨rfl, rfl, rfl, hfree⟩
        (ih none (t.pending c.store) _ { t with prog := next none (t.pending c.store) } rfl
          (Function.update_self ..) hfree)
    | some row =>
      rw [hhead] at hstep
      exact Ends.later hstep ⟨rfl, rfl, rfl, owner_hold_free hfree⟩
        (ih (some row) (t.pending c.store) _
          { t with prog := next (some row) (t.pending c.store) } rfl
          (Function.update_self ..) (owner_hold_free hfree))
  | write f next ih =>
    have hstep : step code (.run i) c = .ok (c.setPhase i (.running { t with
        prog := next
        pending := fun db => f (t.pending db) }), ()) := by
      simp only [step, hi, Config.advance, ht]
    exact Ends.later hstep ⟨rfl, rfl, rfl, hfree⟩
      (ih _ { t with prog := next, pending := fun db => f (t.pending db) } rfl
        (Function.update_self ..) hfree)

/-- The transactions of `calls` one after another, each with `n` turns. -/
def serial (n : ℕ) (calls : List (ι × ρ)) : List (Choice ρ ι) :=
  calls.flatMap (fun x => .start x.1 x.2 :: List.replicate n (.run x.1))

/-- The calls and answers of a history, with the stores around each. -/
def trace (log : List (Entry σ α ρ)) : List (ρ × α × σ × σ) :=
  log.map (fun e => (e.call, e.answer, e.before, e.after))

/-- The calls and answers of the transactions taken as single steps. -/
def traceWhole (code : ρ → Prog σ κ α) : σ → List ρ → List (ρ × α × σ × σ)
  | _, [] => []
  | db, call :: calls =>
    match (code call).alone db with
    | some (db', a) => (call, a, db, db') :: traceWhole code db' calls
    | none => traceWhole code db calls

omit [DecidableEq κ] in
theorem Ended.store {c c' : Config σ κ α ρ ι} {i : ι} {call : ρ} {r : Option (σ × α)}
    (h : Ended c c' i call r) : c'.store = (r.map Prod.fst).getD c.store := by
  have hlog := h.log
  rw [Config.store, h.base]
  cases r with
  | none => exact congrArg (now c.base) hlog
  | some x =>
    obtain ⟨clock, hlog⟩ := hlog
    rw [hlog, now_concat]
    rfl

/-- A serial schedule runs the transactions as single steps, whoever runs them and however
many turns they are left beyond those they need. -/
theorem serial_run (code : ρ → Prog σ κ α) (calls : List (ι × ρ))
    (hcalls : (calls.map Prod.fst).Nodup) (c : Config σ κ α ρ ι)
    (hidle : ∀ x ∈ calls, c.phase x.1 = .idle) (hfree : ∀ row, c.owner row = none) :
    ∃ n c', (∀ m, n ≤ m → run (step code) c (serial m calls) = c') ∧ c'.base = c.base ∧
      trace c'.log = trace c.log ++ traceWhole code c.store (calls.map Prod.snd) ∧
      c'.store = run (whole code) c.store (calls.map Prod.snd) := by
  induction calls generalizing c with
  | nil => exact ⟨0, c, fun m _ => rfl, rfl, by simp [traceWhole], rfl⟩
  | cons x calls ih =>
    obtain ⟨i, call⟩ := x
    obtain ⟨hfresh, hrest⟩ := List.nodup_cons.mp hcalls
    have hi : c.phase i = .idle := hidle (i, call) List.mem_cons_self
    have hstart : step code (.start i call) c =
        .ok (c.setPhase i (.running ⟨call, code call, id, []⟩), ()) := by
      simp only [step, hi]
    -- the first call runs to its end before the second starts
    obtain ⟨n₁, c₁, hrun₁, hended⟩ := ends_alone code (code call)
      (c.setPhase i (.running ⟨call, code call, id, []⟩)) i ⟨call, code call, id, []⟩ rfl
      (Function.update_self ..) (fun row => Or.inl (hfree row))
    have hmoved : Moved c (c.setPhase i (.running ⟨call, code call, id, []⟩)) i
        ⟨call, code call, id, []⟩ := ⟨rfl, rfl, rfl, fun row => Or.inl (hfree row)⟩
    have hfirst : Ended c c₁ i call ((code call).alone c.store) := hended.of_moved hmoved
    have hidle₁ : ∀ x ∈ calls, c₁.phase x.1 = .idle := by
      intro x hx
      have hne : x.1 ≠ i := by
        intro he
        rw [← he] at hfresh
        exact hfresh (List.mem_map.mpr ⟨x, hx, rfl⟩)
      rw [hfirst.phase, Function.update_of_ne hne]
      exact hidle x (List.mem_cons_of_mem _ hx)
    obtain ⟨n₂, c', hrun₂, hbase, htrace, hstore⟩ := ih hrest c₁ hidle₁ hfirst.owner
    refine ⟨max n₁ n₂, c', fun m hm => ?_, hbase.trans hfirst.base, ?_, ?_⟩
    · have hm₁ : n₁ ≤ m := (le_max_left n₁ n₂).trans hm
      have hm₂ : n₂ ≤ m := (le_max_right n₁ n₂).trans hm
      rw [serial, List.flatMap_cons, List.cons_append, run_cons, commit_of_ok _ hstart, run_append,
        hrun₁ m hm₁]
      exact hrun₂ m hm₂
    · have hlog := hfirst.log
      have hstore₁ := hfirst.store
      rw [htrace, List.map_cons, traceWhole]
      cases halone : (code call).alone c.store with
      | none =>
        rw [halone] at hlog hstore₁
        rw [hlog, hstore₁]
        rfl
      | some r =>
        rw [halone] at hlog hstore₁
        obtain ⟨clock, hlog⟩ := hlog
        rw [hlog, hstore₁, trace, trace, List.map_append, List.append_assoc]
        rfl
    · have hstore₁ := hfirst.store
      rw [hstore, List.map_cons, run_cons, hstore₁]
      congr 1
      unfold commit whole
      cases (code call).alone c.store <;> rfl

end Serial

end ReadCommitted
