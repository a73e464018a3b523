import Panelist.Transaction

/-! Concurrent transactions at READ COMMITTED with row locks. A transaction is a tree of
statements; each statement sees the newest committed store under the transaction's own
writes. A row lock is held to the end of the transaction, `SKIP LOCKED` passes over rows
that others hold, and writes reach the store when the transaction commits.

The second half is a logic for such transactions: what holds of a row stays true while it
is locked, so a transaction can be verified by itself, and every commit then obeys the law
its transaction was verified against. -/
namespace ReadCommitted
open Transaction

/-- A transaction over stores `σ` with lockable things `κ`, answering with an `α`. -/
inductive Prog (σ κ α : Type) where
  /-- COMMIT. -/
  | done (a : α)
  /-- ROLLBACK. -/
  | fail
  /-- A plain SELECT, or the snapshot an UPDATE takes: the rest may use all it sees. -/
  | read (next : σ → Prog σ κ α)
  /-- Wait until no other transaction holds `row`; then look at the newest version, and
  hold the row if it is still wanted. -/
  | lock (row : κ) (keep : σ → Bool) (next : σ → Prog σ κ α)
  /-- Hold the first of the candidates that no other transaction holds, if there is one. -/
  | skipLocked (candidates : σ → List κ) (next : Option κ → σ → Prog σ κ α)
  /-- An INSERT or an UPDATE of rows it holds. -/
  | write (f : σ → σ) (next : Prog σ κ α)

namespace Prog
variable {σ κ α β ν : Type}

/-- Run one transaction text after another. -/
def bind (p : Prog σ κ α) (k : α → Prog σ κ β) : Prog σ κ β :=
  match p with
  | done a => k a
  | fail => fail
  | read next => read (fun db => (next db).bind k)
  | lock row keep next => lock row keep (fun db => (next db).bind k)
  | skipLocked candidates next => skipLocked candidates (fun row db => (next row db).bind k)
  | write f next => write f (next.bind k)

instance : Monad (Prog σ κ) where
  pure := done
  bind := bind

/-- What the statement sees. -/
def see : Prog σ κ σ := read done

/-- SELECT … FOR UPDATE of one row, or the re-check an UPDATE makes of it. -/
def forUpdate (row : κ) (keep : σ → Bool) : Prog σ κ σ := lock row keep done

/-- SELECT … LIMIT 1 FOR UPDATE SKIP LOCKED. -/
def claimFirst (candidates : σ → List κ) : Prog σ κ (Option κ × σ) :=
  skipLocked candidates (fun row db => done (row, db))

def set (f : σ → σ) : Prog σ κ Unit := write f (done ())

def demand (p : Prop) [Decidable p] : Prog σ κ Unit := if p then done () else fail

def demandSome (o : Option α) : Prog σ κ α :=
  match o with
  | some a => done a
  | none => fail

/-- `if c: p`. -/
def when (c : Prop) [Decidable c] (p : Prog σ κ Unit) : Prog σ κ Unit := if c then p else done ()

/-- UPDATE of the row `row` found by its key, if it is there. -/
def updateRow (row : κ) (found : σ → Bool) (f : σ → σ) : Prog σ κ Unit :=
  lock row found (fun db => if found db then write f (done ()) else done ())

/-- UPDATE … WHERE: the rows of its snapshot that match are taken one after another, and
one that no longer matches when its turn comes is passed over. Answers how many it wrote. -/
def updateWhere (key : ν → κ) (matching : σ → List ν) (still : ν → σ → Bool) (f : ν → σ → σ) :
    Prog σ κ ℕ := do
  let db ← see
  (matching db).foldlM (fun n x =>
    lock (key x) (still x) (fun db =>
      if still x db then write (f x) (done (n + 1)) else done n)) 0

/-- INSERT: wait for every transaction that inserts one of the same unique keys; a key
that is taken is a constraint violation. -/
def insert (keys : List κ) (f : σ → Option σ) : Prog σ κ Unit :=
  match keys with
  | [] => write (fun db => (f db).getD db) (done ())
  | key :: keys =>
    lock key (fun _ => true) (fun db => if (f db).isSome then insert keys f else fail)

/-- What the transaction does when no other one is around. -/
def alone : Prog σ κ α → σ → Option (σ × α)
  | done a, db => some (db, a)
  | fail, _ => none
  | read next, db => (next db).alone db
  | lock _ _ next, db => (next db).alone db
  | skipLocked candidates next, db => (next (candidates db).head? db).alone db
  | write f next, db => next.alone (f db)

end Prog

/-! ### Interleavings -/

section Semantics
variable {σ κ α ρ ι : Type}

/-- A committed transaction: the call it served, its answer, how many transactions had
committed before each of its plain reads, and the committed store before and after it. -/
structure Entry (σ α ρ : Type) where
  call : ρ
  answer : α
  clock : List ℕ
  before : σ
  after : σ

/-- The committed store after a history. -/
def now (base : σ) (log : List (Entry σ α ρ)) : σ := (log.getLast?.map Entry.after).getD base

/-- A transaction under way: the call it serves, the statements left, its own writes and
the moments of its reads so far. -/
structure Txn (σ κ α ρ : Type) where
  call : ρ
  prog : Prog σ κ α
  pending : σ → σ
  clock : List ℕ

inductive Phase (σ κ α ρ : Type) where
  | idle
  | running (t : Txn σ κ α ρ)
  | over

/-- What has been committed, the transactions, and who holds which lock. -/
structure Config (σ κ α ρ ι : Type) where
  base : σ
  log : List (Entry σ α ρ)
  phase : ι → Phase σ κ α ρ
  owner : κ → Option ι

/-- What happens next: a transaction starts, runs its next statement, or is rolled back. -/
inductive Choice (ρ ι : Type) where
  | start (i : ι) (call : ρ)
  | run (i : ι)
  | cancel (i : ι)

variable [DecidableEq κ] [DecidableEq ι]

namespace Config

def init (base : σ) : Config σ κ α ρ ι := ⟨base, [], fun _ => .idle, fun _ => none⟩

def store (c : Config σ κ α ρ ι) : σ := now c.base c.log

/-- No other transaction holds the row. -/
def free (c : Config σ κ α ρ ι) (i : ι) (row : κ) : Bool :=
  match c.owner row with
  | none => true
  | some j => decide (j = i)

def setPhase (c : Config σ κ α ρ ι) (i : ι) (p : Phase σ κ α ρ) : Config σ κ α ρ ι :=
  { c with phase := Function.update c.phase i p }

def hold (c : Config σ κ α ρ ι) (i : ι) (row : κ) : Config σ κ α ρ ι :=
  { c with owner := Function.update c.owner row (some i) }

/-- The transaction is over and its locks are free. -/
def finish (c : Config σ κ α ρ ι) (i : ι) : Config σ κ α ρ ι :=
  { c.setPhase i .over with
    owner := fun row => if c.owner row = some i then none else c.owner row }

/-- The transaction goes on with `p`. -/
def resume (c : Config σ κ α ρ ι) (i : ι) (t : Txn σ κ α ρ) (p : Prog σ κ α) :
    Config σ κ α ρ ι :=
  c.setPhase i (.running { t with prog := p })

/-- The next statement of a running transaction. -/
def advance (c : Config σ κ α ρ ι) (i : ι) (t : Txn σ κ α ρ) :
    Except Unit (Config σ κ α ρ ι × Unit) :=
  let view := t.pending c.store
  -- what others have committed is seen at every read
  match t.prog with
  -- the commit: its writes join the store, its locks are let go
  | .done a =>
    .ok ({ c.finish i with log := c.log ++ [⟨t.call, a, t.clock, c.store, view⟩] }, ())
  | .fail => .ok (c.finish i, ())
  | .read next =>
    .ok (c.setPhase i (.running { t with
      prog := next view
      clock := t.clock ++ [c.log.length] }), ())
  -- `FOR UPDATE`: waits for whoever holds the row, and reads what they left
  | .lock row keep next =>
    if c.free i row then
      .ok ((if keep view then c.hold i row else c).resume i t (next view), ())
    else .error ()
  -- `SKIP LOCKED`: the first row nobody holds, or none
  | .skipLocked candidates next =>
    let row := (candidates view).find? (c.free i)
    .ok ((row.elim c (c.hold i)).resume i t (next row view), ())
  | .write f next =>
    .ok (c.setPhase i (.running { t with prog := next, pending := fun db => f (t.pending db) }), ())

end Config

/-- One step of an interleaving; a step of a waiting transaction is refused. -/
def step (code : ρ → Prog σ κ α) (ch : Choice ρ ι) (c : Config σ κ α ρ ι) :
    Except Unit (Config σ κ α ρ ι × Unit) :=
  match ch with
  | .start i call =>
    match c.phase i with
    | .idle => .ok (c.setPhase i (.running ⟨call, code call, id, []⟩), ())
    | _ => .error ()
  | .run i =>
    match c.phase i with
    | .running t => c.advance i t
    | _ => .error ()
  | .cancel i =>
    match c.phase i with
    | .running _ => .ok (c.finish i, ())
    | _ => .error ()

/-- What has been committed after a schedule. -/
def committed (code : ρ → Prog σ κ α) (base : σ) (schedule : List (Choice ρ ι)) :
    List (Entry σ α ρ) :=
  (run (step code) (Config.init base : Config σ κ α ρ ι) schedule).log

end Semantics

/-! ### Lawful histories -/

section Logic
variable {σ κ α β ρ ι : Type}

@[simp] theorem now_concat (base : σ) (log : List (Entry σ α ρ)) (e : Entry σ α ρ) :
    now base (log ++ [e]) = e.after := by
  simp [now]

/-- The committed store when the history had `n` entries. -/
def storeAt (base : σ) (log : List (Entry σ α ρ)) (n : ℕ) : σ := now base (log.take n)

theorem storeAt_of_prefix {base : σ} {log log' : List (Entry σ α ρ)} (h : log <+: log') :
    storeAt base log' log.length = now base log := by
  rw [storeAt, ← List.prefix_iff_eq_take.mp h]

/-- Every entry starts from the store its predecessors left and obeys the law. -/
def Lawful (law : List (Entry σ α ρ) → Entry σ α ρ → Prop) (base : σ)
    (log : List (Entry σ α ρ)) : Prop :=
  ∀ earlier e later, log = earlier ++ e :: later → e.before = now base earlier ∧ law earlier e

theorem Lawful.nil {law : List (Entry σ α ρ) → Entry σ α ρ → Prop} {base : σ} :
    Lawful law base [] := fun earlier _ _ he => absurd he (by cases earlier <;> simp)

theorem Lawful.concat {law : List (Entry σ α ρ) → Entry σ α ρ → Prop} {base : σ}
    {log : List (Entry σ α ρ)} {e : Entry σ α ρ} :
    Lawful law base (log ++ [e]) ↔
      Lawful law base log ∧ e.before = now base log ∧ law log e := by
  constructor
  · intro h
    refine ⟨fun earlier d later he => h earlier d (later ++ [e]) (by simp [he]), h log e [] rfl⟩
  · rintro ⟨hlog, he⟩ earlier d later hsplit
    rcases later.eq_nil_or_concat' with rfl | ⟨later, x, rfl⟩
    · obtain ⟨rfl, hd⟩ := List.append_inj' hsplit rfl
      obtain rfl := List.singleton_inj.mp hd
      exact he
    · rw [← List.cons_append, ← List.append_assoc] at hsplit
      obtain ⟨rfl, _⟩ := List.append_inj' hsplit rfl
      exact hlog earlier d later rfl

namespace Lawful
variable {law : List (Entry σ α ρ) → Entry σ α ρ → Prop} {base : σ} {log past : List (Entry σ α ρ)}

theorem of_prefix (h : Lawful law base log) (hle : past <+: log) : Lawful law base past := by
  obtain ⟨later, rfl⟩ := hle
  exact fun earlier e rest he => h earlier e (rest ++ later) (by simp [he])

/-- The invariant rule for histories. -/
theorem invariant {P : List (Entry σ α ρ) → Prop} (h : Lawful law base log) (h0 : P [])
    (hstep : ∀ past e, Lawful law base (past ++ [e]) → P past → P (past ++ [e])) : P log := by
  induction log using List.reverseRecOn with
  | nil => exact h0
  | append_singleton past e ih =>
    exact hstep past e h (ih (h.of_prefix (List.prefix_append past [e])))

/-- What every commit does to the store, a stretch of commits does. -/
theorem stretch {R : σ → σ → Prop} (h : Lawful law base log) (hle : past <+: log)
    (hrefl : ∀ db, R db db) (htrans : ∀ {a b c}, R a b → R b c → R a c)
    (hstep : ∀ past e, e.before = now base past → law past e → R e.before e.after) :
    R (now base past) (now base log) := by
  obtain ⟨later, rfl⟩ := hle
  induction later using List.reverseRecOn with
  | nil =>
    rw [List.append_nil]
    exact hrefl _
  | append_singleton later e ih =>
    rw [← List.append_assoc] at h ⊢
    obtain ⟨hlog, hbefore, hlaw⟩ := concat.mp h
    rw [now_concat]
    exact htrans (ih hlog) (hbefore ▸ hstep _ e hbefore hlaw)

/-- If every commit keeps `P` exactly when `C` held of it, a whole history has `P`
throughout exactly when `C` held of all its commits. -/
theorem throughout_iff {P : List (Entry σ α ρ) → Prop}
    {C : List (Entry σ α ρ) → Entry σ α ρ → Prop} (h : Lawful law base log) (h0 : P [])
    (hstep : ∀ past e, Lawful law base (past ++ [e]) → P past → (P (past ++ [e]) ↔ C past e)) :
    (∀ past, past <+: log → P past) ↔ ∀ past e, past ++ [e] <+: log → C past e := by
  constructor
  · intro hP past e hle
    have hpast : past <+: log := (List.prefix_append past [e]).trans hle
    exact (hstep past e (h.of_prefix hle) (hP past hpast)).mp (hP _ hle)
  · intro hC past hle
    induction past using List.reverseRecOn with
    | nil => exact h0
    | append_singleton past e ih =>
      have hpast : past <+: log := (List.prefix_append past [e]).trans hle
      exact (hstep past e (h.of_prefix hle) (ih hpast)).mpr (hC past e hle)

/-- If a commit leaves `P` exactly when it had `P` and `C` held of it, a history ends with
`P` exactly when `C` held of all its commits. -/
theorem final_iff {P : List (Entry σ α ρ) → Prop}
    {C : List (Entry σ α ρ) → Entry σ α ρ → Prop} (h : Lawful law base log) (h0 : P [])
    (hstep : ∀ past e, Lawful law base (past ++ [e]) → (P (past ++ [e]) ↔ P past ∧ C past e)) :
    P log ↔ ∀ past e, past ++ [e] <+: log → C past e := by
  induction log using List.reverseRecOn with
  | nil => exact ⟨fun _ past e hle => absurd hle (by simp), fun _ => h0⟩
  | append_singleton log e ih =>
    rw [hstep log e h, ih (h.of_prefix (List.prefix_append log [e]))]
    constructor
    · rintro ⟨hpast, he⟩ past d hle
      rcases List.prefix_concat_iff.mp hle with heq | hle
      · obtain ⟨rfl, hd⟩ := List.append_inj' heq rfl
        obtain rfl := List.singleton_inj.mp hd
        exact he
      · exact hpast past d hle
    · intro hall
      exact ⟨fun past d hle => hall past d (hle.trans (List.prefix_append log [e])),
        hall log e (List.prefix_refl _)⟩

end Lawful

variable (rows : κ → Setoid σ) (law : List (Entry σ α ρ) → Entry σ α ρ → Prop) (base : σ)

/-- What a transaction holds, knows of the history and has written so far. Two stores agree
on a row when `rows` says so; it has written rows it holds only. -/
structure Local (rows : κ → Setoid σ) (α ρ : Type) where
  held : List κ
  knows : List (Entry σ α ρ) → Prop
  pending : σ → σ
  clock : List ℕ
  frame : ∀ row ∉ held, ∀ db, (rows row).r db (pending db)

namespace Local
variable {rows}

def start : Local rows α ρ := ⟨[], fun _ => True, id, [], fun row _ db => (rows row).refl db⟩

/-- After a look at the history `log`, which can only have grown since. -/
def looked (log : List (Entry σ α ρ)) (s : Local rows α ρ) : Local rows α ρ :=
  { s with knows := fun log' => s.knows log' ∧ log <+: log' }

/-- After a read at the history `log`. -/
def saw (log : List (Entry σ α ρ)) (s : Local rows α ρ) : Local rows α ρ :=
  { s.looked log with clock := s.clock ++ [log.length] }

/-- With a lock on `row`, whose version stays the one of the history `log`. -/
def hold (row : κ) (log : List (Entry σ α ρ)) (s : Local rows α ρ) : Local rows α ρ :=
  { s with
    held := row :: s.held
    knows := fun log' => s.knows log' ∧ (rows row).r (now base log) (now base log')
    frame := fun r hr => s.frame r (fun hr' => hr (List.mem_cons_of_mem row hr')) }

def wrote (f : σ → σ) (s : Local rows α ρ)
    (hf : ∀ row ∉ s.held, ∀ db, (rows row).r db (f db)) : Local rows α ρ :=
  { s with
    pending := fun db => f (s.pending db)
    frame := fun row hrow db => (rows row).trans (s.frame row hrow db) (hf row hrow _) }

/-- `s'` is `s` with the rows `keys` locked as well. -/
structure Locked (keys : List κ) (s s' : Local rows α ρ) : Prop where
  pending : s'.pending = s.pending
  clock : s'.clock = s.clock
  knows : ∀ log, s'.knows log → s.knows log
  held : ∀ row, row ∈ s'.held ↔ row ∈ keys ∨ row ∈ s.held
  still : ∀ row ∈ keys, ∀ log log', s'.knows log → s'.knows log' →
    (rows row).r (now base log) (now base log')

/-- `s'` comes after `s`, and what it has written since is an `R` of the store. -/
structure Grows (R : σ → σ → Prop) (s s' : Local rows α ρ) : Prop where
  held : ∀ row ∈ s.held, row ∈ s'.held
  knows : ∀ log, s'.knows log → s.knows log
  pending : ∀ db, R (s.pending db) (s'.pending db)
  clock : s.clock <+: s'.clock

namespace Grows
variable {base} {R : σ → σ → Prop} {s s' s'' : Local rows α ρ}

theorem refl (hR : ∀ db, R db db) (s : Local rows α ρ) : s.Grows R s :=
  ⟨fun _ h => h, fun _ h => h, fun _ => hR _, List.prefix_refl _⟩

theorem trans (hR : ∀ {a b c}, R a b → R b c → R a c) (h : s.Grows R s') (h' : s'.Grows R s'') :
    s.Grows R s'' :=
  ⟨fun row hr => h'.held row (h.held row hr), fun log hk => h.knows log (h'.knows log hk),
    fun db => hR (h.pending db) (h'.pending db), h.clock.trans h'.clock⟩

theorem comp {same : Setoid σ} (h : s.Grows same.r s') (h' : s'.Grows same.r s'') :
    s.Grows same.r s'' := h.trans (fun {_ _ _} hab hbc => same.trans hab hbc) h'

theorem mono {R' : σ → σ → Prop} (hR : ∀ db db', R db db' → R' db db') (h : s.Grows R s') :
    s.Grows R' s' := ⟨h.held, h.knows, fun db => hR _ _ (h.pending db), h.clock⟩

theorem looked (hR : ∀ db, R db db) (log : List (Entry σ α ρ)) : s.Grows R (s.looked log) :=
  ⟨fun _ h => h, fun _ h => h.1, fun _ => hR _, List.prefix_refl _⟩

theorem saw (hR : ∀ db, R db db) (log : List (Entry σ α ρ)) : s.Grows R (s.saw log) :=
  ⟨fun _ h => h, fun _ h => h.1, fun _ => hR _, List.prefix_append _ _⟩

theorem hold (hR : ∀ db, R db db) (row : κ) (log : List (Entry σ α ρ)) :
    s.Grows R (s.hold base row log) :=
  ⟨fun _ h => List.mem_cons_of_mem row h, fun _ h => h.1, fun _ => hR _, List.prefix_refl _⟩

theorem wrote {f : σ → σ} (hf : ∀ db, R db (f db)) (hf' : _) : s.Grows R (s.wrote f hf') :=
  ⟨fun _ h => h, fun _ h => h, fun _ => hf _, List.prefix_refl _⟩

theorem locked (hR : ∀ db, R db db) {keys : List κ} (h : s.Locked base keys s') : s.Grows R s' :=
  ⟨fun row hr => (h.held row).mpr (Or.inr hr), h.knows, fun _ => h.pending ▸ hR _,
    h.clock ▸ List.prefix_refl _⟩

end Grows

end Local

namespace Prog

/-- `p` run from `s` ends with `Q`, whatever other transactions commit between its
statements, as long as they leave the rows it holds alone. -/
def wp (Q : β → Local rows α ρ → Prop) : Prog σ κ β → Local rows α ρ → Prop
  | done b, s => Q b s
  -- a rollback leaves nothing to prove
  | fail, _ => True
  | read next, s => ∀ log, Lawful law base log → s.knows log →
    (next (s.pending (now base log))).wp Q (s.saw log)
  -- other transactions may commit while it waits for the row
  | lock row keep next, s => ∀ log, Lawful law base log → s.knows log →
    (next (s.pending (now base log))).wp Q
      ((if keep (s.pending (now base log)) then s.hold base row log else s).looked log)
  | skipLocked candidates next, s => ∀ log, Lawful law base log → s.knows log →
    ∀ row : Option κ, (∀ r ∈ row, r ∈ candidates (s.pending (now base log))) →
      (next row (s.pending (now base log))).wp Q
        ((row.elim s (fun r => s.hold base r log)).looked log)
  | write f next, s => ∃ hf, next.wp Q (s.wrote f hf)

section Rules
variable {rows law base} {s : Local rows α ρ} {Q : β → Local rows α ρ → Prop}

theorem wp_bind {γ : Type} {Q : γ → Local rows α ρ → Prop} (p : Prog σ κ β) (k : β → Prog σ κ γ)
    (s : Local rows α ρ) :
    (p >>= k).wp rows law base Q s ↔
      p.wp rows law base (fun b s' => (k b).wp rows law base Q s') s := by
  show (p.bind k).wp rows law base Q s ↔ _
  induction p generalizing s with
  | done b => exact Iff.rfl
  | fail => exact Iff.rfl
  | read next ih => simp only [bind, wp, ih]
  | lock row keep next ih => simp only [bind, wp, ih]
  | skipLocked candidates next ih => simp only [bind, wp, ih]
  | write f next ih => simp only [bind, wp, ih]

theorem wp_mono {Q' : β → Local rows α ρ → Prop} {p : Prog σ κ β}
    (h : p.wp rows law base Q s) (hQ : ∀ b s, Q b s → Q' b s) : p.wp rows law base Q' s := by
  induction p generalizing s with
  | done b => exact hQ b s h
  | fail => trivial
  | read next ih => exact fun log hl hk => ih _ (h log hl hk)
  | lock row keep next ih => exact fun log hl hk => ih _ (h log hl hk)
  | skipLocked candidates next ih =>
    exact fun log hl hk row hrow => ih row _ (h log hl hk row hrow)
  | write f next ih => exact ⟨h.1, ih h.2⟩

@[simp] theorem wp_pure (b : β) : (pure b : Prog σ κ β).wp rows law base Q s ↔ Q b s := Iff.rfl

@[simp] theorem wp_demand {p : Prop} [Decidable p] {Q : Unit → Local rows α ρ → Prop} :
    (demand p).wp rows law base Q s ↔ (p → Q () s) := by
  unfold demand
  split_ifs with hp <;> simp [wp, hp]

@[simp] theorem wp_demandSome {o : Option β} :
    (demandSome o).wp rows law base Q s ↔ ∀ b, o = some b → Q b s := by
  cases o <;> simp [demandSome, wp]

@[simp] theorem wp_when {c : Prop} [Decidable c] {p : Prog σ κ Unit}
    {Q : Unit → Local rows α ρ → Prop} : (Prog.when c p).wp rows law base Q s ↔
      (c → p.wp rows law base Q s) ∧ (¬ c → Q () s) := by
  unfold Prog.when
  split_ifs with hc <;> simp [wp, hc]

@[simp] theorem wp_see {Q : σ → Local rows α ρ → Prop} :
    see.wp rows law base Q s ↔ ∀ log, Lawful law base log → s.knows log →
      Q (s.pending (now base log)) (s.saw log) := Iff.rfl

@[simp] theorem wp_forUpdate {row : κ} {keep : σ → Bool} {Q : σ → Local rows α ρ → Prop} :
    (forUpdate row keep).wp rows law base Q s ↔ ∀ log, Lawful law base log → s.knows log →
      Q (s.pending (now base log))
        ((if keep (s.pending (now base log)) then s.hold base row log else s).looked log) := Iff.rfl

@[simp] theorem wp_set {f : σ → σ} {Q : Unit → Local rows α ρ → Prop} :
    (set f).wp rows law base Q s ↔ ∃ hf, Q () (s.wrote f hf) := Iff.rfl

/-- The rule for a loop: an invariant that every pass keeps. -/
theorem wp_foldlM {ν : Type} {g : β → ν → Prog σ κ β} {xs : List ν} {b : β}
    (I : List ν → β → Local rows α ρ → Prop) (hI : I [] b s)
    (hstep : ∀ done x b s, x ∈ xs → done <+: xs → I done b s →
      (g b x).wp rows law base (I (done ++ [x])) s) :
    (xs.foldlM g b).wp rows law base (I xs) s := by
  suffices h : ∀ todo done b s, done ++ todo = xs → I done b s →
      (todo.foldlM g b).wp rows law base (I xs) s from h xs [] b s rfl hI
  intro todo
  induction todo with
  | nil =>
    intro done b s hsplit hI
    rw [List.append_nil] at hsplit
    exact hsplit ▸ hI
  | cons x todo ih =>
    intro done b s hsplit hI
    rw [List.foldlM_cons, wp_bind]
    have hx : x ∈ xs := hsplit ▸ List.mem_append_right done List.mem_cons_self
    have hdone : done <+: xs := ⟨x :: todo, hsplit⟩
    refine wp_mono (hstep done x b s hx hdone hI) (fun b' s' h' => ?_)
    exact ih (done ++ [x]) b' s' (by rw [List.append_assoc]; exact hsplit) h'

end Rules

/-! ### Rules for the statements -/

section Statements
variable {rows law base} {s : Local rows α ρ}

theorem wp_updateRow {row : κ} {found : σ → Bool} {f : σ → σ} {Q : Unit → Local rows α ρ → Prop}
    (hframe : ∀ r ≠ row, ∀ db, (rows r).r db (f db))
    (hfound : ∀ log, Lawful law base log → s.knows log → found (s.pending (now base log)) = true →
      ∀ hf, Q () (((s.hold base row log).looked log).wrote f hf))
    (hnone : ∀ log, Lawful law base log → s.knows log → found (s.pending (now base log)) = false →
      Q () (s.looked log)) : (updateRow row found f).wp rows law base Q s := by
  intro log hl hk
  cases hf : found (s.pending (now base log)) with
  | true =>
    dsimp only
    rw [hf, if_pos rfl, if_pos rfl]
    exact ⟨_, hfound log hl hk hf
      (fun r hr => hframe r (fun he => hr (he ▸ List.mem_cons_self)))⟩
  | false =>
    dsimp only
    rw [hf, if_neg Bool.false_ne_true, if_neg Bool.false_ne_true]
    exact hnone log hl hk hf

/-- The rule for UPDATE … WHERE: an invariant of the rows passed so far, for the moment the
rows were found. A row that still matches is locked and written, another one passed over. -/
theorem wp_updateWhere {ν : Type} {key : ν → κ} {matching : σ → List ν} {still : ν → σ → Bool}
    {f : ν → σ → σ} {Q : ℕ → Local rows α ρ → Prop}
    (I : List (Entry σ α ρ) → List ν → Local rows α ρ → Prop)
    (hframe : ∀ x, ∀ row ≠ key x, ∀ db, (rows row).r db (f x db))
    (hstart : ∀ log, Lawful law base log → s.knows log → I log [] (s.saw log))
    (hwrite : ∀ found done x s', x ∈ matching (s.pending (now base found)) → I found done s' →
      ∀ log, Lawful law base log → s'.knows log → still x (s'.pending (now base log)) = true →
      ∀ hf, I found (done ++ [x]) (((s'.hold base (key x) log).looked log).wrote (f x) hf))
    (hpass : ∀ found done x s', x ∈ matching (s.pending (now base found)) → I found done s' →
      ∀ log, Lawful law base log → s'.knows log → still x (s'.pending (now base log)) = false →
      I found (done ++ [x]) (s'.looked log))
    (hend : ∀ found n s', Lawful law base found → s.knows found →
      I found (matching (s.pending (now base found))) s' → Q n s') :
    (updateWhere key matching still f).wp rows law base Q s := by
  unfold updateWhere
  rw [wp_bind, wp_see]
  intro found hl hk
  refine wp_mono (wp_foldlM (fun done _ s' => I found done s') (hstart found hl hk) ?_)
    (fun n s' h => hend found n s' hl hk h)
  -- a row that waited for its lock is checked once more before it is written
  intro done x n s' hx _ hI log hl' hk'
  cases hstill : still x (s'.pending (now base log)) with
  | true =>
    dsimp only
    rw [hstill, if_pos rfl, if_pos rfl]
    exact ⟨fun row hrow => hframe x row (fun he => hrow (he ▸ List.mem_cons_self)),
      hwrite found done x s' hx hI log hl' hk' hstill _⟩
  | false =>
    dsimp only
    rw [hstill, if_neg Bool.false_ne_true, if_neg Bool.false_ne_true]
    exact hpass found done x s' hx hI log hl' hk' hstill

/-- An INSERT writes with all its keys locked, and found room for the row while it held them. -/
theorem wp_insert_locked {keys : List κ} {f : σ → Option σ} {Q : Unit → Local rows α ρ → Prop}
    (hne : keys ≠ []) (hframe : ∀ row ∉ keys, ∀ db, (rows row).r db ((f db).getD db))
    (hQ : ∀ s', s.Locked base keys s' →
      (∃ log, s'.knows log ∧ (f (s.pending (now base log))).isSome) →
      ∀ hf, Q () (s'.wrote (fun db => (f db).getD db) hf)) :
    (insert keys f).wp rows law base Q s := by
  -- the keys before `todo` are locked, and the last look at the store found room
  suffices h : ∀ todo done s', done ++ todo = keys → s.Locked base done s' →
      (todo = [] → ∃ log, s'.knows log ∧ (f (s.pending (now base log))).isSome) →
      (insert todo f).wp rows law base Q s' by
    exact h keys [] s rfl ⟨rfl, rfl, fun _ hk => hk, by simp, by simp⟩ (fun he => absurd he hne)
  intro todo
  induction todo with
  | nil =>
    intro done s' hsplit hlocked hlast
    rw [List.append_nil] at hsplit
    subst hsplit
    have hf : ∀ row ∉ s'.held, ∀ db, (rows row).r db ((f db).getD db) :=
      fun row hrow => hframe row (fun hd => hrow ((hlocked.held row).mpr (Or.inl hd)))
    exact ⟨hf, hQ s' hlocked (hlast rfl) hf⟩
  | cons key todo ih =>
    intro done s' hsplit hlocked _ log hl hk
    rw [if_pos rfl]
    dsimp only
    split
    case isFalse => trivial
    case isTrue hsome =>
      apply ih (done ++ [key]) ((s'.hold base key log).looked log)
        (by rw [← hsplit, List.append_assoc]; rfl)
      · exact {
          pending := hlocked.pending
          clock := hlocked.clock
          knows := fun log' hk' => hlocked.knows log' hk'.1.1
          held := fun row => by
            show row ∈ key :: s'.held ↔ _
            rw [List.mem_cons, hlocked.held, List.mem_append, List.mem_singleton]
            tauto
          still := fun row hrow log₁ log₂ h₁ h₂ => by
            rcases List.mem_append.mp hrow with hrow | hrow
            · exact hlocked.still row hrow log₁ log₂ h₁.1.1 h₂.1.1
            · obtain rfl := List.mem_singleton.mp hrow
              exact (rows row).trans ((rows row).symm h₁.1.2) h₂.1.2 }
      · intro _
        exact ⟨log, ⟨⟨hk, (rows key).refl _⟩, List.prefix_refl _⟩, hlocked.pending ▸ hsome⟩

/-- Once all its keys are locked, an INSERT that finds them free goes through. -/
theorem wp_insert {keys : List κ} {f : σ → Option σ} {Q : Unit → Local rows α ρ → Prop}
    (hne : keys ≠ [])
    (hroom : ∀ db db', (∀ row ∈ keys, (rows row).r db db') → (f db).isSome = (f db').isSome)
    (hfresh : ∀ row ∈ keys, ∀ db, (rows row).r db (s.pending db))
    (hframe : ∀ row ∉ keys, ∀ db, (rows row).r db ((f db).getD db))
    (hQ : ∀ s', s.Locked base keys s' →
      (∀ log, s'.knows log → (f (s.pending (now base log))).isSome) →
      ∀ hf, Q () (s'.wrote (fun db => (f db).getD db) hf)) :
    (insert keys f).wp rows law base Q s := by
  refine wp_insert_locked hne hframe (fun s' hlocked hroom₀ hf => hQ s' hlocked ?_ hf)
  obtain ⟨log₀, hk₀, hsome⟩ := hroom₀
  intro log hk
  rw [← hroom (s.pending (now base log₀)) _ (fun row hrow => ?_)]
  · exact hsome
  · have hsame := hlocked.still row hrow log₀ log hk₀ hk
    exact (rows row).trans ((rows row).symm (hfresh row hrow _))
      ((rows row).trans hsame (hfresh row hrow _))

end Statements

/-! ### The frame rule -/

/-- Every write of the text is a `P`. -/
def Writes (P : (σ → σ) → Prop) : Prog σ κ β → Prop
  | done _ => True
  | fail => True
  | read next => ∀ db, (next db).Writes P
  | lock _ _ next => ∀ db, (next db).Writes P
  | skipLocked _ next => ∀ row db, (next row db).Writes P
  | write f next => P f ∧ next.Writes P

section Writes
variable {P : (σ → σ) → Prop} {γ ν : Type}

theorem Writes.bind {p : Prog σ κ β} {k : β → Prog σ κ γ} (hp : p.Writes P)
    (hk : ∀ b, (k b).Writes P) : (p >>= k).Writes P := by
  show (p.bind k).Writes P
  induction p with
  | done b => exact hk b
  | fail => trivial
  | read next ih => exact fun db => ih db (hp db)
  | lock row keep next ih => exact fun db => ih db (hp db)
  | skipLocked candidates next ih => exact fun row db => ih row db (hp row db)
  | write f next ih => exact ⟨hp.1, ih hp.2⟩

theorem Writes.pure (b : β) : (Pure.pure b : Prog σ κ β).Writes P := trivial

theorem Writes.see : (Prog.see : Prog σ κ σ).Writes P := fun _ => trivial

theorem Writes.forUpdate (row : κ) (keep : σ → Bool) : (Prog.forUpdate row keep).Writes P :=
  fun _ => trivial

theorem Writes.set {f : σ → σ} (hf : P f) : (Prog.set f : Prog σ κ Unit).Writes P := ⟨hf, trivial⟩

theorem Writes.demand (p : Prop) [Decidable p] : (Prog.demand p : Prog σ κ Unit).Writes P := by
  unfold Prog.demand
  split_ifs <;> trivial

theorem Writes.demandSome (o : Option β) : (Prog.demandSome o : Prog σ κ β).Writes P := by
  cases o <;> trivial

theorem Writes.when {c : Prop} [Decidable c] {p : Prog σ κ Unit} (hp : p.Writes P) :
    (Prog.when c p).Writes P := by
  unfold Prog.when
  split_ifs
  · exact hp
  · trivial

theorem Writes.updateRow {row : κ} {found : σ → Bool} {f : σ → σ} (hf : P f) :
    (Prog.updateRow row found f).Writes P := by
  intro db
  dsimp only
  split_ifs
  · exact ⟨hf, trivial⟩
  · trivial

theorem Writes.foldlM {g : β → ν → Prog σ κ β} (hg : ∀ b x, (g b x).Writes P) (xs : List ν) :
    ∀ b, (xs.foldlM g b).Writes P := by
  induction xs with
  | nil => exact fun b => Writes.pure b
  | cons x xs ih =>
    intro b
    rw [List.foldlM_cons]
    exact (hg b x).bind ih

theorem Writes.updateWhere {key : ν → κ} {matching : σ → List ν} {still : ν → σ → Bool}
    {f : ν → σ → σ} (hf : ∀ x, P (f x)) : (Prog.updateWhere key matching still f).Writes P := by
  apply Writes.see.bind
  intro db
  apply Writes.foldlM
  intro n x db
  dsimp only
  split_ifs
  · exact ⟨hf x, trivial⟩
  · trivial

theorem Writes.insert {keys : List κ} {f : σ → Option σ} (hf : P (fun db => (f db).getD db)) :
    (Prog.insert keys f).Writes P := by
  induction keys with
  | nil => exact ⟨hf, trivial⟩
  | cons key keys ih =>
    intro db
    dsimp only
    split_ifs
    · exact ih
    · trivial

end Writes

section Frame
variable {rows law base} {same : Setoid σ} {s : Local rows α ρ}

/-- The frame rule: a text that writes nothing the law looks at only learns and locks. -/
theorem wp_frame (hsame : ∀ row db db', same.r db db' → (rows row).r db db') {p : Prog σ κ β}
    (hp : p.Writes (fun f => ∀ db, same.r db (f db))) {Q : β → Local rows α ρ → Prop}
    (hQ : ∀ b s', s.Grows same.r s' → Q b s') : p.wp rows law base Q s := by
  have hrefl : ∀ db, same.r db db := same.refl
  have htrans : ∀ {a b c}, same.r a b → same.r b c → same.r a c := same.trans
  -- over the text; each statement extends what is known or held
  induction p generalizing s with
  | done b => exact hQ b s (Local.Grows.refl hrefl s)
  | fail => trivial
  | read next ih =>
    intro log _ _
    exact ih _ (hp _) (fun b s' h => hQ b s' ((Local.Grows.saw hrefl log).trans htrans h))
  | lock row keep next ih =>
    intro log _ _
    refine ih _ (hp _) (fun b s' h => hQ b s' (Local.Grows.trans htrans ?_ h))
    refine Local.Grows.trans htrans ?_ (Local.Grows.looked hrefl log)
    split_ifs
    · exact Local.Grows.hold hrefl row log
    · exact Local.Grows.refl hrefl s
  | skipLocked candidates next ih =>
    intro log _ _ row _
    refine ih row _ (hp row _) (fun b s' h => hQ b s' (Local.Grows.trans htrans ?_ h))
    refine Local.Grows.trans htrans ?_ (Local.Grows.looked hrefl log)
    cases row with
    | none => exact Local.Grows.refl hrefl s
    | some r => exact Local.Grows.hold hrefl r log
  | write f next ih =>
    have hf : ∀ row ∉ s.held, ∀ db, (rows row).r db (f db) :=
      fun row _ db => hsame row _ _ (hp.1 db)
    exact ⟨hf, ih hp.2 (fun b s' h => hQ b s' ((Local.Grows.wrote hp.1 hf).trans htrans h))⟩

end Frame

end Prog

/-- What a transaction has to end with: its commit obeys the law. -/
def Commits (call : ρ) (a : α) (s : Local rows α ρ) : Prop :=
  ∀ log, Lawful law base log → s.knows log →
    law log ⟨call, a, s.clock, now base log, s.pending (now base log)⟩

/-- Every transaction, verified by itself, commits lawfully. -/
def Verified (code : ρ → Prog σ κ α) : Prop :=
  ∀ call, (code call).wp rows law base (Commits rows law base call) Local.start

/-- `s` is what the running transaction `t` holds, knows and has written. -/
structure Follows (c : Config σ κ α ρ ι) (i : ι) (t : Txn σ κ α ρ) (s : Local rows α ρ) : Prop where
  pending : s.pending = t.pending
  clock : s.clock = t.clock
  held : ∀ row ∈ s.held, c.owner row = some i
  knows : s.knows c.log
  stable : ∀ log log', log <+: log' →
    (∀ row ∈ s.held, (rows row).r (now base log) (now base log')) →
    s.knows log → s.knows log'

/-- The history is lawful, and every transaction under way is verified from where it is. -/
structure Sound (c : Config σ κ α ρ ι) : Prop where
  based : c.base = base
  lawful : Lawful law base c.log
  follows : ∀ i t, c.phase i = .running t → ∃ s, Follows rows base c i t s ∧
    t.prog.wp rows law base (Commits rows law base t.call) s

namespace Follows
variable {rows base} {c c' : Config σ κ α ρ ι} {i : ι} {t : Txn σ κ α ρ} {s : Local rows α ρ}

/-- A step that commits nothing and takes no lock away changes nothing for the others. -/
theorem other (h : Follows rows base c i t s) (hlog : c'.log = c.log)
    (howner : ∀ row, c.owner row = some i → c'.owner row = some i) :
    Follows rows base c' i t s where
  pending := h.pending
  clock := h.clock
  held row hrow := howner row (h.held row hrow)
  knows := hlog ▸ h.knows
  stable := h.stable

/-- A commit leaves what others know alone: it wrote no row they hold. -/
theorem committed (h : Follows rows base c i t s) {j : ι} {t' : Txn σ κ α ρ}
    {s' : Local rows α ρ} (h' : Follows rows base c j t' s') (hij : i ≠ j) {e : Entry σ α ρ}
    (hlog : c'.log = c.log ++ [e]) (he : e.after = s'.pending (now base c.log))
    (howner : ∀ row, c.owner row = some i → c'.owner row = some i) :
    Follows rows base c' i t s where
  pending := h.pending
  clock := h.clock
  held row hrow := howner row (h.held row hrow)
  knows := by
    rw [hlog]
    refine h.stable c.log _ (List.prefix_append _ _) (fun row hrow => ?_) h.knows
    rw [now_concat, he]
    apply s'.frame
    intro hrow'
    exact hij (Option.some.inj ((h.held row hrow).symm.trans (h'.held row hrow')))
  stable := h.stable

/-- The same transaction with other statements left. -/
theorem resume (h : Follows rows base c i t s) (p : Prog σ κ α) :
    Follows rows base c i { t with prog := p } s :=
  ⟨h.pending, h.clock, h.held, h.knows, h.stable⟩

/-- A look at the store adds that the history had come so far. -/
theorem looked (h : Follows rows base c i t s) : Follows rows base c i t (s.looked c.log) where
  pending := h.pending
  clock := h.clock
  held := h.held
  knows := ⟨h.knows, List.prefix_refl _⟩
  stable log log' hle hsame hk := ⟨h.stable log log' hle hsame hk.1, hk.2.trans hle⟩

/-- A read adds what it saw. -/
theorem saw (h : Follows rows base c i t s) (p : Prog σ κ α) :
    Follows rows base c i { t with prog := p, clock := t.clock ++ [c.log.length] }
      (s.saw c.log) where
  pending := h.pending
  clock := congrArg (· ++ [c.log.length]) h.clock
  held := h.held
  knows := ⟨h.knows, List.prefix_refl _⟩
  stable log log' hle hsame hk := ⟨h.stable log log' hle hsame hk.1, hk.2.trans hle⟩

/-- A lock adds the row to what stays as it is. -/
theorem hold (h : Follows rows base c i t s) {row : κ} (hlog : c'.log = c.log)
    (howner : ∀ r, c.owner r = some i → c'.owner r = some i) (hrow : c'.owner row = some i) :
    Follows rows base c' i t (s.hold base row c.log) where
  pending := h.pending
  clock := h.clock
  held r hr := by
    rcases List.mem_cons.mp hr with rfl | hr
    · exact hrow
    · exact howner r (h.held r hr)
  knows := by
    rw [hlog]
    exact ⟨h.knows, (rows row).refl _⟩
  stable log log' hle hsame hk :=
    ⟨h.stable log log' hle (fun r hr => hsame r (List.mem_cons_of_mem row hr)) hk.1,
      (rows row).trans hk.2 (hsame row List.mem_cons_self)⟩

/-- A write comes under the earlier ones. -/
theorem wrote (h : Follows rows base c i t s) {f : σ → σ}
    (hf : ∀ row ∉ s.held, ∀ db, (rows row).r db (f db)) (p : Prog σ κ α) :
    Follows rows base c i { t with prog := p, pending := fun db => f (t.pending db) }
      (s.wrote f hf) where
  pending := by
    rw [← h.pending]
    rfl
  clock := h.clock
  held := h.held
  knows := h.knows
  stable := h.stable

end Follows

section Soundness
variable {rows law base} {code : ρ → Prog σ κ α} {c c' : Config σ κ α ρ ι}

theorem Sound.init : Sound rows law base (Config.init base : Config σ κ α ρ ι) where
  based := rfl
  lawful := Lawful.nil
  follows i t ht := by simp [Config.init] at ht

theorem owner_hold_self [DecidableEq κ] {i : ι} {row : κ} :
    (c.hold i row).owner row = some i := by
  show Function.update c.owner row (some i) row = some i
  exact Function.update_self row (some i) c.owner

variable [DecidableEq ι]

theorem free_iff {i : ι} {row : κ} :
    c.free i row = true ↔ ∀ j, c.owner row = some j → j = i := by
  unfold Config.free
  cases c.owner row <;> simp

theorem owner_finish {i j : ι} (hij : j ≠ i) {r : κ} (h : c.owner r = some j) :
    (c.finish i).owner r = some j := by
  have hne : ¬ c.owner r = some i := fun hi => hij (Option.some.inj (h.symm.trans hi))
  exact (if_neg hne).trans h

/-- Sound configurations stay sound when one transaction moves on to `t'` at `s'` and the
others keep their locks. -/
theorem Sound.move (h : Sound rows law base c) {i : ι} {t' : Txn σ κ α ρ}
    {s' : Local rows α ρ} (hbase : c'.base = c.base) (hlog : c'.log = c.log)
    (hphase : c'.phase = Function.update c.phase i (.running t'))
    (howner : ∀ j ≠ i, ∀ row, c.owner row = some j → c'.owner row = some j)
    (hs' : Follows rows base c' i t' s')
    (hwp : t'.prog.wp rows law base (Commits rows law base t'.call) s') :
    Sound rows law base c' where
  based := hbase.trans h.based
  lawful := hlog ▸ h.lawful
  follows j t ht := by
    rw [hphase] at ht
    by_cases hj : j = i
    · subst hj
      rw [Function.update_self] at ht
      obtain rfl := Phase.running.inj ht
      exact ⟨s', hs', hwp⟩
    · rw [Function.update_of_ne hj] at ht
      obtain ⟨s, hs, hv⟩ := h.follows j t ht
      exact ⟨s, hs.other hlog (howner j hj), hv⟩

/-- Sound configurations stay sound when a transaction is rolled back. -/
theorem Sound.finish (h : Sound rows law base c) (i : ι) : Sound rows law base (c.finish i) where
  based := h.based
  lawful := h.lawful
  follows j t ht := by
    by_cases hj : j = i
    · subst hj
      simp [Config.finish, Config.setPhase] at ht
    · have ht' : c.phase j = .running t := by
        simpa [Config.finish, Config.setPhase, Function.update_of_ne hj] using ht
      obtain ⟨s, hs, hv⟩ := h.follows j t ht'
      exact ⟨s, hs.other rfl (fun row hrow => owner_finish hj hrow), hv⟩

/-- Sound configurations stay sound when a transaction commits. -/
theorem Sound.commit (h : Sound rows law base c) {i : ι} {t : Txn σ κ α ρ}
    {s : Local rows α ρ} (hs : Follows rows base c i t s) {a : α}
    (ha : Commits rows law base t.call a s) :
    Sound rows law base { c.finish i with
      log := c.log ++ [⟨t.call, a, t.clock, c.store, t.pending c.store⟩] } where
  based := h.based
  lawful := by
    have hlaw := ha c.log h.lawful hs.knows
    rw [hs.pending, hs.clock, ← h.based] at hlaw
    exact Lawful.concat.mpr ⟨h.lawful, by rw [← h.based]; rfl, hlaw⟩
  follows j t' ht' := by
    by_cases hj : j = i
    · subst hj
      simp [Config.finish, Config.setPhase] at ht'
    · have hrunning : c.phase j = .running t' := by
        simpa [Config.finish, Config.setPhase, Function.update_of_ne hj] using ht'
      obtain ⟨s', hs', hv⟩ := h.follows j t' hrunning
      refine ⟨s', hs'.committed hs hj rfl ?_ (fun row hrow => owner_finish hj hrow), hv⟩
      show t.pending c.store = s.pending (now base c.log)
      rw [hs.pending, Config.store, h.based]

/-- A transaction starts from nothing. -/
theorem Sound.start (h : Sound rows law base c) (hcode : Verified rows law base code) (i : ι)
    (call : ρ) : Sound rows law base (c.setPhase i (.running ⟨call, code call, id, []⟩)) := by
  have hfollows : Follows rows base (c.setPhase i (.running ⟨call, code call, id, []⟩)) i
      ⟨call, code call, id, []⟩ Local.start := {
    pending := rfl
    clock := rfl
    held := by simp [Local.start]
    knows := trivial
    stable := fun _ _ _ _ _ => trivial }
  exact h.move rfl rfl rfl (fun _ _ _ hrow => hrow) hfollows (hcode call)

variable [DecidableEq κ]

theorem owner_hold {i j : ι} {row : κ} (hfree : c.free i row = true) {r : κ}
    (h : c.owner r = some j) : (c.hold i row).owner r = some j := by
  show Function.update c.owner row (some i) r = some j
  by_cases hr : r = row
  · subst hr
    rw [Function.update_self, free_iff.mp hfree j h]
  · rw [Function.update_of_ne hr]
    exact h

/-- A transaction that was granted a row goes on with it. -/
theorem Sound.granted (h : Sound rows law base c) {i : ι} {t : Txn σ κ α ρ} {s : Local rows α ρ}
    (hfollows : Follows rows base c i t s) {row : κ} (hfree : c.free i row = true)
    {p : Prog σ κ α}
    (hwp : p.wp rows law base (Commits rows law base t.call)
      ((s.hold base row c.log).looked c.log)) :
    Sound rows law base ((c.hold i row).resume i t p) := by
  have hkept : ∀ r, c.owner r = some i → (c.hold i row).owner r = some i :=
    fun _ hr => owner_hold hfree hr
  have hheld : Follows rows base (c.hold i row) i t (s.hold base row c.log) :=
    hfollows.hold rfl hkept owner_hold_self
  exact h.move rfl rfl rfl (fun _ _ _ hr => owner_hold hfree hr)
    ((hheld.looked.resume p).other rfl (fun _ hr => hr)) hwp

/-- One statement of a verified transaction keeps the configuration sound. -/
theorem Sound.advance (h : Sound rows law base c) {i : ι} {t : Txn σ κ α ρ}
    (ht : c.phase i = .running t) {u : Unit} (hs : c.advance i t = .ok (c', u)) :
    Sound rows law base c' := by
  obtain ⟨s, hfollows, hwp⟩ := h.follows i t ht
  have hview : t.pending c.store = s.pending (now base c.log) := by
    rw [hfollows.pending, Config.store, h.based]
  unfold Config.advance at hs
  cases hprog : t.prog with
  | done a =>
    simp only [hprog, Except.ok.injEq, Prod.mk.injEq, and_true] at hs
    rw [hprog] at hwp
    exact hs ▸ h.commit hfollows hwp
  | fail =>
    simp only [hprog, Except.ok.injEq, Prod.mk.injEq, and_true] at hs
    exact hs ▸ h.finish i
  | read next =>
    simp only [hprog, Except.ok.injEq, Prod.mk.injEq, and_true] at hs
    rw [hprog] at hwp
    subst hs
    -- a read sees what is committed now and what the transaction wrote itself
    refine h.move rfl rfl rfl (fun _ _ _ hrow => hrow)
      ((hfollows.saw _).other rfl (fun _ hrow => hrow)) ?_
    rw [hview]
    exact hwp c.log h.lawful hfollows.knows
  | lock row keep next =>
    simp only [hprog] at hs
    rw [hprog] at hwp
    -- the lock waits for its holder, so the row is as committed when it is granted
    have hgo := hwp c.log h.lawful hfollows.knows
    rw [← hview] at hgo
    split at hs
    case isFalse => exact absurd hs (by simp)
    case isTrue hfree =>
      simp only [Except.ok.injEq, Prod.mk.injEq, and_true] at hs
      subst hs
      split at hgo
      case isTrue hkeep =>
        rw [if_pos hkeep]
        exact h.granted hfollows hfree hgo
      case isFalse hkeep =>
        rw [if_neg hkeep]
        exact h.move rfl rfl rfl (fun _ _ _ hrow => hrow)
          ((hfollows.looked.resume _).other rfl (fun _ hrow => hrow)) hgo
  | skipLocked candidates next =>
    simp only [hprog, Except.ok.injEq, Prod.mk.injEq, and_true] at hs
    rw [hprog] at hwp
    -- a row that nobody holds is among the candidates of the view
    have hfind : ∀ r ∈ (candidates (t.pending c.store)).find? (c.free i),
        r ∈ candidates (s.pending (now base c.log)) := by
      intro r hr
      rw [← hview]
      exact List.mem_of_find?_eq_some hr
    have hgo := hwp c.log h.lawful hfollows.knows _ hfind
    rw [← hview] at hgo
    subst hs
    cases hrow : (candidates (t.pending c.store)).find? (c.free i) with
    | none =>
      rw [hrow] at hgo
      exact h.move rfl rfl rfl (fun _ _ _ hrow => hrow)
        ((hfollows.looked.resume _).other rfl (fun _ hrow => hrow)) hgo
    | some row =>
      rw [hrow] at hgo
      exact h.granted hfollows (List.find?_some hrow) hgo
  | write f next =>
    simp only [hprog, Except.ok.injEq, Prod.mk.injEq, and_true] at hs
    rw [hprog] at hwp
    -- a write changes rows that are held, and nothing committed
    obtain ⟨hf, hgo⟩ := hwp
    subst hs
    exact h.move rfl rfl rfl (fun _ _ _ hrow => hrow)
      ((hfollows.wrote hf _).other rfl (fun _ hrow => hrow)) hgo

/-- Every step of an interleaving keeps the configuration sound. -/
theorem Sound.step (hcode : Verified rows law base code) {ch : Choice ρ ι} {u : Unit}
    (h : Sound rows law base c) (hs : step code ch c = .ok (c', u)) : Sound rows law base c' := by
  cases ch with
  | start i call =>
    simp only [ReadCommitted.step] at hs
    split at hs
    · simp only [Except.ok.injEq, Prod.mk.injEq, and_true] at hs
      exact hs ▸ h.start hcode i call
    · exact absurd hs (by simp)
  | run i =>
    simp only [ReadCommitted.step] at hs
    split at hs
    next t ht => exact h.advance ht hs
    next => exact absurd hs (by simp)
  | cancel i =>
    simp only [ReadCommitted.step] at hs
    split at hs
    · simp only [Except.ok.injEq, Prod.mk.injEq, and_true] at hs
      exact hs ▸ h.finish i
    · exact absurd hs (by simp)

/-- Transactions that are each verified by themselves have a lawful history under every
interleaving of their statements. -/
theorem lawful_committed (hcode : Verified rows law base code) (schedule : List (Choice ρ ι)) :
    Lawful law base (committed code base schedule) := by
  have hsound : Sound rows law base
      (run (ReadCommitted.step code) (Config.init base : Config σ κ α ρ ι) schedule) :=
    run_invariant (ReadCommitted.step code) (fun ch c c' u h hs => h.step hcode hs)
      Sound.init schedule
  exact hsound.lawful

end Soundness

end Logic

end ReadCommitted
