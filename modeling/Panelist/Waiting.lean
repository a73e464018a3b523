import Panelist.Effects

/-! How long a task waits. What an expert may be served stands in a line, every claim takes one
task out of the lines it is in, and the expert's own claims take the head. -/
namespace Panelist
open Relational Transaction

/-! ### Lines -/

section Lines
variable {α : Type} [DecidableEq α] {line : List α} {a b : α}

/-- Whoever is taken, nobody else falls back. -/
theorem idxOf_erase_le (line : List α) (hab : a ≠ b) : (line.erase a).idxOf b ≤ line.idxOf b := by
  induction line with
  | nil => exact le_rfl
  | cons c line ih =>
    by_cases hca : c = a
    · subst hca
      rw [List.erase_cons_head, List.idxOf_cons_ne line hab]
      exact Nat.le_succ _
    · rw [List.erase_cons_tail (by simpa using hca)]
      by_cases hcb : c = b
      · subst hcb
        rw [List.idxOf_cons_self]
        exact Nat.zero_le _
      · rw [List.idxOf_cons_ne _ hcb, List.idxOf_cons_ne _ hcb]
        exact Nat.succ_le_succ ih

/-- When the head is taken, everyone moves up. -/
theorem idxOf_erase_head (hhead : line.head? = some a) (hab : a ≠ b) :
    (line.erase a).idxOf b + 1 = line.idxOf b := by
  obtain ⟨rest, rfl⟩ := List.head?_eq_some_iff.mp hhead
  rw [List.erase_cons_head, List.idxOf_cons_ne rest hab]

end Lines

/-! ### The order of the queue -/

/-- What `ORDER BY priority DESC, deadline ASC NULLS LAST, seq ASC` compares. -/
def Task.rankKey (t : Task) : ℤ ×ₗ WithTop Time ×ₗ ℕ :=
  toLex (-t.priority, toLex (t.deadline.elim ⊤ (fun due => (due : WithTop Time)), t.seq))

theorem pickBefore_iff (a b : Task) : pickBefore a b = true ↔ a.rankKey ≤ b.rankKey := by
  rw [pickBefore, Task.rankKey, Task.rankKey, Prod.Lex.toLex_le_toLex, Prod.Lex.toLex_le_toLex,
    Bool.or_eq_true, Bool.and_eq_true, decide_eq_true_eq, decide_eq_true_eq, neg_lt_neg_iff,
    neg_inj]
  -- a missing deadline counts as later than any other
  cases a.deadline with
  | none =>
    cases b.deadline with
    | none => simp
    | some y => simp
  | some x =>
    cases b.deadline with
    | none => simp
    | some y => simp

instance : Std.Total (fun a b : Task => pickBefore a b = true) :=
  ⟨fun a b => by
    rw [pickBefore_iff, pickBefore_iff]
    exact le_total _ _⟩

instance : IsTrans Task (fun a b => pickBefore a b = true) :=
  ⟨fun a b c hab hbc => by
    rw [pickBefore_iff] at hab hbc ⊢
    exact hab.trans hbc⟩

/-- Two stored tasks never rank the same. -/
theorem eq_of_pickBefore {T : Table Task} {a b : Task} (ha : a ∈ T) (hb : b ∈ T)
    (hab : pickBefore a b = true) (hba : pickBefore b a = true) : a = b := by
  rw [pickBefore_iff] at hab hba
  have hkey : a.rankKey = b.rankKey := le_antisymm hab hba
  have hseq : a.seq = b.seq := congrArg (fun k => (ofLex (ofLex k).2).2) hkey
  exact T.eq_of_clash ha hb (Or.inr hseq)

/-! ### The line of an expert -/

/-- What `_pick` selects from, in its order. -/
def queue (db : Db) (expert : Expert) (golden : Bool) : List Task :=
  (db.tasks.rows.filter (fun t =>
      eligibility db expert t && (t.isAttentionCheck == golden))).insertionSort
    (fun a b => pickBefore a b)

def line (db : Db) (expert : Expert) (golden : Bool) : List Uuid :=
  (queue db expert golden).map Task.id

section Line
variable {db : Db} {e : Expert} {golden : Bool} {t : Task}

theorem mem_queue : t ∈ queue db e golden ↔
    t ∈ db.tasks ∧ eligibility db e t = true ∧ t.isAttentionCheck = golden := by
  rw [queue, List.mem_insertionSort, List.mem_filter, Bool.and_eq_true, beq_iff_eq]
  exact Iff.rfl

theorem queue_ordered : (queue db e golden).Pairwise (fun a b => pickBefore a b = true) :=
  List.pairwise_insertionSort _ _

theorem queue_nodup : (queue db e golden).Nodup :=
  (List.perm_insertionSort _ _).nodup_iff.mpr (db.tasks.nodup.filter _)

theorem line_nodup : (line db e golden).Nodup := by
  apply queue_nodup.map_on
  intro a ha b hb hid
  exact db.tasks.eq_of_pk (mem_queue.mp ha).1 (mem_queue.mp hb).1 hid

theorem mem_line {k : Uuid} : k ∈ line db e golden ↔
    ∃ t, db.tasks.get k = some t ∧ eligibility db e t = true ∧ t.isAttentionCheck = golden := by
  rw [line, List.mem_map]
  constructor
  · rintro ⟨t, ht, rfl⟩
    obtain ⟨hmem, h⟩ := mem_queue.mp ht
    exact ⟨t, db.tasks.get_of_mem hmem, h⟩
  · rintro ⟨t, ht, h⟩
    exact ⟨t, mem_queue.mpr ⟨Table.get_mem ht, h⟩, Table.get_pk ht⟩

/-- A list of stored tasks in the order of the queue is determined by its members. -/
theorem ordered_unique {l l' : List Task} (hl : l.Pairwise (fun a b => pickBefore a b = true))
    (hl' : l'.Pairwise (fun a b => pickBefore a b = true)) (hperm : l.Perm l')
    (hmem : ∀ t ∈ l, t ∈ db.tasks) : l = l' := by
  apply hperm.eq_of_pairwise _ hl hl'
  intro a b ha hb hab hba
  exact eq_of_pickBefore (hmem a ha) (hmem b (hperm.mem_iff.mpr hb)) hab hba

theorem assign_rows (env : Env) (db : Db) (t : Task) (e : Expert) :
    (assign env db t e).1.tasks.rows =
      db.tasks.rows.map (fun r => if r.id = t.id then r.assignTo env e.id else r) := by
  have hrows := Table.rows_updateWhere db.tasks (fun r => decide (pk r = t.id))
    (Task.assignTo env e.id) (fun _ => rfl)
  apply hrows.trans
  apply List.map_congr_left
  intro r _
  rw [show pk r = r.id from rfl]
  by_cases h : r.id = t.id <;> simp [h]

/-- The rights of an expert, the grades and the other tasks are as before, so a lease takes its
task out of every line. -/
theorem queue_leased (env : Env) (db : Db) (t : Task) (e' e : Expert) (golden : Bool) :
    queue (assign env db t e').1 e golden =
      (queue db e golden).filter (fun x => decide (x.id ≠ t.id)) := by
  have hleft : (assign env db t e').1.tasks.rows.filter (fun x =>
      eligibility (assign env db t e').1 e x && (x.isAttentionCheck == golden)) =
      (db.tasks.rows.filter (fun x =>
        eligibility db e x && (x.isAttentionCheck == golden))).filter
          (fun x => decide (x.id ≠ t.id)) := by
    rw [assign_rows, List.filter_map, List.filter_filter]
    have hkept : ∀ r : Task, r.id ≠ t.id →
        (if r.id = t.id then r.assignTo env e'.id else r) = r := fun r hr => if_neg hr
    have hsame : db.tasks.rows.filter ((fun x =>
        eligibility (assign env db t e').1 e x && (x.isAttentionCheck == golden)) ∘
          fun r => if r.id = t.id then r.assignTo env e'.id else r) =
        db.tasks.rows.filter (fun x =>
          decide (x.id ≠ t.id) && (eligibility db e x && (x.isAttentionCheck == golden))) := by
      apply List.filter_congr
      intro r _
      by_cases hr : r.id = t.id
      · -- the leased row is not in the queue any more
        simp [hr, eligibility, Task.assignTo]
      · rw [Function.comp_apply, hkept r hr, decide_eq_true hr, Bool.true_and]
        rfl
    rw [hsame]
    apply (List.map_congr_left _).trans (List.map_id _)
    intro r hr
    have hne := (Bool.and_eq_true_iff.mp (List.mem_filter.mp hr).2).1
    exact hkept r (of_decide_eq_true hne)
  -- both lines are sorted and without repeated places, so it is enough to compare members
  have hsub : ((queue db e golden).filter (fun x => decide (x.id ≠ t.id))).Sublist
      (queue db e golden) := List.filter_sublist
  symm
  refine @ordered_unique db _ _ (queue_ordered.sublist hsub) queue_ordered ?_ ?_
  · unfold queue
    rw [hleft]
    exact ((List.perm_insertionSort _ _).filter _).trans (List.perm_insertionSort _ _).symm
  · intro x hx
    exact (mem_queue.mp (hsub.subset hx)).1

theorem line_assign (env : Env) (db : Db) (t : Task) (e' e : Expert) (golden : Bool) :
    line (assign env db t e').1 e golden = (line db e golden).erase t.id := by
  rw [line, queue_leased, line_nodup.erase_eq_filter, line, List.filter_map]
  congr 1
  apply List.filter_congr
  intro x _
  by_cases h : x.id = t.id <;> simp [h]

end Line

/-! ### Claims while no lease expires -/

/-- A call of one of the two claims. -/
def Request.isClaim (q : Request) : Bool :=
  match q.op with
  | .claimNext _ => true
  | .claimById _ _ => true
  | _ => false

/-- The call is answered with a golden task. -/
def Request.servesGolden (q : Request) (db : Db) : Bool :=
  match step q db with
  | .ok (_, .claimed (some t)) => t.isAttentionCheck
  | _ => false

/-- A call of `claim_next` by this expert that is not answered with golden work. -/
def Request.asks (expertId : Uuid) (db : Db) (q : Request) : Bool :=
  match q.op with
  | .claimNext id => decide (id = expertId) && !q.servesGolden db
  | _ => false

/-- How many of the calls are such, each in the state it is made in. -/
def asksAlong (expertId : Uuid) : Db → List Request → ℕ
  | _, [] => 0
  | db, q :: qs =>
    asksAlong expertId (commit step q db) qs + if q.asks expertId db = true then 1 else 0

/-- No lease runs out during the calls, neither one there is nor one they make. -/
structure Lull (db : Db) (qs : List Request) : Prop where
  leases : ∀ q ∈ qs, ∀ t ∈ db.tasks, t.leaseExpired q.env.now = false
  clock : qs.Pairwise
    (fun q q' => q'.env.now ≤ q.env.now + q.env.settings.leaseSeconds * 1000000)

/-- Nothing that a claim goes by has changed. -/
structure Expert.SameRights (e e' : Expert) : Prop where
  id : e'.id = e.id
  tags : e'.tags = e.tags
  tier : e'.tier = e.tier
  status : e'.status = e.status

section Claims
variable {q : Request} {qs : List Request} {db : Db} {e e' : Expert} {golden : Bool} {t b : Task}

theorem reclaimExpired_lull {env : Env} (h : ∀ t ∈ db.tasks, t.leaseExpired env.now = false) :
    (reclaimExpired env db).1 = db := by
  have htasks : db.tasks.updateWhere (Task.leaseExpired env.now) Task.reclaimed = db.tasks := by
    apply Table.ext
    have hrows := Table.rows_updateWhere db.tasks (Task.leaseExpired env.now) Task.reclaimed
      (fun _ => rfl)
    apply hrows.trans ((List.map_congr_left _).trans (List.map_id _))
    intro t ht
    exact if_neg (by rw [h t ht]; decide)
  unfold reclaimExpired
  rw [htasks]

theorem eligibility_rights (h : e.SameRights e') (db : Db) (t : Task) :
    eligibility db e' t = eligibility db e t := by
  unfold eligibility
  rw [h.id, h.tags, h.tier]

theorem queue_rights (h : e.SameRights e') (db : Db) (golden : Bool) :
    queue db e' golden = queue db e golden := by
  unfold queue
  simp only [eligibility_rights h]

/-- A claim makes a lease of a queued task for an active expert, or changes nothing. -/
theorem claim_commit (hq : q.isClaim = true)
    (hlull : ∀ t ∈ db.tasks, t.leaseExpired q.env.now = false) :
    commit step q db = db ∨ ∃ x t, db.experts.get x.id = some x ∧ x.status = .active ∧
      db.tasks.get t.id = some t ∧ t.status = .queued ∧
        commit step q db = (assign q.env db t x).1 := by
  rcases commit_cases step q db with ⟨_, hok⟩ | ⟨-, hstays⟩
  · generalize commit step q db = db' at hok ⊢
    unfold Request.isClaim at hq
    unfold step at hok
    split at hq
    · rename_i id hop
      rw [hop] at hok
      obtain ⟨_, hclaim, -⟩ := answer_ok hok
      -- no lease runs out, so a claim that serves nothing changes nothing
      obtain ⟨x, hx, hactive, ⟨hdb, -⟩ | ⟨t, ht, helig, hdb⟩⟩ := claimNext_ok hclaim
      · left
        rw [hdb, reclaimExpired_lull hlull]
      · right
        rw [reclaimExpired_lull hlull] at ht helig hdb
        obtain rfl := Table.get_pk hx
        exact ⟨x, t, hx, hactive, db.tasks.get_of_mem ht, (eligibility_iff.mp helig).1,
          congrArg Prod.fst hdb⟩
    · rename_i id k hop
      rw [hop] at hok
      obtain ⟨_, hclaim, -⟩ := answer_ok hok
      obtain ⟨x, t, hx, hactive, ht, hqueued, -, -, hdb⟩ := claimById_ok_iff.mp hclaim
      right
      rw [reclaimExpired_lull hlull] at ht hdb
      obtain rfl := Table.get_pk hx
      obtain rfl := Table.get_pk ht
      exact ⟨x, t, hx, hactive, ht, hqueued, (congrArg Prod.fst hdb).symm⟩
    · exact absurd hq (by decide)
  · exact Or.inl hstays

/-- An expert who is not given golden work gets the head of the line. -/
theorem ask_commit (hq : q.asks e.id db = true)
    (hlull : ∀ t ∈ db.tasks, t.leaseExpired q.env.now = false)
    (hget : db.experts.get e.id = some e') (hactive : e'.status = .active)
    (hhead : (queue db e' false).head? = some t) :
    commit step q db = (assign q.env db t e').1 := by
  unfold Request.asks at hq
  split at hq
  · rename_i id hop
    rw [Bool.and_eq_true, decide_eq_true_eq] at hq
    obtain ⟨rfl, hregular⟩ := hq
    have hserved {picked : Task} (hc : claimCandidate q.env db e' = some picked) :
        step q db = .ok ((assign q.env db picked e').1,
          .claimed (some (assign q.env db picked e').2)) := by
      have hclaim : claimNext q.env db e.id =
          .ok ((assign q.env db picked e').1, some (assign q.env db picked e').2) := by
        simp only [claimNext, currentExpert, bind_ok_iff, orFail_ok_iff, require_ok_iff,
          exists_const]
        refine ⟨e', hget, hactive, ?_⟩
        rw [reclaimExpired_lull hlull, hc]
        rfl
      unfold step
      rw [hop]
      dsimp only
      rw [hclaim]
      rfl
    have hcandidate : claimCandidate q.env db e' = some t := by
      cases hgolden : (if prefersAttentionCheck q.env e'.id (e'.servedCount + 1) = true
          then pick db e' true else none) with
      | none =>
        rw [claimCandidate, hgolden]
        exact hhead
      | some g =>
        -- then the answer would have been golden
        have hstep := @hserved g (by rw [claimCandidate, hgolden]; rfl)
        have hpick : pick db e' true = some g := by
          split_ifs at hgolden
          exact hgolden
        have hg : g.isAttentionCheck = true := (mem_queue.mp (List.mem_of_mem_head? hpick)).2.2
        rw [Request.servesGolden, hstep] at hregular
        exact absurd hregular (by simp [assign, Task.assignTo, hg])
    exact commit_of_ok step (hserved hcandidate)
  · exact absurd hq (by decide)

theorem rights_assign (env : Env) (t : Task) (x : Expert) (hget : db.experts.get e.id = some e')
    (h : e.SameRights e') : ∃ e'', (assign env db t x).1.experts.get e.id = some e'' ∧
      e.SameRights e'' := by
  have hexperts := Table.get_update db.experts x.id Expert.served (fun _ => rfl) e.id
  by_cases hx : x.id = e.id
  · rw [if_pos hx, hget] at hexperts
    exact ⟨e'.served, hexperts, ⟨h.id, h.tags, h.tier, h.status⟩⟩
  · rw [if_neg hx] at hexperts
    exact ⟨e', hexperts.trans hget, h⟩

/-- The lease a claim makes runs until after the later calls. -/
theorem lull_assign {x : Expert} (h : Lull db (q :: qs)) :
    Lull (assign q.env db t x).1 qs where
  leases q' hq' r hr := by
    have hold := h.leases q' (List.mem_cons_of_mem _ hq')
    have hclock := (List.pairwise_cons.mp h.clock).1 q' hq'
    have hrow : r ∈ (assign q.env db t x).1.tasks.rows := hr
    rw [assign_rows, List.mem_map] at hrow
    obtain ⟨s, hs, rfl⟩ := hrow
    split_ifs with hk
    · have hlate : ¬ q.env.now + q.env.settings.leaseSeconds * 1000000 < q'.env.now :=
        not_lt.mpr hclock
      simp [Task.leaseExpired, Task.assignTo, hlate]
    · exact hold s hs
  clock := (List.pairwise_cons.mp h.clock).2

theorem Lull.tail (h : Lull db (q :: qs)) : Lull db qs where
  leases q' hq' := h.leases q' (List.mem_cons_of_mem _ hq')
  clock := (List.pairwise_cons.mp h.clock).2

/-- One claim: what the lines and the experts are like afterwards. -/
theorem claim_line (hq : q.isClaim = true) (hlull : Lull db (q :: qs))
    (hget : db.experts.get e.id = some e') (hrights : e.SameRights e') :
    ∃ e'', (commit step q db).experts.get e.id = some e'' ∧ e.SameRights e'' ∧
      Lull (commit step q db) qs ∧
      ∀ golden, line (commit step q db) e golden = line db e golden ∨
        ∃ k, line (commit step q db) e golden = (line db e golden).erase k := by
  rcases claim_commit hq (hlull.leases q List.mem_cons_self) with
    hstays | ⟨x, t, -, -, -, -, hdb⟩
  · rw [hstays]
    exact ⟨e', hget, hrights, hlull.tail, fun golden => Or.inl rfl⟩
  · rw [hdb]
    obtain ⟨e'', hget', hrights'⟩ := rights_assign q.env t x hget hrights
    exact ⟨e'', hget', hrights', lull_assign hlull,
      fun golden => Or.inr ⟨t.id, line_assign q.env db t x e golden⟩⟩

/-- The lines only shrink. -/
theorem line_run (hclaims : ∀ q ∈ qs, q.isClaim = true) (hlull : Lull db qs)
    (hget : db.experts.get e.id = some e') (hrights : e.SameRights e') {k : Uuid}
    (hk : k ∈ line (run step db qs) e golden) : k ∈ line db e golden := by
  induction qs generalizing db e' with
  | nil => exact hk
  | cons q qs ih =>
    obtain ⟨hq, hclaims⟩ := List.forall_mem_cons.mp hclaims
    obtain ⟨e'', hget', hrights', hlull', hline⟩ := claim_line hq hlull hget hrights
    have hlater := ih hclaims hlull' hget' hrights' hk
    rcases hline golden with hsame | ⟨_, herase⟩
    · rwa [hsame] at hlater
    · rw [herase] at hlater
      exact List.mem_of_mem_erase hlater

/-- Who is still in the line has moved up by one with every call of the expert that golden work
did not answer. -/
theorem idxOf_run (hclaims : ∀ q ∈ qs, q.isClaim = true) (hlull : Lull db qs)
    (hget : db.experts.get e.id = some e') (hrights : e.SameRights e')
    (hactive : e.status = .active) {k : Uuid} (hk : k ∈ line (run step db qs) e false) :
    (line (run step db qs) e false).idxOf k + asksAlong e.id db qs ≤
      (line db e false).idxOf k := by
  induction qs generalizing db e' with
  | nil => exact le_rfl
  | cons q qs ih =>
    have hthere := line_run hclaims hlull hget hrights hk
    obtain ⟨hq, hclaims⟩ := List.forall_mem_cons.mp hclaims
    obtain ⟨e'', hget', hrights', hlull', hline⟩ := claim_line hq hlull hget hrights
    have hstill := line_run hclaims hlull' hget' hrights' hk
    have hlater := ih hclaims hlull' hget' hrights' hk
    have hstep : (line (commit step q db) e false).idxOf k +
        (if q.asks e.id db = true then 1 else 0) ≤ (line db e false).idxOf k := by
      by_cases hasks : q.asks e.id db = true
      -- the expert's own call takes the head of the line
      · rw [if_pos hasks]
        obtain ⟨t, ht⟩ : ∃ t, (queue db e' false).head? = some t := by
          rw [queue_rights hrights, ← Option.isSome_iff_exists, List.isSome_head?]
          intro hempty
          rw [line, hempty] at hthere
          exact absurd hthere List.not_mem_nil
        have hhead : (line db e false).head? = some t.id := by
          rw [line, ← queue_rights hrights, List.head?_map, ht]
          rfl
        have hafter : line (commit step q db) e false = (line db e false).erase t.id := by
          rw [ask_commit hasks (hlull.leases q List.mem_cons_self) hget
            (hrights.status.trans hactive) ht, line_assign]
        have hne : t.id ≠ k := by
          rintro rfl
          rw [hafter] at hstill
          exact line_nodup.not_mem_erase hstill
        rw [hafter]
        exact (idxOf_erase_head hhead hne).le
      -- somebody else's call takes any one task, or none
      · rw [if_neg hasks, Nat.add_zero]
        rcases hline false with hsame | ⟨j, herase⟩
        · rw [hsame]
        · have hne : j ≠ k := by
            rintro rfl
            rw [herase] at hstill
            exact line_nodup.not_mem_erase hstill
          rw [herase]
          exact idxOf_erase_le _ hne
    rw [run_cons, asksAlong]
    omega

theorem get_assign (env : Env) (db : Db) (t : Task) (x : Expert) (k : Uuid) :
    (assign env db t x).1.tasks.get k =
      if t.id = k then (db.tasks.get k).map (Task.assignTo env x.id) else db.tasks.get k :=
  Table.get_update db.tasks t.id (Task.assignTo env x.id) (fun _ => rfl) k

/-- A task is as it was, or one of the calls has leased it. -/
theorem row_run (hclaims : ∀ q ∈ qs, q.isClaim = true) (hlull : Lull db qs) {k : Uuid}
    (hget : db.tasks.get k = some t) : (run step db qs).tasks.get k = some t ∨
      t.status = .queued ∧ ∃ q ∈ qs, ∃ holder,
        (run step db qs).tasks.get k = some (t.assignTo q.env holder) := by
  induction qs generalizing db t with
  | nil => exact Or.inl hget
  | cons q qs ih =>
    obtain ⟨hq, hclaims⟩ := List.forall_mem_cons.mp hclaims
    -- as long as the row is not touched it is the rest of the calls that decides
    have hkept {db₁ : Db} (hlull₁ : Lull db₁ qs) (hget₁ : db₁.tasks.get k = some t) :
        (run step db₁ qs).tasks.get k = some t ∨ t.status = .queued ∧ ∃ p ∈ q :: qs, ∃ holder,
          (run step db₁ qs).tasks.get k = some (t.assignTo p.env holder) := by
      rcases ih hclaims hlull₁ hget₁ with hsame | ⟨hqueued, p, hp, holder, hrow⟩
      · exact Or.inl hsame
      · exact Or.inr ⟨hqueued, p, List.mem_cons_of_mem _ hp, holder, hrow⟩
    rw [run_cons]
    rcases claim_commit hq (hlull.leases q List.mem_cons_self) with
      hstays | ⟨x, s, -, -, hs, hqueued, hdb⟩
    · rw [hstays]
      exact hkept hlull.tail hget
    · rw [hdb]
      have hrow := get_assign q.env db s x k
      by_cases hk : s.id = k
      · -- a lease stays as it is during the other calls
        rw [if_pos hk, hget] at hrow
        obtain rfl : s = t := by
          rw [hk, hget] at hs
          exact (Option.some.inj hs).symm
        have hleased : (s.assignTo q.env x.id).status ≠ .queued := by
          have h : (s.assignTo q.env x.id).status = .assigned := rfl
          rw [h]
          decide
        rcases ih hclaims (lull_assign hlull) hrow with hsame | ⟨hno, -⟩
        · exact Or.inr ⟨hqueued, q, List.mem_cons_self, x.id, hsame⟩
        · exact absurd hno hleased
      · rw [if_neg hk, hget] at hrow
        exact hkept (lull_assign hlull) hrow

theorem grades_run (hclaims : ∀ q ∈ qs, q.isClaim = true) (hlull : Lull db qs) :
    (run step db qs).grades = db.grades := by
  induction qs generalizing db with
  | nil => rfl
  | cons q qs ih =>
    obtain ⟨hq, hclaims⟩ := List.forall_mem_cons.mp hclaims
    rw [run_cons]
    rcases claim_commit hq (hlull.leases q List.mem_cons_self) with
      hstays | ⟨x, t, -, -, -, -, hdb⟩
    · rw [hstays]
      exact ih hclaims hlull.tail
    · rw [hdb]
      exact ih hclaims (lull_assign hlull)

/-- A task that no call has leased is still in every line it was in. -/
theorem line_kept (hclaims : ∀ q ∈ qs, q.isClaim = true) (hlull : Lull db qs) {k : Uuid}
    (hrow : (run step db qs).tasks.get k = db.tasks.get k) (hk : k ∈ line db e golden) :
    k ∈ line (run step db qs) e golden := by
  obtain ⟨t, ht, helig, hgolden⟩ := mem_line.mp hk
  refine mem_line.mpr ⟨t, hrow.trans ht, ?_, hgolden⟩
  rw [← helig]
  unfold eligibility alreadyGraded
  rw [grades_run hclaims hlull]

/-- A call of `claim_next` leases the first task of one of the two queues of its expert. -/
theorem next_commit {id : Uuid} (hop : q.op = .claimNext id)
    (hlull : ∀ t ∈ db.tasks, t.leaseExpired q.env.now = false) :
    commit step q db = db ∨ ∃ x t golden, db.experts.get id = some x ∧
      (queue db x golden).head? = some t ∧ commit step q db = (assign q.env db t x).1 := by
  rcases commit_cases step q db with ⟨_, hok⟩ | ⟨-, hstays⟩
  · generalize commit step q db = db' at hok ⊢
    unfold step at hok
    rw [hop] at hok
    obtain ⟨_, hclaim, -⟩ := answer_ok hok
    simp only [claimNext, currentExpert, bind_ok_iff, orFail_ok_iff, require_ok_iff,
      exists_const] at hclaim
    obtain ⟨x, hx, -, hm⟩ := hclaim
    rw [reclaimExpired_lull hlull] at hm
    cases hcandidate : claimCandidate q.env db x with
    | none =>
      rw [hcandidate] at hm
      exact Or.inl (congrArg Prod.fst (pure_ok_iff.mp hm)).symm
    | some t =>
      rw [hcandidate] at hm
      -- golden work first, if it is preferred, else the regular queue
      have hhead : ∃ golden, (queue db x golden).head? = some t := by
        unfold claimCandidate at hcandidate
        rcases Option.or_eq_some_iff.mp hcandidate with hgolden | ⟨-, hregular⟩
        · split_ifs at hgolden
          exact ⟨true, hgolden⟩
        · exact ⟨false, hregular⟩
      obtain ⟨golden, hhead⟩ := hhead
      exact Or.inr ⟨x, t, golden, hx, hhead, (congrArg Prod.fst (pure_ok_iff.mp hm)).symm⟩
  · exact Or.inl hstays

/-- The head of a queue comes before everything in it. -/
theorem head_first {k : Uuid} (hhead : (queue db e golden).head? = some t)
    (hget : db.tasks.get k = some b) (hk : k ∈ line db e golden) : pickBefore t b = true := by
  obtain ⟨s, hs, h⟩ := mem_line.mp hk
  obtain rfl : b = s := Option.some.inj (hget.symm.trans hs)
  have hmem : b ∈ queue db e golden := mem_queue.mpr ⟨Table.get_mem hs, h⟩
  obtain ⟨rest, hrest⟩ := List.head?_eq_some_iff.mp hhead
  have hordered : (queue db e golden).Pairwise (fun a b => pickBefore a b = true) := queue_ordered
  rw [hrest] at hordered hmem
  rcases List.mem_cons.mp hmem with rfl | hmem
  · exact (pickBefore_iff b b).mpr le_rfl
  · exact (List.pairwise_cons.mp hordered).1 b hmem

theorem isClaim_of_next (hnext : ∀ q ∈ qs, ∃ id, q.op = .claimNext id) :
    ∀ q ∈ qs, q.isClaim = true := by
  intro q hq
  obtain ⟨id, hop⟩ := hnext q hq
  rw [Request.isClaim, hop]

/-- The task is the expert's, by a lease. -/
def Held (db : Db) (t : Task) (expertId : Uuid) : Prop := ∃ t', db.tasks.get t.id = some t' ∧
  t'.status = .assigned ∧ t'.assignedExpertId = some expertId

theorem order_run (hnext : ∀ q ∈ qs, ∃ id, q.op = .claimNext id) (hlull : Lull db qs)
    (hget : db.experts.get e.id = some e') (hrights : e.SameRights e')
    (ht : db.tasks.get t.id = some t) (hqueued : t.status = .queued)
    (hb : db.tasks.get b.id = some b) (hheld : Held (run step db qs) t e.id)
    (hleft : b.id ∈ line (run step db qs) e t.isAttentionCheck) : pickBefore t b = true := by
  have hclaims := isClaim_of_next hnext
  induction qs generalizing db e' with
  | nil =>
    obtain ⟨t', ht', hassigned, -⟩ := hheld
    obtain rfl : t = t' := Option.some.inj (ht.symm.trans ht')
    rw [hqueued] at hassigned
    exact absurd hassigned (by decide)
  | cons q qs ih =>
    have hthere := line_run hclaims hlull hget hrights hleft
    obtain ⟨⟨id, hop⟩, hnext⟩ := List.forall_mem_cons.mp hnext
    obtain ⟨-, hclaims⟩ := List.forall_mem_cons.mp hclaims
    rw [run_cons] at hheld hleft
    rcases next_commit hop (hlull.leases q List.mem_cons_self) with
      hstays | ⟨x, s, golden, hx, hhead, hdb⟩
    · rw [hstays] at hheld hleft
      exact ih hnext hlull.tail hget hrights ht hb hheld hleft hclaims
    · rw [hdb] at hheld hleft
      have hs := mem_queue.mp (List.mem_of_mem_head? hhead)
      have hrow := get_assign q.env db s x t.id
      by_cases hk : s.id = t.id
      · -- this is the call that has leased `t`, so its expert is the holder
        rw [if_pos hk, ht] at hrow
        obtain rfl : s = t := db.tasks.eq_of_pk hs.1 (Table.get_mem ht) hk
        have hkept := row_run hclaims (lull_assign hlull) hrow
        obtain ⟨t', ht', -, hholder⟩ := hheld
        have hlease : (s.assignTo q.env x.id).status = .assigned := rfl
        rcases hkept with hsame | ⟨hno, -⟩
        · obtain rfl : s.assignTo q.env x.id = t' := Option.some.inj (hsame.symm.trans ht')
          have hxe : x.id = e.id := Option.some.inj hholder
          obtain rfl : x = e' := by
            have hpk : x.id = id := Table.get_pk hx
            rw [← hpk, hxe, hget] at hx
            exact (Option.some.inj hx).symm
          rw [queue_rights hrights] at hhead
          rw [hs.2.2] at hthere
          exact head_first hhead hb hthere
        · rw [hlease] at hno
          exact absurd hno (by decide)
      -- another task went; `t` and `b` both wait on
      · rw [if_neg hk] at hrow
        obtain ⟨e'', hget', hrights'⟩ := rights_assign q.env s x hget hrights
        have hlater := line_run hclaims (lull_assign hlull) hget' hrights' hleft
        have hne : s.id ≠ b.id := by
          intro heq
          rw [line_assign, heq] at hlater
          exact line_nodup.not_mem_erase hlater
        have hb' := get_assign q.env db s x b.id
        rw [if_neg hne] at hb'
        exact ih hnext (lull_assign hlull) hget' hrights' (hrow.trans ht) (hb'.trans hb) hheld
          hleft hclaims

end Claims

section Order
variable {db : Db} {qs : List Request}

/-- A regular task that an active expert may be served waits for at most as many of the expert's
calls as there are tasks before it in the expert's line, and one more, where calls that golden
work answers do not count. It does not matter which experts claim in between, and how. -/
theorem served_within (hclaims : ∀ q ∈ qs, q.isClaim = true)
    (hlull : Lull db qs) {e : Expert} (he : e ∈ db.experts) (hactive : e.status = .active)
    {b : Task} (hb : b ∈ db.tasks) (hregular : b.isAttentionCheck = false)
    (helig : eligibility db e b = true)
    (hcalls : (line db e false).idxOf b.id < asksAlong e.id db qs) :
    ∃ q ∈ qs, ∃ holder, (run step db qs).tasks.get b.id = some (b.assignTo q.env holder) := by
  have hget : db.experts.get e.id = some e := db.experts.get_of_mem he
  have hrights : e.SameRights e := ⟨rfl, rfl, rfl, rfl⟩
  rcases row_run hclaims hlull (db.tasks.get_of_mem hb) with hsame | ⟨-, hleased⟩
  -- a task that still waits has moved up once for every call of the expert
  · exfalso
    have hwaits : b.id ∈ line db e false :=
      mem_line.mpr ⟨b, db.tasks.get_of_mem hb, helig, hregular⟩
    have hstill : b.id ∈ line (run step db qs) e false :=
      line_kept hclaims hlull (hsame.trans (db.tasks.get_of_mem hb).symm) hwaits
    have hmoved := idxOf_run hclaims hlull hget hrights hactive hstill
    omega
  · exact hleased

end Order

namespace Scenario

/-- Tasks 500 and 501, of which the second one is more urgent. -/
def urgent : List Request :=
  setup ++ [call 5 (.createTasks [task, { task with priority := 5 }] "admin")]

/-- Tasks 500 and 501, and the golden task 502. -/
def urgentGolden : List Request :=
  setup ++ [call 5 (.createTasks [task, { task with priority := 5 },
    { task with isAttentionCheck := true, expectedScores := some (accuracy 4) }] "admin")]

/-- A call of `claim_next` that prefers golden work or does not. -/
def ask (n : ℕ) (expertId : Uuid) (golden : Bool) : Request :=
  ⟨{ env n with settings := { attentionFraction := if golden then 1 else 0 } },
    .claimNext expertId⟩

end Scenario

open Scenario in
/-- The first call is answered with golden work, the second takes the urgent task. -/
theorem served_within_two : ∃ b, (after urgentGolden).tasks.get 500 = some b ∧
    ∃ q ∈ [ask 6 300 true, ask 7 300 false, ask 8 300 true], ∃ holder,
      (run step (after urgentGolden) [ask 6 300 true, ask 7 300 false, ask 8 300 true]).tasks.get
        b.id = some (b.assignTo q.env holder) := by
  have hlull : Lull (after urgentGolden) [ask 6 300 true, ask 7 300 false, ask 8 300 true] := by
    refine ⟨?_, by decide +kernel⟩
    have h : ∀ q ∈ [ask 6 300 true, ask 7 300 false, ask 8 300 true],
        ∀ t ∈ (after urgentGolden).tasks.rows, t.leaseExpired q.env.now = false := by
      decide +kernel
    exact h
  -- one task stands before 500, and two calls are answered with regular work
  have hrows : ((after urgentGolden).experts.get 300).bind (fun e =>
      ((after urgentGolden).tasks.get 500).map (fun b =>
        decide (e.status = .active ∧ b.isAttentionCheck = false ∧
          eligibility (after urgentGolden) e b = true ∧
          (line (after urgentGolden) e false).idxOf b.id < asksAlong e.id (after urgentGolden)
            [ask 6 300 true, ask 7 300 false, ask 8 300 true]))) = some true := by
    decide +kernel
  obtain ⟨e, he, hrow⟩ := Option.bind_eq_some_iff.mp hrows
  obtain ⟨b, hb, hfacts⟩ := Option.map_eq_some_iff.mp hrow
  obtain ⟨hactive, hregular, helig, hcalls⟩ := of_decide_eq_true hfacts
  exact ⟨b, hb, served_within (by decide) hlull (Table.get_mem he) hactive (Table.get_mem hb)
    hregular helig hcalls⟩

section Order
variable {db : Db} {qs : List Request}

/-- Nobody is overtaken: whatever `claim_next` has served to an expert during a run of calls comes
before everything of its kind that the expert could still be served at the end. -/
theorem served_in_order (hnext : ∀ q ∈ qs, ∃ id, q.op = .claimNext id) (hlull : Lull db qs)
    {e : Expert} (he : e ∈ db.experts) {t b : Task} (ht : t ∈ db.tasks)
    (hqueued : t.status = .queued) (hb : b ∈ db.tasks)
    (hheld : Held (run step db qs) t e.id)
    (hleft : b.id ∈ line (run step db qs) e t.isAttentionCheck) : t.rankKey ≤ b.rankKey := by
  rw [← pickBefore_iff]
  exact order_run hnext hlull (db.experts.get_of_mem he) ⟨rfl, rfl, rfl, rfl⟩
    (db.tasks.get_of_mem ht) hqueued (db.tasks.get_of_mem hb) hheld hleft

end Order

open Scenario in
theorem served_in_order_urgent : ∃ t b, (after urgent).tasks.get 501 = some t ∧
    (after urgent).tasks.get 500 = some b ∧ t.rankKey ≤ b.rankKey := by
  have hlull : Lull (after urgent) [ask 6 300 false] := by
    refine ⟨?_, by decide +kernel⟩
    have h : ∀ q ∈ [ask 6 300 false], ∀ t ∈ (after urgent).tasks.rows,
        t.leaseExpired q.env.now = false := by decide +kernel
    exact h
  -- task 501 is served while 500 still waits
  have hrows : ((after urgent).experts.get 300).bind (fun e =>
      ((after urgent).tasks.get 501).bind (fun t => ((after urgent).tasks.get 500).map (fun b =>
        decide (t.status = .queued ∧ b.id ∈ line (run step (after urgent) [ask 6 300 false]) e
          t.isAttentionCheck ∧ ((run step (after urgent) [ask 6 300 false]).tasks.get t.id).map
            (fun r => (r.status, r.assignedExpertId)) = some (.assigned, some e.id))))) =
      some true := by decide +kernel
  obtain ⟨e, he, hrest⟩ := Option.bind_eq_some_iff.mp hrows
  obtain ⟨t, ht, hrow⟩ := Option.bind_eq_some_iff.mp hrest
  obtain ⟨b, hb, hfacts⟩ := Option.map_eq_some_iff.mp hrow
  obtain ⟨hqueued, hleft, hlease⟩ := of_decide_eq_true hfacts
  obtain ⟨t', ht', hpair⟩ := Option.map_eq_some_iff.mp hlease
  have hheld : Held (run step (after urgent) [ask 6 300 false]) t e.id :=
    ⟨t', ht', congrArg Prod.fst hpair, congrArg Prod.snd hpair⟩
  have hnext : ∀ q ∈ [ask 6 300 false], ∃ id, q.op = .claimNext id := by
    intro q hq
    rw [List.mem_singleton] at hq
    subst hq
    exact ⟨300, rfl⟩
  exact ⟨t, b, ht, hb, served_in_order hnext hlull (Table.get_mem he) (Table.get_mem ht) hqueued
    (Table.get_mem hb) hheld hleft⟩

end Panelist
