import Panelist.Sessions

/-! The served count under overlapping claims made with one expert's key. A claim writes the
count its request loaded plus one, and decides the attention schedule with that number; the
count follows the assignments as long as no other one commits in between. -/
namespace Panelist
open Relational ReadCommitted ReadCommitted.Prog

/-- A claim made with the expert's key. -/
inductive ServeCall where
  | next (env : Env)
  | byId (env : Env) (taskId : Uuid)

def serving (expertId : Uuid) : ServeCall → Session (Option Task)
  | .next env => Session.claimNext env expertId
  | .byId env taskId => do
    let task ← Session.claimById env expertId taskId
    pure (some task)

/-- A committed claim. -/
abbrev Serve := Entry Db (Option Task) ServeCall

/-- How many transactions had committed when a claim loaded its expert. -/
def authenticatedAt (e : Serve) : ℕ := e.clock.getD 0 0

/-- The claim handed out a task. -/
def assigns (e : Serve) : Bool := e.answer.isSome

/-- The handed out task was chosen by `claim_next`, which asks `prefers_attention_check`. -/
def scheduled (e : Serve) : Bool :=
  match e.call with
  | .next _ => assigns e
  | .byId _ _ => false

def servedCount (expertId : Uuid) (db : Db) : Option ℕ :=
  (db.experts.get expertId).map Expert.servedCount

/-- The `task.assigned` events of the expert. -/
def assignedEvents (expertId : Uuid) (db : Db) : ℕ :=
  db.auditEvents.countP (fun e => e.action = "task.assigned" ∧ e.actor = s!"expert:{expertId.str}")

/-- The count is the number of assignments. -/
def Counted (expertId : Uuid) (db : Db) : Prop :=
  servedCount expertId db = some (assignedEvents expertId db)

/-- The serve number a claim works with. -/
def serveNumber (expertId : Uuid) (base : Db) (log : List Serve) (e : Serve) : Option ℕ :=
  (servedCount expertId (storeAt base log (authenticatedAt e))).map (· + 1)

/-- After a history of claims the count is right, and no two serves were decided with one
serve number. -/
structure ServesCounted (expertId : Uuid) (base : Db) (log : List Serve) : Prop where
  counted : Counted expertId (now base log)
  distinct : ((log.filter scheduled).map (serveNumber expertId base log)).Nodup

/-- Another claim of the expert commits an assignment between the load of the expert by `e`
and the assignment of `e`. -/
def Crossed (past : List Serve) (e : Serve) : Prop :=
  assigns e = true ∧ ∃ q d, q ++ [d] <+: past ∧ assigns d = true ∧ authenticatedAt e ≤ q.length

/-! ### What a claim commits -/

structure ServeLaw (expertId : Uuid) (base : Db) (past : List Serve) (e : Serve) : Prop where
  loaded : authenticatedAt e ≤ past.length
  count : ∃ n, servedCount expertId (storeAt base past (authenticatedAt e)) = some n ∧
    servedCount expertId e.after = if assigns e then some (n + 1) else servedCount expertId e.before
  events : assignedEvents expertId e.after =
    assignedEvents expertId e.before + if assigns e then 1 else 0

section History
variable {expertId : Uuid} {base : Db} {past log : List Serve} {e : Serve}

/-- The claims of a history that handed out a task. -/
def handedOut (log : List Serve) : ℕ := log.countP assigns

theorem handedOut_concat (past : List Serve) (e : Serve) :
    handedOut (past ++ [e]) = handedOut past + if assigns e then 1 else 0 := by
  rw [handedOut, handedOut, List.countP_append, List.countP_singleton]

theorem events_eq (h : Lawful (ServeLaw expertId base) base log) :
    assignedEvents expertId (now base log) = assignedEvents expertId base + handedOut log := by
  refine h.invariant (P := fun log => assignedEvents expertId (now base log) =
    assignedEvents expertId base + handedOut log) rfl (fun past e hl ih => ?_)
  obtain ⟨_, hbefore, hlaw⟩ := Lawful.concat.mp hl
  rw [now_concat, hlaw.events, hbefore, ih, handedOut_concat, add_assoc]

/-- While nothing is handed out the count stays. -/
theorem count_stays (h : Lawful (ServeLaw expertId base) base log) (hle : past <+: log)
    (hnone : handedOut log = handedOut past) :
    servedCount expertId (now base log) = servedCount expertId (now base past) := by
  obtain ⟨later, rfl⟩ := hle
  induction later using List.reverseRecOn with
  | nil => rw [List.append_nil]
  | append_singleton later e ih =>
    rw [← List.append_assoc] at h hnone ⊢
    obtain ⟨hlog, hbefore, hlaw⟩ := Lawful.concat.mp h
    have hcount : handedOut (past ++ later) + (if assigns e then 1 else 0) = handedOut past :=
      (handedOut_concat _ e).symm.trans hnone
    -- commits in between hand out nothing either
    have hprefix : handedOut past ≤ handedOut (past ++ later) := by
      rw [handedOut, handedOut, List.countP_append]
      exact Nat.le_add_right _ _
    have he : assigns e = false := by
      cases hb : assigns e with
      | false => rfl
      | true =>
        rw [hb, if_pos rfl] at hcount
        omega
    rw [he, if_neg Bool.false_ne_true, add_zero] at hcount
    obtain ⟨n, _, hafter⟩ := hlaw.count
    rw [he, if_neg Bool.false_ne_true] at hafter
    rw [now_concat, hafter, hbefore]
    exact ih hlog hcount

/-- The count never runs ahead of the assignments. -/
theorem count_le (hbase : Counted expertId base) (h : Lawful (ServeLaw expertId base) base log) :
    ∃ n, servedCount expertId (now base log) = some n ∧
      n ≤ assignedEvents expertId (now base log) := by
  induction hlen : log.length using Nat.strong_induction_on generalizing log with
  | _ m ih =>
    rcases log.eq_nil_or_concat' with rfl | ⟨past, e, rfl⟩
    · exact ⟨_, hbase, le_refl _⟩
    · obtain ⟨hlog, hbefore, hlaw⟩ := Lawful.concat.mp h
      obtain ⟨n, hn, hafter⟩ := hlaw.count
      rw [List.length_append, List.length_singleton] at hlen
      rw [now_concat, hafter, hlaw.events]
      cases he : assigns e with
      | false =>
        rw [if_neg Bool.false_ne_true, if_neg Bool.false_ne_true, add_zero, hbefore]
        exact ih past.length (by omega) hlog rfl
      | true =>
        -- the loaded count is one of an earlier moment
        rw [if_pos rfl, if_pos rfl]
        have htake : past.take (authenticatedAt e) <+: past := List.take_prefix _ _
        obtain ⟨k, hk, hle⟩ := ih (past.take (authenticatedAt e)).length
          (by rw [List.length_take]; omega) (hlog.of_prefix htake) rfl
        obtain rfl := Option.some.inj (hn.symm.trans hk)
        refine ⟨n + 1, rfl, Nat.succ_le_succ (hle.trans ?_)⟩
        rw [hbefore, events_eq hlog, events_eq (hlog.of_prefix htake)]
        have hsub : handedOut (past.take (authenticatedAt e)) ≤ handedOut past :=
          (List.take_sublist _ past).countP_le
        omega

/-- No assignment crosses `e` exactly when as many tasks had been handed out when it loaded
its expert as when it commits. -/
theorem not_crossed_iff (he : assigns e = true) (hl : authenticatedAt e ≤ past.length) :
    ¬ Crossed past e ↔ handedOut (past.take (authenticatedAt e)) = handedOut past := by
  -- the tasks handed out before the expert was loaded, and since then
  have hsplit : handedOut past = handedOut (past.take (authenticatedAt e)) +
      (past.drop (authenticatedAt e)).countP assigns := by
    rw [handedOut, handedOut, ← List.countP_append, List.take_append_drop]
  -- nothing crosses exactly when none was handed out since
  have hrest : ¬ Crossed past e ↔ (past.drop (authenticatedAt e)).countP assigns = 0 := by
    rw [List.countP_eq_zero]
    constructor
    · intro hnot d hd hdb
      obtain ⟨a, b, hab⟩ := List.append_of_mem hd
      refine hnot ⟨he, past.take (authenticatedAt e) ++ a, d, ⟨b, ?_⟩, hdb, ?_⟩
      · rw [List.append_assoc, List.append_assoc, List.singleton_append, ← hab,
          List.take_append_drop]
      · rw [List.length_append, List.length_take]
        omega
    · rintro hnone ⟨_, q, d, ⟨later, hq⟩, hd, hlen⟩
      refine hnone d ?_ hd
      rw [← hq, List.append_assoc, List.drop_append_of_le_length hlen, List.singleton_append]
      exact List.mem_append_right _ List.mem_cons_self
  rw [hrest]
  omega

/-- A claim leaves the count right exactly when it was right and no assignment crossed it. -/
theorem counted_concat (hbase : Counted expertId base)
    (h : Lawful (ServeLaw expertId base) base (past ++ [e])) :
    Counted expertId (now base (past ++ [e])) ↔
      Counted expertId (now base past) ∧ ¬ Crossed past e := by
  obtain ⟨hlog, hbefore, hlaw⟩ := Lawful.concat.mp h
  obtain ⟨n, hn, hafter⟩ := hlaw.count
  rw [Counted, now_concat, hafter, hlaw.events, hbefore]
  -- a claim that hands out nothing changes neither count nor events
  cases he : assigns e with
  | false =>
    rw [if_neg Bool.false_ne_true, if_neg Bool.false_ne_true, add_zero]
    exact (and_iff_left (fun hc => absurd (he.symm.trans hc.1) Bool.false_ne_true)).symm
  | true =>
    -- it writes one more than the count was when it authenticated
    have htake : past.take (authenticatedAt e) <+: past := List.take_prefix _ _
    have hload := hlog.of_prefix htake
    obtain ⟨k, hk, hle⟩ := count_le hbase hload
    obtain rfl := Option.some.inj (hn.symm.trans hk)
    have hsub : handedOut (past.take (authenticatedAt e)) ≤ handedOut past :=
      (List.take_sublist _ past).countP_le
    rw [events_eq hload] at hle
    rw [if_pos rfl, if_pos rfl, not_crossed_iff he hlaw.loaded, Option.some_inj,
      add_left_inj, Counted, events_eq hlog]
    constructor
    · intro heq
      -- nothing was handed out since then
      have hsame : handedOut (past.take (authenticatedAt e)) = handedOut past := by omega
      exact ⟨by rw [count_stays hlog htake hsame.symm, hk, heq], hsame⟩
    · rintro ⟨hcount, hsame⟩
      rw [count_stays hlog htake hsame.symm, hk, Option.some_inj] at hcount
      exact hcount

/-- Over a whole history. -/
theorem counted_iff (hbase : Counted expertId base)
    (h : Lawful (ServeLaw expertId base) base log) : Counted expertId (now base log) ↔
      ∀ past e, past ++ [e] <+: log → ¬ Crossed past e :=
  h.final_iff (P := fun log => Counted expertId (now base log))
    (C := fun past e => ¬ Crossed past e) hbase (fun _ _ hl => counted_concat hbase hl)

/-- Claims that are not crossed work with consecutive serve numbers. -/
theorem serveNumbers_eq (hbase : Counted expertId base)
    (h : Lawful (ServeLaw expertId base) base log)
    (hnone : ∀ past e, past ++ [e] <+: log → ¬ Crossed past e) :
    (log.filter assigns).map (serveNumber expertId base log) =
      (List.range (handedOut log)).map (fun i => some (assignedEvents expertId base + i + 1)) := by
  induction log using List.reverseRecOn with
  | nil => rfl
  | append_singleton log e ih =>
    obtain ⟨hlog, hbefore, hlaw⟩ := Lawful.concat.mp h
    have hpast : ∀ past d, past ++ [d] <+: log → ¬ Crossed past d :=
      fun past d hle => hnone past d (hle.trans (List.prefix_append log [e]))
    -- the claims before `e` loaded their expert before `e` committed
    have hstore (n : ℕ) (hn : n ≤ log.length) :
        storeAt base (log ++ [e]) n = storeAt base log n := by
      rw [storeAt, storeAt, List.take_append_of_le_length hn]
    have hsame : (log.filter assigns).map (serveNumber expertId base (log ++ [e])) =
        (log.filter assigns).map (serveNumber expertId base log) := by
      refine List.map_congr_left (fun d hd => ?_)
      obtain ⟨a, b, hab⟩ := List.append_of_mem (List.mem_of_mem_filter hd)
      obtain ⟨_, hd⟩ := hlog a d b hab
      have hlen : authenticatedAt d ≤ log.length := by
        rw [hab, List.length_append]
        exact hd.loaded.trans (Nat.le_add_right _ _)
      rw [serveNumber, serveNumber, hstore _ hlen]
    rw [List.filter_append, List.map_append, hsame, ih hlog hpast, handedOut_concat]
    cases he : assigns e with
    | false => simp [he]
    | true =>
      have hcount : Counted expertId (now base log) :=
        (counted_iff hbase hlog).mpr hpast
      have hle := (not_crossed_iff he hlaw.loaded).mp (hnone log e (List.prefix_refl _))
      have hload : servedCount expertId (storeAt base log (authenticatedAt e)) =
          some (assignedEvents expertId base + handedOut log) := by
        rw [← events_eq hlog, ← hcount]
        exact (count_stays hlog (List.take_prefix _ _) hle.symm).symm
      rw [List.filter_cons_of_pos he, if_pos rfl, List.range_succ, List.map_append]
      congr 1
      rw [List.filter_nil, List.map_singleton, List.map_singleton, serveNumber,
        hstore _ hlaw.loaded, hload]
      rfl

theorem scheduled_assigns {e : Serve} (h : scheduled e = true) : assigns e = true := by
  unfold scheduled at h
  split at h
  · exact h
  · exact absurd h Bool.false_ne_true

/-- The count is right and the serve numbers differ exactly when no assignment crosses
another claim. -/
theorem servesCounted_lawful (hbase : Counted expertId base)
    (h : Lawful (ServeLaw expertId base) base log) : ServesCounted expertId base log ↔
      ∀ past e, past ++ [e] <+: log → ¬ Crossed past e := by
  constructor
  · exact fun hserves => (counted_iff hbase h).mp hserves.counted
  · intro hnone
    refine ⟨(counted_iff hbase h).mpr hnone, ?_⟩
    have hall : ((log.filter assigns).map (serveNumber expertId base log)).Nodup := by
      rw [serveNumbers_eq hbase h hnone]
      refine List.Nodup.map (fun i j hij => ?_) List.nodup_range
      have := Option.some.inj hij
      omega
    have hsub : List.Sublist (log.filter scheduled) (log.filter assigns) :=
      List.monotone_filter_right log (fun e he => scheduled_assigns he)
    exact hall.sublist (hsub.map _)

end History

/-! ### The claims as transactions -/

/-- No lock is needed for what the law says. -/
def serveRows (_ : Lock) : Setoid Db := ⊤

/-- The two numbers the law is about. -/
def counters (expertId : Uuid) (db : Db) : Option ℕ × ℕ :=
  (servedCount expertId db, assignedEvents expertId db)

section Claims
variable {expertId : Uuid} {base : Db} {log : List Serve} {env : Env} {expert : Expert}
  {s : Local serveRows (Option Task) ServeCall}

theorem serveRows_of_counters (expertId : Uuid) (row : Lock) (db db' : Db)
    (_ : (Setoid.ker (counters expertId)).r db db') : (serveRows row).r db db' := trivial

theorem counters_reclaimExpired (expertId : Uuid) (env : Env) : (Session.reclaimExpired env).Writes
    (fun f => ∀ db, (Setoid.ker (counters expertId)).r db (f db)) :=
  Writes.updateWhere (fun _ _ => rfl)

theorem counters_pick (expertId : Uuid) (expert : Expert) (wantAttention : Bool) :
    (Session.pick expert wantAttention).Writes
    (fun f => ∀ db, (Setoid.ker (counters expertId)).r db (f db)) := fun _ _ => trivial

/-- A transaction that read its expert at `log` and has written neither counter since. -/
def Serving (expertId : Uuid) (log : List Serve)
    (s : Local serveRows (Option Task) ServeCall) : Prop :=
  (Local.start.saw log).Grows (Setoid.ker (counters expertId)).r s

theorem Serving.reads (hs : Serving expertId log s) :
    s.clock.getD 0 0 = log.length ∧ ∀ log', s.knows log' → log <+: log' := by
  obtain ⟨rest, hrest⟩ := hs.clock
  refine ⟨by rw [← hrest]; rfl, fun log' hk => (hs.knows log' hk).2⟩

theorem Serving.unserved (hs : Serving expertId log s) {n : ℕ}
    (hn : servedCount expertId (now base log) = some n) (call : ServeCall) :
    Commits serveRows (ServeLaw expertId base) base call none s := by
  intro log' hl hk
  obtain ⟨hclock, hle⟩ := hs.reads
  have hsame : counters expertId (now base log') = counters expertId (s.pending (now base log')) :=
    hs.pending (now base log')
  obtain ⟨hcount, hevents⟩ := Prod.mk.inj hsame
  refine ⟨?_, ⟨n, ?_, ?_⟩, ?_⟩
  · show s.clock.getD 0 0 ≤ log'.length
    rw [hclock]
    exact (hle log' hk).length_le
  · show servedCount expertId (storeAt base log' (s.clock.getD 0 0)) = some n
    rw [hclock, storeAt_of_prefix (hle log' hk), hn]
  · exact hcount.symm
  · exact hevents.symm

/-- An expert that was loaded is still there. -/
theorem expert_stays {past : List Serve} (h : Lawful (ServeLaw expertId base) base log)
    (hle : past <+: log) (hsome : (servedCount expertId (now base past)).isSome) :
    (servedCount expertId (now base log)).isSome := by
  refine h.stretch (R := fun db db' => (servedCount expertId db).isSome →
    (servedCount expertId db').isSome) hle (fun _ h => h) (fun hab hbc h => hbc (hab h)) ?_ hsome
  intro past e _ hlaw hbefore
  obtain ⟨n, _, hafter⟩ := hlaw.count
  rw [hafter]
  split_ifs
  · rfl
  · exact hbefore

theorem wp_assign (hs : Serving expertId log s) (hid : expert.id = expertId)
    (hn : servedCount expertId (now base log) = some expert.servedCount) (task : Task)
    (call : ServeCall) : (Session.assign env task expert).wp serveRows (ServeLaw expertId base) base
      (fun t s' => Commits serveRows (ServeLaw expertId base) base call (some t) s') s := by
  subst hid
  obtain ⟨hclock, hle⟩ := hs.reads
  have hsame (db : Db) : counters expert.id db = counters expert.id (s.pending db) := hs.pending db
  unfold Session.assign
  rw [wp_bind]
  -- the expert's row with the count read before, then the task and the event
  refine wp_updateRow (fun _ _ _ => trivial) ?_ ?_
  · intro log₁ hl₁ hk₁ hfound _
    rw [wp_bind, wp_set]
    refine ⟨fun _ _ _ => trivial, ?_⟩
    unfold Session.log
    rw [wp_bind, wp_set]
    refine ⟨fun _ _ _ => trivial, ?_⟩
    intro log' hl hk
    have hk : s.knows log' := hk.1.1
    -- the law of the entry: when it loaded the expert, what it read and wrote, what it logged
    refine ⟨?_, ⟨expert.servedCount, ?_, ?_⟩, ?_⟩
    · show s.clock.getD 0 0 ≤ log'.length
      rw [hclock]
      exact (hle log' hk).length_le
    · show servedCount expert.id (storeAt base log' (s.clock.getD 0 0)) = _
      rw [hclock, storeAt_of_prefix (hle log' hk), hn]
    · -- the expert is still there when the count is written
      have hthere := expert_stays hl (hle log' hk) (by rw [hn]; rfl)
      obtain ⟨k, hk'⟩ := Option.isSome_iff_exists.mp hthere
      have hpending : servedCount expert.id (s.pending (now base log')) = some k :=
        (Prod.mk.inj (hsame _)).1.symm.trans hk'
      obtain ⟨e, he, -⟩ := Option.map_eq_some_iff.mp hpending
      have hget := (s.pending (now base log')).experts.get_update expert.id
        (Session.setServed (expert.servedCount + 1)) (Session.setServed_keeps _) expert.id
      rw [if_pos rfl, he] at hget
      exact congrArg (Option.map Expert.servedCount) hget
    · show List.countP _ ((s.pending (now base log')).auditEvents ++ [_]) = _
      rw [List.countP_append, List.countP_singleton, if_pos (by simp)]
      exact congrArg (· + 1) (Prod.mk.inj (hsame _)).2.symm
  · -- an expert that was loaded is found again
    intro log₁ hl₁ hk₁ hnone
    have hthere := expert_stays hl₁ (hle log₁ hk₁) (by rw [hn]; rfl)
    rw [(Prod.mk.inj (hsame (now base log₁))).1, servedCount, Option.isSome_map] at hthere
    exact absurd (hthere.symm.trans hnone) (by simp)

end Claims

/-- Claims commit as `ServeLaw` says, under every interleaving. -/
theorem serving_verified (expertId : Uuid) (base : Db) :
    Verified serveRows (ServeLaw expertId base) base (serving expertId) := by
  intro call
  cases call with
  | next env =>
    unfold serving Session.claimNext Session.expert
    rw [wp_bind, wp_bind, wp_see]
    -- the expert as loaded gives the serve number that is written back
    intro log hl _
    rw [wp_demandSome]
    intro expert hexpert
    have hid : expert.id = expertId := Table.get_pk hexpert
    have hn : servedCount expertId (now base log) = some expert.servedCount :=
      congrArg (Option.map Expert.servedCount) hexpert
    rw [wp_bind, wp_demand]
    intro _
    rw [wp_bind]
    refine wp_frame (serveRows_of_counters expertId) (counters_reclaimExpired expertId env)
      (fun _ s₁ hs₁ => ?_)
    rw [wp_bind]
    refine wp_frame (serveRows_of_counters expertId) ?_
      (fun golden s₂ hs₂ => ?_)
    · split_ifs
      · exact counters_pick expertId expert true
      · exact Writes.pure none
    rw [wp_bind]
    refine wp_frame (serveRows_of_counters expertId) ?_
      (fun task s₃ hs₃ => ?_)
    · split_ifs
      · exact Writes.pure golden
      · exact counters_pick expertId expert false
    have hs : Serving expertId log s₃ := (hs₁.comp hs₂).comp hs₃
    cases task with
    | none => exact hs.unserved hn _
    | some task =>
      rw [wp_bind]
      exact wp_assign hs hid hn task _
  | byId env taskId =>
    unfold serving Session.claimById Session.expert
    rw [wp_bind, wp_bind, wp_bind, wp_see]
    intro log hl _
    rw [wp_demandSome]
    intro expert hexpert
    have hid : expert.id = expertId := Table.get_pk hexpert
    have hn : servedCount expertId (now base log) = some expert.servedCount :=
      congrArg (Option.map Expert.servedCount) hexpert
    rw [wp_bind, wp_demand]
    intro _
    rw [wp_bind]
    refine wp_frame (serveRows_of_counters expertId) (counters_reclaimExpired expertId env)
      (fun _ s₁ hs₁ => ?_)
    rw [wp_bind]
    refine wp_frame (serveRows_of_counters expertId) ?_ (fun found s₂ hs₂ => ?_)
    · exact fun _ _ => trivial
    rw [wp_bind, wp_demandSome]
    intro task _
    rw [wp_bind, wp_demand]
    intro _
    rw [wp_bind, wp_demand]
    intro _
    rw [wp_bind, wp_demand]
    intro _
    exact wp_assign (hs₁.comp hs₂) hid hn task _

/-- In every interleaving of claims made with one expert's key the served count ends as the
number of assignments, and the serves are decided with different numbers, exactly when no
claim's assignment commits between the load of the expert and the assignment of another. -/
theorem servesCounted_iff (base : Db) (expertId : Uuid) (hbase : Counted expertId base)
    (schedule : List (Choice ServeCall ℕ)) :
    ServesCounted expertId base (committed (serving expertId) base schedule) ↔
      ∀ past e, past ++ [e] <+: committed (serving expertId) base schedule → ¬ Crossed past e :=
  servesCounted_lawful hbase (lawful_committed (serving_verified expertId base) schedule)

namespace Scenario

/-- Two queued tasks for experts 300 and 400. -/
def twoTasks : Db := after (setup ++ [call 5 (.createTasks [task, task] "admin")])

/-- Two claims of expert 300 load the expert before either of them assigns a task. -/
def crossing : List (Choice ServeCall ℕ) :=
  [.start 1 (.next (env 6)), .start 2 (.next (env 7)), .run 1, .run 2] ++
    List.replicate 12 (.run 1) ++ List.replicate 12 (.run 2)

end Scenario

open Scenario in
/-- Both assign a task, as serve number 1, and the count ends at 1. -/
theorem crossed_claim_uncounted : servedCount 300 (now twoTasks (committed (serving 300) twoTasks
      crossing)) = some 1 ∧
    assignedEvents 300 (now twoTasks (committed (serving 300) twoTasks crossing)) = 2 ∧
    ¬ ServesCounted 300 twoTasks (committed (serving 300) twoTasks crossing) := by
  have hcount : servedCount 300 (now twoTasks (committed (serving 300) twoTasks crossing)) =
      some 1 := by decide +kernel
  have hevents : assignedEvents 300 (now twoTasks (committed (serving 300) twoTasks crossing)) =
      2 := by decide +kernel
  refine ⟨hcount, hevents, fun hserves => ?_⟩
  have hcounted := hserves.counted
  rw [Counted, hcount, hevents] at hcounted
  exact absurd hcounted (by decide)

open Scenario in
theorem servesCounted_iff_two : Counted 300 twoTasks ∧
    (ServesCounted 300 twoTasks (committed (serving 300) twoTasks crossing) ↔
      ∀ past e, past ++ [e] <+: committed (serving 300) twoTasks crossing → ¬ Crossed past e) := by
  have hbase : Counted 300 twoTasks := by
    unfold Counted
    decide +kernel
  exact ⟨hbase, servesCounted_iff twoTasks 300 hbase crossing⟩

end Panelist
