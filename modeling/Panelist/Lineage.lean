import Panelist.Sessions

/-! Publishing versions of a rubric in overlapping transactions. The unique key on name and
version hands the numbers out in order of commit; that the previous version is still open
is only checked on the row as it was loaded. -/
namespace Panelist
open Relational ReadCommitted ReadCommitted.Prog

structure PublishCall where
  env : Env
  previousId : Uuid
  criteria : List CriterionIn
  actor : String

def publishing (c : PublishCall) : Session (Rubric × ℕ × ℕ) :=
  Session.publish c.env c.previousId c.criteria c.actor

/-- A committed publish. -/
abbrev Publication := Entry Db (Rubric × ℕ × ℕ) PublishCall

/-- The version a publish created. -/
def published (e : Publication) : Rubric := e.answer.1

/-- How many transactions had committed when a publish loaded the previous version. -/
def loadedAt (e : Publication) : ℕ := e.clock.getD 0 0

/-- How many transactions had committed when it asked for the newest version number. -/
def countedAt (e : Publication) : ℕ := e.clock.getD 1 0

/-- The version `root` and the versions published from it or from one of these. -/
def descendants (root : Uuid) (log : List Publication) : List Uuid :=
  log.foldl (fun vs e => if e.call.previousId ∈ vs then vs ++ [(published e).id] else vs) [root]

/-- The links lead from `root` through all of `versions` along one path of rising version
numbers, at whose end is the only version that is not superseded. -/
structure OnePath (db : Db) (root : Uuid) (versions : List Uuid) (path : List Rubric) : Prop where
  stored : ∀ r ∈ path, r ∈ db.rubrics
  starts : path.head?.map Rubric.id = some root
  covers : (path.map Rubric.id).Perm versions
  linked : path.IsChain (fun a b => a.supersededById = some b.id ∧ a.version < b.version)
  current : ∀ r ∈ path, r.supersededAt = none ↔ path.getLast? = some r
  ends : ∀ r, path.getLast? = some r → r.supersededById = none

/-! ### What a publish commits -/

/-- A committed publish inserted one version and marked the previous one; that one was open
when it was loaded, and the number is the newest of the count plus one. -/
structure PublishLaw (base : Db) (past : List Publication) (e : Publication) : Prop where
  ordered : loadedAt e ≤ countedAt e ∧ countedAt e ≤ past.length
  step : ∃ previous rubrics,
    (storeAt base past (loadedAt e)).rubrics.get e.call.previousId = some previous ∧
    previous.supersededAt = none ∧
    published e = ⟨e.call.env.uuid4 0, previous.name,
      latestVersion (storeAt base past (countedAt e)) previous + 1, none, none⟩ ∧
    e.before.rubrics.insert (published e) = some rubrics ∧
    e.after.rubrics = rubrics.update e.call.previousId
      (Rubric.superseded e.call.env.now (published e).id)

/-- A version keeps its name and number, and stays superseded. -/
def Rubric.Follows (r r' : Rubric) : Prop :=
  r'.id = r.id ∧ r'.name = r.name ∧ r'.version = r.version ∧
    (r.supersededAt ≠ none → r'.supersededAt ≠ none)

theorem Rubric.Follows.refl (r : Rubric) : r.Follows r := ⟨rfl, rfl, rfl, fun h => h⟩

theorem Rubric.Follows.trans {a b c : Rubric} (h : a.Follows b) (h' : b.Follows c) : a.Follows c :=
  ⟨h'.1.trans h.1, h'.2.1.trans h.2.1, h'.2.2.1.trans h.2.2.1, fun hs => h'.2.2.2 (h.2.2.2 hs)⟩

section History
variable {base : Db} {past log : List Publication} {e : Publication}

theorem PublishLaw.evolves (h : PublishLaw base past e) :
    Table.Evolves Rubric.Follows e.before.rubrics e.after.rubrics := by
  obtain ⟨previous, rubrics, _, _, _, hins, hafter⟩ := h.step
  rw [hafter]
  refine (Table.Evolves.insert Rubric.Follows.refl hins).trans Rubric.Follows.trans ?_
  exact Table.Evolves.update Rubric.Follows.refl
    (fun r => ⟨rfl, rfl, rfl, fun _ => by simp [Rubric.superseded]⟩)

theorem rubrics_evolve (h : Lawful (PublishLaw base) base log) (hle : past <+: log) :
    Table.Evolves Rubric.Follows (now base past).rubrics (now base log).rubrics := by
  apply h.stretch (R := fun db db' => Table.Evolves Rubric.Follows db.rubrics db'.rubrics) hle
  · exact fun db => Table.Evolves.refl Rubric.Follows.refl db.rubrics
  · exact fun hab hbc => hab.trans Rubric.Follows.trans hbc
  · exact fun _ _ _ hlaw => hlaw.evolves

/-- A row after a commit is, up to its mark, the new version or an old one. -/
theorem PublishLaw.mem_after (h : PublishLaw base past e) {r : Rubric} (hr : r ∈ e.after.rubrics) :
    ∃ r', (r' ∈ e.before.rubrics ∨ r' = published e) ∧ r'.Follows r := by
  obtain ⟨previous, rubrics, _, _, _, hins, hafter⟩ := h.step
  rw [hafter] at hr
  obtain ⟨r', hr', rfl⟩ := (Table.mem_update (f := Rubric.superseded _ _) (fun _ => rfl)).mp hr
  refine ⟨r', (Table.mem_insert hins).mp hr', ?_⟩
  split_ifs
  · exact ⟨rfl, rfl, rfl, fun _ => by simp [Rubric.superseded]⟩
  · exact Rubric.Follows.refl r'

/-- The new version is stored as it was published. -/
theorem PublishLaw.stored (h : PublishLaw base past e)
    (hprev : e.before.rubrics.get e.call.previousId ≠ none) :
    published e ∈ e.after.rubrics := by
  obtain ⟨previous, rubrics, _, _, _, hins, hafter⟩ := h.step
  obtain ⟨p, hp⟩ := Option.ne_none_iff_exists'.mp hprev
  rw [hafter, Table.mem_update (f := Rubric.superseded _ _) (fun _ => rfl)]
  refine ⟨published e, (Table.mem_insert hins).mpr (Or.inr rfl), if_neg ?_⟩
  intro he
  exact Table.insert_fresh hins (Table.get_mem hp) ((Table.get_pk hp).trans he.symm)

/-! ### Version numbers -/

theorem foldl_max_spec (l : List ℤ) (a : ℤ) :
    (l.foldl max a = a ∨ l.foldl max a ∈ l) ∧ a ≤ l.foldl max a ∧ ∀ x ∈ l, x ≤ l.foldl max a := by
  induction l generalizing a with
  | nil => simp
  | cons y l ih =>
    obtain ⟨hmem, hle, hall⟩ := ih (max a y)
    rw [List.foldl_cons]
    refine ⟨?_, (le_max_left a y).trans hle, ?_⟩
    · rcases hmem with heq | hmem
      · rw [heq]
        rcases max_choice a y with h | h
        · exact Or.inl h
        · rw [h]
          exact Or.inr List.mem_cons_self
      · exact Or.inr (List.mem_cons_of_mem y hmem)
    · intro x hx
      rcases List.mem_cons.mp hx with rfl | hx
      · exact (le_max_right a x).trans hle
      · exact hall x hx

section Numbers
variable {db : Db} {previous r : Rubric}

theorem previous_le_latest : previous.version ≤ latestVersion db previous :=
  (foldl_max_spec _ _).2.1

theorem le_latestVersion (hr : r ∈ db.rubrics) (hn : r.name = previous.name) :
    r.version ≤ latestVersion db previous := by
  apply (foldl_max_spec _ _).2.2
  exact List.mem_map.mpr ⟨r, List.mem_filter.mpr ⟨hr, by simpa using hn⟩, rfl⟩

/-- The newest number is the one of a stored version. -/
theorem exists_latestVersion (hr : r ∈ db.rubrics) (hn : r.name = previous.name)
    (hv : r.version = previous.version) :
    ∃ x ∈ db.rubrics, x.name = previous.name ∧ x.version = latestVersion db previous := by
  rcases (foldl_max_spec ((db.rubrics.rows.filter (fun r => r.name = previous.name)).map
    Rubric.version) previous.version).1 with heq | hmem
  · exact ⟨r, hr, hn, hv.trans heq.symm⟩
  · obtain ⟨x, hx, hxv⟩ := List.mem_map.mp hmem
    obtain ⟨hx, hxn⟩ := List.mem_filter.mp hx
    exact ⟨x, hx, by simpa using hxn, hxv⟩

end Numbers

/-- What a publish knew: a row of the name with the newest number at its count, and that
its own number is the next one. -/
theorem PublishLaw.counted (hlaw : Lawful (PublishLaw base) base past)
    (h : PublishLaw base past e) :
    (∃ x ∈ (storeAt base past (countedAt e)).rubrics, x.name = (published e).name ∧
      x.version + 1 = (published e).version) ∧
    ∀ x ∈ (storeAt base past (countedAt e)).rubrics, x.name = (published e).name →
      x.version < (published e).version := by
  obtain ⟨previous, rubrics, hload, _, hpub, _, _⟩ := h.step
  rw [hpub]
  -- the previous version is still there when the numbers are counted
  have hpre : past.take (loadedAt e) <+: past.take (countedAt e) :=
    List.take_prefix_take_left h.ordered.1
  have hev := rubrics_evolve (hlaw.of_prefix (List.take_prefix (countedAt e) past)) hpre
  obtain ⟨p, hp, hfollows⟩ := hev _ _ hload
  constructor
  · have hnewest : ∃ x ∈ (storeAt base past (countedAt e)).rubrics, x.name = previous.name ∧
        x.version = latestVersion (storeAt base past (countedAt e)) previous :=
      exists_latestVersion (Table.get_mem hp) hfollows.2.1 hfollows.2.2.1
    obtain ⟨x, hx, hxn, hxv⟩ := hnewest
    exact ⟨x, hx, hxn, congrArg (· + 1) hxv⟩
  · intro x hx hxn
    have hle : x.version ≤ latestVersion (storeAt base past (countedAt e)) previous :=
      le_latestVersion hx hxn
    show x.version < latestVersion _ previous + 1
    omega

/-- Between the newest number of a name at one time and a later number, none is left out. -/
theorem versions_without_gap (h : Lawful (PublishLaw base) base log) (hle : past <+: log)
    {name : String} {v u : ℤ}
    (hv : ∀ r ∈ (now base past).rubrics, r.name = name → r.version ≤ v) (hvu : v < u) {r : Rubric}
    (hr : r ∈ (now base log).rubrics) (hn : r.name = name) (hu : u ≤ r.version) :
    ∃ x ∈ (now base log).rubrics, x.name = name ∧ x.version = u := by
  obtain ⟨later, rfl⟩ := hle
  induction later using List.reverseRecOn generalizing r with
  | nil =>
    rw [List.append_nil] at hr
    exact absurd (hv r hr hn) (by omega)
  | append_singleton later e ih =>
    rw [← List.append_assoc] at h hr ⊢
    obtain ⟨hlog, hbefore, hlaw⟩ := Lawful.concat.mp h
    have hev := rubrics_evolve h (List.prefix_append (past ++ later) [e])
    -- a row of the earlier history with number `u` is still there
    have hkept : (∃ x ∈ (now base (past ++ later)).rubrics, x.name = name ∧ x.version = u) →
        ∃ x ∈ (now base (past ++ later ++ [e])).rubrics, x.name = name ∧ x.version = u := by
      rintro ⟨x, hx, hxn, hxv⟩
      obtain ⟨y, hy, _, hf⟩ := hev.mem hx
      exact ⟨y, hy, hf.2.1.trans hxn, hf.2.2.1.trans hxv⟩
    rw [now_concat] at hr
    obtain ⟨r', hr', hf⟩ := hlaw.mem_after hr
    rcases hr' with hr' | rfl
    · rw [hbefore] at hr'
      exact hkept (ih (hf.2.1.symm.trans hn) (by rw [← hf.2.2.1]; exact hu) hlog hr')
    · rcases eq_or_lt_of_le hu with rfl | hlt
      · exact ⟨r, by rw [now_concat]; exact hr, hn, rfl⟩
      · obtain ⟨⟨x, hx, hxn, hxv⟩, _⟩ := hlaw.counted hlog
        have hev' := rubrics_evolve hlog (List.take_prefix (countedAt e) (past ++ later))
        obtain ⟨y, hy, _, hfy⟩ := hev'.mem hx
        have hyn : y.name = name := by rw [hfy.2.1, hxn, ← hf.2.1, hn]
        have hyu : u ≤ y.version := by
          have hrv := hf.2.2.1
          rw [hfy.2.2.1]
          omega
        exact hkept (ih hyn hyu hlog hy)

/-- Numbers are handed out in order of commit. -/
theorem published_newest (h : Lawful (PublishLaw base) base (past ++ [e])) {r : Rubric}
    (hr : r ∈ (now base past).rubrics) (hn : r.name = (published e).name) :
    r.version < (published e).version := by
  obtain ⟨hlog, hbefore, hlaw⟩ := Lawful.concat.mp h
  obtain ⟨_, hall⟩ := hlaw.counted hlog
  by_contra hge
  have hbound : ∀ y ∈ (storeAt base past (countedAt e)).rubrics, y.name = (published e).name →
      y.version ≤ (published e).version - 1 := by
    intro y hy hyn
    have := hall y hy hyn
    omega
  have hnext : (published e).version - 1 < (published e).version := by omega
  obtain ⟨x, hx, hxn, hxv⟩ := versions_without_gap hlog (List.take_prefix (countedAt e) past)
    hbound hnext hr hn (by omega)
  -- the number would have been taken already
  obtain ⟨_, rubrics, _, _, _, hins, _⟩ := hlaw.step
  rw [hbefore] at hins
  exact (Table.insert_eq_some.mp hins).1 x hx (Or.inr (Prod.ext hxn hxv))

/-- No version of the name is published between the count of a publish and its commit. -/
theorem counted_last (h : Lawful (PublishLaw base) base (past ++ [e])) {q : List Publication}
    {d : Publication} (hle : q ++ [d] <+: past)
    (hprev : d.before.rubrics.get d.call.previousId ≠ none)
    (hn : (published d).name = (published e).name) :
    q.length < countedAt e := by
  obtain ⟨hlog, hbefore, hlaw⟩ := Lawful.concat.mp h
  by_contra hge
  have hd := hlog.of_prefix hle
  obtain ⟨_, hdbefore, hdlaw⟩ := Lawful.concat.mp hd
  obtain ⟨⟨x, hx, hxn, hxv⟩, _⟩ := hlaw.counted hlog
  -- the row `e` counted from was there before `d`
  have hq : past.take (countedAt e) <+: q := by
    have hqp : q <+: past := (List.prefix_append q [d]).trans hle
    rw [List.prefix_iff_eq_take.mp hqp]
    exact List.take_prefix_take_left (by omega)
  obtain ⟨y, hy, _, hfy⟩ := (rubrics_evolve (hd.of_prefix (List.prefix_append q [d])) hq).mem hx
  have hlow : y.version < (published d).version :=
    published_newest hd hy (by rw [hfy.2.1, hxn, hn])
  -- and the row of `d` is there before `e` commits
  have hstored : published d ∈ (now base (q ++ [d])).rubrics := by
    rw [now_concat]
    exact hdlaw.stored hprev
  obtain ⟨z, hz, _, hfz⟩ := (rubrics_evolve hlog hle).mem hstored
  have hhigh : z.version < (published e).version := published_newest h hz (by rw [hfz.2.1, hn])
  rw [hfy.2.2.1] at hlow
  rw [hfz.2.2.1] at hhigh
  omega

/-! ### Links -/

/-- A version that is superseded after a stretch of history was superseded in it. -/
theorem exists_superseding (h : Lawful (PublishLaw base) base log) (hle : past <+: log)
    {k : Uuid} {r r' : Rubric} (hr : (now base past).rubrics.get k = some r)
    (hopen : r.supersededAt = none) (hr' : (now base log).rubrics.get k = some r')
    (hsup : r'.supersededAt ≠ none) :
    ∃ q d, q ++ [d] <+: log ∧ past.length ≤ q.length ∧ d.call.previousId = k := by
  obtain ⟨later, rfl⟩ := hle
  induction later using List.reverseRecOn generalizing r' with
  | nil =>
    rw [List.append_nil, hr] at hr'
    exact absurd (Option.some.inj hr' ▸ hopen) hsup
  | append_singleton later e ih =>
    rw [← List.append_assoc] at h hr' ⊢
    obtain ⟨hlog, hbefore, hlaw⟩ := Lawful.concat.mp h
    by_cases hk : e.call.previousId = k
    · exact ⟨past ++ later, e, List.prefix_refl _, by simp, hk⟩
    -- another version was marked: `k` was superseded before
    obtain ⟨x, hx, hfx⟩ := rubrics_evolve hlog (List.prefix_append past later) k r hr
    obtain ⟨_, rubrics, _, _, _, hins, hafter⟩ := hlaw.step
    have hsame : r' = x := by
      have hget := (rubrics.get_update e.call.previousId
        (Rubric.superseded e.call.env.now (published e).id) (fun _ => rfl) k).trans (if_neg hk)
      rw [now_concat, hafter] at hr'
      rw [hbefore] at hins
      exact Option.some.inj (hr'.symm.trans (hget.trans (Table.get_insert_of_some hins hx)))
    obtain ⟨q, d, hq, hlen, hd⟩ := ih hsup hlog (hsame ▸ hx)
    exact ⟨q, d, hq.trans (List.prefix_append _ [e]), hlen, hd⟩

theorem descendants_concat (root : Uuid) (log : List Publication) (e : Publication) :
    descendants root (log ++ [e]) =
      if e.call.previousId ∈ descendants root log then
        descendants root log ++ [(published e).id]
      else descendants root log := by
  rw [descendants, List.foldl_append]
  rfl

/-- Another publish of the same version commits between the load of it by `e` and `e`'s
query for the newest number. -/
def Overtaken (past : List Publication) (e : Publication) : Prop :=
  ∃ q d, q ++ [d] <+: past ∧ d.call.previousId = e.call.previousId ∧
    loadedAt e ≤ q.length ∧ q.length < countedAt e

/-- The version a publish loads is in the table it commits to. -/
theorem PublishLaw.previous (hlog : Lawful (PublishLaw base) base past)
    (h : PublishLaw base past e) :
    ∃ r, (now base past).rubrics.get e.call.previousId = some r ∧ r.name = (published e).name ∧
      r.version < (published e).version := by
  obtain ⟨previous, rubrics, hload, _, hpub, _, _⟩ := h.step
  obtain ⟨r, hr, hf⟩ := rubrics_evolve hlog (List.take_prefix (loadedAt e) past) _ _ hload
  rw [hpub]
  refine ⟨r, hr, hf.2.1, ?_⟩
  show r.version < latestVersion _ previous + 1
  have hle : previous.version ≤ latestVersion (storeAt base past (countedAt e)) previous :=
    previous_le_latest
  have hv := hf.2.2.1
  omega

/-- If the version `e` supersedes is superseded already, `e` was overtaken. -/
theorem overtaken_of_superseded (h : Lawful (PublishLaw base) base (past ++ [e])) {r : Rubric}
    (hr : (now base past).rubrics.get e.call.previousId = some r) (hs : r.supersededAt ≠ none) :
    Overtaken past e := by
  obtain ⟨hlog, hbefore, hlaw⟩ := Lawful.concat.mp h
  obtain ⟨previous, _, hload, hopen, hpub, _, _⟩ := hlaw.step
  obtain ⟨q, d, hq, hlen, hd⟩ := exists_superseding hlog (List.take_prefix (loadedAt e) past)
    hload hopen hr hs
  refine ⟨q, d, hq, hd, ?_, ?_⟩
  · have := hlaw.ordered
    rw [List.length_take] at hlen
    omega
  · have hdlog := hlog.of_prefix hq
    obtain ⟨hqlog, hdbefore, hdlaw⟩ := Lawful.concat.mp hdlog
    obtain ⟨x, hx, hxn, _⟩ := hdlaw.previous hqlog
    refine counted_last h hq (by rw [hdbefore, hx]; simp) ?_
    -- both publish the next version of one and the same row
    obtain ⟨y, hy, hyn, _⟩ := hlaw.previous hlog
    obtain ⟨z, hz, hfz⟩ := rubrics_evolve hlog ((List.prefix_append q [d]).trans hq) _ _ hx
    rw [hd, hy] at hz
    rw [← hxn, ← hfz.2.1, ← Option.some.inj hz, hyn]

/-! ### One commit -/

/-- The mark a commit leaves on the rows of a path. -/
def marked (e : Publication) (r : Rubric) : Rubric :=
  if r.id = e.call.previousId then r.superseded e.call.env.now (published e).id else r

theorem marked_id (e : Publication) (r : Rubric) : (marked e r).id = r.id := by
  unfold marked
  split_ifs <;> rfl

theorem PublishLaw.mem_marked (h : PublishLaw base past e) {r : Rubric}
    (hr : r ∈ e.before.rubrics) : marked e r ∈ e.after.rubrics := by
  obtain ⟨_, rubrics, _, _, _, hins, hafter⟩ := h.step
  rw [hafter, Table.mem_update (f := Rubric.superseded _ _) (fun _ => rfl)]
  exact ⟨r, (Table.mem_insert hins).mpr (Or.inl hr), rfl⟩

theorem PublishLaw.fresh (h : PublishLaw base past e) {r : Rubric} (hr : r ∈ e.before.rubrics) :
    r.id ≠ (published e).id := by
  obtain ⟨_, _, _, _, _, hins, _⟩ := h.step
  exact Table.insert_fresh hins hr

/-- A publish from another version leaves the path of `root` as it is. -/
theorem OnePath.elsewhere {root : Uuid} {path : List Rubric}
    (h : OnePath e.before root (descendants root past) path) (hlaw : PublishLaw base past e)
    (hprev : e.call.previousId ∉ descendants root past) :
    OnePath e.after root (descendants root (past ++ [e])) path where
  stored r hr := by
    have hne : r.id ≠ e.call.previousId := by
      intro he
      exact hprev (he ▸ h.covers.mem_iff.mp (List.mem_map_of_mem hr))
    have hmem := hlaw.mem_marked (h.stored r hr)
    rwa [marked, if_neg hne] at hmem
  starts := h.starts
  covers := by
    rw [descendants_concat, if_neg hprev]
    exact h.covers
  linked := h.linked
  current := h.current
  ends := h.ends

/-- A publish from the open end of the path lengthens it by the new version. -/
theorem OnePath.extend {root : Uuid} {path : List Rubric} {r : Rubric}
    (h : OnePath e.before root (descendants root past) path) (hlaw : PublishLaw base past e)
    (hprev : e.call.previousId ∈ descendants root past)
    (hr : e.before.rubrics.get e.call.previousId = some r) (hopen : r.supersededAt = none)
    (hnew : r.version < (published e).version) :
    OnePath e.after root (descendants root (past ++ [e]))
      (path.map (marked e) ++ [published e]) := by
  -- the version `e` supersedes is the end of the path
  have hend : ∀ x ∈ path, x.id = e.call.previousId → x = r := fun x hx hid =>
    e.before.rubrics.eq_of_pk (h.stored x hx) (Table.get_mem hr)
      ((show Relational.pk x = e.call.previousId from hid).trans (Table.get_pk hr).symm)
  obtain ⟨x, hx, hxid⟩ := List.mem_map.mp (h.covers.mem_iff.mpr hprev)
  obtain rfl := hend x hx hxid
  have hlast : path.getLast? = some x := (h.current x hx).mp hopen
  have hopenNew : (published e).supersededAt = none ∧ (published e).supersededById = none := by
    obtain ⟨_, _, _, _, hpub, _, _⟩ := hlaw.step
    rw [hpub]
    exact ⟨rfl, rfl⟩
  have hmarked : marked e x = x.superseded e.call.env.now (published e).id := if_pos hxid
  have hother : ∀ y ∈ path, y ≠ x → marked e y = y := fun y hy hne =>
    if_neg (fun he => hne (hend y hy he))
  -- stored, start, members, links, the open version, the end
  refine ⟨?_, ?_, ?_, ?_, ?_, ?_⟩
  · intro y hy
    rcases List.mem_append.mp hy with hy | hy
    · obtain ⟨z, hz, rfl⟩ := List.mem_map.mp hy
      exact hlaw.mem_marked (h.stored z hz)
    · obtain rfl := List.mem_singleton.mp hy
      exact hlaw.stored (by rw [hr]; simp)
  · cases path with
    | nil => exact absurd hx List.not_mem_nil
    | cons y path =>
      have := h.starts
      simpa [marked_id] using this
  · rw [descendants_concat, if_pos hprev, List.map_append, List.map_map]
    have hids : Rubric.id ∘ marked e = Rubric.id := funext (marked_id e)
    rw [hids]
    exact h.covers.append_right _
  · rw [List.isChain_append]
    refine ⟨?_, List.isChain_singleton _, ?_⟩
    · rw [List.isChain_map]
      refine h.linked.imp_of_mem_imp (fun a b ha hb hab => ?_)
      have hne : a ≠ x := by
        rintro rfl
        exact absurd hab.1 (by rw [h.ends a hlast]; simp)
      rw [hother a ha hne, marked_id]
      refine ⟨hab.1, ?_⟩
      unfold marked
      split_ifs
      · exact hab.2
      · exact hab.2
    · intro a ha b hb
      rw [List.getLast?_map, hlast, Option.map_some, Option.mem_some_iff] at ha
      obtain rfl := Option.some.inj hb
      rw [← ha, hmarked]
      exact ⟨rfl, hnew⟩
  · intro y hy
    rw [List.getLast?_concat]
    rcases List.mem_append.mp hy with hy | hy
    · obtain ⟨z, hz, rfl⟩ := List.mem_map.mp hy
      have hne : marked e z ≠ published e := fun he =>
        hlaw.fresh (h.stored z hz) ((marked_id e z).symm.trans (congrArg Rubric.id he))
      refine ⟨fun hs => ?_, fun hs => absurd (Option.some.inj hs).symm hne⟩
      by_cases hzx : z = x
      · rw [hzx, hmarked] at hs
        exact absurd hs (by simp [Rubric.superseded])
      · rw [hother z hz hzx] at hs
        exact absurd (Option.some.inj (hlast.symm.trans ((h.current z hz).mp hs))).symm hzx
    · obtain rfl := List.mem_singleton.mp hy
      exact ⟨fun _ => rfl, fun _ => hopenNew.1⟩
  · intro y hy
    rw [List.getLast?_concat] at hy
    obtain rfl := Option.some.inj hy
    exact hopenNew.2

/-- What a publish supersedes stays superseded. -/
theorem superseded_of_publish (h : Lawful (PublishLaw base) base log) {d : Publication}
    (hle : past ++ [d] <+: log) {r : Rubric}
    (hr : (now base log).rubrics.get d.call.previousId = some r) : r.supersededAt ≠ none := by
  obtain ⟨hpast, hbefore, hlaw⟩ := Lawful.concat.mp (h.of_prefix hle)
  obtain ⟨x, hx, _⟩ := hlaw.previous hpast
  rw [← hbefore] at hx
  have hmark : marked d x = x.superseded d.call.env.now (published d).id := if_pos (Table.get_pk hx)
  have hstored := hlaw.mem_marked (Table.get_mem hx)
  have hev := rubrics_evolve h hle
  rw [now_concat] at hev
  obtain ⟨y, hy, hyid, hf⟩ := hev.mem hstored
  have hyr : y = r := (now base log).rubrics.eq_of_pk hy (Table.get_mem hr)
    ((hyid.trans (marked_id d x)).trans ((Table.get_pk hx).trans (Table.get_pk hr).symm))
  rw [← hyr]
  apply hf.2.2.2
  rw [hmark]
  exact Option.some_ne_none _

/-- An open version that a path covers is its end. -/
theorem OnePath.end_of_open {db : Db} {root : Uuid} {versions : List Uuid} {path : List Rubric}
    {r : Rubric} (h : OnePath db root versions path) (hr : r ∈ db.rubrics) (hv : r.id ∈ versions)
    (hopen : r.supersededAt = none) : path.getLast? = some r := by
  obtain ⟨x, hx, hxid⟩ := List.mem_map.mp (h.covers.mem_iff.mpr hv)
  obtain rfl : x = r := db.rubrics.eq_of_pk (h.stored x hx) hr hxid
  exact (h.current x hx).mp hopen

theorem OnePath.open_unique {db : Db} {root : Uuid} {versions : List Uuid} {path : List Rubric}
    {r r' : Rubric} (h : OnePath db root versions path) (hr : r ∈ db.rubrics)
    (hr' : r' ∈ db.rubrics)
    (hv : r.id ∈ versions) (hv' : r'.id ∈ versions) (hopen : r.supersededAt = none)
    (hopen' : r'.supersededAt = none) : r = r' :=
  Option.some.inj ((h.end_of_open hr hv hopen).symm.trans (h.end_of_open hr' hv' hopen'))

/-- A publish from a version that was superseded leaves two open versions. -/
theorem OnePath.forked {root : Uuid} {path path' : List Rubric} {r : Rubric}
    (h : OnePath e.before root (descendants root past) path) (hlaw : PublishLaw base past e)
    (hprev : e.call.previousId ∈ descendants root past)
    (hr : e.before.rubrics.get e.call.previousId = some r) (hs : r.supersededAt ≠ none) :
    ¬ OnePath e.after root (descendants root (past ++ [e])) path' := by
  intro h'
  have hversions := descendants_concat root past e
  rw [if_pos hprev] at hversions
  obtain ⟨last, hlast⟩ : ∃ last, path.getLast? = some last := by
    cases path with
    | nil => exact absurd h.starts (by simp)
    | cons x path => exact ⟨_, List.getLast?_eq_some_getLast (List.cons_ne_nil x path)⟩
  have hmem : last ∈ path := List.mem_of_getLast? hlast
  have hopen : last.supersededAt = none := (h.current last hmem).mpr hlast
  have hstored : last ∈ e.after.rubrics := by
    have hm := hlaw.mem_marked (h.stored last hmem)
    rw [marked, if_neg] at hm
    · exact hm
    · intro he
      have heq : last = r := e.before.rubrics.eq_of_pk (h.stored last hmem) (Table.get_mem hr)
        ((show Relational.pk last = e.call.previousId from he).trans (Table.get_pk hr).symm)
      exact hs (heq ▸ hopen)
  -- two open versions on one path are one, but the published row is new
  have heq : last = published e := by
    apply h'.open_unique hstored (hlaw.stored (by rw [hr]; simp)) _ _ hopen
    · obtain ⟨_, _, _, _, hpub, _, _⟩ := hlaw.step
      rw [hpub]
    · rw [hversions]
      exact List.mem_append_left _ (h.covers.mem_iff.mp (List.mem_map_of_mem hmem))
    · rw [hversions]
      exact List.mem_append_right _ (List.mem_singleton_self _)
  exact hlaw.fresh (h.stored last hmem) (congrArg Rubric.id heq)

/-- One commit keeps the versions of `root` on one path, unless it was overtaken. -/
theorem onePath_step {root : Uuid} (h : Lawful (PublishLaw base) base (past ++ [e]))
    (hpath : ∃ path, OnePath (now base past) root (descendants root past) path) :
    (∃ path, OnePath (now base (past ++ [e])) root (descendants root (past ++ [e])) path) ↔
      (e.call.previousId ∈ descendants root past → ¬ Overtaken past e) := by
  obtain ⟨hlog, hbefore, hlaw⟩ := Lawful.concat.mp h
  obtain ⟨path, hpath⟩ := hpath
  obtain ⟨r, hr, _, hnew⟩ := hlaw.previous hlog
  rw [← hbefore] at hpath hr
  rw [now_concat]
  by_cases hprev : e.call.previousId ∈ descendants root past
  case neg => exact ⟨fun _ hp => absurd hp hprev, fun _ => ⟨path, hpath.elsewhere hlaw hprev⟩⟩
  by_cases hs : r.supersededAt = none
  · refine ⟨fun _ _ hover => ?_, fun _ => ⟨_, hpath.extend hlaw hprev hr hs hnew⟩⟩
    -- an overtaking publish would have marked the row
    obtain ⟨q, d, hq, hd, _, _⟩ := hover
    rw [hbefore, ← hd] at hr
    exact superseded_of_publish hlog hq hr hs
  · have hover : Overtaken past e := overtaken_of_superseded h (hbefore ▸ hr) hs
    refine ⟨fun ⟨path', hpath'⟩ => absurd hpath' (hpath.forked hlaw hprev hr hs), fun hC => ?_⟩
    exact absurd hover (hC hprev)

end History

/-! ### The transaction -/

def hasVersion (db : Db) (name : String) (version : ℤ) : Bool :=
  db.rubrics.rows.any (fun r => r.name = name ∧ r.version = version)

/-- What a lock on a version protects: its row, or whether a number is taken. -/
def versionRows : Lock → Setoid Db
  | .rubric id => Setoid.ker (fun db => db.rubrics.get id)
  | .rubricVersion name version => Setoid.ker (fun db => hasVersion db name version)
  | _ => ⊤

theorem versionRows_of_rubrics (row : Lock) (db db' : Db)
    (h : (Setoid.ker Db.rubrics).r db db') : (versionRows row).r db db' := by
  have h : db.rubrics = db'.rubrics := h
  cases row with
  | rubric id => exact congrArg (fun T : Table Rubric => T.get id) h
  | rubricVersion name version =>
    exact congrArg
      (fun T : Table Rubric => T.rows.any (fun r => r.name = name ∧ r.version = version)) h
  | _ => trivial

/-- There is room for a version when neither its id nor its number is taken. -/
theorem addVersion_isSome {r : Rubric} {db : Db} : (Session.addVersion r db).isSome =
    ((db.rubrics.get r.id).isNone && !hasVersion db r.name r.version) := by
  -- the primary key and `uq_rubric_name_version`
  have hclash : (∃ s ∈ db.rubrics, Clash s r) ↔
      db.rubrics.get r.id ≠ none ∨ hasVersion db r.name r.version = true := by
    rw [ne_eq, Table.get_eq_none, hasVersion, List.any_eq_true]
    push Not
    constructor
    · rintro ⟨s, hs, hid | hnv⟩
      · exact Or.inl ⟨s, hs, hid⟩
      · exact Or.inr ⟨s, hs, by simpa using Prod.mk.inj hnv⟩
    · rintro (⟨s, hs, hid⟩ | ⟨s, hs, hnv⟩)
      · exact ⟨s, hs, Or.inl hid⟩
      · obtain ⟨hn, hv⟩ := of_decide_eq_true hnv
        exact ⟨s, hs, Or.inr (Prod.ext hn hv)⟩
  rw [Session.addVersion, Option.isSome_map]
  cases hins : db.rubrics.insert r with
  | none =>
    rcases hclash.mp (Table.insert_eq_none.mp hins) with h | h
    · cases hg : db.rubrics.get r.id with
      | none => exact absurd hg h
      | some x => rfl
    · simp [h]
  | some T =>
    have hno : ¬ ∃ s ∈ db.rubrics, Clash s r := by
      rintro ⟨s, hs, hc⟩
      exact (Table.insert_eq_some.mp hins).1 s hs hc
    rw [hclash] at hno
    push Not at hno
    simp [hno.1, hno.2]

/-- An INSERT of a version touches its id and its number only. -/
theorem versionRows_addVersion {r : Rubric} {row : Lock}
    (hrow : row ∉ [Lock.rubric r.id, Lock.rubricVersion r.name r.version]) (db : Db) :
    (versionRows row).r db ((Session.addVersion r db).getD db) := by
  cases hins : db.rubrics.insert r with
  | none =>
    rw [Session.addVersion, hins]
    exact (versionRows row).refl db
  | some T =>
    rw [Session.addVersion, hins]
    simp only [List.mem_cons, List.not_mem_nil, or_false, not_or] at hrow
    cases row with
    | rubric id =>
      have hne : ¬ r.id = id := fun he => hrow.1 (he ▸ rfl)
      exact ((Table.get_insert hins id).trans (if_neg hne)).symm
    | rubricVersion name version =>
      show hasVersion db name version = List.any T.rows _
      rw [(Table.insert_eq_some.mp hins).2, List.any_append, hasVersion]
      have hne : ¬ (r.name = name ∧ r.version = version) := by
        rintro ⟨rfl, rfl⟩
        exact hrow.2 rfl
      simp [hne]
    | _ => trivial

/-- Marking a version touches its row only. -/
theorem versionRows_superseded {k newId : Uuid} {at_ : Time} {row : Lock} (hrow : row ≠ .rubric k)
    (db : Db) : (versionRows row).r db
      { db with rubrics := db.rubrics.update k (Rubric.superseded at_ newId) } := by
  cases row with
  | rubric id =>
    have hne : ¬ k = id := fun he => hrow (he ▸ rfl)
    exact ((db.rubrics.get_update k (Rubric.superseded at_ newId) (fun _ => rfl) id).trans
      (if_neg hne)).symm
  | rubricVersion name version =>
    show hasVersion db name version = List.any (db.rubrics.rows.map _) _
    rw [List.any_map, hasVersion]
    congr 1
    funext r
    show _ = decide ((if _ then _ else r).name = name ∧ (if _ then _ else r).version = version)
    split_ifs <;> rfl
  | _ => trivial

theorem addCriteria_rubrics (rows : List RubricCriterion) (db : Db) :
    ((Session.addCriteria rows db).getD db).rubrics = db.rubrics := by
  unfold Session.addCriteria
  cases db.rubricCriteria.insertAll rows <;> rfl

/-- A publish commits as `PublishLaw` says, under every interleaving. -/
theorem publishing_verified (base : Db) :
    Verified versionRows (PublishLaw base) base publishing := by
  intro c
  unfold publishing Session.publish
  rw [wp_bind, wp_demand]
  intro _
  rw [wp_bind, wp_see]
  -- the load of the rubric: the check that it is open is made on this snapshot
  intro log₁ hl₁ _
  rw [wp_bind, wp_demandSome]
  intro previous hprev
  rw [wp_bind, wp_demand]
  intro hopen
  rw [wp_bind, wp_see]
  -- the highest version is counted on a later one
  intro log₂ hl₂ hk₂
  extract_lets rubric rows
  have hid : previous.id = c.previousId := Table.get_pk hprev
  rw [hid]
  rw [wp_bind]
  refine wp_insert (by simp) ?_ ?_ (fun row hrow => versionRows_addVersion hrow) ?_
  · intro db db' hsame
    have hget : db.rubrics.get rubric.id = db'.rubrics.get rubric.id :=
      hsame (.rubric rubric.id) (by simp)
    have hhas :
        hasVersion db rubric.name rubric.version = hasVersion db' rubric.name rubric.version :=
      hsame (.rubricVersion rubric.name rubric.version) (by simp)
    rw [addVersion_isSome, addVersion_isSome, hget, hhas]
  · exact fun row _ db => (versionRows row).refl db
  intro s hs hroom hf
  rw [wp_bind]
  refine wp_frame versionRows_of_rubrics ?_ ?_
  · exact Writes.insert (fun db => (addCriteria_rubrics rows db).symm)
  intro _ s₁ hs₁
  -- everything the transaction knows later it knows with the two reads behind it
  have hknown : ∀ log, s₁.knows log → log₁ <+: log ∧ log₂ <+: log := fun log hk =>
    ⟨(hs.knows log (hs₁.knows log hk)).1.2, (hs.knows log (hs₁.knows log hk)).2⟩
  have hadded : ∀ log, s₁.knows log →
      ∃ T, (now base log).rubrics.insert rubric = some T ∧
        (s₁.pending (now base log)).rubrics = T := by
    intro log hk
    obtain ⟨db, hdb⟩ := Option.isSome_iff_exists.mp (hroom log (hs₁.knows log hk))
    obtain ⟨T, hT, rfl⟩ := Option.map_eq_some_iff.mp hdb
    refine ⟨T, hT, ?_⟩
    have hsame : ((Session.addVersion rubric (s.pending (now base log))).getD _).rubrics =
        (s₁.pending (now base log)).rubrics := hs₁.pending (now base log)
    rw [← hsame, hs.pending, hdb]
    rfl
  rw [wp_bind]
  refine wp_updateRow (fun row hrow => versionRows_superseded hrow) ?_ ?_
  · intro log₃ _ _ _ hf₃
    rw [wp_bind]
    refine wp_frame versionRows_of_rubrics ?_ ?_
    · exact Writes.updateWhere (fun _ _ => rfl)
    intro migrated s₂ hs₂
    rw [wp_bind, wp_see]
    intro log₄ _ _
    extract_lets openOnPrevious
    rw [wp_bind]
    refine wp_frame versionRows_of_rubrics ?_ ?_
    · exact Writes.set (fun _ => rfl)
    intro _ s₃ hs₃ log hl hk
    have hk₁ : s₁.knows log := (hs₂.knows log (hs₃.knows log hk).1).1.1
    obtain ⟨hle₁, hle₂⟩ := hknown log hk₁
    obtain ⟨T, hT, hT'⟩ := hadded log hk₁
    have hclock : [log₁.length, log₂.length] <+: s₃.clock := by
      have h₁ := hs₁.clock
      rw [show (s.wrote _ hf).clock = s.clock from rfl, hs.clock] at h₁
      exact h₁.trans (hs₂.clock.trans ((List.prefix_append _ _).trans hs₃.clock))
    obtain ⟨rest, hrest⟩ := hclock
    have hload : s₃.clock.getD 0 0 = log₁.length := by rw [← hrest]; rfl
    have hcount : s₃.clock.getD 1 0 = log₂.length := by rw [← hrest]; rfl
    -- order of the two reads, the load, the count, the rows written
    refine ⟨?_, previous, T, ?_, hopen, ?_, hT, ?_⟩
    · show s₃.clock.getD 0 0 ≤ s₃.clock.getD 1 0 ∧ s₃.clock.getD 1 0 ≤ log.length
      rw [hload, hcount]
      exact ⟨hk₂.2.length_le, hle₂.length_le⟩
    · show (storeAt base log (s₃.clock.getD 0 0)).rubrics.get c.previousId = some previous
      rw [hload, storeAt_of_prefix hle₁]
      exact hprev
    · show rubric = ⟨_, _, latestVersion (storeAt base log (s₃.clock.getD 1 0)) previous + 1, _, _⟩
      rw [hcount, storeAt_of_prefix hle₂]
      rfl
    · -- the later statements leave the versions alone
      have h₃ : (s₂.pending (now base log)).rubrics = (s₃.pending (now base log)).rubrics :=
        hs₃.pending (now base log)
      have h₂ : ((s₁.pending (now base log)).rubrics.update c.previousId
          (Rubric.superseded c.env.now rubric.id)) = (s₂.pending (now base log)).rubrics :=
        hs₂.pending (now base log)
      exact h₃.symm.trans (h₂.symm.trans
        (congrArg (fun T : Table Rubric =>
          T.update c.previousId (Rubric.superseded c.env.now rubric.id)) hT'))
  · intro log hl hk hnone
    obtain ⟨T, hT, hT'⟩ := hadded log hk
    obtain ⟨x, hx, _⟩ := rubrics_evolve hl (hknown log hk).1 _ _ hprev
    rw [hT', Table.get_insert_of_some hT hx] at hnone
    exact absurd hnone (by simp)

/-- A rubric as it was created. -/
def Created (db : Db) (root : Uuid) : Prop :=
  ∃ r, db.rubrics.get root = some r ∧ r.supersededAt = none ∧ r.supersededById = none

theorem Created.onePath {base : Db} {root : Uuid} (h : Created base root) :
    ∃ path, OnePath base root (descendants root []) path := by
  obtain ⟨r, hr, hopen, hend⟩ := h
  refine ⟨[r], ?_, ?_, ?_, ?_, ?_, ?_⟩
  · intro x hx
    obtain rfl := List.mem_singleton.mp hx
    exact Table.get_mem hr
  · exact congrArg some (Table.get_pk hr)
  · rw [List.map_singleton, show r.id = root from Table.get_pk hr]
    exact List.Perm.refl _
  · exact List.isChain_singleton r
  · intro x hx
    obtain rfl := List.mem_singleton.mp hx
    exact ⟨fun _ => rfl, fun _ => hopen⟩
  · intro x hx
    obtain rfl := Option.some.inj hx
    exact hend

/-- In every interleaving of publishes the versions of a created rubric stay on one path
exactly when no publish of one of them is overtaken by another of the same version. -/
theorem onePath_iff_not_overtaken (base : Db) (root : Uuid) (hroot : Created base root)
    (schedule : List (Choice PublishCall ℕ)) :
    (∀ past, past <+: committed publishing base schedule →
      ∃ path, OnePath (now base past) root (descendants root past) path) ↔
    ∀ past e, past ++ [e] <+: committed publishing base schedule →
      e.call.previousId ∈ descendants root past → ¬ Overtaken past e :=
  (lawful_committed (publishing_verified base) schedule).throughout_iff hroot.onePath
    (fun _ _ h hpath => onePath_step h hpath)

deriving instance DecidableEq for Rubric

namespace Scenario

/-- A publish from rubric 100. -/
def revise (n : ℕ) : PublishCall :=
  ⟨env n, 100, [⟨"accuracy", "Accuracy", 1, 1, 5⟩], "admin"⟩

/-- Transaction 2 loads rubric 100; transaction 1 publishes from it and commits; then
transaction 2 goes on. -/
def overtaken : List (Choice PublishCall ℕ) :=
  [.start 1 (revise 10), .start 2 (revise 11), .run 2] ++ List.replicate 13 (.run 1) ++
    List.replicate 13 (.run 2)

def forked : List Publication := committed publishing (after setup) overtaken

end Scenario

open Scenario in
/-- Two publishes from one version both commit and leave two open versions. -/
theorem overtaken_publish_forks : ¬ ∀ past, past <+: committed publishing (after setup) overtaken →
    ∃ path, OnePath (now (after setup) past) 100 (descendants 100 past) path := by
  intro h
  obtain ⟨path, hpath⟩ := h _ (List.prefix_refl _)
  have hopen : (now (after setup) forked).rubrics.rows.filter
      (fun r => r.id ∈ descendants 100 forked ∧ r.supersededAt = none) =
      [⟨1000, "helpfulness", 2, none, none⟩, ⟨1100, "helpfulness", 3, none, none⟩] := by
    decide +kernel
  have hmem : ∀ r : Rubric,
      r ∈ [⟨1000, "helpfulness", 2, none, none⟩, (⟨1100, "helpfulness", 3, none, none⟩ : Rubric)] →
      r ∈ (now (after setup) forked).rubrics ∧ r.id ∈ descendants 100 forked ∧
        r.supersededAt = none := by
    intro r hr
    rw [← hopen, List.mem_filter] at hr
    exact ⟨hr.1, of_decide_eq_true hr.2⟩
  obtain ⟨h₁, hv₁, ho₁⟩ := hmem _ List.mem_cons_self
  obtain ⟨h₂, hv₂, ho₂⟩ := hmem _ (List.mem_cons_of_mem _ List.mem_cons_self)
  exact absurd (hpath.open_unique h₁ h₂ hv₁ hv₂ ho₁ ho₂) (by decide)

open Scenario in
theorem onePath_iff_not_overtaken_two : Created (after setup) 100 ∧
    ((∀ past, past <+: committed publishing (after setup) overtaken →
      ∃ path, OnePath (now (after setup) past) 100 (descendants 100 past) path) ↔
    ∀ past e, past ++ [e] <+: committed publishing (after setup) overtaken →
      e.call.previousId ∈ descendants 100 past → ¬ Overtaken past e) := by
  have hcreated : Created (after setup) 100 :=
    ⟨⟨100, "helpfulness", 1, none, none⟩, by decide +kernel, rfl, rfl⟩
  exact ⟨hcreated, onePath_iff_not_overtaken (after setup) 100 hcreated overtaken⟩

end Panelist
