import Panelist.Access

/-! The stored keys over a run of requests: how a key comes to be, how long it works, and who
stands behind it. -/
namespace Panelist
open Relational Transaction

/-! ### The stored keys -/

def ApiKey.revoke (now : Time) (k : ApiKey) : ApiKey := { k with revokedAt := some now }

theorem ApiKey.revoke_keeps (now : Time) : Table.Keeps (ApiKey.revoke now) := fun _ => rfl

def Op.IssuesKey : Op → Prop
  | .createKey .. | .createExpertKey .. => True
  | _ => False

def Op.KeepsKeys : Op → Prop
  | .createKey .. | .createExpertKey .. | .revokeKey .. | .bootstrap .. => False
  | _ => True

/-- The key `panelist bootstrap` adds. -/
def bootstrapKey (env : Env) (raw : String) : ApiKey :=
  ⟨env.uuid4 0, hashKey env raw, .admin, none, "bootstrap", none⟩

/-- What a request answers and leaves of the stored keys. -/
inductive KeyStep (r : Request) (db : Db) : Response → Table ApiKey → Prop
  | kept {x : Response} (hop : r.op.KeepsKeys) (hx : ∀ k, x ≠ .key k) : KeyStep r db x db.apiKeys
  | issued {k : ApiKey} {keys : Table ApiKey} (hop : r.op.IssuesKey) (hlive : k.revokedAt = none)
      (hi : db.apiKeys.insert k = some keys) : KeyStep r db (.key k) keys
  | bootstrapped {raw : String} {keys : Table ApiKey} (hop : r.op = .bootstrap raw)
      (hi : db.apiKeys.insert (bootstrapKey r.env raw) = some keys) : KeyStep r db .done keys
  | present {raw : String} {k : ApiKey} (hop : r.op = .bootstrap raw) (hk : k ∈ db.apiKeys)
      (hhash : k.keyHash = hashKey r.env raw) : KeyStep r db .done db.apiKeys
  | revoked {k : ApiKey} {actor : String} (hop : r.op = .revokeKey k.id actor)
      (hk : k ∈ db.apiKeys) (hlive : k.revokedAt = none) :
      KeyStep r db .done
        (db.apiKeys.update k.id (ApiKey.revoke r.env.now) (ApiKey.revoke_keeps r.env.now))
  | again {k : ApiKey} {actor : String} (hop : r.op = .revokeKey k.id actor)
      (hk : k ∈ db.apiKeys) (hrevoked : k.revokedAt ≠ none) : KeyStep r db .done db.apiKeys

section Keys
variable {r : Request} {db db' : Db} {x : Response}

theorem issueKey_live {env : Env} {role : Role} {expertId : Option Uuid} {label raw : String}
    {k : ApiKey} (h : issueKey env db role expertId label raw = .ok (db', k)) :
    k.revokedAt = none := by
  simp only [issueKey, bind_ok_iff, pure_ok_iff, Prod.mk.injEq] at h
  obtain ⟨-, -, -, -, -, rfl⟩ := h
  rfl

theorem createKey_step {role : Role} {expertId : Option Uuid} {label raw actor : String}
    {k : ApiKey} (hop : r.op.IssuesKey)
    (h : createKey r.env db role expertId label raw actor = .ok (db', k)) :
    KeyStep r db (.key k) db'.apiKeys := by
  simp only [createKey, bind_ok_iff, pure_ok_iff, Prod.mk.injEq, Prod.exists] at h
  obtain ⟨_, _, hissue, rfl, rfl⟩ := h
  have hlive := issueKey_live hissue
  obtain ⟨keys, hi, rfl⟩ := issueKey_ok hissue
  exact .issued hop hlive hi

theorem createExpertKey_step {expertId : Uuid} {raw actor : String} {k : ApiKey}
    (hop : r.op.IssuesKey)
    (h : createExpertKey r.env db expertId raw actor = .ok (db', k)) :
    KeyStep r db (.key k) db'.apiKeys := by
  simp only [createExpertKey, bind_ok_iff, pure_ok_iff, Prod.mk.injEq, Prod.exists] at h
  obtain ⟨_, _, _, _, hissue, rfl, rfl⟩ := h
  have hlive := issueKey_live hissue
  obtain ⟨keys, hi, rfl⟩ := issueKey_ok hissue
  exact .issued hop hlive hi

theorem revokeKey_step {keyId : Uuid} {actor : String} {u : Unit}
    (hop : r.op = .revokeKey keyId actor) (h : revokeKey r.env db keyId actor = .ok (db', u)) :
    KeyStep r db .done db'.apiKeys := by
  simp only [revokeKey, bind_ok_iff, orFail_ok_iff] at h
  obtain ⟨k, hk, h⟩ := h
  have hid : k.id = keyId := Table.get_pk hk
  subst hid
  split_ifs at h with hlive
  all_goals obtain ⟨rfl, -⟩ := Prod.mk.inj (pure_ok_iff.mp h)
  · exact .revoked hop (Table.get_mem hk) hlive
  · exact .again hop (Table.get_mem hk) hlive

theorem bootstrap_step {raw : String} {u : Unit} (hop : r.op = .bootstrap raw)
    (h : bootstrap r.env db raw = .ok (db', u)) : KeyStep r db .done db'.apiKeys := by
  unfold bootstrap at h
  dsimp only at h
  split_ifs at h with hany
  · obtain ⟨rfl, -⟩ := Prod.mk.inj (pure_ok_iff.mp h)
    obtain ⟨k, hk, hhash⟩ := List.any_eq_true.mp hany
    exact .present hop hk (of_decide_eq_true hhash)
  · simp only [bind_ok_iff, orFail_ok_iff, pure_ok_iff, Prod.mk.injEq] at h
    obtain ⟨keys, hi, rfl, -⟩ := h
    exact .bootstrapped hop hi

/-- Only four of the requests write keys. -/
theorem step_keys (h : step r db = .ok (db', x)) : KeyStep r db x db'.apiKeys := by
  cases hop : r.op
  all_goals
    simp only [step, hop] at h
    obtain ⟨a, hstep, rfl⟩ := answer_ok h
    clear h
    rename' hstep => h
    have hkeys : ∀ {op : Op}, r.op = op → op.KeepsKeys → r.op.KeepsKeys := fun he hk => he ▸ hk
    have hissues : ∀ {op : Op}, r.op = op → op.IssuesKey → r.op.IssuesKey := fun he hk => he ▸ hk
  -- five of the operations are about keys, the others keep the table
  case createExpert =>
    obtain ⟨_, _, _, _, rfl⟩ := createExpert_ok h
    exact .kept (hkeys hop trivial) (by simp)
  case setStatus =>
    obtain ⟨_, _, _, rfl⟩ := setStatus_ok h
    exact .kept (hkeys hop trivial) (by simp)
  case createKey => exact createKey_step (hissues hop trivial) h
  case createExpertKey => exact createExpertKey_step (hissues hop trivial) h
  case revokeKey => exact revokeKey_step hop h
  case bootstrap => exact bootstrap_step hop h
  case createRubric =>
    obtain ⟨_, _, hadd, _, rfl⟩ := createRubric_ok h
    obtain ⟨_, _, _, _, rfl⟩ := addRubric_ok hadd
    exact .kept (hkeys hop trivial) (by simp)
  case publish =>
    obtain ⟨_, _, _, _, _, _, hadd, rfl⟩ := publish_ok h
    obtain ⟨_, _, _, _, rfl⟩ := addRubric_ok hadd
    exact .kept (hkeys hop trivial) (by simp)
  case putRateCards =>
    obtain ⟨_, rfl⟩ := putRateCards_ok h
    exact .kept (hkeys hop trivial) (by simp)
  case createTasks =>
    obtain ⟨_, _, _, _, _, _, _, rfl⟩ := createTasks_ok h
    exact .kept (hkeys hop trivial) (by simp)
  case claimNext =>
    obtain ⟨_, _, _, ⟨rfl, _⟩ | ⟨_, _, _, hassign⟩⟩ := claimNext_ok h
    · exact .kept (hkeys hop trivial) (by simp)
    · obtain rfl := congrArg Prod.fst hassign
      exact .kept (hkeys hop trivial) (by simp)
  case claimById =>
    obtain ⟨_, _, _, _, _, _, _, _, hassign⟩ := claimById_ok_iff.mp h
    obtain rfl := congrArg Prod.fst hassign
    exact .kept (hkeys hop trivial) (by simp)
  case release =>
    obtain ⟨_, _, _, _, _, _, rfl⟩ := release_ok h
    exact .kept (hkeys hop trivial) (by simp)
  case reclaim =>
    obtain rfl := congrArg Prod.fst (pure_ok_iff.mp h)
    exact .kept (hkeys hop trivial) (by simp)
  case submit =>
    obtain ⟨_, _, _, _, _, _, _, _, _, _, _, _, _, _, _, hcheck⟩ := submit_ok h
    obtain ⟨_, _, _, _, _, _, _, _, rfl⟩ := checkGrade_ok hcheck
    exact .kept (hkeys hop trivial) (by simp)
  case review =>
    obtain ⟨_, _, _, _, _, _, _, _, _, _, _, _, _, _, rfl⟩ := review_ok h
    exact .kept (hkeys hop trivial) (by simp)
  case resolve =>
    obtain ⟨_, _, _, _, _, _, _, _, _, _, hloop, rfl⟩ := resolve_ok h
    obtain ⟨_, _, _, _, _, _, _, _, rfl⟩ := resolveLoop_ok (gradesFor_experts db _) hloop
    exact .kept (hkeys hop trivial) (by simp)
  case closePeriod =>
    obtain ⟨_, _, _, _, rfl⟩ := closePeriod_ok h
    exact .kept (hkeys hop trivial) (by simp)
  case exportDelivery =>
    obtain ⟨_, _, _, _, rfl⟩ := exportDelivery_ok h
    exact .kept (hkeys hop trivial) (by simp)
  case tick =>
    obtain ⟨_, _, _, _, rfl⟩ := tick_ok h
    exact .kept (hkeys hop trivial) (by simp)

/-- A key as it was when it was issued. -/
def ApiKey.asIssued (k : ApiKey) : ApiKey := { k with revokedAt := none }

theorem ApiKey.asIssued_of_live {k : ApiKey} (h : k.revokedAt = none) : k.asIssued = k := by
  cases k
  simp only at h
  rw [h]
  rfl

theorem ApiKey.columns_of_asIssued {k k' : ApiKey} (h : k'.asIssued = k.asIssued) :
    k'.id = k.id ∧ k'.keyHash = k.keyHash ∧ k'.role = k.role ∧ k'.expertId = k.expertId := by
  obtain ⟨hid, hhash, hrole, hexpert, -⟩ := ApiKey.mk.inj h
  exact ⟨hid, hhash, hrole, hexpert⟩

/-- No key is lost, and a revoked one stays as it is. -/
theorem KeyStep.mem {keys : Table ApiKey} {k : ApiKey} (h : KeyStep r db x keys)
    (hk : k ∈ db.apiKeys) :
    ∃ k' ∈ keys, k'.asIssued = k.asIssued ∧ (k.revokedAt ≠ none → k' = k) := by
  cases h with
  | kept | present | again => exact ⟨k, hk, rfl, fun _ => rfl⟩
  | issued _ _ hi | bootstrapped _ hi =>
    exact ⟨k, (Table.mem_insert hi).mpr (Or.inl hk), rfl, fun _ => rfl⟩
  | @revoked k₀ _ _ hk₀ hlive =>
    refine ⟨_, (Table.mem_update (ApiKey.revoke_keeps r.env.now)).mpr ⟨k, hk, rfl⟩, ?_⟩
    split_ifs with hid
    · have hsame : k = k₀ := db.apiKeys.eq_of_pk hk hk₀ hid
      exact ⟨rfl, fun hrevoked => absurd (hsame ▸ hlive) hrevoked⟩
    · exact ⟨rfl, fun _ => rfl⟩

/-- Every key was there before, or it is the one of the answer or of `panelist bootstrap`. -/
theorem KeyStep.origin {keys : Table ApiKey} {k : ApiKey} (h : KeyStep r db x keys)
    (hk : k ∈ keys) : (∃ k' ∈ db.apiKeys, k'.asIssued = k.asIssued) ∨
      (r.op.IssuesKey ∧ x = .key k ∧ k.revokedAt = none) ∨
      ∃ raw, r.op = .bootstrap raw ∧ k = bootstrapKey r.env raw := by
  cases h with
  | kept | present | again => exact Or.inl ⟨k, hk, rfl⟩
  | issued hop hlive hi =>
    rcases (Table.mem_insert hi).mp hk with hold | rfl
    · exact Or.inl ⟨k, hold, rfl⟩
    · exact Or.inr (Or.inl ⟨hop, rfl, hlive⟩)
  | bootstrapped hop hi =>
    rcases (Table.mem_insert hi).mp hk with hold | rfl
    · exact Or.inl ⟨k, hold, rfl⟩
    · exact Or.inr (Or.inr ⟨_, hop, rfl⟩)
  | revoked =>
    obtain ⟨k', hk', rfl⟩ := (Table.mem_update (ApiKey.revoke_keeps r.env.now)).mp hk
    refine Or.inl ⟨k', hk', ?_⟩
    split_ifs <;> rfl

end Keys

/-! ### The life of a key -/

/-- The key a request adds: the one it answers with, or the one `panelist bootstrap` adds when
no stored key has that hash. -/
def Incoming.Issues (sha256 : ByteArray → List UInt8) (db : Db) (i : Incoming) (k : ApiKey) :
    Prop :=
  (∃ db', respond sha256 i db = .ok (db', .key k)) ∨
    ∃ env raw db', i = .bootstrap env raw ∧ respond sha256 i db = .ok (db', .done) ∧
      (∀ k' ∈ db.apiKeys, k'.keyHash ≠ hashed sha256 raw) ∧
      k = bootstrapKey (env.hashing sha256) raw

/-- A revocation that is answered with success. -/
def Incoming.Revokes (sha256 : ByteArray → List UInt8) (db : Db) (i : Incoming) (id : Uuid) :
    Prop :=
  ∃ env header db', i = .http env header (.revokeKey id) ∧ respond sha256 i db = .ok (db', .done)

def Live (k : ApiKey) (db : Db) : Prop := k ∈ db.apiKeys ∧ k.revokedAt = none

section Life
variable {sha256 : ByteArray → List UInt8} {db db' : Db} {x : Response} {i : Incoming} {r : Request}
variable {k : ApiKey} {id : Uuid}

theorem issues_iff (hr : respond sha256 i db = .ok (db', x)) (henv : r.env = i.env.hashing sha256)
    (hruns : i.Runs sha256 db r.op) : i.Issues sha256 db k ↔ x = .key k ∨
      x = .done ∧ ∃ raw, r.op = .bootstrap raw ∧
        (∀ k' ∈ db.apiKeys, k'.keyHash ≠ hashed sha256 raw) ∧
        k = bootstrapKey r.env raw := by
  rw [Incoming.Issues, hr]
  constructor
  · rintro (⟨_, h⟩ | ⟨env, raw, _, rfl, h, hfresh, rfl⟩)
    · exact Or.inl (Prod.mk.inj (Except.ok.inj h)).2
    · exact Or.inr ⟨(Prod.mk.inj (Except.ok.inj h)).2, raw, hruns, hfresh, by rw [henv]; rfl⟩
  · rintro (rfl | ⟨rfl, raw, hop, hfresh, rfl⟩)
    · exact Or.inl ⟨db', rfl⟩
    · rw [hop] at hruns
      obtain ⟨env, rfl⟩ := hruns.of_bootstrap
      exact Or.inr ⟨env, raw, db', rfl, rfl, hfresh, by rw [henv]; rfl⟩

theorem revokes_iff (hr : respond sha256 i db = .ok (db', x)) (hruns : i.Runs sha256 db r.op) :
    i.Revokes sha256 db id ↔ x = .done ∧ ∃ actor, r.op = .revokeKey id actor := by
  constructor
  · rintro ⟨env, header, db₁, rfl, h⟩
    obtain ⟨k', -, hop⟩ := hruns
    simp only [Route.authorize, bind_ok_iff, pure_ok_iff] at hop
    obtain ⟨-, -, hop⟩ := hop
    exact ⟨(Prod.mk.inj (Except.ok.inj (hr.symm.trans h))).2, _, hop.symm⟩
  · rintro ⟨rfl, actor, hop⟩
    rw [hop] at hruns
    obtain ⟨env, header, rfl⟩ := hruns.of_revokeKey
    exact ⟨env, header, db', rfl, hr⟩

theorem not_issues_of_error {f : Failure} (h : respond sha256 i db = .error f) :
    ¬ i.Issues sha256 db k := by
  rw [Incoming.Issues, h]
  simp

theorem not_revokes_of_error {f : Failure} (h : respond sha256 i db = .error f) :
    ¬ i.Revokes sha256 db id := by
  rintro ⟨env, header, db', -, h'⟩
  rw [h] at h'
  exact absurd h' (by simp)

/-- The keys in use after a request: those it issued, and those there were but for the one it
revoked. -/
theorem live_commit (i : Incoming) (db : Db) : Live k (commit (respond sha256) i db) ↔
    i.Issues sha256 db k ∨ Live k db ∧ ¬ i.Revokes sha256 db k.id := by
  rcases commit_cases (respond sha256) i db with ⟨x, hr⟩ | ⟨⟨f, hf⟩, hsame⟩
  · obtain ⟨r, henv, hruns, hstep⟩ := respond_ok hr
    rw [issues_iff hr henv hruns, revokes_iff hr hruns, Live, Live]
    generalize commit (respond sha256) i db = db' at hstep
    have hkeys := step_keys hstep
    generalize db'.apiKeys = keys at hkeys
    cases hkeys with
    | kept hop hx =>
      -- neither a key is written nor one revoked
      have hboot : ∀ raw, r.op ≠ .bootstrap raw := by
        intro raw h
        rw [h] at hop
        exact hop
      have hrevoke : ∀ id actor, r.op ≠ .revokeKey id actor := by
        intro id actor h
        rw [h] at hop
        exact hop
      simp [hx, hboot, hrevoke]
    | @issued k' _ hop hlive hi =>
      -- the table has one key more, and that one is live
      have hnew : k ∈ keys ↔ k ∈ db.apiKeys ∨ k = k' := Table.mem_insert hi
      simp only [hnew, Response.key.injEq, reduceCtorEq, false_and, or_false, not_false_iff,
        and_true]
      constructor
      · rintro ⟨hold | rfl, hk⟩
        · exact Or.inr ⟨hold, hk⟩
        · exact Or.inl rfl
      · rintro (rfl | ⟨hold, hk⟩)
        · exact ⟨Or.inr rfl, hlive⟩
        · exact ⟨Or.inl hold, hk⟩
    | @bootstrapped raw _ hop hi =>
      have hnew : k ∈ keys ↔ k ∈ db.apiKeys ∨ k = bootstrapKey r.env raw := Table.mem_insert hi
      have hhash : (bootstrapKey r.env raw).keyHash = hashed sha256 raw := by rw [henv]; rfl
      -- the first bootstrap with this raw key: no stored key has its hash
      have hfresh : ∀ k' ∈ db.apiKeys, k'.keyHash ≠ hashed sha256 raw := by
        intro k' hk' he
        exact (Table.insert_eq_some.mp hi).1 k' hk' (Or.inr (he.trans hhash.symm))
      simp only [hnew, hop, reduceCtorEq, false_or, true_and, Op.bootstrap.injEq, exists_eq_left',
        exists_false, not_false_iff, and_true]
      constructor
      · rintro ⟨hold | rfl, hk⟩
        · exact Or.inr ⟨hold, hk⟩
        · exact Or.inl ⟨hfresh, rfl⟩
      · rintro (⟨-, rfl⟩ | ⟨hold, hk⟩)
        · exact ⟨Or.inr rfl, rfl⟩
        · exact ⟨Or.inl hold, hk⟩
    | @present raw k' hop hk hhash =>
      -- a bootstrap whose key is stored issues nothing
      have hstale : ¬ ∀ k' ∈ db.apiKeys, k'.keyHash ≠ hashed sha256 raw := by
        intro hfresh
        exact hfresh k' hk (by rw [hhash, henv]; rfl)
      simp only [hop, reduceCtorEq, false_or, true_and, Op.bootstrap.injEq, exists_eq_left', hstale,
        false_and, exists_false, not_false_iff, and_true]
    | @revoked k' actor hop hk hlive =>
      simp only [hop, reduceCtorEq, false_and, exists_false, and_false, or_false, false_or,
        true_and, Op.revokeKey.injEq]
      -- only the row with the id gets a time of revocation
      have hmem := Table.mem_update (T := db.apiKeys) (k := k'.id) (s := k)
        (ApiKey.revoke_keeps r.env.now)
      constructor
      · rintro ⟨hnew, hnone⟩
        obtain ⟨s, hs, he⟩ := hmem.mp hnew
        split_ifs at he with hid
        · rw [← he] at hnone
          exact absurd hnone (by simp [ApiKey.revoke])
        · subst he
          refine ⟨⟨hs, hnone⟩, ?_⟩
          rintro ⟨_, he, _⟩
          exact hid he.symm
      · rintro ⟨⟨hold, hnone⟩, hother⟩
        refine ⟨hmem.mpr ⟨k, hold, ?_⟩, hnone⟩
        exact if_neg (fun he => hother ⟨actor, he.symm, rfl⟩)
    | @again k' actor hop hk hrevoked =>
      simp only [hop, reduceCtorEq, false_and, exists_false, and_false, or_false, false_or,
        true_and, Op.revokeKey.injEq]
      constructor
      · rintro ⟨hmem, hnone⟩
        refine ⟨⟨hmem, hnone⟩, ?_⟩
        rintro ⟨_, hid, -⟩
        -- the row was revoked before, so it was not live
        have hsame : k' = k := db.apiKeys.eq_of_pk hk hmem hid
        exact hrevoked (hsame ▸ hnone)
      · exact fun h => h.1
  -- a failed call leaves the keys, and neither issues nor revokes
  · rw [hsame]
    exact ⟨fun h => Or.inr ⟨h, not_revokes_of_error hf⟩,
      fun h => h.resolve_left (not_issues_of_error hf) |>.1⟩

/-- A key is in use from the request that issues it on, until one revokes it. -/
theorem live_iff (sha256 : ByteArray → List UInt8) (rs : List Incoming) (k : ApiKey) :
    Live k (served sha256 rs) ↔ Since (respond sha256) (fun db i => i.Issues sha256 db k)
      (fun db i => i.Revokes sha256 db k.id) Db.empty rs :=
  run_since (respond sha256) live_commit (fun h => Table.not_mem_empty k h.1) rs

/-- A header is accepted exactly for a key that a request issued under its hash and none has
revoked since, and with the role that key was issued for. -/
theorem authenticate_iff (sha256 : ByteArray → List UInt8) (rs : List Incoming) (env : Env)
    (header : Option String) (p : Principal) :
    authenticate (env.hashing sha256) (served sha256 rs) header = .ok p ↔
      ∃ raw k, header = some raw ∧ raw ≠ "" ∧ k.keyHash = hashed sha256 raw ∧ p = k.principal ∧
        Since (respond sha256) (fun db i => i.Issues sha256 db k)
          (fun db i => i.Revokes sha256 db k.id) Db.empty rs := by
  rw [authenticate_ok_iff]
  constructor
  · rintro ⟨k, ⟨hk, hlive, raw, hheader, hraw, hhash⟩, hp⟩
    exact ⟨raw, k, hheader, hraw, hhash, hp, (live_iff sha256 rs k).mp ⟨hk, hlive⟩⟩
  · rintro ⟨raw, k, hheader, hraw, hhash, hp, hsince⟩
    obtain ⟨hk, hlive⟩ := (live_iff sha256 rs k).mpr hsince
    exact ⟨k, ⟨hk, hlive, raw, hheader, hraw, hhash⟩, hp⟩

/-- What a request does to the stored keys, once it is let in. -/
theorem commit_keys (sha256 : ByteArray → List UInt8) (i : Incoming) (db : Db) :
    (∃ r x, r.env = i.env.hashing sha256 ∧ i.Runs sha256 db r.op ∧
      respond sha256 i db = .ok (commit (respond sha256) i db, x) ∧
      KeyStep r db x (commit (respond sha256) i db).apiKeys) ∨
    commit (respond sha256) i db = db := by
  rcases commit_cases (respond sha256) i db with ⟨x, hr⟩ | ⟨-, hsame⟩
  · obtain ⟨r, henv, hruns, hstep⟩ := respond_ok hr
    exact Or.inl ⟨r, x, henv, hruns, hr, step_keys hstep⟩
  · exact Or.inr hsame

/-- A revoked key is on record. -/
def Retired (hash : String) (db : Db) : Prop :=
  ∃ k ∈ db.apiKeys, k.keyHash = hash ∧ k.revokedAt ≠ none

theorem Retired.commit {hash : String} (h : Retired hash db) (i : Incoming) :
    Retired hash (commit (respond sha256) i db) := by
  obtain ⟨k, hk, hhash, hrevoked⟩ := h
  rcases commit_keys sha256 i db with ⟨r, x, -, -, -, hkeys⟩ | hsame
  · obtain ⟨k', hk', -, hkeep⟩ := hkeys.mem hk
    obtain rfl := hkeep hrevoked
    exact ⟨k', hk', hhash, hrevoked⟩
  · rw [hsame]
    exact ⟨k, hk, hhash, hrevoked⟩

theorem Retired.served {hash : String} {rs : List Incoming} (h : Retired hash (served sha256 rs))
    (qs : List Incoming) : Retired hash (served sha256 (rs ++ qs)) := by
  induction qs using List.reverseRecOn with
  | nil =>
    rw [List.append_nil]
    exact h
  | append_singleton qs i ih =>
    rw [← List.append_assoc, Panelist.served, run_concat]
    exact ih.commit i

theorem revokes_retired (hi : i.Revokes sha256 db k.id) (hk : k ∈ db.apiKeys) :
    Retired k.keyHash (commit (respond sha256) i db) := by
  -- a request that revokes a key issues none
  have hgone : ¬ Live k (commit (respond sha256) i db) := by
    rw [live_commit]
    rintro (hissues | ⟨-, hnot⟩)
    · obtain ⟨env, header, db', rfl, hr⟩ := hi
      rcases hissues with ⟨_, h⟩ | ⟨_, _, _, h, -⟩
      · rw [hr] at h
        exact absurd h (by simp)
      · exact absurd h (by simp)
    · exact hnot hi
  rcases commit_keys sha256 i db with ⟨r, x, -, -, -, hkeys⟩ | hsame
  · obtain ⟨k', hk', hsame, hkeep⟩ := hkeys.mem hk
    refine ⟨k', hk', (ApiKey.columns_of_asIssued hsame).2.1, fun hlive => ?_⟩
    have hlive' : k.revokedAt = none := by
      by_contra hrevoked
      exact hrevoked (hkeep hrevoked ▸ hlive)
    rw [ApiKey.asIssued_of_live hlive, ApiKey.asIssued_of_live hlive'] at hsame
    rw [hsame] at hk'
    exact hgone ⟨hk', hlive'⟩
  · rw [hsame] at hgone ⊢
    exact ⟨k, hk, rfl, fun hlive => hgone ⟨hk, hlive⟩⟩

/-- Once a key is revoked, every later call with it is answered with 401: no request, and no
`panelist bootstrap` with the same key, brings it back. -/
theorem revoked_forever {earlier : List Incoming} {raw : String}
    (hi : i.Revokes sha256 (served sha256 earlier) k.id)
    (hk : k ∈ (served sha256 earlier).apiKeys) (hhash : k.keyHash = hashed sha256 raw)
    (later : List Incoming) (env : Env) (route : Route) : ∃ detail,
      respond sha256 (.http env (some raw) route) (served sha256 (earlier ++ i :: later)) =
        .error (.http 401 detail) := by
  have hretired : Retired k.keyHash (served sha256 (earlier ++ [i])) := by
    rw [served, run_concat]
    exact revokes_retired hi hk
  obtain ⟨k', hk', hhash', hrevoked⟩ := hretired.served later
  rw [List.append_assoc, List.singleton_append] at hk'
  have hno : ∀ k'', ¬ Presents sha256 (served sha256 (earlier ++ i :: later)) (some raw) k'' := by
    rintro k'' ⟨hk'', hlive, raw', he, -, hhash''⟩
    obtain rfl := Option.some.inj he
    have hsame : k' = k'' := ApiKey.eq_of_hash hk' hk'' (by rw [hhash', hhash, hhash''])
    exact hrevoked (hsame ▸ hlive)
  obtain ⟨detail, hdetail⟩ := authenticate_refused env hno
  exact ⟨detail, by rw [respond, hdetail]; rfl⟩

/-- Keys with a chain of administrators behind them, each issued by the next, that ends at
`panelist bootstrap`. -/
inductive Descends (sha256 : ByteArray → List UInt8) : List Incoming → ApiKey → Prop
  | bootstrapped (earlier later : List Incoming) (env : Env) (raw : String) :
      Descends sha256 (earlier ++ .bootstrap env raw :: later)
        (bootstrapKey (env.hashing sha256) raw)
  | issued {earlier : List Incoming} {env : Env} {header : Option String} {route : Route}
      {issuer k : ApiKey} {db' : Db} (later : List Incoming)
      (hissuer : Descends sha256 earlier issuer)
      (hadmin : issuer.role = .admin)
      (hheader : Presents sha256 (served sha256 earlier) header issuer)
      (hr : respond sha256 (.http env header route) (served sha256 earlier) = .ok (db', .key k)) :
      Descends sha256 (earlier ++ .http env header route :: later) k

theorem Descends.concat {rs : List Incoming} (h : Descends sha256 rs k) (i : Incoming) :
    Descends sha256 (rs ++ [i]) k := by
  cases h with
  | bootstrapped earlier later env raw =>
    rw [List.append_assoc, List.cons_append]
    exact .bootstrapped earlier (later ++ [i]) env raw
  | issued later hissuer hadmin hheader hr =>
    rw [List.append_assoc, List.cons_append]
    exact .issued (later ++ [i]) hissuer hadmin hheader hr

theorem stored_descends (sha256 : ByteArray → List UInt8) (rs : List Incoming) :
    ∀ k ∈ (served sha256 rs).apiKeys, Descends sha256 rs k.asIssued := by
  induction rs using List.reverseRecOn with
  | nil => exact fun k hk => absurd hk (Table.not_mem_empty k)
  | append_singleton rs i ih =>
    intro k hk
    rw [served, run_concat, ← served] at hk
    rcases commit_keys sha256 i (served sha256 rs) with
      ⟨r, x, henv, hruns, hr, hkeys⟩ | hsame
    -- a stored key was stored before, has just been issued, or is the host's
    · rcases hkeys.origin hk with ⟨k', hk', he⟩ | ⟨hop, rfl, hlive⟩ | ⟨raw, hop, rfl⟩
      · rw [← he]
        exact (ih k' hk').concat i
      · rw [ApiKey.asIssued_of_live hlive]
        cases i with
        | http env header route =>
          obtain ⟨issuer, hheader, hroute⟩ := hruns
          -- only administrators may call the routes that issue keys
          have hadmin : issuer.role = .admin := by
            have hallowed := authorize_allowed hroute
            generalize r.op = op at hop hallowed
            cases op <;> first | exact hallowed.1 | exact absurd hop id
          have hissuer := ih issuer hheader.1
          rw [ApiKey.asIssued_of_live hheader.2.1] at hissuer
          exact .issued [] hissuer hadmin hheader hr
        | bootstrap env raw =>
          have hboot : r.op = .bootstrap raw := hruns
          rw [hboot] at hop
          exact absurd hop id
        | tick env =>
          have htick : r.op = .tick "system:tick" := hruns
          rw [htick] at hop
          exact absurd hop id
      · rw [hop] at hruns
        obtain ⟨env, rfl⟩ := hruns.of_bootstrap
        rw [henv]
        exact .bootstrapped rs [] env raw
    · rw [hsame] at hk
      exact (ih k hk).concat i

theorem Descends.exists_bootstrap {rs : List Incoming} (h : Descends sha256 rs k) :
    ∃ env raw, Incoming.bootstrap env raw ∈ rs := by
  induction h with
  | bootstrapped earlier later env raw => exact ⟨env, raw, by simp⟩
  | issued later _ _ _ _ ih =>
    obtain ⟨env, raw, hmem⟩ := ih
    exact ⟨env, raw, List.mem_append_left _ hmem⟩

/-- Every stored key was issued by an administrator whose own key descends from
`panelist bootstrap`; before the first of these commands every call is answered with 401. -/
theorem keys_descend (sha256 : ByteArray → List UInt8) (rs : List Incoming) :
    (∀ k ∈ (served sha256 rs).apiKeys, Descends sha256 rs k.asIssued) ∧
      ((∀ env raw, Incoming.bootstrap env raw ∉ rs) → ∀ env header route, ∃ detail,
        respond sha256 (.http env header route) (served sha256 rs) =
          .error (.http 401 detail)) := by
  refine ⟨stored_descends sha256 rs, fun hnever env header route => ?_⟩
  have hno : ∀ k, ¬ Presents sha256 (served sha256 rs) header k := by
    intro k hk
    obtain ⟨env, raw, hmem⟩ := (stored_descends sha256 rs k hk.1).exists_bootstrap
    exact hnever env raw hmem
  obtain ⟨detail, hdetail⟩ := authenticate_refused env hno
  exact ⟨detail, by rw [respond, hdetail]; rfl⟩

end Life

/-- An administrator's key and a reviewer's, number 200, with a hash that hides nothing. -/
def Scenario.bytes (b : ByteArray) : List UInt8 := b.data.toList

def Scenario.keyed : List Incoming :=
  [.bootstrap (env 1) "root", .http (env 2) (some "root") (.createKey .reviewer none "" "r")]

theorem revoked_forever_reviewer : ∃ detail,
    respond Scenario.bytes (.http (Scenario.env 5) (some "pk_reviewer_r") .exportDelivery)
      (served Scenario.bytes (Scenario.keyed ++
        .http (Scenario.env 3) (some "root") (.revokeKey 200) ::
          [.bootstrap (Scenario.env 4) "pk_reviewer_r"])) = .error (.http 401 detail) := by
  have hk : (served Scenario.bytes Scenario.keyed).apiKeys.get 200 =
      some ⟨200, hashed Scenario.bytes "pk_reviewer_r", .reviewer, none, "", none⟩ := rfl
  exact revoked_forever ⟨_, _, _, rfl, rfl⟩ (Table.get_mem hk) rfl _ _ _

theorem keys_descend_reviewer :
    Descends Scenario.bytes Scenario.keyed
        ⟨200, hashed Scenario.bytes "pk_reviewer_r", .reviewer, none, "", none⟩ ∧
      ∃ detail, respond Scenario.bytes (.http (Scenario.env 1) (some "root") .reclaim)
        (served Scenario.bytes []) = .error (.http 401 detail) := by
  have hk : (served Scenario.bytes Scenario.keyed).apiKeys.get 200 =
      some ⟨200, hashed Scenario.bytes "pk_reviewer_r", .reviewer, none, "", none⟩ := rfl
  exact ⟨(keys_descend Scenario.bytes Scenario.keyed).1 _ (Table.get_mem hk),
    (keys_descend Scenario.bytes []).2 (by simp) _ _ _⟩

end Panelist
