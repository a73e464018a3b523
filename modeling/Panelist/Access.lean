import Panelist.Effects
import Panelist.References

/-! `panelist.auth`: API keys, their scopes, and the service behind them. A request presents a raw
key; what the service stores of it is a hash. -/
namespace Panelist
open Relational Transaction

/-- The names `require_scopes` is called with. -/
inductive Scope where
  | tasksClaim | gradesWrite | gradesRead | reviewsWrite | adjudicationsWrite | tasksRead
  | tasksWrite | expertsSelf | expertsWrite | payoutsRead | payoutsWrite | analyticsRead
  | deliveriesRead | deliveriesWrite | rubricsWrite | admin
  deriving DecidableEq

def Scope.value : Scope → String
  | .tasksClaim => "tasks:claim"
  | .gradesWrite => "grades:write"
  | .gradesRead => "grades:read"
  | .reviewsWrite => "reviews:write"
  | .adjudicationsWrite => "adjudications:write"
  | .tasksRead => "tasks:read"
  | .tasksWrite => "tasks:write"
  | .expertsSelf => "experts:self"
  | .expertsWrite => "experts:write"
  | .payoutsRead => "payouts:read"
  | .payoutsWrite => "payouts:write"
  | .analyticsRead => "analytics:read"
  | .deliveriesRead => "deliveries:read"
  | .deliveriesWrite => "deliveries:write"
  | .rubricsWrite => "rubrics:write"
  | .admin => "admin"

def Role.value : Role → String
  | .expert => "expert"
  | .reviewer => "reviewer"
  | .seniorReviewer => "senior_reviewer"
  | .admin => "admin"

/-- `REVIEWER_SCOPES`. -/
def reviewerScopes : List Scope :=
  [.gradesRead, .reviewsWrite, .tasksRead, .payoutsRead, .analyticsRead, .deliveriesRead]

/-- `SCOPES`. -/
def scopes : Role → List Scope
  | .expert => [.tasksClaim, .gradesWrite, .expertsSelf]
  | .reviewer => reviewerScopes
  | .seniorReviewer => reviewerScopes ++ [.adjudicationsWrite]
  | .admin => [.tasksClaim, .gradesWrite, .gradesRead, .reviewsWrite, .adjudicationsWrite,
      .tasksRead, .tasksWrite, .expertsSelf, .expertsWrite, .payoutsRead, .payoutsWrite,
      .analyticsRead, .deliveriesRead, .deliveriesWrite, .rubricsWrite, .admin]

structure Principal where
  keyId : Uuid
  role : Role
  expertId : Option Uuid
  scopes : List Scope

def Principal.actor (p : Principal) : String := s!"{p.role.value}:{p.keyId.str}"

/-- `generate_key`, for the random token it draws. -/
def generateKey (role : Role) (token : String) : String := s!"pk_{role.value}_{token}"

/-- What `authenticate` answers for a stored key. -/
def ApiKey.principal (k : ApiKey) : Principal := ⟨k.id, k.role, k.expertId, Panelist.scopes k.role⟩

/-- `authenticate`, for the value of the `X-API-Key` header. -/
def authenticate (env : Env) (db : Db) (header : Option String) : Except Failure Principal := do
  let raw ← orFail (header.filter (fun raw => raw ≠ "")) (.http 401 "missing API key")
  let key ← orFail (db.apiKeys.rows.find? (fun k =>
    k.keyHash = hashKey env raw ∧ k.revokedAt.isNone = true)) (.http 401 "invalid API key")
  pure key.principal

/-- `require_scopes`. -/
def requireScopes (p : Principal) (needed : List Scope) : Except Failure Unit :=
  let missing := needed.filter (fun s => !p.scopes.contains s)
  let names := ", ".intercalate (missing.map Scope.value)
  require (missing = []) (.http 403 s!"missing scope: {names}")

/-- `current_expert`. -/
def expertOfKey (db : Db) (p : Principal) : Except Failure Expert := do
  requireScopes p [.expertsSelf]
  let expertId ← orFail p.expertId (.http 403 "API key is not bound to an expert")
  currentExpert db expertId

/-- The routes that write, with the path and the body of a call; `token` is the random part of
the key a route issues. -/
inductive Route where
  | createExpert (body : ExpertCreate)
  | createExpertKey (expertId : Uuid) (token : String)
  | setStatus (expertId : Uuid) (status : ExpertStatus)
  | createKey (role : Role) (expertId : Option Uuid) (label token : String)
  | revokeKey (keyId : Uuid)
  | createRubric (name : String) (version : ℤ) (criteria : List CriterionIn)
  | publish (rubricId : Uuid) (criteria : List CriterionIn)
  | putRateCards (body : List RateCardIn)
  | createTasks (body : List TaskCreate)
  | reclaim
  | claimNext
  | claimById (taskId : Uuid)
  | release (taskId : Uuid)
  | submit (body : GradeCreate)
  | review (body : ReviewCreate)
  | resolve (taskId deliveredGradeId : Uuid) (reason : String)
  | closePeriod (label : String)
  | exportDelivery

/-- The dependencies of the routes, and the operation a route calls. -/
def Route.authorize (db : Db) (p : Principal) : Route → Except Failure Op
  -- a scope each for what an administrator does
  | .createExpert body => do
    requireScopes p [.expertsWrite]
    pure (.createExpert body p.actor)
  | .createExpertKey expertId token => do
    requireScopes p [.expertsWrite]
    pure (.createExpertKey expertId (generateKey .expert token) p.actor)
  | .setStatus expertId status => do
    requireScopes p [.expertsWrite]
    pure (.setStatus expertId status p.actor)
  | .createKey role expertId label token => do
    requireScopes p [.admin]
    pure (.createKey role expertId label (generateKey role token) p.actor)
  | .revokeKey keyId => do
    requireScopes p [.admin]
    pure (.revokeKey keyId p.actor)
  | .createRubric name version criteria => do
    requireScopes p [.rubricsWrite]
    pure (.createRubric name version criteria p.actor)
  | .publish rubricId criteria => do
    requireScopes p [.rubricsWrite]
    pure (.publish rubricId criteria p.actor)
  | .putRateCards body => do
    requireScopes p [.payoutsWrite]
    pure (.putRateCards body p.actor)
  | .createTasks body => do
    requireScopes p [.tasksWrite]
    pure (.createTasks body p.actor)
  | .reclaim => do
    requireScopes p [.tasksWrite]
    pure .reclaim
  -- an expert acts through a key that is bound to one, for that expert only
  | .claimNext => do
    let expert ← expertOfKey db p
    pure (.claimNext expert.id)
  | .claimById taskId => do
    let expert ← expertOfKey db p
    pure (.claimById expert.id taskId)
  | .release taskId => do
    let expert ← expertOfKey db p
    pure (.release expert.id taskId)
  | .submit body => do
    let expert ← expertOfKey db p
    pure (.submit expert.id body)
  -- a reviewer signs with the key
  | .review body => do
    requireScopes p [.reviewsWrite]
    pure (.review p.keyId body p.actor)
  | .resolve taskId deliveredGradeId reason => do
    requireScopes p [.adjudicationsWrite]
    pure (.resolve taskId deliveredGradeId reason p.keyId p.actor)
  -- and the books are the administrator's again
  | .closePeriod label => do
    requireScopes p [.payoutsWrite]
    pure (.closePeriod label p.actor)
  | .exportDelivery => do
    requireScopes p [.deliveriesWrite]
    pure (.exportDelivery p.actor)

/-- A request with its header, or a command on the host: `panelist bootstrap`, for the key it is
given or finds in its settings, and `panelist tick`. -/
inductive Incoming where
  | http (env : Env) (header : Option String) (call : Route)
  | bootstrap (env : Env) (raw : String)
  | tick (env : Env)

/-- Every request hashes with the same function. -/
def Env.hashing (sha256 : ByteArray → List UInt8) (env : Env) : Env := { env with sha256 := sha256 }

/-- The service behind its keys; a command without a key exits with status 1. -/
def respond (sha256 : ByteArray → List UInt8) (i : Incoming) (db : Db) :
    Except Failure (Db × Response) :=
  match i with
  -- `Depends` runs before the route: first who calls, then what the key may do
  | .http env header call => do
    let p ← authenticate (env.hashing sha256) db header
    let op ← call.authorize db p
    step ⟨env.hashing sha256, op⟩ db
  | .bootstrap env raw => do
    require (raw ≠ "") (.http 1 "provide --key or set BOOTSTRAP_ADMIN_KEY")
    step ⟨env.hashing sha256, .bootstrap raw⟩ db
  -- the worker needs no key
  | .tick env => step ⟨env.hashing sha256, .tick "system:tick"⟩ db

/-- The state after a sequence of requests and commands, from the empty database. -/
def served (sha256 : ByteArray → List UInt8) (rs : List Incoming) : Db :=
  run (respond sha256) Db.empty rs

/-! ### Who gets through -/

/-- What is stored of a raw key. -/
def hashed (sha256 : ByteArray → List UInt8) (raw : String) : String :=
  hexDigest (sha256 raw.toUTF8)

section Authentication
variable {sha256 : ByteArray → List UInt8} {env : Env} {db db' : Db} {header : Option String}
variable {p : Principal} {k : ApiKey}

/-- The key of a header that `authenticate` accepts. -/
def Presents (sha256 : ByteArray → List UInt8) (db : Db) (header : Option String) (k : ApiKey) :
    Prop :=
  k ∈ db.apiKeys ∧ k.revokedAt = none ∧
    ∃ raw, header = some raw ∧ raw ≠ "" ∧ k.keyHash = hashed sha256 raw

theorem ApiKey.eq_of_hash {k' : ApiKey} (hk : k ∈ db.apiKeys) (hk' : k' ∈ db.apiKeys)
    (h : k.keyHash = k'.keyHash) : k = k' :=
  db.apiKeys.eq_of_clash hk hk' (Or.inr h)

theorem authenticate_ok_iff : authenticate (env.hashing sha256) db header = .ok p ↔
    ∃ k, Presents sha256 db header k ∧ p = k.principal := by
  simp only [authenticate, bind_ok_iff, orFail_ok_iff, pure_ok_iff, Option.filter_eq_some_iff,
    decide_eq_true_eq]
  constructor
  · rintro ⟨raw, ⟨rfl, hraw⟩, k, hk, rfl⟩
    have hfound := List.find?_some hk
    simp only [decide_eq_true_eq, Option.isNone_iff_eq_none] at hfound
    exact ⟨k, ⟨List.mem_of_find?_eq_some hk, hfound.2, raw, rfl, hraw, hfound.1⟩, rfl⟩
  · rintro ⟨k, ⟨hmem, hlive, raw, rfl, hraw, hhash⟩, rfl⟩
    refine ⟨raw, ⟨rfl, hraw⟩, k, ?_, rfl⟩
    cases hfind : db.apiKeys.rows.find? (fun k =>
        k.keyHash = hashKey (env.hashing sha256) raw ∧ k.revokedAt.isNone = true) with
    | none =>
      have hno := List.find?_eq_none.mp hfind k hmem
      exact absurd (decide_eq_true ⟨hhash, Option.isNone_iff_eq_none.mpr hlive⟩) hno
    | some k' =>
      have hfound := List.find?_some hfind
      simp only [decide_eq_true_eq] at hfound
      -- hashes are unique, so the row that is found is this one
      have hsame := ApiKey.eq_of_hash hmem (List.mem_of_find?_eq_some hfind)
        (hhash.trans hfound.1.symm)
      rw [hsame]

/-- Whoever is not let in is answered with 401. -/
theorem authenticate_refused (env : Env) (h : ∀ k, ¬ Presents sha256 db header k) :
    ∃ detail, authenticate (env.hashing sha256) db header = .error (.http 401 detail) := by
  cases hm : authenticate (env.hashing sha256) db header with
  | ok p =>
    obtain ⟨k, hk, -⟩ := authenticate_ok_iff.mp hm
    exact absurd hk (h k)
  | error f =>
    simp only [authenticate, bind_error_iff, orFail_error_iff, pure_error_iff, and_false,
      exists_false, or_false] at hm
    rcases hm with ⟨-, rfl⟩ | ⟨_, -, -, rfl⟩
    · exact ⟨_, rfl⟩
    · exact ⟨_, rfl⟩

theorem Presents.unique {k' : ApiKey} (h : Presents sha256 db header k)
    (h' : Presents sha256 db header k') : k = k' := by
  obtain ⟨hmem, -, raw, rfl, -, hhash⟩ := h
  obtain ⟨hmem', -, raw', hraw', -, hhash'⟩ := h'
  obtain rfl := Option.some.inj hraw'
  exact ApiKey.eq_of_hash hmem hmem' (hhash.trans hhash'.symm)

theorem requireScopes_ok_iff {s : Scope} {u : Unit} :
    requireScopes k.principal [s] = .ok u ↔ s ∈ scopes k.role := by
  rw [requireScopes, require_ok_iff, List.filter_eq_nil_iff]
  simp [ApiKey.principal]

/-- What the scopes of the roles allow: everything to an administrator, reviews to reviewers,
adjudications to senior ones, and the work of an expert to keys that are bound to one. -/
def Op.AllowedTo (k : ApiKey) : Op → Prop
  | .createExpert _ actor | .setStatus _ _ actor | .createKey _ _ _ _ actor
  | .createExpertKey _ _ actor | .revokeKey _ actor | .createRubric _ _ _ actor
  | .publish _ _ actor | .putRateCards _ actor | .createTasks _ actor | .closePeriod _ actor
  | .exportDelivery actor => k.role = .admin ∧ actor = k.principal.actor
  | .reclaim => k.role = .admin
  | .claimNext expertId | .claimById expertId _ | .release expertId _ | .submit expertId _ =>
    (k.role = .expert ∨ k.role = .admin) ∧ k.expertId = some expertId
  | .review keyId _ actor => k.role ≠ .expert ∧ keyId = k.id ∧ actor = k.principal.actor
  | .resolve _ _ _ keyId actor =>
    (k.role = .seniorReviewer ∨ k.role = .admin) ∧ keyId = k.id ∧ actor = k.principal.actor
  -- commands, not routes
  | .bootstrap _ | .tick _ => False

theorem role_of_scope {role : Role} :
    (Scope.expertsSelf ∈ scopes role ↔ role = .expert ∨ role = .admin) ∧
    (Scope.reviewsWrite ∈ scopes role ↔ role ≠ .expert) ∧
    (Scope.adjudicationsWrite ∈ scopes role ↔ role = .seniorReviewer ∨ role = .admin) ∧
    ∀ s ∈ [Scope.expertsWrite, .admin, .rubricsWrite, .payoutsWrite, .tasksWrite, .deliveriesWrite],
      s ∈ scopes role ↔ role = .admin := by
  cases role <;> decide

theorem expertOfKey_ok {e : Expert} (h : expertOfKey db k.principal = .ok e) :
    (k.role = .expert ∨ k.role = .admin) ∧ k.expertId = some e.id ∧
      db.experts.get e.id = some e := by
  simp only [expertOfKey, currentExpert, bind_ok_iff, orFail_ok_iff, requireScopes_ok_iff] at h
  obtain ⟨_, hscope, expertId, hbound, he⟩ := h
  have hid : e.id = expertId := Table.get_pk he
  rw [hid]
  exact ⟨role_of_scope.1.mp hscope, hbound, he⟩

/-- A route lets a key do no more than its role allows. -/
theorem authorize_allowed {call : Route} {op : Op} (h : call.authorize db k.principal = .ok op) :
    op.AllowedTo k := by
  obtain ⟨-, hreview, hresolve, hadmin⟩ := @role_of_scope k.role
  -- an expert route asks for a key that is bound to an expert
  cases call with
  | claimNext | claimById | release | submit =>
    simp only [Route.authorize, bind_ok_iff, pure_ok_iff] at h
    obtain ⟨e, he, rfl⟩ := h
    obtain ⟨hrole, hbound, -⟩ := expertOfKey_ok he
    exact ⟨hrole, hbound⟩
  | review =>
    simp only [Route.authorize, bind_ok_iff, pure_ok_iff, requireScopes_ok_iff] at h
    obtain ⟨-, hscope, rfl⟩ := h
    exact ⟨hreview.mp hscope, rfl, rfl⟩
  | resolve =>
    simp only [Route.authorize, bind_ok_iff, pure_ok_iff, requireScopes_ok_iff] at h
    obtain ⟨-, hscope, rfl⟩ := h
    exact ⟨hresolve.mp hscope, rfl, rfl⟩
  | reclaim =>
    simp only [Route.authorize, bind_ok_iff, pure_ok_iff, requireScopes_ok_iff] at h
    obtain ⟨-, hscope, rfl⟩ := h
    exact (hadmin _ (by decide)).mp hscope
  -- all others need the scope of an admin
  | _ =>
    simp only [Route.authorize, bind_ok_iff, pure_ok_iff, requireScopes_ok_iff] at h
    obtain ⟨-, hscope, rfl⟩ := h
    exact ⟨(hadmin _ (by decide)).mp hscope, rfl⟩

end Authentication

/-! ### Requests behind a key -/

def Incoming.env : Incoming → Env
  | .http env _ _ | .bootstrap env _ | .tick env => env

/-- The operation a request or a command runs once it is let in. -/
def Incoming.Runs (sha256 : ByteArray → List UInt8) (db : Db) : Incoming → Op → Prop
  | .http _ header route, op =>
    ∃ k, Presents sha256 db header k ∧ route.authorize db k.principal = .ok op
  | .bootstrap _ raw, op => op = .bootstrap raw
  | .tick _, op => op = .tick "system:tick"

section Requests
variable {sha256 : ByteArray → List UInt8} {db db' : Db} {x : Response} {i : Incoming}

/-- What succeeds is one operation of the service. -/
theorem respond_ok (h : respond sha256 i db = .ok (db', x)) : ∃ r : Request,
    r.env = i.env.hashing sha256 ∧ i.Runs sha256 db r.op ∧ step r db = .ok (db', x) := by
  cases i with
  | http env header route =>
    simp only [respond, bind_ok_iff] at h
    obtain ⟨p, hp, op, hop, hstep⟩ := h
    obtain ⟨k, hk, rfl⟩ := authenticate_ok_iff.mp hp
    exact ⟨⟨env.hashing sha256, op⟩, rfl, ⟨k, hk, hop⟩, hstep⟩
  | bootstrap env raw =>
    simp only [respond, bind_ok_iff, require_ok_iff] at h
    obtain ⟨-, -, hstep⟩ := h
    exact ⟨⟨env.hashing sha256, .bootstrap raw⟩, rfl, rfl, hstep⟩
  | tick env => exact ⟨⟨env.hashing sha256, .tick "system:tick"⟩, rfl, rfl, h⟩

theorem Incoming.Runs.of_bootstrap {raw : String} (h : i.Runs sha256 db (.bootstrap raw)) :
    ∃ env, i = .bootstrap env raw := by
  cases i with
  | http env header route =>
    obtain ⟨k, -, hop⟩ := h
    exact absurd (authorize_allowed hop) id
  | bootstrap env raw' =>
    obtain rfl := Op.bootstrap.inj h
    exact ⟨env, rfl⟩
  | tick env => exact nomatch h

theorem Incoming.Runs.of_revokeKey {id : Uuid} {actor : String}
    (h : i.Runs sha256 db (.revokeKey id actor)) :
    ∃ env header, i = .http env header (.revokeKey id) := by
  cases i with
  | http env header route =>
    obtain ⟨k, -, hop⟩ := h
    cases route <;> simp [Route.authorize] at hop
    obtain ⟨-, rfl, -⟩ := hop
    exact ⟨env, header, rfl⟩
  | bootstrap env raw => exact nomatch h
  | tick env => exact nomatch h

end Requests

end Panelist
