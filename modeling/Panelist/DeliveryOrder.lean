import Panelist.Export
import Panelist.Sha256
import Panelist.Storage

/-! Overlapping exports. `export` reads in many statements, takes the next version from an
unlocked `MAX`, writes its object to the storage, which no rollback undoes, and only then
inserts its row. Whatever the order, the committed versions count up from 1 and every
committed row keeps its bytes. -/
namespace Panelist
open Relational Transaction Serial

/-- One `POST /deliveries`: the id drawn for its row, the settings of its process and who
asks. -/
structure ExportCall where
  id : Uuid
  settings : Settings
  actor : String
  deliverable : settings.Deliverable

/-- The line of a row whose relationships were loaded from stores of their own. -/
def lazyLine (floatRepr : ℚ → List Char) (task rubric expert criteria : Db) (row : Delivered) :
    List Char :=
  let loaded := { row with task := (task.tasks.get row.grade.taskId).getD row.task }
  dumps floatRepr (.obj (rowFields loaded (rubricName rubric row.grade.rubricId)
    (rubricVersion rubric row.grade.rubricId) (expertTier expert row.grade.expertId)
    (exportedScores criteria row.grade)))

/-- How far an export transaction is. -/
inductive Exporting where
  | idle
  /-- The query of `_rows` is answered; these rows are still to be written as lines. -/
  | loading (call : ExportCall) (rows : List Delivered) (lines : List (List Char))
  /-- `MAX(version)` is read. -/
  | numbered (call : ExportCall) (body : ByteArray) (count version : ℕ)
  /-- `_store` has written the object. -/
  | stored (call : ExportCall) (delivery : Delivery)
  /-- The row is inserted and not yet committed. -/
  | inserted (call : ExportCall) (delivery : Delivery)
  | ended

/-- What happens next. -/
inductive ExportChoice (ι : Type) where
  /-- The query of `_rows`. -/
  | start (i : ι) (call : ExportCall)
  /-- The relationships of the next row, each as it was so many commits ago. -/
  | load (i : ι) (task rubric expert criteria : ℕ)
  /-- Any later statement of the transaction, or its COMMIT. -/
  | run (i : ι)
  | cancel (i : ι)
  /-- Another request commits; `deliveries` has no other writer. -/
  | other (f : Db → Db)

/-- The committed store and those before it, the storage, the transactions, and who has
inserted a version it has not committed. -/
structure Exports (ι : Type) where
  db : Db
  past : List Db
  files : Stored
  phase : ι → Exporting
  owner : ℕ → Option ι

section Steps
variable {ι : Type} [DecidableEq ι] (sha256 : ByteArray → List UInt8)
  (floatRepr : ℚ → List Char)

namespace Exports

def init (db : Db) : Exports ι := ⟨db, [], [], fun _ => .idle, fun _ => none⟩

/-- The committed store so many commits ago. -/
def ago (c : Exports ι) (n : ℕ) : Db := (c.db :: c.past).getD n c.db

def setPhase (c : Exports ι) (i : ι) (p : Exporting) : Exports ι :=
  { c with phase := Function.update c.phase i p }

theorem setPhase_same (c : Exports ι) (i : ι) (p : Exporting) : (c.setPhase i p).phase i = p := by
  simp [setPhase]

theorem setPhase_other (c : Exports ι) {i j : ι} (h : j ≠ i) (p : Exporting) :
    (c.setPhase i p).phase j = c.phase j := by
  simp [setPhase, h]

/-- The transaction is over and its uncommitted row is gone. -/
def finish (c : Exports ι) (i : ι) : Exports ι :=
  { c.setPhase i .ended with
    owner := fun version => if c.owner version = some i then none else c.owner version }

theorem finish_same (c : Exports ι) (i : ι) : (c.finish i).phase i = .ended :=
  setPhase_same c i .ended

theorem finish_other (c : Exports ι) {i j : ι} (h : j ≠ i) : (c.finish i).phase j = c.phase j :=
  setPhase_other c h .ended

/-- The storage takes an object at once. -/
def write (c : Exports ι) (place : Place) (body : ByteArray) : Exports ι :=
  { c with files := (place, body) :: c.files }

/-- An uncommitted row keeps its version from others. -/
def hold (c : Exports ι) (i : ι) (version : ℕ) : Exports ι :=
  { c with owner := Function.update c.owner version (some i) }

def commitDb (c : Exports ι) (db : Db) : Exports ι := { c with db := db, past := c.db :: c.past }

/-- `"\n".join(lines) + ("\n" if lines else "")`, encoded. -/
def body (lines : List (List Char)) : ByteArray := (String.ofList (terminated lines)).toUTF8

/-- `SELECT coalesce(max(version), 0) + 1`. -/
def nextVersion (db : Db) : ℕ := (db.deliveries.rows.map Delivery.version).foldl max 0 + 1

/-- `_store` and the row made of its answer. -/
def put (c : Exports ι) (i : ι) (call : ExportCall) (body : ByteArray) (count version : ℕ) :
    Exports ι :=
  let checksum := hexDigest (sha256 body)
  let location := storeLocation call.settings version checksum
  (c.write (storePlace call.settings version checksum) body).setPhase i
    (.stored call ⟨call.id, version, checksum, location, count, body.size⟩)

/-- The INSERT; the unique index waits for another uncommitted row of the version. -/
def insertRow (c : Exports ι) (i : ι) (call : ExportCall) (delivery : Delivery) :
    Except Unit (Exports ι × Unit) :=
  if (c.owner delivery.version).isSome then .error ()
  else if (c.db.deliveries.insert delivery).isNone then .ok (c.finish i, ())
  else .ok ((c.hold i delivery.version).setPhase i (.inserted call delivery), ())

/-- The commit, with the audit event. -/
def commitRow (c : Exports ι) (i : ι) (call : ExportCall) (delivery : Delivery) :
    Except Unit (Exports ι × Unit) :=
  match c.db.deliveries.insert delivery with
  | none => .error ()
  | some deliveries =>
    .ok ((c.commitDb (record { c.db with deliveries := deliveries } call.actor
      "delivery.exported" "delivery" delivery.id.str)).finish i, ())

/-- The next statement of a transaction whose rows are all lines. -/
def advance (c : Exports ι) (i : ι) : Except Unit (Exports ι × Unit) :=
  match c.phase i with
  | .loading call [] lines =>
    .ok (c.setPhase i (.numbered call (body lines) lines.length (nextVersion c.db)), ())
  | .numbered call body count version => .ok (c.put sha256 i call body count version, ())
  | .stored call delivery => c.insertRow i call delivery
  | .inserted call delivery => c.commitRow i call delivery
  | _ => .error ()

/-- One step of an interleaving; a step of a waiting transaction is refused. -/
def step (ch : ExportChoice ι) (c : Exports ι) : Except Unit (Exports ι × Unit) :=
  match ch with
  | .start i call =>
    match c.phase i with
    | .idle => .ok (c.setPhase i (.loading call (deliveredRows c.db) []), ())
    | _ => .error ()
  -- each lazy load of the line sees some state since the rows were read
  | .load i task rubric expert criteria =>
    match c.phase i with
    | .loading call (row :: rows) lines =>
      let line := lazyLine floatRepr (c.ago task) (c.ago rubric) (c.ago expert) (c.ago criteria) row
      .ok (c.setPhase i (.loading call rows (lines ++ [line])), ())
    | _ => .error ()
  | .run i => c.advance sha256 i
  | .cancel i =>
    match c.phase i with
    | .idle | .ended => .error ()
    | _ => .ok (c.finish i, ())
  -- anything else the service commits, but a delivery
  | .other f => .ok (c.commitDb { f c.db with deliveries := c.db.deliveries }, ())

/-- What a step can do. -/
inductive Step (c : Exports ι) : Exports ι → Prop where
  | query (i : ι) (call : ExportCall) (h : c.phase i = .idle) :
      Step c (c.setPhase i (.loading call (deliveredRows c.db) []))
  | line (i : ι) (call : ExportCall) (row : Delivered) (rows : List Delivered)
      (lines : List (List Char)) (task rubric expert criteria : Db)
      (h : c.phase i = .loading call (row :: rows) lines) :
      Step c (c.setPhase i (.loading call rows
        (lines ++ [lazyLine floatRepr task rubric expert criteria row])))
  | number (i : ι) (call : ExportCall) (lines : List (List Char))
      (h : c.phase i = .loading call [] lines) :
      Step c (c.setPhase i (.numbered call (body lines) lines.length (nextVersion c.db)))
  | put (i : ι) (call : ExportCall) (body : ByteArray) (count version : ℕ)
      (h : c.phase i = .numbered call body count version) :
      Step c (c.put sha256 i call body count version)
  | insert (i : ι) (call : ExportCall) (d : Delivery) (h : c.phase i = .stored call d)
      (free : c.owner d.version = none) (fresh : ∀ r ∈ c.db.deliveries, r.version ≠ d.version) :
      Step c ((c.hold i d.version).setPhase i (.inserted call d))
  | commit (i : ι) (call : ExportCall) (d : Delivery) (db : Db)
      (h : c.phase i = .inserted call d)
      (rows : db.deliveries.rows = c.db.deliveries.rows ++ [d]) :
      Step c ((c.commitDb db).finish i)
  | finish (i : ι) : Step c (c.finish i)
  | other (db : Db) (h : db.deliveries = c.db.deliveries) : Step c (c.commitDb db)

variable {sha256 floatRepr} {c c' : Exports ι} {i : ι} {call : ExportCall} {d : Delivery}

theorem insertRow_cases {r : Unit} (h : c.phase i = .stored call d)
    (hs : c.insertRow i call d = .ok (c', r)) : Step sha256 floatRepr c c' := by
  unfold insertRow at hs
  split_ifs at hs with howner hclash
  · obtain ⟨rfl, _⟩ := Prod.mk.inj (Except.ok.inj hs)
    exact .finish i
  · obtain ⟨rfl, _⟩ := Prod.mk.inj (Except.ok.inj hs)
    refine .insert i call d h (by simpa using howner) (fun r hr he => hclash ?_)
    rw [Option.isNone_iff_eq_none, Table.insert_eq_none]
    exact ⟨r, hr, he⟩

theorem commitRow_cases {r : Unit} (h : c.phase i = .inserted call d)
    (hs : c.commitRow i call d = .ok (c', r)) : Step sha256 floatRepr c c' := by
  unfold commitRow at hs
  cases hi : c.db.deliveries.insert d with
  | none =>
    rw [hi] at hs
    exact nomatch hs
  | some deliveries =>
    rw [hi] at hs
    obtain ⟨rfl, _⟩ := Prod.mk.inj (Except.ok.inj hs)
    exact .commit i call d _ h (Table.insert_eq_some.mp hi).2

theorem step_cases {ch : ExportChoice ι} {r : Unit}
    (hs : step sha256 floatRepr ch c = .ok (c', r)) : Step sha256 floatRepr c c' := by
  cases ch with
  | start i call =>
    cases hp : c.phase i <;> simp only [step, hp, reduceCtorEq] at hs
    obtain ⟨rfl, _⟩ := Prod.mk.inj (Except.ok.inj hs)
    exact .query i call hp
  | load i task rubric expert criteria =>
    unfold step at hs
    dsimp only at hs
    split at hs
    · rename_i call row rows lines hp
      obtain ⟨rfl, _⟩ := Prod.mk.inj (Except.ok.inj hs)
      exact .line i call row rows lines _ _ _ _ hp
    · exact nomatch hs
  | run i =>
    -- by what the export is about to do
    unfold step advance at hs
    dsimp only at hs
    split at hs
    · rename_i call lines hp
      obtain ⟨rfl, _⟩ := Prod.mk.inj (Except.ok.inj hs)
      exact .number i call lines hp
    · rename_i call body count version hp
      obtain ⟨rfl, _⟩ := Prod.mk.inj (Except.ok.inj hs)
      exact .put i call body count version hp
    · rename_i call delivery hp
      exact insertRow_cases hp hs
    · rename_i call delivery hp
      exact commitRow_cases hp hs
    · exact nomatch hs
  | cancel i =>
    unfold step at hs
    dsimp only at hs
    split at hs
    -- nothing runs, or the row is committed already
    · exact nomatch hs
    · exact nomatch hs
    · obtain ⟨rfl, _⟩ := Prod.mk.inj (Except.ok.inj hs)
      exact .finish i
  | other f =>
    obtain ⟨rfl, _⟩ := Prod.mk.inj (Except.ok.inj hs)
    exact .other _ rfl

end Exports

end Steps

/-! ### What stays true -/

/-- The row `d` says of `body` what `export` says of it, and `body` was written where the row
points. -/
structure Wrote (sha256 : ByteArray → List UInt8) (files : Stored) (d : Delivery)
    (body : ByteArray) : Prop where
  checksum : d.checksum = hexDigest (sha256 body)
  rowCount : d.rowCount = countNewlines body
  sizeBytes : d.sizeBytes = body.size
  written : ∃ settings : Settings, settings.Deliverable ∧
    d.location = storeLocation settings d.version d.checksum ∧
    (storePlace settings d.version d.checksum, body) ∈ files

/-- Every object lies where `_store` puts its bytes under some version. -/
def Named (sha256 : ByteArray → List UInt8) (files : Stored) : Prop :=
  ∀ f ∈ files, ∃ (settings : Settings) (version : ℕ),
    f.1 = storePlace settings version (hexDigest (sha256 f.2))

/-- No collision of 12-hex prefixes among the stored bodies. -/
def NoCollision (sha256 : ByteArray → List UInt8) (files : Stored) : Prop :=
  ∀ f ∈ files, ∀ g ∈ files, (hexDigest (sha256 f.2)).toList.take 12 =
    (hexDigest (sha256 g.2)).toList.take 12 → f.2 = g.2

instance (sha256 : ByteArray → List UInt8) (files : Stored) :
    Decidable (NoCollision sha256 files) :=
  inferInstanceAs (Decidable (∀ f ∈ files, ∀ g ∈ files, _ → f.2 = g.2))

section Reading
variable {sha256 : ByteArray → List UInt8} {files files' : Stored} {d d' : Delivery}
  {body : ByteArray}

theorem Wrote.mono (h : Wrote sha256 files d body) (hsub : files ⊆ files') :
    Wrote sha256 files' d body := by
  obtain ⟨settings, hs, hlocation, hmem⟩ := h.written
  exact { h with written := ⟨settings, hs, hlocation, hsub hmem⟩ }

theorem NoCollision.mono (h : NoCollision sha256 files') (hsub : files ⊆ files') :
    NoCollision sha256 files :=
  fun f hf g hg => h f (hsub hf) g (hsub hg)

/-- What is read back from a row's location is what its export wrote: whatever else was
written there had the same name, so the same bytes. -/
theorem Wrote.read (h : Wrote sha256 files d body) (hnamed : Named sha256 files)
    (hno : NoCollision sha256 files) : readLocation files d.location = some body := by
  obtain ⟨settings, hs, hlocation, hmem⟩ := h.written
  rw [readLocation, hlocation, readPlace_storeLocation hs, Option.bind_some, Stored.get]
  cases hf : files.find? (fun f => f.1 = storePlace settings d.version d.checksum) with
  | none => exact absurd (List.find?_eq_none.mp hf _ hmem) (by simp)
  | some f =>
    have hplace : f.1 = storePlace settings d.version d.checksum := by
      simpa using List.find?_some hf
    have hlast := List.mem_of_find?_eq_some hf
    obtain ⟨settings', version, hname⟩ := hnamed f hlast
    have hsame := storePlace_inj (hname.symm.trans (hplace.trans (by rw [h.checksum])))
    rw [Option.map_some, hno f hlast _ hmem (deliveryName_inj hsame).2]

/-- The stored object of a row checks out. -/
theorem Wrote.verify (h : Wrote sha256 files d body) (hnamed : Named sha256 files)
    (hno : NoCollision sha256 files) :
    ∃ report, Panelist.verify sha256 files d = some report ∧ report.isMatch = true := by
  refine ⟨⟨d.version, d.location, d.checksum, hexDigest (sha256 body), d.rowCount,
    countNewlines body, d.sizeBytes, body.size, true⟩, ?_, rfl⟩
  simp [Panelist.verify, h.read hnamed hno, h.checksum, h.rowCount, h.sizeBytes]

/-- Rows of different versions lie in different places. -/
theorem Wrote.version_eq {body' : ByteArray} (h : Wrote sha256 files d body)
    (h' : Wrote sha256 files d' body') (he : d.location = d'.location) :
    d.version = d'.version := by
  obtain ⟨settings, _, hlocation, _⟩ := h.written
  obtain ⟨settings', _, hlocation', _⟩ := h'.written
  rw [hlocation, hlocation', h.checksum, h'.checksum] at he
  exact (deliveryName_inj (storeLocation_inj he)).1

end Reading

/-- What a transaction has worked out so far, when `n` versions are committed. -/
def Exporting.Sound (sha256 : ByteArray → List UInt8) (files : Stored) (n : ℕ) : Exporting → Prop
  | .idle => True
  | .loading _ _ lines => ∀ line ∈ lines, '\n' ∉ line
  | .numbered call body count version =>
    call.settings.Deliverable ∧ countNewlines body = count ∧ 1 ≤ version ∧ version ≤ n + 1
  | .stored _ d => (∃ body, Wrote sha256 files d body) ∧ 1 ≤ d.version ∧ d.version ≤ n + 1
  | .inserted _ d => (∃ body, Wrote sha256 files d body) ∧ d.version = n + 1
  | .ended => True

/-- The versions committed are `1..n` in order, every row committed or on its way has its
bytes in the storage, and who has inserted a row owns its version. -/
structure Exports.Sound {ι : Type} (sha256 : ByteArray → List UInt8) (c : Exports ι) : Prop where
  versions : c.db.deliveries.rows.map Delivery.version =
    List.range' 1 c.db.deliveries.rows.length
  wrote : ∀ d ∈ c.db.deliveries, ∃ body, Wrote sha256 c.files d body
  named : Named sha256 c.files
  phases : ∀ i, (c.phase i).Sound sha256 c.files c.db.deliveries.rows.length
  owns : ∀ i call d, c.phase i = .inserted call d → c.owner d.version = some i

section Invariant
variable {ι : Type} {sha256 : ByteArray → List UInt8} {floatRepr : ℚ → List Char}
  {c c' : Exports ι} {files files' : Stored} {n : ℕ}

theorem Exporting.Sound.mono {p : Exporting} (h : p.Sound sha256 files n) (hsub : files ⊆ files') :
    p.Sound sha256 files' n := by
  cases p with
  | idle => exact trivial
  | loading call rows lines => exact h
  | numbered call body count version => exact h
  | stored call d =>
    obtain ⟨⟨body, hw⟩, hv⟩ := h
    exact ⟨⟨body, hw.mono hsub⟩, hv⟩
  | inserted call d =>
    obtain ⟨⟨body, hw⟩, hv⟩ := h
    exact ⟨⟨body, hw.mono hsub⟩, hv⟩
  | ended => exact trivial

/-- A commit of another transaction leaves one that has not inserted its row where it is. -/
theorem Exporting.Sound.succ {p : Exporting} (h : p.Sound sha256 files n)
    (hp : ∀ call d, p ≠ .inserted call d) : p.Sound sha256 files (n + 1) := by
  cases p with
  | idle => exact trivial
  | loading call rows lines => exact h
  | numbered call body count version =>
    exact ⟨h.1, h.2.1, h.2.2.1, h.2.2.2.trans (Nat.le_succ _)⟩
  | stored call d => exact ⟨h.1, h.2.1, h.2.2.trans (Nat.le_succ _)⟩
  | inserted call d => exact absurd rfl (hp call d)
  | ended => exact trivial

theorem foldl_max_range' (n : ℕ) : (List.range' 1 n).foldl max 0 = n := by
  induction n with
  | zero => rfl
  | succ n ih =>
    rw [List.range'_1_concat, List.foldl_append, ih, List.foldl_cons, List.foldl_nil]
    omega

/-- A version of a committed row is one of `1..n`. -/
theorem Exports.Sound.version_mem (h : c.Sound sha256) {v : ℕ} :
    (∃ d ∈ c.db.deliveries, d.version = v) ↔ 1 ≤ v ∧ v ≤ c.db.deliveries.rows.length := by
  have hmem : v ∈ c.db.deliveries.rows.map Delivery.version ↔
      v ∈ List.range' 1 c.db.deliveries.rows.length := by rw [h.versions]
  rw [List.mem_map, List.mem_range'_1] at hmem
  exact hmem.trans (and_congr_right (fun _ => by omega))

theorem Exports.Sound.nextVersion_eq (h : c.Sound sha256) :
    Exports.nextVersion c.db = c.db.deliveries.rows.length + 1 := by
  rw [Exports.nextVersion, h.versions, foldl_max_range']

/-- The line of a row is one line. -/
theorem newline_lazyLine (hfloat : ∀ q, '\n' ∉ floatRepr q) (task rubric expert criteria : Db)
    (row : Delivered) : '\n' ∉ lazyLine floatRepr task rubric expert criteria row :=
  newline_dumps hfloat _

/-- The body of an export has as many newline bytes as rows. -/
theorem countNewlines_body {lines : List (List Char)} (h : ∀ line ∈ lines, '\n' ∉ line) :
    countNewlines (Exports.body lines) = lines.length := by
  rw [Exports.body, countNewlines_toUTF8, count_terminated h]

variable [DecidableEq ι]

/-- Replacing the phase of one transaction. -/
theorem Exports.Sound.setPhase (h : c.Sound sha256) (i : ι) {p : Exporting}
    (hp : p.Sound sha256 c.files c.db.deliveries.rows.length)
    (hown : ∀ call d, p = .inserted call d → c.owner d.version = some i) :
    (c.setPhase i p).Sound sha256 where
  versions := h.versions
  wrote := h.wrote
  named := h.named
  phases := by
    intro j
    -- the transactions other than `i` are where they were
    by_cases hj : j = i
    · rw [hj, Exports.setPhase_same]
      exact hp
    · rw [Exports.setPhase_other c hj]
      exact h.phases j
  owns := by
    intro j call d hphase
    by_cases hj : j = i
    · rw [hj] at hphase ⊢
      rw [Exports.setPhase_same] at hphase
      exact hown call d hphase
    · rw [Exports.setPhase_other c hj] at hphase
      exact h.owns j call d hphase

/-- A failed export takes its version back, but leaves its object. -/
theorem Exports.Sound.finish (h : c.Sound sha256) (i : ι) : (c.finish i).Sound sha256 := by
  have hended := h.setPhase i (p := .ended) trivial (fun _ _ he => nomatch he)
  refine { hended with owns := fun j call d hphase => ?_ }
  have hj : j ≠ i := by
    rintro rfl
    rw [Exports.finish_same] at hphase
    exact nomatch hphase
  have howner : c.owner d.version = some j := hended.owns j call d hphase
  have hother : c.owner d.version ≠ some i := by
    rw [howner]
    exact fun he => hj (Option.some.inj he)
  exact (if_neg hother).trans howner

theorem Exports.Sound.put (h : c.Sound sha256) {i : ι} {call : ExportCall} {body : ByteArray}
    {count version : ℕ} (hphase : c.phase i = .numbered call body count version) :
    (c.put sha256 i call body count version).Sound sha256 := by
  have hi := h.phases i
  rw [hphase] at hi
  obtain ⟨hs, hcount, hpos, hle⟩ := hi
  let place := storePlace call.settings version (hexDigest (sha256 body))
  have hsub : c.files ⊆ (c.write place body).files := List.subset_cons_self _ _
  -- the object is named by its own digest, and nothing else moves
  have hfiles : (c.write place body).Sound sha256 :=
    { versions := h.versions
      wrote := fun d hd => (h.wrote d hd).imp (fun _ hw => hw.mono hsub)
      named := by
        intro f hf
        rcases List.mem_cons.mp hf with rfl | hf
        · exact ⟨call.settings, version, rfl⟩
        · exact h.named f hf
      phases := fun j => (h.phases j).mono hsub
      owns := h.owns }
  refine hfiles.setPhase i (p := .stored call _) ⟨⟨body, ?_⟩, hpos, hle⟩ (fun _ _ he => nomatch he)
  exact
    { checksum := rfl
      rowCount := hcount.symm
      sizeBytes := rfl
      written := ⟨call.settings, hs, rfl, List.mem_cons_self⟩ }

theorem Exports.Sound.insert (h : c.Sound sha256) {i : ι} {call : ExportCall} {d : Delivery}
    (hphase : c.phase i = .stored call d) (hfree : c.owner d.version = none)
    (hfresh : ∀ r ∈ c.db.deliveries, r.version ≠ d.version) :
    ((c.hold i d.version).setPhase i (.inserted call d)).Sound sha256 := by
  have hi := h.phases i
  rw [hphase] at hi
  obtain ⟨hwrote, hpos, hle⟩ := hi
  -- a version at most one past the committed ones that is not taken is the next one
  have hnext : d.version = c.db.deliveries.rows.length + 1 := by
    by_contra hne
    obtain ⟨r, hr, he⟩ := h.version_mem.mpr ⟨hpos, by omega⟩
    exact hfresh r hr he
  have howned : (c.hold i d.version).Sound sha256 :=
    { h with
      owns := by
        intro j call' d' hj
        have howner := h.owns j call' d' hj
        have hne : d'.version ≠ d.version := by
          intro he
          rw [he, hfree] at howner
          exact nomatch howner
        exact (Function.update_of_ne hne _ _).trans howner }
  refine howned.setPhase i (p := .inserted call d) ⟨hwrote, hnext⟩ ?_
  intro call' d' he
  obtain ⟨_, rfl⟩ := Exporting.inserted.inj he
  exact Function.update_self _ _ _

theorem Exports.Sound.commit (h : c.Sound sha256) {i : ι} {call : ExportCall} {d : Delivery}
    {db : Db} (hphase : c.phase i = .inserted call d)
    (hrows : db.deliveries.rows = c.db.deliveries.rows ++ [d]) :
    ((c.commitDb db).finish i).Sound sha256 := by
  have hi := h.phases i
  rw [hphase] at hi
  obtain ⟨hwrote, hnext⟩ := hi
  have hlen : db.deliveries.rows.length = c.db.deliveries.rows.length + 1 := by
    rw [hrows, List.length_append, List.length_singleton]
  have hfinish := h.finish i
  refine ⟨?_, ?_, h.named, ?_, hfinish.owns⟩
  · show db.deliveries.rows.map Delivery.version = List.range' 1 db.deliveries.rows.length
    rw [hlen, hrows, List.map_append, h.versions, List.map_singleton, hnext,
      List.range'_1_concat, Nat.add_comm]
  · intro r hr
    have hr : r ∈ c.db.deliveries.rows ++ [d] := hrows ▸ hr
    rcases List.mem_append.mp hr with hr | hr
    · exact h.wrote r hr
    · rw [List.mem_singleton.mp hr]
      exact hwrote
  · intro j
    show Exporting.Sound sha256 c.files db.deliveries.rows.length _
    rw [hlen]
    refine (hfinish.phases j).succ ?_
    intro call' d' hj
    -- the next version has one owner, and that one is over
    have hne : j ≠ i := by
      rintro rfl
      rw [Exports.finish_same] at hj
      exact nomatch hj
    have hsame : c.phase j = .inserted call' d' := (Exports.finish_other c hne).symm.trans hj
    have hnext' := h.phases j
    rw [hsame] at hnext'
    have howner := h.owns j call' d' hsame
    rw [hnext'.2, ← hnext, h.owns i call d hphase] at howner
    exact hne (Option.some.inj howner).symm

theorem Exports.Sound.step (hfloat : ∀ q, '\n' ∉ floatRepr q) (h : c.Sound sha256)
    (hs : Exports.Step sha256 floatRepr c c') : c'.Sound sha256 := by
  cases hs with
  | query i call hphase =>
    exact h.setPhase i (fun line hl => absurd hl (by simp)) (fun _ _ he => nomatch he)
  | line i call row rows lines task rubric expert criteria hphase =>
    have hlines := h.phases i
    rw [hphase] at hlines
    refine h.setPhase i (fun line hl => ?_) (fun _ _ he => nomatch he)
    rcases List.mem_append.mp hl with hl | hl
    · exact hlines line hl
    · rw [List.mem_singleton.mp hl]
      exact newline_lazyLine hfloat task rubric expert criteria row
  | number i call lines hphase =>
    have hlines := h.phases i
    rw [hphase] at hlines
    refine h.setPhase i ⟨call.deliverable, countNewlines_body hlines, ?_, ?_⟩
      (fun _ _ he => nomatch he)
    -- the next version is one above the rows, whoever is ahead
    · rw [h.nextVersion_eq]
      omega
    · rw [h.nextVersion_eq]
  | put i call body count version hphase => exact h.put hphase
  | insert i call d hphase hfree hfresh => exact h.insert hphase hfree hfresh
  | commit i call d db hphase hrows => exact h.commit hphase hrows
  | finish i => exact h.finish i
  | other db hdb =>
    refine ⟨?_, ?_, h.named, ?_, h.owns⟩
    · show db.deliveries.rows.map Delivery.version = List.range' 1 db.deliveries.rows.length
      rw [hdb]
      exact h.versions
    · exact fun d hd => h.wrote d (hdb ▸ hd)
    · show ∀ i, (c.phase i).Sound sha256 c.files db.deliveries.rows.length
      rw [hdb]
      exact h.phases

/-- Rows and objects are only added. -/
theorem Exports.Step.grows (hs : Exports.Step sha256 floatRepr c c') :
    c.db.deliveries.rows <+: c'.db.deliveries.rows ∧ c.files <:+ c'.files := by
  cases hs with
  | query i call hphase => exact ⟨List.prefix_refl _, List.suffix_refl _⟩
  | line i call row rows lines task rubric expert criteria hphase =>
    exact ⟨List.prefix_refl _, List.suffix_refl _⟩
  | number i call lines hphase => exact ⟨List.prefix_refl _, List.suffix_refl _⟩
  | put i call body count version hphase => exact ⟨List.prefix_refl _, List.suffix_cons _ _⟩
  | insert i call d hphase hfree hfresh => exact ⟨List.prefix_refl _, List.suffix_refl _⟩
  | commit i call d db hphase hrows => exact ⟨⟨[d], hrows.symm⟩, List.suffix_refl _⟩
  | finish i => exact ⟨List.prefix_refl _, List.suffix_refl _⟩
  | other db hdb =>
    refine ⟨?_, List.suffix_refl _⟩
    show c.db.deliveries.rows <+: db.deliveries.rows
    rw [hdb]

end Invariant

/-! ### One export by itself -/

section Alone
variable {ι : Type} [DecidableEq ι] {sha256 : ByteArray → List UInt8}
  {floatRepr : ℚ → List Char} {c : Exports ι} {i : ι} {call : ExportCall}

/-- Read at one moment, a row gives the line of `build_jsonl`. -/
theorem lazyLine_of_mem {db : Db} {row : Delivered} (h : row ∈ deliveredRows db) :
    lazyLine floatRepr db db db db row = dumps floatRepr (rowJson db row) := by
  obtain ⟨g, _, hg⟩ := mem_deliveredRows.mp h
  obtain ⟨_, htask, _, _, hrow⟩ := deliveredRow_eq_some.mp hg
  have hgrade : row.grade = g := by rw [hrow]
  rw [lazyLine, hgrade, htask, Option.getD_some, ← hgrade]
  rfl

theorem body_buildJsonl (db : Db) :
    Exports.body ((deliveredRows db).map (fun row => dumps floatRepr (rowJson db row))) =
      (buildJsonl floatRepr db).1 := by
  rw [Exports.body, buildJsonl, terminated, List.flatMap_map]
  rfl

/-- The rows are loaded one after another. -/
theorem run_load {rows : List Delivered} {lines : List (List Char)}
    (hrows : ∀ row ∈ rows, row ∈ deliveredRows c.db) :
    run (Exports.step sha256 floatRepr) (c.setPhase i (.loading call rows lines))
        (List.replicate rows.length (.load i 0 0 0 0)) =
      c.setPhase i (.loading call []
        (lines ++ rows.map (fun row => dumps floatRepr (rowJson c.db row)))) := by
  induction rows generalizing lines with
  | nil => rw [List.map_nil, List.append_nil]; rfl
  | cons row rows ih =>
    have hstep : Exports.step sha256 floatRepr (.load i 0 0 0 0)
        (c.setPhase i (.loading call (row :: rows) lines)) =
        .ok (c.setPhase i (.loading call rows
          (lines ++ [dumps floatRepr (rowJson c.db row)])), ()) := by
      rw [← lazyLine_of_mem (hrows row List.mem_cons_self)]
      simp [Exports.step, Exports.setPhase, Exports.ago]
    rw [List.length_cons, List.replicate_succ, run_cons, commit_of_ok _ hstep,
      ih (fun r hr => hrows r (List.mem_cons_of_mem row hr)), List.map_cons, List.append_assoc,
      List.singleton_append]

theorem commit_number {lines : List (List Char)} (h : c.phase i = .loading call [] lines) :
    commit (Exports.step sha256 floatRepr) (.run i) c = c.setPhase i
      (.numbered call (Exports.body lines) lines.length (Exports.nextVersion c.db)) :=
  commit_of_ok _ (r := ()) (by simp only [Exports.step, Exports.advance, h])

theorem commit_put {body : ByteArray} {count version : ℕ}
    (h : c.phase i = .numbered call body count version) :
    commit (Exports.step sha256 floatRepr) (.run i) c = c.put sha256 i call body count version :=
  commit_of_ok _ (r := ()) (by simp only [Exports.step, Exports.advance, h])

theorem put_phase (c : Exports ι) (i : ι) (call : ExportCall) (body : ByteArray)
    (count version : ℕ) : (c.put sha256 i call body count version).phase i = .stored call
      ⟨call.id, version, hexDigest (sha256 body),
        storeLocation call.settings version (hexDigest (sha256 body)), count, body.size⟩ :=
  Exports.setPhase_same c i _

theorem commit_insert {d : Delivery} {deliveries : Table Delivery}
    (h : c.phase i = .stored call d) (hfree : c.owner d.version = none)
    (hins : c.db.deliveries.insert d = some deliveries) :
    commit (Exports.step sha256 floatRepr) (.run i) c =
      (c.hold i d.version).setPhase i (.inserted call d) :=
  commit_of_ok _ (r := ())
    (by simp [Exports.step, Exports.advance, h, Exports.insertRow, hfree, hins])

theorem commit_row {d : Delivery} {deliveries : Table Delivery}
    (h : c.phase i = .inserted call d) (hins : c.db.deliveries.insert d = some deliveries) :
    commit (Exports.step sha256 floatRepr) (.run i) c =
      (c.commitDb (record { c.db with deliveries := deliveries } call.actor "delivery.exported"
        "delivery" d.id.str)).finish i :=
  commit_of_ok _ (r := ())
    (by simp only [Exports.step, Exports.advance, h, Exports.commitRow, hins])

/-- The INSERT and the COMMIT. -/
theorem run_row {d : Delivery} {deliveries : Table Delivery} (h : c.phase i = .stored call d)
    (hfree : c.owner d.version = none) (hins : c.db.deliveries.insert d = some deliveries) :
    let c' : Exports ι := run (Exports.step sha256 floatRepr) c [.run i, .run i]
    c'.db = record { c.db with deliveries := deliveries } call.actor "delivery.exported"
      "delivery" d.id.str ∧ c'.files = c.files := by
  rw [run_cons, commit_insert h hfree hins, run_cons,
    commit_row (c := (c.hold i d.version).setPhase i (.inserted call d))
      (Exports.setPhase_same _ i _) hins, run_nil]
  exact ⟨rfl, rfl⟩

/-- An export no other transaction meets does what `exportDelivery` says, and leaves its body
in the storage. -/
theorem export_alone {env : Env} {db' : Db} {d : Delivery} (hidle : c.phase i = .idle)
    (hfree : ∀ version, c.owner version = none) (hid : env.uuid4 0 = call.id)
    (hsettings : env.settings = call.settings)
    (h : exportDelivery env c.db call.actor = .ok (db', d)) :
    let c' : Exports ι := run (Exports.step env.sha256 env.floatRepr) c (.start i call ::
      (List.replicate (deliveredRows c.db).length (.load i 0 0 0 0) ++
        List.replicate 4 (.run i)))
    c'.db = db' ∧ c'.files =
      (storePlace call.settings d.version d.checksum, (buildJsonl env.floatRepr c.db).1) ::
        c.files := by
  simp only [exportDelivery, bind_ok_iff, orFail_ok_iff, pure_ok_iff, Prod.mk.injEq] at h
  obtain ⟨deliveries, hins, rfl, rfl⟩ := h
  rw [hsettings, hid] at hins ⊢
  have hstart : Exports.step env.sha256 env.floatRepr (.start i call) c =
      .ok (c.setPhase i (.loading call (deliveredRows c.db) []), ()) := by
    simp [Exports.step, hidle]
  rw [run_cons, commit_of_ok _ hstart, run_append, run_load (fun row hrow => hrow),
    List.nil_append]
  -- the four statements left: MAX, the object, the INSERT and the COMMIT
  set lines := (deliveredRows c.db).map (fun row => dumps env.floatRepr (rowJson c.db row))
  have hbody : Exports.body lines = (buildJsonl env.floatRepr c.db).1 := body_buildJsonl c.db
  have hcount : lines.length = (buildJsonl env.floatRepr c.db).2 := List.length_map _
  have hfour : List.replicate 4 (ExportChoice.run i) = [.run i, .run i, .run i, .run i] := rfl
  rw [hfour, run_cons, commit_number (Exports.setPhase_same c i _), hbody, hcount, run_cons,
    commit_put (Exports.setPhase_same _ i _)]
  let numbered : Exports ι := (c.setPhase i (.loading call [] lines)).setPhase i (.numbered call
    (buildJsonl env.floatRepr c.db).1 (buildJsonl env.floatRepr c.db).2 (Exports.nextVersion c.db))
  obtain ⟨hcommitted, hfiles⟩ := @run_row ι _ env.sha256 env.floatRepr _ i call _ _
    (put_phase numbered i call (buildJsonl env.floatRepr c.db).1
      (buildJsonl env.floatRepr c.db).2 (Exports.nextVersion c.db)) (hfree _) hins
  exact ⟨hcommitted, hfiles⟩

end Alone

/-! ### Runs -/

section Runs
variable {ι : Type} {sha256 : ByteArray → List UInt8}
  {floatRepr : ℚ → List Char}

theorem sound_init (sha256 : ByteArray → List UInt8) {db : Db} (h : db.deliveries = .empty) :
    (Exports.init db : Exports ι).Sound sha256 where
  versions := by
    show db.deliveries.rows.map Delivery.version = List.range' 1 db.deliveries.rows.length
    rw [h]
    rfl
  wrote := by
    intro d hd
    have hd : d ∈ db.deliveries := hd
    rw [h] at hd
    exact absurd hd (Table.not_mem_empty d)
  named := fun f hf => absurd hf List.not_mem_nil
  phases := fun _ => trivial
  owns := fun _ _ _ he => nomatch he

/-- The committed versions are `1..n`, no two deliveries share a location, and in the later
`c'` each row committed in `c` reads back the bytes it read back then, which have its
checksum, its newlines and its size. -/
structure DeliveriesIntact (sha256 : ByteArray → List UInt8) (c c' : Exports ι) : Prop where
  versions : c.db.deliveries.rows.map Delivery.version =
    List.range' 1 c.db.deliveries.rows.length
  locations : (c.db.deliveries.rows.map Delivery.location).Nodup
  stays : ∀ row ∈ c.db.deliveries, row ∈ c'.db.deliveries
  bytes : ∀ row ∈ c.db.deliveries, ∃ body, readLocation c.files row.location = some body ∧
    readLocation c'.files row.location = some body ∧
    hexDigest (sha256 body) = row.checksum ∧ countNewlines body = row.rowCount ∧
    body.size = row.sizeBytes
  verified : ∀ row ∈ c.db.deliveries,
    ∃ report, verify sha256 c'.files row = some report ∧ report.isMatch = true

variable [DecidableEq ι]

/-- What a schedule leaves of exports that start from `db`. -/
def exportsAfter (sha256 : ByteArray → List UInt8) (floatRepr : ℚ → List Char) (db : Db)
    (schedule : List (ExportChoice ι)) : Exports ι :=
  run (Exports.step sha256 floatRepr) (Exports.init db) schedule

theorem exportsAfter_append (db : Db) (schedule later : List (ExportChoice ι)) :
    exportsAfter sha256 floatRepr db (schedule ++ later) =
      run (Exports.step sha256 floatRepr) (exportsAfter sha256 floatRepr db schedule) later :=
  run_append _ _ _ _

theorem sound_after (sha256 : ByteArray → List UInt8) (hfloat : ∀ q, '\n' ∉ floatRepr q)
    {db : Db} (h : db.deliveries = .empty) (schedule : List (ExportChoice ι)) :
    (exportsAfter sha256 floatRepr db schedule).Sound sha256 :=
  run_invariant _ (fun _ _ _ _ hc hs => hc.step hfloat (Exports.step_cases hs))
    (sound_init sha256 h) schedule

theorem grows_after (sha256 : ByteArray → List UInt8) (floatRepr : ℚ → List Char)
    (c : Exports ι) (schedule : List (ExportChoice ι)) :
    let c' : Exports ι := run (Exports.step sha256 floatRepr) c schedule
    c.db.deliveries.rows <+: c'.db.deliveries.rows ∧ c.files <:+ c'.files := by
  refine run_invariant (P := fun c' : Exports ι => c.db.deliveries.rows <+: c'.db.deliveries.rows ∧
    c.files <:+ c'.files) _ (fun _ _ _ _ hc hs => ?_)
    ⟨List.prefix_refl _, List.suffix_refl _⟩ schedule
  obtain ⟨hrows, hfiles⟩ := (Exports.step_cases hs).grows
  exact ⟨hc.1.trans hrows, hc.2.trans hfiles⟩

/-- In every interleaving of exports the deliveries are intact from their commit on. -/
theorem deliveries_intact (hfloat : ∀ q, '\n' ∉ floatRepr q) (db : Db)
    (hdb : db.deliveries = .empty) (schedule later : List (ExportChoice ι))
    (hsha : NoCollision sha256 (exportsAfter sha256 floatRepr db (schedule ++ later)).files) :
    DeliveriesIntact sha256 (exportsAfter sha256 floatRepr db schedule)
      (exportsAfter sha256 floatRepr db (schedule ++ later)) := by
  have hc := sound_after sha256 hfloat hdb schedule
  have hc' := sound_after sha256 hfloat hdb (schedule ++ later)
  have hgrows := grows_after sha256 floatRepr
    (exportsAfter sha256 floatRepr db schedule) later
  rw [← exportsAfter_append] at hgrows
  generalize exportsAfter sha256 floatRepr db schedule = c at hc hgrows ⊢
  generalize exportsAfter sha256 floatRepr db (schedule ++ later) = c' at hc' hgrows hsha ⊢
  obtain ⟨hrows, hfiles⟩ := hgrows
  refine ⟨hc.versions, ?_, fun row hrow => hrows.subset hrow, ?_, ?_⟩
  -- the location holds the version
  · refine List.Nodup.map_on (fun d hd d' hd' he => ?_) c.db.deliveries.nodup
    obtain ⟨body, hw⟩ := hc.wrote d hd
    obtain ⟨body', hw'⟩ := hc.wrote d' hd'
    exact c.db.deliveries.eq_of_pk hd hd' (hw.version_eq hw' he)
  · intro row hrow
    obtain ⟨body, hw⟩ := hc.wrote row hrow
    -- what was written stays, and no other body lies at its place
    have hw' : Wrote sha256 c'.files row body := hw.mono hfiles.subset
    exact ⟨body, hw.read hc.named (hsha.mono hfiles.subset), hw'.read hc'.named hsha,
      hw.checksum.symm, hw.rowCount.symm, hw.sizeBytes.symm⟩
  · intro row hrow
    obtain ⟨body, hw⟩ := hc.wrote row hrow
    exact (hw.mono hfiles.subset).verify hc'.named hsha

end Runs

namespace Scenario

def sha256 (bytes : ByteArray) : List UInt8 := Sha2.digest bytes.data.toList

def toDisk (id : Uuid) : ExportCall where
  id := id
  settings := { deliveryDir := "/srv/deliveries" }
  actor := "admin"
  deliverable := ⟨by decide, by decide⟩

/-- Grade 700 is approved and nothing is exported yet. -/
def undelivered : Db :=
  after (setup ++ [call 5 (.createTasks [task] "admin"), call 6 (.claimNext 300),
    call 7 (.submit 300 (grade 500 4)), call 8 (.review 7 ⟨700, .approve, none⟩ "reviewer")])

/-- The author of grade 700 is promoted. -/
def promoted (db : Db) : Db :=
  { db with experts := db.experts.update 300 (fun e => { e with tier := .senior }) (fun _ => rfl) }

/-- Exports 1 and 2 take the same version, for the lines before and after the promotion;
the INSERT of 1 waits for 2 and then fails. -/
def racing : List (ExportChoice ℕ) :=
  [.start 1 (toDisk 1), .start 2 (toDisk 2), .load 1 0 0 0 0, .other promoted, .load 2 0 0 0 0,
   .run 1, .run 2, .run 1, .run 2, .run 2, .run 1, .run 2, .run 1]

/-- Export 3 gives up before it stores anything. -/
def again : List (ExportChoice ℕ) := [.start 3 (toDisk 3), .load 3 0 0 0 0, .run 3, .cancel 3]

def raced (schedule : List (ExportChoice ℕ)) : Exports ℕ :=
  exportsAfter sha256 decimalRepr undelivered schedule

end Scenario

section Racing
open Scenario

/-- The race stores two objects: `build_jsonl` as it was before the promotion, and as it is
after it. -/
theorem files_racing {sha256 : ByteArray → List UInt8} {floatRepr : ℚ → List Char} {db : Db}
    {row : Delivered} (hrow : deliveredRows db = [row]) :
    (exportsAfter sha256 floatRepr db (racing.take 9)).files.map Prod.snd =
      [(buildJsonl floatRepr (promoted db)).1, (buildJsonl floatRepr db).1] := by
  have hbody (db : Db) (h : deliveredRows db = [row]) :
      Exports.body [lazyLine floatRepr db db db db row] = (buildJsonl floatRepr db).1 := by
    rw [← body_buildJsonl, h, List.map_singleton,
      lazyLine_of_mem (h ▸ List.mem_singleton_self row)]
  have hpromoted : deliveredRows (promoted db) = [row] := hrow
  rw [← hbody db hrow, ← hbody (promoted db) hpromoted, exportsAfter, racing]
  -- the nine steps up to the second `_store`
  simp [run_cons, commit, Exports.step, Exports.init, Exports.setPhase, Function.update, hrow,
    Exports.advance, Exports.ago, Exports.commitDb, Exports.put, Exports.write]
  rfl

/-- Nothing is stored after the ninth step. -/
theorem files_racing_again :
    (raced (racing.take 9)).files = (raced (racing ++ again)).files := by
  have hsplit : racing ++ again = racing.take 9 ++ (racing.drop 9 ++ again) := by
    rw [← List.append_assoc, List.take_append_drop]
  have hgrows := (grows_after sha256 decimalRepr (raced (racing.take 9))
    (racing.drop 9 ++ again)).2
  rw [raced, ← exportsAfter_append, ← hsplit] at hgrows
  exact hgrows.eq_of_length (by decide +kernel)

theorem hexDigest_undelivered :
    (hexDigest (sha256 (buildJsonl decimalRepr undelivered).1)).toList.take 12 =
      "90e0f4706e7e".toList := by
  simp only [sha256, buildJsonl, toList_toUTF8, Sha2.digest_eq]
  decide +kernel

theorem hexDigest_promoted :
    (hexDigest (sha256 (buildJsonl decimalRepr (promoted undelivered)).1)).toList.take 12 =
      "83be64fe7b23".toList := by
  simp only [sha256, buildJsonl, toList_toUTF8, Sha2.digest_eq]
  decide +kernel

theorem noCollision_racing : NoCollision sha256 (raced (racing ++ again)).files := by
  obtain ⟨row, hrow⟩ : ∃ row, deliveredRows undelivered = [row] :=
    List.length_eq_one_iff.mp (by decide +kernel)
  have hfiles : (raced (racing.take 9)).files.map Prod.snd = _ := files_racing hrow
  have hbodies := congrArg (List.map (fun body => (hexDigest (sha256 body)).toList.take 12)) hfiles
  rw [files_racing_again, List.map_map, Function.comp_def, List.map_cons, List.map_singleton,
    hexDigest_promoted, hexDigest_undelivered] at hbodies
  have hprefixes : ((raced (racing ++ again)).files.map (fun f =>
      (hexDigest (sha256 f.2)).toList.take 12)).Nodup := by
    rw [hbodies]
    decide
  exact fun f hf g hg hsame => congrArg Prod.snd (List.inj_on_of_nodup_map hprefixes hf hg hsame)

/-- The loser of the race leaves an object of version 1 behind that no row points to. -/
theorem deliveries_intact_racing :
    (raced racing).db.deliveries.rows.map (fun d => (d.version, d.rowCount)) = [(1, 1)] ∧
    (raced racing).files.length = 2 ∧
    NoCollision sha256 (raced (racing ++ again)).files ∧
    DeliveriesIntact sha256 (raced racing) (raced (racing ++ again)) := by
  have hnone : undelivered.deliveries = .empty :=
    Table.ext (List.isEmpty_iff.mp (by decide +kernel))
  exact ⟨by decide +kernel, by decide +kernel, noCollision_racing,
    deliveries_intact newline_decimalRepr undelivered hnone racing again noCollision_racing⟩

end Racing

end Panelist
