import Panelist.Csv
import Panelist.Entries
import Panelist.References
import Panelist.StatementCsv

/-! What the service writes down for good: the trail, the tier moves, the golden checks, the
deliveries, and `audit.export_csv`, which prints the trail. Over any run each of them only grows,
and the events of an account name exactly its rows, each once and in the order they were added. -/
namespace Panelist
open Relational Transaction

/-- Everything `db` has that is written once: whole rows, the columns of a row that no request
writes again, and the four histories with their order. -/
structure Permanent (db db' : Db) : Prop extends Grows db db', Retains db db' where
  names : db.experts.Evolves Expert.SameName db'.experts

/-- No later request takes back what a run has written. -/
theorem history_permanent (rs qs : List Request) : Permanent (after rs) (after (rs ++ qs)) :=
  { (written_run rs qs).toGrows, retains_after rs qs with names := names_after rs qs }

/-! ### The trail as a file -/

/-- What the text takes from outside the model: the columns of an event that nothing here reads,
by its place in the trail. The sequence behind the ids counts up, with gaps. -/
structure Stamps where
  id : ℕ → ℕ
  id_increasing : StrictMono id
  createdAt : ℕ → Time
  payload : ℕ → List Char
  isoformat : Time → List Char

/-- An event and its place in the trail. -/
abbrev Entry := AuditEvent × ℕ

/-- The query parameters of `/ops/audit.csv`. -/
structure TrailQuery where
  since : Option Time := none
  action : Option String := none
  limit : ℕ := 10000

def auditColumns : Csv.Record :=
  ["id".toList, "created_at".toList, "actor".toList, "action".toList, "entity_type".toList,
    "entity_id".toList, "payload".toList]

section Export
variable (stamps : Stamps) (query : TrailQuery)

def TrailQuery.matches (entry : Entry) : Bool :=
  query.since.all (fun since => since ≤ stamps.createdAt entry.2) &&
    query.action.all (fun action => entry.1.action = action)

def eventFields (entry : Entry) : Csv.Record :=
  let (event, i) := entry
  [(toString (stamps.id i)).toList, stamps.isoformat (stamps.createdAt i), event.actor.toList,
    event.action.toList, event.entityType.toList, event.entityId.toList, stamps.payload i]

/-- The matching rows, `ORDER BY id`. -/
def matchingEntries (db : Db) : List Entry :=
  (db.auditEvents.zipIdx.filter (query.matches stamps)).insertionSort
    (fun a b => stamps.id a.2 ≤ stamps.id b.2)

def exportCsv (db : Db) : List Char :=
  Csv.write (auditColumns ::
    ((matchingEntries stamps query db).take query.limit).map (eventFields stamps))

/-- `audit_export`, which allows 100,000 rows. -/
def auditExport (db : Db) : List Char :=
  exportCsv stamps { query with limit := min query.limit 100000 } db

end Export

section Export
variable {stamps : Stamps} {query : TrailQuery} {db db' : Db}

/-- The order of the ids is the order of the trail, whatever the gaps. -/
theorem matchingEntries_eq :
    matchingEntries stamps query db = db.auditEvents.zipIdx.filter (query.matches stamps) := by
  apply List.Pairwise.insertionSort_eq
  apply List.Pairwise.filter
  have hplaces : (db.auditEvents.zipIdx.map Prod.snd).Pairwise (· < ·) := by
    rw [List.zipIdx_map_snd]
    exact List.pairwise_lt_range'
  apply (List.pairwise_map.mp hplaces).imp
  intro a b hab
  exact (stamps.id_increasing hab).le

theorem parse_exportCsv : Csv.parse (exportCsv stamps query db) = some (auditColumns ::
    ((db.auditEvents.zipIdx.filter (query.matches stamps)).take query.limit).map
      (eventFields stamps)) := by
  rw [← matchingEntries_eq]
  apply Csv.parse_write
  intro row hrow
  rcases List.mem_cons.mp hrow with rfl | hrow
  · exact List.cons_ne_nil _ _
  · obtain ⟨entry, -, rfl⟩ := List.mem_map.mp hrow
    exact List.cons_ne_nil _ _

end Export

namespace Scenario

/-- A sequence that loses two ids of three. -/
def stamps : Stamps where
  id i := 3 * i + 1
  id_increasing _ _ hij := by
    show 3 * _ + 1 < 3 * _ + 1
    omega
  createdAt i := i
  payload _ := "{}".toList
  isoformat := utcIsoformat

end Scenario

/-- After every run the events of an account name its rows, in the order they were added. -/
theorem entries_eq_entities (rs : List Request) (A : Account) :
    A.entries (after rs) = A.entities (after rs) := by
  obtain ⟨new, hrows, hentries⟩ := (written_run [] rs).adds A
  have hnone : A.entries (after []) = A.entities (after []) := by cases A <;> rfl
  calc A.entries (after rs)
      = A.entries (after []) ++ new := hentries
    _ = A.entities (after []) ++ new := by rw [hnone]
    _ = A.entities (after rs) := hrows.symm

/-- The column `entity_id` of a file. -/
def entityColumn (text : List Char) : List Csv.Field :=
  ((Csv.parse text).getD []).tail.map (fun r => r.getD 5 [])

/-- The query of an account's events. -/
def Account.query (A : Account) (limit : ℕ) : TrailQuery :=
  { action := some A.action, limit := limit }

theorem zipIdx_matching (stamps : Stamps) (A : Account) (limit : ℕ) (db : Db) :
    (db.auditEvents.zipIdx.filter ((A.query limit).matches stamps)).map (fun e => e.1.entityId) =
      A.entries db := by
  have hmatch (entry : Entry) :
      (A.query limit).matches stamps entry = decide (entry.1.action = A.action) := by
    simp [TrailQuery.matches, Account.query]
  have hfst : db.auditEvents.zipIdx.map Prod.fst = db.auditEvents := List.zipIdx_map_fst 0 _
  calc (db.auditEvents.zipIdx.filter ((A.query limit).matches stamps)).map (fun e => e.1.entityId)
      = (db.auditEvents.zipIdx.filter
          ((fun e : AuditEvent => decide (e.action = A.action)) ∘ Prod.fst)).map
            (AuditEvent.entityId ∘ Prod.fst) :=
        congrArg (List.map _) (List.filter_congr (fun entry _ => hmatch entry))
    _ = ((db.auditEvents.zipIdx.map Prod.fst).filter
          (fun e => decide (e.action = A.action))).map AuditEvent.entityId := by
        rw [List.filter_map, List.map_map]
    _ = A.entries db := congrArg (fun l : List AuditEvent =>
        (l.filter (fun e => decide (e.action = A.action))).map AuditEvent.entityId) hfst

/-- The file of an account's events, after any run: its column `entity_id` lists the rows the
service has, from the first one on, up to the limit. -/
theorem audit_file_accounts (stamps : Stamps) (rs : List Request) (A : Account) (limit : ℕ) :
    entityColumn (auditExport stamps (A.query limit) (after rs)) =
      ((A.entities (after rs)).map String.toList).take (min limit 100000) := by
  have hfile : Csv.parse (auditExport stamps (A.query limit) (after rs)) = some (auditColumns ::
      (((after rs).auditEvents.zipIdx.filter ((A.query limit).matches stamps)).take
        (min limit 100000)).map (eventFields stamps)) := parse_exportCsv
  rw [entityColumn, hfile, ← entries_eq_entities rs A, ← zipIdx_matching stamps A limit]
  simp only [Option.getD_some, List.tail_cons, List.map_map, List.map_take]
  -- the entity is the sixth column
  congr 1

open Scenario in
/-- The approval of grade 700 creates payout 701, which the file of its account lists. -/
theorem audit_file_accounts_payout :
    entityColumn (auditExport stamps (Account.payout.query 10) (after (single ++ [approve 8]))) =
      ["00000000-0000-0000-0000-0000000002bd".toList] := by
  rw [audit_file_accounts stamps (single ++ [approve 8]) .payout 10]
  decide +kernel

end Panelist
