import Panelist.Delivery
import Panelist.Lines

/-! Where `_store` writes an export and where `_read` looks for it, and the check `verify`
makes of a stored object against its row. -/
namespace Panelist
open Relational Serial

/-- An object of a bucket, or a file. -/
inductive Place where
  | object (bucket key : String)
  | file (path : String)
  deriving DecidableEq

/-- What was written, newest first. -/
abbrev Stored := List (Place × ByteArray)

/-- The storage returns the last bytes written under a name. -/
def Stored.get (files : Stored) (place : Place) : Option ByteArray :=
  (files.find? (fun f => f.1 = place)).map Prod.snd

/-- The file name `_store` gives an export. -/
def deliveryName (version : ℕ) (checksum : String) : String :=
  s!"panelist-grades-v{version}-{String.ofList (checksum.toList.take 12)}.jsonl"

/-- Where `_store` writes. -/
def storePlace (settings : Settings) (version : ℕ) (checksum : String) : Place :=
  if settings.deliveryS3Bucket = "" then
    .file s!"{settings.deliveryDir}/{deliveryName version checksum}"
  else .object settings.deliveryS3Bucket s!"deliveries/{deliveryName version checksum}"

/-- `location[len("s3://"):].split("/", 1)`; a bucket without a key does not unpack. -/
def objectPlace (path : List Char) : Option Place :=
  match path.dropWhile (· != '/') with
  | [] => none
  | _ :: key => some (.object (String.ofList (path.takeWhile (· != '/'))) (String.ofList key))

/-- The place `_read` takes a location for. -/
def readPlace (location : String) : Option Place :=
  if location.toList.take 5 = "s3://".toList then objectPlace (location.toList.drop 5)
  else some (.file location)

/-- `_read`. -/
def readLocation (files : Stored) (location : String) : Option ByteArray :=
  (readPlace location).bind files.get

structure Verification where
  version : ℕ
  location : String
  storedChecksum : String
  checksum : String
  rowCount : ℕ
  rowsRead : ℕ
  sizeBytes : ℕ
  bytesRead : ℕ
  isMatch : Bool

/-- `verify`: the sha256, row count and size must be what the row says. -/
def verify (sha256 : ByteArray → List UInt8) (files : Stored) (row : Delivery) :
    Option Verification := do
  let body ← readLocation files row.location
  -- of the bytes that are there now, whatever the row says
  let checksum := hexDigest (sha256 body)
  let rowsRead := countNewlines body
  some
    { version := row.version
      location := row.location
      storedChecksum := row.checksum
      checksum := checksum
      rowCount := row.rowCount
      rowsRead := rowsRead
      sizeBytes := row.sizeBytes
      bytesRead := body.size
      isMatch := checksum = row.checksum && rowsRead = row.rowCount && body.size = row.sizeBytes }

/-- Settings an export can run under: the name of a bucket has no slash, and a resolved
directory is an absolute path. -/
structure Settings.Deliverable (settings : Settings) : Prop where
  bucket : '/' ∉ settings.deliveryS3Bucket.toList
  dir : settings.deliveryDir.toList.head? = some '/'

section Names
variable {settings settings' : Settings} {version version' : ℕ} {checksum checksum' : String}

theorem storeLocation_eq : storeLocation settings version checksum =
    if settings.deliveryS3Bucket = "" then
      s!"{settings.deliveryDir}/{deliveryName version checksum}"
    else s!"s3://{settings.deliveryS3Bucket}/deliveries/{deliveryName version checksum}" := by
  unfold storeLocation deliveryName
  rfl

/-- The name around its version and the head of its checksum. -/
theorem deliveryName_toList : (deliveryName version checksum).toList =
    "panelist-grades-v".toList ++ (toString version).toList ++ "-".toList ++
      checksum.toList.take 12 ++ ".jsonl".toList := by
  have hname : deliveryName version checksum = "panelist-grades-v" ++ toString version ++ "-" ++
      String.ofList (checksum.toList.take 12) ++ ".jsonl" := by
    unfold deliveryName
    rfl
  rw [hname, String.toList_append, String.toList_append, String.toList_append,
    String.toList_append, @String.toList_ofList (checksum.toList.take 12)]

theorem hexDigest_ne {bytes : List UInt8} {c : Char} (h : c ∈ (hexDigest bytes).toList) :
    c ≠ '/' := by
  rw [hexDigest, String.toList_ofList, List.mem_flatMap] at h
  obtain ⟨b, _, hc⟩ := h
  exact (padded_ne hc).2

/-- The name of a stored export has no slash. -/
theorem slash_deliveryName {bytes : List UInt8} :
    '/' ∉ (deliveryName version (hexDigest bytes)).toList := by
  rw [deliveryName_toList]
  simp only [List.mem_append, not_or]
  refine ⟨⟨⟨⟨by decide, ?_⟩, by decide⟩, ?_⟩, by decide⟩
  · exact fun h => (digit_ne h).2.1 rfl
  · exact fun h => hexDigest_ne (List.mem_of_mem_take h) rfl

/-- The name gives the version and the head of the checksum away. -/
theorem deliveryName_inj (h : deliveryName version checksum = deliveryName version' checksum') :
    version = version' ∧ checksum.toList.take 12 = checksum'.toList.take 12 := by
  have hlist := congrArg String.toList h
  rw [deliveryName_toList, deliveryName_toList] at hlist
  have hcut : (toString version).toList ++ '-' :: (checksum.toList.take 12 ++ ".jsonl".toList) =
      (toString version').toList ++ '-' :: (checksum'.toList.take 12 ++ ".jsonl".toList) := by
    have hdash : "-".toList = ['-'] := by decide
    rw [hdash] at hlist
    simp only [List.append_assoc, List.singleton_append] at hlist
    exact List.append_cancel_left hlist
  obtain ⟨hversion, htail⟩ := cut_unique (fun hd => (digit_ne hd).2.2 rfl)
    (fun hd => (digit_ne hd).2.2 rfl) hcut
  refine ⟨?_, List.append_cancel_right htail⟩
  have hstr : toString version = toString version' := String.toList_inj.mp hversion
  exact Nat.repr_injective hstr

/-- The location `_store` answers with, as `_read` takes it apart. -/
theorem storeLocation_toList : (storeLocation settings version checksum).toList =
    (if settings.deliveryS3Bucket = "" then settings.deliveryDir.toList
      else "s3://".toList ++ settings.deliveryS3Bucket.toList ++ "/deliveries".toList) ++
      '/' :: (deliveryName version checksum).toList := by
  rw [storeLocation_eq]
  split_ifs with hb
  · have hfile : s!"{settings.deliveryDir}/{deliveryName version checksum}" =
        settings.deliveryDir ++ "/" ++ deliveryName version checksum := rfl
    have hslash : "/".toList = ['/'] := by decide
    rw [hfile, String.toList_append, String.toList_append, hslash, List.append_assoc,
      List.singleton_append]
  · have hobject :
        s!"s3://{settings.deliveryS3Bucket}/deliveries/{deliveryName version checksum}" =
        "s3://" ++ settings.deliveryS3Bucket ++ "/deliveries/" ++
          deliveryName version checksum := rfl
    have hslash : "/deliveries/".toList = "/deliveries".toList ++ ['/'] := by decide
    rw [hobject, String.toList_append, String.toList_append, String.toList_append, hslash]
    simp only [List.append_assoc, List.singleton_append]

/-- Two exports of one location have one name. -/
theorem storeLocation_inj {bytes bytes' : List UInt8}
    (h : storeLocation settings version (hexDigest bytes) =
      storeLocation settings' version' (hexDigest bytes')) :
    deliveryName version (hexDigest bytes) = deliveryName version' (hexDigest bytes') := by
  have hlist := congrArg String.toList h
  rw [storeLocation_toList, storeLocation_toList] at hlist
  exact String.toList_inj.mp (cut_last_unique slash_deliveryName slash_deliveryName hlist)

/-- Two exports to one place have one name. -/
theorem storePlace_inj {bytes bytes' : List UInt8}
    (h : storePlace settings version (hexDigest bytes) =
      storePlace settings' version' (hexDigest bytes')) :
    deliveryName version (hexDigest bytes) = deliveryName version' (hexDigest bytes') := by
  unfold storePlace at h
  split_ifs at h with hb hb' hb'
  · have hpath := congrArg String.toList (Place.file.inj h)
    -- a directory may hold slashes, the name holds none
    have hfile (s : Settings) (name : String) :
        (s!"{s.deliveryDir}/{name}").toList = s.deliveryDir.toList ++ '/' :: name.toList := by
      have hcat : s!"{s.deliveryDir}/{name}" = s.deliveryDir ++ "/" ++ name := rfl
      have hslash : "/".toList = ['/'] := by decide
      rw [hcat, String.toList_append, String.toList_append, hslash, List.append_assoc,
        List.singleton_append]
    rw [hfile, hfile] at hpath
    exact String.toList_inj.mp (cut_last_unique slash_deliveryName slash_deliveryName hpath)
  · have hkey := congrArg String.toList (Place.object.inj h).2
    have hobject (name : String) :
        (s!"deliveries/{name}").toList = "deliveries/".toList ++ name.toList := by
      have hcat : s!"deliveries/{name}" = "deliveries/" ++ name := rfl
      rw [hcat, String.toList_append]
    rw [hobject, hobject] at hkey
    exact String.toList_inj.mp (List.append_cancel_left hkey)

/-- `_read` looks where `_store` wrote. -/
theorem readPlace_storeLocation (hs : settings.Deliverable) :
    readPlace (storeLocation settings version checksum) =
      some (storePlace settings version checksum) := by
  have hscheme : "s3://".toList.length = 5 := by decide
  by_cases hb : settings.deliveryS3Bucket = ""
  · have hfirst : (storeLocation settings version checksum).toList.take 5 ≠ "s3://".toList := by
      rw [storeLocation_toList, if_pos hb]
      obtain ⟨rest, hdir⟩ : ∃ rest, settings.deliveryDir.toList = '/' :: rest :=
        List.head?_eq_some_iff.mp hs.dir
      rw [hdir, List.cons_append, List.take_succ_cons]
      intro he
      exact absurd (List.cons.inj he).1 (by decide)
    rw [readPlace, if_neg hfirst, storePlace, if_pos hb, storeLocation_eq, if_pos hb]
  · have hlist := @storeLocation_toList settings version checksum
    rw [if_neg hb, List.append_assoc, List.append_assoc] at hlist
    have htake : (storeLocation settings version checksum).toList.take 5 = "s3://".toList := by
      rw [hlist, List.take_append_of_le_length (le_of_eq hscheme.symm),
        List.take_of_length_le (le_of_eq hscheme)]
    rw [readPlace, if_pos htake, hlist, List.drop_append_of_le_length (le_of_eq hscheme.symm),
      List.drop_of_length_le (le_of_eq hscheme), List.nil_append]
    -- the bucket is what stands before the first slash
    have hplain : ∀ c ∈ settings.deliveryS3Bucket.toList, (c != '/') = true := by
      intro c hc
      rw [bne_iff_ne]
      rintro rfl
      exact hs.bucket hc
    have hkey : "/deliveries".toList = '/' :: "deliveries".toList := by decide
    rw [hkey, List.cons_append, objectPlace, List.dropWhile_append_of_pos hplain,
      List.takeWhile_append_of_pos hplain]
    have hcat : s!"deliveries/{deliveryName version checksum}" =
        "deliveries/" ++ deliveryName version checksum := rfl
    have hstore : String.ofList ("deliveries".toList ++
        '/' :: (deliveryName version checksum).toList) =
        s!"deliveries/{deliveryName version checksum}" := by
      have hslash : "deliveries/".toList = "deliveries".toList ++ ['/'] := by decide
      rw [← String.toList_inj, String.toList_ofList, hcat, String.toList_append, hslash,
        List.append_assoc, List.singleton_append]
    rw [storePlace, if_neg hb, ← hstore]
    simp

end Names

end Panelist
