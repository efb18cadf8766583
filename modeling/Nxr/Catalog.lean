-- The catalog of artifacts that the checkouts of a host share:
-- publication and retention, in atomic steps.
import Nxr.BTree
import Nxr.CatalogKey
import Nxr.Programs
import Mathlib.Data.List.Sort

open btree nxr_core.cas serde_json programs

namespace nxr_task.artifact

structure RecordPath where
  dir : String
  file : String
  deriving DecidableEq

instance : Ord RecordPath :=
  ⟨compareLex (compareOn RecordPath.dir) (compareOn RecordPath.file)⟩

instance : Std.TransOrd RecordPath :=
  inferInstanceAs (Std.TransCmp (compareLex (compareOn RecordPath.dir)
    (compareOn RecordPath.file)))

instance : Std.LawfulEqOrd RecordPath where
  eq_of_compare {a b} h := by
    obtain ⟨hdir, hfile⟩ := Ordering.then_eq_eq.mp h
    have hd : a.dir = b.dir := Std.LawfulEqCmp.eq_of_compare hdir
    have hf : a.file = b.file := Std.LawfulEqCmp.eq_of_compare hfile
    cases a
    cases b
    simp_all

structure RecordFile where
  body : Except String Value
  modified : Nat

def RecordFile.record (file : RecordFile) : Except String ArtifactRecord := do
  let value ← file.body.mapError fun err => s!"catalog record: {err}"
  ArtifactRecord.from_value value

def record_body (record : ArtifactRecord) : Value :=
  .Object [("attemptId", .Str record.attempt_id), ("consumerInput", .Str record.consumer_input),
    ("contentDigest", .Str record.content_digest), ("facet", .Str record.facet),
    ("host", .Str record.host), ("identity", record.identity), ("name", .Str record.name),
    ("output", .Str record.output), ("physicalHost", .Str record.physical_host),
    ("producerRun", .Str record.producer_run)]

structure Files where
  records : BTreeMap RecordPath RecordFile
  quarantine : BTreeMap RecordPath RecordFile
  objects : BTreeMap String Directory
  pins : BTreeSet String
  record_locks : BTreeMap RecordPath Nat
  object_locks : BTreeMap String Nat
  clock : Nat

/-- What is on a disk under a name, with the trees below it. -/
inductive Tree where
  | File (bytes : Bytes)
  | Link (target : Option Bytes)
  | Dir (children : List (String × Tree))

def Tree.entry : Tree → Entry
  | .File bytes => .File bytes
  | .Link target => .Link target
  | .Dir _ => .Dir

structure Source where
  path : String
  children : List (String × Tree)

def Source.directory (source : Source) (path : String) : Directory :=
  ⟨path, fun name => (source.children.lookup name).map Tree.entry⟩

mutual

def copy_tree (path : String) : Tree → Except String Unit
  | .File _ => .ok ()
  | .Link _ => .error s!"refusing symlink {path}"
  | .Dir children => copy_children path children

def copy_children (path : String) : List (String × Tree) → Except String Unit
  | [] => .ok ()
  | (name, tree) :: rest => do
    copy_tree s!"{path}/{name}" tree
    copy_children path rest

end

def copy_dir (source : Source) (destination : String) : Except String Directory := do
  copy_children source.path source.children
  return source.directory destination

/-- The steps that the programs take. Each is atomic. -/
inductive Op : Type → Type where
  | LockRecord (path : RecordPath) : Op Unit
  | UnlockRecord (path : RecordPath) : Op Unit
  | StoredContentDigest (path : RecordPath) : Op (Option String)
  | PublishTree (source : Source) (digest : String) : Op (Except String Unit)
  | AtomicReplace (path : RecordPath) (body : Value) : Op Unit
  | RecordPaths : Op (List RecordPath)
  | ReadRecord (path : RecordPath) : Op (Option RecordFile)
  | Quarantine (path : RecordPath) : Op (Except String Unit)
  | RemoveFile (path : RecordPath) : Op (Except String Unit)
  | PinnedDigests : Op (BTreeSet String)
  | VerifyTree (digest : String) : Op (Except String Unit)
  | ObjectNames : Op (List String)
  | TryLockObject (digest : String) : Op Bool
  | RemoveObject (digest : String) : Op Unit
  | UnlockObject (digest : String) : Op Unit

structure Host where
  hash : Bytes → Digest
  from_str : String → Except String Value
  float_text : UInt64 → String
  record_order : List RecordPath → List RecordPath
  record_order_perm : ∀ paths, (record_order paths).Perm paths
  object_order : List String → List String
  object_order_perm : ∀ names, (object_order names).Perm names

def no_such_file : String := "No such file or directory (os error 2)"

section Steps

variable (host : Host)

def stored_content_digest (files : Files) (path : RecordPath) : Option String :=
  (files.records[path]?.bind fun file => file.record.toOption).map
    ArtifactRecord.content_digest

def object_verified (files : Files) (digest : String) : Except String Unit :=
  match files.objects[digest]? with
  | some object => verify_tree host.hash host.from_str object digest
  | none => .error s!"objects/{digest} has no manifest"

def publish_tree (source : Source) (digest : String) (files : Files) :
    Except String Unit × Files :=
  if (object_verified host files digest).isOk then (.ok (), files)
  else
    let staged := do
      let stage ← copy_dir source s!"objects/{digest}"
      verify_tree host.hash host.from_str stage digest
      return stage
    match staged with
    | .ok object => (.ok (), { files with objects := files.objects.insert digest object })
    | .error err => (.error err, files)

def move_to_quarantine (path : RecordPath) (files : Files) : Except String Unit × Files :=
  match files.records[path]? with
  | some file =>
    (.ok (), { files with
      records := files.records.erase path
      quarantine := files.quarantine.insert path file })
  | none => (.error no_such_file, files)

def remove_file (path : RecordPath) (files : Files) : Except String Unit × Files :=
  if files.records.contains path then
    (.ok (), { files with records := files.records.erase path })
  else (.error no_such_file, files)

/-- One step of a process. A record lock that is held blocks it. -/
def exec (β : Type) (pid : Nat) (op : Op β) (files : Files) : Option (β × Files) :=
  match op with
  | .LockRecord path =>
    if files.record_locks.contains path then none
    else some ((), { files with record_locks := files.record_locks.insert path pid })
  | .UnlockRecord path =>
    some ((), { files with record_locks := files.record_locks.erase path })
  | .StoredContentDigest path => some (stored_content_digest files path, files)
  | .PublishTree source digest => some (publish_tree host source digest files)
  | .AtomicReplace path body =>
    some ((), { files with
      records := files.records.insert path ⟨.ok body, files.clock⟩
      clock := files.clock + 1 })
  | .RecordPaths => some (host.record_order files.records.keys, files)
  | .ReadRecord path => some (files.records[path]?, files)
  | .Quarantine path => some (move_to_quarantine path files)
  | .RemoveFile path => some (remove_file path files)
  | .PinnedDigests => some (files.pins, files)
  | .VerifyTree digest => some (object_verified host files digest, files)
  | .ObjectNames => some (host.object_order files.objects.keys, files)
  | .TryLockObject digest =>
    if files.object_locks.contains digest then some (false, files)
    else some (true, { files with object_locks := files.object_locks.insert digest pid })
  | .RemoveObject digest => some ((), { files with objects := files.objects.erase digest })
  | .UnlockObject digest =>
    some ((), { files with object_locks := files.object_locks.erase digest })

end Steps

def with_exclusive_lock (path : RecordPath) (body : Prog Op Unit) : Prog Op Unit := do
  Prog.perform (.LockRecord path)
  let result ← body.attempt
  Prog.perform (.UnlockRecord path)
  Prog.lift result

def publish_locked (path : RecordPath) (record : ArtifactRecord) (object : Source) :
    Prog Op Unit := do
  let stored ← Prog.perform (.StoredContentDigest path)
  match stored.filter (· != record.content_digest) with
  | some stored =>
    .fail (s!"catalog conflict for {record.name} at {path.dir}: " ++
      s!"stored {stored} does not match {record.content_digest}")
  | none => do
    let published ← Prog.perform (.PublishTree object record.content_digest)
    let () ← Prog.lift published
    Prog.perform (.AtomicReplace path (record_body record))

def record_path (key : String) (record : ArtifactRecord) : RecordPath :=
  ⟨key, s!"{record.name}.json"⟩

def publish_record_tree (host : Host) (record : ArtifactRecord) (object : Source) :
    Prog Op Unit := do
  let record ← Prog.lift (prepare_publication record)
  let key ← Prog.lift (catalog_key host.float_text host.hash record)
  let path := record_path key record
  with_exclusive_lock path (publish_locked path record object)

structure CatalogRecordFile where
  path : RecordPath
  digest : String
  modified : Nat

def CatalogRecordFile.older (left right : CatalogRecordFile) : Prop :=
  left.modified < right.modified ∨
    (left.modified = right.modified ∧ (compare left.path right.path).isLE)

instance : DecidableRel CatalogRecordFile.older :=
  fun _ _ => inferInstanceAs (Decidable (_ ∨ _))

/-- One turn of the loop of `record_files`. -/
def read_record (path : RecordPath) : Prog Op CatalogRecordFile := do
  let file ← Prog.perform (.ReadRecord path)
  match file with
  | none => .fail no_such_file
  | some file => do
    let record ← Prog.lift file.record
    return ⟨path, record.content_digest, file.modified⟩

def record_files : Prog Op (List CatalogRecordFile) := do
  let paths ← Prog.perform .RecordPaths
  Prog.collect read_record paths

def quarantine_corrupt (path : RecordPath) : Prog Op Unit := do
  let file ← Prog.perform (.ReadRecord path)
  if file.any fun file => file.record.isOk then return ()
  let moved ← Prog.perform (.Quarantine path)
  Prog.lift moved

def quarantine_corrupt_records : Prog Op Unit := do
  let paths ← Prog.perform .RecordPaths
  Prog.for_each quarantine_corrupt paths

def quarantine_if_unverified (record : CatalogRecordFile) : Prog Op Unit := do
  let verified ← Prog.perform (.VerifyTree record.digest)
  if verified.isOk then return ()
  let moved ← Prog.perform (.Quarantine record.path)
  Prog.lift moved

def quarantine_unverified : Prog Op Unit := do
  let records ← record_files
  Prog.for_each quarantine_if_unverified records

def digest_still_recorded (digest : String) : Prog Op Bool := do
  let records ← record_files.attempt
  return records.toOption.any fun records => records.any fun record => record.digest == digest

def delete_object_if_unlocked (digest : String) : Prog Op Bool := do
  let locked ← Prog.perform (.TryLockObject digest)
  if !locked then return false
  Prog.perform (.RemoveObject digest)
  Prog.perform (.UnlockObject digest)
  return true

def expire_record (record : CatalogRecordFile) : Prog Op Unit := do
  let removed ← Prog.perform (.RemoveFile record.path)
  let () ← Prog.lift removed
  let still ← digest_still_recorded record.digest
  if still then return ()
  let _ ← delete_object_if_unlocked record.digest
  return ()

/-- The loop of `retain_catalog`: records expire until no more than the quota remain. -/
def expire (quota : Nat) (pinned : BTreeSet String) :
    List CatalogRecordFile → Nat → Prog Op Unit
  | [], _ => .ret ()
  | record :: records, remaining =>
    if remaining ≤ quota then .ret ()
    else if pinned.contains record.digest then expire quota pinned records remaining
    else do
      expire_record record
      expire quota pinned records (remaining - 1)

def delete_orphan (recorded : List CatalogRecordFile) (name : String) : Prog Op Unit := do
  if recorded.any fun record => record.digest == name then return ()
  let _ ← delete_object_if_unlocked name
  return ()

def delete_orphan_objects : Prog Op Unit := do
  let recorded ← record_files
  let names ← Prog.perform .ObjectNames
  Prog.for_each (delete_orphan recorded) names

def quota_refused : String := "quota refuses to expire pinned catalog records"

def retain_catalog (quota : Nat) : Prog Op Unit := do
  quarantine_corrupt_records
  let pins ← Prog.perform .PinnedDigests
  if quota < pins.size then .fail quota_refused
  else do
    quarantine_unverified
    let records ← record_files
    let pinned ← Prog.perform .PinnedDigests
    expire quota pinned (records.insertionSort CatalogRecordFile.older) records.length
    delete_orphan_objects

end nxr_task.artifact
