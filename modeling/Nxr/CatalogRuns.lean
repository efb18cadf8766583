-- Publications and retentions at once: what a record lock keeps,
-- and when every record keeps its object.
import Nxr.Retention
import Mathlib.Data.Set.Insert

open btree nxr_core.cas serde_json programs

namespace nxr_task.artifact

variable {host : Host} {pid : Nat} {files : Files}

def ArtifactRecord.Valid (record : ArtifactRecord) : Prop :=
  is_hex_digest record.content_digest = true ∧
    safe_segment record.name "artifact name" = .ok () ∧
      safe_segment record.output "artifact output" = .ok ()

variable {record : ArtifactRecord}

structure Publication where
  record : ArtifactRecord
  object : Source
  valid : record.Valid

inductive Role where
  | Publisher (publication : Publication)
  | Retainer (quota : Nat)
  | Idle

def Role.program (host : Host) : Role → Prog Op Unit
  | .Publisher publication => publish_record_tree host publication.record publication.object
  | .Retainer quota => retain_catalog quota
  | .Idle => .ret ()

def start (host : Host) (roles : Nat → Role) (files : Files) : Pool Op Files Nat :=
  ⟨files, fun pid => (roles pid).program host⟩

def Holds (pid : Nat) (path : RecordPath) (files : Files) : Prop :=
  files.record_locks[path]? = some pid

def written {β : Type} : Op β → Option (RecordPath × Value)
  | .AtomicReplace path body => some (path, body)
  | _ => none

def released {β : Type} : Op β → Option RecordPath
  | .UnlockRecord path => some path
  | _ => none

def deleted {β : Type} : Op β → Option String
  | .RemoveObject digest => some digest
  | _ => none

section OneStep

variable {β : Type} {op : Op β} {r : β} {files' : Files}

def Taken (path : RecordPath) (files files' : Files) : Prop :=
  files' = files ∨ ∃ quarantine, files' = { files with
    records := files.records.erase path
    quarantine := quarantine }

variable {path : RecordPath} {result : Except String Unit}

theorem quarantine_taken
    (h : move_to_quarantine path files = (result, files')) : Taken path files files' := by
  unfold move_to_quarantine at h
  split at h
  · cases h
    exact Or.inr ⟨_, rfl⟩
  · cases h
    exact Or.inl rfl

theorem remove_file_taken
    (h : remove_file path files = (result, files')) : Taken path files files' := by
  unfold remove_file at h
  split at h
  · cases h
    exact Or.inr ⟨_, rfl⟩
  · cases h
    exact Or.inl rfl

/-- The object was there, or a copy that verifies takes its place, or nothing happens. -/
theorem publish_tree_cases {source : Source} {digest : String}
    (h : publish_tree host source digest files = (result, files')) :
    (files' = files ∧ (result = .ok () → object_verified host files digest = .ok ())) ∨
      ∃ object, object_verified host files digest ≠ .ok () ∧
        verify_tree host.hash host.from_str object digest = .ok () ∧
        files' = { files with objects := files.objects.insert digest object } := by
  unfold publish_tree at h
  split at h
  · rename_i hold
    cases h
    exact Or.inl ⟨rfl, fun _ => is_ok_iff.mp hold⟩
  · rename_i hold
    dsimp only at h
    split at h
    · rename_i object hstaged
      cases h
      refine Or.inr ⟨object, fun hok => hold (is_ok_iff.mpr hok), ?_, rfl⟩
      cases hcopy : copy_dir source s!"objects/{digest}" with
      | error err =>
        rw [hcopy] at hstaged
        exact absurd hstaged (by simp [bind, Except.bind])
      | ok stage =>
        rw [hcopy] at hstaged
        cases hverify : verify_tree host.hash host.from_str stage digest with
        | error err =>
          simp [bind, Except.bind, hverify] at hstaged
        | ok verified =>
          simp only [bind, Except.bind, hverify, pure, Except.pure, Except.ok.injEq] at hstaged
          rw [← hstaged, hverify]
    · cases h
      exact Or.inl ⟨rfl, fun he => absurd he (by simp)⟩

theorem step_records (h : exec host β pid op files = some (r, files')) :
    files'.records = files.records ∨ (∃ path, files'.records = files.records.erase path) ∨
      ∃ path body, written op = some (path, body) ∧
        files'.records = files.records.insert path ⟨.ok body, files.clock⟩ := by
  cases op with
  | AtomicReplace path body =>
    cases h
    exact Or.inr (Or.inr ⟨path, body, rfl, rfl⟩)
  | Quarantine path =>
    rcases quarantine_taken (Option.some.inj h) with rfl | ⟨quarantine, rfl⟩
    · exact Or.inl rfl
    · exact Or.inr (Or.inl ⟨path, rfl⟩)
  | RemoveFile path =>
    rcases remove_file_taken (Option.some.inj h) with rfl | ⟨quarantine, rfl⟩
    · exact Or.inl rfl
    · exact Or.inr (Or.inl ⟨path, rfl⟩)
  | PublishTree source digest =>
    rcases publish_tree_cases (Option.some.inj h) with ⟨rfl, -⟩ | ⟨object, -, -, rfl⟩
    · exact Or.inl rfl
    · exact Or.inl rfl
  | LockRecord path =>
    simp only [exec, Option.ite_none_left_eq_some, Option.some.injEq, Prod.mk.injEq] at h
    obtain ⟨-, -, rfl⟩ := h
    exact Or.inl rfl
  | TryLockObject digest =>
    simp only [exec] at h
    split at h <;> cases h <;> exact Or.inl rfl
  | _ =>
    cases h
    exact Or.inl rfl

/-- An object is stored only if it verifies, in the place of one that does not. -/
theorem step_objects (h : exec host β pid op files = some (r, files')) :
    files'.objects = files.objects ∨
      (∃ digest object, object_verified host files digest ≠ .ok () ∧
        verify_tree host.hash host.from_str object digest = .ok () ∧
        files'.objects = files.objects.insert digest object) ∨
      ∃ digest, deleted op = some digest ∧ files'.objects = files.objects.erase digest := by
  cases op with
  | RemoveObject digest =>
    cases h
    exact Or.inr (Or.inr ⟨digest, rfl, rfl⟩)
  | PublishTree source digest =>
    rcases publish_tree_cases (Option.some.inj h) with ⟨rfl, -⟩ | ⟨object, hold, hnew, rfl⟩
    · exact Or.inl rfl
    · exact Or.inr (Or.inl ⟨digest, object, hold, hnew, rfl⟩)
  | Quarantine path =>
    rcases quarantine_taken (Option.some.inj h) with rfl | ⟨quarantine, rfl⟩ <;> exact Or.inl rfl
  | RemoveFile path =>
    rcases remove_file_taken (Option.some.inj h) with rfl | ⟨quarantine, rfl⟩ <;> exact Or.inl rfl
  | LockRecord path =>
    simp only [exec, Option.ite_none_left_eq_some, Option.some.injEq, Prod.mk.injEq] at h
    obtain ⟨-, -, rfl⟩ := h
    exact Or.inl rfl
  | TryLockObject digest =>
    simp only [exec] at h
    split at h <;> cases h <;> exact Or.inl rfl
  | _ =>
    cases h
    exact Or.inl rfl

theorem step_stored (h : exec host β pid op files = some (r, files'))
    {d : String} (hd : stored_content_digest files' path = some d) :
    stored_content_digest files path = some d ∨ ∃ body record,
      written op = some (path, body) ∧ ArtifactRecord.from_value body = .ok record ∧
        record.content_digest = d := by
  rcases step_records h with hsame | ⟨other, herased⟩ | ⟨other, body, hwritten, hinserted⟩
  · left
    rw [← hd]
    exact (stored_congr (by rw [hsame])).symm
  · left
    by_cases hother : other = path
    · rw [stored_none (by rw [herased, getElem?_erase_if, if_pos hother])] at hd
      exact absurd hd (by simp)
    · rw [← hd]
      exact (stored_congr (by rw [herased, getElem?_erase_if, if_neg hother])).symm
  · by_cases hother : other = path
    · subst hother
      right
      obtain ⟨file, record, hfile, hrecord, hdigest⟩ := stored_some hd
      rw [hinserted, getElem?_insert_if, if_pos rfl, Option.some.injEq] at hfile
      subst hfile
      exact ⟨body, record, hwritten, hrecord, hdigest⟩
    · left
      rw [← hd]
      exact (stored_congr (by rw [hinserted, getElem?_insert_if, if_neg hother])).symm

end OneStep

/-! ## The lock of a record -/

def Agrees (pid : Nat) (path : RecordPath) (digest : String) (files : Files) : Prop :=
  Holds pid path files ∧ ∀ d, stored_content_digest files path = some d → d = digest

end nxr_task.artifact
