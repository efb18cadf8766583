-- When publication and retention do not race: no object goes
-- that is published and not yet recorded.
import Nxr.CatalogKeyLaws
import Nxr.CatalogRuns

open btree nxr_core.cas serde_json programs

namespace nxr_task.artifact

variable {host : Host} {pid : Nat}

/-! ## What a run is watched for -/

structure Watch where
  published : Nat → Option String
  listed : Nat → Option (Set String)

/-- A listing that fails counts as none. -/
def Watch.note (watch : Watch) (pid : Nat) {β : Type} (op : Op β) (r : β) : Watch :=
  match op, r with
  | .PublishTree _ digest, .ok _ =>
    { published := Function.update watch.published pid (some digest)
      listed := fun i => (watch.listed i).map (insert digest) }
  | .AtomicReplace _ _, _ => { watch with published := Function.update watch.published pid none }
  | .UnlockRecord _, _ => { watch with published := Function.update watch.published pid none }
  | .RecordPaths, _ =>
    { watch with
      listed := Function.update watch.listed pid
        (some {digest | ∃ i, watch.published i = some digest}) }
  | .ReadRecord _, none => { watch with listed := Function.update watch.listed pid none }
  | _, _ => watch

structure World where
  files : Files
  watch : Watch

def watched (host : Host) (β : Type) (pid : Nat) (op : Op β) (w : World) :
    Option (β × World) :=
  (exec host β pid op w.files).map fun r => (r.1, ⟨r.2, w.watch.note pid op r.1⟩)

variable {β : Type}

theorem watched_some {op : Op β} {w w' : World} {r : β} : watched host β pid op w = some (r, w') ↔
      exec host β pid op w.files = some (r, w'.files) ∧ w'.watch = w.watch.note pid op r := by
  unfold watched
  rw [Option.map_eq_some_iff]
  constructor
  · rintro ⟨⟨r', files'⟩, hexec, heq⟩
    cases heq
    exact ⟨hexec, rfl⟩
  · rintro ⟨hexec, hwatch⟩
    refine ⟨_, hexec, ?_⟩
    rw [← hwatch]

/-! ## The contract -/

def Announced (β : Type) (pid : Nat) (op : Op β) (w : World) : Prop :=
  (∀ path body, written op = some (path, body) → ∃ record,
    ArtifactRecord.from_value body = .ok record ∧
      w.watch.published pid = some record.content_digest) ∧
  ∀ digest, deleted op = some digest →
    (∀ path, stored_content_digest w.files path ≠ some digest) ∧
      ∀ i, w.watch.published i ≠ some digest

structure Clean (host : Host) (w : World) : Prop where
  sound : ∀ path ∈ w.files.records, Sound host w.files path
  published : ∀ (i : Nat) (digest : String), w.watch.published i = some digest →
    object_verified host w.files digest = .ok ()
  seen : ∀ (i : Nat) (seen : Set String), w.watch.listed i = some seen →
    ∀ (j : Nat) (digest : String), w.watch.published j = some digest → digest ∈ seen

variable {digest : String}

theorem step_verified {op : Op β} {r : β} {files files' : Files}
    (hexec : exec host β pid op files = some (r, files'))
    (hverified : object_verified host files digest = .ok ()) (hkept : deleted op ≠ some digest) :
    object_verified host files' digest = .ok () := by
  rcases step_objects hexec with hsame | ⟨d, object, hold, hnew, hinserted⟩ | ⟨d, hd, herased⟩
  · exact (verified_congr (by rw [hsame])).trans hverified
  · have hne : d ≠ digest := fun heq => hold (heq ▸ hverified)
    exact (verified_congr (by rw [hinserted, getElem?_insert_if, if_neg hne])).trans hverified
  · have hne : d ≠ digest := fun heq => hkept (heq ▸ hd)
    exact (verified_congr (by rw [herased, getElem?_erase_if, if_neg hne])).trans hverified

theorem publish_tree_verified {source : Source} {files files' : Files}
    (h : publish_tree host source digest files = (.ok (), files')) :
    object_verified host files' digest = .ok () := by
  rcases publish_tree_cases h with ⟨rfl, hold⟩ | ⟨object, -, hnew, rfl⟩
  · exact hold rfl
  · simpa [object_verified] using hnew

/-! ## What a note says -/

section Notes

variable {β : Type} {op : Op β} {r : β} {w w' : World}

/-- What is published was so before, or was just stored, and every listing that goes on knows of
it. -/
theorem note_published (hexec : exec host β pid op w.files = some (r, w'.files)) {i : Nat}
    {digest : String} (h : (w.watch.note pid op r).published i = some digest) :
    w.watch.published i = some digest ∨
      (object_verified host w'.files digest = .ok () ∧
        ∀ j seen, (w.watch.note pid op r).listed j = some seen → digest ∈ seen) := by
  cases op with
  | PublishTree source d =>
    cases r with
    | error err => exact Or.inl h
    | ok stored =>
      by_cases hi : i = pid
      · subst hi
        simp only [Watch.note, Function.update_self, Option.some.injEq] at h
        subst h
        refine Or.inr ⟨publish_tree_verified (Option.some.inj hexec), fun j seen hseen => ?_⟩
        simp only [Watch.note, Option.map_eq_some_iff] at hseen
        obtain ⟨before, -, rfl⟩ := hseen
        exact Set.mem_insert _ _
      · simp only [Watch.note, Function.update_of_ne hi] at h
        exact Or.inl h
  | AtomicReplace path body =>
    by_cases hi : i = pid
    · simp [Watch.note, hi] at h
    · simp only [Watch.note, Function.update_of_ne hi] at h
      exact Or.inl h
  | UnlockRecord path =>
    by_cases hi : i = pid
    · simp [Watch.note, hi] at h
    · simp only [Watch.note, Function.update_of_ne hi] at h
      exact Or.inl h
  | ReadRecord path => cases r <;> exact Or.inl h
  | _ => exact Or.inl h

/-- A listing knows of no less after a step, unless the process begins a new one. -/
theorem note_listed {i : Nat} {seen : Set String}
    (h : (w.watch.note pid op r).listed i = some seen) :
    (∃ before, w.watch.listed i = some before ∧ before ⊆ seen) ∨
      (i = pid ∧ seen = {digest | ∃ j, w.watch.published j = some digest}) := by
  cases op with
  | PublishTree source d =>
    cases r with
    | error err => exact Or.inl ⟨seen, h, subset_rfl⟩
    | ok stored =>
      simp only [Watch.note, Option.map_eq_some_iff] at h
      obtain ⟨before, hbefore, rfl⟩ := h
      exact Or.inl ⟨before, hbefore, Set.subset_insert _ _⟩
  | RecordPaths =>
    by_cases hi : i = pid
    · subst hi
      simp only [Watch.note, Function.update_self, Option.some.injEq] at h
      exact Or.inr ⟨rfl, h.symm⟩
    · simp only [Watch.note, Function.update_of_ne hi] at h
      exact Or.inl ⟨seen, h, subset_rfl⟩
  | ReadRecord path =>
    cases r with
    | none =>
      by_cases hi : i = pid
      · simp [Watch.note, hi] at h
      · simp only [Watch.note, Function.update_of_ne hi] at h
        exact Or.inl ⟨seen, h, subset_rfl⟩
    | some file => exact Or.inl ⟨seen, h, subset_rfl⟩
  | _ => exact Or.inl ⟨seen, h, subset_rfl⟩

end Notes

theorem Clean.step {β : Type} {op : Op β} {r : β} {w w' : World} (h : Clean host w)
    (hannounced : Announced β pid op w) (hexec : watched host β pid op w = some (r, w')) :
    Clean host w' := by
  obtain ⟨hfiles, hwatch⟩ := watched_some.mp hexec
  constructor
  · -- the digest of a record that is left was recorded or published, so it is not deleted
    intro path hpath
    obtain ⟨file, hfile⟩ := mem_iff_get.mp hpath
    have hkept : ∀ digest, stored_content_digest w.files path = some digest →
        deleted op ≠ some digest :=
      fun digest hstored hdeleted => (hannounced.2 digest hdeleted).1 path hstored
    have hbefore : w'.files.records[path]? = w.files.records[path]? →
        Sound host w'.files path := by
      intro hsame
      obtain ⟨digest, hstored, hverified⟩ := h.sound path
        (mem_iff_get.mpr ⟨file, by rw [← hsame, hfile]⟩)
      refine ⟨digest, by rw [stored_congr hsame, hstored], ?_⟩
      exact step_verified hfiles hverified (hkept digest hstored)
    rcases step_records hfiles with hsame | ⟨other, herased⟩ | ⟨other, body, hwritten, hnew⟩
    · exact hbefore (by rw [hsame])
    · refine hbefore ?_
      rw [herased, getElem?_erase_if] at hfile ⊢
      split at hfile
      · exact absurd hfile (by simp)
      · rename_i hne
        rw [if_neg hne]
    · by_cases hother : other = path
      · subst hother
        obtain ⟨record, hrecord, hpublished⟩ := hannounced.1 other body hwritten
        refine ⟨record.content_digest, ?_, ?_⟩
        · simp [stored_content_digest, hnew, RecordFile.record, bind, Except.bind,
            Except.mapError, hrecord, Except.toOption]
        · refine step_verified hfiles (h.published pid _ hpublished) fun hdeleted => ?_
          exact (hannounced.2 _ hdeleted).2 pid hpublished
      · exact hbefore (by rw [hnew, getElem?_insert_if, if_neg hother])
  · intro i digest hpublished
    rw [hwatch] at hpublished
    rcases note_published hfiles hpublished with hbefore | ⟨hverified, -⟩
    · refine step_verified hfiles (h.published i digest hbefore) fun hdeleted => ?_
      exact (hannounced.2 digest hdeleted).2 i hbefore
    · exact hverified
  · intro i seen hseen j digest hpublished
    rw [hwatch] at hseen hpublished
    rcases note_published hfiles hpublished with hbefore | ⟨-, hknown⟩
    · rcases note_listed hseen with ⟨before, hlisted, hsub⟩ | ⟨-, rfl⟩
      · exact hsub (h.seen i before hlisted j digest hbefore)
      · exact ⟨j, hbefore⟩
    · exact hknown i seen hseen

def Known (pid : Nat) (rest : List RecordPath) (digests : List String) (w : World) : Prop :=
  ∀ seen, w.watch.listed pid = some seen → ∀ path digest,
    stored_content_digest w.files path = some digest → digest ∉ seen →
      path ∈ rest ∨ digest ∈ digests

theorem Known.step {β : Type} {op : Op β} {r : β} {w w' : World} {i : Nat}
    {rest : List RecordPath} {digests : List String} (h : Known i rest digests w)
    (hexec : watched host β pid op w = some (r, w'))
    (hwrites : ∀ path body record, written op = some (path, body) →
      ArtifactRecord.from_value body = .ok record → ∀ seen, w.watch.listed i = some seen →
        record.content_digest ∈ seen)
    (hlisted : ∀ seen, w'.watch.listed i = some seen →
      ∃ before, w.watch.listed i = some before ∧ before ⊆ seen) :
    Known i rest digests w' := by
  obtain ⟨hfiles, -⟩ := watched_some.mp hexec
  intro seen hseen path digest hstored hnew
  obtain ⟨before, hbefore, hsub⟩ := hlisted seen hseen
  rcases step_stored hfiles hstored with hold | ⟨body, record, hwritten, hrecord, hdigest⟩
  · exact h before hbefore path digest hold fun hmem => hnew (hsub hmem)
  · refine absurd ?_ hnew
    rw [← hdigest]
    exact hsub (hwrites path body record hwritten hrecord before hbefore)

def digests : Except String (List CatalogRecordFile) → List String
  | .ok records => records.map CatalogRecordFile.digest
  | .error _ => []

def build_record (digest : Digest) : ArtifactRecord :=
  { stargate_record "a" "b" with content_digest := hex_text digest }

end nxr_task.artifact
