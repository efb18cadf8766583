-- The journal over runs in which the process dies: numbered events,
-- readable logs, and writes that can be repeated.
import Mathlib.Data.List.Induction
import Nxr.ArtifactLaws
import Nxr.RunJournal

open btree nxr_core.cas nxr_task.artifact

namespace nxr_task.run_journal

/-! ## Events -/

structure Numbered (events : List EventRow) : Prop where
  keys : events.map EventRow.sequence = (List.range' 1 events.length).map Int.ofNat
  sequences : events.map (fun row => row.body.sequence.toNat) = List.range' 1 events.length
  bound : (events.length : Int) ≤ I64_MAX

theorem max_of_range (n : Nat) :
    (((List.range' 1 n).map Int.ofNat).max?.getD 0).toNat = n := by
  cases n with
  | zero => rfl
  | succ n =>
    have hmax : ((List.range' 1 (n + 1)).map Int.ofNat).max? = some (Int.ofNat (n + 1)) := by
      rw [List.max?_eq_some_iff]
      constructor
      · apply List.mem_map_of_mem
        rw [List.mem_range'_1]
        omega
      · intro k hk
        obtain ⟨m, hm, rfl⟩ := List.mem_map.mp hk
        rw [List.mem_range'_1] at hm
        simp
        omega
    rw [hmax]
    rfl

theorem Numbered.max {events : List EventRow} (h : Numbered events) :
    (max_sequence events).toNat = events.length := by
  unfold max_sequence
  rw [h.keys, max_of_range]

/-- What a reader sees of the events: they are numbered from one, in their order. -/
structure Sequenced (disk : Disk) : Prop where
  last : last_sequence disk = disk.events.length
  pages : ∀ limit : UInt64, (limit.toNat : Int) ≤ I64_MAX →
    (replay_after disk 0 limit).map (fun event => event.sequence.toNat) =
      List.range' 1 (min limit.toNat disk.events.length)

theorem Numbered.sequenced {disk : Disk} (h : Numbered disk.events) : Sequenced disk where
  last := h.max
  pages := by
    intro limit hlimit
    have hall : disk.events.filter
        (fun row => (as_i64 (0 : UInt64).toNat).getD 0 < row.sequence) = disk.events := by
      rw [List.filter_eq_self]
      intro row hrow
      have hkey : row.sequence ∈ disk.events.map EventRow.sequence := List.mem_map_of_mem hrow
      rw [h.keys] at hkey
      obtain ⟨n, hn, hsequence⟩ := List.mem_map.mp hkey
      rw [List.mem_range'_1] at hn
      rw [← hsequence, decide_eq_true_eq]
      change (0 : Int) < Int.ofNat n
      simp
      omega
    have hsorted : disk.events.mergeSort key_le = disk.events := by
      apply List.mergeSort_of_pairwise
      have hkeys : (disk.events.map EventRow.sequence).Pairwise (· ≤ ·) := by
        rw [h.keys, List.pairwise_map]
        apply List.Pairwise.imp _ List.pairwise_lt_range'
        intro a b hlt
        simp
        omega
      rw [List.pairwise_map] at hkeys
      refine hkeys.imp ?_
      intro a b hle
      exact decide_eq_true hle
    have hcount : ((as_i64 limit.toNat).getD 0).toNat = limit.toNat := by
      unfold as_i64
      rw [if_pos hlimit]
      rfl
    unfold replay_after
    simp only
    rw [hall, hsorted, hcount, List.map_map, List.map_take]
    change (disk.events.map fun row => row.body.sequence.toNat).take limit.toNat = _
    rw [h.sequences]
    rcases Nat.le_total limit.toNat disk.events.length with hle | hle
    · rw [Nat.min_eq_left hle, List.take_range'_of_length_ge hle]
    · rw [Nat.min_eq_right hle, List.take_range'_of_length_le hle]

/-! ## One write -/

section Logs

variable {hash : Bytes → Digest} {S : Set Bytes} {disk : Disk} {log_ref : String}
  {bytes : Bytes} {death : Option WriteDeath}

def filed (hash : Bytes → Digest) (disk : Disk) (bytes : Bytes) : Disk :=
  { disk with chunks := disk.chunks.insert (content_hash hash bytes) bytes }

def indexed (hash : Bytes → Digest) (disk : Disk) (log_ref : String) (bytes : Bytes) : Disk :=
  { filed hash disk bytes with
    log_chunks := disk.log_chunks.insert log_ref ⟨content_hash hash bytes, stored_len bytes⟩ }

/-- The file can be written: it is not there, or it is complete. -/
def Free (hash : Bytes → Digest) (disk : Disk) (bytes : Bytes) : Prop :=
  disk.chunks[content_hash hash bytes]? = none ∨
    disk.chunks[content_hash hash bytes]? = some bytes

theorem filed_existing (h : disk.chunks[content_hash hash bytes]? = some bytes) :
    filed hash disk bytes = disk := by
  have hsame : disk.chunks.insert (content_hash hash bytes) bytes = disk.chunks := by
    apply Std.ExtTreeMap.ext_getElem?
    intro name
    rw [getElem?_insert_if]
    split_ifs with hname
    · rw [← hname, h]
    · rfl
  unfold filed
  rw [hsame]

/-- How a write can end. -/
inductive WriteCase (hash : Bytes → Digest) (disk : Disk) (log_ref : String) (bytes : Bytes)
    (death : Option WriteDeath) : Disk × Outcome → Prop where
  | Unchanged (outcome : Outcome)
      (refused : outcome ≠ .Done (.ok ()))
      (cause : outcome = .Died ∧ death = some .Start ∨
        (∃ stored, disk.log_chunks[log_ref]? = some stored ∧
          stored.content_hash ≠ content_hash hash bytes) ∨
        (disk.log_chunks[log_ref]? = none ∧ ∃ existing,
          disk.chunks[content_hash hash bytes]? = some existing ∧ existing ≠ bytes)) :
      WriteCase hash disk log_ref bytes death (disk, outcome)
  | Known (stored : ChunkRow) (row : disk.log_chunks[log_ref]? = some stored)
      (same : stored.content_hash = content_hash hash bytes) :
      WriteCase hash disk log_ref bytes death (disk, .Done (.ok ()))
  | Half (written : Nat) (row : disk.log_chunks[log_ref]? = none)
      (chunk : disk.chunks[content_hash hash bytes]? = none)
      (died : death = some (.Writing written)) :
      WriteCase hash disk log_ref bytes death
        ({ disk with
          chunks := disk.chunks.insert (content_hash hash bytes) (bytes.take written) }, .Died)
  | Filed (free : Free hash disk bytes) (died : death = some .Synced) :
      WriteCase hash disk log_ref bytes death (filed hash disk bytes, .Died)
  | Indexed (row : disk.log_chunks[log_ref]? = none) (free : Free hash disk bytes)
      (outcome : Outcome) (ends : outcome = .Died ∧ death = some .Committed ∨
        outcome = .Done (.ok ())) :
      WriteCase hash disk log_ref bytes death (indexed hash disk log_ref bytes, outcome)

theorem index_log_case (death : Option WriteDeath)
    (row : disk.log_chunks[log_ref]? = none) (free : Free hash disk bytes) :
    WriteCase hash disk log_ref bytes death
      (index_log hash (filed hash disk bytes) log_ref bytes death) := by
  unfold index_log
  simp only
  split_ifs with hsynced hcommitted
  · exact .Filed free hsynced
  · exact .Indexed row free .Died (Or.inl ⟨rfl, hcommitted⟩)
  · exact .Indexed row free (.Done (.ok ())) (Or.inr rfl)

theorem write_case (hash : Bytes → Digest) (disk : Disk) (log_ref : String) (bytes : Bytes)
    (death : Option WriteDeath) :
    WriteCase hash disk log_ref bytes death (write_log hash disk log_ref bytes death) := by
  have hhex : is_hex_digest (content_hash hash bytes) = true := hex_text_is_hex _
  unfold write_log
  simp only [hhex, Bool.true_eq_false, if_false]
  split_ifs with hstart
  · exact .Unchanged .Died (by simp) (Or.inl ⟨rfl, hstart⟩)
  · cases hrow : disk.log_chunks[log_ref]? with
    | some stored =>
      simp only
      split_ifs with hdiffer
      · exact .Unchanged _ (by simp) (Or.inr (Or.inl ⟨stored, hrow, hdiffer⟩))
      · exact .Known stored hrow (not_not.mp hdiffer)
    | none =>
      cases hchunk : disk.chunks[content_hash hash bytes]? with
      | some existing =>
        simp only
        split_ifs with hdiffer
        · exact .Unchanged _ (by simp) (Or.inr (Or.inr ⟨hrow, existing, hchunk, hdiffer⟩))
        · rw [not_not] at hdiffer
          rw [hdiffer] at hchunk
          have hcase := index_log_case death hrow (Or.inr hchunk)
          rwa [filed_existing hchunk] at hcase
      | none =>
        have hcase := index_log_case death hrow (Or.inl hchunk)
        cases death with
        | none => exact hcase
        | some point =>
          cases point with
          | Start => exact absurd rfl hstart
          | Writing written => exact .Half written hrow hchunk rfl
          | Synced => exact hcase
          | Committed => exact hcase

/-! ## What stays on the disk -/

structure Durable (hash : Bytes → Digest) (S : Set Bytes) (state : State) : Prop where
  numbered : Numbered state.disk.events
  rows : ∀ (log_ref : String) (row : ChunkRow), state.disk.log_chunks[log_ref]? = some row →
    ∃ bytes ∈ S, row = ⟨content_hash hash bytes, stored_len bytes⟩ ∧
      state.disk.chunks[content_hash hash bytes]? = some bytes
  acknowledged : ∀ write ∈ state.acknowledged, write.2 ∈ S ∧
    ∃ row, state.disk.log_chunks[write.1]? = some row ∧
      row.content_hash = content_hash hash write.2
  interrupted : ∀ write ∈ state.interrupted, write.2 ∈ S

def Whole (hash : Bytes → Digest) (S : Set Bytes) (disk : Disk) : Prop :=
  ∀ (name : String) (bytes : Bytes), disk.chunks[name]? = some bytes →
    bytes ∈ S ∧ name = content_hash hash bytes

theorem content_hash_inj (hinj : Set.InjOn hash S) {other : Bytes} (h : bytes ∈ S)
    (h' : other ∈ S) (heq : content_hash hash bytes = content_hash hash other) :
    bytes = other := hinj h h' (hex_text_inj heq)

theorem Durable.reads_back {state : State} (h : Durable hash S state)
    (hinj : Set.InjOn hash S) {write : String × Bytes} (hwrite : write ∈ state.acknowledged) :
    read_log hash state.disk write.1 = .ok write.2 := by
  obtain ⟨hin, row, hrow, hhash⟩ := h.acknowledged write hwrite
  obtain ⟨bytes, hbytes, rfl, hchunk⟩ := h.rows write.1 row hrow
  obtain rfl := content_hash_inj hinj hbytes hin hhash
  unfold read_log
  rw [hrow]
  simp only
  rw [hchunk]
  simp

variable {content : Bytes}

variable {state : State} {op : Op}

theorem Durable.died {disk : Disk} (h : Durable hash S { state with disk := disk })
    (hbytes : bytes ∈ S) : Durable hash S (state.note log_ref bytes disk .Died) where
  numbered := h.numbered
  rows := h.rows
  acknowledged := h.acknowledged
  interrupted := List.forall_mem_cons.mpr ⟨hbytes, h.interrupted⟩

theorem Durable.done {disk : Disk} (h : Durable hash S { state with disk := disk })
    (hbytes : bytes ∈ S) {row : ChunkRow} (hrow : disk.log_chunks[log_ref]? = some row)
    (hhash : row.content_hash = content_hash hash bytes) :
    Durable hash S (state.note log_ref bytes disk (.Done (.ok ()))) where
  numbered := h.numbered
  rows := h.rows
  acknowledged := List.forall_mem_cons.mpr ⟨⟨hbytes, row, hrow, hhash⟩, h.acknowledged⟩
  interrupted := h.interrupted

/-- The operation is a write that dies when its file is made and not yet complete. -/
def Torn (hash : Bytes → Digest) (disk : Disk) (op : Op) : Prop :=
  ∃ log_ref bytes written, op = .WriteLog log_ref bytes (some (.Writing written)) ∧
    disk.log_chunks[log_ref]? = none ∧ disk.chunks[content_hash hash bytes]? = none ∧
    written < bytes.length

theorem Whole.filed {disk : Disk} (h : Whole hash S disk) (hbytes : bytes ∈ S) :
    Whole hash S (filed hash disk bytes) := by
  intro name content hcontent
  change (disk.chunks.insert (content_hash hash bytes) bytes)[name]? = some content at hcontent
  rw [getElem?_insert_if] at hcontent
  split_ifs at hcontent with hname
  · rw [← Option.some.inj hcontent]
    exact ⟨hbytes, hname.symm⟩
  · exact h name content hcontent

/-- A write that nothing interrupts succeeds, where its ref holds no other bytes. -/
theorem Whole.repeats (h : Whole hash S disk) (hinj : Set.InjOn hash S) (hbytes : bytes ∈ S)
    (hrow : ∀ stored, disk.log_chunks[log_ref]? = some stored →
      stored.content_hash = content_hash hash bytes) :
    (write_log hash disk log_ref bytes none).2 = .Done (.ok ()) := by
  have hcase := write_case hash disk log_ref bytes none
  generalize write_log hash disk log_ref bytes none = result at hcase ⊢
  cases hcase with
  | Unchanged outcome refused cause =>
    rcases cause with ⟨-, hnone⟩ | ⟨stored, hstored, hdiffer⟩ | ⟨-, existing, hchunk, hdiffer⟩
    · cases hnone
    · exact absurd (hrow stored hstored) hdiffer
    · obtain ⟨hexisting, hname⟩ := h _ _ hchunk
      exact absurd (content_hash_inj hinj hbytes hexisting hname).symm hdiffer
  | Known stored row same => rfl
  | Half written row chunk died => cases died
  | Filed free died => cases died
  | Indexed row free outcome ends =>
    rcases ends with ⟨-, hnone⟩ | hok
    · cases hnone
    · exact hok

theorem torn_refuses (hrow : disk.log_chunks[log_ref]? = none)
    (hchunk : disk.chunks[content_hash hash bytes]? = some content) (hdiffer : content ≠ bytes) :
    (write_log hash disk log_ref bytes none).2 ≠ .Done (.ok ()) := by
  have hcase := write_case hash disk log_ref bytes none
  generalize write_log hash disk log_ref bytes none = result at hcase ⊢
  cases hcase with
  | Unchanged outcome refused cause => exact refused
  | Known stored row same =>
    rw [hrow] at row
    cases row
  | Half written row chunk died => cases died
  | Filed free died => cases died
  | Indexed row free outcome ends =>
    rcases free with hnone | hsome
    · rw [hchunk] at hnone
      cases hnone
    · rw [hchunk] at hsome
      exact absurd (Option.some.inj hsome) hdiffer

/-! ## Runs -/

structure Survives (hash : Bytes → Digest) (state : State) : Prop where
  sequenced : Sequenced state.disk
  reads_back : ∀ write ∈ state.acknowledged, read_log hash state.disk write.1 = .ok write.2
  repeats : ∀ write ∈ state.interrupted,
    (∀ stored, state.disk.log_chunks[write.1]? = some stored →
      stored.content_hash = content_hash hash write.2) →
    (write_log hash state.disk write.1 write.2 none).2 = .Done (.ok ())

theorem Torn.broken (h : Torn hash state.disk op) : ¬ Survives hash (step hash state op) := by
  obtain ⟨log_ref, bytes, written, rfl, hrow, hchunk, hlt⟩ := h
  have hhex : is_hex_digest (content_hash hash bytes) = true := hex_text_is_hex _
  have hstep : step hash state (.WriteLog log_ref bytes (some (.Writing written))) =
      state.note log_ref bytes { state.disk with
        chunks := state.disk.chunks.insert (content_hash hash bytes) (bytes.take written) }
        .Died := by
    simp [step, write_log, hrow, hchunk, hhex]
  intro hsurvives
  rw [hstep] at hsurvives
  refine torn_refuses ?_ Std.ExtTreeMap.getElem?_insert_self ?_
    (hsurvives.repeats (log_ref, bytes) (List.mem_cons_self ..) ?_)
  · exact hrow
  · intro hfull
    change bytes.take written = bytes at hfull
    have hlength := congrArg List.length hfull
    rw [List.length_take] at hlength
    omega
  · intro stored hstored
    change state.disk.log_chunks[log_ref]? = some stored at hstored
    rw [hrow] at hstored
    cases hstored

end Logs

end nxr_task.run_journal
