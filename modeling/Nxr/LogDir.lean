-- The log directory of a run: nodes whose names agree in what
-- a file name keeps share their files.
import Nxr.MatrixLaws

open btree

namespace nxr_cli.log_dir

inductive StreamKind where
  | Stdout
  | Stderr
  deriving DecidableEq

def StreamKind.as_suffix : StreamKind → String
  | Stdout => "stdout"
  | Stderr => "stderr"

/-- What the tee tells apart: chunks with their bytes, the start of a plan, and the rest. -/
inductive Event where
  | StdoutChunk (node : String) (payload : List UInt8)
  | StderrChunk (node : String) (payload : List UInt8)
  | PlanCreated
  | Other (kind : Nat)

/-- The directory, and its files by name. -/
structure Disk where
  made : Bool
  files : BTreeMap String (List UInt8)

/-- `inner` is what the sink behind the tee has been given. -/
structure LogDirTee where
  inner : List Event
  dir : Option String
  files : List ((String × StreamKind) × String)

def LogDirTee.new (dir : Option String) : LogDirTee := ⟨[], dir, []⟩

def sanitize_char (ch : Char) : Char :=
  if ch = '/' ∨ ch = '\\' ∨ ch = ':' then '_'
  else if ch.isAlphanum || ch == '-' || ch == '_' || ch == '.' then ch
  else '_'

def sanitize_node_name (node : String) : String := node.map sanitize_char

def file_name (node : String) (kind : StreamKind) : String :=
  sanitize_node_name node ++ "." ++ kind.as_suffix

/-- Open a file to append to it. -/
def Disk.open_append (disk : Disk) (name : String) : Disk :=
  ⟨true, if name ∈ disk.files then disk.files else disk.files.insert name []⟩

def Disk.append (disk : Disk) (name : String) (bytes : List UInt8) : Disk :=
  { disk with files := disk.files.insert name (disk.files[name]?.getD [] ++ bytes) }

/-- The open file of a stream, which is opened at its first chunk. -/
def file_for (self : LogDirTee) (disk : Disk) (node : String) (kind : StreamKind) :
    (LogDirTee × Disk) × String :=
  match self.files.lookup (node, kind) with
  | some name => ((self, disk), name)
  | none =>
    let name := file_name node kind
    (({ self with files := ((node, kind), name) :: self.files }, disk.open_append name), name)

def write_chunk (world : LogDirTee × Disk) (node : String) (kind : StreamKind)
    (payload : List UInt8) : LogDirTee × Disk :=
  if world.1.dir.isNone then world
  else
    let ((self, disk), name) := file_for world.1 world.2 node kind
    (self, disk.append name payload)

/-- Every write succeeds. -/
def emit (world : LogDirTee × Disk) (event : Event) : LogDirTee × Disk :=
  let (self, disk) := match event with
    | .StdoutChunk node payload => write_chunk world node .Stdout payload
    | .StderrChunk node payload => write_chunk world node .Stderr payload
    | .PlanCreated =>
      (world.1, if world.1.dir.isSome then { world.2 with made := true } else world.2)
    | .Other _ => world
  ({ self with inner := self.inner ++ [event] }, disk)

/-- A run with an empty directory. -/
def run (dir : String) (events : List Event) : LogDirTee × Disk :=
  events.foldl emit (.new (some dir), ⟨false, ∅⟩)

/-- The node, the stream and the bytes of a chunk. -/
def Event.chunk : Event → Option ((String × StreamKind) × List UInt8)
  | StdoutChunk node payload => some ((node, .Stdout), payload)
  | StderrChunk node payload => some ((node, .Stderr), payload)
  | _ => none

/-- The chunks whose stream satisfies a test. -/
def chunks (test : String × StreamKind → Bool) (events : List Event) : List (List UInt8) :=
  events.filterMap fun event => (event.chunk.filter (test ·.1)).map Prod.snd

/-- The chunks of one stream of one node. -/
def own (node : String) (kind : StreamKind) (events : List Event) : List (List UInt8) :=
  chunks (· = (node, kind)) events

/-- The chunks that go to a file. -/
def written (name : String) (events : List Event) : List (List UInt8) :=
  chunks (fun stream => file_name stream.1 stream.2 = name) events

/-- Open files have their names, and are in the directory. -/
def Opened (world : LogDirTee × Disk) : Prop :=
  ∀ node kind name, world.1.files.lookup (node, kind) = some name →
    name = file_name node kind ∧ name ∈ world.2.files

theorem getElem?_open_append (disk : Disk) (opened name : String) :
    (disk.open_append opened).files[name]? =
      if opened = name then some (disk.files[name]?.getD []) else disk.files[name]? := by
  unfold Disk.open_append
  dsimp only
  split
  · rename_i hmem
    split
    · rename_i hsame
      subst hsame
      obtain ⟨bytes, hbytes⟩ := mem_iff_get.mp hmem
      simp [hbytes]
    · rfl
  · rename_i hnew
    rw [getElem?_insert_if]
    split
    · rename_i hsame
      subst hsame
      simp [hnew]
    · rfl

theorem getElem?_append (disk : Disk) (target name : String) (bytes : List UInt8) :
    (disk.append target bytes).files[name]? =
      if target = name then some (disk.files[name]?.getD [] ++ bytes) else disk.files[name]? := by
  unfold Disk.append
  rw [getElem?_insert_if]
  split
  · rename_i hsame
    rw [hsame]
  · rfl

theorem file_for_spec {self : LogDirTee} {disk : Disk} (h : Opened (self, disk)) (node : String)
    (kind : StreamKind) :
    Opened (file_for self disk node kind).1 ∧
      (file_for self disk node kind).1.1.dir = self.dir ∧
      (file_for self disk node kind).1.1.inner = self.inner ∧
      (file_for self disk node kind).2 = file_name node kind ∧
      ∀ name, (file_for self disk node kind).1.2.files[name]? =
        if file_name node kind = name then some (disk.files[name]?.getD [])
        else disk.files[name]? := by
  unfold file_for
  split
  · rename_i name hlookup
    obtain ⟨hname, hmem⟩ := h node kind name hlookup
    refine ⟨h, rfl, rfl, hname, fun other => ?_⟩
    split
    · rename_i hsame
      rw [← hsame, ← hname]
      obtain ⟨bytes, hbytes⟩ := mem_iff_get.mp hmem
      dsimp only at hbytes ⊢
      rw [hbytes]
      rfl
    · rfl
  · refine ⟨fun other kind' name hlookup => ?_, rfl, rfl, rfl, getElem?_open_append disk _⟩
    dsimp only at hlookup ⊢
    rw [mem_iff_get, getElem?_open_append]
    rw [List.lookup_cons] at hlookup
    split at hlookup
    · rename_i hsame
      have hkey := Prod.mk.inj (beq_iff_eq.mp hsame)
      rw [hkey.1, hkey.2]
      cases hlookup
      exact ⟨rfl, _, if_pos rfl⟩
    · obtain ⟨hname, hmem⟩ := h other kind' name hlookup
      obtain ⟨bytes, hbytes⟩ := mem_iff_get.mp hmem
      dsimp only at hbytes
      refine ⟨hname, bytes, ?_⟩
      rw [hbytes]
      split <;> rfl

theorem write_chunk_spec {world : LogDirTee × Disk} (h : Opened world)
    (hdir : world.1.dir.isSome) (node : String) (kind : StreamKind) (payload : List UInt8) :
    Opened (write_chunk world node kind payload) ∧
      (write_chunk world node kind payload).1.dir = world.1.dir ∧
      (write_chunk world node kind payload).1.inner = world.1.inner ∧
      ∀ name, (write_chunk world node kind payload).2.files[name]? =
        if file_name node kind = name then some (world.2.files[name]?.getD [] ++ payload)
        else world.2.files[name]? := by
  obtain ⟨hopened, hsame, hinner, hname, hfiles⟩ := file_for_spec h node kind
  have hsome : ¬ world.1.dir.isNone := by
    cases hworld : world.1.dir <;> simp_all
  unfold write_chunk
  rw [if_neg hsome]
  dsimp only
  rw [hname]
  refine ⟨fun other kind' name hlookup => ?_, hsame, hinner, fun name => ?_⟩
  · obtain ⟨hother, hmem⟩ := hopened other kind' name hlookup
    obtain ⟨bytes, hbytes⟩ := mem_iff_get.mp hmem
    refine ⟨hother, mem_iff_get.mpr ?_⟩
    dsimp only
    rw [getElem?_append, hbytes]
    split
    · exact ⟨_, rfl⟩
    · exact ⟨bytes, rfl⟩
  · rw [getElem?_append, hfiles]
    split <;> rfl

/-- One event goes on to the sink, and its bytes to the end of its file. -/
theorem emit_spec {world : LogDirTee × Disk} (h : Opened world) (hdir : world.1.dir.isSome)
    (event : Event) :
    Opened (emit world event) ∧ (emit world event).1.dir.isSome ∧
      (emit world event).1.inner = world.1.inner ++ [event] ∧
      ∀ name, (emit world event).2.files[name]? = (written name [event]).foldl
        (fun old bytes => some (old.getD [] ++ bytes)) world.2.files[name]? := by
  have hchunk : ∀ node kind payload, event.chunk = some ((node, kind), payload) →
      ∀ name, (write_chunk world node kind payload).2.files[name]? = (written name [event]).foldl
        (fun old bytes => some (old.getD [] ++ bytes)) world.2.files[name]? := by
    intro node kind payload hevent name
    obtain ⟨-, -, -, hfiles⟩ := write_chunk_spec h hdir node kind payload
    rw [hfiles]
    unfold written chunks
    by_cases hname : file_name node kind = name <;> simp [hevent, hname, Option.filter]
  cases event with
  | StdoutChunk node payload =>
    obtain ⟨hopened, hsame, hinner, -⟩ := write_chunk_spec h hdir node .Stdout payload
    exact ⟨hopened, hsame ▸ hdir, congrArg (· ++ _) hinner, hchunk node .Stdout payload rfl⟩
  | StderrChunk node payload =>
    obtain ⟨hopened, hsame, hinner, -⟩ := write_chunk_spec h hdir node .Stderr payload
    exact ⟨hopened, hsame ▸ hdir, congrArg (· ++ _) hinner, hchunk node .Stderr payload rfl⟩
  | PlanCreated =>
    refine ⟨?_, hdir, rfl, fun name => ?_⟩ <;> simp only [emit, if_pos hdir]
    · exact h
    · rfl
  | Other tag => exact ⟨h, hdir, rfl, fun name => rfl⟩

/-- A run from any point: the sink has every event, and each file the chunks that go to it. -/
theorem run_spec {world : LogDirTee × Disk} (h : Opened world) (hdir : world.1.dir.isSome)
    (events : List Event) :
    (events.foldl emit world).1.inner = world.1.inner ++ events ∧
      ∀ name, (events.foldl emit world).2.files[name]? = (written name events).foldl
        (fun old bytes => some (old.getD [] ++ bytes)) world.2.files[name]? := by
  induction events generalizing world with
  | nil => exact ⟨(List.append_nil _).symm, fun name => rfl⟩
  | cons event events ih =>
    obtain ⟨hopened, hsome, hinner, hfiles⟩ := emit_spec h hdir event
    obtain ⟨hrest, hnames⟩ := ih hopened hsome
    rw [List.foldl_cons]
    refine ⟨?_, fun name => ?_⟩
    · rw [hrest, hinner, List.append_assoc]
      rfl
    · have hsplit : written name (event :: events) =
          written name [event] ++ written name events := by
        unfold written chunks
        rw [← List.filterMap_append]
        rfl
      rw [hnames, hfiles, hsplit, List.foldl_append]

theorem foldl_append_some (chunks : List (List UInt8)) (old : List UInt8) :
    chunks.foldl (fun old bytes => some (old.getD [] ++ bytes)) (some old) =
      some (old ++ chunks.flatten) := by
  induction chunks generalizing old with
  | nil => simp
  | cons bytes chunks ih =>
    rw [List.foldl_cons, Option.getD_some, ih, List.flatten_cons, List.append_assoc]

/-- A file that gets a chunk has all that goes to it, and nothing else. -/
theorem run_file {dir name : String} {events : List Event} (h : written name events ≠ []) :
    (run dir events).2.files[name]? = some (written name events).flatten := by
  have hstart : Opened (.new (some dir), ⟨false, ∅⟩) := by
    intro node kind name hlookup
    cases hlookup
  unfold run
  rw [(run_spec hstart rfl events).2]
  obtain ⟨first, others, hsplit⟩ := List.exists_cons_of_ne_nil h
  rw [hsplit, List.foldl_cons, foldl_append_some]
  simp

theorem run_inner (dir : String) (events : List Event) : (run dir events).1.inner = events := by
  have hstart : Opened (.new (some dir), ⟨false, ∅⟩) := by
    intro node kind name hlookup
    cases hlookup
  exact (run_spec hstart rfl events).1

theorem file_name_inj {a b : String} {kind kind' : StreamKind}
    (h : file_name a kind = file_name b kind') :
    sanitize_node_name a = sanitize_node_name b ∧ kind = kind' := by
  have hlist := congrArg String.toList h
  unfold file_name at hlist
  simp only [String.toList_append, List.append_assoc] at hlist
  have hlength : (".".toList ++ kind.as_suffix.toList).length =
      (".".toList ++ kind'.as_suffix.toList).length := by
    cases kind <;> cases kind' <;> simp [StreamKind.as_suffix]
  obtain ⟨hname, hsuffix⟩ := List.append_inj' hlist hlength
  refine ⟨String.toList_inj.mp hname, ?_⟩
  cases kind <;> cases kind' <;> first | rfl | exact absurd hsuffix (by decide)

theorem mem_chunks {test : String × StreamKind → Bool} {events : List Event} {bytes : List UInt8} :
    bytes ∈ chunks test events ↔
      ∃ event ∈ events, ∃ stream, event.chunk = some (stream, bytes) ∧ test stream = true := by
  unfold chunks
  simp only [List.mem_filterMap, Option.map_eq_some_iff, Option.filter_eq_some_iff, Prod.exists,
    exists_eq_right]

theorem chunks_cons (test : String × StreamKind → Bool) (event : Event) (events : List Event) :
    (chunks test (event :: events)).flatten =
      (match event.chunk with
        | some (stream, bytes) => if test stream then bytes else []
        | none => []) ++ (chunks test events).flatten := by
  unfold chunks
  rw [List.filterMap_cons]
  rcases event.chunk with _ | ⟨stream, bytes⟩
  · rfl
  · by_cases htest : test stream <;> simp [Option.filter, htest]

/-- Chunks that only the wider test takes count for nothing if they are empty. -/
theorem flatten_chunks {test wider : String × StreamKind → Bool}
    (himp : ∀ stream, test stream → wider stream) {events : List Event}
    (hempty : ∀ event ∈ events, ∀ stream bytes, event.chunk = some (stream, bytes) →
      wider stream → test stream ∨ bytes = []) :
    (chunks wider events).flatten = (chunks test events).flatten := by
  induction events with
  | nil => rfl
  | cons event events ih =>
    rw [chunks_cons, chunks_cons, ih fun other hother => hempty other (by simp [hother])]
    rcases hchunk : event.chunk with _ | ⟨stream, bytes⟩
    · rfl
    · have hthis := hempty event (by simp) stream bytes hchunk
      have hwider := himp stream
      by_cases htest : test stream
      · simp [htest, hwider htest]
      · by_cases hwide : wider stream
        · rcases hthis hwide with h | rfl
          · exact absurd h htest
          · simp
        · simp [htest, hwide]

/-- Two nodes with one file: it holds the bytes of both. -/
theorem shared_length {a b name : String} {kind : StreamKind} (hne : a ≠ b)
    (ha : file_name a kind = name) (hb : file_name b kind = name) (events : List Event) :
    (own a kind events).flatten.length + (own b kind events).flatten.length ≤
      (written name events).flatten.length := by
  induction events with
  | nil => rfl
  | cons event events ih =>
    unfold own written at ih ⊢
    rw [chunks_cons, chunks_cons, chunks_cons]
    rcases event.chunk with _ | ⟨⟨node, kind'⟩, bytes⟩
    · exact ih
    · simp only [decide_eq_true_eq, Prod.mk.injEq, List.length_append]
      by_cases hisa : node = a ∧ kind' = kind
      · obtain ⟨rfl, rfl⟩ := hisa
        have hnot : ¬ (node = b ∧ kind' = kind') := fun h => hne h.1
        rw [if_pos ⟨rfl, rfl⟩, if_neg hnot, if_pos ha]
        simp only [List.length_nil]
        omega
      · rw [if_neg hisa]
        by_cases hisb : node = b ∧ kind' = kind
        · obtain ⟨rfl, rfl⟩ := hisb
          rw [if_pos ⟨rfl, rfl⟩, if_pos hb]
          simp only [List.length_nil]
          omega
        · rw [if_neg hisb]
          simp only [List.length_nil]
          omega

/-- The sink gets the events in order, and the file of each stream is that stream alone. -/
def KeepsApart (dir : String) (events : List Event) : Prop :=
  (run dir events).1.inner = events ∧ ∀ node kind, own node kind events ≠ [] →
    (run dir events).2.files[file_name node kind]? = some (own node kind events).flatten

/-- Of two nodes with one file name that both write to a stream, neither writes a byte. -/
def NamesApart (events : List Event) : Prop :=
  ∀ a b kind bytes, own a kind events ≠ [] → bytes ∈ own b kind events → bytes ≠ [] →
    sanitize_node_name a = sanitize_node_name b → a = b

theorem own_sub_written {node name : String} {kind : StreamKind} {events : List Event}
    (hname : file_name node kind = name) {bytes : List UInt8} (h : bytes ∈ own node kind events) :
    bytes ∈ written name events := by
  obtain ⟨event, hevent, stream, hchunk, htest⟩ := mem_chunks.mp h
  have hstream := of_decide_eq_true htest
  exact mem_chunks.mpr ⟨event, hevent, stream, hchunk, decide_eq_true (by rw [hstream, hname])⟩

/-- The streams are kept apart exactly where no two nodes that write share a file name. -/
theorem streams_are_kept_apart_iff (dir : String) (events : List Event) :
    KeepsApart dir events ↔ NamesApart events := by
  have hfile : ∀ node kind, own node kind events ≠ [] →
      (run dir events).2.files[file_name node kind]? =
        some (written (file_name node kind) events).flatten := by
    intro node kind hown
    obtain ⟨bytes, hbytes⟩ := List.exists_mem_of_ne_nil _ hown
    exact run_file (List.ne_nil_of_mem (own_sub_written rfl hbytes))
  constructor
  · rintro ⟨-, hkept⟩ a b kind bytes ha hb hne hsame
    by_contra hapart
    have hname : file_name b kind = file_name a kind := by
      unfold file_name
      rw [hsame]
    have hall := (hfile a kind ha).symm.trans (hkept a kind ha)
    have hlength := shared_length hapart rfl hname events
    rw [Option.some.inj hall] at hlength
    have hnone := List.eq_nil_of_length_eq_zero (l := (own b kind events).flatten) (by omega)
    exact hne (List.flatten_eq_nil_iff.mp hnone bytes hb)
  · intro hnames
    refine ⟨run_inner dir events, fun node kind hown => ?_⟩
    rw [hfile node kind hown]
    congr 1
    refine flatten_chunks (fun stream htest => ?_) fun event hevent stream bytes hchunk htest => ?_
    · rw [of_decide_eq_true htest]
      exact decide_eq_true rfl
    · obtain ⟨other, kind'⟩ := stream
      obtain ⟨hsanitized, rfl⟩ := file_name_inj (of_decide_eq_true htest)
      rcases eq_or_ne bytes [] with hnil | hne
      · exact .inr hnil
      · have hother : bytes ∈ own other kind' events :=
          mem_chunks.mpr ⟨event, hevent, _, hchunk, decide_eq_true rfl⟩
        have hnode := hnames node other kind' bytes hown hother hne hsanitized.symm
        exact .inl (decide_eq_true (by rw [hnode]))

open nxr_task.matrix nxr_task.schema in
theorem linux_expands :
    (linux_doc 2 "foo_0" []).validate = .ok () ∧
      ∃ e, expand_matrix_tasks (linux_doc 2 "foo_0" []).tasks = .ok e ∧
        "foo@0" ∈ e.tasks ∧ "foo_0" ∈ e.tasks :=
  ⟨by rfl, _, by rfl, by decide, by decide⟩

open nxr_task.matrix nxr_task.schema in
/-- A matrix instance and a task of an accepted document share their files: `foo@0` and `foo_0`. -/
theorem an_instance_shares_a_file :
    ¬ ∀ (doc : TaskDocument) (e : MatrixExpansion), doc.validate = .ok () →
      expand_matrix_tasks doc.tasks = .ok e → ∀ (dir : String) (events : List Event),
        (∀ event ∈ events, ∀ node kind bytes, event.chunk = some ((node, kind), bytes) →
          node ∈ e.tasks) → KeepsApart dir events := by
  intro h
  obtain ⟨hvalid, e, hexpand, hinstance, htask⟩ := linux_expands
  obtain ⟨-, hkept⟩ := h _ e hvalid hexpand "logs"
    [.StdoutChunk "foo@0" [1], .StdoutChunk "foo_0" [2]] (by
      simp only [List.mem_cons, List.not_mem_nil, or_false, forall_eq_or_imp, forall_eq]
      refine ⟨fun node kind bytes hchunk => ?_, fun node kind bytes hchunk => ?_⟩ <;>
        cases hchunk
      · exact hinstance
      · exact htask)
  have hown : own "foo_0" .Stdout [.StdoutChunk "foo@0" [1], .StdoutChunk "foo_0" [2]] = [[2]] := by
    decide
  have hsame : sanitize_node_name "foo@0" = sanitize_node_name "foo_0" := by
    unfold sanitize_node_name
    rw [← String.toList_inj, String.toList_map, String.toList_map]
    decide
  have hname : file_name "foo@0" .Stdout = file_name "foo_0" .Stdout := by
    unfold file_name
    rw [hsame]
  have hfile := hkept "foo_0" .Stdout (by rw [hown]; decide)
  rw [run_file (List.ne_nil_of_mem (own_sub_written rfl (hown ▸ List.mem_singleton_self _)))]
    at hfile
  have hlength := shared_length (by decide) rfl hname
    [.StdoutChunk "foo@0" [1], .StdoutChunk "foo_0" [2]]
  rw [Option.some.inj hfile] at hlength
  revert hlength
  decide

end nxr_cli.log_dir
