-- The file of one cache key, with any number of stores and lookups at a time. All stores of a
-- key share one temporary file, which they open before they lock it.
import Nxr.Inodes
import Nxr.StoreExe
import Nxr.Tasks

open inodes
open nxr_core.cas (Bytes)

namespace nxr_core.cache_writers

inductive FileName where
  | Tmp
  | Entry
deriving DecidableEq

structure Cache (Request Entry Query Hit : Type) where
  entry_of : Request → Option Entry
  passed : Request → Hit
  lookup : Query → Option Entry → Option Hit

/-- The texts of entries: `serde_json::to_vec_pretty`, and `read_to_string` with `from_str`. -/
structure Codec (Entry : Type) where
  render : Entry → Bytes
  parse : Bytes → Option Entry

structure Shared where
  dir : Dir FileName
  locks : Nat → Option Nat

inductive Call (Request Query : Type) where
  | Store (request : Request)
  | Lookup (query : Query)

inductive Phase (Entry Query Hit : Type) where
  | Open (entry : Entry)
  | Lock (entry : Entry) (file : Nat)
  | Write (entry : Entry) (file : Nat)
  | Unlock (entry : Entry) (file : Nat)
  | Rename (entry : Entry)
  | Stored (result : Except std_io.ErrorKind Unit)
  | Look (query : Query)
  | Read (query : Query) (file : Nat)
  | Answered (query : Query) (hit : Option Hit)

section

variable {Request Entry Query Hit : Type} (cache : Cache Request Entry Query Hit)
  (codec : Codec Entry)

/-- One step of a store or a lookup. -/
def advance (id : Nat) (_ : Unit) (shared : Shared) :
    Phase Entry Query Hit → Option (Phase Entry Query Hit × Shared)
  | .Open entry =>
    let opened := shared.dir.create .Tmp
    some (.Lock entry opened.1, { shared with dir := opened.2 })
  | .Lock entry file =>
    if (shared.locks file).isNone then
      some (.Write entry file,
        { shared with locks := Function.update shared.locks file (some id) })
    else none
  | .Write entry file =>
    some (.Unlock entry file, { shared with dir := shared.dir.write file (codec.render entry) })
  | .Unlock entry file =>
    some (.Rename entry, { shared with locks := Function.update shared.locks file none })
  | .Rename _ =>
    match shared.dir.rename .Tmp .Entry with
    | some dir => some (.Stored (.ok ()), { shared with dir := dir })
    | none => some (.Stored (.error .NotFound), shared)
  | .Stored _ => none
  | .Look query =>
    match shared.dir.names .Entry with
    | some file => some (.Read query file, shared)
    | none => some (.Answered query (cache.lookup query none), shared)
  | .Read query file =>
    some (.Answered query (cache.lookup query (codec.parse (shared.dir.content file))), shared)
  | .Answered .. => none

/-- A store that has nothing to write returns at once. -/
def enter : Call Request Query → Phase Entry Query Hit
  | .Store request =>
    match cache.entry_of request with
    | some entry => .Open entry
    | none => .Stored (.ok ())
  | .Lookup query => .Look query

def system : tasks.System Shared (Phase Entry Query Hit) (Call Request Query) Unit Empty where
  enter := enter cache
  advance := advance cache codec
  outside := fun event => event.elim

abbrev World (Entry Query Hit : Type) := tasks.World Shared (Phase Entry Query Hit)

abbrev Event (Request Query : Type) := tasks.Event (Call Request Query) Unit Empty

def start : World Entry Query Hit := .start ⟨Dir.empty, fun _ => none⟩

/-- The entries that the stores of a run write. -/
def Passed (events : List (Event Request Query)) (entry : Entry) : Prop :=
  ∃ id request, .Begin id (.Store request) ∈ events ∧ cache.entry_of request = some entry

/-- A store that has opened the temporary file and has not renamed it. -/
def Phase.AtWork : Phase Entry Query Hit → Prop
  | .Lock .. | .Write .. | .Unlock .. | .Rename _ => True
  | _ => False

/-- A store that has not returned. -/
def Phase.Storing (phase : Phase Entry Query Hit) : Prop :=
  phase.AtWork ∨ ∃ entry, phase = .Open entry

def Alone (w : World Entry Query Hit) : Event Request Query → Prop
  | .Run id _ => ∀ entry, w.phases id = some (.Open entry) → w.shared.dir.names .Tmp = none
  | _ => True

end

end nxr_core.cache_writers

namespace nxr_core.plan_cache

open cache_writers

def one_file {E : Type} (key_digest : String) : Option E → btree.BTreeMap String E
  | some entry => (∅ : btree.BTreeMap String E).insert key_digest entry
  | none => ∅

end nxr_core.plan_cache

namespace nxr_core.store_exe_cache

open cache_writers plan_cache

end nxr_core.store_exe_cache
