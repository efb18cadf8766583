-- The registry of workers in one process: who is enrolled, and
-- who is held until when.
import Nxr.Text
import Nxr.BTree

open btree num

namespace nxr_core.worker_schedule

structure WorkerDescriptor where
  id : String
  tags : List String
  cpu : UInt32
  memory_mib : UInt64
  deriving DecidableEq

structure WorkerRequirements where
  tags : List String
  cpu : UInt32
  memory_mib : UInt64

structure WorkerReservation where
  expires_at : UInt64
  deriving DecidableEq

structure LocalWorkerRegistry where
  workers : List WorkerDescriptor
  reservations : BTreeMap String WorkerReservation

def LocalWorkerRegistry.default : LocalWorkerRegistry := ⟨[], ∅⟩

namespace LocalWorkerRegistry

def reservation_active (self : LocalWorkerRegistry) (worker_id : String) (now : UInt64) : Bool :=
  (self.reservations[worker_id]?).any fun reservation => reservation.expires_at > now

def worker_satisfies (worker : WorkerDescriptor) (requirements : WorkerRequirements) : Bool :=
  requirements.tags.all (fun tag => worker.tags.any fun t => t == tag) &&
    worker.cpu ≥ requirements.cpu && worker.memory_mib ≥ requirements.memory_mib

def prune_expired (self : LocalWorkerRegistry) (now : UInt64) : LocalWorkerRegistry :=
  { self with reservations := self.reservations.filter fun _ reservation =>
      reservation.expires_at > now }

def release_worker (self : LocalWorkerRegistry) (worker_id : String) : LocalWorkerRegistry :=
  { self with reservations := self.reservations.erase worker_id }

def enroll (worker : WorkerDescriptor) : List WorkerDescriptor → List WorkerDescriptor
  | [] => [worker]
  | entry :: workers =>
    if entry.id = worker.id then worker :: workers else entry :: enroll worker workers

def register_worker (self : LocalWorkerRegistry) (worker : WorkerDescriptor) :
    Except String Unit × LocalWorkerRegistry :=
  if std_str.trim worker.id = "" then (.error "worker id must not be empty", self)
  else (.ok (), { self with workers := enroll worker self.workers })

def reserve_worker (self : LocalWorkerRegistry) (worker_id : String) (now ttl_secs : UInt64) :
    Except String Unit × LocalWorkerRegistry :=
  let pruned := self.prune_expired now
  if !pruned.workers.any (fun worker => worker.id == worker_id) then
    (.error s!"unknown worker `{worker_id}`", pruned)
  else if pruned.reservation_active worker_id now then
    (.error s!"worker `{worker_id}` is already reserved", pruned)
  else (.ok (), { pruned with
    reservations := pruned.reservations.insert worker_id ⟨U64.saturating_add now ttl_secs⟩ })

def select_and_reserve (self : LocalWorkerRegistry) (requirements : WorkerRequirements)
    (now ttl_secs : UInt64) : Except String (Option WorkerDescriptor) × LocalWorkerRegistry :=
  let pruned := self.prune_expired now
  match pruned.workers.find? fun worker =>
      !pruned.reservation_active worker.id now && worker_satisfies worker requirements with
  | none => (.ok none, pruned)
  | some picked =>
    match pruned.reserve_worker picked.id now ttl_secs with
    | (.error e, held) => (.error e, held)
    | (.ok (), held) => (.ok (held.workers.find? fun worker => worker.id == picked.id), held)

end LocalWorkerRegistry

inductive Call where
  | register_worker (worker : WorkerDescriptor)
  | reserve_worker (worker_id : String) (now ttl_secs : UInt64)
  | select_and_reserve (requirements : WorkerRequirements) (now ttl_secs : UInt64)
  | release_worker (worker_id : String)

def Call.now : Call → Option UInt64
  | .reserve_worker _ now _ | .select_and_reserve _ now _ => some now
  | _ => none

structure Grant where
  worker : String
  now : UInt64
  ttl_secs : UInt64
  deriving DecidableEq

def Grant.until (grant : Grant) : UInt64 := U64.saturating_add grant.now grant.ttl_secs

open LocalWorkerRegistry

def step (self : LocalWorkerRegistry) : Call → LocalWorkerRegistry
  | .register_worker worker => (self.register_worker worker).2
  | .reserve_worker worker_id now ttl_secs => (self.reserve_worker worker_id now ttl_secs).2
  | .select_and_reserve requirements now ttl_secs =>
    (self.select_and_reserve requirements now ttl_secs).2
  | .release_worker worker_id => self.release_worker worker_id

def after (calls : List Call) : LocalWorkerRegistry := calls.foldl step .default

end nxr_core.worker_schedule
