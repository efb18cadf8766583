-- Memory amounts, and what a node takes: CPU tokens, bytes of
-- memory and named locks.
import Nxr.Schema
import Nxr.Text

namespace nxr_task

namespace memory

structure MemoryParseError where
  message : String
  deriving DecidableEq

def split_digits_unit (raw : String) : Except MemoryParseError (String × String) :=
  if (std_str.span_digits raw).1 = "" then
    .error { message := s!"invalid memory quantity `{raw}`" }
  else .ok (std_str.span_digits raw)

def unit_multiplier (unit : String) : Option UInt64 :=
  if unit = "" ∨ unit = "B" then some 1
  else if unit = "K" ∨ unit = "KB" ∨ unit = "KiB" then some 1024
  else if unit = "M" ∨ unit = "MB" ∨ unit = "MiB" then some (1024 * 1024)
  else if unit = "G" ∨ unit = "GB" ∨ unit = "GiB" then some (1024 * 1024 * 1024)
  else if unit = "T" ∨ unit = "TB" ∨ unit = "TiB" then some (1024 * 1024 * 1024 * 1024)
  else none

/-- Read an amount such as `512MiB` or `4GiB`. A bare number counts bytes. -/
def parse_memory (raw : String) : Except MemoryParseError UInt64 := do
  let trimmed := std_str.trim raw
  if trimmed = "" then
    throw { message := "memory must not be empty" }
  let (digits, unit) ← split_digits_unit trimmed
  match std_str.parse_u64 digits with
  | none => throw { message := s!"invalid memory quantity `{raw}`" }
  | some value =>
    if value = 0 then
      throw { message := "memory must be greater than zero" }
    match unit_multiplier unit with
    | none => throw { message := s!"unknown memory unit `{unit}` in `{raw}`" }
    | some multiplier =>
      match num.U64.checked_mul value multiplier with
      | none => throw { message := s!"memory quantity overflow for `{raw}`" }
      | some bytes => return bytes

end memory

namespace resources

open memory schema

structure NodeResources where
  cpu : UInt32
  memory_bytes : UInt64
  exclusive : List String
  deriving DecidableEq

def NodeResources.EMPTY : NodeResources where
  cpu := 0
  memory_bytes := 0
  exclusive := []

def NodeResources.cpu_tokens (self : NodeResources) : UInt32 :=
  if self.cpu = 0 then 1 else self.cpu

def NodeResources.from_task_resources (resources : TaskResources) : NodeResources where
  cpu := resources.cpu.getD 0
  memory_bytes := (resources.memory.bind fun raw => (parse_memory raw).toOption).getD 0
  exclusive := resources.exclusive

structure ResourceLimits where
  cpu_pool : UInt32
  memory_pool : UInt64
  deriving DecidableEq

def memory_pool_from_env (env : Option String) : UInt64 :=
  (env.bind fun raw => (parse_memory raw).toOption).getD 0

def ResourceLimits.from_jobs (env : Option String) (jobs : Nat) : ResourceLimits where
  cpu_pool := if jobs ≤ num.U32.MAX then max (UInt32.ofNat jobs) 1 else UInt32.ofNat num.U32.MAX
  memory_pool := memory_pool_from_env env

end resources

end nxr_task
