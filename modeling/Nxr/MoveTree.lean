-- A staged tree laid over another: `move_tree` merges
-- directories and replaces files.
import Nxr.MaterializeContained

open disk_os
open file_tree (Name Path)

namespace nxr_task.dirty

section Each

variable {disk : Disk} {source target : Path} {names : List Name}
variable {work : Disk → Name → Outcome}

end Each

/-- A staged tree that can be laid over the target: no link is in its way, and directories were
staged as such. -/
structure Mergeable (source target : Path) (disk : Disk) : Prop where
  there : (disk.look source).isSome
  apart : ¬ file_tree.Comparable source target
  names : ∀ rest, (disk.look (source ++ rest)).isSome → Names (source ++ rest)
  target_names : Names target
  links : ∀ rest, (disk.look (source ++ rest)).isSome → ∀ link,
    disk.look (target ++ rest) ≠ some (.Link link)
  dirs : ∀ rest, (disk.look (source ++ rest)).isSome → disk.look (target ++ rest) = some .Dir →
    disk.look (source ++ rest) = some .Dir

section Merge

variable {disk : Disk} {source target : Path}

theorem Mergeable.below {mid : Disk} {name : Name} (h : Mergeable source target disk)
    (hthere : (disk.look (source ++ [name])).isSome)
    (hsource : ∀ rest, mid.look (source ++ [name] ++ rest) = disk.look (source ++ [name] ++ rest))
    (htarget : ∀ rest, mid.look (target ++ [name] ++ rest) = disk.look (target ++ [name] ++ rest)) :
    Mergeable (source ++ [name]) (target ++ [name]) mid := by
  have hassoc : ∀ base rest : Path, base ++ [name] ++ rest = base ++ ([name] ++ rest) :=
    fun base rest => List.append_assoc _ _ _
  refine ⟨?_, ?_, fun rest hsome => ?_, ?_, fun rest hsome => ?_, fun rest hsome hdir => ?_⟩
  · have hsame := hsource []
    rw [List.append_nil] at hsame
    rw [hsame]
    exact hthere
  · intro hcomparable
    have hsource' : source <+: source ++ [name] := List.prefix_append _ _
    have htarget' : target <+: target ++ [name] := List.prefix_append _ _
    rcases hcomparable with hpre | hpre
    · exact h.apart (List.prefix_or_prefix_of_prefix (hsource'.trans hpre) htarget')
    · exact h.apart (List.prefix_or_prefix_of_prefix hsource' (htarget'.trans hpre))
  · rw [hsource, hassoc] at hsome
    rw [hassoc]
    exact h.names _ hsome
  · have hnames := h.names [name] hthere
    exact h.target_names.append fun other hother => hnames other (List.mem_append_right _ hother)
  · rw [hsource, hassoc] at hsome
    rw [htarget, hassoc]
    exact h.links _ hsome
  · rw [hsource, hassoc] at hsome ⊢
    rw [htarget, hassoc] at hdir
    exact h.dirs _ hsome hdir

end Merge

end nxr_task.dirty
