-- The outputs that a watch session takes for its own: ids of
-- plan nodes looked up among the tasks.
import Nxr.Planner
import Nxr.WatchChange

namespace nxr_watch.coalesce

open nxr_affected.paths

def text_set (texts : List String) : List String := dedup (texts.mergeSort text_le)

def WatchSemanticCoalescer.set_owned_outputs (self : WatchSemanticCoalescer)
    (paths : List String) : WatchSemanticCoalescer :=
  { self with owned_outputs := text_set (paths.map normalize_relative_path) }

def WatchSemanticCoalescer.clear_owned_outputs (self : WatchSemanticCoalescer) :
    WatchSemanticCoalescer :=
  { self with owned_outputs := [] }

end nxr_watch.coalesce

namespace nxr_cli.watch

open nxr_task.schema nxr_watch.coalesce

def plan_outputs (document : TaskDocument) (serial_order : List String) : List String :=
  (serial_order.filterMap fun id => document.tasks[id]?).flatMap fun task =>
    task.outputs.map (·.path)

def seed_owned_outputs (coalescer : WatchSemanticCoalescer) (document : TaskDocument)
    (serial_order : List String) : WatchSemanticCoalescer :=
  coalescer.set_owned_outputs (plan_outputs document serial_order)

end nxr_cli.watch
