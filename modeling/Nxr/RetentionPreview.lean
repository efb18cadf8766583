-- The preview of a retention beside it: exactly when the
-- preview tells what is removed.
import Nxr.CatalogRuns
import Nxr.ProgramNotes

open btree nxr_core.cas programs

namespace nxr_task.artifact

variable {host : Host} {pid quota : Nat} {files s : Files}

variable {pinned : BTreeSet String} {records : List CatalogRecordFile} {remaining : Nat}

variable {record : CatalogRecordFile}

def removed (β : Type) : Op β → β → List RecordPath
  | .RemoveFile path, .ok () => [path]
  | _, _ => []

end nxr_task.artifact
