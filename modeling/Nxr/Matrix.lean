-- Matrix tasks: each include entry makes an instance, and
-- dependencies become ones on all instances.
import Nxr.Schema
import Nxr.Text

open btree

namespace nxr_task

namespace parameters

/-- The names that match `[a-z][a-z0-9_]*`. -/
def is_canonical_ident (name : String) : Bool :=
  match name.toList with
  | [] => false
  | first :: chars => first.isLower && chars.all fun ch => ch.isLower || ch.isDigit || ch == '_'

end parameters

namespace matrix

open schema parameters

def MATRIX_ENV_PREFIX : String := "NXR_MATRIX_"

structure MatrixInstance where
  base_task : String
  attrs : BTreeMap String serde_json.Value

structure MatrixExpansion where
  tasks : BTreeMap String TaskDefinition
  instances : BTreeMap String MatrixInstance
  instance_ids : BTreeMap String (List String)

def matrix_node_id (base : String) (index : Nat) : String := s!"{base}@{index}"

def validate_task_matrix (task : String) (matrix : TaskMatrix) : Except SchemaError Unit :=
  if matrix.include_ = [] then
    .error (.InvalidMatrix task "matrix.include must contain at least one entry")
  else .ok ()

def matrix_value_to_string_is_some : serde_json.Value → Bool
  | .Str _ => true
  | .Bool _ => true
  | .Number _ => true
  | _ => false

def validate_matrix_key (task : String) (index : Nat) (seen_normalized : BTreeMap String String)
    (key : String) : Except SchemaError (BTreeMap String String) :=
  if std_str.trim key = "" then
    .error (.InvalidMatrix task s!"matrix.include[{index}] key must not be empty")
  else
    let normalized := std_str.to_ascii_uppercase key
    match seen_normalized[normalized]? with
    | some existing => .error (.InvalidMatrix task
        (s!"matrix.include[{index}].{key}: key collides with `{existing}` " ++
          s!"after normalization to {MATRIX_ENV_PREFIX}{normalized}"))
    | none => .ok (seen_normalized.insert normalized key)

def validate_matrix_entry (task : String) (index : Nat) (key : String)
    (value : serde_json.Value) : Except SchemaError Unit :=
  if !is_canonical_ident key then
    .error (.InvalidMatrix task
      s!"matrix.include[{index}].{key}: key must match [a-z][a-z0-9_]*")
  else if !matrix_value_to_string_is_some value then
    .error (.InvalidMatrix task
      s!"matrix.include[{index}].{key}: value must be a string, number, or boolean")
  else .ok ()

def validate_matrix_attrs (task : String) (index : Nat)
    (attrs : BTreeMap String serde_json.Value) : Except SchemaError Unit := do
  if attrs.isEmpty then
    throw (.InvalidMatrix task s!"matrix.include[{index}] must not be empty")
  let _ ← attrs.keys.foldlM (validate_matrix_key task index) ∅
  attrs.toList.forM fun entry => validate_matrix_entry task index entry.1 entry.2

/-- The ids of the instances of a task must not be names of other tasks. -/
def validate_matrix_instance_collisions (tasks : BTreeMap String TaskDefinition) :
    Except SchemaError Unit :=
  tasks.toList.forM fun (name, definition) =>
    match definition.matrix with
    | none => .ok ()
    | some matrix => (List.range matrix.include_.length).forM fun index =>
      let instance_id := matrix_node_id name index
      if tasks.contains instance_id && instance_id != name then
        .error (.InvalidMatrix name
          (s!"expanded instance id `{instance_id}` collides with " ++
            s!"declared task name `{instance_id}`"))
      else .ok ()

def expand_depends_on (deps : List String) (instance_ids : BTreeMap String (List String)) :
    List String :=
  deps.flatMap fun dep =>
    match instance_ids[dep]? with
    | some ids => ids
    | none => [dep]

def collect_instance_ids (instance_ids : BTreeMap String (List String))
    (entry : String × TaskDefinition) : Except SchemaError (BTreeMap String (List String)) :=
  match entry.2.matrix with
  | none => .ok instance_ids
  | some matrix => do
    validate_task_matrix entry.1 matrix
    matrix.include_.zipIdx.forM fun (attrs, index) => validate_matrix_attrs entry.1 index attrs
    return instance_ids.insert entry.1
      ((List.range matrix.include_.length).map (matrix_node_id entry.1))

def MatrixExpansion.insert_instance (name : String) (definition : TaskDefinition)
    (self : MatrixExpansion) (entry : BTreeMap String serde_json.Value × Nat) : MatrixExpansion :=
  let id := matrix_node_id name entry.2
  let instance_def := { definition with
    matrix := none
    depends_on := expand_depends_on definition.depends_on self.instance_ids }
  { self with
    tasks := self.tasks.insert id instance_def
    instances := self.instances.insert id { base_task := name, attrs := entry.1 } }

def MatrixExpansion.insert_task (self : MatrixExpansion) (entry : String × TaskDefinition) :
    MatrixExpansion :=
  match entry.2.matrix with
  | some matrix => matrix.include_.zipIdx.foldl (insert_instance entry.1 entry.2) self
  | none =>
    let definition := { entry.2 with
      depends_on := expand_depends_on entry.2.depends_on self.instance_ids }
    { self with tasks := self.tasks.insert entry.1 definition }

def expand_matrix_tasks (tasks : BTreeMap String TaskDefinition) :
    Except SchemaError MatrixExpansion := do
  let instance_ids ← tasks.toList.foldlM collect_instance_ids ∅
  return tasks.toList.foldl MatrixExpansion.insert_task
    { tasks := ∅, instances := ∅, instance_ids := instance_ids }

def expand_matrix_roots (roots : List String) (expansion : MatrixExpansion) : List String :=
  roots.flatMap fun root =>
    match expansion.instance_ids[root]? with
    | some ids => ids
    | none => [root]

end matrix

end nxr_task
