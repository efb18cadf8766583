-- The calls of a POSIX file system on a tree of files with links,
-- and what each does where no link is met.
import Nxr.FileTree

open file_tree

namespace disk_os

/-! ## Files and names -/

abbrev Disk := file_tree.Node

def inode (executable : Bool) (bytes : List UInt8) : List UInt8 :=
  (if executable then 1 else 0) :: bytes

def is_executable (content : List UInt8) : Bool := content.head? == some 1

def bytes_of (content : List UInt8) : List UInt8 := content.tail

/-- Nothing between two slashes, or a dot. -/
def is_blank (name : Name) : Bool := name.isEmpty || name == [0x2E]

def is_parent (name : Name) : Bool := name == [0x2E, 0x2E]

def is_name (name : Name) : Bool := !is_blank name && !is_parent name && !name.contains 0

def parts (text : List UInt8) : List Name := text.splitOn 0x2F

def named (path : Path) : Path := path.filter fun name => !is_blank name

def as_path (text : List UInt8) : Path :=
  let blanks := ((parts text).reverse.takeWhile is_blank)
  named (parts text) ++
    if blanks.isEmpty then [] else if blanks.contains [0x2E] then [[0x2E]] else [[]]

def parent (path : Path) : Path := (named path).dropLast

/-! ## Resolving a path -/

def is_dir_at (disk : Disk) (path : Path) : Bool := disk.look path == some .Dir

def link_base (cursor : Path) (target : List UInt8) : Path :=
  if target.head? = some 0x2F then [] else cursor

section Walk

variable (disk : Disk) (follow : Path → List Name → Option Path)

/-- The names of a path one by one, from `cursor`. -/
def steps : Path → List Name → Option Path
  | cursor, [] => some cursor
  | cursor, name :: rest =>
    if is_blank name then if is_dir_at disk cursor then steps cursor rest else none
    else if is_parent name then if is_dir_at disk cursor then steps cursor.dropLast rest else none
    else match disk.look (cursor ++ [name]) with
      | none => none
      | some (.Link target) => follow (link_base cursor target) (parts target ++ rest)
      | some _ => steps (cursor ++ [name]) rest

/-- As `steps`, for a file that may have to be made. -/
def create_steps : Path → List Name → Option Path
  | _, [] => none
  | cursor, [name] =>
    if is_name name && is_dir_at disk cursor then
      match disk.look (cursor ++ [name]) with
      | some (.Link target) => follow (link_base cursor target) (parts target)
      | _ => some (cursor ++ [name])
    else none
  | cursor, name :: rest =>
    if is_blank name then if is_dir_at disk cursor then create_steps cursor rest else none
    else if is_parent name then
      if is_dir_at disk cursor then create_steps cursor.dropLast rest else none
    else match disk.look (cursor ++ [name]) with
      | none => none
      | some (.Link target) => follow (link_base cursor target) (parts target ++ rest)
      | some _ => create_steps (cursor ++ [name]) rest

def walk : Nat → Path → List Name → Option Path
  | 0 => steps disk fun _ _ => none
  | links + 1 => steps disk (walk links)

def create_walk : Nat → Path → List Name → Option Path
  | 0 => create_steps disk fun _ _ => none
  | links + 1 => create_steps disk (create_walk links)

end Walk

def MAX_LINKS : Nat := 40

def has_nul (path : Path) : Bool := path.any fun name => name.contains 0

def resolve (disk : Disk) (path : Path) : Option Path :=
  if has_nul path then none else walk disk MAX_LINKS [] path

def open_create (disk : Disk) (path : Path) : Option Path :=
  if has_nul path then none else create_walk disk MAX_LINKS [] path

def locate (disk : Disk) (path : Path) : Option Path :=
  match path.getLast? with
  | none => some []
  | some name =>
    if is_name name then
      ((resolve disk path.dropLast).filter (is_dir_at disk)).map fun place => place ++ [name]
    else none

/-! ## Calls that read -/

section Calls

variable (disk : Disk)

def stat (path : Path) : Option Entry := (resolve disk path).bind disk.look

def lstat (path : Path) : Option Entry := (locate disk path).bind disk.look

def is_dir (path : Path) : Bool := stat disk path == some .Dir

/-- The names in a directory, each once. -/
def read_dir (path : Path) : Option (List Name) :=
  match (resolve disk path).bind disk.get with
  | some (.Dir entries) => some (entries.map Prod.fst).dedup
  | _ => none

/-! ## Calls that write -/

def make (node : file_tree.Node) (path : Path) : Option Disk :=
  match locate disk path with
  | some place => if (disk.look place).isSome then none else some (Node.put node disk place)
  | none => none

def mkdir (path : Path) : Option Disk := make disk (.Dir []) path

/-- `creat` and `write`: a file that is there keeps its mode. -/
def write (bytes : List UInt8) (path : Path) : Option Disk :=
  match open_create disk path with
  | none => none
  | some place =>
    match disk.look place with
    | some .Dir => none
    | some (.File content) =>
      some (Node.put (.File (inode (is_executable content) bytes)) disk place)
    | _ => some (Node.put (.File (inode false bytes)) disk place)

/-- `unlink`. -/
def remove_file (path : Path) : Option Disk :=
  match locate disk path with
  | none => none
  | some place =>
    match disk.look place with
    | some .Dir => none
    | some _ => some (disk.erase place)
    | none => none

def remove_dir_all (path : Path) : Option Disk :=
  match locate disk path with
  | none => none
  | some place =>
    match disk.look place with
    | some .Dir => some (disk.erase place)
    | some (.Link _) => some (disk.erase place)
    | _ => none

/-- A directory goes only over nothing or an empty one, a file over no directory, and nothing goes
below itself. -/
def may_replace (node : file_tree.Node) (old : Option file_tree.Node) : Bool :=
  match node, old with
  | _, none => true
  | .Dir _, some (.Dir entries) => entries.isEmpty
  | .Dir _, some _ => false
  | _, some (.Dir _) => false
  | _, some _ => true

def rename (source target : Path) : Option Disk :=
  match locate disk source, locate disk target with
  | some old, some new =>
    match disk.get old with
    | none => none
    | some node =>
      if old = new then some disk
      else if old.isPrefixOf new || !may_replace node (disk.get new) then none
      else some (Node.put node (disk.erase old) new)
  | _, _ => none

end Calls

/-- `create_dir_all`, below a directory. What was made stays when a name fails. -/
def create_dirs : Disk → Path → List Name → Disk × Bool
  | disk, _, [] => (disk, true)
  | disk, done, name :: rest =>
    match stat disk (done ++ [name]) with
    | some .Dir => create_dirs disk (done ++ [name]) rest
    | some _ => (disk, false)
    | none =>
      match mkdir disk (done ++ [name]) with
      | some disk => create_dirs disk (done ++ [name]) rest
      | none => (disk, false)

/-- A path that ends in a dot is made only up to the dot's directory, which must be there. -/
def create_dir_all (disk : Disk) (path : Path) : Disk × Bool :=
  if has_nul path then (disk, false)
  else if path.getLast? = some [0x2E] then
    if is_dir disk path then (disk, true)
    else ((create_dirs disk [] (parent path)).1, false)
  else create_dirs disk [] (named path)

/-! ## Where no link is met -/

def NoLink (disk : Disk) (path : Path) : Prop :=
  ∀ above, above <+: path → ∀ target, disk.look above ≠ some (.Link target)

def Names (path : Path) : Prop := ∀ name ∈ path, is_name name = true

theorem NoLink.above {disk : Disk} {path above : Path} (h : NoLink disk path)
    (habove : above <+: path) : NoLink disk above :=
  fun other hother => h other (hother.trans habove)

theorem Names.append {path rest : Path} (h : Names path) (hrest : Names rest) :
    Names (path ++ rest) := by
  intro name hname
  exact (List.mem_append.mp hname).elim (h name) (hrest name)

theorem is_name_spec {name : Name} (h : is_name name = true) :
    is_blank name = false ∧ is_parent name = false := by
  unfold is_name at h
  simp only [Bool.and_eq_true, Bool.not_eq_true'] at h
  exact ⟨h.1.1, h.1.2⟩

theorem Names.no_nul {path : Path} (h : Names path) : has_nul path = false := by
  unfold has_nul
  rw [List.any_eq_false]
  intro name hname
  have hok := h name hname
  unfold is_name at hok
  simp only [Bool.and_eq_true, Bool.not_eq_true'] at hok
  simpa using hok.2

section Clear

variable {disk : Disk}

theorem steps_clear {follow : Path → List Name → Option Path} {cursor path : Path}
    (hnames : Names path)
    (hlinks : ∀ above, above <+: path → ∀ target, disk.look (cursor ++ above) ≠ some (.Link target))
    (hcursor : (disk.look cursor).isSome) :
    steps disk follow cursor path =
      if (disk.look (cursor ++ path)).isSome then some (cursor ++ path) else none := by
  induction path generalizing cursor with
  | nil => simp [steps, hcursor]
  | cons name rest ih =>
    obtain ⟨hblank, hparent⟩ := is_name_spec (hnames name List.mem_cons_self)
    have hassoc : ∀ tail, cursor ++ name :: tail = cursor ++ [name] ++ tail := by simp
    have hfirst := hlinks [name] ⟨rest, rfl⟩
    have hrest : (disk.look (cursor ++ [name])).isSome →
        steps disk follow (cursor ++ [name]) rest =
          if (disk.look (cursor ++ name :: rest)).isSome then some (cursor ++ name :: rest)
          else none := by
      intro hsome
      rw [ih (fun other hother => hnames other (List.mem_cons_of_mem _ hother)) _ hsome,
        hassoc rest]
      intro above habove target
      rw [← hassoc above]
      exact hlinks _ (List.cons_prefix_cons.mpr ⟨rfl, habove⟩) target
    rw [steps, hblank, hparent]
    simp only [Bool.false_eq_true, if_false]
    cases hlook : disk.look (cursor ++ [name]) with
    | none =>
      rw [hassoc rest, Node.look_none_below hlook]
      rfl
    | some entry =>
      cases entry with
      | Link target => exact absurd hlook (hfirst target)
      | Dir => exact hrest (by rw [hlook]; rfl)
      | File content => exact hrest (by rw [hlook]; rfl)

theorem resolve_clear {path : Path} (hnames : Names path) (hlinks : NoLink disk path) :
    resolve disk path = if (disk.look path).isSome then some path else none := by
  have hcursor : (disk.look []).isSome := by simp
  unfold resolve
  rw [hnames.no_nul, if_neg (by decide)]
  exact steps_clear hnames hlinks hcursor

theorem stat_clear {path : Path} (hnames : Names path) (hlinks : NoLink disk path) :
    stat disk path = disk.look path := by
  unfold stat
  rw [resolve_clear hnames hlinks]
  cases hlook : disk.look path with
  | none => rfl
  | some entry => exact hlook

variable {name : Name} {parent : Path}

theorem locate_clear (hnames : Names (parent ++ [name])) (hlinks : NoLink disk parent) :
    locate disk (parent ++ [name]) =
      if disk.look parent = some .Dir then some (parent ++ [name]) else none := by
  have hname := hnames name (by simp)
  have hparent : Names parent := fun other hother => hnames other (by simp [hother])
  unfold locate
  rw [List.getLast?_concat, List.dropLast_concat]
  simp only [hname, if_true]
  rw [resolve_clear hparent hlinks]
  by_cases hdir : disk.look parent = some .Dir
  · simp [hdir, is_dir_at]
  · rw [if_neg hdir]
    cases hsome : (disk.look parent).isSome with
    | false => simp
    | true => simp [is_dir_at, hdir]

theorem make_clear (hnames : Names (parent ++ [name]))
    (hlinks : NoLink disk parent) (node : file_tree.Node) : make disk node (parent ++ [name]) =
      if disk.look parent = some .Dir ∧ disk.look (parent ++ [name]) = none then
        some (Node.put node disk (parent ++ [name])) else none := by
  unfold make
  rw [locate_clear hnames hlinks]
  by_cases hdir : disk.look parent = some .Dir
  · rw [if_pos hdir]
    cases hlook : disk.look (parent ++ [name]) <;> simp [hdir, hlook]
  · simp [hdir]

theorem look_put_at (node : file_tree.Node) (name : Name) (rest : Path)
    (hdir : disk.look parent = some .Dir) :
    (Node.put node disk (parent ++ [name])).look (parent ++ [name] ++ rest) = node.look rest := by
  unfold Node.look
  rw [Node.get_put node name rest hdir]

/-- A node with nothing below it, in the place of one that is no directory. -/
theorem look_put_over {node : file_tree.Node}
    (hbare : ∀ rest, rest ≠ [] → node.look rest = none) (hdir : disk.look parent = some .Dir)
    (hold : disk.look (parent ++ [name]) ≠ some .Dir) (path : Path) :
    (Node.put node disk (parent ++ [name])).look path =
      if path = parent ++ [name] then some node.entry else disk.look path := by
  by_cases hbelow : parent ++ [name] <+: path
  · obtain ⟨rest, rfl⟩ := hbelow
    rw [look_put_at node name rest hdir]
    by_cases hrest : rest = []
    · subst hrest
      simp
    · rw [hbare rest hrest, if_neg (by simpa using hrest)]
      cases hlook : disk.look (parent ++ [name] ++ rest) with
      | none => rfl
      | some entry => exact absurd (Node.look_above hrest (by rw [hlook]; rfl)) hold
  · rw [Node.look_put node name hdir hbelow, if_neg]
    rintro rfl
    exact hbelow List.prefix_rfl

theorem look_erase_over {path : Path} (hne : path ≠ []) (hold : disk.look path ≠ some .Dir)
    (other : Path) :
    (disk.erase path).look other = if other = path then none else disk.look other := by
  by_cases hbelow : path <+: other
  · obtain ⟨rest, rfl⟩ := hbelow
    cases path with
    | nil => exact absurd rfl hne
    | cons name path =>
      rw [Node.look_erase]
      by_cases hrest : rest = []
      · simp [hrest]
      · rw [if_neg (by simpa using hrest)]
        cases hlook : disk.look (name :: path ++ rest) with
        | none => rfl
        | some entry => exact absurd (Node.look_above hrest (by rw [hlook]; rfl)) hold
  · rw [Node.look_erase_other disk hbelow, if_neg]
    rintro rfl
    exact hbelow List.prefix_rfl

theorem bare_dir (rest : Path) (h : rest ≠ []) : (Node.Dir []).look rest = none := by
  cases rest with
  | nil => exact absurd rfl h
  | cons name rest => rfl

section Last

variable {parent : Path} {name : Name} (hnames : Names (parent ++ [name]))

include hnames

variable {after : Disk}

theorem make_some {node : file_tree.Node} (hbare : ∀ rest, rest ≠ [] → node.look rest = none)
    (hlinks : NoLink disk parent) (h : make disk node (parent ++ [name]) = some after) :
    disk.look parent = some .Dir ∧ disk.look (parent ++ [name]) = none ∧
      ∀ path, after.look path =
        if path = parent ++ [name] then some node.entry else disk.look path := by
  rw [make_clear hnames hlinks] at h
  split at h
  · next hcond =>
    obtain ⟨hdir, hnone⟩ := hcond
    cases h
    exact ⟨hdir, hnone, look_put_over hbare hdir (by rw [hnone]; simp)⟩
  · exact absurd h (by simp)

theorem remove_file_some (hlinks : NoLink disk parent)
    (h : remove_file disk (parent ++ [name]) = some after) (path : Path) :
    after.look path = if path = parent ++ [name] then none else disk.look path := by
  unfold remove_file at h
  rw [locate_clear hnames hlinks] at h
  split at h
  next => exact absurd h (by simp)
  next place hplace =>
    split at hplace
    · cases hplace
      split at h
      next => exact absurd h (by simp)
      next hdir hlook =>
        cases h
        exact look_erase_over (by simp) (by rw [hlook]; simpa using hdir) path
      next => exact absurd h (by simp)
    · exact absurd hplace (by simp)

end Last

/-- Something that is moved is all at its new place and nowhere else. -/
theorem rename_some {source target : Path} {old new : Name} (hsource : Names (source ++ [old]))
    (htarget : Names (target ++ [new])) (hlinks : NoLink disk source)
    (hlinks' : NoLink disk target) {after : Disk} (hne : source ++ [old] ≠ target ++ [new])
    (h : rename disk (source ++ [old]) (target ++ [new]) = some after) (path : Path) :
    (∀ rest, after.look (target ++ [new] ++ rest) = disk.look (source ++ [old] ++ rest)) ∧
      (¬ target ++ [new] <+: path →
        after.look path = if source ++ [old] <+: path then none else disk.look path) := by
  unfold rename at h
  rw [locate_clear hsource hlinks, locate_clear htarget hlinks'] at h
  by_cases hdir : disk.look source = some .Dir
  · by_cases hdir' : disk.look target = some .Dir
    · rw [if_pos hdir, if_pos hdir'] at h
      dsimp only at h
      cases hget : disk.get (source ++ [old]) with
      | none => simp [hget] at h
      | some node =>
        simp only [hget, if_neg hne] at h
        split at h
        · exact absurd h (by simp)
        · next hcond =>
          cases h
          rw [Bool.or_eq_true, not_or, Bool.not_eq_true] at hcond
          have hnot : ¬ source ++ [old] <+: target ++ [new] := by
            rw [← List.isPrefixOf_iff_prefix, hcond.1]
            decide
          have hparent : (disk.erase (source ++ [old])).look target = some .Dir := by
            rw [Node.look_erase_other, hdir']
            exact fun hbelow => hnot (hbelow.trans (List.prefix_append _ _))
          refine ⟨fun rest => ?_, fun hbelow => ?_⟩
          · rw [look_put_at node new rest hparent, Node.look_append disk (source ++ [old]), hget,
              Option.bind_some]
          · rw [Node.look_put node new hparent hbelow]
            split
            · next hgone =>
              obtain ⟨rest, rfl⟩ := hgone
              cases hpath : source ++ [old] with
              | nil => exact absurd hpath (by simp)
              | cons first tail => exact Node.look_erase disk first tail rest
            · next hstays => exact Node.look_erase_other disk hstays
    · rw [if_neg hdir'] at h
      split at h <;> simp_all
  · rw [if_neg hdir] at h
    exact absurd h (by simp)

end Clear

/-! ## Where the last name is no link -/

section There

variable {disk : Disk}

theorem steps_there {follow : Path → List Name → Option Path} {place : Path}
    (hfollow : ∀ cursor rest, (disk.look cursor).isSome → follow cursor rest = some place →
      (disk.look place).isSome) {cursor rest : Path} (hcursor : (disk.look cursor).isSome)
    (h : steps disk follow cursor rest = some place) : (disk.look place).isSome := by
  -- what is above a place is there too
  have hup : ∀ cursor : Path, (disk.look cursor).isSome → (disk.look cursor.dropLast).isSome := by
    intro cursor hcursor
    rcases List.eq_nil_or_concat cursor with rfl | ⟨front, last, rfl⟩
    · exact hcursor
    · rw [List.concat_eq_append] at hcursor ⊢
      rw [List.dropLast_concat, Node.look_above (List.cons_ne_nil last []) hcursor]
      rfl
  induction rest generalizing cursor with
  | nil =>
    cases h
    exact hcursor
  | cons first rest ih =>
    rw [steps] at h
    split at h
    · split at h
      · exact ih hcursor h
      · cases h
    split at h
    · split at h
      · exact ih (hup cursor hcursor) h
      · cases h
    cases hnext : disk.look (cursor ++ [first]) with
    | none => simp [hnext] at h
    | some entry =>
      rw [hnext] at h
      cases entry with
      | Link target =>
        refine hfollow _ _ ?_ h
        unfold link_base
        split
        · exact Option.isSome_iff_exists.mpr ⟨_, Node.look_nil disk⟩
        · exact hcursor
      | Dir => exact ih (by rw [hnext]; rfl) h
      | File content => exact ih (by rw [hnext]; rfl) h

theorem resolve_there {path place : Path} (h : resolve disk path = some place) :
    (disk.look place).isSome := by
  have hwalk : ∀ links cursor rest, (disk.look cursor).isSome →
      walk disk links cursor rest = some place → (disk.look place).isSome := by
    intro links
    induction links with
    | zero => exact fun cursor rest => steps_there fun _ _ _ h => absurd h (by simp)
    | succ links ih => exact fun cursor rest => steps_there ih
  unfold resolve at h
  split at h
  · cases h
  · exact hwalk _ _ _ (by rw [Node.look_nil]; rfl) h

end There

section Last

variable {disk : Disk} {follow : Path → List Name → Option Path} {name : Name} {entry : Entry}

theorem steps_concat {place : Path} (hname : is_name name = true)
    (hlook : disk.look (place ++ [name]) = some entry) (hlink : ∀ target, entry ≠ .Link target)
    (hfollow : ∀ cursor rest, follow cursor rest = some place →
      follow cursor (rest ++ [name]) = some (place ++ [name])) {cursor rest : Path}
    (h : steps disk follow cursor rest = some place) :
    steps disk follow cursor (rest ++ [name]) = some (place ++ [name]) := by
  obtain ⟨hblank, hparent⟩ := is_name_spec hname
  induction rest generalizing cursor with
  | nil =>
    cases h
    rw [List.nil_append, steps, hblank, hparent, hlook]
    cases entry with
    | Link target => exact absurd rfl (hlink target)
    | Dir => rfl
    | File content => rfl
  | cons first rest ih =>
    rw [List.cons_append, steps]
    rw [steps] at h
    split
    · next hfirst =>
      rw [if_pos hfirst] at h
      split at h
      · next hdir => rw [if_pos hdir, ih h]
      · exact absurd h (by simp)
    next hfirst =>
    rw [if_neg hfirst] at h
    split
    · next hup =>
      rw [if_pos hup] at h
      split at h
      · next hdir => rw [if_pos hdir, ih h]
      · exact absurd h (by simp)
    next hup =>
    rw [if_neg hup] at h
    cases hnext : disk.look (cursor ++ [first]) with
    | none => simp [hnext] at h
    | some entry =>
      rw [hnext] at h
      cases entry with
      | Link target =>
        dsimp only at h ⊢
        rw [← List.append_assoc]
        exact hfollow _ _ h
      | Dir => exact ih h
      | File content => exact ih h

theorem walk_concat {place : Path} (hname : is_name name = true)
    (hlook : disk.look (place ++ [name]) = some entry) (hlink : ∀ target, entry ≠ .Link target)
    (links : Nat) {cursor rest : Path} (h : walk disk links cursor rest = some place) :
    walk disk links cursor (rest ++ [name]) = some (place ++ [name]) := by
  induction links generalizing cursor rest with
  | zero => exact steps_concat hname hlook hlink (fun _ _ h => absurd h (by simp)) h
  | succ links ih => exact steps_concat hname hlook hlink (fun _ _ h => ih h) h

variable {path : Path} (hname : is_name name = true)

include hname

theorem resolve_of_lstat (h : lstat disk (path ++ [name]) = some entry)
    (hlink : ∀ target, entry ≠ .Link target) : ∃ place, resolve disk path = some place ∧
      resolve disk (path ++ [name]) = some (place ++ [name]) ∧
      disk.look (place ++ [name]) = some entry := by
  unfold lstat locate at h
  rw [List.getLast?_concat, List.dropLast_concat] at h
  simp only [hname, if_true] at h
  obtain ⟨place, hplace, hlook⟩ := Option.bind_eq_some_iff.mp h
  obtain ⟨parent, hparent, rfl⟩ := Option.map_eq_some_iff.mp hplace
  have hresolve := (Option.filter_eq_some_iff.mp hparent).1
  refine ⟨parent, hresolve, ?_, hlook⟩
  unfold resolve at hresolve
  split at hresolve
  · exact absurd hresolve (by simp)
  next hnul =>
    have hnul' : has_nul (path ++ [name]) = false := by
      unfold is_name at hname
      simp only [Bool.and_eq_true, Bool.not_eq_true'] at hname
      unfold has_nul at hnul ⊢
      rw [List.any_append, Bool.eq_false_iff.mpr hnul]
      simpa using hname.2
    unfold resolve
    rw [hnul', if_neg (by decide), walk_concat hname hlook hlink _ hresolve]

end Last

end disk_os
