-- Trees of files with links: what is seen at a path, and how a
-- write or a removal shows at the others.
import Mathlib.Data.List.Basic
import Mathlib.Data.List.Infix
import Mathlib.Data.Set.Finite.Lattice
import Mathlib.Data.Set.Insert

namespace file_tree

abbrev Name := List UInt8

abbrev Path := List Name

inductive Node where
  | File (content : List UInt8)
  | Link (target : List UInt8)
  | Dir (entries : List (Name × Node))

/-- What is seen of a node without a look below it. -/
inductive Entry where
  | File (content : List UInt8)
  | Link (target : List UInt8)
  | Dir
  deriving DecidableEq

namespace Node

def entry : Node → Entry
  | .File content => .File content
  | .Link target => .Link target
  | .Dir _ => .Dir

def get : Node → Path → Option Node
  | node, [] => some node
  | .Dir entries, name :: path => (entries.lookup name).bind fun node => node.get path
  | _, _ :: _ => none

def look (node : Node) (path : Path) : Option Entry := (node.get path).map entry

def set_entry (name : Name) (node : Node) : List (Name × Node) → List (Name × Node)
  | [] => [(name, node)]
  | (other, old) :: rest =>
    if other = name then (name, node) :: rest else (other, old) :: set_entry name node rest

def put (new : Node) : Node → Path → Node
  | _, [] => new
  | .Dir entries, [name] => .Dir (set_entry name new entries)
  | .Dir entries, name :: path =>
    match entries.lookup name with
    | some node => .Dir (set_entry name (put new node path) entries)
    | none => .Dir entries
  | node, _ :: _ => node

def erase : Node → Path → Node
  | node, [] => node
  | .Dir entries, [name] => .Dir (entries.filter fun entry => entry.1 ≠ name)
  | .Dir entries, name :: path =>
    match entries.lookup name with
    | some node => .Dir (set_entry name (node.erase path) entries)
    | none => .Dir entries
  | node, _ :: _ => node

/-! ## Looking -/

@[simp] theorem get_nil (node : Node) : node.get [] = some node := by
  cases node <;> rfl

@[simp] theorem look_nil (node : Node) : node.look [] = some node.entry := by
  simp [look]

theorem get_cons (node : Node) (name : Name) (path : Path) :
    node.get (name :: path) = (node.get [name]).bind fun child => child.get path := by
  cases node with
  | Dir entries =>
    simp only [get]
    cases entries.lookup name <;> simp
  | File content => rfl
  | Link target => rfl

theorem get_append (node : Node) (path rest : Path) :
    node.get (path ++ rest) = (node.get path).bind fun child => child.get rest := by
  induction path generalizing node with
  | nil => simp
  | cons name path ih =>
    rw [List.cons_append, get_cons, get_cons node name path, Option.bind_assoc]
    congr 1
    funext child
    exact ih child

theorem look_append (node : Node) (path rest : Path) :
    node.look (path ++ rest) = (node.get path).bind fun child => child.look rest := by
  unfold look
  rw [get_append, Option.map_bind]
  rfl

theorem look_above {node : Node} {path rest : Path} (hrest : rest ≠ [])
    (h : (node.look (path ++ rest)).isSome) : node.look path = some .Dir := by
  rw [look_append] at h
  unfold look
  cases hget : node.get path with
  | none => simp [hget] at h
  | some child =>
    rw [hget] at h
    cases child with
    | Dir entries => rfl
    | File content =>
      cases rest with
      | nil => exact absurd rfl hrest
      | cons name rest => simp [look, get] at h
    | Link target =>
      cases rest with
      | nil => exact absurd rfl hrest
      | cons name rest => simp [look, get] at h

variable {node : Node} {path : Path}

theorem look_none_below {rest : Path} (h : node.look path = none) :
    node.look (path ++ rest) = none := by
  unfold look at h
  rw [Option.map_eq_none_iff] at h
  rw [look_append, h, Option.bind_none]

/-! ## Writing -/

theorem lookup_cons_if (name other : Name) (node : Node) (rest : List (Name × Node)) :
    List.lookup other ((name, node) :: rest) =
      if other = name then some node else rest.lookup other := by
  rw [List.lookup_cons]
  by_cases h : other = name
  · simp [h]
  · simp [h, beq_false_of_ne h]

theorem lookup_set_entry (name other : Name) (node : Node) (entries : List (Name × Node)) :
    (set_entry name node entries).lookup other =
      if other = name then some node else entries.lookup other := by
  induction entries with
  | nil => simp [set_entry, lookup_cons_if]
  | cons head rest ih =>
    obtain ⟨first, old⟩ := head
    by_cases hfirst : first = name
    · subst hfirst
      by_cases h : other = first <;> simp [set_entry, lookup_cons_if, h]
    · by_cases h : other = first
      · subst h
        simp [set_entry, hfirst]
      · simp [set_entry, lookup_cons_if, hfirst, h, ih]

theorem lookup_filter_ne (name other : Name) (entries : List (Name × Node)) :
    (entries.filter fun entry => decide (entry.1 ≠ name)).lookup other =
      if other = name then none else entries.lookup other := by
  induction entries with
  | nil => simp
  | cons head rest ih =>
    obtain ⟨first, old⟩ := head
    by_cases hfirst : first = name
    · subst hfirst
      by_cases h : other = first
      · simpa [h] using ih
      · simpa [lookup_cons_if, h] using ih
    · by_cases h : other = first
      · subst h
        simp [hfirst]
      · simpa [lookup_cons_if, hfirst, h] using ih

theorem get_dir (entries : List (Name × Node)) (name : Name) (path : Path) :
    (Dir entries).get (name :: path) = (entries.lookup name).bind fun node => node.get path :=
  rfl

theorem look_dir (entries : List (Name × Node)) (name : Name) (path : Path) :
    (Dir entries).look (name :: path) =
      (entries.lookup name).bind fun node => node.look path := by
  unfold look
  rw [get_dir, Option.map_bind]
  rfl

theorem look_dir_iff :
    node.look path = some .Dir ↔ ∃ entries, node.get path = some (Dir entries) := by
  unfold look
  rw [Option.map_eq_some_iff]
  constructor
  · rintro ⟨child, hget, hentry⟩
    cases child with
    | Dir entries => exact ⟨entries, hget⟩
    | File content => exact absurd hentry (by simp [entry])
    | Link target => exact absurd hentry (by simp [entry])
  · rintro ⟨entries, hget⟩
    exact ⟨_, hget, rfl⟩

/-- What was written is at its path. -/
theorem get_put (new : Node) {parent : Path} (name : Name) (rest : Path)
    (h : node.look parent = some .Dir) :
    (put new node (parent ++ [name])).get (parent ++ [name] ++ rest) = new.get rest := by
  induction parent generalizing node with
  | nil =>
    obtain ⟨entries, hnode⟩ := look_dir_iff.mp h
    rw [get_nil, Option.some.injEq] at hnode
    subst hnode
    simp [put, get_dir, lookup_set_entry]
  | cons first parent ih =>
    obtain ⟨entries, hnode⟩ : ∃ entries, node = Dir entries := by
      cases node with
      | Dir entries => exact ⟨entries, rfl⟩
      | File content => exact absurd h (by simp [look, get])
      | Link target => exact absurd h (by simp [look, get])
    subst hnode
    rw [look_dir] at h
    obtain ⟨child, hchild, hlook⟩ := Option.bind_eq_some_iff.mp h
    have hput : put new (Dir entries) (first :: (parent ++ [name])) =
        Dir (set_entry first (put new child (parent ++ [name])) entries) := by
      cases hparent : parent ++ [name] with
      | nil => exact absurd hparent (by simp)
      | cons second tail => simp only [put, hchild]
    rw [List.cons_append, hput, List.cons_append, get_dir, lookup_set_entry, if_pos rfl]
    exact ih hlook

/-- What is seen elsewhere stays. -/
theorem look_put (new : Node) {parent : Path} (name : Name)
    (h : node.look parent = some .Dir) (hpath : ¬ parent ++ [name] <+: path) :
    (put new node (parent ++ [name])).look path = node.look path := by
  induction parent generalizing node path with
  | nil =>
    obtain ⟨entries, hnode⟩ := look_dir_iff.mp h
    rw [get_nil, Option.some.injEq] at hnode
    subst hnode
    cases path with
    | nil => simp [put, entry]
    | cons other rest =>
      have hne : other ≠ name := by
        rintro rfl
        exact hpath (by simp)
      simp [put, look_dir, lookup_set_entry, hne]
  | cons first parent ih =>
    obtain ⟨entries, hnode⟩ : ∃ entries, node = Dir entries := by
      cases node with
      | Dir entries => exact ⟨entries, rfl⟩
      | File content => exact absurd h (by simp [look, get])
      | Link target => exact absurd h (by simp [look, get])
    subst hnode
    rw [look_dir] at h
    obtain ⟨child, hchild, hlook⟩ := Option.bind_eq_some_iff.mp h
    have hput : put new (Dir entries) (first :: (parent ++ [name])) =
        Dir (set_entry first (put new child (parent ++ [name])) entries) := by
      cases hparent : parent ++ [name] with
      | nil => exact absurd hparent (by simp)
      | cons second tail => simp only [put, hchild]
    rw [List.cons_append, hput]
    cases path with
    | nil => simp [entry]
    | cons other rest =>
      rw [look_dir, look_dir, lookup_set_entry]
      by_cases hother : other = first
      · subst hother
        rw [if_pos rfl, hchild, Option.bind_some, Option.bind_some]
        exact ih hlook fun hprefix => hpath ((List.cons_prefix_cons).mpr ⟨rfl, hprefix⟩)
      · rw [if_neg hother]

/-- Nothing is left at the path or below it. -/
theorem look_erase (node : Node) (name : Name) (path rest : Path) :
    (node.erase (name :: path)).look (name :: path ++ rest) = none := by
  induction path generalizing node name with
  | nil =>
    cases node with
    | Dir entries =>
      rw [erase, List.cons_append, look_dir, lookup_filter_ne, if_pos rfl, Option.bind_none]
    | File content => rfl
    | Link target => rfl
  | cons second path ih =>
    cases node with
    | Dir entries =>
      cases hchild : entries.lookup name with
      | none => simp [erase, hchild, look_dir]
      | some child =>
        simp only [erase, hchild, List.cons_append, look_dir, lookup_set_entry, if_true,
          Option.bind_some]
        exact ih child second
    | File content => rfl
    | Link target => rfl

/-- What is seen elsewhere stays. -/
theorem look_erase_other (node : Node) {other : Path} (h : ¬ path <+: other) :
    (node.erase path).look other = node.look other := by
  induction path generalizing node other with
  | nil => exact absurd (List.nil_prefix) h
  | cons name path ih =>
    cases node with
    | File content => cases path <;> rfl
    | Link target => cases path <;> rfl
    | Dir entries =>
      cases path with
      | nil =>
        cases other with
        | nil => simp [erase, entry]
        | cons first rest =>
          have hne : first ≠ name := by
            rintro rfl
            exact h (by simp)
          rw [erase, look_dir, look_dir, lookup_filter_ne, if_neg hne]
      | cons second path =>
        cases hchild : entries.lookup name with
        | none => simp [erase, hchild]
        | some child =>
          cases other with
          | nil => simp [erase, hchild, entry]
          | cons first rest =>
            simp only [erase, hchild, look_dir, lookup_set_entry]
            by_cases hfirst : first = name
            · subst hfirst
              rw [if_pos rfl, hchild, Option.bind_some, Option.bind_some]
              exact ih child fun hprefix => h ((List.cons_prefix_cons).mpr ⟨rfl, hprefix⟩)
            · rw [if_neg hfirst]

/-! ## Height -/

variable {entries : List (Name × Node)}

theorem mem_of_lookup {name : Name}
    (h : entries.lookup name = some node) : (name, node) ∈ entries := by
  obtain ⟨before, after, hentries, -⟩ := List.lookup_eq_some_iff.mp h
  rw [hentries]
  simp

mutual

/-- How many names there are at most on a path into the tree. -/
def height : Node → Nat
  | .Dir entries => entries_height entries
  | _ => 0

def entries_height : List (Name × Node) → Nat
  | [] => 0
  | (_, node) :: rest => max (node.height + 1) (entries_height rest)

end

theorem height_of_mem {entry : Name × Node}
    (h : entry ∈ entries) : entry.2.height + 1 ≤ entries_height entries := by
  induction entries with
  | nil => exact absurd h (by simp)
  | cons head rest ih =>
    rw [entries_height]
    rcases List.mem_cons.mp h with rfl | h
    · exact Nat.le_max_left _ _
    · exact (ih h).trans (Nat.le_max_right _ _)

theorem finite_paths (node : Node) : Set.Finite {path : Path | (node.look path).isSome} := by
  obtain ⟨bound, hbound⟩ : ∃ bound, node.height < bound := ⟨_, Nat.lt_succ_self _⟩
  induction bound generalizing node with
  | zero => exact absurd hbound (Nat.not_lt_zero _)
  | succ bound ih =>
    have hbelow : ∀ path : Path, path ≠ [] → (node.look path).isSome →
        ∃ entries, node = .Dir entries := by
      intro path hne hsome
      cases path with
      | nil => exact absurd rfl hne
      | cons name path =>
        cases node with
        | Dir entries => exact ⟨entries, rfl⟩
        | File content => simp [look, get] at hsome
        | Link target => simp [look, get] at hsome
    by_cases hdir : ∃ entries, node = .Dir entries
    · obtain ⟨entries, rfl⟩ := hdir
      have hchildren : Set.Finite (⋃ entry ∈ {entry | entry ∈ entries},
          (List.cons entry.1) '' {path : Path | (entry.2.look path).isSome}) := by
        refine Set.Finite.biUnion (List.finite_toSet entries) fun entry hentry => ?_
        refine Set.Finite.image _ (ih entry.2 ?_)
        have hheight := height_of_mem hentry
        rw [height] at hbound
        omega
      refine (hchildren.insert ([] : Path)).subset fun path hpath => ?_
      cases path with
      | nil => exact Set.mem_insert _ _
      | cons name path =>
        rw [Set.mem_ofPred_eq, look_dir] at hpath
        obtain ⟨child, hchild, hsome⟩ : ∃ child, entries.lookup name = some child ∧
            (child.look path).isSome := by
          cases hchild : entries.lookup name with
          | none => simp [hchild] at hpath
          | some child => exact ⟨child, rfl, by simpa [hchild] using hpath⟩
        refine Set.mem_insert_of_mem _ (Set.mem_biUnion (mem_of_lookup hchild) ?_)
        exact ⟨path, hsome, rfl⟩
    · refine (Set.finite_singleton ([] : Path)).subset fun path hpath => ?_
      by_contra hne
      exact hdir (hbelow path hne hpath)

/-! ## Trees without repeated names -/

mutual

/-- The names in each directory are distinct. -/
def Valid : Node → Prop
  | .Dir entries => (entries.map Prod.fst).Nodup ∧ ValidEntries entries
  | _ => True

def ValidEntries : List (Name × Node) → Prop
  | [] => True
  | (_, node) :: rest => node.Valid ∧ ValidEntries rest

end

theorem valid_entries_iff : ValidEntries entries ↔ ∀ entry ∈ entries, entry.2.Valid := by
  induction entries with
  | nil => simp [ValidEntries]
  | cons head rest ih => simp [ValidEntries, ih]

theorem valid_dir_iff : (Dir entries).Valid ↔
      (entries.map Prod.fst).Nodup ∧ ∀ entry ∈ entries, entry.2.Valid := by
  rw [Valid, valid_entries_iff]

theorem get_valid {child : Node} (h : node.Valid)
    (hget : node.get path = some child) : child.Valid := by
  induction path generalizing node with
  | nil =>
    rw [get_nil, Option.some.injEq] at hget
    rw [← hget]
    exact h
  | cons name path ih =>
    cases node with
    | File content => exact absurd hget (by simp [get])
    | Link target => exact absurd hget (by simp [get])
    | Dir entries =>
      rw [get_dir] at hget
      obtain ⟨below, hbelow, hget⟩ := Option.bind_eq_some_iff.mp hget
      exact ih ((valid_dir_iff.mp h).2 _ (mem_of_lookup hbelow)) hget

theorem mem_set_entry {name : Name}
    {entry : Name × Node} (h : entry ∈ set_entry name node entries) :
    entry = (name, node) ∨ entry ∈ entries := by
  induction entries with
  | nil => exact Or.inl (List.mem_singleton.mp h)
  | cons head rest ih =>
    rw [set_entry] at h
    split at h
    · rcases List.mem_cons.mp h with h | h
      · exact Or.inl h
      · exact Or.inr (List.mem_cons_of_mem _ h)
    · rcases List.mem_cons.mp h with h | h
      · exact Or.inr (h ▸ List.mem_cons_self)
      · exact (ih h).imp_right (List.mem_cons_of_mem _)

theorem set_entry_names (name : Name) (node : Node) (entries : List (Name × Node)) :
    (set_entry name node entries).map Prod.fst =
      if name ∈ entries.map Prod.fst then entries.map Prod.fst
      else entries.map Prod.fst ++ [name] := by
  induction entries with
  | nil => rfl
  | cons head rest ih =>
    by_cases hhead : head.1 = name
    · simp [set_entry, hhead]
    · have hname : ¬ name = head.1 := fun h => hhead h.symm
      simp only [set_entry, if_neg hhead, List.map_cons, ih, List.mem_cons, hname, false_or]
      split <;> rfl

theorem set_entry_valid (hnode : node.Valid)
    (h : (Dir entries).Valid) (name : Name) : (Dir (set_entry name node entries)).Valid := by
  rw [valid_dir_iff] at h ⊢
  refine ⟨?_, ?_⟩
  · rw [set_entry_names]
    split
    · exact h.1
    · next hname =>
      rw [List.nodup_append]
      refine ⟨h.1, by simp, ?_⟩
      rintro other hother last hlast rfl
      exact hname (List.mem_singleton.mp hlast ▸ hother)
  · intro entry hentry
    rcases mem_set_entry hentry with rfl | hentry
    · exact hnode
    · exact h.2 entry hentry

theorem put_valid {new : Node} (hnew : new.Valid) (h : node.Valid) (path : Path) :
    (put new node path).Valid := by
  induction path generalizing node with
  | nil => simpa [put] using hnew
  | cons name path ih =>
    cases node with
    | File content => cases path <;> exact h
    | Link target => cases path <;> exact h
    | Dir entries =>
      cases path with
      | nil => exact set_entry_valid hnew h name
      | cons second path =>
        cases hchild : entries.lookup name with
        | none => simpa [put, hchild] using h
        | some child =>
          simp only [put, hchild]
          apply set_entry_valid (ih _) h
          exact (valid_dir_iff.mp h).2 _ (mem_of_lookup hchild)

end Node

/-! ## Laying trees over a tree -/

def Comparable (a b : Path) : Prop := a <+: b ∨ b <+: a

/-- At its place the tree shows `shown`, above it directories, and elsewhere what it
showed before. -/
structure Placed (place : Path) (shown : Path → Option Entry) (node after : Node) : Prop where
  below : ∀ rest, after.look (place ++ rest) = shown rest
  above : ∀ path, path <+: place → path ≠ place → after.look path = some .Dir
  elsewhere : ∀ path, ¬ Comparable path place → after.look path = node.look path

structure Rooted (was : Path → Option Entry) (place : Path) : Prop where
  here : (was place).isSome
  dirs : ∀ path rest, rest ≠ [] → (was (place ++ path ++ rest)).isSome →
    was (place ++ path) = some .Dir

/-- Below `base` the tree shows what was at each of the places, and elsewhere what it showed at the
start. -/
structure Laid (base : Path) (was : Path → Option Entry) (places : Set Path)
    (start node : Node) : Prop where
  shown : ∀ place ∈ places, ∀ rest, node.look (base ++ (place ++ rest)) = was (place ++ rest)
  above : ∀ place ∈ places, ∀ path, path <+: base ++ place → path ≠ base ++ place →
    node.look path = some .Dir
  elsewhere : ∀ path, (∀ place ∈ places, ¬ Comparable path (base ++ place)) →
    node.look path = start.look path

section Laying

variable {base place : Path} {was : Path → Option Entry} {places : Set Path}
variable {start node after : Node}

theorem laid_nothing : Laid base was ∅ start start where
  shown := fun _ h => absurd h (Set.notMem_empty _)
  above := fun _ h => absurd h (Set.notMem_empty _)
  elsewhere := fun _ _ => rfl

/-- A further tree: where the trees overlap, they show the same. -/
theorem Laid.insert (h : Laid base was places start node)
    (hplaced : Placed (base ++ place) (fun rest => was (place ++ rest)) node after)
    (hplaces : ∀ other ∈ insert place places, Rooted was other) :
    Laid base was (insert place places) start after := by
  have hplace := hplaces place (Set.mem_insert _ _)
  have hshown : ∀ path, place <+: path → after.look (base ++ path) = was path := by
    rintro path ⟨rest, rfl⟩
    rw [← List.append_assoc]
    exact hplaced.below rest
  refine ⟨?_, ?_, ?_⟩
  · rintro other hother rest
    rcases Set.mem_insert_iff.mp hother with rfl | hold
    · exact hshown _ (List.prefix_append _ _)
    by_cases hbelow : place <+: other ++ rest
    · exact hshown _ hbelow
    by_cases habove : other ++ rest <+: place
    · obtain ⟨tail, htail⟩ := habove
      have hne : tail ≠ [] := by
        rintro rfl
        exact hbelow (by rw [← htail, List.append_nil])
      rw [(hplaces other hother).dirs rest tail hne (htail ▸ hplace.here)]
      apply hplaced.above
      · rw [← htail]
        exact (List.prefix_append_right_inj _).mpr (List.prefix_append _ _)
      · intro heq
        rw [List.append_cancel_left heq] at hbelow
        exact hbelow List.prefix_rfl
    · rw [hplaced.elsewhere, h.shown other hold]
      rintro (hpath | hpath)
      · exact habove ((List.prefix_append_right_inj _).mp hpath)
      · exact hbelow ((List.prefix_append_right_inj _).mp hpath)
  · rintro other hother path hpath hne
    rcases Set.mem_insert_iff.mp hother with rfl | hold
    · exact hplaced.above path hpath hne
    by_cases hbelow : base ++ place <+: path
    · obtain ⟨rest, rfl⟩ := hbelow
      obtain ⟨tail, htail⟩ := hpath
      have htail : place ++ rest ++ tail = other := by
        rw [List.append_assoc, List.append_assoc] at htail
        rw [List.append_assoc]
        exact List.append_cancel_left htail
      have hnonempty : tail ≠ [] := by
        rintro rfl
        rw [List.append_nil] at htail
        exact hne (by rw [← htail, List.append_assoc])
      rw [hplaced.below]
      exact hplace.dirs rest tail hnonempty (htail ▸ (hplaces other hother).here)
    by_cases habove : path <+: base ++ place
    · apply hplaced.above path habove
      rintro rfl
      exact hbelow List.prefix_rfl
    · rw [hplaced.elsewhere, h.above other hold path hpath hne]
      exact fun hcomparable => hcomparable.elim habove hbelow
  · rintro path hpath
    rw [hplaced.elsewhere path (hpath place (Set.mem_insert _ _))]
    exact h.elsewhere path fun other hother => hpath other (Set.mem_insert_of_mem _ hother)

theorem Laid.look_cases (h : Laid base was places start node) (path : Path) :
    (∃ place ∈ places, ∃ rest, path = base ++ (place ++ rest) ∧
        node.look path = was (place ++ rest)) ∨
      node.look path = some .Dir ∨
      ((∀ place ∈ places, ¬ Comparable path (base ++ place)) ∧
        node.look path = start.look path) := by
  by_cases hplaces : ∀ place ∈ places, ¬ Comparable path (base ++ place)
  · exact Or.inr (Or.inr ⟨hplaces, h.elsewhere path hplaces⟩)
  · push Not at hplaces
    obtain ⟨place, hplace, hpath⟩ := hplaces
    by_cases hbelow : base ++ place <+: path
    · obtain ⟨rest, rfl⟩ := hbelow
      refine Or.inl ⟨place, hplace, rest, List.append_assoc _ _ _, ?_⟩
      rw [List.append_assoc]
      exact h.shown place hplace rest
    · refine Or.inr (Or.inl (h.above place hplace path (hpath.resolve_right hbelow) ?_))
      rintro rfl
      exact hbelow List.prefix_rfl

/-- In a tree that held nothing at the start, there is nothing where nothing was. -/
theorem Laid.look_none (h : Laid [] was places (.Dir []) node) {rest : Path}
    (hplace : Rooted was place) (hplaces : ∀ other ∈ places, Rooted was other)
    (hnone : was (place ++ rest) = none) : node.look (place ++ rest) = none := by
  by_cases hall : ∀ other ∈ places, ¬ Comparable (place ++ rest) ([] ++ other)
  · rw [h.elsewhere _ hall]
    cases hpath : place ++ rest with
    | nil =>
      obtain ⟨hempty, -⟩ := List.append_eq_nil_iff.mp hpath
      have hhere := hplace.here
      rw [hpath, ← hempty] at hnone
      rw [hnone] at hhere
      exact absurd hhere (by simp)
    | cons name tail => rw [Node.look_dir, List.lookup_nil, Option.bind_none]
  · push Not at hall
    obtain ⟨other, hother, hpath⟩ := hall
    rw [List.nil_append] at hpath
    rcases hpath with ⟨tail, htail⟩ | ⟨tail, htail⟩
    · have hhere := (hplaces other hother).here
      rw [← htail] at hhere
      by_cases hempty : tail = []
      · rw [hempty, List.append_nil, hnone] at hhere
        exact absurd hhere (by simp)
      · rw [hplace.dirs rest tail hempty hhere] at hnone
        exact absurd hnone (by simp)
    · have hshown := h.shown other hother tail
      rwa [List.nil_append, htail, hnone] at hshown

end Laying

end file_tree
