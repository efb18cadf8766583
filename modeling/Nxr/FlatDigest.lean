-- When a flat directory digest tells a tree from every other one:
-- nothing stands between what is hashed.
import Nxr.Cas
import Mathlib.Data.Set.Function
import Mathlib.Data.List.Pairwise

namespace nxr_core.cas

open std_ffi

/-! ## The order of paths -/

def Before (a b : PathBuf) : Prop :=
  ∃ (u : PathBuf) (m n : Name) (v w : PathBuf), a = u ++ m :: v ∧ b = u ++ n :: w ∧ m < n

def Apart (a b : PathBuf) : Prop :=
  ∃ (u : PathBuf) (m n : Name) (v w : PathBuf), a = u ++ m :: v ∧ b = u ++ n :: w ∧ m ≠ n

section Lexicographic

variable {α : Type} [LT α]

theorem lex_trichotomy (h : ∀ a b : α, a < b ∨ a = b ∨ b < a) (l m : List α) :
    l < m ∨ l = m ∨ m < l := by
  induction l generalizing m with
  | nil =>
    cases m with
    | nil => exact .inr (.inl rfl)
    | cons b m => exact .inl (List.nil_lt_cons b m)
  | cons a l ih =>
    cases m with
    | nil => exact .inr (.inr (List.nil_lt_cons a l))
    | cons b m =>
      rcases h a b with hlt | rfl | hgt
      · exact .inl (List.cons_lt_cons_iff.mpr (.inl hlt))
      · rcases ih m with hlt | rfl | hgt
        · exact .inl (List.cons_lt_cons_iff.mpr (.inr ⟨rfl, hlt⟩))
        · exact .inr (.inl rfl)
        · exact .inr (.inr (List.cons_lt_cons_iff.mpr (.inr ⟨rfl, hgt⟩)))
      · exact .inr (.inr (List.cons_lt_cons_iff.mpr (.inl hgt)))

theorem lex_irrefl (h : ∀ a : α, ¬ a < a) (l : List α) : ¬ l < l := by
  induction l with
  | nil => exact List.not_lt_nil []
  | cons a l ih =>
    rw [List.cons_lt_cons_iff]
    rintro (hlt | ⟨_, hlt⟩)
    · exact h a hlt
    · exact ih hlt

theorem lex_trans (h : ∀ {a b c : α}, a < b → b < c → a < c) {l m n : List α} (hlm : l < m)
    (hmn : m < n) : l < n := by
  induction l generalizing m n with
  | nil =>
    cases n with
    | nil => exact absurd hmn (List.not_lt_nil m)
    | cons c n => exact List.nil_lt_cons c n
  | cons a l ih =>
    cases m with
    | nil => exact absurd hlm (List.not_lt_nil _)
    | cons b m =>
      cases n with
      | nil => exact absurd hmn (List.not_lt_nil _)
      | cons c n =>
        rw [List.cons_lt_cons_iff] at hlm hmn ⊢
        rcases hlm with hab | ⟨rfl, hlm⟩
        · rcases hmn with hbc | ⟨rfl, _⟩
          · exact .inl (h hab hbc)
          · exact .inl hab
        · rcases hmn with hbc | ⟨rfl, hmn⟩
          · exact .inl hbc
          · exact .inr ⟨rfl, ih hlm hmn⟩

/-- A common front does not matter. -/
theorem append_lt_append_iff (h : ∀ a : α, ¬ a < a) (u a b : List α) :
    u ++ a < u ++ b ↔ a < b := by
  induction u with
  | nil => rfl
  | cons x u ih =>
    rw [List.cons_append, List.cons_append, List.cons_lt_cons_iff, ih]
    constructor
    · rintro (hlt | ⟨_, hlt⟩)
      · exact absurd hlt (h x)
      · exact hlt
    · exact fun hlt => .inr ⟨rfl, hlt⟩

end Lexicographic

theorem byte_trichotomy (a b : UInt8) : a < b ∨ a = b ∨ b < a := by
  rcases Nat.lt_trichotomy a.toNat b.toNat with h | h | h
  · exact .inl (UInt8.lt_iff_toNat_lt.mpr h)
  · exact .inr (.inl (UInt8.toNat_inj.mp h))
  · exact .inr (.inr (UInt8.lt_iff_toNat_lt.mpr h))

theorem name_trichotomy (m n : Name) : m < n ∨ m = n ∨ n < m :=
  lex_trichotomy byte_trichotomy m n

theorem name_irrefl (n : Name) : ¬ n < n := lex_irrefl UInt8.lt_irrefl n

theorem path_irrefl (a : PathBuf) : ¬ a < a := lex_irrefl name_irrefl a

theorem path_trans {a b c : PathBuf} (hab : a < b) (hbc : b < c) : a < c :=
  lex_trans (lex_trans UInt8.lt_trans) hab hbc

theorem path_trichotomy (a b : PathBuf) : a < b ∨ a = b ∨ b < a :=
  lex_trichotomy name_trichotomy a b

theorem name_lt_append {m n : Name} (h : m < n) (x : Name) : m < n ++ x := by
  induction m generalizing n with
  | nil =>
    cases n with
    | nil => exact absurd h (List.not_lt_nil [])
    | cons b n => exact List.nil_lt_cons b (n ++ x)
  | cons a m ih =>
    cases n with
    | nil => exact absurd h (List.not_lt_nil _)
    | cons b n =>
      rw [List.cons_append, List.cons_lt_cons_iff]
      rcases List.cons_lt_cons_iff.mp h with hfirst | ⟨rfl, hrest⟩
      · exact .inl hfirst
      · exact .inr ⟨rfl, ih hrest⟩

theorem Before.lt {a b : PathBuf} (h : Before a b) : a < b := by
  obtain ⟨u, m, n, v, w, rfl, rfl, hlt⟩ := h
  exact (append_lt_append_iff name_irrefl u _ _).mpr (List.cons_lt_cons_iff.mpr (.inl hlt))

theorem before_of_apart {a b : PathBuf} (h : Apart a b) (hle : ¬ b < a) : Before a b := by
  obtain ⟨u, m, n, v, w, rfl, rfl, hne⟩ := h
  rcases name_trichotomy m n with hlt | heq | hgt
  · exact ⟨u, m, n, v, w, rfl, rfl, hlt⟩
  · exact absurd heq hne
  · have hback : Before (u ++ n :: w) (u ++ m :: v) := ⟨u, n, m, w, v, rfl, rfl, hgt⟩
    exact absurd hback.lt hle

theorem Apart.symm {a b : PathBuf} (h : Apart a b) : Apart b a := by
  obtain ⟨u, m, n, v, w, ha, hb, hne⟩ := h
  exact ⟨u, n, m, w, v, hb, ha, Ne.symm hne⟩

/-! ## The files of a tree -/

mutual

theorem collect_files_at (dir : PathBuf) (node : Node) :
    collect_files dir node = (collect_files [] node).map fun file => (dir ++ file.1, file.2) := by
  cases node with
  | File content =>
    simp [collect_files]
  | Dir entries =>
    unfold collect_files
    exact collect_entries_at dir entries

theorem collect_entries_at (dir : PathBuf) (entries : List (Name × Node)) :
    collect_entries dir entries =
      (collect_entries [] entries).map fun file => (dir ++ file.1, file.2) := by
  match entries with
  | [] => simp [collect_entries]
  | (name, node) :: rest =>
    unfold collect_entries
    rw [List.map_append, collect_entries_at dir rest, collect_files_at (dir ++ [name]) node,
      collect_files_at ([] ++ [name]) node, List.map_map]
    simp [Function.comp_def]

end

theorem mem_collect_entries {entries : List (Name × Node)} {file : PathBuf × Bytes} :
    file ∈ collect_entries [] entries ↔ ∃ name node path, (name, node) ∈ entries ∧
      (path, file.2) ∈ collect_files [] node ∧ file.1 = name :: path := by
  induction entries with
  | nil => simp [collect_entries]
  | cons entry rest ih =>
    obtain ⟨name, node⟩ := entry
    unfold collect_entries
    rw [List.mem_append, collect_files_at, List.mem_map, ih]
    constructor
    · rintro (⟨found, hfound, rfl⟩ | ⟨name', node', path, hmem, hfile, heq⟩)
      · exact ⟨name, node, found.1, List.mem_cons_self, hfound, rfl⟩
      · exact ⟨name', node', path, List.mem_cons_of_mem _ hmem, hfile, heq⟩
    · rintro ⟨name', node', path, hmem, hfile, heq⟩
      rcases List.mem_cons.mp hmem with hhere | hmem
      · cases hhere
        exact .inl ⟨(path, file.2), hfile, Prod.ext heq.symm rfl⟩
      · exact .inr ⟨name', node', path, hmem, hfile, heq⟩

structure FilePath (path : PathBuf) : Prop where
  nonempty : path ≠ []
  names : ∀ name ∈ path, ValidName name

mutual

theorem collected_names {node : Node} (h : node.Valid) {file : PathBuf × Bytes}
    (hmem : file ∈ collect_files [] node) : ∀ name ∈ file.1, ValidName name := by
  match node with
  | .File content =>
    rw [collect_files, List.mem_singleton] at hmem
    subst hmem
    exact nofun
  | .Dir entries =>
    exact collected_entry_names h.2 hmem

theorem collected_entry_names {entries : List (Name × Node)} (h : entries_valid entries)
    {file : PathBuf × Bytes} (hmem : file ∈ collect_entries [] entries) :
    ∀ name ∈ file.1, ValidName name := by
  match entries with
  | [] => cases hmem
  | (name, node) :: rest =>
    obtain ⟨hname, hnode, hrest⟩ := h
    unfold collect_entries at hmem
    rcases List.mem_append.mp hmem with hmem | hmem
    · rw [collect_files_at] at hmem
      obtain ⟨found, hfound, rfl⟩ := List.mem_map.mp hmem
      intro part hpart
      rcases List.mem_append.mp hpart with hpart | hpart
      · rw [List.mem_singleton.mp hpart]
        exact hname
      · exact collected_names hnode hfound part hpart
    · exact collected_entry_names hrest hmem

end

theorem Tree.file_path (t : Tree) {file : PathBuf × Bytes} (hmem : file ∈ t.files) :
    FilePath file.1 := by
  refine ⟨?_, collected_names t.valid hmem⟩
  obtain ⟨name, node, path, _, _, heq⟩ := mem_collect_entries.mp hmem
  rw [heq]
  exact List.cons_ne_nil name path

theorem Apart.below {a b : PathBuf} (h : Apart a b) (dir : PathBuf) :
    Apart (dir ++ a) (dir ++ b) := by
  obtain ⟨u, m, n, v, w, rfl, rfl, hne⟩ := h
  exact ⟨dir ++ u, m, n, v, w, (List.append_assoc _ _ _).symm, (List.append_assoc _ _ _).symm, hne⟩

mutual

/-- No file of a tree is at or below another one. -/
theorem collected_apart {node : Node} (h : node.Valid) :
    ((collect_files [] node).map (·.1)).Pairwise Apart := by
  match node with
  | .File content =>
    rw [collect_files]
    exact List.pairwise_singleton _ _
  | .Dir entries => exact collected_entries_apart h.1 h.2

theorem collected_entries_apart {entries : List (Name × Node)}
    (hn : (entries.map (·.1)).Nodup) (h : entries_valid entries) :
    ((collect_entries [] entries).map (·.1)).Pairwise Apart := by
  match entries with
  | [] => exact List.Pairwise.nil
  | (name, node) :: rest =>
    obtain ⟨hname, hnode, hrest⟩ := h
    obtain ⟨hnew, hn⟩ := List.nodup_cons.mp hn
    unfold collect_entries
    rw [List.map_append, List.pairwise_append]
    refine ⟨?_, collected_entries_apart hn hrest, ?_⟩
    · rw [collect_files_at, List.map_map, List.pairwise_map]
      refine (List.pairwise_map.mp (collected_apart hnode)).imp ?_
      intro a b hab
      exact hab.below [name]
    · intro a ha b hb
      obtain ⟨file, hfile, rfl⟩ := List.mem_map.mp ha
      obtain ⟨other, hother, rfl⟩ := List.mem_map.mp hb
      rw [collect_files_at] at hfile
      obtain ⟨found, _, rfl⟩ := List.mem_map.mp hfile
      obtain ⟨name', node', path, hmem, _, heq⟩ := mem_collect_entries.mp hother
      refine ⟨[], name, name', found.1, path, rfl, heq, ?_⟩
      rintro rfl
      exact hnew (List.mem_map.mpr ⟨_, hmem, rfl⟩)

end

/-! ## The walk in its order -/

def Tree.walk (t : Tree) : List (PathBuf × Bytes) := t.files.mergeSort path_le

theorem mem_walk (t : Tree) {file : PathBuf × Bytes} : file ∈ t.walk ↔ file ∈ t.files :=
  (List.mergeSort_perm _ _).mem_iff

theorem walk_before (t : Tree) : (t.walk.map (·.1)).Pairwise Before := by
  have hsorted : t.walk.Pairwise fun a b => path_le a b = true := by
    refine List.pairwise_mergeSort ?_ ?_ t.files
    · intro a b c hab hbc
      unfold path_le at hab hbc ⊢
      simp only [Bool.not_eq_true', decide_eq_false_iff_not] at hab hbc ⊢
      intro hca
      rcases path_trichotomy a.1 b.1 with hlt | heq | hgt
      · exact hbc (path_trans hca hlt)
      · exact hbc (heq ▸ hca)
      · exact hab hgt
    · intro a b
      unfold path_le
      rcases path_trichotomy a.1 b.1 with hlt | heq | hgt
      · have hnot : ¬ b.1 < a.1 := fun hback => path_irrefl _ (path_trans hlt hback)
        simp [hnot]
      · simp [heq, path_irrefl]
      · have hnot : ¬ a.1 < b.1 := fun hback => path_irrefl _ (path_trans hgt hback)
        simp [hnot]
  have happart : (t.walk.map (·.1)).Pairwise Apart := by
    have hperm := ((List.mergeSort_perm t.files path_le).map (·.1)).symm
    exact (hperm.pairwise_iff fun hab => hab.symm).mp (collected_apart t.valid)
  rw [List.pairwise_map] at happart ⊢
  refine (happart.and hsorted).imp ?_
  rintro a b ⟨hab, hle⟩
  refine before_of_apart hab ?_
  unfold path_le at hle
  simpa using hle

section Digests

variable {hash : Bytes → Digest}

def update (hash : Bytes → Digest) (file : PathBuf × Bytes) : Bytes :=
  text file.1 ++ (digest_file hash file.2).hex

def Tree.stream (hash : Bytes → Digest) (t : Tree) : Bytes := t.walk.flatMap (update hash)

theorem strip_prefix_append (dir path : PathBuf) : strip_prefix dir (dir ++ path) = some path := by
  unfold strip_prefix
  rw [if_pos (List.isPrefixOf_iff_prefix.mpr (List.prefix_append dir path)), List.drop_left]

/-- Where the tree stands does not matter. -/
theorem digest_repo_path_eq (t : Tree) (flake_root relative : PathBuf) :
    digest_repo_path hash flake_root relative (some (.Dir t.entries)) = hash (t.stream hash) := by
  unfold digest_repo_path
  dsimp only
  have hsort : (collect_files (flake_root ++ relative) (.Dir t.entries)).mergeSort path_le =
      t.walk.map fun file => (flake_root ++ relative ++ file.1, file.2) := by
    rw [collect_files_at]
    refine (List.map_mergeSort ?_).symm
    intro a _ b _
    unfold path_le
    dsimp only
    rw [decide_eq_decide.mpr (append_lt_append_iff name_irrefl (flake_root ++ relative) b.1 a.1)]
  rw [hsort]
  unfold updates Tree.stream
  rw [List.flatMap_map]
  rw [List.flatMap_def, List.flatMap_def]
  refine congrArg (hash ∘ List.flatten) (List.map_congr_left ?_)
  intro file _
  rw [strip_prefix_append]
  rfl

/-! ## Gluing paths together -/

/-- Two paths as one: the last name of the first and the first name of the second become one name.
-/
def glue : PathBuf → Bytes → PathBuf → PathBuf
  | [], _, b => b
  | [m], middle, b => (m ++ middle ++ b.headD []) :: b.tail
  | m :: rest, middle, b => m :: glue rest middle b

theorem as_bytes_cons (m : Name) {rest : PathBuf} (h : rest ≠ []) :
    as_bytes (m :: rest) = m ++ 0x2F :: as_bytes rest := by
  cases rest with
  | nil => exact absurd rfl h
  | cons n w => rfl

theorem glue_cons (m : Name) {rest : PathBuf} (h : rest ≠ []) (middle : Bytes) (b : PathBuf) :
    glue (m :: rest) middle b = m :: glue rest middle b := by
  cases rest with
  | nil => exact absurd rfl h
  | cons n w => rfl

theorem glue_nonempty (a : PathBuf) (middle : Bytes) {b : PathBuf} (hb : b ≠ []) :
    glue a middle b ≠ [] := by
  unfold glue
  split
  · exact hb
  · exact List.cons_ne_nil _ _
  · exact List.cons_ne_nil _ _

theorem as_bytes_glue {a b : PathBuf} (ha : a ≠ []) (hb : b ≠ []) (middle : Bytes) :
    as_bytes (glue a middle b) = as_bytes a ++ middle ++ as_bytes b := by
  induction a with
  | nil => exact absurd rfl ha
  | cons m rest ih =>
    by_cases hrest : rest = []
    · subst hrest
      cases b with
      | nil => exact absurd rfl hb
      | cons n w =>
        change as_bytes ((m ++ middle ++ n) :: w) = m ++ middle ++ as_bytes (n :: w)
        cases w with
        | nil => rfl
        | cons k w =>
          rw [as_bytes_cons _ (List.cons_ne_nil k w), as_bytes_cons _ (List.cons_ne_nil k w),
            List.append_assoc (m ++ middle)]
    · rw [glue_cons m hrest, as_bytes_cons m (glue_nonempty _ _ hb), as_bytes_cons m hrest,
        ih hrest]
      simp only [List.append_assoc, List.cons_append]

theorem hex_ascii (digest : Digest) : ∀ b ∈ digest.hex, b < 0x80 := by
  intro b hb
  have hdigit := digest.digits b hb
  unfold is_hex_digit at hdigit
  simp only [Bool.or_eq_true, Bool.and_eq_true, decide_eq_true_eq] at hdigit
  rcases hdigit with ⟨_, hle⟩ | ⟨_, hle⟩
  · exact UInt8.lt_of_le_of_lt hle (by decide)
  · exact UInt8.lt_of_le_of_lt hle (by decide)

theorem lossy_ascii_append {x : Bytes} (hx : ∀ b ∈ x, b < 0x80) (y : Bytes) :
    to_string_lossy (x ++ y) = x ++ to_string_lossy y := by
  induction x with
  | nil => rfl
  | cons a x ih =>
    rw [List.cons_append, lossy_ascii (hx a List.mem_cons_self),
      ih fun b hb => hx b (List.mem_cons_of_mem _ hb), List.cons_append]

theorem text_glue {a b : PathBuf} (ha : a ≠ []) (hb : b ≠ []) (digest : Digest) :
    text (glue a digest.hex b) = text a ++ digest.hex ++ text b := by
  unfold text
  rw [as_bytes_glue ha hb]
  have hascii := hex_ascii digest
  have hlength := digest.length
  generalize digest.hex = hex at hascii hlength ⊢
  cases hex with
  | nil => cases hlength
  | cons d hex =>
    have hrest : ∀ c ∈ hex, c < 0x80 := fun c hc => hascii c (List.mem_cons_of_mem _ hc)
    rw [List.append_assoc, List.cons_append,
      to_string_lossy_ascii _ _ (hascii d List.mem_cons_self), lossy_ascii_append hrest,
      List.append_assoc, List.cons_append]

theorem digits_valid {middle : Bytes} (hlong : 64 ≤ middle.length)
    (hdigits : ∀ b ∈ middle, is_hex_digit b = true) {m n : Name} (hm : ValidName m)
    (hn : ValidName n) : ValidName (m ++ middle ++ n) := by
  have hfree : ∀ c : UInt8, is_hex_digit c = false → c ∉ middle := by
    intro c hc hmem
    rw [hdigits c hmem] at hc
    cases hc
  have hlength : 64 ≤ (m ++ middle ++ n).length := by
    rw [List.length_append, List.length_append]
    omega
  have hshort : ∀ l : Name, l.length < 64 → m ++ middle ++ n ≠ l := by
    rintro l hl rfl
    omega
  refine ⟨hshort [] (by decide), ?_, ?_, hshort _ (by decide), hshort _ (by decide)⟩
  · simp only [List.mem_append, not_or]
    exact ⟨⟨hm.slash, hfree _ (by decide)⟩, hn.slash⟩
  · simp only [List.mem_append, not_or]
    exact ⟨⟨hm.nul, hfree _ (by decide)⟩, hn.nul⟩

theorem glue_path {a b : PathBuf} (ha : FilePath a) (hb : FilePath b) (digest : Digest) :
    FilePath (glue a digest.hex b) := by
  refine ⟨glue_nonempty _ _ hb.nonempty, ?_⟩
  obtain ⟨hnonempty, hnames⟩ := ha
  induction a with
  | nil => exact absurd rfl hnonempty
  | cons m rest ih =>
    have hm := hnames m List.mem_cons_self
    by_cases hrest : rest = []
    · subst hrest
      cases b with
      | nil => exact absurd rfl hb.nonempty
      | cons n w =>
        intro name hname
        rcases List.mem_cons.mp hname with rfl | hname
        · exact digits_valid (Nat.le_of_eq digest.length.symm) digest.digits hm
            (hb.names n List.mem_cons_self)
        · exact hb.names name (List.mem_cons_of_mem _ hname)
    · rw [glue_cons m hrest]
      intro name hname
      rcases List.mem_cons.mp hname with rfl | hname
      · exact hm
      · exact ih hrest (fun part hpart => hnames part (List.mem_cons_of_mem _ hpart)) name hname

theorem Before.glue {p a : PathBuf} (h : Before p a) (middle : Bytes) (b : PathBuf) :
    Before p (glue a middle b) := by
  obtain ⟨u, m, n, v, w, rfl, rfl, hlt⟩ := h
  induction u with
  | nil =>
    by_cases hw : w = []
    · subst hw
      refine ⟨[], m, _, v, _, rfl, rfl, ?_⟩
      rw [List.append_assoc]
      exact name_lt_append hlt _
    · exact ⟨[], m, n, v, cas.glue w middle b, rfl, glue_cons n hw middle b, hlt⟩
  | cons x u ih =>
    obtain ⟨u', m', n', v', w', hp, ha, hlt'⟩ := ih
    rw [List.cons_append, List.cons_append, glue_cons x (by simp)]
    exact ⟨x :: u', m', n', v', w', congrArg (x :: ·) hp, congrArg (x :: ·) ha, hlt'⟩

/-- The files of a walk as one file at one path, which holds the paths and digests of the others. -/
theorem stream_glued (file : PathBuf × Bytes) (rest : List (PathBuf × Bytes))
    (hpaths : ∀ f ∈ file :: rest, FilePath f.1) :
    ∃ q, ∃ f ∈ file :: rest, FilePath q ∧
      (file :: rest).flatMap (update hash) = update hash (q, f.2) ∧
      ∀ p, Before p file.1 → Before p q := by
  induction rest generalizing file with
  | nil =>
    refine ⟨file.1, file, List.mem_cons_self, hpaths file List.mem_cons_self, ?_, fun _ h => h⟩
    exact List.append_nil _
  | cons next rest ih =>
    have hfile := hpaths file List.mem_cons_self
    obtain ⟨q, f, hf, hq, hstream, _⟩ := ih next fun f hf => hpaths f (List.mem_cons_of_mem _ hf)
    refine ⟨glue file.1 (hash file.2).hex q, f, List.mem_cons_of_mem _ hf,
      glue_path hfile hq _, ?_, fun p hp => hp.glue _ q⟩
    rw [List.flatMap_cons, hstream]
    unfold update digest_file
    dsimp only
    rw [text_glue hfile.nonempty hq.nonempty]
    simp only [List.append_assoc]

theorem update_inj {S : Set Bytes} (hinj : Set.InjOn hash S) {a b : PathBuf × Bytes}
    (ha : a.2 ∈ S) (hb : b.2 ∈ S) (h : update hash a = update hash b) :
    text a.1 = text b.1 ∧ a.2 = b.2 := by
  unfold update digest_file at h
  obtain ⟨htext, hhex⟩ := List.append_inj' h ((hash a.2).length.trans (hash b.2).length.symm)
  have hdigest : hash a.2 = hash b.2 := Digest.ext hhex
  exact ⟨htext, hinj ha hb hdigest⟩

theorem update_nonempty (file : PathBuf × Bytes) : update hash file ≠ [] := by
  intro h
  obtain ⟨_, hhex⟩ := List.append_eq_nil_iff.mp h
  have hlength := (hash file.2).length
  rw [show (hash file.2).hex = [] from hhex] at hlength
  cases hlength

end Digests

/-! ## Small trees -/

def chain : PathBuf → Node → Node
  | [], node => node
  | name :: rest, node => .Dir [(name, chain rest node)]

theorem chain_valid {path : PathBuf} (hnames : ∀ name ∈ path, ValidName name) {node : Node}
    (h : node.Valid) : (chain path node).Valid := by
  induction path with
  | nil => exact h
  | cons name rest ih =>
    have hrest := ih fun part hpart => hnames part (List.mem_cons_of_mem _ hpart)
    exact ⟨List.pairwise_singleton _ _, hnames name List.mem_cons_self, hrest, trivial⟩

theorem chain_files (path : PathBuf) (node : Node) :
    collect_files [] (chain path node) =
      (collect_files [] node).map fun file => (path ++ file.1, file.2) := by
  induction path with
  | nil =>
    simp [chain]
  | cons name rest ih =>
    simp only [chain, collect_files, collect_entries, List.append_nil, List.nil_append]
    rw [collect_files_at, ih, List.map_map]
    rfl

theorem tree_of_node {node : Node} (h : node.Valid) (hdir : ∀ content, node ≠ .File content) :
    ∃ t : Tree, t.files = collect_files [] node := by
  cases node with
  | File content => exact absurd rfl (hdir content)
  | Dir entries => exact ⟨⟨entries, h⟩, rfl⟩

theorem tree_of_file {path : PathBuf} (h : FilePath path) (content : Bytes) :
    ∃ t : Tree, t.files = [(path, content)] := by
  have hvalid : (chain path (.File content)).Valid := chain_valid h.names trivial
  have hfiles := chain_files path (.File content)
  obtain ⟨t, ht⟩ := tree_of_node hvalid (by
    intro other
    have hnonempty := h.nonempty
    cases path with
    | nil => exact absurd rfl hnonempty
    | cons name rest => exact nofun)
  refine ⟨t, ?_⟩
  rw [ht, hfiles]
  simp [collect_files]

theorem tree_of_two {p q : PathBuf} (hp : FilePath p) (hq : FilePath q) (h : Before p q)
    (c d : Bytes) : ∃ t : Tree, t.files = [(p, c), (q, d)] := by
  obtain ⟨u, m, n, v, w, rfl, rfl, hlt⟩ := h
  have hne : m ≠ n := by
    rintro rfl
    exact name_irrefl m hlt
  let node : Node := .Dir [(m, chain v (.File c)), (n, chain w (.File d))]
  have hv : (chain v (.File c)).Valid :=
    chain_valid (fun name hname => hp.names name (by simp [hname])) trivial
  have hw : (chain w (.File d)).Valid :=
    chain_valid (fun name hname => hq.names name (by simp [hname])) trivial
  have hnode : node.Valid := by
    refine ⟨?_, hp.names m (by simp), hv, hq.names n (by simp), hw, trivial⟩
    simpa using hne
  have hvalid : (chain u node).Valid :=
    chain_valid (fun name hname => hp.names name (by simp [hname])) hnode
  have hfiles := chain_files u node
  obtain ⟨t, ht⟩ := tree_of_node hvalid (by
    intro content
    cases u with
    | nil => exact nofun
    | cons name rest => exact nofun)
  refine ⟨t, ?_⟩
  rw [ht, hfiles]
  simp only [node, collect_files, collect_entries, List.nil_append, List.append_nil]
  rw [collect_files_at [m], collect_files_at [n], chain_files, chain_files]
  simp [collect_files]

theorem walk_of_sorted {t : Tree} {p q : PathBuf} {c d : Bytes} (h : Before p q)
    (hfiles : t.files = [(p, c), (q, d)]) : t.walk = [(p, c), (q, d)] := by
  unfold Tree.walk
  rw [hfiles]
  refine List.mergeSort_of_pairwise (List.pairwise_pair.mpr ?_)
  unfold path_le
  have hnot : ¬ q < p := fun hback => path_irrefl _ (path_trans h.lt hback)
  simp [hnot]

theorem walk_of_one {t : Tree} {file : PathBuf × Bytes} (hfiles : t.files = [file]) :
    t.walk = [file] := by
  unfold Tree.walk
  rw [hfiles, List.mergeSort_singleton]

end nxr_core.cas
