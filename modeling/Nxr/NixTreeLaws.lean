-- Equal fingerprints of the .nix tree mean the same regular files: the
-- index is true, and the texts can be told apart.
import Nxr.ArtifactLaws
import Nxr.NixTree
import Nxr.WatchChangeLaws

open btree
open file_tree (Node Path)
open nxr_core.cas (Bytes Digest)
open nxr_task.artifact (as_bytes hex_digest is_ascii_hexdigit)

namespace nxr_completion.fingerprint

/-! ## Hashes as bytes -/

def nibble_digit (n : UInt8) : UInt8 := if n < 10 then 0x30 + n else 0x61 + (n - 10)

theorem nibble_of_digit (b : UInt8) (h : nxr_core.cas.is_hex_digit b = true) :
    ∃ n, hex_nibble b = some n ∧ n < 16 ∧ nibble_digit n = b := by
  have hall : ∀ k : Fin 256, nxr_core.cas.is_hex_digit (UInt8.ofNat k) = true →
      ∃ n : Fin 16, hex_nibble (UInt8.ofNat k) = some (UInt8.ofNat n) ∧
        nibble_digit (UInt8.ofNat n) = UInt8.ofNat k := by
    decide +kernel
  have hb : UInt8.ofNat b.toNat = b := UInt8.ofNat_toNat
  obtain ⟨n, hn, hdigit⟩ := hall ⟨b.toNat, b.toNat_lt⟩ (by rw [hb]; exact h)
  rw [hb] at hn hdigit
  refine ⟨_, hn, ?_, hdigit⟩
  rw [UInt8.lt_iff_toNat_lt, UInt8.toNat_ofNat_of_lt' (n.isLt.trans (by decide))]
  exact n.isLt

theorem pair_inj {a b c d : UInt8} (ha : a < 16) (hb : b < 16) (hc : c < 16) (hd : d < 16)
    (h : a <<< 4 ||| b = c <<< 4 ||| d) : a = c ∧ b = d := by
  have hall : ∀ x y : Fin 16,
      (UInt8.ofNat x <<< 4 ||| UInt8.ofNat y) >>> 4 = UInt8.ofNat x ∧
        (UInt8.ofNat x <<< 4 ||| UInt8.ofNat y) &&& 15 = UInt8.ofNat y := by
    decide
  have hread : ∀ {x y : UInt8}, x < 16 → y < 16 →
      (x <<< 4 ||| y) >>> 4 = x ∧ (x <<< 4 ||| y) &&& 15 = y := by
    intro x y hx hy
    have hpair := hall ⟨x.toNat, UInt8.lt_iff_toNat_lt.mp hx⟩
      ⟨y.toNat, UInt8.lt_iff_toNat_lt.mp hy⟩
    rwa [UInt8.ofNat_toNat, UInt8.ofNat_toNat] at hpair
  obtain ⟨hhi, hlo⟩ := hread ha hb
  obtain ⟨hhi', hlo'⟩ := hread hc hd
  rw [h] at hhi hlo
  exact ⟨hhi.symm.trans hhi', hlo.symm.trans hlo'⟩

theorem decode_pairs_length (n : Nat) (bytes : Bytes) (hlength : bytes.length = 2 * n)
    (hdigits : ∀ b ∈ bytes, nxr_core.cas.is_hex_digit b = true) :
    ∃ raw, decode_pairs bytes = some raw ∧ raw.length = n := by
  induction n generalizing bytes with
  | zero =>
    rw [List.length_eq_zero_iff.mp hlength]
    exact ⟨[], rfl, rfl⟩
  | succ n ih =>
    rcases bytes with _ | ⟨hi, _ | ⟨lo, rest⟩⟩
    · simp at hlength
    · simp at hlength
      omega
    · obtain ⟨x, hx, -⟩ := nibble_of_digit hi (hdigits hi (by simp))
      obtain ⟨y, hy, -⟩ := nibble_of_digit lo (hdigits lo (by simp))
      obtain ⟨raw, hraw, hsize⟩ := ih rest (by simp at hlength; omega)
        fun b hb => hdigits b (by simp [hb])
      refine ⟨(x <<< 4 ||| y) :: raw, ?_, by simp [hsize]⟩
      simp [decode_pairs, hx, hy, hraw]

theorem decode_pairs_inj (n : Nat) {xs ys : Bytes} (hx : xs.length = 2 * n)
    (hy : ys.length = 2 * n) (hxs : ∀ b ∈ xs, nxr_core.cas.is_hex_digit b = true)
    (hys : ∀ b ∈ ys, nxr_core.cas.is_hex_digit b = true) (h : decode_pairs xs = decode_pairs ys) :
    xs = ys := by
  induction n generalizing xs ys with
  | zero => rw [List.length_eq_zero_iff.mp hx, List.length_eq_zero_iff.mp hy]
  | succ n ih =>
    rcases xs with _ | ⟨a, _ | ⟨b, xs⟩⟩
    · simp at hx
    · simp at hx
      omega
    · rcases ys with _ | ⟨c, _ | ⟨d, ys⟩⟩
      · simp at hy
      · simp at hy
        omega
      · obtain ⟨a', ha, ha16, hda⟩ := nibble_of_digit a (hxs a (by simp))
        obtain ⟨b', hb, hb16, hdb⟩ := nibble_of_digit b (hxs b (by simp))
        obtain ⟨c', hc, hc16, hdc⟩ := nibble_of_digit c (hys c (by simp))
        obtain ⟨d', hd, hd16, hdd⟩ := nibble_of_digit d (hys d (by simp))
        have hxs' : ∀ b ∈ xs, nxr_core.cas.is_hex_digit b = true :=
          fun b hb => hxs b (by simp [hb])
        have hys' : ∀ b ∈ ys, nxr_core.cas.is_hex_digit b = true :=
          fun b hb => hys b (by simp [hb])
        have hlx : xs.length = 2 * n := by
          simp at hx
          omega
        have hly : ys.length = 2 * n := by
          simp at hy
          omega
        obtain ⟨rx, hrx, -⟩ := decode_pairs_length n xs hlx hxs'
        obtain ⟨ry, hry, -⟩ := decode_pairs_length n ys hly hys'
        simp only [decode_pairs, ha, hb, hc, hd, hrx, hry, Option.bind_eq_bind, Option.bind_some,
          Option.some.injEq, List.cons.injEq] at h
        obtain ⟨hac, hbd⟩ := pair_inj ha16 hb16 hc16 hd16 h.1
        have hrest := ih hlx hly hxs' hys' (by rw [hrx, hry, h.2])
        rw [← hda, ← hdb, ← hdc, ← hdd, hac, hbd, hrest]

theorem decode_hex_text (digest : Digest) :
    decode_hash_hex (nxr_task.artifact.hex_text digest) = decode_pairs digest.hex := by
  unfold decode_hash_hex
  rw [nxr_task.artifact.as_bytes_hex_text, digest.length]
  have hall : digest.hex.all is_ascii_hexdigit = true := by
    have hhex := nxr_task.artifact.hex_text_is_hex digest
    rw [nxr_task.artifact.is_hex_digest, nxr_task.artifact.as_bytes_hex_text,
      Bool.and_eq_true] at hhex
    exact hhex.2
  rw [hall]
  rfl

def raw (digest : Digest) : Bytes := (decode_pairs digest.hex).getD (List.replicate 32 0)

theorem raw_length (digest : Digest) : (raw digest).length = 32 := by
  obtain ⟨bytes, hbytes, hlength⟩ := decode_pairs_length 32 digest.hex digest.length digest.digits
  rw [raw, hbytes]
  exact hlength

theorem raw_inj {x y : Digest} (h : raw x = raw y) : x = y := by
  obtain ⟨bx, hbx, -⟩ := decode_pairs_length 32 x.hex x.length x.digits
  obtain ⟨bz, hby, -⟩ := decode_pairs_length 32 y.hex y.length y.digits
  rw [raw, raw, hbx, hby, Option.getD_some, Option.getD_some] at h
  apply Digest.ext
  apply decode_pairs_inj 32 x.length y.length x.digits y.digits
  rw [hbx, hby, h]

variable {content : Bytes}

theorem content_hash_raw {hash : Bytes → Digest} {entry : FingerprintEntry}
    (h : entry.content_hash = hex_digest hash content) :
    entry.content_hash_bytes = raw (hash content) := by
  rw [FingerprintEntry.content_hash_bytes, h, hex_digest, decode_hex_text]
  rfl

/-! ## The digest over the files -/

def frame (file : String × Bytes) : Bytes := as_bytes file.1 ++ [0] ++ file.2

def Framed (file : String × Bytes) : Prop := (0 : UInt8) ∉ as_bytes file.1 ∧ file.2.length = 32

/-- A file is read off the start. -/
theorem frame_inj {x y : String × Bytes} (hx : Framed x) (hy : Framed y) {rest rest' : Bytes}
    (h : frame x ++ rest = frame y ++ rest') : x = y ∧ rest = rest' := by
  have hpath : ∀ {z : String × Bytes}, Framed z → ∀ tail,
      (frame z ++ tail).takeWhile (· ≠ 0) = as_bytes z.1 := by
    intro z hz tail
    unfold frame
    rw [List.append_assoc, List.append_assoc, List.takeWhile_append_of_pos]
    · simp
    · intro b hb
      simp only [decide_eq_true_eq]
      rintro rfl
      exact hz.1 hb
  have hpaths := hpath hx rest
  rw [h, hpath hy rest'] at hpaths
  have hname := nxr_task.artifact.as_bytes_inj hpaths
  unfold frame at h
  rw [hname, List.append_assoc, List.append_assoc (as_bytes x.1 ++ [0]),
    List.append_cancel_left_eq] at h
  obtain ⟨hhash, hrest⟩ := List.append_inj h (by rw [hx.2, hy.2])
  exact ⟨Prod.ext hname.symm hhash, hrest⟩

theorem frames_inj {xs ys : List (String × Bytes)} (hx : ∀ x ∈ xs, Framed x)
    (hy : ∀ y ∈ ys, Framed y) (h : xs.flatMap frame = ys.flatMap frame) : xs = ys := by
  have hnonempty : ∀ (x : String × Bytes) (rest : Bytes), frame x ++ rest ≠ [] := by
    intro x rest
    simp [frame]
  induction xs generalizing ys with
  | nil =>
    cases ys with
    | nil => rfl
    | cons y ys =>
      rw [List.flatMap_cons] at h
      exact absurd h.symm (hnonempty _ _)
  | cons x xs ih =>
    cases ys with
    | nil =>
      rw [List.flatMap_cons] at h
      exact absurd h (hnonempty _ _)
    | cons y ys =>
      rw [List.flatMap_cons, List.flatMap_cons] at h
      obtain ⟨hhead, hrest⟩ := frame_inj (hx x (by simp)) (hy y (by simp)) h
      rw [hhead, ih (fun z hz => hx z (by simp [hz])) (fun z hz => hy z (by simp [hz])) hrest]

def frames (entries : BTreeMap String FingerprintEntry) (lock_file : Option FingerprintEntry) :
    List (String × Bytes) :=
  entries.toList.map (fun entry => (entry.1, entry.2.content_hash_bytes)) ++
    (lock_file.map fun lock => ("flake.lock", lock.content_hash_bytes)).toList

theorem aggregate_eq (hash : Bytes → Digest) (entries : BTreeMap String FingerprintEntry)
    (lock_file : Option FingerprintEntry) :
    aggregate_fingerprint hash entries lock_file =
      hex_digest hash ((frames entries lock_file).flatMap frame) := by
  unfold aggregate_fingerprint frames
  rw [List.flatMap_append, List.flatMap_map]
  cases lock_file with
  | none => rfl
  | some lock => simp [entry_bytes, frame]

/-- The entries and the lock are told apart by their paths. -/
theorem frames_split {entries entries' : BTreeMap String FingerprintEntry}
    {lock lock' : Option FingerprintEntry} (hlock : "flake.lock" ∉ entries)
    (hlock' : "flake.lock" ∉ entries') (h : frames entries lock = frames entries' lock') :
    entries.toList.map (fun entry => (entry.1, entry.2.content_hash_bytes)) =
      entries'.toList.map (fun entry => (entry.1, entry.2.content_hash_bytes)) ∧
    lock.map (·.content_hash_bytes) = lock'.map (·.content_hash_bytes) := by
  have hentries : ∀ {m : BTreeMap String FingerprintEntry}, "flake.lock" ∉ m →
      ∀ file ∈ m.toList.map (fun entry => (entry.1, entry.2.content_hash_bytes)),
        file.1 ≠ "flake.lock" := by
    intro m hm file hfile he
    obtain ⟨entry, hentry, rfl⟩ := List.mem_map.mp hfile
    apply hm
    rw [mem_iff_get]
    exact ⟨entry.2, he ▸ Std.ExtTreeMap.mem_toList_iff_getElem?_eq_some.mp hentry⟩
  have hkeep : ∀ {m : BTreeMap String FingerprintEntry} (l : Option FingerprintEntry),
      "flake.lock" ∉ m → (frames m l).filter (fun file => file.1 ≠ "flake.lock") =
        m.toList.map (fun entry => (entry.1, entry.2.content_hash_bytes)) := by
    intro m l hm
    unfold frames
    rw [List.filter_append, List.filter_eq_self.mpr (by simpa using hentries hm)]
    cases l <;> simp
  have hdrop : ∀ {m : BTreeMap String FingerprintEntry} (l : Option FingerprintEntry),
      "flake.lock" ∉ m → (frames m l).filter (fun file => file.1 = "flake.lock") =
        (l.map fun lock => ("flake.lock", lock.content_hash_bytes)).toList := by
    intro m l hm
    unfold frames
    rw [List.filter_append, List.filter_eq_nil_iff.mpr (by simpa using hentries hm)]
    cases l <;> simp
  refine ⟨?_, ?_⟩
  · rw [← hkeep lock hlock, h, hkeep lock' hlock']
  · have hlocks := hdrop lock hlock
    rw [h, hdrop lock' hlock'] at hlocks
    cases lock <;> cases lock' <;> simp_all

/-! ## The walk -/

/-- No part of the path is ignored: every part but the last is a directory. -/
def Kept (filter : WalkFilter) (dir relative : List String) : Prop :=
  ∀ before name after, relative = before ++ name :: after →
    should_ignore filter (!after.isEmpty) (dir ++ before ++ [name]) = false

/-- The path leads, through directories that are not ignored, to a regular `nix` file that is not.
-/
structure NixFile (filter : WalkFilter) (tree : Node) (relative : List String) (content : Bytes) :
    Prop where
  found : tree.get (to_path relative) = some (.File content)
  nix : is_nix_file relative = true
  kept : Kept filter [] relative

section Walk

variable {filter : WalkFilter}

theorem utf8_name_eq {name : file_tree.Name} {text : String} (h : utf8_name name = some text) :
    as_bytes text = name := by
  unfold utf8_name String.fromUTF8? at h
  split at h
  · rw [← Option.some.inj h]
    simp [as_bytes, String.fromUTF8]
  · cases h

theorem utf8_name_as_bytes (text : String) : utf8_name (as_bytes text) = some text := by
  have hbytes : ByteArray.mk (as_bytes text).toArray = text.toByteArray := by
    unfold as_bytes
    simp
  unfold utf8_name String.fromUTF8?
  rw [hbytes, dif_pos text.isValidUTF8]
  rfl

theorem lookup_of_mem {entries : List (file_tree.Name × Node)} {name : file_tree.Name}
    {node : Node} (hnodup : (entries.map Prod.fst).Nodup) (h : (name, node) ∈ entries) :
    entries.lookup name = some node := by
  induction entries with
  | nil => simp at h
  | cons head rest ih =>
    obtain ⟨other, first⟩ := head
    rw [file_tree.Node.lookup_cons_if]
    rw [List.map_cons, List.nodup_cons] at hnodup
    rcases List.mem_cons.mp h with he | hmem
    · cases he
      rw [if_pos rfl]
    · rw [if_neg, ih hnodup.2 hmem]
      rintro rfl
      exact hnodup.1 (List.mem_map.mpr ⟨(name, node), hmem, rfl⟩)

theorem kept_cons {dir : List String} {name : String} {after : List String} :
    Kept filter dir (name :: after) ↔
      should_ignore filter (!after.isEmpty) (dir ++ [name]) = false ∧
        Kept filter (dir ++ [name]) after := by
  constructor
  · intro h
    refine ⟨by simpa using h [] name after rfl, fun before other rest he => ?_⟩
    have hother := h (name :: before) other rest (by rw [he]; rfl)
    simpa using hother
  · rintro ⟨hname, hafter⟩ before other rest he
    rcases before with _ | ⟨first, before⟩
    · obtain ⟨rfl, rfl⟩ := List.cons.inj he
      simpa using hname
    · obtain ⟨rfl, hrest⟩ := List.cons.inj he
      have hother := hafter before other rest hrest
      simpa using hother

theorem kept_nil {dir : List String} : Kept filter dir [] := by
  intro before name after he
  simp at he

theorem is_dir_of_get {node : Node} {after : List String} {content : Bytes}
    (h : node.get (to_path after) = some (.File content)) : is_dir node = !after.isEmpty := by
  cases after with
  | nil =>
    rw [to_path, List.map_nil, file_tree.Node.get_nil, Option.some.injEq] at h
    rw [h]
    rfl
  | cons name after =>
    cases node with
    | Dir entries => rfl
    | File bytes => simp [to_path, file_tree.Node.get] at h
    | Link target => simp [to_path, file_tree.Node.get] at h

def Found (filter : WalkFilter) (dir : List String) (node : Node) (relative : List String)
    (content : Bytes) : Prop :=
  ∃ after, relative = dir ++ after ∧ node.get (to_path after) = some (.File content) ∧
    is_nix_file relative = true ∧ Kept filter dir after

mutual

theorem mem_walk_node : ∀ (node : Node), node.Valid → ∀ (dir relative : List String)
    (content : Bytes), (relative, content) ∈ walk_node filter dir node ↔
      Found filter dir node relative content
  | .File bytes, _, dir, relative, content => by
    rw [walk_node]
    constructor
    · intro h
      split at h
      · rename_i hnix
        rw [List.mem_singleton, Prod.mk.injEq] at h
        obtain ⟨rfl, rfl⟩ := h
        exact ⟨[], by simp, by simp [to_path], hnix, kept_nil⟩
      · simp at h
    · rintro ⟨after, hrelative, hget, hnix, -⟩
      cases after with
      | nil =>
        rw [List.append_nil] at hrelative
        rw [to_path, List.map_nil, file_tree.Node.get_nil, Option.some.injEq] at hget
        cases hget
        rw [← hrelative, if_pos hnix]
        simp
      | cons name after => simp [to_path, file_tree.Node.get] at hget
  | .Link target, _, dir, relative, content => by
    rw [walk_node]
    constructor
    · intro h
      simp at h
    · rintro ⟨after, -, hget, -⟩
      cases after <;> simp [to_path, file_tree.Node.get] at hget
  | .Dir entries, hvalid, dir, relative, content => by
    obtain ⟨hnodup, hbelow⟩ := file_tree.Node.valid_dir_iff.mp hvalid
    rw [walk_node, mem_walk_nix_files entries hbelow]
    constructor
    · rintro ⟨text, node, after, hmem, hrelative, hget, hnix, hkept⟩
      refine ⟨text :: after, hrelative, ?_, hnix, hkept⟩
      rw [to_path, List.map_cons, file_tree.Node.get_dir, lookup_of_mem hnodup hmem]
      exact hget
    · rintro ⟨after, hrelative, hget, hnix, hkept⟩
      cases after with
      | nil => simp [to_path] at hget
      | cons text after =>
        rw [to_path, List.map_cons, file_tree.Node.get_dir] at hget
        obtain ⟨node, hlookup, hget⟩ := Option.bind_eq_some_iff.mp hget
        exact ⟨text, node, after, file_tree.Node.mem_of_lookup hlookup, hrelative, hget, hnix,
          hkept⟩

theorem mem_walk_nix_files : ∀ (entries : List (file_tree.Name × Node)),
    (∀ entry ∈ entries, entry.2.Valid) → ∀ (dir relative : List String) (content : Bytes),
      ((relative, content) ∈ walk_nix_files filter dir entries ↔
        ∃ text node after, (as_bytes text, node) ∈ entries ∧ relative = dir ++ text :: after ∧
          node.get (to_path after) = some (.File content) ∧ is_nix_file relative = true ∧
          Kept filter dir (text :: after))
  | [], _, dir, relative, content => by simp [walk_nix_files]
  | (name, node) :: rest, hvalid, dir, relative, content => by
    have hnode := mem_walk_node node (hvalid (name, node) (by simp))
    have hrest := mem_walk_nix_files rest (fun entry he => hvalid entry (by simp [he])) dir relative
      content
    rw [walk_nix_files, List.mem_append, hrest]
    constructor
    · rintro (h | ⟨text, child, after, hmem, h⟩)
      · split at h
        · simp at h
        · rename_i text htext
          split at h
          · simp at h
          · rename_i hignored
            obtain ⟨after, hrelative, hget, hnix, hkept⟩ := (hnode _ _ _).mp h
            refine ⟨text, node, after, by simp [utf8_name_eq htext], by simpa using hrelative, hget,
              hnix, kept_cons.mpr ⟨?_, hkept⟩⟩
            rw [← is_dir_of_get hget]
            simpa using hignored
      · exact ⟨text, child, after, by simp [hmem], h⟩
    · rintro ⟨text, child, after, hmem, hrelative, hget, hnix, hkept⟩
      rcases List.mem_cons.mp hmem with he | hmem
      · left
        obtain ⟨rfl, rfl⟩ := Prod.mk.inj he
        obtain ⟨hignored, hbelow⟩ := kept_cons.mp hkept
        rw [utf8_name_as_bytes]
        dsimp only
        rw [is_dir_of_get hget, hignored, if_neg (by simp)]
        exact (hnode _ _ _).mpr ⟨after, by simpa using hrelative, hget, hnix, hbelow⟩
      · exact .inr ⟨text, child, after, hmem, hrelative, hget, hnix, hkept⟩

end

end Walk

variable {relative : List String}

theorem mem_nix_files {scan : Scan} {text : String} : (relative, content) ∈ scan.nix_files text ↔
      NixFile (scan.filter text) scan.disk.tree relative content := by
  have hvalid := scan.disk.valid
  have hfile : (relative, content) ∈ scan.nix_files text ↔
      ∃ entries, scan.disk.tree = .Dir entries ∧
        Found (scan.filter text) [] (.Dir entries) relative content := by
    unfold Scan.nix_files
    split
    · rename_i entries htree
      rw [htree] at hvalid
      have hwalk := @mem_walk_node (scan.filter text) (.Dir entries) hvalid [] relative content
      rw [walk_node] at hwalk
      rw [hwalk, htree]
      simp
    · rename_i hdir
      constructor
      · intro h
        simp at h
      · rintro ⟨entries, htree, -⟩
        exact absurd htree (hdir entries)
  rw [hfile]
  constructor
  · rintro ⟨entries, htree, after, hrelative, hget, hnix, hkept⟩
    rw [List.nil_append] at hrelative
    subst hrelative
    exact ⟨by rw [htree]; exact hget, hnix, hkept⟩
  · rintro ⟨hget, hnix, hkept⟩
    have hne : relative ≠ [] := by
      rintro rfl
      simp [is_nix_file] at hnix
    cases htree : scan.disk.tree with
    | Dir entries =>
      rw [htree] at hget
      exact ⟨entries, rfl, relative, rfl, hget, hnix, hkept⟩
    | File bytes =>
      rw [htree] at hget
      cases relative with
      | nil => exact absurd rfl hne
      | cons name rest => simp [to_path, file_tree.Node.get] at hget
    | Link target =>
      rw [htree] at hget
      cases relative with
      | nil => exact absurd rfl hne
      | cons name rest => simp [to_path, file_tree.Node.get] at hget

/-! ## Paths as texts -/

variable {filter : WalkFilter}

theorem NixFile.names {scan : Scan} (h : NixFile filter scan.disk.tree relative content) :
    ∀ name ∈ relative, '/' ∉ name.toList ∧ (0 : UInt8) ∉ as_bytes name := by
  intro name hname
  exact scan.disk.names _ _ h.found (as_bytes name) (List.mem_map_of_mem hname) name
    (utf8_name_as_bytes name)

theorem NixFile.nonempty {tree : Node}
    (h : NixFile filter tree relative content) : relative ≠ [] := by
  rintro rfl
  have hnix := h.nix
  simp [is_nix_file] at hnix

theorem join_names_inj {xs ys : List String} (hx : xs ≠ []) (hy : ys ≠ [])
    (hxs : ∀ name ∈ xs, '/' ∉ name.toList) (hys : ∀ name ∈ ys, '/' ∉ name.toList)
    (h : join_names xs = join_names ys) : xs = ys := by
  rw [← std_str.split_intercalate hx hxs, ← std_str.split_intercalate hy hys]
  unfold join_names at h
  rw [h]

theorem join_names_nul {names : List String} (h : ∀ name ∈ names, (0 : UInt8) ∉ as_bytes name) :
    (0 : UInt8) ∉ as_bytes (join_names names) := by
  unfold join_names
  induction names with
  | nil => decide
  | cons name rest ih =>
    cases rest with
    | nil =>
      rw [String.intercalate_singleton]
      exact h name (by simp)
    | cons other rest =>
      rw [String.intercalate_cons_cons, nxr_task.artifact.as_bytes_append,
        nxr_task.artifact.as_bytes_append]
      simp only [List.mem_append, not_or]
      refine ⟨⟨h name (by simp), by decide⟩, ih fun x hx => h x (by simp [hx])⟩

theorem NixFile.not_lock {scan : Scan} (h : NixFile filter scan.disk.tree relative content) :
    join_names relative ≠ "flake.lock" := by
  intro hlock
  have hone : relative = ["flake.lock"] := by
    apply join_names_inj h.nonempty (by simp) (fun name hname => (h.names name hname).1)
    · decide
    · exact hlock
  have hnix := h.nix
  rw [hone] at hnix
  exact absurd hnix (by decide)

/-! ## What the index keeps -/

structure Observed (seen : String → Metadata → Bytes → Prop) : Prop where
  same : ∀ path metadata content content', seen path metadata content →
    seen path metadata content' → content = content'
  uniform : ∀ path path' metadata metadata' content content', seen path metadata content →
    seen path' metadata' content' → metadata.changed_ns.isSome = metadata'.changed_ns.isSome

def Scan.Seen (seen : String → Metadata → Bytes → Prop) (scan : Scan) : Prop :=
  ∀ relative content, scan.disk.read (to_path relative) = some content →
    seen (join_names relative) (scan.disk.metadata (to_path relative)) content

section Index

variable {hash : Bytes → Digest} {seen : String → Metadata → Bytes → Prop}

def Truthful (hash : Bytes → Digest) (seen : String → Metadata → Bytes → Prop) (path : String)
    (entry : FingerprintEntry) : Prop :=
  ∃ content, seen path entry.toMetadata content ∧ entry.content_hash = hex_digest hash content

structure TruthfulIndex (hash : Bytes → Digest) (seen : String → Metadata → Bytes → Prop)
    (index : WorkspaceFingerprintIndex) : Prop where
  entries : ∀ (path : String) (entry : FingerprintEntry), index.entries[path]? = some entry →
    Truthful hash seen path entry
  lock : ∀ entry, index.lock_file = some entry → Truthful hash seen "flake.lock" entry

theorem metadata_eq (hseen : Observed seen) {path path' : String} {entry : FingerprintEntry}
    {metadata : Metadata} {content content' : Bytes} (hentry : seen path entry.toMetadata content)
    (hfile : seen path' metadata content') (h : entry.matches_metadata metadata = true) :
    entry.toMetadata = metadata := by
  have huniform := hseen.uniform _ _ _ _ _ _ hentry hfile
  obtain ⟨⟨identity, size, modified, changed⟩, digest⟩ := entry
  obtain ⟨identity', size', modified', changed'⟩ := metadata
  simp only [FingerprintEntry.matches_metadata, Bool.and_eq_true, beq_iff_eq] at h
  obtain ⟨⟨⟨rfl, rfl⟩, rfl⟩, hchanged⟩ := h
  cases changed <;> cases changed' <;> simp_all [ctime_matches]

theorem entry_for_file (hseen : Observed seen) {path : String} {metadata : Metadata}
    {content : Bytes} {prior : Option FingerprintEntry} (hfile : seen path metadata content)
    (hprior : ∀ entry, prior = some entry → Truthful hash seen path entry) :
    (fingerprint_entry_for_file hash metadata content prior).content_hash =
        hex_digest hash content ∧
      (fingerprint_entry_for_file hash metadata content prior).toMetadata = metadata := by
  unfold fingerprint_entry_for_file
  split
  · rename_i entry hentry
    obtain ⟨hsome, hmatches⟩ := Option.filter_eq_some_iff.mp hentry
    obtain ⟨old, hold, hhash⟩ := hprior entry hsome
    have hmetadata := metadata_eq hseen hold hfile hmatches
    rw [hmetadata] at hold
    rw [hhash, hseen.same _ _ _ _ hold hfile]
    exact ⟨rfl, hmetadata⟩
  · exact ⟨rfl, rfl⟩

theorem foldl_insert_some {γ β : Type} {key : γ → String} {value : γ → β} {l : List γ}
    {m : BTreeMap String β} {k : String} {w : β}
    (h : (l.foldl (fun m x => m.insert (key x) (value x)) m)[k]? = some w) :
    (∃ x ∈ l, key x = k ∧ value x = w) ∨ m[k]? = some w := by
  induction l generalizing m with
  | nil => exact .inr h
  | cons x l ih =>
    rcases ih h with ⟨y, hy, hkey⟩ | hget
    · exact .inl ⟨y, by simp [hy], hkey⟩
    · rw [getElem?_insert_if] at hget
      split at hget
      · rename_i hkey
        exact .inl ⟨x, by simp, hkey, Option.some.inj hget⟩
      · exact .inr hget

theorem foldl_insert_isSome {γ β : Type} {key : γ → String} {value : γ → β} {l : List γ}
    {m : BTreeMap String β} {k : String} (h : k ∈ l.map key ∨ (m[k]?).isSome) :
    ((l.foldl (fun m x => m.insert (key x) (value x)) m)[k]?).isSome := by
  induction l generalizing m with
  | nil => simpa using h
  | cons x l ih =>
    apply ih
    rw [getElem?_insert_if]
    rcases h with h | h
    · rw [List.map_cons, List.mem_cons] at h
      rcases h with rfl | h
      · simp
      · exact .inl h
    · right
      split
      · rfl
      · exact h

/-! ### The entries of a scan -/

section Scan

variable {scan : Scan} {text : String} {prior : Option WorkspaceFingerprintIndex}

theorem entries_some {path : String} {entry : FingerprintEntry}
    (h : (scan.entries hash text prior)[path]? = some entry) :
    ∃ relative content, NixFile (scan.filter text) scan.disk.tree relative content ∧
      join_names relative = path ∧
      fingerprint_entry_for_file hash (scan.disk.metadata (to_path relative)) content
        (prior.bind fun index => index.entries[path]?) = entry := by
  unfold Scan.entries at h
  rcases foldl_insert_some h with ⟨⟨relative, content⟩, hfile, hkey, hvalue⟩ | hnone
  · dsimp only at hkey hvalue
    rw [hkey] at hvalue
    exact ⟨relative, content, mem_nix_files.mp hfile, hkey, hvalue⟩
  · simp at hnone

theorem entries_isSome {relative : List String} {content : Bytes}
    (h : NixFile (scan.filter text) scan.disk.tree relative content) :
    ((scan.entries hash text prior)[join_names relative]?).isSome := by
  unfold Scan.entries
  apply foldl_insert_isSome
  left
  exact List.mem_map.mpr ⟨(relative, content), mem_nix_files.mpr h, rfl⟩

theorem entries_truthful (hseen : Observed seen) (hscan : scan.Seen seen)
    (hprior : ∀ index, prior = some index → TruthfulIndex hash seen index) {path : String}
    {entry : FingerprintEntry} (h : (scan.entries hash text prior)[path]? = some entry) :
    ∃ relative content, NixFile (scan.filter text) scan.disk.tree relative content ∧
      join_names relative = path ∧ seen path entry.toMetadata content ∧
      entry.content_hash = hex_digest hash content := by
  obtain ⟨relative, content, hfile, hpath, hentry⟩ := entries_some h
  have hread := hscan relative content (scan.disk.regular _ _ hfile.found)
  rw [hpath] at hread
  obtain ⟨hhash, hmetadata⟩ := @entry_for_file hash seen hseen _ _ _ _ hread fun old hold => by
    obtain ⟨index, hindex, hget⟩ := Option.bind_eq_some_iff.mp hold
    exact (hprior index hindex).entries path old hget
  rw [hentry] at hhash hmetadata
  exact ⟨relative, content, hfile, hpath, by rw [hmetadata]; exact hread, hhash⟩

theorem lock_truthful (hseen : Observed seen) (hscan : scan.Seen seen)
    (hprior : ∀ index, prior = some index → TruthfulIndex hash seen index) :
    (scan.lock_file hash prior).map (·.content_hash) =
        scan.lock.map (hex_digest hash) ∧
      ∀ entry, scan.lock_file hash prior = some entry →
        Truthful hash seen "flake.lock" entry := by
  unfold Scan.lock_file
  rcases hlock : scan.lock with _ | content
  · exact ⟨rfl, fun entry h => by cases h⟩
  · have hread := hscan ["flake.lock"] content hlock
    rw [show join_names ["flake.lock"] = "flake.lock" from String.intercalate_singleton] at hread
    obtain ⟨hhash, hmetadata⟩ := @entry_for_file hash seen hseen _ _ _ _ hread fun old hold => by
      obtain ⟨index, hindex, hget⟩ := Option.bind_eq_some_iff.mp hold
      exact (hprior index hindex).lock old hget
    refine ⟨by rw [Option.map_some, Option.map_some, Option.map_some, hhash], ?_⟩
    intro entry h
    rw [Option.map_some, Option.some.injEq] at h
    rw [← h]
    exact ⟨content, by rw [hmetadata]; exact hread, hhash⟩

end Scan

/-! ## Equal fingerprints -/

structure SameNix (scan scan' : Scan) (text text' : String) : Prop where
  files : ∀ relative content, NixFile (scan.filter text) scan.disk.tree relative content ↔
    NixFile (scan'.filter text') scan'.disk.tree relative content
  lock : scan.lock = scan'.lock

theorem same_path {scan scan' : Scan} {filter filter' : WalkFilter}
    {relative relative' : List String} {content content' : Bytes} (h : NixFile filter scan.disk.tree relative content)
    (h' : NixFile filter' scan'.disk.tree relative' content')
    (hpath : join_names relative = join_names relative') : relative = relative' :=
  join_names_inj h.nonempty h'.nonempty (fun name hname => (h.names name hname).1)
    (fun name hname => (h'.names name hname).1) hpath

def hashed (entries : BTreeMap String FingerprintEntry) : List (String × Bytes) :=
  entries.toList.map fun entry => (entry.1, entry.2.content_hash_bytes)

theorem mem_hashed {entries : BTreeMap String FingerprintEntry} {path : String} {bytes : Bytes} :
    (path, bytes) ∈ hashed entries ↔
      ∃ entry, entries[path]? = some entry ∧ entry.content_hash_bytes = bytes := by
  unfold hashed
  rw [List.mem_map]
  constructor
  · rintro ⟨⟨key, entry⟩, hmem, he⟩
    obtain ⟨rfl, rfl⟩ := Prod.mk.inj he
    exact ⟨entry, Std.ExtTreeMap.mem_toList_iff_getElem?_eq_some.mp hmem, rfl⟩
  · rintro ⟨entry, hget, rfl⟩
    exact ⟨(path, entry), Std.ExtTreeMap.mem_toList_iff_getElem?_eq_some.mpr hget, rfl⟩

section Same

variable {scan scan' : Scan} {text text' : String}
  {prior prior' : Option WorkspaceFingerprintIndex}

theorem mem_hashed_iff (hseen : Observed seen) (hscan : scan.Seen seen)
    (hprior : ∀ index, prior = some index → TruthfulIndex hash seen index) {path : String}
    {bytes : Bytes} : (path, bytes) ∈ hashed (scan.entries hash text prior) ↔
      ∃ relative content, NixFile (scan.filter text) scan.disk.tree relative content ∧
        join_names relative = path ∧ raw (hash content) = bytes := by
  rw [mem_hashed]
  constructor
  · rintro ⟨entry, hget, rfl⟩
    obtain ⟨relative, content, hfile, hpath, -, hhash⟩ :=
      entries_truthful hseen hscan hprior hget
    exact ⟨relative, content, hfile, hpath, (content_hash_raw hhash).symm⟩
  · rintro ⟨relative, content, hfile, rfl, rfl⟩
    obtain ⟨entry, hget⟩ := Option.isSome_iff_exists.mp
      (@entries_isSome hash scan text prior _ _ hfile)
    obtain ⟨relative', content', hfile', hpath, -, hhash⟩ :=
      entries_truthful hseen hscan hprior hget
    have hrelative := same_path hfile' hfile hpath
    subst hrelative
    have hcontent := hfile'.found.symm.trans hfile.found
    cases hcontent
    exact ⟨entry, hget, content_hash_raw hhash⟩

theorem all_framed (hseen : Observed seen) (hscan : scan.Seen seen)
    (hprior : ∀ index, prior = some index → TruthfulIndex hash seen index) :
    ∀ file ∈ frames (scan.entries hash text prior) (scan.lock_file hash prior), Framed file := by
  rintro ⟨path, bytes⟩ hfile
  unfold frames at hfile
  rcases List.mem_append.mp hfile with hmem | hmem
  · obtain ⟨relative, content, hnix, rfl, rfl⟩ := (mem_hashed_iff hseen hscan hprior).mp hmem
    exact ⟨join_names_nul fun name hname => (hnix.names name hname).2, raw_length _⟩
  · obtain ⟨lock, hlock, hbytes⟩ : ∃ lock, scan.lock_file hash prior = some lock ∧
        ("flake.lock", lock.content_hash_bytes) = (path, bytes) := by
      simpa [Option.mem_toList] using hmem
    obtain ⟨rfl, rfl⟩ := Prod.mk.inj hbytes
    obtain ⟨content, -, hhash⟩ := (lock_truthful hseen hscan hprior).2 lock hlock
    have hnul : (0 : UInt8) ∉ as_bytes "flake.lock" := by decide
    refine ⟨hnul, ?_⟩
    rw [content_hash_raw hhash]
    exact raw_length _

theorem not_lock (hseen : Observed seen) (hscan : scan.Seen seen)
    (hprior : ∀ index, prior = some index → TruthfulIndex hash seen index) :
    "flake.lock" ∉ scan.entries hash text prior := by
  intro hmem
  obtain ⟨entry, hget⟩ := mem_iff_get.mp hmem
  obtain ⟨relative, content, hfile, hpath, -⟩ := entries_truthful hseen hscan hprior hget
  exact hfile.not_lock hpath

theorem lock_raw (hseen : Observed seen) (hscan : scan.Seen seen)
    (hprior : ∀ index, prior = some index → TruthfulIndex hash seen index) :
    (scan.lock_file hash prior).map (·.content_hash_bytes) =
      scan.lock.map fun content => raw (hash content) := by
  have hhashes := (lock_truthful hseen hscan hprior).1
  rcases hfile : scan.lock_file hash prior with _ | entry
  · rw [hfile] at hhashes
    rcases hlock : scan.lock with _ | content
    · rfl
    · rw [hlock] at hhashes
      cases hhashes
  · rw [hfile] at hhashes
    rcases hlock : scan.lock with _ | content
    · rw [hlock] at hhashes
      cases hhashes
    · rw [hlock, Option.map_some, Option.map_some, Option.some.injEq] at hhashes
      rw [Option.map_some, Option.map_some, content_hash_raw hhashes]

def given (hash : Bytes → Digest) (scan : Scan) (text : String)
    (prior : Option WorkspaceFingerprintIndex) : Bytes :=
  (frames (scan.entries hash text prior) (scan.lock_file hash prior)).flatMap frame

theorem files_of_hashed {S : Set Bytes} (hinj : Set.InjOn hash S) (hseen : Observed seen)
    (hcontents : ∀ path metadata content, seen path metadata content → content ∈ S)
    (hscan : scan.Seen seen) (hscan' : scan'.Seen seen)
    (hprior : ∀ index, prior = some index → TruthfulIndex hash seen index)
    (hprior' : ∀ index, prior' = some index → TruthfulIndex hash seen index)
    (h : hashed (scan.entries hash text prior) = hashed (scan'.entries hash text' prior'))
    {relative : List String} {content : Bytes}
    (hfile : NixFile (scan.filter text) scan.disk.tree relative content) :
    NixFile (scan'.filter text') scan'.disk.tree relative content := by
  have hmem : (join_names relative, raw (hash content)) ∈ hashed (scan.entries hash text prior) :=
    (mem_hashed_iff hseen hscan hprior).mpr ⟨relative, content, hfile, rfl, rfl⟩
  rw [h] at hmem
  obtain ⟨relative', content', hfile', hpath, hbytes⟩ :=
    (mem_hashed_iff hseen hscan' hprior').mp hmem
  have hrelative := same_path hfile' hfile hpath
  subst hrelative
  have hin := hcontents _ _ _ (hscan _ _ (scan.disk.regular _ _ hfile.found))
  have hin' := hcontents _ _ _ (hscan' _ _ (scan'.disk.regular _ _ hfile'.found))
  rw [hinj hin' hin (raw_inj hbytes)] at hfile'
  exact hfile'

/-- The digest over two scans tells their files and locks apart. -/
theorem same_of_aggregate {S : Set Bytes} (hinj : Set.InjOn hash S) (hseen : Observed seen)
    (hcontents : ∀ path metadata content, seen path metadata content → content ∈ S)
    (hscan : scan.Seen seen) (hscan' : scan'.Seen seen)
    (hprior : ∀ index, prior = some index → TruthfulIndex hash seen index)
    (hprior' : ∀ index, prior' = some index → TruthfulIndex hash seen index)
    (hstream : given hash scan text prior ∈ S) (hstream' : given hash scan' text' prior' ∈ S)
    (h : aggregate_fingerprint hash (scan.entries hash text prior) (scan.lock_file hash prior) =
      aggregate_fingerprint hash (scan'.entries hash text' prior')
        (scan'.lock_file hash prior')) : SameNix scan scan' text text' := by
  rw [aggregate_eq, aggregate_eq] at h
  have hframes := frames_inj (all_framed hseen hscan hprior) (all_framed hseen hscan' hprior')
    (hinj hstream hstream' (nxr_task.artifact.hex_text_inj h))
  obtain ⟨hentries, hlocks⟩ := frames_split (not_lock hseen hscan hprior)
    (not_lock hseen hscan' hprior') hframes
  constructor
  · intro relative content
    constructor
    · exact files_of_hashed hinj hseen hcontents hscan hscan' hprior hprior' hentries
    · exact files_of_hashed hinj hseen hcontents hscan' hscan hprior' hprior hentries.symm
  · rw [lock_raw hseen hscan hprior, lock_raw hseen hscan' hprior'] at hlocks
    rcases hlock : scan.lock with _ | content <;> rcases hlock' : scan'.lock with _ | content'
    · rfl
    · rw [hlock, hlock'] at hlocks
      cases hlocks
    · rw [hlock, hlock'] at hlocks
      cases hlocks
    · rw [hlock, hlock', Option.map_some, Option.map_some, Option.some.injEq] at hlocks
      have hin := hcontents _ _ _ (hscan _ _ hlock)
      have hin' := hcontents _ _ _ (hscan' _ _ hlock')
      rw [hinj hin hin' (raw_inj hlocks)]

end Same

/-! ## Sequences of scans -/

theorem load_truthful {file : Option WorkspaceFingerprintIndex}
    (h : ∀ index, file = some index → TruthfulIndex hash seen index) :
    ∀ index, load_fingerprint_index file = some index → TruthfulIndex hash seen index := by
  intro index hload
  unfold load_fingerprint_index at hload
  exact h index (Option.filter_eq_some_iff.mp hload).1

theorem compute_uses (hash : Bytes → Digest) (scan : Scan) (text : String)
    (loaded : Option WorkspaceFingerprintIndex) :
    ∃ prior, (∀ index, prior = some index → loaded = some index) ∧
      (compute_workspace_fingerprint hash scan text loaded).1 =
        aggregate_fingerprint hash (scan.entries hash text prior) (scan.lock_file hash prior) ∧
      (compute_workspace_fingerprint hash scan text loaded).2.entries =
        scan.entries hash text prior ∧
      (compute_workspace_fingerprint hash scan text loaded).2.lock_file =
        scan.lock_file hash prior := by
  unfold compute_workspace_fingerprint
  dsimp only
  refine ⟨_, ?_, rfl, rfl, rfl⟩
  intro index h
  split at h
  · cases h
  · exact (Option.filter_eq_some_iff.mp h).1

theorem nix_tree_fingerprint_truthful (hseen : Observed seen)
    {file : Option WorkspaceFingerprintIndex}
    (hfile : ∀ index, file = some index → TruthfulIndex hash seen index) {scan : Scan}
    (hscan : scan.Seen seen) :
    ∀ index, (nix_tree_fingerprint hash file scan).2 = some index →
      TruthfulIndex hash seen index := by
  intro index h
  unfold nix_tree_fingerprint at h
  split at h
  · exact hfile index h
  · rename_i text htext
    obtain ⟨prior, hprior, -, hentries, hlock⟩ :=
      compute_uses hash scan text (load_fingerprint_index file)
    have htruthful : ∀ index, prior = some index → TruthfulIndex hash seen index :=
      fun index hindex => load_truthful hfile index (hprior index hindex)
    dsimp only at h
    rw [← Option.some.inj h]
    constructor
    · intro path entry hget
      rw [hentries] at hget
      obtain ⟨relative, content, -, -, hentry, hhash⟩ :=
        entries_truthful hseen hscan htruthful hget
      exact ⟨content, hentry, hhash⟩
    · intro entry hget
      rw [hlock] at hget
      exact (lock_truthful hseen hscan htruthful).2 entry hget

theorem index_after_truthful (hseen : Observed seen) {file : Option WorkspaceFingerprintIndex}
    (hfile : ∀ index, file = some index → TruthfulIndex hash seen index) {scans : List Scan}
    (hscans : ∀ scan ∈ scans, scan.Seen seen) :
    ∀ index, index_after hash file scans = some index → TruthfulIndex hash seen index := by
  induction scans generalizing file with
  | nil => exact hfile
  | cons scan scans ih =>
    exact ih (nix_tree_fingerprint_truthful hseen hfile (hscans scan (by simp)))
      fun other hother => hscans other (by simp [hother])

def given_bytes (hash : Bytes → Digest) (file : Option WorkspaceFingerprintIndex) (scan : Scan)
    (text : String) : Bytes :=
  let index := (compute_workspace_fingerprint hash scan text (load_fingerprint_index file)).2
  (frames index.entries index.lock_file).flatMap frame

structure Apart (hash : Bytes → Digest) (seen : String → Metadata → Bytes → Prop)
    (file : Option WorkspaceFingerprintIndex) (scans : List Scan) (S : Set Bytes) : Prop where
  injective : Set.InjOn hash S
  contents : ∀ path metadata content, seen path metadata content → content ∈ S
  streams : ∀ before scan after text, scans = before ++ scan :: after →
    scan.flake_nix = some text → given_bytes hash (index_after hash file before) scan text ∈ S

/-- Two scans with one fingerprint found the same `nix` files with the same contents, and the same
lock. -/
theorem equal_fingerprints_mean_equal_files (hseen : Observed seen)
    {file : Option WorkspaceFingerprintIndex} {scans : List Scan} {S : Set Bytes}
    (hfile : ∀ index, file = some index → TruthfulIndex hash seen index)
    (hscans : ∀ scan ∈ scans, scan.Seen seen) (hapart : Apart hash seen file scans S)
    {before after before' after' : List Scan} {scan scan' : Scan}
    (hsplit : scans = before ++ scan :: after) (hsplit' : scans = before' ++ scan' :: after')
    {fingerprint : String}
    (h : (nix_tree_fingerprint hash (index_after hash file before) scan).1 = some fingerprint)
    (h' : (nix_tree_fingerprint hash (index_after hash file before') scan').1 =
      some fingerprint) :
    ∃ text text', scan.flake_nix = some text ∧ scan'.flake_nix = some text' ∧
      SameNix scan scan' text text' := by
  have hpart : ∀ {before after scan}, scans = before ++ scan :: after →
      (nix_tree_fingerprint hash (index_after hash file before) scan).1 = some fingerprint →
      scan.Seen seen ∧ ∃ text prior, scan.flake_nix = some text ∧
        (∀ index, prior = some index → TruthfulIndex hash seen index) ∧
        given hash scan text prior ∈ S ∧
        aggregate_fingerprint hash (scan.entries hash text prior) (scan.lock_file hash prior) =
          fingerprint := by
    intro before after scan hsplit h
    have hbefore := @index_after_truthful hash seen hseen file hfile before
      fun other hother => hscans other (by rw [hsplit]; simp [hother])
    refine ⟨hscans scan (by rw [hsplit]; simp), ?_⟩
    unfold nix_tree_fingerprint at h
    split at h
    · cases h
    · rename_i text htext
      obtain ⟨prior, hprior, hresult, hentries, hlock⟩ :=
        compute_uses hash scan text (load_fingerprint_index (index_after hash file before))
      refine ⟨text, prior, htext, ?_, ?_, ?_⟩
      · exact fun index hindex => load_truthful hbefore index (hprior index hindex)
      · have hstream := hapart.streams before scan after text hsplit htext
        rw [given_bytes] at hstream
        rwa [hentries, hlock] at hstream
      · rw [← hresult]
        exact Option.some.inj h
  obtain ⟨hscan, text, prior, htext, hprior, hstream, hresult⟩ := hpart hsplit h
  obtain ⟨hscan', text', prior', htext', hprior', hstream', hresult'⟩ := hpart hsplit' h'
  exact ⟨text, text', htext, htext', same_of_aggregate hapart.injective hseen hapart.contents hscan
    hscan' hprior hprior' hstream hstream' (hresult.trans hresult'.symm)⟩

end Index

/-! ## A link beside flake.nix -/

def flake_source : String := "\x7b \x7d\n"

def flake_text : Bytes := as_bytes flake_source

def link_root : Node :=
  .Dir [(as_bytes "flake.nix", .File flake_text), (as_bytes "alias.nix", .Link [0x2F])]

theorem link_root_get {path : Path} {node : Node} (h : link_root.get path = some node) :
    path = [] ∨ path = [as_bytes "flake.nix"] ∧ node = .File flake_text ∨
      path = [as_bytes "alias.nix"] ∧ node = .Link [0x2F] := by
  rcases path with _ | ⟨name, rest⟩
  · exact .inl rfl
  · right
    unfold link_root at h
    rw [file_tree.Node.get_dir] at h
    obtain ⟨child, hlookup, hget⟩ := Option.bind_eq_some_iff.mp h
    have hmem := file_tree.Node.mem_of_lookup hlookup
    rcases List.mem_pair.mp hmem with he | he
    · obtain ⟨rfl, rfl⟩ := Prod.mk.inj he
      cases rest with
      | nil =>
        rw [file_tree.Node.get_nil, Option.some.injEq] at hget
        exact .inl ⟨rfl, hget.symm⟩
      | cons other rest => simp [file_tree.Node.get] at hget
    · obtain ⟨rfl, rfl⟩ := Prod.mk.inj he
      cases rest with
      | nil =>
        rw [file_tree.Node.get_nil, Option.some.injEq] at hget
        exact .inr ⟨rfl, hget.symm⟩
      | cons other rest => simp [file_tree.Node.get] at hget

/-- The link leads to a file with some content, which was changed at some time. -/
def link_tree (linked : Bytes) (changed : Nat) : FlakeTree where
  tree := link_root
  metadata := fun path =>
    if path = [as_bytes "alias.nix"] then ⟨some ⟨1, 2⟩, 1, changed, some changed⟩
    else ⟨some ⟨1, 1⟩, 4, 0, some 0⟩
  read := fun path =>
    if path = [as_bytes "flake.nix"] then some flake_text
    else if path = [as_bytes "alias.nix"] then some linked
    else none
  valid := by
    rw [link_root, file_tree.Node.valid_dir_iff]
    refine ⟨by decide, ?_⟩
    intro entry he
    rcases List.mem_pair.mp he with rfl | rfl <;> trivial
  names := by
    intro path node hget name hname text htext
    have hname : as_bytes text = as_bytes "flake.nix" ∨ as_bytes text = as_bytes "alias.nix" := by
      rw [utf8_name_eq htext]
      rcases link_root_get hget with rfl | ⟨rfl, -⟩ | ⟨rfl, -⟩
      · simp at hname
      · exact .inl (List.mem_singleton.mp hname)
      · exact .inr (List.mem_singleton.mp hname)
    rcases hname with h | h
    · rw [nxr_task.artifact.as_bytes_inj h]
      decide
    · rw [nxr_task.artifact.as_bytes_inj h]
      decide
  regular := by
    intro path content hget
    rcases link_root_get hget with rfl | ⟨rfl, hfile⟩ | ⟨rfl, hfile⟩
    · cases hget
    · cases hfile
      rfl
    · cases hfile

def link_scan (linked : Bytes) (changed : Nat) : Scan where
  env := ⟨0, none, none, true⟩
  disk := link_tree linked changed
  root := ["", "flake"]
  is_match := fun _ => false
  full_walk := false

def length_digest (bytes : Bytes) : Digest where
  hex := List.replicate 64 (0x30 + UInt8.ofNat (bytes.length % 10))
  length := by simp
  digits := by
    intro b hb
    rw [(List.mem_replicate.mp hb).2]
    have hall : ∀ k : Fin 10, nxr_core.cas.is_hex_digit (0x30 + UInt8.ofNat k) = true := by decide
    exact hall ⟨bytes.length % 10, Nat.mod_lt _ (by decide)⟩

def first_scan : Scan := link_scan (as_bytes "1") 1

def second_scan : Scan := link_scan (as_bytes "[ ]") 2

/-- What the two scans read. -/
def link_seen (path : String) (metadata : Metadata) (content : Bytes) : Prop :=
  path = "flake.nix" ∧ metadata = ⟨some ⟨1, 1⟩, 4, 0, some 0⟩ ∧ content = flake_text ∨
    path = "alias.nix" ∧ metadata = ⟨some ⟨1, 2⟩, 1, 1, some 1⟩ ∧ content = as_bytes "1" ∨
    path = "alias.nix" ∧ metadata = ⟨some ⟨1, 2⟩, 1, 2, some 2⟩ ∧ content = as_bytes "[ ]"

/-- All that is hashed, the last for the fingerprint. -/
def link_texts : List Bytes :=
  [flake_text, as_bytes "1", as_bytes "[ ]",
    frame ("flake.nix", raw (length_digest flake_text))]

theorem link_observed : Observed link_seen := by
  constructor
  · rintro path metadata content content' (⟨rfl, rfl, rfl⟩ | ⟨rfl, rfl, rfl⟩ | ⟨rfl, rfl, rfl⟩)
      (⟨hpath, hmetadata, rfl⟩ | ⟨hpath, hmetadata, rfl⟩ | ⟨hpath, hmetadata, rfl⟩)
    all_goals first
      | rfl
      | exact absurd hpath (by decide)
      | exact absurd hmetadata (by decide)
  · rintro path path' metadata metadata' content content'
      (⟨-, rfl, -⟩ | ⟨-, rfl, -⟩ | ⟨-, rfl, -⟩) (⟨-, rfl, -⟩ | ⟨-, rfl, -⟩ | ⟨-, rfl, -⟩)
    all_goals rfl

theorem to_path_one {relative : List String} {name : String}
    (h : to_path relative = [as_bytes name]) : relative = [name] := by
  rcases relative with _ | ⟨first, _ | ⟨second, rest⟩⟩
  · cases h
  · rw [to_path, List.map_singleton, List.singleton_inj] at h
    rw [nxr_task.artifact.as_bytes_inj h]
  · simp [to_path] at h

theorem link_scan_reads {linked : Bytes} {changed : Nat} {relative : List String} {content : Bytes}
    (h : (link_scan linked changed).disk.read (to_path relative) = some content) :
    relative = ["flake.nix"] ∧ content = flake_text ∨
      relative = ["alias.nix"] ∧ content = linked := by
  simp only [link_scan, link_tree] at h
  split at h
  · rename_i hpath
    exact .inl ⟨to_path_one hpath, (Option.some.inj h).symm⟩
  · split at h
    · rename_i hpath
      exact .inr ⟨to_path_one hpath, (Option.some.inj h).symm⟩
    · cases h

theorem first_scan_seen : first_scan.Seen link_seen := by
  intro relative content h
  rcases link_scan_reads h with ⟨rfl, rfl⟩ | ⟨rfl, rfl⟩
  · exact .inl ⟨by decide, by decide, rfl⟩
  · exact .inr (.inl ⟨by decide, by decide, rfl⟩)

theorem second_scan_seen : second_scan.Seen link_seen := by
  intro relative content h
  rcases link_scan_reads h with ⟨rfl, rfl⟩ | ⟨rfl, rfl⟩
  · exact .inl ⟨by decide, by decide, rfl⟩
  · exact .inr (.inr ⟨by decide, by decide, rfl⟩)

theorem link_apart :
    Apart length_digest link_seen none [first_scan, second_scan] { x | x ∈ link_texts } := by
  constructor
  · have hall : ∀ x ∈ link_texts, ∀ y ∈ link_texts,
        (length_digest x).hex = (length_digest y).hex → x = y := by
      decide
    intro x hx y hy h
    exact hall x hx y hy (congrArg Digest.hex h)
  · rintro path metadata content (⟨-, -, rfl⟩ | ⟨-, -, rfl⟩ | ⟨-, -, rfl⟩)
    all_goals simp [link_texts]
  · intro before scan after text hsplit htext
    rcases before with _ | ⟨first, _ | ⟨second, rest⟩⟩
    · obtain ⟨rfl, -⟩ := List.cons.inj hsplit
      have hflake : first_scan.flake_nix = some flake_source := by decide
      rw [hflake, Option.some.injEq] at htext
      subst htext
      change given_bytes length_digest (index_after length_digest none []) first_scan flake_source ∈
        link_texts
      decide
    · obtain ⟨rfl, hrest⟩ := List.cons.inj hsplit
      obtain ⟨rfl, -⟩ := List.cons.inj hrest
      have hflake : second_scan.flake_nix = some flake_source := by decide
      rw [hflake, Option.some.injEq] at htext
      subst htext
      change given_bytes length_digest (index_after length_digest none [first_scan]) second_scan
        flake_source ∈ link_texts
      decide
    · have hlength := congrArg List.length hsplit
      simp at hlength

/-- The link is not ignored and has the extension, and what is read through it changed with its
metadata; but the fingerprints are equal. -/
theorem links_are_not_read :
    Observed link_seen ∧ first_scan.Seen link_seen ∧ second_scan.Seen link_seen ∧
      Apart length_digest link_seen none [first_scan, second_scan] { x | x ∈ link_texts } ∧
      (nix_tree_fingerprint length_digest none first_scan).1 =
        (nix_tree_fingerprint length_digest (index_after length_digest none [first_scan])
          second_scan).1 ∧
      (nix_tree_fingerprint length_digest none first_scan).1.isSome ∧
      is_nix_file ["alias.nix"] = true ∧
      should_ignore (first_scan.filter flake_source) false ["alias.nix"] = false ∧
      should_ignore (second_scan.filter flake_source) false ["alias.nix"] = false ∧
      first_scan.disk.read (to_path ["alias.nix"]) = some (as_bytes "1") ∧
      second_scan.disk.read (to_path ["alias.nix"]) = some (as_bytes "[ ]") :=
  ⟨link_observed, first_scan_seen, second_scan_seen, link_apart, by decide,
    by decide, by decide, by decide, by decide, by decide,
    by decide⟩

/-- The two scans of the flake with the link found one file. -/
theorem link_scans_found_one_file :
    ∃ text text', first_scan.flake_nix = some text ∧ second_scan.flake_nix = some text' ∧
      SameNix first_scan second_scan text text' := by
  have hscans : ∀ scan ∈ [first_scan, second_scan], scan.Seen link_seen := by
    intro scan hscan
    rcases List.mem_pair.mp hscan with rfl | rfl
    · exact first_scan_seen
    · exact second_scan_seen
  have hsome : (nix_tree_fingerprint length_digest none first_scan).1.isSome := by decide
  obtain ⟨fingerprint, hfirst⟩ := Option.isSome_iff_exists.mp hsome
  have hsecond : (nix_tree_fingerprint length_digest (index_after length_digest none [first_scan])
      second_scan).1 = some fingerprint := by
    rw [← hfirst]
    decide
  exact @equal_fingerprints_mean_equal_files length_digest link_seen link_observed none
    [first_scan, second_scan] _ (by simp) hscans link_apart [] [second_scan] [first_scan] []
    first_scan second_scan rfl rfl fingerprint hfirst hsecond

end nxr_completion.fingerprint
