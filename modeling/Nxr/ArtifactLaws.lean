-- When a verified digest names one set of files: breaks inside of
-- names or header values can prevent it.
import Mathlib.Data.List.Nodup
import Mathlib.Data.List.Perm.Basic
import Mathlib.Data.Set.Function
import Nxr.Artifact
import Nxr.Checks
import Nxr.Lines

open nxr_core.cas serde_json checks lines

namespace nxr_task.artifact

/-! ## Texts -/

theorem as_bytes_inj {s t : String} (h : as_bytes s = as_bytes t) : s = t := by
  unfold as_bytes at h
  exact String.toByteArray_inj.mp (ByteArray.ext (Array.toList_inj.mp h))

def breaks (s : String) : Nat := s.toList.count '\n'

theorem byte_char : ∀ n < 256, (Char.ofNat n).toNat = n := by decide +kernel

theorem hex_text_inj {x y : Digest} (h : hex_text x = hex_text y) : x = y := by
  unfold hex_text at h
  have hchars := String.ofList_injective h
  refine Digest.ext (List.map_injective_iff.mpr ?_ hchars)
  intro b c hbc
  have hnat := congrArg Char.toNat hbc
  rw [byte_char _ b.toNat_lt, byte_char _ c.toNat_lt] at hnat
  exact UInt8.toNat_inj.mp hnat

theorem hex_text_breaks (digest : Digest) : breaks (hex_text digest) = 0 := by
  unfold breaks hex_text
  rw [String.toList_ofList, List.count_eq_zero]
  intro hmem
  obtain ⟨b, hb, hchar⟩ := List.mem_map.mp hmem
  have hnat := congrArg Char.toNat hchar
  rw [byte_char _ b.toNat_lt] at hnat
  have hbyte : b = 0x0A := UInt8.toNat_inj.mp hnat
  have hdigit := digest.digits b hb
  rw [hbyte] at hdigit
  cases hdigit

theorem as_bytes_append (s t : String) : as_bytes (s ++ t) = as_bytes s ++ as_bytes t := by
  unfold as_bytes
  rw [String.toByteArray_append, ByteArray.data_append, Array.toList_append]

theorem as_bytes_ofList (cs : List Char) :
    as_bytes (String.ofList cs) = cs.flatMap String.utf8EncodeChar := by
  unfold as_bytes
  rw [String.toByteArray_ofList, List.utf8Encode, List.data_toByteArray]

theorem hex_char_bytes : ∀ n < 256, is_hex_digit (UInt8.ofNat n) = true →
    String.utf8EncodeChar (Char.ofNat n) = [UInt8.ofNat n] ∧
      is_ascii_hexdigit (UInt8.ofNat n) = true := by decide +kernel

theorem as_bytes_hex_text (digest : Digest) : as_bytes (hex_text digest) = digest.hex := by
  unfold hex_text
  rw [as_bytes_ofList, List.flatMap_map]
  have h := digest.digits
  generalize digest.hex = bytes at h
  induction bytes with
  | nil => rfl
  | cons b rest ih =>
    obtain ⟨hb, hrest⟩ := List.forall_mem_cons.mp h
    rw [← UInt8.ofNat_toNat (x := b)] at hb
    obtain ⟨hchar, -⟩ := hex_char_bytes b.toNat b.toNat_lt hb
    rw [List.flatMap_cons, ih hrest, hchar, UInt8.ofNat_toNat]
    rfl

theorem hex_text_is_hex (digest : Digest) : is_hex_digest (hex_text digest) = true := by
  unfold is_hex_digest
  rw [as_bytes_hex_text, digest.length, Bool.and_eq_true, List.all_eq_true]
  refine ⟨rfl, ?_⟩
  intro b hb
  have hdigit := digest.digits b hb
  rw [← UInt8.ofNat_toNat (x := b)] at hdigit ⊢
  exact (hex_char_bytes b.toNat b.toNat_lt hdigit).2

/-! ## What is verified -/

section Trees

variable {hash : Bytes → Digest} {from_str : String → Except String Value}

def Directory.manifest (from_str : String → Except String Value) (directory : Directory) :
    Option Value :=
  (directory.read_to_string "manifest.json").bind fun text => (from_str text).toOption

def listed (body : Value) : List (String × String) :=
  (((body.get "files").bind Value.as_array).getD []).filterMap fun item =>
    match (item.get "name").bind Value.as_str, (item.get "sha256").bind Value.as_str with
    | some name, some expect => some (name, expect)
    | _, _ => none

/-- The text that is hashed for a manifest. -/
def payload (header : List String) (body : Value) : String :=
  "\n".intercalate (header ++ file_lines (listed body)) ++ "\n"

structure Verified (hash : Bytes → Digest) (from_str : String → Except String Value)
    (directory : Directory) (digest : String) (body : Value) (header : List String) : Prop where
  manifest : directory.manifest from_str = some body
  lines : header_lines body = .ok header
  files : ∀ file ∈ listed body, ∃ bytes, directory.entries file.1 = some (.File bytes) ∧
    hex_digest hash bytes = file.2
  digest : hex_digest hash (as_bytes (payload header body)) = digest

variable {directory : Directory}

theorem check_file_ok {item : Value} {file : String × String}
    (h : check_file hash directory item = .ok file) :
    (item.get "name").bind Value.as_str = some file.1 ∧
      (item.get "sha256").bind Value.as_str = some file.2 ∧
      ∃ bytes, directory.entries file.1 = some (.File bytes) ∧
        hex_digest hash bytes = file.2 := by
  unfold check_file at h
  rcases hname : (item.get "name").bind Value.as_str with _ | name
  · rw [hname] at h
    cases h
  rw [hname] at h
  dsimp only at h
  split at h
  · cases h
  rcases hexpect : (item.get "sha256").bind Value.as_str with _ | expect
  · rw [hexpect] at h
    cases h
  rw [hexpect] at h
  dsimp only [pure_bind] at h
  rcases hentry : directory.entries name with _ | ⟨bytes⟩ | target | _
  all_goals rw [hentry] at h
  · cases h
  · dsimp only at h
    split at h
    · cases h
    · rename_i hactual
      cases h
      exact ⟨rfl, rfl, bytes, hentry, not_ne_iff.mp hactual⟩
  · cases h
  · cases h

theorem check_files_ok {items : List Value} {checked : List (String × String)}
    (h : items.mapM (check_file hash directory) = .ok checked) :
    checked = (items.filterMap fun item =>
        match (item.get "name").bind Value.as_str, (item.get "sha256").bind Value.as_str with
        | some name, some expect => some (name, expect) | _, _ => none) ∧
      ∀ file ∈ checked, ∃ bytes, directory.entries file.1 = some (.File bytes) ∧
        hex_digest hash bytes = file.2 := by
  induction items generalizing checked with
  | nil =>
    cases h
    exact ⟨rfl, nofun⟩
  | cons item items ih =>
    rw [List.mapM_cons] at h
    obtain ⟨file, hfile, h⟩ := bind_ok h
    obtain ⟨rest, hrest, h⟩ := bind_ok h
    cases h
    obtain ⟨hname, hexpect, hbytes⟩ := check_file_ok hfile
    obtain ⟨heq, hfiles⟩ := ih hrest
    refine ⟨?_, ?_⟩
    · rw [List.filterMap_cons, hname, hexpect, heq]
    · intro other hother
      rcases List.mem_cons.mp hother with rfl | hother
      · exact hbytes
      · exact hfiles other hother

theorem verify_tree_ok {digest : String} (h : verify_tree hash from_str directory digest = .ok ()) :
    ∃ body header, Verified hash from_str directory digest body header := by
  unfold verify_tree at h
  rcases htext : directory.read_to_string "manifest.json" with _ | text
  · rw [htext] at h
    cases h
  rw [htext] at h
  dsimp only at h
  obtain ⟨body, hbody, h⟩ := bind_ok h
  rw [mapError_ok] at hbody
  split at h
  · cases h
  rename_i hdigest
  rcases hitems : (body.get "files").bind Value.as_array with _ | items
  · rw [hitems] at h
    cases h
  rw [hitems] at h
  dsimp only at h
  split at h
  · cases h
  obtain ⟨checked, hchecked, h⟩ := bind_ok h
  obtain ⟨recomputed, hrecomputed, h⟩ := bind_ok h
  split at h
  · cases h
  rename_i hsame
  obtain ⟨header, hheader, hhash⟩ := bind_ok hrecomputed
  obtain ⟨heq, hfiles⟩ := check_files_ok hchecked
  have hlisted : checked = listed body := by
    unfold listed
    rw [hitems]
    exact heq
  refine ⟨body, header, ?_, hheader, hlisted ▸ hfiles, ?_⟩
  · unfold Directory.manifest
    rw [htext, Option.bind_some, hbody]
    rfl
  · rw [hlisted] at hhash
    rw [← not_ne_iff.mp hdigest, ← not_ne_iff.mp hsame]
    exact Except.ok.inj hhash

variable {body : Value}

theorem verify_tree_of {text digest : String}
    {items : List Value} {checked : List (String × String)}
    (htext : directory.read_to_string "manifest.json" = some text)
    (hbody : from_str text = .ok body) (hdigest : text_or body "bundleSha256" "" = digest)
    (hitems : (body.get "files").bind Value.as_array = some items) (hne : items ≠ [])
    (hchecked : items.mapM (check_file hash directory) = .ok checked)
    (hrecomputed : canonical_digest hash body checked = .ok digest) :
    verify_tree hash from_str directory digest = .ok () := by
  have hempty : items.isEmpty = false := by
    cases items with
    | nil => exact absurd rfl hne
    | cons item items => rfl
  unfold verify_tree
  simp only [htext, hbody, hitems, hempty, hchecked, hrecomputed, hdigest, bind, Except.bind,
    Except.mapError, pure, Except.pure, ne_eq, not_true_eq_false, if_false, Bool.false_eq_true]

/-! ## The set of files that a digest names -/

def Directory.names (from_str : String → Except String Value) (directory : Directory) :
    List String :=
  ((directory.manifest from_str).elim [] listed).map (·.1)

def Directory.content (directory : Directory) (name : String) : Option Bytes :=
  match directory.entries name with
  | some (.File bytes) => some bytes
  | _ => none

def SameListed (from_str : String → Except String Value) (d d' : Directory) : Prop :=
  (∀ name, name ∈ d.names from_str ↔ name ∈ d'.names from_str) ∧
  ∀ name ∈ d.names from_str, d.content name = d'.content name

/-- The files of a manifest in the order of the payload. -/
def sorted (body : Value) : List (String × String) := (listed body).mergeSort name_le

def rows (header : List String) : Nat := (header.map fun line => breaks line + 1).sum

def Aligned (from_str : String → Except String Value) (d d' : Directory) : Prop :=
  ∀ body body' header header', d.manifest from_str = some body →
    d'.manifest from_str = some body' → header_lines body = .ok header →
    header_lines body' = .ok header' →
    rows header = rows header' ∧
      (sorted body).map (fun file => breaks file.1) =
        (sorted body').map fun file => breaks file.1

def HashedIn (from_str : String → Except String Value) (S : Set Bytes) (d : Directory) : Prop :=
  (∀ name ∈ d.names from_str, ∀ bytes, d.content name = some bytes → bytes ∈ S) ∧
  ∀ body header, d.manifest from_str = some body → header_lines body = .ok header →
    as_bytes (payload header body) ∈ S

variable {header : List String}

theorem payload_lines (h : header ≠ []) (body : Value) : (payload header body).toList =
      ended '\n' (header.map String.toList) ++ ended '\n' ((file_lines (listed body)).map
        String.toList) := by
  unfold payload
  rw [String.toList_append, String.toList_intercalate, ← ended_append, ← List.map_append]
  exact intercalate_snoc '\n' (by simp [h])

theorem header_nonempty (h : header_lines body = .ok header) : header ≠ [] := by
  unfold header_lines at h
  split at h
  · cases h
    exact List.cons_ne_nil _ _
  · split at h
    · cases h
      exact List.cons_ne_nil _ _
    · cases h

theorem count_header (header : List String) :
    (ended '\n' (header.map String.toList)).count '\n' = rows header := by
  rw [count_ended, List.map_map]
  rfl

theorem mem_sorted {file : String × String} :
    file ∈ sorted body ↔ file ∈ listed body := List.mem_mergeSort

theorem pairs_inj {l m : List (String × String)}
    (h : (l.flatMap fun file => [file.1, file.2]) = m.flatMap fun file => [file.1, file.2]) :
    l = m := by
  induction l generalizing m with
  | nil =>
    cases m with
    | nil => rfl
    | cons file m => cases h
  | cons file l ih =>
    cases m with
    | nil => cases h
    | cons file' m =>
      simp only [List.flatMap_cons, List.cons_append, List.nil_append, List.cons.injEq] at h
      obtain ⟨hname, hdigest, hrest⟩ := h
      rw [Prod.ext hname hdigest, ih hrest]

theorem count_file_lines {digest : String}
    (h : Verified hash from_str directory digest body header) :
    ((file_lines (listed body)).map String.toList).map (fun line => line.count '\n') =
      ((sorted body).map fun file => breaks file.1).flatMap fun n => [n, 0] := by
  have hzero : ∀ file ∈ sorted body, breaks file.2 = 0 := by
    intro file hfile
    obtain ⟨bytes, _, hbytes⟩ := h.files file (mem_sorted.mp hfile)
    rw [← hbytes]
    exact hex_text_breaks _
  unfold file_lines
  change ((sorted body).flatMap _ |>.map _ |>.map _) = _
  generalize sorted body = files at hzero
  induction files with
  | nil => rfl
  | cons file files ih =>
    have hrest := ih fun other hother => hzero other (List.mem_cons_of_mem _ hother)
    have hfirst : file.2.toList.count '\n' = 0 := hzero file List.mem_cons_self
    simp only [List.flatMap_cons, List.map_append, List.map_cons, List.map_nil, hrest, hfirst]
    rfl

theorem name_le_trans (a b c : String × String) (hab : name_le a b = true)
    (hbc : name_le b c = true) : name_le a c = true := by
  unfold name_le at *
  rw [decide_eq_true_eq] at *
  exact String.le_trans hab hbc

theorem name_le_total (a b : String × String) : (name_le a b || name_le b a) = true := by
  unfold name_le
  rw [Bool.or_eq_true, decide_eq_true_eq, decide_eq_true_eq]
  exact String.le_total a.1 b.1

section Pair

variable {S : Set Bytes} {d d' : Directory} {digest : String} {body body' : Value}
  {header header' : List String}

theorem Verified.names (h : Verified hash from_str d digest body header) :
    d.names from_str = (listed body).map (·.1) := by
  unfold Directory.names
  rw [h.manifest]
  rfl

theorem Verified.content (h : Verified hash from_str d digest body header)
    {file : String × String} (hfile : file ∈ listed body) :
    ∃ bytes, d.content file.1 = some bytes ∧ hex_digest hash bytes = file.2 := by
  obtain ⟨bytes, hentry, hbytes⟩ := h.files file hfile
  refine ⟨bytes, ?_, hbytes⟩
  unfold Directory.content
  rw [hentry]

theorem payload_same (hinj : Set.InjOn hash S) (hd : HashedIn from_str S d)
    (hd' : HashedIn from_str S d') (h : Verified hash from_str d digest body header)
    (h' : Verified hash from_str d' digest body' header') :
    ended '\n' (header.map String.toList) ++
        ended '\n' ((file_lines (listed body)).map String.toList) =
      ended '\n' (header'.map String.toList) ++
        ended '\n' ((file_lines (listed body')).map String.toList) := by
  have hhash := hex_text_inj (h.digest.trans h'.digest.symm)
  have hbytes := hinj (hd.2 body header h.manifest h.lines)
    (hd'.2 body' header' h'.manifest h'.lines) hhash
  rw [← payload_lines (header_nonempty h.lines), ← payload_lines (header_nonempty h'.lines),
    as_bytes_inj hbytes]

/-- Where the lines fall on the same fields, the digest names one set of files. -/
theorem listed_of_aligned (hinj : Set.InjOn hash S) (hd : HashedIn from_str S d)
    (hd' : HashedIn from_str S d') (h : Verified hash from_str d digest body header)
    (h' : Verified hash from_str d' digest body' header') (hrows : rows header = rows header')
    (hbreaks : (sorted body).map (fun file => breaks file.1) =
      (sorted body').map fun file => breaks file.1) : sorted body = sorted body' := by
  have hsame := payload_same hinj hd hd' h h'
  rw [← count_header, ← count_header] at hrows
  have hnonempty : ∀ {body : Value} {header : List String}, header_lines body = .ok header →
      header.map String.toList ≠ [] := by
    intro body header hlines
    rw [Ne, List.map_eq_nil_iff]
    exact header_nonempty hlines
  obtain ⟨_, hfiles⟩ := ended_split (hnonempty h.lines) (hnonempty h'.lines) hsame hrows
  have hcounts := congrArg (List.flatMap fun n => [n, 0]) hbreaks
  rw [← count_file_lines h, ← count_file_lines h'] at hcounts
  have hlines := List.map_injective_iff.mpr (fun _ _ => String.toList_injective)
    (ended_inj hfiles hcounts)
  exact pairs_inj hlines

theorem same_of_listed (hinj : Set.InjOn hash S) (hd : HashedIn from_str S d)
    (hd' : HashedIn from_str S d') (h : Verified hash from_str d digest body header)
    (h' : Verified hash from_str d' digest body' header') (hsorted : sorted body = sorted body') :
    SameListed from_str d d' := by
  have hlisted : ∀ file, file ∈ listed body ↔ file ∈ listed body' := by
    intro file
    rw [← mem_sorted, ← mem_sorted, hsorted]
  have hnames : ∀ name, name ∈ d.names from_str ↔ name ∈ d'.names from_str := by
    intro name
    rw [h.names, h'.names]
    simp only [List.mem_map, hlisted]
  refine ⟨hnames, fun name hname => ?_⟩
  · have hname' := (hnames name).mp hname
    have hlist := hname
    rw [h.names] at hlist
    obtain ⟨file, hfile, rfl⟩ := List.mem_map.mp hlist
    obtain ⟨bytes, hcontent, hbytes⟩ := h.content hfile
    obtain ⟨bytes', hcontent', hbytes'⟩ := h'.content ((hlisted file).mp hfile)
    have hhash := hex_text_inj (hbytes.trans hbytes'.symm)
    have heq := hinj (hd.1 _ hname _ hcontent) (hd'.1 _ hname' _ hcontent') hhash
    rw [hcontent, hcontent', heq]

/-- Without repeated names, one set of files is listed in one way. -/
theorem sorted_of_same (h : Verified hash from_str d digest body header)
    (h' : Verified hash from_str d' digest body' header') (hsame : SameListed from_str d d')
    (hnodup : (d.names from_str).Nodup) (hnodup' : (d'.names from_str).Nodup) :
    sorted body = sorted body' := by
  unfold SameListed at hsame
  rw [h.names] at hsame hnodup
  rw [h'.names] at hsame hnodup'
  obtain ⟨hnames, hcontents⟩ := hsame
  have hto : ∀ {d d' : Directory} {body body' : Value} {header header' : List String},
      Verified hash from_str d digest body header →
      Verified hash from_str d' digest body' header' →
      (∀ name, name ∈ (listed body).map (·.1) → name ∈ (listed body').map (·.1)) →
      (∀ name ∈ (listed body).map (·.1), d.content name = d'.content name) →
      ∀ file ∈ listed body, file ∈ listed body' := by
    intro d d' body body' header header' h h' hnames hcontents file hfile
    have hname := List.mem_map_of_mem (f := (·.1)) hfile
    obtain ⟨other, hother, heq⟩ := List.mem_map.mp (hnames _ hname)
    obtain ⟨bytes, hcontent, hbytes⟩ := h.content hfile
    obtain ⟨bytes', hcontent', hbytes'⟩ := h'.content hother
    have hboth : some bytes = some bytes' := by
      rw [← hcontent, hcontents _ hname, ← hcontent']
      exact congrArg _ heq.symm
    have hsecond : other.2 = file.2 := by
      rw [← hbytes, ← hbytes', Option.some.inj hboth]
    rwa [Prod.ext heq hsecond] at hother
  have hperm : (listed body).Perm (listed body') := by
    refine (List.perm_ext_iff_of_nodup (List.Nodup.of_map _ hnodup)
      (List.Nodup.of_map _ hnodup')).mpr fun file => ⟨?_, ?_⟩
    · exact hto h h' (fun name => (hnames name).mp) hcontents file
    · refine hto h' h (fun name => (hnames name).mpr) ?_ file
      intro name hname
      exact (hcontents name ((hnames name).mpr hname)).symm
  have horder : ∀ body, (sorted body).Pairwise fun a b => name_le a b = true :=
    fun body => List.pairwise_mergeSort name_le_trans name_le_total (listed body)
  refine List.Perm.eq_of_pairwise ?_ (horder body) (horder body') ?_
  · intro a b ha hb hab hba
    unfold name_le at hab hba
    have hname : a.1 = b.1 :=
      String.le_antisymm (of_decide_eq_true hab) (of_decide_eq_true hba)
    exact List.inj_on_of_nodup_map hnodup (mem_sorted.mp ha)
      (hperm.mem_iff.mpr (mem_sorted.mp hb)) hname
  · exact ((List.mergeSort_perm _ _).trans hperm).trans (List.mergeSort_perm _ _).symm

end Pair

/-- A digest names one set of files if the lines of the two payloads fall on the same fields. -/
theorem a_digest_names_one_file_set {S : Set Bytes} (hinj : Set.InjOn hash S)
    (d d' : Directory) (hd : HashedIn from_str S d) (hd' : HashedIn from_str S d')
    (digest : String) :
    ((verify_tree hash from_str d digest = .ok () → verify_tree hash from_str d' digest = .ok () →
        Aligned from_str d d') →
      verify_tree hash from_str d digest = .ok () → verify_tree hash from_str d' digest = .ok () →
        SameListed from_str d d') ∧
    ((verify_tree hash from_str d digest = .ok () → verify_tree hash from_str d' digest = .ok () →
        SameListed from_str d d') →
      verify_tree hash from_str d digest = .ok () → verify_tree hash from_str d' digest = .ok () →
        Aligned from_str d d' ∨ ¬ (d.names from_str).Nodup ∨ ¬ (d'.names from_str).Nodup) := by
  constructor
  · intro haligned hok hok'
    obtain ⟨body, header, h⟩ := verify_tree_ok hok
    obtain ⟨body', header', h'⟩ := verify_tree_ok hok'
    obtain ⟨hrows, hbreaks⟩ := haligned hok hok' body body' header header' h.manifest h'.manifest
      h.lines h'.lines
    exact same_of_listed hinj hd hd' h h' (listed_of_aligned hinj hd hd' h h' hrows hbreaks)
  · intro hclaim hok hok'
    obtain ⟨body, header, h⟩ := verify_tree_ok hok
    obtain ⟨body', header', h'⟩ := verify_tree_ok hok'
    by_cases hnodup : (d.names from_str).Nodup ∧ (d'.names from_str).Nodup
    · left
      have hsorted := sorted_of_same h h' (hclaim hok hok') hnodup.1 hnodup.2
      have hsame := payload_same hinj hd hd' h h'
      have hlines : file_lines (listed body) = file_lines (listed body') :=
        congrArg (List.flatMap fun file : String × String => [file.1, file.2]) hsorted
      rw [hlines] at hsame
      have hheader := congrArg (List.count '\n') (List.append_cancel_right hsame)
      rw [count_header, count_header] at hheader
      intro b b' l l' hb hb' hl hl'
      rw [h.manifest] at hb
      rw [h'.manifest] at hb'
      cases hb
      cases hb'
      rw [h.lines] at hl
      rw [h'.lines] at hl'
      cases hl
      cases hl'
      rw [hsorted]
      exact ⟨hheader, rfl⟩
    · right
      rwa [not_and_or] at hnodup

end Trees

/-! ## A file name with line breaks -/

theorem zero_digit : nxr_core.cas.is_hex_digit 0x30 = true := rfl

theorem one_digit : nxr_core.cas.is_hex_digit 0x31 = true := rfl

def zeros : Digest := repeated 0x30 zero_digit

def ones : Digest := repeated 0x31 one_digit

def some_content (bytes : Bytes) : Digest := if bytes = [] then zeros else ones

def broken_name : String := "a\n" ++ hex_text zeros ++ "\nb"

def file_item (name : String) : Value :=
  .Object [("name", .Str name), ("sha256", .Str (hex_text zeros))]

def two_body : Value :=
  .Object [("bundleSha256", .Str (hex_text ones)), ("digestAlgorithm", .Str "nxr-artifact-v1"),
    ("files", .Array [file_item "a", file_item "b"])]

def broken_body : Value :=
  .Object [("bundleSha256", .Str (hex_text ones)), ("digestAlgorithm", .Str "nxr-artifact-v1"),
    ("files", .Array [file_item broken_name])]

def item_text (name : String) : String :=
  "\x7b\"name\":\"" ++ name ++ "\",\"sha256\":\"" ++ hex_text zeros ++ "\"\x7d"

def body_text (items : String) : String :=
  "\x7b\"bundleSha256\":\"" ++ hex_text ones ++
    "\",\"digestAlgorithm\":\"nxr-artifact-v1\",\"files\":[" ++ items ++ "]\x7d"

def two_text : String := body_text (item_text "a" ++ "," ++ item_text "b")

def broken_text : String := body_text (item_text ("a\\n" ++ hex_text zeros ++ "\\nb"))

def read_bodies (text : String) : Except String Value :=
  if text = two_text then .ok two_body
  else if text = broken_text then .ok broken_body
  else .error "expected value"

def two_files : Directory where
  path := "/two"
  entries name :=
    if name = "manifest.json" then some (.File (as_bytes two_text))
    else if name = "a" ∨ name = "b" then some (.File [])
    else none

def broken_file : Directory where
  path := "/broken"
  entries name :=
    if name = "manifest.json" then some (.File (as_bytes broken_text))
    else if name = broken_name then some (.File [])
    else none

theorem read_as_bytes (text : String) :
    (std_io.read_to_string ⟨(as_bytes text).toArray⟩).toOption = some text := by
  have hbytes : ByteArray.mk (as_bytes text).toArray = text.toByteArray := by
    unfold as_bytes
    rw [Array.toArray_toList]
  rw [hbytes, std_io.read_to_string_text]
  rfl

theorem read_broken : read_bodies broken_text = .ok broken_body := by
  have hne : broken_text ≠ two_text := by decide
  unfold read_bodies
  rw [if_neg hne, if_pos rfl]

theorem hash_ended (text : String) : hex_digest some_content (as_bytes (text ++ "\n")) =
    hex_text ones := by
  have hne : as_bytes (text ++ "\n") ≠ [] := by
    intro hnil
    have hempty : text ++ "\n" = "" := as_bytes_inj hnil
    have hchars := congrArg String.toList hempty
    rw [String.toList_append] at hchars
    exact List.cons_ne_nil _ _ (List.append_eq_nil_iff.mp hchars).2
  unfold hex_digest some_content
  rw [if_neg hne]

theorem recomputed (body : Value) (files : List (String × String))
    (h : header_lines body = .ok ["nxr-artifact-v1"]) :
    canonical_digest some_content body files = .ok (hex_text ones) := by
  unfold canonical_digest
  rw [h]
  exact congrArg Except.ok (hash_ended _)

theorem two_verified :
    verify_tree some_content read_bodies two_files (hex_text ones) = .ok () := by
  have hchecked : [file_item "a", file_item "b"].mapM (check_file some_content two_files) =
      .ok [("a", hex_text zeros), ("b", hex_text zeros)] := by decide
  exact verify_tree_of (read_as_bytes two_text) (if_pos rfl) rfl rfl (List.cons_ne_nil _ _)
    hchecked (recomputed _ _ (by decide))

theorem broken_verified :
    verify_tree some_content read_bodies broken_file (hex_text ones) = .ok () := by
  have hchecked : [file_item broken_name].mapM (check_file some_content broken_file) =
      .ok [(broken_name, hex_text zeros)] := by decide
  exact verify_tree_of (read_as_bytes broken_text) read_broken rfl rfl (List.cons_ne_nil _ _)
    hchecked (recomputed _ _ (by decide))

theorem two_manifest : two_files.manifest read_bodies = some two_body := by
  unfold Directory.manifest
  rw [show two_files.read_to_string "manifest.json" = some two_text from read_as_bytes two_text,
    Option.bind_some, read_bodies, if_pos rfl]
  rfl

theorem broken_manifest : broken_file.manifest read_bodies = some broken_body := by
  unfold Directory.manifest
  rw [show broken_file.read_to_string "manifest.json" = some broken_text from
    read_as_bytes broken_text, Option.bind_some, read_broken]
  rfl

theorem one_payload :
    payload ["nxr-artifact-v1"] two_body = payload ["nxr-artifact-v1"] broken_body := by
  have htwo : file_lines (listed two_body) = ["a", hex_text zeros, "b", hex_text zeros] := by
    unfold file_lines
    rw [show listed two_body = [("a", hex_text zeros), ("b", hex_text zeros)] by decide,
      List.mergeSort_of_pairwise (by decide)]
    rfl
  have hbroken : file_lines (listed broken_body) = [broken_name, hex_text zeros] := by
    unfold file_lines
    rw [show listed broken_body = [(broken_name, hex_text zeros)] by decide,
      List.mergeSort_singleton]
    rfl
  unfold payload
  rw [htwo, hbroken]
  decide

def hashed_bytes : Set Bytes := {[], as_bytes (payload ["nxr-artifact-v1"] two_body)}

theorem some_content_inj : Set.InjOn some_content hashed_bytes := by
  have hne : as_bytes (payload ["nxr-artifact-v1"] two_body) ≠ [] := by
    intro hnil
    have hempty : payload ["nxr-artifact-v1"] two_body = "" := as_bytes_inj hnil
    have hchars := congrArg String.toList hempty
    unfold payload at hchars
    rw [String.toList_append] at hchars
    exact List.cons_ne_nil _ _ (List.append_eq_nil_iff.mp hchars).2
  have hdiff : zeros ≠ ones := by
    intro h
    exact absurd (congrArg Digest.hex h) (by decide)
  rintro x (rfl | rfl) y (rfl | rfl) h
  · rfl
  · unfold some_content at h
    rw [if_pos rfl, if_neg hne] at h
    exact absurd h hdiff
  · unfold some_content at h
    rw [if_pos rfl, if_neg hne] at h
    exact absurd h.symm hdiff
  · rfl

theorem hashed_of {directory : Directory} {body : Value}
    (hmanifest : directory.manifest read_bodies = some body)
    (hheader : header_lines body = .ok ["nxr-artifact-v1"])
    (hempty : ∀ name ∈ (listed body).map (·.1), directory.content name = some [])
    (hpayload : payload ["nxr-artifact-v1"] body = payload ["nxr-artifact-v1"] two_body) :
    HashedIn read_bodies hashed_bytes directory := by
  constructor
  · intro name hname bytes hbytes
    unfold Directory.names at hname
    rw [hmanifest] at hname
    rw [hempty name hname] at hbytes
    cases hbytes
    exact .inl rfl
  · intro body' header hbody' hheader'
    rw [hmanifest] at hbody'
    cases hbody'
    rw [hheader] at hheader'
    cases hheader'
    rw [hpayload]
    exact .inr rfl

theorem two_hashed : HashedIn read_bodies hashed_bytes two_files :=
  hashed_of two_manifest (by decide) (by decide) rfl

theorem broken_hashed : HashedIn read_bodies hashed_bytes broken_file :=
  hashed_of broken_manifest (by decide) (by decide) one_payload.symm

/-- The two files `a` and `b` have the digest of the one file whose name reads like their
lines. -/
theorem one_digest_for_two_file_sets : Set.InjOn some_content hashed_bytes ∧
    HashedIn read_bodies hashed_bytes two_files ∧
    HashedIn read_bodies hashed_bytes broken_file ∧
    verify_tree some_content read_bodies two_files (hex_text ones) = .ok () ∧
    verify_tree some_content read_bodies broken_file (hex_text ones) = .ok () ∧
    ¬ SameListed read_bodies two_files broken_file := by
  refine ⟨some_content_inj, two_hashed, broken_hashed, two_verified, broken_verified, ?_⟩
  rintro ⟨hnames, _⟩
  have hmem : "a" ∈ broken_file.names read_bodies := by
    refine (hnames "a").mp ?_
    unfold Directory.names
    rw [two_manifest]
    decide
  unfold Directory.names at hmem
  rw [broken_manifest] at hmem
  revert hmem
  decide

theorem two_names_one_file_set :
    verify_tree some_content read_bodies two_files (hex_text ones) = .ok () ∧
      ((verify_tree some_content read_bodies two_files (hex_text ones) = .ok () →
          verify_tree some_content read_bodies two_files (hex_text ones) = .ok () →
          Aligned read_bodies two_files two_files) →
        SameListed read_bodies two_files two_files) := by
  refine ⟨two_verified, fun haligned => ?_⟩
  exact (a_digest_names_one_file_set some_content_inj two_files two_files two_hashed two_hashed
    (hex_text ones)).1 haligned two_verified two_verified

end nxr_task.artifact
