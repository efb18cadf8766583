-- Which trees a flat directory digest tells apart. The hash is injective on
-- what is hashed for them; on all texts it cannot be.
import Nxr.FlatDigest

namespace nxr_core.cas

section Digests

variable {hash : Bytes → Digest} {S : Set Bytes}

structure Hashed (hash : Bytes → Digest) (S : Set Bytes) (t : Tree) : Prop where
  contents : ∀ file ∈ t.files, file.2 ∈ S
  stream : t.stream hash ∈ S

variable {t : Tree}

theorem Tree.walk_nil (h : t.walk = []) : t.files = [] := by
  have hperm := List.mergeSort_perm t.files path_le
  unfold Tree.walk at h
  rw [h] at hperm
  exact hperm.symm.eq_nil

variable {file : PathBuf × Bytes}

theorem Tree.walk_singleton (h : t.walk = [file]) : t.files = [file] := by
  have hperm := List.mergeSort_perm t.files path_le
  unfold Tree.walk at h
  rw [h] at hperm
  exact List.perm_singleton.mp hperm.symm

theorem same_of_files_eq {t' : Tree} (h : t.files = t'.files) : SameFiles t t' := by
  intro file
  rw [h]

theorem tree_digest_inj (hinj : Set.InjOn hash S) {t' : Tree} (h : Hashed hash S t)
    (h' : Hashed hash S t') (r r' d d' : PathBuf)
    (heq : digest_repo_path hash r d (some (.Dir t.entries)) =
      digest_repo_path hash r' d' (some (.Dir t'.entries))) : t.stream hash = t'.stream hash := by
  rw [digest_repo_path_eq, digest_repo_path_eq] at heq
  exact hinj h.stream h'.stream heq

def OnlyPath (path : PathBuf) : Prop := ∀ other, FilePath other → text other = text path →
  other = path

def Glued (hash : Bytes → Digest) (S : Set Bytes) (whole : Bytes) : Prop :=
  ∃ p q content, FilePath p ∧ FilePath q ∧ Before p q ∧ content ∈ S ∧
    text p ++ (hash content).hex ++ text q = whole

def Readable (hash : Bytes → Digest) (S : Set Bytes) (t : Tree) : Prop :=
  t.files = [] ∨ ∃ path content, t.files = [(path, content)] ∧ OnlyPath path ∧
    ¬ Glued hash S (text path)

theorem Tree.stream_of_walk {files : List (PathBuf × Bytes)} (h : t.walk = files) :
    t.stream hash = files.flatMap (update hash) := by
  unfold Tree.stream
  rw [h]

theorem stream_nil (h : t.stream hash = []) : t.files = [] := by
  rcases hwalk : t.walk with _ | ⟨file, rest⟩
  · exact t.walk_nil hwalk
  · rw [Tree.stream_of_walk hwalk, List.flatMap_cons] at h
    exact absurd (List.append_eq_nil_iff.mp h).1 (update_nonempty file)

theorem walk_mem {files : List (PathBuf × Bytes)} (h : t.walk = files)
    (hfile : file ∈ files) : file ∈ t.files :=
  (mem_walk t).mp (h ▸ hfile)

theorem walk_glued (ht : Hashed hash S t) {next : PathBuf × Bytes}
    {rest : List (PathBuf × Bytes)} (hwalk : t.walk = file :: next :: rest) :
    ∃ q content, FilePath q ∧ Before file.1 q ∧ content ∈ S ∧
      t.stream hash = update hash file ++ update hash (q, content) := by
  have hpaths : ∀ f ∈ next :: rest, FilePath f.1 := by
    intro f hf
    exact t.file_path (walk_mem hwalk (List.mem_cons_of_mem _ hf))
  obtain ⟨q, f, hf, hq, hstream, hbefore⟩ := stream_glued next rest hpaths
  have hsorted := walk_before t
  rw [hwalk, List.map_cons, List.map_cons] at hsorted
  have hfirst := (List.pairwise_cons.mp hsorted).1 next.1 List.mem_cons_self
  refine ⟨q, f.2, hq, hbefore _ hfirst,
    ht.contents f (walk_mem hwalk (List.mem_cons_of_mem _ hf)), ?_⟩
  rw [Tree.stream_of_walk hwalk, List.flatMap_cons, hstream]

theorem readable_separates (hinj : Set.InjOn hash S) {t' : Tree} (ht : Hashed hash S t)
    (ht' : Hashed hash S t') (hread : Readable hash S t)
    (heq : t'.stream hash = t.stream hash) : SameFiles t t' := by
  rcases hread with hnone | ⟨path, content, hone, honly, hglued⟩
  · have hstream : t.stream hash = [] := by
      unfold Tree.stream Tree.walk
      rw [hnone, List.mergeSort_nil, List.flatMap_nil]
    rw [hstream] at heq
    exact same_of_files_eq (hnone.trans (stream_nil heq).symm)
  · have hcontent := ht.contents (path, content) (by rw [hone]; exact List.mem_singleton_self _)
    have hstream : t.stream hash = update hash (path, content) := by
      rw [Tree.stream_of_walk (walk_of_one hone)]
      exact List.append_nil _
    rw [hstream] at heq
    rcases hwalk : t'.walk with _ | ⟨file, _ | ⟨next, rest⟩⟩
    · rw [Tree.stream_of_walk hwalk] at heq
      exact absurd heq.symm (update_nonempty _)
    · have hfiles := t'.walk_singleton hwalk
      have hmem : file ∈ t'.files := by rw [hfiles]; exact List.mem_singleton_self file
      rw [Tree.stream_of_walk hwalk, List.flatMap_cons, List.flatMap_nil, List.append_nil] at heq
      obtain ⟨htext, hsame⟩ := update_inj hinj (ht'.contents file hmem) hcontent heq
      have hpath := honly file.1 (t'.file_path hmem) htext
      refine same_of_files_eq ?_
      rw [hone, hfiles]
      exact congrArg (fun f => [f]) (Prod.ext hpath.symm hsame.symm)
    · obtain ⟨q, last, hq, hbefore, hlast, hlater⟩ := walk_glued ht' hwalk
      have hfirst := walk_mem hwalk List.mem_cons_self
      rw [hlater] at heq
      unfold update digest_file at heq
      rw [← List.append_assoc] at heq
      have hparts := List.append_inj' heq ((hash last).length.trans (hash content).length.symm)
      refine absurd ⟨file.1, q, file.2, t'.file_path hfirst, hq, hbefore,
        ht'.contents file hfirst, ?_⟩ hglued
      exact hparts.1

/-- Whatever else there is, one file can stand for several. -/
theorem unreadable_collides (ht : Hashed hash S t) (hread : ¬ Readable hash S t) :
    ∃ t' : Tree, Hashed hash S t' ∧ t'.stream hash = t.stream hash ∧ ¬ SameFiles t t' := by
  rcases hwalk : t.walk with _ | ⟨file, _ | ⟨next, rest⟩⟩
  · exact absurd (.inl (t.walk_nil hwalk)) hread
  · have hfiles := t.walk_singleton hwalk
    have hmem : file ∈ t.files := by rw [hfiles]; exact List.mem_singleton_self file
    have hcontent := ht.contents file hmem
    have hstream : t.stream hash = update hash file := by
      rw [Tree.stream_of_walk hwalk]
      exact List.append_nil _
    by_cases honly : OnlyPath file.1
    · -- The path is a path, a digest and a path: the other tree has two files.
      have hglued : Glued hash S (text file.1) := by
        by_contra hnot
        exact hread (.inr ⟨file.1, file.2, hfiles, honly, hnot⟩)
      obtain ⟨p, q, content, hp, hq, hbefore, hmemS, htext⟩ := hglued
      obtain ⟨t', ht'⟩ := tree_of_two hp hq hbefore content file.2
      have hwalk' := walk_of_sorted hbefore ht'
      have hsame : t'.stream hash = t.stream hash := by
        rw [Tree.stream_of_walk hwalk', hstream]
        unfold update digest_file
        rw [← htext]
        simp
      refine ⟨t', ⟨?_, hsame ▸ ht.stream⟩, hsame, ?_⟩
      · intro f hf
        rw [ht'] at hf
        rcases List.mem_cons.mp hf with rfl | hf
        · exact hmemS
        · rw [List.mem_singleton.mp hf]
          exact hcontent
      · intro hfilesame
        have hpin : (p, content) ∈ t.files := (hfilesame _).mpr (by rw [ht']; simp)
        have hqin : (q, file.2) ∈ t.files := (hfilesame _).mpr (by rw [ht']; simp)
        rw [hfiles, List.mem_singleton] at hpin hqin
        have hpq : p = q := (congrArg Prod.fst hpin).trans (congrArg Prod.fst hqin).symm
        exact path_irrefl q (hpq ▸ hbefore.lt)
    · -- Another path has the same text.
      unfold OnlyPath at honly
      push Not at honly
      obtain ⟨other, hother, htext, hne⟩ := honly
      obtain ⟨t', ht'⟩ := tree_of_file hother file.2
      have hsame : t'.stream hash = t.stream hash := by
        rw [Tree.stream_of_walk (walk_of_one ht'), hstream, List.flatMap_cons, List.flatMap_nil,
          List.append_nil]
        unfold update
        dsimp only
        rw [htext]
      refine ⟨t', ⟨?_, hsame ▸ ht.stream⟩, hsame, ?_⟩
      · intro f hf
        rw [ht', List.mem_singleton] at hf
        rw [hf]
        exact hcontent
      · intro hfilesame
        have hin : (other, file.2) ∈ t.files := (hfilesame _).mpr (by rw [ht']; simp)
        rw [hfiles, List.mem_singleton] at hin
        exact hne (congrArg Prod.fst hin)
  · -- Two or more files are read as one.
    have hpaths : ∀ f ∈ file :: next :: rest, FilePath f.1 := by
      intro f hf
      exact t.file_path (walk_mem hwalk hf)
    obtain ⟨q, f, hf, hq, hstream, _⟩ := stream_glued file (next :: rest) hpaths
    obtain ⟨t', ht'⟩ := tree_of_file hq f.2
    have hsame : t'.stream hash = t.stream hash := by
      rw [Tree.stream_of_walk (walk_of_one ht'), Tree.stream_of_walk hwalk, hstream]
      exact List.append_nil _
    refine ⟨t', ⟨?_, hsame ▸ ht.stream⟩, hsame, ?_⟩
    · intro other hother
      rw [ht', List.mem_singleton] at hother
      rw [hother]
      exact ht.contents f (walk_mem hwalk hf)
    · intro hfilesame
      have hfirst : file ∈ t'.files := (hfilesame _).mp (walk_mem hwalk List.mem_cons_self)
      have hsecond : next ∈ t'.files :=
        (hfilesame _).mp (walk_mem hwalk (List.mem_cons_of_mem _ List.mem_cons_self))
      rw [ht', List.mem_singleton] at hfirst hsecond
      have hsorted := walk_before t
      rw [hwalk, List.map_cons, List.map_cons] at hsorted
      have hbefore := (List.pairwise_cons.mp hsorted).1 next.1 List.mem_cons_self
      rw [hfirst, hsecond] at hbefore
      exact path_irrefl _ hbefore.lt

theorem Before.asymm {a b : PathBuf} (h : Before a b) (hback : Before b a) : False :=
  path_irrefl a (path_trans h.lt hback.lt)

theorem walk_nodup (t : Tree) : t.walk.Nodup := by
  have hpaths := List.pairwise_map.mp (walk_before t)
  refine hpaths.imp ?_
  rintro a b hbefore rfl
  exact path_irrefl _ hbefore.lt

theorem same_files_walk {t' : Tree} (h : SameFiles t t') : t.walk = t'.walk := by
  have hmem : ∀ file, file ∈ t.walk ↔ file ∈ t'.walk := by
    intro file
    rw [mem_walk, mem_walk]
    exact h file
  have hperm := (List.perm_ext_iff_of_nodup (walk_nodup t) (walk_nodup t')).mpr hmem
  refine hperm.eq_of_pairwise ?_ (List.pairwise_map.mp (walk_before t))
    (List.pairwise_map.mp (walk_before t'))
  intro a b _ _ hab hba
  exact (hab.asymm hba).elim

/-- The digest of a tree tells it from every other tree exactly if it is readable. -/
theorem flat_digests_separate_iff (hinj : Set.InjOn hash S) (t : Tree) (ht : Hashed hash S t) :
    (∀ t', SameFiles t t' → ∀ flake_root relative flake_root' relative',
      digest_repo_path hash flake_root relative (some (.Dir t.entries)) =
        digest_repo_path hash flake_root' relative' (some (.Dir t'.entries))) ∧
    ((∀ t', Hashed hash S t' → ∀ flake_root relative flake_root' relative',
      digest_repo_path hash flake_root relative (some (.Dir t.entries)) =
        digest_repo_path hash flake_root' relative' (some (.Dir t'.entries)) →
      SameFiles t t') ↔ Readable hash S t) := by
  refine ⟨?_, ?_, ?_⟩
  · intro t' hsame r d r' d'
    rw [digest_repo_path_eq, digest_repo_path_eq]
    unfold Tree.stream
    rw [same_files_walk hsame]
  · intro hseparate
    by_contra hread
    obtain ⟨t', ht', hstream, hdiffer⟩ := unreadable_collides ht hread
    refine hdiffer (hseparate t' ht' [] [] [] [] ?_)
    rw [digest_repo_path_eq, digest_repo_path_eq, hstream]
  · intro hread t' ht' r d r' d' heq
    exact readable_separates hinj ht ht' hread (tree_digest_inj hinj ht ht' r r' d d' heq).symm

end Digests

def hash_of_emptiness (content : Bytes) : Digest :=
  if content = [] then repeated 0x30 (by decide) else repeated 0x31 (by decide)

theorem hash_of_emptiness_inj {stream : Bytes} (h : stream ≠ []) :
    Set.InjOn hash_of_emptiness {[], stream} := by
  have hdiffer : hash_of_emptiness [] ≠ hash_of_emptiness stream := by
    unfold hash_of_emptiness
    rw [if_pos rfl, if_neg h]
    intro heq
    exact absurd (congrArg (fun digest => digest.hex.head?) heq) (by decide)
  rintro x (rfl | rfl) y (rfl | rfl) heq
  · rfl
  · exact absurd heq hdiffer
  · exact absurd heq.symm hdiffer
  · rfl

def two_files : Tree where
  entries := [([0x61], .File []), ([0x62], .File [])]
  valid := by
    refine ⟨by decide, ?_, trivial, ?_, trivial, trivial⟩
    · exact ⟨by decide, by decide, by decide, by decide, by decide⟩
    · exact ⟨by decide, by decide, by decide, by decide, by decide⟩

/-- An empty file whose name is an `a`, the digest of the empty file and a `b`. -/
def one_file : Tree where
  entries := [(0x61 :: List.replicate 64 0x30 ++ [0x62], .File [])]
  valid := by
    refine ⟨List.pairwise_singleton _ _, ?_, trivial, trivial⟩
    exact ⟨by decide, by decide, by decide, by decide, by decide⟩

theorem one_file_files :
    one_file.files = [([0x61 :: List.replicate 64 0x30 ++ [0x62]], [])] := rfl

theorem same_stream :
    two_files.stream hash_of_emptiness = one_file.stream hash_of_emptiness := by
  have hbefore : Before [[0x61]] [[0x62]] := ⟨[], [0x61], [0x62], [], [], rfl, rfl, by decide⟩
  have htwo : two_files.walk = [([[0x61]], []), ([[0x62]], [])] := walk_of_sorted hbefore rfl
  rw [Tree.stream_of_walk htwo, Tree.stream_of_walk (walk_of_one one_file_files)]
  decide +kernel

theorem two_files_stream : two_files.stream hash_of_emptiness ≠ [] := by
  intro hnil
  exact absurd (stream_nil hnil) (by decide)

theorem two_files_hashed :
    Hashed hash_of_emptiness {[], two_files.stream hash_of_emptiness} two_files := by
  refine ⟨?_, .inr rfl⟩
  intro file hfile
  rcases List.mem_cons.mp hfile with rfl | hfile
  · exact .inl rfl
  · rw [List.mem_singleton.mp hfile]
    exact .inl rfl

theorem flat_digests_collide :
    ¬ ∀ (hash : Bytes → Digest) (S : Set Bytes), Set.InjOn hash S → ∀ t t' : Tree,
      Hashed hash S t → Hashed hash S t' → ∀ flake_root relative flake_root' relative',
      digest_repo_path hash flake_root relative (some (.Dir t.entries)) =
        digest_repo_path hash flake_root' relative' (some (.Dir t'.entries)) →
      SameFiles t t' := by
  intro hclaim
  have hone : Hashed hash_of_emptiness {[], two_files.stream hash_of_emptiness} one_file := by
    refine ⟨?_, .inr same_stream.symm⟩
    intro file hfile
    rw [List.mem_singleton.mp hfile]
    exact .inl rfl
  have hsame := hclaim hash_of_emptiness _ (hash_of_emptiness_inj two_files_stream)
    two_files one_file two_files_hashed hone [] [] [] [] (by rw [digest_repo_path_eq, digest_repo_path_eq, same_stream])
  have hfirst := (hsame ([[0x61]], [])).mp List.mem_cons_self
  rw [one_file_files] at hfirst
  exact absurd hfirst (by decide)

theorem flat_digests_separate_two :
    (∀ t', SameFiles two_files t' → ∀ flake_root relative flake_root' relative',
      digest_repo_path hash_of_emptiness flake_root relative (some (.Dir two_files.entries)) =
        digest_repo_path hash_of_emptiness flake_root' relative' (some (.Dir t'.entries))) ∧
    ((∀ t', Hashed hash_of_emptiness {[], two_files.stream hash_of_emptiness} t' →
      ∀ flake_root relative flake_root' relative',
      digest_repo_path hash_of_emptiness flake_root relative (some (.Dir two_files.entries)) =
        digest_repo_path hash_of_emptiness flake_root' relative' (some (.Dir t'.entries)) →
      SameFiles two_files t') ↔
      Readable hash_of_emptiness {[], two_files.stream hash_of_emptiness} two_files) :=
  flat_digests_separate_iff (hash_of_emptiness_inj two_files_stream) two_files two_files_hashed

end nxr_core.cas
