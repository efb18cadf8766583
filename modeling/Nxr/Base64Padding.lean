-- Where the decoder of a log payload takes padding: each group
-- by itself, so before the end too.
import Nxr.Base64

open nxr_task (artifact.as_bytes)

namespace nxr_core.log_broker

def encode_log_bytes (data : List UInt8) : String := base64_encode data

def decode_log_bytes (encoded : String) : Except String (List UInt8) := base64_decode encoded

/-- The bytes that stand for six bits. -/
def Letter (c : UInt8) : Prop :=
  (65 ≤ c ∧ c ≤ 90) ∨ (97 ≤ c ∧ c ≤ 122) ∨ (48 ≤ c ∧ c ≤ 57) ∨ c = 43 ∨ c = 47

/-- What the byte at place `i` may be: padding only in the second half of a group. -/
def Placed (i : Nat) (c : UInt8) : Prop := Letter c ∨ (c = 61 ∧ 2 ≤ i % 4)

theorem val_ok_iff {c : UInt8} : (∃ n, val c = .ok n) ↔ Letter c := by
  unfold val Letter
  by_cases h1 : 65 ≤ c ∧ c ≤ 90
  · simp [h1]
  · by_cases h2 : 97 ≤ c ∧ c ≤ 122
    · simp [h1, h2]
    · by_cases h3 : 48 ≤ c ∧ c ≤ 57
      · simp [h1, h2, h3]
      · by_cases h4 : c = 43
        · simp [h4]
        · by_cases h5 : c = 47 <;> simp [h1, h2, h3, h4, h5]

theorem padding_no_letter : ¬ Letter 61 := by
  unfold Letter
  decide

theorem val_or_pad_ok_iff {c : UInt8} : (∃ n, val_or_pad c = .ok n) ↔ Letter c ∨ c = 61 := by
  unfold val_or_pad
  by_cases h : c = 61
  · simp [h]
  · rw [if_neg h, val_ok_iff]
    simp [h]

theorem decode_group {c0 c1 c2 c3 : UInt8} {rest : List UInt8} :
    (∃ d, decode_chunks (c0 :: c1 :: c2 :: c3 :: rest) = .ok d) ↔
      Letter c0 ∧ Letter c1 ∧ (Letter c2 ∨ c2 = 61) ∧ (Letter c3 ∨ c3 = 61) ∧
        ∃ d, decode_chunks rest = .ok d := by
  rw [← val_ok_iff, ← val_ok_iff, ← val_or_pad_ok_iff, ← val_or_pad_ok_iff]
  constructor
  · rintro ⟨d, h⟩
    rw [decode_chunks] at h
    obtain ⟨n0, h0, h⟩ := checks.bind_ok h
    obtain ⟨n1, h1, h⟩ := checks.bind_ok h
    obtain ⟨n2, h2, h⟩ := checks.bind_ok h
    obtain ⟨n3, h3, h⟩ := checks.bind_ok h
    obtain ⟨more, hmore, _⟩ := checks.bind_ok h
    exact ⟨⟨n0, h0⟩, ⟨n1, h1⟩, ⟨n2, h2⟩, ⟨n3, h3⟩, more, hmore⟩
  · rintro ⟨⟨n0, h0⟩, ⟨n1, h1⟩, ⟨n2, h2⟩, ⟨n3, h3⟩, more, hmore⟩
    exact ⟨_, by rw [decode_step h0 h1 h2 h3, hmore]; rfl⟩

theorem places_shift {c0 c1 c2 c3 : UInt8} {rest : List UInt8} :
    (∀ i c, (c0 :: c1 :: c2 :: c3 :: rest)[i]? = some c → Placed i c) ↔
      Letter c0 ∧ Letter c1 ∧ (Letter c2 ∨ c2 = 61) ∧ (Letter c3 ∨ c3 = 61) ∧
        ∀ i c, rest[i]? = some c → Placed i c := by
  have hmod : ∀ i, (i + 4) % 4 = i % 4 := fun i => Nat.add_mod_right i 4
  constructor
  · intro h
    have h0 := h 0 c0 rfl
    have h1 := h 1 c1 rfl
    have h2 := h 2 c2 rfl
    have h3 := h 3 c3 rfl
    simp only [Placed, Nat.zero_mod, Nat.one_mod, Nat.reduceMod, Nat.reduceLeDiff, and_false,
      or_false, and_true, le_refl] at h0 h1 h2 h3
    refine ⟨h0, h1, h2, h3, fun i c hc => ?_⟩
    have hi := h (i + 4) c hc
    rwa [Placed, hmod] at hi
  · rintro ⟨h0, h1, h2, h3, hrest⟩ i c hc
    rcases i with _ | _ | _ | _ | i
    · cases hc
      exact Or.inl h0
    · cases hc
      exact Or.inl h1
    · cases hc
      exact h2.imp_right fun h => ⟨h, by decide⟩
    · cases hc
      exact h3.imp_right fun h => ⟨h, by decide⟩
    · have hi := hrest i c hc
      rwa [Placed, ← hmod] at hi

theorem decode_chunks_ok_iff {bytes : List UInt8} (h4 : bytes.length % 4 = 0) :
    (∃ d, decode_chunks bytes = .ok d) ↔ ∀ i c, bytes[i]? = some c → Placed i c := by
  induction bytes using decode_chunks.induct with
  | case1 c0 c1 c2 c3 rest ih =>
    have hrest : rest.length % 4 = 0 := by
      simp only [List.length_cons] at h4
      omega
    rw [decode_group, places_shift, ih hrest]
  | case2 bytes hshort =>
    have hnil : bytes = [] := by
      rcases bytes with _ | ⟨c0, _ | ⟨c1, _ | ⟨c2, _ | ⟨c3, rest⟩⟩⟩⟩
      · rfl
      · exact absurd h4 (by simp)
      · exact absurd h4 (by simp)
      · exact absurd h4 (by simp)
      · exact absurd rfl (hshort c0 c1 c2 c3 rest)
    subst hnil
    simp [decode_chunks]

theorem decode_log_bytes_ok_iff (s : String) :
    (∃ d, decode_log_bytes s = .ok d) ↔ (artifact.as_bytes s).length % 4 = 0 ∧
      ∀ i c, (artifact.as_bytes s)[i]? = some c → Placed i c := by
  unfold decode_log_bytes base64_decode
  by_cases h4 : (artifact.as_bytes s).length % 4 = 0
  · rw [if_neg (not_not.mpr h4), decode_chunks_ok_iff h4, and_iff_right h4]
  · rw [if_pos h4]
    simp [h4]

def Standard (s : String) : Prop :=
  (artifact.as_bytes s).length % 4 = 0 ∧ ∃ letters padding,
    artifact.as_bytes s = letters ++ List.replicate padding 61 ∧ padding ≤ 2 ∧
      ∀ c ∈ letters, Letter c

structure PaddedInside (s : String) : Prop where
  groups : (artifact.as_bytes s).length % 4 = 0
  places : ∀ i c, (artifact.as_bytes s)[i]? = some c → Placed i c
  inside : ∃ (i j : Nat) (c : UInt8), i < j ∧ (artifact.as_bytes s)[i]? = some 61 ∧
    (artifact.as_bytes s)[j]? = some c ∧ c ≠ 61

theorem Standard.padding_last {s : String} (h : Standard s) {i j : Nat} {c : UInt8} (hij : i < j)
    (hi : (artifact.as_bytes s)[i]? = some 61) (hj : (artifact.as_bytes s)[j]? = some c) :
    c = 61 := by
  obtain ⟨_, letters, padding, hs, _, hletters⟩ := h
  rw [hs] at hi hj
  by_cases hlt : i < letters.length
  · rw [List.getElem?_append_left hlt] at hi
    exact absurd (hletters 61 (List.mem_of_getElem? hi)) padding_no_letter
  · rw [List.getElem?_append_right (by omega)] at hj
    exact List.eq_of_mem_replicate (List.mem_of_getElem? hj)

/-- Padding that is not followed by anything else makes a decoded payload standard. -/
theorem standard_of_padding_last {s : String} (h4 : (artifact.as_bytes s).length % 4 = 0)
    (hplaces : ∀ i c, (artifact.as_bytes s)[i]? = some c → Placed i c)
    (hlast : ∀ (i j : Nat) (c : UInt8), i < j → (artifact.as_bytes s)[i]? = some 61 →
      (artifact.as_bytes s)[j]? = some c → c = 61) : Standard s := by
  refine ⟨h4, ?_⟩
  generalize artifact.as_bytes s = bytes at h4 hplaces hlast
  have hsplit : bytes.takeWhile (· ≠ 61) ++ bytes.dropWhile (· ≠ 61) = bytes :=
    List.takeWhile_append_dropWhile
  have hletters : ∀ c ∈ bytes.takeWhile (· ≠ 61), c ≠ 61 := fun c hc => by
    simpa using List.mem_takeWhile_imp hc
  have hhead : ∀ c, (bytes.dropWhile (· ≠ 61)).head? = some c → c = 61 := fun c hc => by
    have hd := List.head?_dropWhile_not (· ≠ 61) bytes
    rw [hc] at hd
    simpa using hd
  generalize bytes.takeWhile (· ≠ 61) = letters at hsplit hletters
  generalize bytes.dropWhile (· ≠ 61) = rest at hsplit hhead
  subst hsplit
  have hat : ∀ k c, rest[k]? = some c → (letters ++ rest)[letters.length + k]? = some c :=
    fun k c hk => by rwa [List.getElem?_append_right (by omega), Nat.add_sub_cancel_left]
  have hrest : ∀ c ∈ rest, c = 61 := fun c hc => by
    obtain ⟨k, hk⟩ := List.mem_iff_getElem?.mp hc
    rcases k with _ | k
    · exact hhead c (List.head?_eq_getElem? ▸ hk)
    · obtain ⟨first, hfirst⟩ : ∃ first, rest[0]? = some first := by
        rcases rest with _ | ⟨first, rest⟩
        · simp at hk
        · exact ⟨first, rfl⟩
      have h61 := hhead first (List.head?_eq_getElem? ▸ hfirst)
      subst h61
      exact hlast _ _ c (by omega) (hat 0 61 hfirst) (hat (k + 1) c hk)
  have hplace : ∀ k, k < rest.length → 2 ≤ (letters.length + k) % 4 := fun k hk => by
    have hget := List.getElem?_eq_getElem hk
    rcases hplaces _ _ (hat k _ hget) with hletter | ⟨_, hmod⟩
    · rw [hrest _ (List.getElem_mem hk)] at hletter
      exact absurd hletter padding_no_letter
    · exact hmod
  refine ⟨letters, rest.length, ?_, ?_, fun c hc => ?_⟩
  · exact congrArg _ (List.eq_replicate_iff.mpr ⟨rfl, hrest⟩)
  · by_contra hlong
    have h0 := hplace 0 (by omega)
    have h1 := hplace 1 (by omega)
    have h2 := hplace 2 (by omega)
    omega
  · obtain ⟨k, hk⟩ := List.mem_iff_getElem?.mp hc
    obtain ⟨hlt, _⟩ := List.getElem?_eq_some_iff.mp hk
    refine (hplaces k c ?_).resolve_right fun h => hletters c hc h.1
    rwa [List.getElem?_append_left hlt]

/-- What is encoded is decoded again. A payload that is decoded is standard exactly when nothing
comes after a padding. -/
theorem padding_is_counted_by_the_group (data : List UInt8) (s : String) :
    decode_log_bytes (encode_log_bytes data) = .ok data ∧
    (((∃ d, decode_log_bytes s = .ok d) → Standard s) ↔ ¬ PaddedInside s) := by
  refine ⟨base64_round_trip data, ?_⟩
  rw [decode_log_bytes_ok_iff]
  constructor
  · rintro hstandard ⟨hgroups, hplaces, i, j, c, hij, hi, hj, hc⟩
    exact hc ((hstandard ⟨hgroups, hplaces⟩).padding_last hij hi hj)
  · rintro hnot ⟨hgroups, hplaces⟩
    refine standard_of_padding_last hgroups hplaces fun i j c hij hi hj => ?_
    by_contra hc
    exact hnot ⟨hgroups, hplaces, i, j, c, hij, hi, hj, hc⟩

/-- A payload with its padding in the middle is decoded. -/
theorem padding_in_the_middle_is_decoded :
    decode_log_bytes "AA==AAAA" = .ok [0, 0, 0, 0] ∧ ¬ Standard "AA==AAAA" := by
  have hbytes : artifact.as_bytes "AA==AAAA" = [65, 65, 61, 61, 65, 65, 65, 65] := by decide
  refine ⟨by decide, fun h => ?_⟩
  have hlast := h.padding_last (i := 3) (j := 4) (c := 65) (by decide) (by rw [hbytes]; rfl)
    (by rw [hbytes]; rfl)
  exact absurd hlast (by decide)

end nxr_core.log_broker
