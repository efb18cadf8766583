-- Input and output: the errors of `std::io`, actions that may fail and
-- keep what they have changed, and files of text.
import Nxr.Text

namespace std_io

inductive ErrorKind where
  | NotFound
  | InvalidInput
  | InvalidData
  | Other
  deriving DecidableEq

structure Error where
  kind : ErrorKind
  message : String
  deriving DecidableEq

abbrev Action (σ α : Type) := EStateM Error σ α

variable {σ α β : Type}

def of_except (result : Except Error α) : Action σ α :=
  match result with
  | .ok a => pure a
  | .error e => throw e

def state : EStateM.Result Error σ α → σ
  | .ok _ s => s
  | .error _ s => s

def succeeds : EStateM.Result Error σ α → Bool
  | .ok .. => true
  | .error .. => false

def value : EStateM.Result Error σ α → Except Error α
  | .ok a _ => .ok a
  | .error e _ => .error e

theorem ok_of_succeeds {r : EStateM.Result Error σ Unit} (h : succeeds r = true) :
    r = .ok () (state r) := by
  cases r with
  | ok => rfl
  | error => cases h

section Steps

variable {ε : Type} {s t : σ} {a : α} {e : ε}

theorem bind_of_ok {x : EStateM ε σ α} {f : α → EStateM ε σ β} (h : x s = .ok a t) :
    (x >>= f) s = f a t := by
  change EStateM.bind x f s = _
  unfold EStateM.bind
  rw [h]

theorem bind_of_error {x : EStateM ε σ α} {f : α → EStateM ε σ β} (h : x s = .error e t) :
    (x >>= f) s = .error e t := by
  change EStateM.bind x f s = _
  unfold EStateM.bind
  rw [h]

theorem get_bind (f : σ → EStateM ε σ α) (s : σ) : (get >>= f) s = f s s := rfl

theorem modify_bind (g : σ → σ) (f : PUnit → EStateM ε σ α) (s : σ) :
    (modify g >>= f) s = f ⟨⟩ (g s) := rfl

end Steps

def read_to_string (bytes : ByteArray) : Except Error String :=
  match String.fromUTF8? bytes with
  | some text => .ok text
  | none => .error { kind := .InvalidData, message := "stream did not contain valid UTF-8" }

def is_char_boundary (text : String) (k : Nat) : Prop := String.Pos.Raw.IsValid text ⟨k⟩

theorem read_to_string_text (text : String) : read_to_string text.toByteArray = .ok text := by
  unfold read_to_string String.fromUTF8?
  rw [dif_pos text.isValidUTF8]
  rfl

theorem read_to_string_torn (text : String) {bytes : ByteArray} (h : ¬ bytes.IsValidUTF8) :
    ∃ e, read_to_string (text.toByteArray ++ bytes) = .error e := by
  have hbad : ¬ (text.toByteArray ++ bytes).IsValidUTF8 := by
    rw [← String.utf8Encode_toList]
    induction text.toList with
    | nil => simpa using h
    | cons c cs ih =>
      rw [← List.singleton_append, List.utf8Encode_append, ByteArray.append_assoc,
        ByteArray.isValidUTF8_utf8Encode_singleton_append_iff]
      exact ih
  unfold read_to_string String.fromUTF8?
  rw [dif_neg hbad]
  exact ⟨_, rfl⟩

theorem cut_at_boundary {text : String} {k : Nat} (h : is_char_boundary text k) :
    ∃ p q, p ++ q = text ∧ p.utf8ByteSize = k ∧ text.toByteArray.extract 0 k = p.toByteArray := by
  obtain ⟨p, q, rfl, hk⟩ := String.Pos.Raw.isValid_iff_exists_append.mp h
  have hsize : k = p.utf8ByteSize := congrArg String.Pos.Raw.byteIdx hk
  refine ⟨p, q, rfl, hsize.symm, ?_⟩
  rw [String.toByteArray_append, ByteArray.extract_append_eq_left]
  rw [hsize, String.size_toByteArray]

theorem cut_off_boundary {text : String} {k : Nat} (hk : k ≤ text.utf8ByteSize)
    (h : ¬ is_char_boundary text k) : ¬ (text.toByteArray.extract 0 k).IsValidUTF8 := by
  intro hvalid
  apply h
  exact String.Pos.Raw.isValid_iff_isValidUTF8_extract_zero.mpr ⟨hk, hvalid⟩

theorem shorter_prefix {p q r t : String} (h : p ++ q = r ++ t)
    (hlt : p.utf8ByteSize < r.utf8ByteSize) : ∃ rest, p ++ rest = r ∧ rest ≠ "" := by
  have hlist := congrArg String.toList h
  rw [String.toList_append, String.toList_append] at hlist
  rcases List.append_eq_append_iff.mp hlist with ⟨rest, hr, _⟩ | ⟨rest, hp, _⟩
  · have heq : p ++ String.ofList rest = r := by
      rw [← String.toList_inj, String.toList_append, String.toList_ofList, hr]
    refine ⟨String.ofList rest, heq, fun hempty => ?_⟩
    rw [hempty, String.append_empty] at heq
    rw [heq] at hlt
    omega
  · have heq : r ++ String.ofList rest = p := by
      rw [← String.toList_inj, String.toList_append, String.toList_ofList, hp]
    rw [← heq, String.utf8ByteSize_append] at hlt
    omega

end std_io
