-- A followed log stream gives on what was sent exactly where no timeout cuts a line that
-- carries bytes.
import Mathlib.Data.List.Flatten
import Nxr.LogFollow

open serde_json
open nxr_core.log_broker (base64_round_trip)
open nxr_task (artifact.as_bytes artifact.as_bytes_ofList artifact.as_bytes_append)

namespace nxr_core.daemon

/-! ## Bytes of a text -/

theorem ascii_byte {c : Char} {b : UInt8} (hb : b ∈ String.utf8EncodeChar c)
    (hascii : b.toNat < 128) : c = Char.ofNat b.toNat ∧ String.utf8EncodeChar c = [b] := by
  have hhigh : ∀ n, n < 128 → b = UInt8.ofNat (n + 128) → False := by
    rintro n hn rfl
    rw [UInt8.toNat_ofNat'] at hascii
    omega
  unfold String.utf8EncodeChar at hb ⊢
  generalize hv : c.val.toNat = v at hb ⊢
  dsimp only at hb ⊢
  by_cases hone : v ≤ 0x7f
  · rw [if_pos hone] at hb ⊢
    have hb := List.mem_singleton.mp hb
    refine ⟨?_, by rw [hb]⟩
    rw [hb, UInt8.toNat_ofNat', Nat.mod_eq_of_lt (by omega), ← hv]
    exact (Char.ofNat_toNat c).symm
  · exfalso
    rw [if_neg hone] at hb
    by_cases htwo : v ≤ 0x7ff
    · rw [if_pos htwo] at hb
      simp only [List.mem_cons, List.not_mem_nil, or_false] at hb
      rcases hb with h | h
      · exact hhigh (v / 64 % 32 + 64) (by omega) h
      · exact hhigh (v % 64) (by omega) h
    · rw [if_neg htwo] at hb
      by_cases hthree : v ≤ 0xffff
      · rw [if_pos hthree] at hb
        simp only [List.mem_cons, List.not_mem_nil, or_false] at hb
        rcases hb with h | h | h
        · exact hhigh (v / 4096 % 16 + 96) (by omega) h
        · exact hhigh (v / 64 % 64) (by omega) h
        · exact hhigh (v % 64) (by omega) h
      · rw [if_neg hthree] at hb
        simp only [List.mem_cons, List.not_mem_nil, or_false] at hb
        rcases hb with h | h | h | h
        · exact hhigh (v / 262144 % 8 + 112) (by omega) h
        · exact hhigh (v / 4096 % 64) (by omega) h
        · exact hhigh (v / 64 % 64) (by omega) h
        · exact hhigh (v % 64) (by omega) h

theorem from_utf8_as_bytes (text : String) : from_utf8 (artifact.as_bytes text) = some text := by
  have hbytes : ByteArray.mk (artifact.as_bytes text).toArray = text.toByteArray := by
    unfold artifact.as_bytes
    simp
  unfold from_utf8 String.fromUTF8?
  rw [hbytes, dif_pos text.isValidUTF8]
  rfl

variable {text : String}

theorem as_bytes_from_utf8 {bytes : List UInt8}
    (h : from_utf8 bytes = some text) : artifact.as_bytes text = bytes := by
  unfold from_utf8 String.fromUTF8? at h
  split at h
  · cases h
    rfl
  · exact absurd h (by simp)

theorem as_bytes_toList (text : String) :
    artifact.as_bytes text = text.toList.flatMap String.utf8EncodeChar := by
  rw [← artifact.as_bytes_ofList, String.ofList_toList]

theorem ends_in_ascii {front : List UInt8} {b : UInt8} (hascii : b.toNat < 128)
    (h : artifact.as_bytes text = front ++ [b]) : ∃ cut, text.toList = cut ++ [Char.ofNat b.toNat] ∧
      artifact.as_bytes (String.ofList cut) = front := by
  rw [as_bytes_toList] at h
  rcases List.eq_nil_or_concat' text.toList with hnil | ⟨cut, c, hcut⟩
  · rw [hnil] at h
    exact absurd h (by simp)
  · rw [hcut, List.flatMap_append, List.flatMap_singleton] at h
    have hne : String.utf8EncodeChar c ≠ [] := by
      rw [← List.length_pos_iff, String.length_utf8EncodeChar]
      exact Char.utf8Size_pos c
    have hlast := congrArg List.getLast? h
    rw [List.getLast?_append_of_ne_nil _ hne, List.getLast?_concat] at hlast
    obtain ⟨hchar, hbytes⟩ := ascii_byte (List.mem_of_getLast? hlast) hascii
    rw [hbytes] at h
    exact ⟨cut, by rw [hcut, hchar], by
      rw [artifact.as_bytes_ofList]
      exact (List.append_inj' h rfl).1⟩

theorem newline_bytes : artifact.as_bytes "\n" = [10] := by decide

theorem no_newline_byte (h : '\n' ∉ text.toList) : (10 : UInt8) ∉ artifact.as_bytes text := by
  rw [as_bytes_toList]
  intro hmem
  obtain ⟨c, hc, hbyte⟩ := List.mem_flatMap.mp hmem
  obtain ⟨hchar, -⟩ := ascii_byte hbyte (by decide)
  exact h (hchar ▸ hc)

/-! ## Blanks around a line -/

theorem toList_newline (text : String) : (text ++ "\n").toList = text.toList ++ ['\n'] := by
  rw [String.toList_append]
  rfl

theorem trim_newline (text : String) : std_str.trim (text ++ "\n") = std_str.trim text := by
  unfold std_str.trim
  rw [toList_newline, List.dropWhile_append]
  have hblank : std_str.is_whitespace '\n' = true := by decide
  split
  · next hempty =>
    rw [List.isEmpty_iff.mp hempty]
    simp [hblank]
  · rw [List.reverse_append, List.reverse_singleton, List.singleton_append,
      List.dropWhile_cons_of_pos hblank]

theorem trim_visible {first last : Char} {middle : List Char}
    (h : text.toList = first :: (middle ++ [last])) (hfirst : std_str.is_whitespace first = false)
    (hlast : std_str.is_whitespace last = false) : std_str.trim text = text := by
  unfold std_str.trim
  rw [h, List.dropWhile_cons_of_neg (by simp [hfirst]), ← List.cons_append, List.reverse_append,
    List.reverse_singleton, List.singleton_append, List.dropWhile_cons_of_neg (by simp [hlast]),
    List.reverse_cons, List.reverse_reverse, List.cons_append, ← h, String.ofList_toList]

theorem trim_last_visible {front : List Char} {last : Char}
    (h : text.toList = front ++ [last]) (hlast : std_str.is_whitespace last = false) :
    std_str.trim text ≠ "" := by
  intro hempty
  unfold std_str.trim at hempty
  have hnil := String.ofList_eq_empty_iff.mp hempty
  have hall := List.dropWhile_eq_nil_iff.mp (List.reverse_eq_nil_iff.mp hnil)
  have hmem : last ∈ (text.toList.dropWhile std_str.is_whitespace).reverse := by
    rw [h, List.mem_reverse, List.dropWhile_append]
    split
    · rw [List.dropWhile_cons_of_neg (by simp [hlast])]
      exact List.mem_cons_self
    · exact List.mem_append_right _ List.mem_cons_self
  have hblank := hall last hmem
  rw [hlast] at hblank
  cases hblank

/-! ## The text of a response -/

structure Carries (response : DaemonResponse) : Prop where
  error : response.error = none
  result : ∃ key text key' text', response.result =
    some (.Object [(key, .Str text), (key', .Str text')])

theorem chunk_carries (id : UInt64) (data : List UInt8) : Carries (chunk_response id data) :=
  ⟨rfl, _, _, _, _, rfl⟩

theorem eof_carries (id : UInt64) (stream : String) : Carries (eof_response id stream) :=
  ⟨rfl, _, _, _, _, rfl⟩

section Text

variable (float_text : UInt64 → String) {response : DaemonResponse}

theorem response_chars (h : Carries response) : ∃ middle,
    (response_text float_text response).toList = '\x7b' :: (middle ++ ['\x7d']) ∧
      '\n' ∉ middle := by
  obtain ⟨herror, key, text, key', text', hresult⟩ := h
  unfold response_text value_text DaemonResponse.members
  rw [String.toList_ofList, herror, hresult]
  simp only [Option.map_some, Option.map_none, Option.toList_some, Option.toList_none,
    List.cons_append, List.nil_append, List.append_nil, write_value, write_members, write_number]
  have hone := write_str_one_line
  have hint := write_int_one_line
  have hbool : '\n' ∉ write_value float_text (.Bool response.ok) := by
    cases response.ok <;> simp [write_value]
  refine ⟨_, congrArg _ (List.dropLast_append_getLast? _ ?_).symm, fun hmem => ?_⟩
  · simp [List.getLast?_append, List.getLast?_cons]
  · have hline := List.mem_of_mem_dropLast hmem
    simp [hone, hint, hbool] at hline

theorem response_trim (h : Carries response) :
    std_str.trim (response_text float_text response) = response_text float_text response := by
  obtain ⟨middle, htext, -⟩ := response_chars float_text h
  exact trim_visible htext (by decide) (by decide)

theorem response_no_newline (h : Carries response) :
    (10 : UInt8) ∉ artifact.as_bytes (response_text float_text response) := by
  obtain ⟨middle, htext, hmiddle⟩ := response_chars float_text h
  apply no_newline_byte
  rw [htext]
  simp [hmiddle]

/-- What is left of a response's text ends in its closing bracket. -/
theorem cut_visible (h : Carries response) {cut : String} (hne : cut ≠ "")
    (hcut : artifact.as_bytes cut <:+ artifact.as_bytes (response_text float_text response)) :
    std_str.trim cut ≠ "" := by
  obtain ⟨middle, htext, -⟩ := response_chars float_text h
  have hbytes : artifact.as_bytes (response_text float_text response) =
      ('\x7b' :: middle).flatMap String.utf8EncodeChar ++ [125] := by
    rw [as_bytes_toList, htext, ← List.cons_append, List.flatMap_append]
    rfl
  have hcut_ne : artifact.as_bytes cut ≠ [] := by
    intro hnil
    apply hne
    have hfrom := from_utf8_as_bytes cut
    rw [hnil, ← List.nil_append ([] : List UInt8)] at hfrom
    exact (Option.some.inj (hfrom.symm.trans (from_utf8_as_bytes ""))).trans rfl
  obtain ⟨front, last, hlast⟩ := (List.eq_nil_or_concat' (artifact.as_bytes cut)).resolve_left
    hcut_ne
  obtain ⟨before, hbefore⟩ := hcut
  rw [hbytes, hlast, ← List.append_assoc] at hbefore
  have hbyte : last = 125 := List.singleton_inj.mp (List.append_inj' hbefore rfl).2
  rw [hbyte] at hlast
  obtain ⟨chars, hchars, -⟩ := ends_in_ascii (by decide) hlast
  exact trim_last_visible hchars (by decide)

end Text

/-! ## Reading a line -/

def next_line : List Slot → Ending × List UInt8 × List Slot
  | [] => (.Eof, [], [])
  | none :: rest => (.Timeout, [], rest)
  | some byte :: rest =>
    if byte = 10 then (.Line, [10], rest)
    else ((next_line rest).1, byte :: (next_line rest).2.1, (next_line rest).2.2)

def BufReader.slots (reader : BufReader) : List Slot :=
  reader.buffer.map some ++ slots_of reader.arrivals

theorem next_line_bytes {bytes : List UInt8} (h : 10 ∉ bytes) (rest : List Slot) :
    next_line (bytes.map some ++ rest) =
      ((next_line rest).1, bytes ++ (next_line rest).2.1, (next_line rest).2.2) := by
  induction bytes with
  | nil => rfl
  | cons byte bytes ih =>
    rw [List.mem_cons, not_or] at h
    rw [List.map_cons, List.cons_append, next_line, if_neg (Ne.symm h.1), ih h.2]
    rfl

theorem take_line_none {buffer : List UInt8} (h : take_line buffer = none) : 10 ∉ buffer := by
  unfold take_line at h
  split at h
  · exact absurd h (by simp)
  · next hdrop =>
    intro hmem
    simpa using List.dropWhile_eq_nil_iff.mp hdrop 10 hmem

theorem take_line_some {buffer taken rest : List UInt8}
    (h : take_line buffer = some (taken, rest)) :
    ∃ bytes, 10 ∉ bytes ∧ taken = bytes ++ [10] ∧ buffer = bytes ++ 10 :: rest := by
  unfold take_line at h
  split at h
  · next newline after hdrop =>
    cases h
    have hnewline : newline = 10 := by
      have hhead := List.head?_dropWhile_not (fun b : UInt8 => b != 10) buffer
      rw [hdrop] at hhead
      simpa using hhead
    have hbytes : (10 : UInt8) ∉ buffer.takeWhile (· != 10) := by
      intro hmem
      simpa using List.mem_takeWhile_imp hmem
    have hsplit := List.takeWhile_append_dropWhile (p := fun b : UInt8 => b != 10) (l := buffer)
    rw [hdrop, hnewline] at hsplit
    exact ⟨_, hbytes, by rw [hnewline], hsplit.symm⟩
  · exact absurd h (by simp)

theorem next_line_taken {buffer taken rest : List UInt8}
    (h : take_line buffer = some (taken, rest)) (more : List Slot) :
    next_line (buffer.map some ++ more) = (.Line, taken, rest.map some ++ more) := by
  obtain ⟨bytes, hbytes, rfl, rfl⟩ := take_line_some h
  rw [List.map_append, List.append_assoc, next_line_bytes hbytes]
  simp [next_line]

/-- Whatever the buffer holds, the bytes come in their order. -/
theorem read_until_slots (line buffer : List UInt8) (arrivals : List Arrival) :
    let read := read_until line buffer arrivals
    let found := next_line (buffer.map some ++ slots_of arrivals)
    read.1 = found.1 ∧ read.2.1 = line ++ found.2.1 ∧ read.2.2.slots = found.2.2 := by
  induction arrivals generalizing line buffer with
  | nil =>
    unfold read_until
    cases htake : take_line buffer with
    | none =>
      have h := next_line_bytes (take_line_none htake) []
      simp only [slots_of, List.flatMap_nil, h]
      simp [next_line, BufReader.slots, slots_of]
    | some taken =>
      obtain ⟨taken, rest⟩ := taken
      simp only [next_line_taken htake]
      simp [BufReader.slots]
  | cons arrival more ih =>
    unfold read_until
    cases htake : take_line buffer with
    | none =>
      have h := next_line_bytes (take_line_none htake) (slots_of (arrival :: more))
      simp only [h]
      cases arrival with
      | Timeout => simp [slots_of, Arrival.slots, next_line, BufReader.slots]
      | Bytes first rest =>
        obtain ⟨hending, hbytes, hslots⟩ := ih (line ++ buffer) (first :: rest)
        exact ⟨hending, hbytes.trans (List.append_assoc _ _ _), hslots⟩
    | some taken =>
      obtain ⟨taken, rest⟩ := taken
      simp only [next_line_taken htake]
      simp [BufReader.slots]

/-! ## One line of the loop -/

section Loop

variable (from_str : String → Option DaemonResponse)

/-- What the loop makes of the bytes before a newline. -/
def taken_line (piece : List UInt8) : Except DaemonClientError Frame :=
  match from_utf8 (piece ++ [10]) with
  | none => .error .Io
  | some text =>
    if std_str.trim text = "" then .ok .Skip
    else
      match from_str (std_str.trim text) with
      | none => .error .Json
      | some response => response_frame response

/-- The rest of the loop, for a caller that wants to go on. -/
def after_frame (turns calls idle : Nat) (reader : BufReader) (chunks : List (List UInt8)) :
    Except DaemonClientError Frame → Option (Except DaemonClientError Unit × List (List UInt8))
  | .error error => some (.error error, chunks)
  | .ok .Skip => follow_loop from_str (fun _ => true) turns calls idle reader chunks
  | .ok (.Chunk data) =>
    follow_loop from_str (fun _ => true) turns calls 0 reader (chunks ++ [data])
  | .ok .Eof => some (.ok (), chunks)

variable (turns calls idle : Nat) {reader : BufReader} (chunks : List (List UInt8))

theorem read_line_slots (reader : BufReader) :
    (read_until [] reader.buffer reader.arrivals).1 = (next_line reader.slots).1 ∧
    (read_until [] reader.buffer reader.arrivals).2.1 = (next_line reader.slots).2.1 ∧
    (read_until [] reader.buffer reader.arrivals).2.2.slots = (next_line reader.slots).2.2 := by
  obtain ⟨hending, hbytes, hslots⟩ := read_until_slots [] reader.buffer reader.arrivals
  exact ⟨hending, hbytes.trans (List.nil_append _), hslots⟩

variable {rest : List Slot}

theorem loop_line {bytes : List UInt8} (hbytes : 10 ∉ bytes)
    (hslots : reader.slots = bytes.map some ++ some 10 :: rest) :
    ∃ reader', reader'.slots = rest ∧
      follow_loop from_str (fun _ => true) (turns + 1) calls idle reader chunks =
        after_frame from_str turns calls idle reader' chunks (taken_line from_str bytes) := by
  obtain ⟨hending, hread, hrest⟩ := read_line_slots reader
  rw [hslots, next_line_bytes hbytes] at hending hread hrest
  simp only [next_line, if_true] at hending hread hrest
  rw [follow_loop]
  unfold BufReader.read_line taken_line
  generalize read_until [] reader.buffer reader.arrivals = found at hending hread hrest ⊢
  obtain ⟨ending, read, after⟩ := found
  simp only at hending hread hrest
  subst hending hread
  refine ⟨after, hrest, ?_⟩
  dsimp only
  cases from_utf8 (bytes ++ [10]) with
  | none => rfl
  | some text =>
    simp only [reduceCtorEq, if_false, List.length_append, List.length_singleton,
      String.empty_append]
    split
    · rfl
    · cases from_str (std_str.trim text) with
      | none => rfl
      | some response =>
        dsimp only
        cases response_frame response with
        | error error => rfl
        | ok frame => cases frame <;> rfl

theorem loop_timeout {bytes : List UInt8} (hbytes : 10 ∉ bytes)
    (hslots : reader.slots = bytes.map some ++ none :: rest) :
    ∃ reader', reader'.slots = rest ∧
      follow_loop from_str (fun _ => true) (turns + 1) calls idle reader chunks =
        follow_loop from_str (fun _ => true) turns (calls + 1) 0 reader' chunks := by
  obtain ⟨hending, hread, hrest⟩ := read_line_slots reader
  rw [hslots, next_line_bytes hbytes] at hending hread hrest
  simp only [next_line] at hending hread hrest
  refine ⟨_, hrest, ?_⟩
  rw [follow_loop]
  unfold BufReader.read_line
  generalize read_until [] reader.buffer reader.arrivals = found at hending hread ⊢
  obtain ⟨ending, read, after⟩ := found
  simp only at hending hread
  subst hending hread
  dsimp only
  cases from_utf8 (bytes ++ []) <;> rfl

theorem loop_end (hslots : reader.slots = []) :
    follow_loop from_str (fun _ => true) (turns + 1) calls idle reader chunks =
      some (.ok (), chunks) := by
  obtain ⟨hending, hread, -⟩ := read_line_slots reader
  rw [hslots] at hending hread
  simp only [next_line] at hending hread
  rw [follow_loop]
  unfold BufReader.read_line
  generalize read_until [] reader.buffer reader.arrivals = found at hending hread ⊢
  obtain ⟨ending, read, after⟩ := found
  simp only at hending hread
  subst hending hread
  have hempty : from_utf8 [] = some "" := from_utf8_as_bytes ""
  dsimp only
  rw [hempty]
  rfl

theorem last_piece_bytes (piece bytes : List UInt8) (rest : List Slot) :
    last_piece piece (bytes.map some ++ rest) = last_piece (piece ++ bytes) rest := by
  induction bytes generalizing piece with
  | nil => rw [List.append_nil]; rfl
  | cons byte bytes ih =>
    rw [List.map_cons, List.cons_append, last_piece, ih, List.append_assoc]
    rfl

theorem timeout_cases (line : List Slot) : (∃ bytes : List UInt8, line = bytes.map some) ∨
    ∃ (bytes : List UInt8) (rest : List Slot), line = bytes.map some ++ none :: rest := by
  induction line with
  | nil => exact .inl ⟨[], rfl⟩
  | cons slot line ih =>
    cases slot with
    | none => exact .inr ⟨[], line, rfl⟩
    | some byte =>
      rcases ih with ⟨bytes, rfl⟩ | ⟨bytes, rest, rfl⟩
      · exact .inl ⟨byte :: bytes, rfl⟩
      · exact .inr ⟨byte :: bytes, rest, rfl⟩

/-- A line with timeouts: what comes before the last one is dropped. By induction on its length. -/
theorem loop_slots {line : List Slot} (hline : some 10 ∉ line)
    (hslots : reader.slots = line ++ some 10 :: rest)
    (hturns : (line ++ some 10 :: rest).length < turns) :
    ∃ turns' calls' idle' reader', rest.length < turns' ∧ reader'.slots = rest ∧
      follow_loop from_str (fun _ => true) turns calls idle reader chunks =
        after_frame from_str turns' calls' idle' reader' chunks
          (taken_line from_str (last_piece [] line)) := by
  induction hlength : line.length using Nat.strong_induction_on
    generalizing line turns calls idle reader with
  | _ length ih =>
    subst hlength
    obtain ⟨turns, rfl⟩ : ∃ before, turns = before + 1 := ⟨turns - 1, by omega⟩
    rw [List.length_append, List.length_cons] at hturns
    rcases timeout_cases line with ⟨bytes, rfl⟩ | ⟨bytes, later, rfl⟩
    · have hbytes : 10 ∉ bytes := fun hmem => hline (List.mem_map_of_mem hmem)
      obtain ⟨reader', hrest, hloop⟩ :=
        loop_line from_str turns calls idle chunks hbytes hslots
      have hpiece := last_piece_bytes [] bytes []
      rw [List.append_nil] at hpiece
      rw [hpiece]
      exact ⟨turns, calls, idle, reader', by omega, hrest, hloop⟩
    · have hbytes : 10 ∉ bytes :=
        fun hmem => hline (List.mem_append_left _ (List.mem_map_of_mem hmem))
      rw [List.append_assoc] at hslots
      obtain ⟨reader', hrest, hloop⟩ :=
        loop_timeout from_str turns calls idle chunks hbytes hslots
      rw [List.length_append, List.length_cons] at hturns
      have hlater := ih later.length (by simp; omega) turns (calls + 1) 0
        (fun hmem => hline (List.mem_append_right _ (List.mem_cons_of_mem _ hmem))) hrest
        (by simp; omega) rfl
      rw [hloop, last_piece_bytes]
      exact hlater

end Loop

/-! ## What is left of a line -/

section Lines

variable {float_text : UInt64 → String} {from_str : String → Option DaemonResponse}
  {response : DaemonResponse} {responses : List DaemonResponse}

theorem last_piece_suffix (piece : List UInt8) (line : List Slot) :
    last_piece piece line <:+ piece ++ line.filterMap id := by
  induction line generalizing piece with
  | nil => rw [List.filterMap_nil, List.append_nil]; rfl
  | cons slot line ih =>
    cases slot with
    | none => exact (ih []).trans (List.suffix_append _ _)
    | some byte =>
      have h := ih (piece ++ [byte])
      rwa [List.append_assoc] at h

theorem taken_whole (hreads : Reads float_text from_str responses) (hmem : response ∈ responses)
    (h : Carries response) :
    taken_line from_str (artifact.as_bytes (response_text float_text response)) =
      response_frame response := by
  have htext := from_utf8_as_bytes (response_text float_text response ++ "\n")
  rw [artifact.as_bytes_append, newline_bytes] at htext
  have hne : response_text float_text response ≠ "" := by
    obtain ⟨middle, hchars, -⟩ := response_chars float_text h
    intro hempty
    rw [hempty] at hchars
    exact absurd hchars (by simp)
  unfold taken_line
  rw [htext]
  dsimp only
  rw [trim_newline, response_trim float_text h, if_neg hne, (hreads response hmem).1]

theorem taken_blank : taken_line from_str [] = .ok .Skip := by
  have htext := from_utf8_as_bytes "\n"
  rw [newline_bytes] at htext
  unfold taken_line
  rw [List.nil_append, htext]
  rfl

theorem taken_cut (hreads : Reads float_text from_str responses) (hmem : response ∈ responses)
    (h : Carries response) {piece : List UInt8} (hnonempty : piece ≠ [])
    (hcut : piece <:+ artifact.as_bytes (response_text float_text response))
    (hne : piece ≠ artifact.as_bytes (response_text float_text response)) :
    ∃ error, taken_line from_str piece = .error error := by
  unfold taken_line
  cases htext : from_utf8 (piece ++ [10]) with
  | none => exact ⟨_, rfl⟩
  | some text =>
    obtain ⟨cut, hchars, hbytes⟩ := ends_in_ascii (by decide) (as_bytes_from_utf8 htext)
    have hline : text = String.ofList cut ++ "\n" := by
      rw [← String.toList_inj, hchars, toList_newline, String.toList_ofList]
      rfl
    rw [← hbytes] at hcut hne hnonempty
    have hsome : String.ofList cut ≠ "" := by
      rintro hempty
      rw [hempty] at hnonempty
      exact hnonempty rfl
    have hwhole : String.ofList cut ≠ response_text float_text response :=
      fun heq => hne (by rw [heq])
    dsimp only
    rw [hline, trim_newline, if_neg (cut_visible float_text h hsome hcut),
      (hreads response hmem).2 _ hcut hwhole hsome]
    exact ⟨_, rfl⟩

theorem chunk_frame (id : UInt64) (data : List UInt8) :
    response_frame (chunk_response id data) = .ok (.Chunk data) := by
  simp [response_frame, chunk_response, Value.get, Value.as_str, base64_round_trip,
    List.lookup_cons]

theorem eof_frame (id : UInt64) (stream : String) :
    response_frame (eof_response id stream) = .ok .Eof := by
  simp [response_frame, eof_response, Value.get, Value.as_str, List.lookup_cons]

variable {slots : List Slot}

theorem split_slots {front : List UInt8} {byte : UInt8} {back : List UInt8}
    (h : slots.filterMap id = front ++ byte :: back) : ∃ line rest,
      slots = line ++ some byte :: rest ∧ line.filterMap id = front ∧
        rest.filterMap id = back := by
  induction slots generalizing front with
  | nil => exact absurd h (by simp)
  | cons slot slots ih =>
    cases slot with
    | none =>
      obtain ⟨line, rest, rfl, hline, hrest⟩ := ih h
      exact ⟨none :: line, rest, rfl, hline, hrest⟩
    | some first =>
      cases front with
      | nil =>
        obtain ⟨hfirst, hback⟩ := List.cons.inj h
        cases hfirst
        exact ⟨[], slots, rfl, rfl, hback⟩
      | cons other front =>
        obtain ⟨hfirst, hback⟩ := List.cons.inj h
        cases hfirst
        obtain ⟨line, rest, rfl, hline, hrest⟩ := ih hback
        exact ⟨some first :: line, rest, rfl, by rw [List.filterMap_cons, hline]; rfl, hrest⟩

theorem split_lines_newline {line : List Slot} (hline : some 10 ∉ line) (front rest : List Slot) :
    split_lines front (line ++ some 10 :: rest) = (front ++ line) :: split_lines [] rest := by
  induction line generalizing front with
  | nil => rw [List.append_nil]; rfl
  | cons slot line ih =>
    rw [List.mem_cons, not_or] at hline
    rw [List.cons_append, split_lines, if_neg (Ne.symm hline.1), ih hline.2, List.append_assoc]
    rfl

theorem split_lines_none (h : slots.filterMap id = []) (front : List Slot) :
    split_lines front slots = [] := by
  induction slots generalizing front with
  | nil => rfl
  | cons slot slots ih =>
    cases slot with
    | none => exact ih h _
    | some byte => exact absurd h (by simp)

/-- Only timeouts are left, and then the connection is closed. -/
theorem loop_quiet (hslots : slots.filterMap id = []) (turns calls idle : Nat)
    {reader : BufReader} (hreader : reader.slots = slots) (hturns : slots.length < turns)
    (chunks : List (List UInt8)) :
    follow_loop from_str (fun _ => true) turns calls idle reader chunks =
      some (.ok (), chunks) := by
  induction slots generalizing turns calls idle reader with
  | nil =>
    obtain ⟨turns, rfl⟩ : ∃ before, turns = before + 1 := ⟨turns - 1, by omega⟩
    exact loop_end from_str turns calls idle chunks hreader
  | cons slot slots ih =>
    obtain ⟨turns, rfl⟩ : ∃ before, turns = before + 1 := ⟨turns - 1, by omega⟩
    rw [List.length_cons] at hturns
    cases slot with
    | some byte => exact absurd hslots (by simp)
    | none =>
      have htimeout : reader.slots = ([] : List UInt8).map some ++ none :: slots := hreader
      obtain ⟨reader', hrest, hloop⟩ :=
        loop_timeout from_str turns calls idle chunks (by simp) htimeout
      rw [hloop]
      exact ih hslots turns (calls + 1) 0 hrest (by omega)

theorem line_cases (hreads : Reads float_text from_str responses) (hmem : response ∈ responses)
    (h : Carries response) {line : List Slot} {data : List UInt8}
    (hline : line.filterMap id = artifact.as_bytes (response_text float_text response)) :
    (Intact float_text ⟨response, data⟩ line ∧
      taken_line from_str (last_piece [] line) = response_frame response) ∨
    ((Intact float_text ⟨response, data⟩ line ↔ data = []) ∧
      taken_line from_str (last_piece [] line) = .ok .Skip) ∨
    (¬ Intact float_text ⟨response, data⟩ line ∧
      ∃ error, taken_line from_str (last_piece [] line) = .error error) := by
  have hsuffix := last_piece_suffix [] line
  rw [List.nil_append, hline] at hsuffix
  by_cases hwhole : last_piece [] line =
      artifact.as_bytes (response_text float_text response)
  · rw [hwhole]
    exact .inl ⟨.inl hwhole, taken_whole hreads hmem h⟩
  · by_cases hblank : last_piece [] line = []
    · refine .inr (.inl ⟨⟨fun hintact => ?_, fun hdata => .inr ⟨hblank, hdata⟩⟩, ?_⟩)
      · exact (hintact.resolve_left hwhole).2
      · rw [hblank]
        exact taken_blank
    · refine .inr (.inr ⟨?_, taken_cut hreads hmem h hblank hsuffix hwhole⟩)
      rintro (hintact | ⟨hintact, -⟩)
      · exact hwhole hintact
      · exact hblank hintact

end Lines

/-! ## The whole stream -/

section Stream

variable {float_text : UInt64 → String} {from_str : String → Option DaemonResponse}
  {responses : List DaemonResponse}

def Ends (chunks datas : List (List UInt8)) (intact : Prop)
    (result : Option (Except DaemonClientError Unit × List (List UInt8))) : Prop :=
  (¬ intact ∧ ∃ error got, result = some (.error error, got)) ∨
    ∃ got, result = some (.ok (), chunks ++ got) ∧ got.flatten.length ≤ datas.flatten.length ∧
      (got.flatten = datas.flatten ↔ intact)

theorem Ends.failed {chunks datas : List (List UInt8)} {intact : Prop}
    {result : Option (Except DaemonClientError Unit × List (List UInt8))} (hnot : ¬ intact)
    {error : DaemonClientError} {got : List (List UInt8)}
    (hresult : result = some (.error error, got)) : Ends chunks datas intact result :=
  .inl ⟨hnot, error, got, hresult⟩

theorem Ends.ended {chunks datas : List (List UInt8)} {intact : Prop}
    {result : Option (Except DaemonClientError Unit × List (List UInt8))}
    (got : List (List UInt8)) (hresult : result = some (.ok (), chunks ++ got))
    (hlength : got.flatten.length ≤ datas.flatten.length)
    (hiff : got.flatten = datas.flatten ↔ intact) : Ends chunks datas intact result :=
  .inr ⟨got, hresult, hlength, hiff⟩

theorem first_line (hreads : Reads float_text from_str responses) {response : DaemonResponse}
    (hmem : response ∈ responses) (hcarries : Carries response) (data : List UInt8)
    {more : List UInt8} {turns : Nat} (calls idle : Nat) {reader : BufReader}
    (chunks : List (List UInt8)) (hturns : reader.slots.length < turns)
    (hsent : reader.slots.filterMap id = write_response float_text response ++ more) :
    ∃ line rest turns' calls' idle' reader' frame, rest.length < turns' ∧ reader'.slots = rest ∧
      rest.filterMap id = more ∧
      split_lines [] reader.slots = line :: split_lines [] rest ∧
      follow_loop from_str (fun _ => true) turns calls idle reader chunks =
        after_frame from_str turns' calls' idle' reader' chunks frame ∧
      ((Intact float_text ⟨response, data⟩ line ∧ frame = response_frame response) ∨
        ((Intact float_text ⟨response, data⟩ line ↔ data = []) ∧ frame = .ok .Skip) ∨
        (¬ Intact float_text ⟨response, data⟩ line ∧ ∃ error, frame = .error error)) := by
  unfold write_response at hsent
  rw [artifact.as_bytes_append, newline_bytes, List.append_assoc, List.singleton_append] at hsent
  obtain ⟨line, rest, hslots, hline, hmore⟩ := split_slots hsent
  have hno : some 10 ∉ line := by
    intro hin
    apply response_no_newline float_text hcarries
    rw [← hline]
    exact List.mem_filterMap.mpr ⟨_, hin, rfl⟩
  obtain ⟨turns', calls', idle', reader', hlt, hreader, hloop⟩ :=
    loop_slots from_str turns calls idle chunks hno hslots (hslots ▸ hturns)
  refine ⟨line, rest, turns', calls', idle', reader', _, hlt, hreader, hmore, ?_, hloop,
    line_cases hreads hmem hcarries hline⟩
  rw [hslots, split_lines_newline hno, List.nil_append]

/-- By induction on the chunks that are still to come. -/
theorem follow_ends (hreads : Reads float_text from_str responses) (request : UInt64)
    (stream : String) (datas : List (List UInt8))
    (hmem : ∀ sent ∈ sent_lines request datas stream, sent.response ∈ responses) :
    ∀ (turns calls idle : Nat) (reader : BufReader) (chunks : List (List UInt8)),
      reader.slots.length < turns →
      reader.slots.filterMap id = sent float_text request datas stream →
      Ends chunks datas (List.Forall₂ (Intact float_text) (sent_lines request datas stream)
          (split_lines [] reader.slots))
        (follow_loop from_str (fun _ => true) turns calls idle reader chunks) := by
  induction datas with
  | nil =>
    intro turns calls idle reader chunks hturns hsent
    rw [sent, List.flatMap_nil, List.nil_append, ← List.append_nil (write_response _ _)] at hsent
    have hin : eof_response request stream ∈ responses :=
      hmem ⟨eof_response request stream, []⟩ (by simp [sent_lines])
    obtain ⟨line, rest, turns', calls', idle', reader', frame, hlt, hreader, hmore, hsplit, hloop,
      hcases⟩ := first_line hreads hin (eof_carries request stream) [] calls idle chunks hturns
        hsent
    rw [hsplit, split_lines_none hmore, hloop]
    have hintact : List.Forall₂ (Intact float_text) (sent_lines request [] stream) [line] ↔
        Intact float_text ⟨eof_response request stream, []⟩ line := by
      simp [sent_lines]
    rcases hcases with ⟨hline, rfl⟩ | ⟨hline, rfl⟩ | ⟨hline, error, rfl⟩
    · rw [eof_frame]
      refine .ended [] ?_ (Nat.le_refl _) ?_
      · rw [List.append_nil]
        rfl
      · exact ⟨fun _ => hintact.mpr hline, fun _ => rfl⟩
    · refine .ended [] ?_ (Nat.le_refl _) ?_
      · rw [List.append_nil]
        exact loop_quiet hmore turns' calls' idle' hreader hlt chunks
      · exact ⟨fun _ => hintact.mpr (hline.mpr rfl), fun _ => rfl⟩
    · exact .failed (fun h => hline (hintact.mp h)) rfl
  | cons data datas ih =>
    intro turns calls idle reader chunks hturns hsent
    rw [sent, List.flatMap_cons, List.append_assoc] at hsent
    have hin : chunk_response request data ∈ responses :=
      hmem ⟨chunk_response request data, data⟩ (by simp [sent_lines])
    obtain ⟨line, rest, turns', calls', idle', reader', frame, hlt, hreader, hmore, hsplit, hloop,
      hcases⟩ := first_line hreads hin (chunk_carries request data) data calls idle chunks hturns
        hsent
    have hnext := ih fun sent hsent => hmem sent (List.mem_cons_of_mem _ hsent)
    rw [hsplit, hloop]
    have hintact : List.Forall₂ (Intact float_text) (sent_lines request (data :: datas) stream)
        (line :: split_lines [] rest) ↔
        Intact float_text ⟨chunk_response request data, data⟩ line ∧
          List.Forall₂ (Intact float_text) (sent_lines request datas stream)
            (split_lines [] rest) := by
      rw [sent_lines, List.map_cons, List.cons_append, List.forall₂_cons]
      rfl
    rcases hcases with ⟨hline, rfl⟩ | ⟨hline, rfl⟩ | ⟨hline, error, rfl⟩
    · rw [chunk_frame]
      have hrest := hnext turns' calls' 0 reader' (chunks ++ [data]) (hreader ▸ hlt)
        (hreader ▸ hmore)
      rw [hreader] at hrest
      rcases hrest with ⟨hnot, error, got, hresult⟩ | ⟨got, hresult, hlength, hiff⟩
      · exact .failed (fun h => hnot (hintact.mp h).2) hresult
      · refine .ended (data :: got) ?_ ?_ ?_
        · rw [List.append_cons]
          exact hresult
        · simp only [List.flatten_cons, List.length_append]
          omega
        · rw [hintact, List.flatten_cons, List.flatten_cons, List.append_cancel_left_eq, hiff]
          exact ⟨fun h => ⟨hline, h⟩, fun h => h.2⟩
    · have hrest := hnext turns' calls' idle' reader' chunks (hreader ▸ hlt) (hreader ▸ hmore)
      rw [hreader] at hrest
      rcases hrest with ⟨hnot, error, got, hresult⟩ | ⟨got, hresult, hlength, hiff⟩
      · exact .failed (fun h => hnot (hintact.mp h).2) hresult
      · refine .ended got hresult ?_ ?_
        · simp only [List.flatten_cons, List.length_append]
          omega
        · rw [hintact, hline, ← hiff, List.flatten_cons]
          constructor
          · intro heq
            have hlengths := congrArg List.length heq
            rw [List.length_append] at hlengths
            have hdata : data = [] := List.length_eq_zero_iff.mp (by omega)
            exact ⟨hdata, by rw [heq, hdata, List.nil_append]⟩
          · rintro ⟨rfl, heq⟩
            exact heq
    · exact .failed (fun h => hline (hintact.mp h).1) rfl

end Stream

/-- Following gives on the bytes that were sent and returns well exactly where no timeout cuts a
line that carries bytes. -/
theorem following_delivers_what_was_sent_iff (float_text : UInt64 → String)
    (from_str : String → Option DaemonResponse) (request : UInt64) (stream : String)
    (datas : List (List UInt8)) (arrivals : List Arrival)
    (hreads : Reads float_text from_str
      ((sent_lines request datas stream).map SentLine.response))
    (hsent : (slots_of arrivals).filterMap id = sent float_text request datas stream) :
    (∃ chunks, follow_log_stream from_str (fun _ => true) arrivals = some (.ok (), chunks) ∧
      chunks.flatten = datas.flatten) ↔
      List.Forall₂ (Intact float_text) (sent_lines request datas stream)
        (split_lines [] (slots_of arrivals)) := by
  have hends := follow_ends hreads request stream datas
    (fun sent hmem => List.mem_map_of_mem hmem) ((slots_of arrivals).length + 1) 0 0
    ⟨[], arrivals⟩ [] (Nat.lt_succ_self _) hsent
  unfold follow_log_stream
  rcases hends with ⟨hnot, error, got, hresult⟩ | ⟨got, hresult, -, hiff⟩
  · rw [hresult]
    exact ⟨fun h => absurd h (by simp), fun h => absurd h hnot⟩
  · rw [hresult]
    refine ⟨?_, fun h => ⟨got, rfl, hiff.mpr h⟩⟩
    rintro ⟨chunks, hchunks, hflatten⟩
    cases hchunks
    exact hiff.mp hflatten

/-! ## A chunk and the end -/

def read_two (one other : DaemonResponse) (text : String) : Option DaemonResponse :=
  if text = response_text bits_text one then some one
  else if text = response_text bits_text other then some other
  else none

theorem trim_bytes (text : String) :
    (artifact.as_bytes (std_str.trim text)).length ≤ (artifact.as_bytes text).length := by
  rw [as_bytes_toList, as_bytes_toList]
  unfold std_str.trim
  rw [String.toList_ofList]
  have hsub : ((text.toList.dropWhile std_str.is_whitespace).reverse.dropWhile
      std_str.is_whitespace).reverse.Sublist text.toList := by
    rw [← List.reverse_sublist, List.reverse_reverse]
    exact (List.dropWhile_sublist _).trans (List.reverse_sublist.mpr (List.dropWhile_sublist _))
  exact (hsub.flatMap _).length_le

theorem read_two_reads {one other : DaemonResponse}
    (hlength : (artifact.as_bytes (response_text bits_text one)).length =
      (artifact.as_bytes (response_text bits_text other)).length)
    (hne : response_text bits_text other ≠ response_text bits_text one) :
    Reads bits_text (read_two one other) [one, other] := by
  have hshort : ∀ text cut : String, artifact.as_bytes cut <:+ artifact.as_bytes text →
      cut ≠ text → (artifact.as_bytes (std_str.trim cut)).length <
        (artifact.as_bytes text).length := by
    intro text cut hcut hcut_ne
    refine Nat.lt_of_le_of_lt (trim_bytes cut) (Nat.lt_of_le_of_ne hcut.length_le fun heq => ?_)
    apply hcut_ne
    have hbytes := hcut.eq_of_length heq
    have hfrom := from_utf8_as_bytes cut
    rw [hbytes] at hfrom
    exact (Option.some.inj (hfrom.symm.trans (from_utf8_as_bytes text)))
  have hnone : ∀ text cut : String, (artifact.as_bytes text).length =
      (artifact.as_bytes (response_text bits_text one)).length →
      artifact.as_bytes cut <:+ artifact.as_bytes text → cut ≠ text →
      read_two one other (std_str.trim cut) = none := by
    intro text cut htext hcut hcut_ne
    have hlt := hshort text cut hcut hcut_ne
    unfold read_two
    rw [if_neg fun heq => by rw [heq] at hlt; omega, if_neg fun heq => by rw [heq] at hlt; omega]
  intro response hresponse
  rcases List.mem_cons.mp hresponse with rfl | hresponse
  · exact ⟨if_pos rfl, fun cut hcut hcut_ne _ => hnone _ cut rfl hcut hcut_ne⟩
  · cases List.mem_singleton.mp hresponse
    refine ⟨?_, fun cut hcut hcut_ne _ => hnone _ cut hlength.symm hcut hcut_ne⟩
    unfold read_two
    rw [if_neg hne, if_pos rfl]

def hi : DaemonResponse := chunk_response 7 [104, 105]

def bye : DaemonResponse := eof_response 7 "run-log1"

def hi_bytes : List UInt8 := artifact.as_bytes (response_text bits_text hi)

def bye_bytes : List UInt8 := artifact.as_bytes (response_text bits_text bye)

theorem hi_and_bye_read : Reads bits_text (read_two hi bye) [hi, bye] :=
  read_two_reads (by decide) (by decide)

def arrive : List UInt8 → List Arrival
  | [] => []
  | first :: rest => [.Bytes first rest]

/-- Timeouts between the lines do no harm. -/
theorem following_delivers_hi :
    ∃ chunks, follow_log_stream (read_two hi bye) (fun _ => true)
        (arrive (hi_bytes ++ [10]) ++ [.Timeout] ++ arrive (bye_bytes ++ [10])) =
      some (.ok (), chunks) ∧ chunks.flatten = [104, 105] := by
  refine (following_delivers_what_was_sent_iff bits_text (read_two hi bye) 7 "run-log1"
    [[104, 105]] _ hi_and_bye_read (by decide)).mpr ?_
  exact .cons (.inl (by decide)) (.cons (.inl (by decide)) .nil)

/-- A timeout right before the newline of a chunk: the whole chunk is gone. -/
theorem a_timeout_in_a_line_loses_a_chunk :
    ¬ ∀ (float_text : UInt64 → String) (from_str : String → Option DaemonResponse)
      (request : UInt64) (stream : String) (datas : List (List UInt8)) (arrivals : List Arrival),
      Reads float_text from_str ((sent_lines request datas stream).map SentLine.response) →
      (slots_of arrivals).filterMap id = sent float_text request datas stream →
      ∃ chunks, follow_log_stream from_str (fun _ => true) arrivals = some (.ok (), chunks) ∧
        chunks.flatten = datas.flatten := by
  intro h
  obtain ⟨chunks, hchunks, hflatten⟩ := h bits_text (read_two hi bye) 7 "run-log1" [[104, 105]]
    (arrive hi_bytes ++ [.Timeout] ++ arrive (10 :: bye_bytes ++ [10])) hi_and_bye_read
    (by decide)
  have hnone := congrArg (Option.map Prod.snd) hchunks
  have hfound : Option.map Prod.snd (follow_log_stream (read_two hi bye) (fun _ => true)
      (arrive hi_bytes ++ [.Timeout] ++ arrive (10 :: bye_bytes ++ [10]))) = some [] := by
    decide +kernel
  rw [hfound] at hnone
  cases hnone
  exact absurd hflatten (by decide)

end nxr_core.daemon
