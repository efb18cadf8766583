-- The laws of the log broker: a tail is the last bytes, and a
-- subscriber misses none.
import Nxr.LogBroker
import Nxr.Io

namespace nxr_core.log_broker

open btree num
open std_io (bind_of_ok bind_of_error get_bind modify_bind)

/-! ## The last bytes -/

def last_bytes (n : Nat) (l : List UInt8) : List UInt8 := l.drop (l.length - n)

theorem last_bytes_length (n : Nat) (l : List UInt8) :
    (last_bytes n l).length = min l.length n := by
  unfold last_bytes
  rw [List.length_drop]
  omega

theorem last_bytes_append (n : Nat) (l m : List UInt8) :
    last_bytes n (l ++ m) =
      if n ≤ m.length then last_bytes n m else last_bytes (n - m.length) l ++ m := by
  unfold last_bytes
  rw [List.length_append, List.drop_append]
  split
  · next hle =>
    rw [List.drop_eq_nil_of_le (by omega), List.nil_append]
    congr 1
    omega
  · next hlt =>
    have hzero : l.length + m.length - n - l.length = 0 := by omega
    rw [hzero, List.drop_zero]
    congr 2
    omega

theorem last_bytes_shorter {n k : Nat} (h : n ≤ k) (l : List UInt8) :
    last_bytes n (last_bytes k l) = last_bytes n l := by
  unfold last_bytes
  rw [List.drop_drop, List.length_drop]
  congr 1
  omega

theorem last_bytes_all {n : Nat} {l : List UInt8} (h : l.length ≤ n) : last_bytes n l = l := by
  unfold last_bytes
  rw [Nat.sub_eq_zero_of_le h, List.drop_zero]

theorem push_tail_last (self : LogStreamState) (bytes data : List UInt8)
    (h : self.tail = last_bytes MAX_TAIL_BYTES bytes) :
    (self.push_tail data).tail = last_bytes MAX_TAIL_BYTES (bytes ++ data) := by
  have hlength : self.tail.length ≤ MAX_TAIL_BYTES := by
    rw [h, last_bytes_length]
    exact Nat.min_le_right _ _
  have hmax : MAX_TAIL_BYTES + MAX_TAIL_BYTES ≤ U64.MAX := by decide
  unfold LogStreamState.push_tail
  generalize MAX_TAIL_BYTES = max at h hlength hmax ⊢
  by_cases hempty : data = []
  · rw [if_pos hempty, hempty, List.append_nil]
    exact h
  · rw [if_neg hempty, last_bytes_append]
    by_cases hlong : max ≤ data.length
    · rw [if_pos hlong, if_pos hlong]
      rfl
    · rw [if_neg hlong, if_neg hlong]
      have hkept : (if 0 < Usize.saturating_add self.tail.length data.length - max then
          self.tail.drop (min (Usize.saturating_add self.tail.length data.length - max)
            self.tail.length) else self.tail) = last_bytes (max - data.length) self.tail := by
        unfold Usize.saturating_add
        split
        · unfold last_bytes
          congr 1
          omega
        · rw [last_bytes_all]
          omega
      dsimp only
      rw [hkept, h, last_bytes_shorter (Nat.sub_le _ _)]

theorem push_tail_subscribers (self : LogStreamState) (data : List UInt8) :
    (self.push_tail data).subscribers = self.subscribers := by
  unfold LogStreamState.push_tail
  split
  · rfl
  · split <;> rfl

/-! ## Sending -/

def sent_to (w : LogBroker) (event : LogEvent) (subscribers : List Nat) (c : Nat) :
    List LogEvent :=
  if c ∈ subscribers ∧ w.connected c = true then w.sent c ++ [event] else w.sent c

theorem sent_to_nobody {w : LogBroker} (event : LogEvent) {subscribers : List Nat}
    (h : ∀ c ∈ subscribers, w.connected c = false) : sent_to w event subscribers = w.sent := by
  funext c
  unfold sent_to
  rw [if_neg]
  rintro ⟨hc, hconnected⟩
  rw [h c hc] at hconnected
  cases hconnected

theorem send_eq (tx : Nat) (event : LogEvent) (w : LogBroker) :
    send tx event w = (w.connected tx, { w with sent := sent_to w event [tx] }) := by
  unfold send
  by_cases hconnected : w.connected tx = true
  · rw [if_pos hconnected, hconnected]
    congr
    funext c
    unfold sent_to
    by_cases hc : c = tx
    · subst hc
      simp [hconnected]
    · simp [hc]
  · have hnone := Bool.eq_false_iff.mpr hconnected
    rw [if_neg hconnected, hnone, sent_to_nobody]
    intro c hc
    rw [List.mem_singleton.mp hc]
    exact hnone

theorem fanout_eq (event : LogEvent) {subscribers : List Nat} (hn : subscribers.Nodup)
    (w : LogBroker) :
    fanout event subscribers w = (subscribers.filter w.connected,
      { w with sent := sent_to w event subscribers }) := by
  induction subscribers generalizing w with
  | nil =>
    unfold fanout
    rw [sent_to_nobody event fun _ h => absurd h List.not_mem_nil]
    rfl
  | cons tx rest ih =>
    obtain ⟨htx, hrest⟩ := List.nodup_cons.mp hn
    have hboth : sent_to { w with sent := sent_to w event [tx] } event rest =
        sent_to w event (tx :: rest) := by
      funext c
      unfold sent_to
      dsimp only
      by_cases hc : c = tx
      · subst hc
        simp [htx]
      · simp [hc]
    unfold fanout
    rw [send_eq]
    dsimp only
    rw [ih hrest, hboth, List.filter_cons]

/-! ## The calls -/

inductive Room (streams : BTreeMap String LogStreamState) :
    BTreeMap String LogStreamState → Prop
  | enough (hsize : streams.size < MAX_STREAMS) : Room streams streams
  | evicts {key : String} {state : LogStreamState} (hget : streams[key]? = some state)
      (hidle : state.subscribers = []) : Room streams (streams.erase key)

variable {room : BTreeMap String LogStreamState} {streams : BTreeMap String LogStreamState}

theorem make_room_ok (h : make_room streams = .ok room) : Room streams room := by
  unfold make_room at h
  by_cases hfull : MAX_STREAMS ≤ streams.size
  · rw [if_pos hfull] at h
    rcases hvictim : victim streams with _ | key
    · rw [hvictim] at h
      cases h
    · rw [hvictim] at h
      cases h
      unfold victim at hvictim
      obtain ⟨⟨found, state⟩, hfind, rfl⟩ := Option.map_eq_some_iff.mp hvictim
      have hidle := List.find?_some hfind
      have hget := Std.ExtTreeMap.mem_toList_iff_getElem?_eq_some.mp (List.mem_of_find?_eq_some hfind)
      exact .evicts hget (List.isEmpty_iff.mp hidle)
  · rw [if_neg hfull] at h
    cases h
    exact .enough (Nat.lt_of_not_le hfull)

inductive Opens (w : LogBroker) (stream : String) (path : Option String) :
    Bool → LogBroker → Prop
  | refused : Opens w stream path false w
  | found (hmem : stream ∈ w.streams) : Opens w stream path true w
  | renamed {existing : LogStreamState} (hget : w.streams[stream]? = some existing) :
      Opens w stream path true
        { w with streams := w.streams.insert stream { existing with path := path } }
  | created {room : BTreeMap String LogStreamState} (hnew : stream ∉ w.streams)
      (hroom : Room w.streams room) :
      Opens w stream path true { w with streams := room.insert stream ⟨path, [], []⟩ }

theorem open_stream_opens (w : LogBroker) (stream : String) (path : Option String) :
    Opens w stream path (outcome (LogBroker.open_stream stream path w)).1
      (outcome (LogBroker.open_stream stream path w)).2 := by
  unfold LogBroker.open_stream
  rcases validate_stream_id stream with err | _
  · exact .refused
  · dsimp only
    rcases hget : w.streams[stream]? with _ | existing
    · have hnew : stream ∉ w.streams := by
        rw [mem_iff_get, hget]
        exact nofun
      rcases hroom : make_room w.streams with err | room
      · exact .refused
      · exact .created hnew (make_room_ok hroom)
    · dsimp only
      split
      · exact .renamed hget
      · exact .found (mem_iff_get.mpr ⟨existing, hget⟩)

inductive Ensures (w : LogBroker) (stream : String) : LogStreamState → LogBroker → Prop
  | found {state : LogStreamState} (hget : w.streams[stream]? = some state) :
      Ensures w stream state w
  | created {room : BTreeMap String LogStreamState} (hnew : stream ∉ w.streams)
      (hroom : Room w.streams room) :
      Ensures w stream ⟨none, [], []⟩ { w with streams := room.insert stream ⟨none, [], []⟩ }

theorem get_insert (m : BTreeMap String LogStreamState) (key other : String)
    (state : LogStreamState) :
    (m.insert key state)[other]? = if key = other then some state else m[other]? := by
  rw [Std.ExtTreeMap.getElem?_insert]
  simp only [Std.LawfulEqCmp.compare_eq_iff_eq]

theorem ensure_cases (w : LogBroker) (stream : String) :
    (∃ err, LogBroker.ensure stream w = .error err w) ∨
      ∃ state w', LogBroker.ensure stream w = .ok state w' ∧ Ensures w stream state w' := by
  unfold LogBroker.ensure
  rw [get_bind]
  by_cases hmem : stream ∈ w.streams
  · obtain ⟨state, hget⟩ := mem_iff_get.mp hmem
    rw [if_pos hmem]
    dsimp only
    rw [get_bind, hget]
    exact .inr ⟨state, w, rfl, .found hget⟩
  · rw [if_neg hmem]
    have hopens := open_stream_opens w stream none
    rcases hopen : LogBroker.open_stream stream none w with ⟨_, w'⟩ | ⟨err, w'⟩
    · rw [hopen] at hopens
      rw [bind_of_ok hopen]
      dsimp only
      rw [get_bind]
      unfold outcome at hopens
      cases hopens with
      | found hfound => exact absurd hfound hmem
      | renamed hget => exact absurd (mem_iff_get.mpr ⟨_, hget⟩) hmem
      | created hnew hroom =>
        rw [get_insert, if_pos rfl]
        exact .inr ⟨_, _, rfl, .created hnew hroom⟩
    · rw [hopen] at hopens
      rw [bind_of_error hopen]
      unfold outcome at hopens
      cases hopens with
      | refused => exact .inl ⟨err, rfl⟩

def LogBroker.pushed (w : LogBroker) (stream : String) (state : LogStreamState)
    (data : List UInt8) : LogBroker :=
  { w with
    streams := w.streams.insert stream { state.push_tail data with
      subscribers := if data = [] then state.subscribers
        else state.subscribers.filter w.connected }
    sent := if data = [] then w.sent else sent_to w (.Chunk data) state.subscribers }

inductive Appends (w : LogBroker) (stream : String) (data : List UInt8) :
    Bool → LogBroker → Prop
  | refused : Appends w stream data false w
  | pushed {state : LogStreamState} {w' : LogBroker} (hensures : Ensures w stream state w')
      (hsubscribers : state.subscribers.Nodup) :
      Appends w stream data true (w'.pushed stream state data)

def Distinct (w : LogBroker) : Prop :=
  ∀ (stream : String) (state : LogStreamState), w.streams[stream]? = some state →
    state.subscribers.Nodup

variable {state : LogStreamState}

theorem Ensures.distinct {w w' : LogBroker} {stream : String}
    (h : Ensures w stream state w') (hdistinct : Distinct w) : state.subscribers.Nodup := by
  cases h with
  | found hget => exact hdistinct stream state hget
  | created => exact List.nodup_nil

theorem append_appends {w : LogBroker} (hdistinct : Distinct w) (stream : String)
    (data : List UInt8) :
    Appends w stream data (outcome (LogBroker.append stream data w)).1
      (outcome (LogBroker.append stream data w)).2 := by
  unfold LogBroker.append
  rcases validate_stream_id stream with err | _
  · exact .refused
  · dsimp only
    by_cases hlong : MAX_APPEND_BYTES < data.length
    · rw [if_pos hlong]
      exact .refused
    · rw [if_neg hlong]
      rcases ensure_cases w stream with ⟨err, hensure⟩ | ⟨state, w', hensure, hensures⟩
      · rw [bind_of_error hensure]
        exact .refused
      · rw [bind_of_ok hensure]
        have hnodup := hensures.distinct hdistinct
        have hpushed : Appends w stream data true (w'.pushed stream state data) :=
          .pushed hensures hnodup
        unfold LogBroker.pushed at hpushed
        by_cases hempty : data = []
        · rw [if_pos hempty, if_pos hempty] at hpushed
          rw [if_pos hempty, modify_bind]
          have hsame : state.push_tail data = { state.push_tail data with
              subscribers := state.subscribers } := by
            rw [← push_tail_subscribers state data]
          rw [hsame]
          exact hpushed
        · rw [if_neg hempty, if_neg hempty] at hpushed
          rw [if_neg hempty, modify_bind, push_tail_subscribers, fanout_eq _ hnodup]
          exact hpushed

def LogBroker.subscribed (w : LogBroker) (stream : String) (state : LogStreamState) : LogBroker :=
  { w with
    streams := w.streams.insert stream
      { state with subscribers := state.subscribers ++ [w.channels] }
    channels := w.channels + 1
    connected := fun c => if c = w.channels then true else w.connected c }

theorem subscribe_cases (w : LogBroker) (stream : String) :
    (∃ err, LogBroker.subscribe stream w = .error err w) ∨
      ∃ state w', Ensures w stream state w' ∧
        LogBroker.subscribe stream w =
          .ok (state.tail, w'.channels) (w'.subscribed stream state) := by
  unfold LogBroker.subscribe
  rcases validate_stream_id stream with err | _
  · exact .inl ⟨err, rfl⟩
  · dsimp only
    rcases ensure_cases w stream with ⟨err, hensure⟩ | ⟨state, w', hensure, hensures⟩
    · exact .inl ⟨err, bind_of_error hensure⟩
    · exact .inr ⟨state, w', hensures, bind_of_ok hensure⟩

/-- What a close comes to. -/
inductive Closes (w : LogBroker) (stream : String) : LogBroker → Prop
  | missing : Closes w stream w
  | closed {state : LogStreamState} (hget : w.streams[stream]? = some state) :
      Closes w stream { w with
        streams := w.streams.erase stream
        sent := sent_to w .Closed state.subscribers }

theorem close_closes {w : LogBroker} (hdistinct : Distinct w) (stream : String) :
    Closes w stream (outcome (LogBroker.close stream w)).2 := by
  unfold LogBroker.close
  rcases hget : w.streams[stream]? with _ | state
  · exact .missing
  · dsimp only
    rw [fanout_eq _ (hdistinct stream state hget)]
    exact .closed hget

/-! ## The invariant -/

def known (w : LogBroker) (bytes : String → List UInt8) (stream : String) : List UInt8 :=
  if stream ∈ w.streams then bytes stream else []

structure Sound (w : LogBroker) (bytes : String → List UInt8) : Prop where
  size : w.streams.size ≤ MAX_STREAMS
  tails : ∀ (stream : String) (state : LogStreamState), w.streams[stream]? = some state →
    state.tail = last_bytes MAX_TAIL_BYTES (bytes stream)
  distinct : Distinct w
  owned : ∀ (stream other : String) (state state' : LogStreamState) (c : Nat),
    w.streams[stream]? = some state → w.streams[other]? = some state' →
      c ∈ state.subscribers → c ∈ state'.subscribers → stream = other
  made : ∀ (stream : String) (state : LogStreamState) (c : Nat),
    w.streams[stream]? = some state → c ∈ state.subscribers → c < w.channels
  fresh : ∀ c, w.channels ≤ c → w.sent c = []

theorem start_sound : Sound Tracked.start.broker Tracked.start.bytes := by
  have hnone : ∀ stream : String, Tracked.start.broker.streams[stream]? = none := by
    intro stream
    unfold Tracked.start LogBroker.default
    simp
  have hno : ∀ (stream : String) (state : LogStreamState),
      Tracked.start.broker.streams[stream]? ≠ some state := by
    intro stream state hget
    rw [hnone] at hget
    cases hget
  refine ⟨?_, ?_, ?_, ?_, ?_, fun _ _ => rfl⟩
  · unfold Tracked.start LogBroker.default
    simp
  · exact fun stream state hget => absurd hget (hno stream state)
  · exact fun stream state hget => absurd hget (hno stream state)
  · exact fun stream _ state _ _ hget => absurd hget (hno stream state)
  · exact fun stream state _ hget => absurd hget (hno stream state)

variable {w w' : LogBroker} {bytes bytes' : String → List UInt8} {stream : String}

theorem Sound.narrowed (h : Sound w bytes) : Sound w (known w bytes) := by
  refine { h with tails := ?_ }
  intro stream state hget
  unfold known
  rw [if_pos (mem_iff_get.mpr ⟨state, hget⟩)]
  exact h.tails stream state hget

theorem Room.get (h : Room streams room)
    {key : String} (hget : room[key]? = some state) : streams[key]? = some state := by
  cases h with
  | enough => exact hget
  | evicts =>
    rw [Std.ExtTreeMap.getElem?_erase] at hget
    split at hget
    · cases hget
    · exact hget

theorem Room.keeps (h : Room streams room) {key : String} (hget : streams[key]? = some state)
    (hbusy : state.subscribers ≠ []) : room[key]? = some state := by
  cases h with
  | enough => exact hget
  | @evicts idle found hfound hidle =>
    have hne : idle ≠ key := by
      rintro rfl
      rw [hget] at hfound
      cases hfound
      exact hbusy hidle
    rw [Std.ExtTreeMap.getElem?_erase, if_neg]
    · exact hget
    · rwa [Std.LawfulEqCmp.compare_eq_iff_eq]

theorem Room.size (h : Room streams room)
    (hsize : streams.size ≤ MAX_STREAMS) : room.size < MAX_STREAMS := by
  cases h with
  | enough hlt => exact hlt
  | @evicts idle found hfound hidle =>
    have hmem : streams.contains idle = true :=
      Std.ExtTreeMap.contains_iff_mem.mpr (mem_iff_get.mpr ⟨found, hfound⟩)
    have hpos : streams.size ≠ 0 := by
      intro hzero
      have hempty := Std.ExtTreeMap.eq_empty_iff_size_eq_zero.mpr hzero
      rw [hempty] at hfound
      simp at hfound
    rw [Std.ExtTreeMap.size_erase, if_pos hmem]
    omega

theorem Sound.created (h : Sound w bytes)
    (hroom : Room w.streams room) (path : Option String) (hempty : bytes stream = []) :
    Sound { w with streams := room.insert stream ⟨path, [], []⟩ } bytes := by
  have hold : ∀ (key : String) (state : LogStreamState),
      (room.insert stream ⟨path, [], []⟩)[key]? = some state →
        (key = stream ∧ state = ⟨path, [], []⟩) ∨ w.streams[key]? = some state := by
    intro key state hget
    rw [get_insert] at hget
    split at hget
    · next heq =>
      cases hget
      exact .inl ⟨heq.symm, rfl⟩
    · exact .inr (hroom.get hget)
  refine ⟨?_, ?_, ?_, ?_, ?_, h.fresh⟩
  · have hlt := hroom.size h.size
    have hle := Std.ExtTreeMap.size_insert_le (t := room) (k := stream)
      (v := (⟨path, [], []⟩ : LogStreamState))
    dsimp only
    omega
  · intro key state hget
    rcases hold key state hget with ⟨rfl, rfl⟩ | hget
    · rw [hempty]
      rfl
    · exact h.tails key state hget
  · intro key state hget
    rcases hold key state hget with ⟨rfl, rfl⟩ | hget
    · exact List.nodup_nil
    · exact h.distinct key state hget
  · intro key other state state' c hget hother hc hc'
    rcases hold key state hget with ⟨rfl, rfl⟩ | hget
    · exact absurd hc List.not_mem_nil
    · rcases hold other state' hother with ⟨rfl, rfl⟩ | hother
      · exact absurd hc' List.not_mem_nil
      · exact h.owned key other state state' c hget hother hc hc'
  · intro key state c hget hc
    rcases hold key state hget with ⟨rfl, rfl⟩ | hget
    · exact absurd hc List.not_mem_nil
    · exact h.made key state c hget hc

/-- A stream that is replaced is sound, if its new subscribers are its old ones
or have new channels. -/
theorem Sound.replaced (h : Sound w bytes) {next : LogStreamState}
    (hget : w.streams[stream]? = some state) (hstreams : w'.streams = w.streams.insert stream next)
    (htail : next.tail = last_bytes MAX_TAIL_BYTES (bytes' stream))
    (hbytes : ∀ other, other ≠ stream → bytes' other = bytes other)
    (hdistinct : next.subscribers.Nodup) (hchannels : w.channels ≤ w'.channels)
    (hsubscribers : ∀ c ∈ next.subscribers,
      c ∈ state.subscribers ∨ w.channels ≤ c ∧ c < w'.channels)
    (hfresh : ∀ c, w'.channels ≤ c → w'.sent c = []) : Sound w' bytes' := by
  have hold : ∀ (key : String) (found : LogStreamState), w'.streams[key]? = some found →
      (key = stream ∧ found = next) ∨ (key ≠ stream ∧ w.streams[key]? = some found) := by
    intro key found hfound
    rw [hstreams, get_insert] at hfound
    split at hfound
    · next heq =>
      cases hfound
      exact .inl ⟨heq.symm, rfl⟩
    · next hne => exact .inr ⟨Ne.symm hne, hfound⟩
  refine ⟨?_, ?_, ?_, ?_, ?_, hfresh⟩
  · have hmem : w.streams.contains stream = true :=
      Std.ExtTreeMap.contains_iff_mem.mpr (mem_iff_get.mpr ⟨state, hget⟩)
    rw [hstreams, Std.ExtTreeMap.size_insert, if_pos hmem]
    exact h.size
  · intro key found hfound
    rcases hold key found hfound with ⟨rfl, rfl⟩ | ⟨hne, hfound⟩
    · exact htail
    · rw [hbytes key hne]
      exact h.tails key found hfound
  · intro key found hfound
    rcases hold key found hfound with ⟨rfl, rfl⟩ | ⟨_, hfound⟩
    · exact hdistinct
    · exact h.distinct key found hfound
  · -- A new channel is nobody's else.
    have happart : ∀ (key : String) (found : LogStreamState) (c : Nat), key ≠ stream →
        w.streams[key]? = some found → c ∈ found.subscribers → c ∉ next.subscribers := by
      intro key found c hne hfound hc hnext
      rcases hsubscribers c hnext with hc' | ⟨hle, _⟩
      · exact hne (h.owned key stream found state c hfound hget hc hc')
      · have hlt := h.made key found c hfound hc
        omega
    intro key other found found' c hfound hother hc hc'
    rcases hold key found hfound with ⟨rfl, rfl⟩ | ⟨hne, hfound⟩
    · rcases hold other found' hother with ⟨rfl, rfl⟩ | ⟨hne', hother⟩
      · rfl
      · exact absurd hc (happart other found' c hne' hother hc')
    · rcases hold other found' hother with ⟨rfl, rfl⟩ | ⟨_, hother⟩
      · exact absurd hc' (happart key found c hne hfound hc)
      · exact h.owned key other found found' c hfound hother hc hc'
  · intro key found c hfound hc
    rcases hold key found hfound with ⟨rfl, rfl⟩ | ⟨_, hfound⟩
    · rcases hsubscribers c hc with hc' | ⟨_, hlt⟩
      · exact Nat.lt_of_lt_of_le (h.made key state c hget hc') hchannels
      · exact hlt
    · exact Nat.lt_of_lt_of_le (h.made key found c hfound hc) hchannels

theorem Ensures.get (h : Ensures w stream state w') : w'.streams[stream]? = some state := by
  cases h with
  | found hget => exact hget
  | created =>
    rw [get_insert]
    exact if_pos rfl

theorem Sound.ensured (h : Sound w bytes)
    (hensures : Ensures w stream state w') : Sound w' (known w bytes) := by
  cases hensures with
  | found => exact h.narrowed
  | created hnew hroom =>
    refine h.narrowed.created hroom none ?_
    unfold known
    exact if_neg hnew

theorem Sound.opened (h : Sound w bytes) {path : Option String} {ok : Bool}
    (hopens : Opens w stream path ok w') : Sound w' (known w bytes) := by
  cases hopens with
  | refused => exact h.narrowed
  | found => exact h.narrowed
  | @renamed existing hget =>
    exact h.narrowed.replaced hget rfl (h.narrowed.tails stream existing hget) (fun _ _ => rfl)
      (h.distinct stream existing hget) (Nat.le_refl _) (fun c hc => .inl hc) h.fresh
  | created hnew hroom =>
    refine h.narrowed.created hroom path ?_
    unfold known
    exact if_neg hnew

theorem sent_to_fresh (h : Sound w bytes)
    (hget : w.streams[stream]? = some state) (event : LogEvent) {c : Nat} (hc : w.channels ≤ c) :
    sent_to w event state.subscribers c = [] := by
  unfold sent_to
  rw [if_neg, h.fresh c hc]
  rintro ⟨hmem, _⟩
  have hlt := h.made stream state c hget hmem
  omega

theorem Sound.pushed (h : Sound w bytes) {state : LogStreamState}
    (hget : w.streams[stream]? = some state) (data : List UInt8)
    (hstream : bytes' stream = bytes stream ++ data)
    (hbytes : ∀ other, other ≠ stream → bytes' other = bytes other) :
    Sound (w.pushed stream state data) bytes' := by
  have htail := push_tail_last state (bytes stream) data (h.tails stream state hget)
  rw [← hstream] at htail
  refine h.replaced hget rfl htail hbytes ?_ (Nat.le_refl _) ?_ ?_
  · dsimp only
    split
    · exact h.distinct stream state hget
    · exact (h.distinct stream state hget).filter _
  · intro c hc
    dsimp only at hc
    split at hc
    · exact .inl hc
    · exact .inl (List.mem_filter.mp hc).1
  · intro c hc
    unfold LogBroker.pushed
    dsimp only
    split
    · exact h.fresh c hc
    · exact sent_to_fresh h hget _ hc

theorem Sound.subscribed (h : Sound w bytes)
    (hget : w.streams[stream]? = some state) : Sound (w.subscribed stream state) bytes := by
  have hnew : w.channels ∉ state.subscribers := by
    intro hmem
    exact Nat.lt_irrefl _ (h.made stream state _ hget hmem)
  refine h.replaced hget rfl (h.tails stream state hget) (fun _ _ => rfl) ?_ (Nat.le_succ _) ?_ ?_
  · exact List.nodup_append.mpr ⟨h.distinct stream state hget, List.nodup_singleton _,
      fun a ha b hb heq => hnew (List.mem_singleton.mp hb ▸ heq ▸ ha)⟩
  · intro c hc
    rcases List.mem_append.mp hc with hc | hc
    · exact .inl hc
    · rw [List.mem_singleton.mp hc]
      exact .inr ⟨Nat.le_refl _, Nat.lt_succ_self _⟩
  · intro c hc
    exact h.fresh c (Nat.le_of_succ_le hc)

theorem Sound.closed (h : Sound w bytes) (hcloses : Closes w stream w') :
    Sound w' (known w bytes) := by
  cases hcloses with
  | missing => exact h.narrowed
  | @closed state hget =>
    have hold : ∀ (key : String) (found : LogStreamState),
        (w.streams.erase stream)[key]? = some found → w.streams[key]? = some found := by
      intro key found hfound
      rw [Std.ExtTreeMap.getElem?_erase] at hfound
      split at hfound
      · cases hfound
      · exact hfound
    refine ⟨Nat.le_trans Std.ExtTreeMap.size_erase_le h.size, ?_, ?_, ?_, ?_, ?_⟩
    · exact fun key found hfound => h.narrowed.tails key found (hold key found hfound)
    · exact fun key found hfound => h.distinct key found (hold key found hfound)
    · exact fun key other found found' c hfound hother =>
        h.owned key other found found' c (hold key found hfound) (hold other found' hother)
    · exact fun key found c hfound => h.made key found c (hold key found hfound)
    · exact fun c hc => sent_to_fresh h hget _ hc

theorem step_bytes (v : Tracked) (request : Request)
    (h : ∀ stream, appended stream request (taken v.broker request).1 = []) :
    (v.step request).bytes = known v.broker v.bytes := by
  funext stream
  change known v.broker v.bytes stream ++ appended stream request (taken v.broker request).1 = _
  rw [h, List.append_nil]

theorem append_bytes (v : Tracked) (stream : String) (data : List UInt8)
    (hok : (taken v.broker (.append stream data)).1 = true) (other : String) :
    (v.step (.append stream data)).bytes other =
      known v.broker v.bytes other ++ if stream = other then data else [] := by
  change known v.broker v.bytes other ++
    (if stream = other ∧ (taken v.broker (.append stream data)).1 then data else []) = _
  rw [hok]
  simp only [and_true]

theorem Sound.step {v : Tracked} (h : Sound v.broker v.bytes) (request : Request) :
    Sound (v.step request).broker (v.step request).bytes := by
  change Sound (taken v.broker request).2 _
  cases request with
  | open_stream stream path =>
    rw [step_bytes _ _ fun _ => rfl]
    exact h.opened (open_stream_opens v.broker stream path)
  | append stream data =>
    have happends := append_appends h.distinct stream data
    change Appends v.broker stream data (taken v.broker (.append stream data)).1
      (taken v.broker (.append stream data)).2 at happends
    have hbytes := append_bytes v stream data
    have hnone := step_bytes v (.append stream data)
    generalize (v.step (.append stream data)).bytes = after at hbytes hnone ⊢
    generalize taken v.broker (.append stream data) = result at happends hbytes hnone ⊢
    obtain ⟨ok, w'⟩ := result
    dsimp only at happends hbytes hnone ⊢
    cases happends with
    | refused =>
      rw [hnone fun other => if_neg (fun hand => absurd hand.2 Bool.false_ne_true)]
      exact h.narrowed
    | pushed hensures =>
      have hsound := h.ensured hensures
      refine hsound.pushed hensures.get data ?_ ?_
      · rw [hbytes rfl, if_pos rfl]
      · intro other hne
        rw [hbytes rfl, if_neg (Ne.symm hne), List.append_nil]
  | subscribe stream =>
    rw [step_bytes _ _ fun _ => rfl]
    change Sound (outcome (LogBroker.subscribe stream v.broker)).2 _
    rcases subscribe_cases v.broker stream with ⟨err, hfails⟩ | ⟨state, w', hensures, hok⟩
    · rw [hfails]
      exact h.narrowed
    · rw [hok]
      exact (h.ensured hensures).subscribed hensures.get
  | close stream =>
    rw [step_bytes _ _ fun _ => rfl]
    exact h.closed (close_closes h.distinct stream)
  | hang_up rx =>
    rw [step_bytes _ _ fun _ => rfl]
    have hsame := h.narrowed
    exact ⟨hsame.size, hsame.tails, hsame.distinct, hsame.owned, hsame.made, hsame.fresh⟩

theorem run_sound (requests : List Request) :
    Sound (Tracked.start.run requests).broker (Tracked.start.run requests).bytes := by
  have hfrom : ∀ (l : List Request) (v : Tracked), Sound v.broker v.bytes →
      Sound (v.run l).broker (v.run l).bytes := by
    intro l
    induction l with
    | nil => exact fun v h => h
    | cons request l ih => exact fun v h => ih _ (h.step request)
  exact hfrom requests _ start_sound

/-! ## A subscriber -/

structure Follows (w : LogBroker) (bytes : String → List UInt8) (stream : String) (rx : Nat)
    (tail : List UInt8) : Prop where
  made : rx < w.channels
  text : ∃ before after, bytes stream = before ++ (tail ++ chunks (w.sent rx)) ++ after ∧
    (w.connected rx = true → after = [])
  listed : w.connected rx = true →
    ∃ state, w.streams[stream]? = some state ∧ rx ∈ state.subscribers

variable {rx : Nat} {tail : List UInt8}

theorem Follows.narrowed (h : Follows w bytes stream rx tail) (hmem : stream ∈ w.streams) :
    Follows w (known w bytes) stream rx tail := by
  refine { h with text := ?_ }
  unfold known
  rw [if_pos hmem]
  exact h.text

variable {other : String}

theorem Follows.created (h : Follows w bytes stream rx tail) (hroom : Room w.streams room)
    (hnew : other ∉ w.streams) (path : Option String) :
    Follows { w with streams := room.insert other ⟨path, [], []⟩ } bytes stream rx tail := by
  refine { h with listed := ?_ }
  intro hconnected
  obtain ⟨state, hget, hlisted⟩ := h.listed hconnected
  have hne : other ≠ stream := by
    rintro rfl
    exact hnew (mem_iff_get.mpr ⟨state, hget⟩)
  have hbusy : state.subscribers ≠ [] := List.ne_nil_of_mem hlisted
  refine ⟨state, ?_, hlisted⟩
  dsimp only
  rw [get_insert, if_neg hne]
  exact hroom.keeps hget hbusy

theorem Follows.ensured (h : Follows w bytes stream rx tail) (hmem : stream ∈ w.streams)
    (hensures : Ensures w other state w') : Follows w' (known w bytes) stream rx tail := by
  cases hensures with
  | found => exact h.narrowed hmem
  | created hnew hroom => exact (h.narrowed hmem).created hroom hnew none

theorem chunks_append (events : List LogEvent) (event : LogEvent) :
    chunks (events ++ [event]) = chunks events ++ chunks [event] := by
  unfold chunks
  exact List.flatMap_append

theorem pushed_chunks (w : LogBroker) (stream : String) (state : LogStreamState)
    (data : List UInt8) (rx : Nat) :
    chunks ((w.pushed stream state data).sent rx) = chunks (w.sent rx) ++
      if rx ∈ state.subscribers ∧ w.connected rx = true then data else [] := by
  unfold LogBroker.pushed
  dsimp only
  by_cases hempty : data = []
  · rw [if_pos hempty, hempty, ite_self, List.append_nil]
  · rw [if_neg hempty]
    unfold sent_to
    split
    · rw [chunks_append]
      exact congrArg (chunks (w.sent rx) ++ ·) (List.append_nil data)
    · rw [List.append_nil]

theorem Follows.pushed (h : Follows w bytes stream rx tail) (hsound : Sound w bytes)
    {other : String} {state : LogStreamState} (hget : w.streams[other]? = some state)
    (data : List UInt8)
    (hbytes : ∀ key, bytes' key = bytes key ++ if other = key then data else []) :
    Follows (w.pushed other state data) bytes' stream rx tail := by
  obtain ⟨before, after, htext, hall⟩ := h.text
  refine ⟨h.made, ?_, ?_⟩
  · rw [pushed_chunks, hbytes, htext]
    by_cases hconnected : w.connected rx = true
    · obtain ⟨found, hfound, hlisted⟩ := h.listed hconnected
      have hnil := hall hconnected
      subst hnil
      -- The stream that gets the data is the one whose list has the channel.
      have hsame : (if rx ∈ state.subscribers ∧ w.connected rx = true then data else []) =
          if other = stream then data else [] := by
        by_cases heq : other = stream
        · subst heq
          cases hget.symm.trans hfound
          rw [if_pos ⟨hlisted, hconnected⟩, if_pos rfl]
        · rw [if_neg heq, if_neg]
          rintro ⟨hmem, _⟩
          exact heq (hsound.owned other stream state found rx hget hfound hmem hlisted)
      refine ⟨before, [], ?_, fun _ => rfl⟩
      rw [hsame]
      simp only [List.append_assoc, List.append_nil]
    · have hnobody : (if rx ∈ state.subscribers ∧ w.connected rx = true then data else []) = [] :=
        if_neg fun hand => hconnected hand.2
      rw [hnobody, List.append_nil]
      refine ⟨before, after ++ if other = stream then data else [], ?_, ?_⟩
      · rw [List.append_assoc]
      · intro hyes
        exact absurd hyes hconnected
  · intro hconnected
    obtain ⟨found, hfound, hlisted⟩ := h.listed hconnected
    unfold LogBroker.pushed
    dsimp only
    rw [get_insert]
    split
    · next heq =>
      subst heq
      cases hget.symm.trans hfound
      refine ⟨_, rfl, ?_⟩
      dsimp only
      split
      · exact hlisted
      · exact List.mem_filter.mpr ⟨hlisted, hconnected⟩
    · exact ⟨found, hfound, hlisted⟩

theorem Follows.subscribed (h : Follows w bytes stream rx tail)
    (hget : w.streams[other]? = some state) :
    Follows (w.subscribed other state) bytes stream rx tail := by
  have hne : rx ≠ w.channels := Nat.ne_of_lt h.made
  have hsame : (w.subscribed other state).connected rx = w.connected rx := if_neg hne
  refine ⟨Nat.lt_succ_of_lt h.made, ?_, ?_⟩
  · rw [hsame]
    exact h.text
  · rw [hsame]
    intro hconnected
    obtain ⟨found, hfound, hlisted⟩ := h.listed hconnected
    unfold LogBroker.subscribed
    dsimp only
    rw [get_insert]
    split
    · next heq =>
      subst heq
      cases hget.symm.trans hfound
      exact ⟨_, rfl, List.mem_append_left _ hlisted⟩
    · exact ⟨found, hfound, hlisted⟩

theorem Follows.closed (h : Follows w bytes stream rx tail) {other : String}
    (hcloses : Closes w other w') (hstays : stream ∈ w'.streams) :
    Follows w' bytes stream rx tail := by
  cases hcloses with
  | missing => exact h
  | @closed state hget =>
    have hne : other ≠ stream := by
      rintro rfl
      exact (Std.ExtTreeMap.mem_erase.mp hstays).1 (Std.LawfulEqCmp.compare_eq_iff_eq.mpr rfl)
    have hchunks : chunks (sent_to w .Closed state.subscribers rx) = chunks (w.sent rx) := by
      unfold sent_to
      split
      · rw [chunks_append]
        exact List.append_nil _
      · rfl
    refine ⟨h.made, ?_, ?_⟩
    · dsimp only
      rw [hchunks]
      exact h.text
    · intro hconnected
      obtain ⟨found, hfound, hlisted⟩ := h.listed hconnected
      refine ⟨found, ?_, hlisted⟩
      dsimp only
      rw [Std.ExtTreeMap.getElem?_erase, if_neg]
      · exact hfound
      · rwa [Std.LawfulEqCmp.compare_eq_iff_eq]

theorem Follows.hung_up (h : Follows w bytes stream rx tail) (gone : Nat) :
    Follows { w with connected := fun c => if c = gone then false else w.connected c } bytes stream
      rx tail := by
  have hstill : (if rx = gone then false else w.connected rx) = true → w.connected rx = true := by
    intro hconnected
    split at hconnected
    · cases hconnected
    · exact hconnected
  obtain ⟨before, after, htext, hall⟩ := h.text
  exact ⟨h.made, ⟨before, after, htext, fun hconnected => hall (hstill hconnected)⟩,
    fun hconnected => h.listed (hstill hconnected)⟩

theorem Follows.step {v : Tracked} (h : Follows v.broker v.bytes stream rx tail)
    (hsound : Sound v.broker v.bytes) (hmem : stream ∈ v.broker.streams) (request : Request)
    (hstays : stream ∈ (v.step request).broker.streams) :
    Follows (v.step request).broker (v.step request).bytes stream rx tail := by
  change Follows (taken v.broker request).2 _ _ _ _
  change stream ∈ (taken v.broker request).2.streams at hstays
  have hnarrowed := h.narrowed hmem
  cases request with
  | open_stream other path =>
    rw [step_bytes _ _ fun _ => rfl]
    have hopens := open_stream_opens v.broker other path
    change Follows (outcome (LogBroker.open_stream other path v.broker)).2 _ _ _ _
    generalize outcome (LogBroker.open_stream other path v.broker) = result at hopens ⊢
    obtain ⟨ok, w'⟩ := result
    cases hopens with
    | refused => exact hnarrowed
    | found => exact hnarrowed
    | renamed hget =>
      refine { hnarrowed with listed := ?_ }
      intro hconnected
      obtain ⟨found, hfound, hlisted⟩ := hnarrowed.listed hconnected
      dsimp only
      rw [get_insert]
      split
      · next heq =>
        subst heq
        cases hget.symm.trans hfound
        exact ⟨_, rfl, hlisted⟩
      · exact ⟨found, hfound, hlisted⟩
    | created hnew hroom => exact hnarrowed.created hroom hnew path
  | append other data =>
    have happends := append_appends hsound.distinct other data
    change Appends v.broker other data (taken v.broker (.append other data)).1
      (taken v.broker (.append other data)).2 at happends
    have hbytes := append_bytes v other data
    have hnone := step_bytes v (.append other data)
    generalize (v.step (.append other data)).bytes = after at hbytes hnone ⊢
    generalize taken v.broker (.append other data) = result at happends hbytes hnone ⊢
    obtain ⟨ok, w'⟩ := result
    dsimp only at happends hbytes hnone ⊢
    cases happends with
    | refused =>
      rw [hnone fun other => if_neg (fun hand => absurd hand.2 Bool.false_ne_true)]
      exact hnarrowed
    | pushed hensures =>
      exact (h.ensured hmem hensures).pushed (hsound.ensured hensures) hensures.get data
        (hbytes rfl)
  | subscribe other =>
    rw [step_bytes _ _ fun _ => rfl]
    change Follows (outcome (LogBroker.subscribe other v.broker)).2 _ _ _ _
    rcases subscribe_cases v.broker other with ⟨err, hfails⟩ | ⟨state, w', hensures, hok⟩
    · rw [hfails]
      exact hnarrowed
    · rw [hok]
      exact (h.ensured hmem hensures).subscribed hensures.get
  | close other =>
    rw [step_bytes _ _ fun _ => rfl]
    exact hnarrowed.closed (close_closes hsound.distinct other) hstays
  | hang_up gone =>
    rw [step_bytes _ _ fun _ => rfl]
    exact hnarrowed.hung_up gone

theorem Follows.run {v : Tracked} (h : Follows v.broker v.bytes stream rx tail)
    (hsound : Sound v.broker v.bytes) (hmem : stream ∈ v.broker.streams)
    {requests : List Request} (hstays : Stays stream v requests) :
    Follows (v.run requests).broker (v.run requests).bytes stream rx tail := by
  induction requests generalizing v with
  | nil => exact h
  | cons request rest ih =>
    obtain ⟨hthere, hrest⟩ := hstays
    exact ih (h.step hsound hmem request hthere) (hsound.step request) hthere hrest

end nxr_core.log_broker
