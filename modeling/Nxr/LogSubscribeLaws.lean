-- The laws of a subscription: what others do to its channel,
-- and what it has written at the end.
import Nxr.LogBrokerLaws
import Nxr.LogFollowLaws
import Nxr.LogSubscribe

open serde_json btree nxr_core.log_broker
open std_io (bind_of_ok bind_of_error)

namespace nxr_core.daemon.log_subscribe

def Reached (w : LogBroker) : Prop := ∃ bytes, Sound w bytes

theorem start_reached : Reached .default := ⟨_, start_sound⟩

theorem Reached.taken {w : LogBroker} (h : Reached w) (request : Request) :
    Reached (taken w request).2 := by
  obtain ⟨bytes, hsound⟩ := h
  exact ⟨_, Sound.step (v := ⟨w, bytes⟩) hsound request⟩

def subscribers (w : LogBroker) (stream : String) : List Nat :=
  (w.streams[stream]?.map (·.subscribers)).getD []

theorem listens_eq (w : LogBroker) (stream : String) (rx : Nat) :
    listens w stream rx = (subscribers w stream).contains rx := by
  unfold listens subscribers
  rcases w.streams[stream]? with _ | state <;> rfl

variable {stream : String}

theorem listens_of_get {w : LogBroker} {rx : Nat} (h : listens w stream rx = true) :
    ∃ state, w.streams[stream]? = some state ∧ rx ∈ state.subscribers := by
  unfold listens at h
  rcases hget : w.streams[stream]? with _ | state
  · rw [hget] at h
    cases h
  · rw [hget] at h
    exact ⟨state, rfl, List.contains_iff_mem.mp h⟩

theorem listens_once {w : LogBroker} (h : Reached w) {other : String} {rx : Nat}
    (hstream : listens w stream rx = true) (hother : listens w other rx = true) :
    stream = other := by
  obtain ⟨bytes, hsound⟩ := h
  obtain ⟨state, hget, hmem⟩ := listens_of_get hstream
  obtain ⟨state', hget', hmem'⟩ := listens_of_get hother
  exact hsound.owned stream other state state' rx hget hget' hmem hmem'

theorem created_subscribers {w : LogBroker}
    {room : BTreeMap String LogStreamState} (hnew : stream ∉ w.streams)
    (hroom : Room w.streams room) (path : Option String) (other : String) :
    subscribers { w with streams := room.insert stream ⟨path, [], []⟩ } other =
      subscribers w other := by
  unfold subscribers
  dsimp only
  rw [get_insert]
  by_cases heq : stream = other
  · subst heq
    have hnone : w.streams[stream]? = none := by
      rcases hget : w.streams[stream]? with _ | state
      · rfl
      · exact absurd (mem_iff_get.mpr ⟨state, hget⟩) hnew
    rw [if_pos rfl, hnone]
    rfl
  · rw [if_neg heq]
    cases hroom with
    | enough => rfl
    | @evicts key state hget hidle =>
      rw [Std.ExtTreeMap.getElem?_erase]
      by_cases hkey : key = other
      · subst hkey
        rw [if_pos (Std.LawfulEqCmp.compare_eq_iff_eq.mpr rfl), hget]
        exact hidle.symm
      · rw [if_neg (by rwa [Std.LawfulEqCmp.compare_eq_iff_eq])]

variable {path : Option String}

theorem opens_subscribers {w w' : LogBroker} {ok : Bool}
    (h : Opens w stream path ok w') (other : String) :
    subscribers w' other = subscribers w other := by
  cases h with
  | refused => rfl
  | found => rfl
  | @renamed existing hget =>
    unfold subscribers
    dsimp only
    rw [get_insert]
    by_cases heq : stream = other
    · subst heq
      rw [if_pos rfl, hget]
      rfl
    · rw [if_neg heq]
  | created hnew hroom => exact created_subscribers hnew hroom path other

variable {state : LogStreamState}

theorem ensures_subscribers {w w' : LogBroker} (h : Ensures w stream state w') (other : String) :
    subscribers w' other = subscribers w other := by
  cases h with
  | found => rfl
  | created hnew hroom => exact created_subscribers hnew hroom none other

def heard (w : LogBroker) (rx : Nat) (request : Request) : List LogEvent :=
  match request with
  | .append stream data =>
    if listens w stream rx ∧ (taken w request).1 ∧ data ≠ [] then [.Chunk data] else []
  | .close stream => if listens w stream rx then [.Closed] else []
  | _ => []

def closing : Request → Option String
  | .close stream => some stream
  | _ => none

structure Carries (w w' : LogBroker) (rx : Nat) (events : List LogEvent)
    (closed : Option String) : Prop where
  made : rx < w'.channels
  connected : w'.connected rx = true
  sent : w'.sent rx = w.sent rx ++ events
  listens : ∀ stream, listens w' stream rx = (listens w stream rx && closed != some stream)

variable {w w' : LogBroker} {rx : Nat}

theorem carries_same (hmade : rx < w.channels) (hconnected : w.connected rx = true)
    (hchannels : w'.channels = w.channels) (hconn : w'.connected = w.connected)
    (hsent : w'.sent = w.sent)
    (hsubscribers : ∀ stream, subscribers w' stream = subscribers w stream) :
    Carries w w' rx [] none := by
  refine ⟨by rwa [hchannels], by rwa [hconn], by rw [hsent, List.append_nil], fun stream => ?_⟩
  rw [listens_eq, listens_eq, hsubscribers]
  simp

theorem opens_carries {ok : Bool} (h : Opens w stream path ok w') (hmade : rx < w.channels)
    (hconnected : w.connected rx = true) : Carries w w' rx [] none := by
  have hsubscribers := opens_subscribers h
  cases h with
  | refused => exact carries_same hmade hconnected rfl rfl rfl hsubscribers
  | found => exact carries_same hmade hconnected rfl rfl rfl hsubscribers
  | renamed => exact carries_same hmade hconnected rfl rfl rfl hsubscribers
  | created => exact carries_same hmade hconnected rfl rfl rfl hsubscribers

theorem ensures_carries (h : Ensures w stream state w') (hmade : rx < w.channels)
    (hconnected : w.connected rx = true) : Carries w w' rx [] none := by
  have hsubscribers := ensures_subscribers h
  cases h with
  | found => exact carries_same hmade hconnected rfl rfl rfl hsubscribers
  | created => exact carries_same hmade hconnected rfl rfl rfl hsubscribers

theorem pushed_carries (hget : w.streams[stream]? = some state) (hmade : rx < w.channels)
    (hconnected : w.connected rx = true) (data : List UInt8) :
    Carries w (w.pushed stream state data) rx
      (if listens w stream rx ∧ data ≠ [] then [.Chunk data] else []) none := by
  have hlistens : listens w stream rx = state.subscribers.contains rx := by
    unfold listens
    rw [hget]
  refine ⟨hmade, hconnected, ?_, fun other => ?_⟩
  · unfold LogBroker.pushed
    dsimp only
    rw [hlistens]
    by_cases hempty : data = []
    · simp [hempty]
    · rw [if_neg hempty]
      unfold sent_to
      by_cases hmem : rx ∈ state.subscribers
      · rw [if_pos ⟨hmem, hconnected⟩, if_pos ⟨List.contains_iff_mem.mpr hmem, hempty⟩]
      · rw [if_neg (fun h => hmem h.1), if_neg (fun h => hmem (List.contains_iff_mem.mp h.1)),
          List.append_nil]
  · rw [listens_eq, listens_eq]
    unfold subscribers LogBroker.pushed
    dsimp only
    rw [get_insert]
    by_cases heq : stream = other
    · subst heq
      rw [if_pos rfl, hget]
      by_cases hempty : data = []
      · simp [hempty]
      · simp [hempty, hconnected]
    · rw [if_neg heq]
      simp

theorem subscribed_carries (hget : w.streams[stream]? = some state) (hmade : rx < w.channels)
    (hconnected : w.connected rx = true) : Carries w (w.subscribed stream state) rx [] none := by
  have hne : rx ≠ w.channels := Nat.ne_of_lt hmade
  refine ⟨Nat.lt_succ_of_lt hmade, ?_, (List.append_nil _).symm, fun other => ?_⟩
  · exact (if_neg hne).trans hconnected
  · rw [listens_eq, listens_eq]
    unfold subscribers LogBroker.subscribed
    dsimp only
    rw [get_insert]
    by_cases heq : stream = other
    · subst heq
      rw [if_pos rfl, hget]
      simp [hne]
    · rw [if_neg heq]
      simp

theorem close_carries (h : Reached w) (stream : String) (hmade : rx < w.channels)
    (hconnected : w.connected rx = true) :
    Carries w (outcome (LogBroker.close stream w)).2 rx
      (if listens w stream rx then [.Closed] else []) (some stream) := by
  obtain ⟨bytes, hsound⟩ := h
  have helse : ∀ other : String, other ≠ stream →
      (some stream != some other) = true := by
    intro other hne
    simp [Ne.symm hne]
  unfold LogBroker.close
  rcases hget : w.streams[stream]? with _ | state
  · have hnot : listens w stream rx = false := by
      unfold listens
      rw [hget]
    refine ⟨hmade, hconnected, ?_, fun other => ?_⟩
    · rw [hnot]
      simp [outcome]
    · by_cases heq : other = stream
      · subst heq
        dsimp only [outcome]
        rw [hnot, Bool.false_and]
      · rw [helse other heq, Bool.and_true]
        rfl
  · have hlistens : listens w stream rx = state.subscribers.contains rx := by
      unfold listens
      rw [hget]
    dsimp only
    rw [fanout_eq _ (hsound.distinct stream state hget)]
    refine ⟨hmade, hconnected, ?_, fun other => ?_⟩
    · change sent_to w .Closed state.subscribers rx = _
      unfold sent_to
      rw [hlistens]
      by_cases hmem : rx ∈ state.subscribers
      · rw [if_pos ⟨hmem, hconnected⟩, if_pos (List.contains_iff_mem.mpr hmem)]
      · rw [if_neg (fun h => hmem h.1), if_neg (fun h => hmem (List.contains_iff_mem.mp h)),
          List.append_nil]
    · rw [listens_eq, listens_eq]
      unfold subscribers outcome
      dsimp only
      rw [Std.ExtTreeMap.getElem?_erase]
      by_cases heq : other = stream
      · subst heq
        rw [if_pos (Std.LawfulEqCmp.compare_eq_iff_eq.mpr rfl)]
        simp
      · rw [if_neg (by rw [Std.LawfulEqCmp.compare_eq_iff_eq]; exact Ne.symm heq),
          helse other heq, Bool.and_true]

/-- What a request of another does to a channel whose receiver is there. -/
theorem taken_carries (h : Reached w) (hmade : rx < w.channels)
    (hconnected : w.connected rx = true) (request : Request) (hstays : request ≠ .hang_up rx) :
    Carries w (taken w request).2 rx (heard w rx request) (closing request) := by
  cases request with
  | open_stream stream path =>
    exact opens_carries (open_stream_opens w stream path) hmade hconnected
  | append stream data =>
    obtain ⟨bytes, hsound⟩ := h
    have happends := append_appends hsound.distinct stream data
    change Appends w stream data (taken w (.append stream data)).1
      (taken w (.append stream data)).2 at happends
    unfold heard closing
    dsimp only
    generalize taken w (.append stream data) = result at happends ⊢
    obtain ⟨ok, after⟩ := result
    dsimp only at happends ⊢
    cases happends with
    | refused =>
      rw [if_neg (by simp)]
      exact carries_same hmade hconnected rfl rfl rfl fun _ => rfl
    | @pushed state w₁ hensures hnodup =>
      have hfirst := ensures_carries hensures hmade hconnected
      have hpushed := pushed_carries hensures.get hfirst.made hfirst.connected data
      have hsame : ∀ other, listens w₁ other rx = listens w other rx := by
        intro other
        rw [hfirst.listens]
        simp
      refine ⟨hpushed.made, hpushed.connected, ?_, fun other => ?_⟩
      · rw [hpushed.sent, hfirst.sent, List.append_nil, hsame]
        simp
      · rw [hpushed.listens, hsame]
  | subscribe stream =>
    change Carries w (outcome (LogBroker.subscribe stream w)).2 rx [] none
    rcases subscribe_cases w stream with ⟨err, hfails⟩ | ⟨state, w₁, hensures, hok⟩
    · rw [hfails]
      exact carries_same hmade hconnected rfl rfl rfl fun _ => rfl
    · rw [hok]
      have hfirst := ensures_carries hensures hmade hconnected
      have hthen := subscribed_carries hensures.get hfirst.made hfirst.connected
      refine ⟨hthen.made, hthen.connected, ?_, fun other => ?_⟩
      · exact hthen.sent.trans (congrArg (· ++ []) (hfirst.sent.trans (List.append_nil _)))
      · exact (hthen.listens other).trans (by rw [hfirst.listens]; simp)
  | close stream => exact close_carries h stream hmade hconnected
  | hang_up gone =>
    have hne : rx ≠ gone := by
      rintro rfl
      exact hstays rfl
    refine ⟨hmade, ?_, (List.append_nil _).symm, fun other => ?_⟩
    · exact (if_neg hne).trans hconnected
    · change listens w other rx = _
      simp [closing]

theorem retained_of_get (h : w.streams[stream]? = some state) : retained w stream = state.tail := by
  unfold retained
  rw [h]
  rfl

theorem retained_of_new (h : stream ∉ w.streams) : retained w stream = [] := by
  unfold retained
  rcases hget : w.streams[stream]? with _ | state
  · rfl
  · exact absurd (mem_iff_get.mpr ⟨state, hget⟩) h

theorem opens_retained {ok : Bool}
    (h : Opens w stream path ok w') : retained w' stream = retained w stream := by
  cases h with
  | refused => rfl
  | found => rfl
  | renamed hget =>
    rw [retained_of_get hget]
    unfold retained
    dsimp only
    rw [get_insert, if_pos rfl]
    rfl
  | created hnew =>
    rw [retained_of_new hnew]
    unfold retained
    dsimp only
    rw [get_insert, if_pos rfl]
    rfl

theorem ensures_retained (h : Ensures w stream state w') : state.tail = retained w stream := by
  cases h with
  | found hget => exact (retained_of_get hget).symm
  | created hnew => exact (retained_of_new hnew).symm

structure Registered (w w' : LogBroker) (stream : String) (tail : List UInt8) (rx : Nat) :
    Prop where
  reached : Reached w'
  made : rx < w'.channels
  connected : w'.connected rx = true
  sent : w'.sent rx = []
  listens : listens w' stream rx = true
  tail : tail = retained w stream

theorem register_ends (h : Reached w) (stream : String) (path : Option String) :
    (∃ message w', register stream path w = .error message w' ∧ Reached w') ∨
      ∃ tail rx file_path w', register stream path w = .ok (tail, rx, file_path) w' ∧
        Registered w w' stream tail rx := by
  have hopens := open_stream_opens w stream path
  have hreached := h.taken (.open_stream stream path)
  change Reached (outcome (LogBroker.open_stream stream path w)).2 at hreached
  unfold register
  rcases hopen : LogBroker.open_stream stream path w with ⟨_, w₁⟩ | ⟨err, w₁⟩
  · rw [hopen] at hopens hreached
    rw [bind_of_ok hopen]
    rcases subscribe_cases w₁ stream with ⟨err, hfails⟩ | ⟨state, w₂, hensures, hok⟩
    · rw [bind_of_error hfails]
      exact .inl ⟨err, w₁, rfl, hreached⟩
    · rw [bind_of_ok hok]
      have hlater := Reached.taken hreached (.subscribe stream)
      change Reached (outcome (LogBroker.subscribe stream w₁)).2 at hlater
      rw [hok] at hlater
      refine .inr ⟨state.tail, w₂.channels, _, w₂.subscribed stream state, rfl, hlater,
        Nat.lt_succ_self _, if_pos rfl, ?_, ?_, ?_⟩
      · obtain ⟨bytes, hsound⟩ := hreached
        exact (hsound.ensured hensures).fresh _ (Nat.le_refl _)
      · unfold log_subscribe.listens LogBroker.subscribed
        dsimp only
        rw [get_insert, if_pos rfl]
        simp
      · rw [ensures_retained hensures]
        exact opens_retained hopens
  · rw [hopen] at hreached
    rw [bind_of_error hopen]
    exact .inl ⟨err, w₁, rfl, hreached⟩

theorem recv_event {received : Nat} {event : LogEvent}
    (h : recv w rx received = .Event event) : (w.sent rx)[received]? = some event := by
  unfold recv at h
  split at h
  · next found hget =>
    cases h
    exact hget
  · split at h <;> cases h

theorem drop_of_get {events : List LogEvent} {received : Nat} {event : LogEvent}
    (h : events[received]? = some event) :
    events.drop received = event :: events.drop (received + 1) := by
  obtain ⟨hlt, rfl⟩ := List.getElem?_eq_some_iff.mp h
  exact List.drop_eq_getElem_cons hlt

theorem chunks_cons (event : LogEvent) (events : List LogEvent) :
    chunks (event :: events) = chunks [event] ++ chunks events := by
  unfold chunks
  simp

theorem chunks_nil_of_mem {events : List LogEvent} (h : chunks events = []) {data : List UInt8}
    (hmem : LogEvent.Chunk data ∈ events) : data = [] := by
  unfold chunks at h
  exact List.flatMap_eq_nil_iff.mp h _ hmem

theorem payload_chunk (id : UInt64) (data : List UInt8) :
    payload (chunk_response id data) = data := by
  unfold payload
  rw [chunk_frame]

theorem is_eof_chunk (id : UInt64) (data : List UInt8) :
    is_eof (chunk_response id data) = false := by
  unfold is_eof
  rw [chunk_frame]

theorem payload_eof (id : UInt64) (stream : String) : payload (eof_response id stream) = [] := by
  unfold payload
  rw [eof_frame]

theorem subscribed_frame (request : DaemonRequest) (stream : String) (from_start : Bool) :
    response_frame (subscribed_response request stream from_start) = .ok .Skip := by
  simp [response_frame, subscribed_response, ok_json, Value.get, List.lookup_cons, as_bool]

theorem failed_frame {response : DaemonResponse} (h : response.ok = false) :
    payload response = [] ∧ is_eof response = false := by
  unfold payload is_eof response_frame
  simp [h]

end nxr_core.daemon.log_subscribe
