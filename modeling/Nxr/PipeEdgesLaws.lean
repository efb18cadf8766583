-- No output is stranded in a pipe: what acts, reads and whole polls keep.
import Nxr.PipeEdges

namespace nxr_process.pipe_multiplex

/-! ## Acts -/

structure Grew (a b : PipeState) : Prop where
  written : a.written <+: b.written
  read : b.read = a.read
  ended : a.closed = true → b.closed = true ∧ b.written = a.written
  told : b = a ∨ b.event = true

theorem Grew.refl (pipe : PipeState) : Grew pipe pipe where
  written := List.prefix_rfl
  read := rfl
  ended := fun h => ⟨h, rfl⟩
  told := .inl rfl

theorem Grew.trans {a b c : PipeState} (h : Grew a b) (h' : Grew b c) : Grew a c where
  written := h.written.trans h'.written
  read := h'.read.trans h.read
  ended := by
    intro hclosed
    obtain ⟨hb, hwritten⟩ := h.ended hclosed
    obtain ⟨hc, hwritten'⟩ := h'.ended hb
    exact ⟨hc, hwritten'.trans hwritten⟩
  told := by
    rcases h'.told with rfl | hevent
    · exact h.told
    · exact .inr hevent

theorem write_grew (bytes : List UInt8) (pipe : PipeState) : Grew pipe (pipe.write bytes) := by
  unfold PipeState.write
  split
  · exact .refl pipe
  · next hopen =>
    have hclosed : pipe.closed ≠ true := fun h => hopen (by simp [h])
    exact ⟨List.prefix_append _ _, rfl, fun h => absurd h hclosed, .inr rfl⟩

theorem close_grew (pipe : PipeState) : Grew pipe pipe.close := by
  unfold PipeState.close
  split
  · exact .refl pipe
  · exact ⟨List.prefix_rfl, rfl, fun _ => ⟨rfl, rfl⟩, .inr rfl⟩

structure AllGrew (pipes pipes' : List PipeState) : Prop where
  length : pipes'.length = pipes.length
  each : ∀ (index : Nat) (pipe : PipeState), pipes[index]? = some pipe →
    ∃ pipe', pipes'[index]? = some pipe' ∧ Grew pipe pipe'

theorem AllGrew.refl (pipes : List PipeState) : AllGrew pipes pipes :=
  ⟨rfl, fun _ pipe h => ⟨pipe, h, .refl pipe⟩⟩

theorem AllGrew.trans {a b c : List PipeState} (h : AllGrew a b) (h' : AllGrew b c) :
    AllGrew a c where
  length := h'.length.trans h.length
  each := by
    intro index pipe hpipe
    obtain ⟨pipe', hpipe', hgrew⟩ := h.each index pipe hpipe
    obtain ⟨pipe'', hpipe'', hgrew'⟩ := h'.each index pipe' hpipe'
    exact ⟨pipe'', hpipe'', hgrew.trans hgrew'⟩

theorem modify_grew {change : PipeState → PipeState} (hchange : ∀ pipe, Grew pipe (change pipe))
    (pipes : List PipeState) (target : Nat) : AllGrew pipes (pipes.modify target change) where
  length := List.length_modify _ _ _
  each := by
    intro index pipe hpipe
    rw [List.getElem?_modify, hpipe]
    by_cases htarget : target = index
    · exact ⟨change pipe, by simp [htarget], hchange pipe⟩
    · exact ⟨pipe, by simp [htarget], .refl pipe⟩

theorem act_grew (pipes : List PipeState) (deed : Act) : AllGrew pipes (act pipes deed) := by
  cases deed with
  | write pipe bytes => exact modify_grew (write_grew bytes) pipes pipe
  | close pipe => exact modify_grew close_grew pipes pipe

theorem acts_grew (deeds : List Act) (pipes : List PipeState) :
    AllGrew pipes (deeds.foldl act pipes) := by
  induction deeds generalizing pipes with
  | nil => exact .refl pipes
  | cons deed deeds ih => exact (act_grew pipes deed).trans (ih (act pipes deed))

/-! ## What a pipe holds -/

def PipeState.InOrder (pipe : PipeState) : Prop := pipe.read ≤ pipe.written.length

theorem not_stranded_iff (pipe : PipeState) : pipe.stranded = false ↔
    (pipe.unread ≠ [] ∨ pipe.closed = true → pipe.event = true) := by
  unfold PipeState.stranded PipeState.holds
  cases pipe.event <;> cases pipe.closed <;> cases pipe.unread <;> simp

theorem Grew.not_stranded {a b : PipeState} (h : Grew a b) (ha : a.stranded = false) :
    b.stranded = false := by
  rcases h.told with rfl | hevent
  · exact ha
  · exact (not_stranded_iff b).mpr fun _ => hevent

theorem Grew.in_order {a b : PipeState} (h : Grew a b) (ha : a.InOrder) : b.InOrder := by
  unfold PipeState.InOrder at *
  have hlength := h.written.length_le
  rw [h.read]
  omega

theorem Grew.take_read {a b : PipeState} (h : Grew a b) (ha : a.InOrder) :
    b.written.take b.read = a.written.take a.read := by
  obtain ⟨more, hmore⟩ := h.written
  rw [h.read, ← hmore, List.take_append_of_le_length ha]

def PipeState.Finished (pipe : PipeState) : Prop := pipe.closed = true ∧ pipe.unread = []

theorem Grew.finished {a b : PipeState} (h : Grew a b) (ha : a.Finished) : b.Finished := by
  obtain ⟨hclosed, hwritten⟩ := h.ended ha.1
  refine ⟨hclosed, ?_⟩
  unfold PipeState.unread
  rw [hwritten, h.read]
  exact ha.2

theorem read_count_pos {pipe : PipeState} (h : pipe.unread ≠ []) (limit : Nat) :
    0 < pipe.read_count limit := by
  have hlength := List.length_pos_iff.mpr h
  unfold PipeState.read_count READ_BUFFER_SIZE
  omega

theorem read_bytes_in_order {pipe : PipeState} (h : pipe.InOrder) (limit : Nat) :
    (pipe.read_bytes limit).InOrder := by
  unfold PipeState.InOrder PipeState.read_bytes PipeState.read_count PipeState.unread at *
  rw [List.length_drop]
  dsimp only
  omega

theorem read_bytes_take (pipe : PipeState) (limit : Nat) :
    (pipe.read_bytes limit).written.take (pipe.read_bytes limit).read =
      pipe.written.take pipe.read ++ pipe.unread.take (pipe.read_count limit) := by
  unfold PipeState.read_bytes PipeState.unread
  exact List.take_add

/-! ## The reads of a wake -/

theorem outcome_cases (pipe : PipeState) (turn : ReadTurn) :
    (turn.interrupted = true ∧ pipe.outcome turn = .Again) ∨
    (turn.interrupted = false ∧ pipe.Finished ∧ pipe.outcome turn = .Ok []) ∨
    (turn.interrupted = false ∧ pipe.unread = [] ∧ pipe.closed = false ∧
      pipe.outcome turn = .Again) ∨
    (turn.interrupted = false ∧ pipe.unread ≠ [] ∧ ∃ byte bytes,
      pipe.unread.take (pipe.read_count turn.limit) = byte :: bytes ∧
      pipe.outcome turn = .Ok (byte :: bytes)) := by
  unfold PipeState.outcome
  cases hinterrupted : turn.interrupted with
  | true => exact .inl ⟨rfl, rfl⟩
  | false =>
    cases hunread : pipe.unread with
    | nil =>
      cases hclosed : pipe.closed with
      | true => exact .inr (.inl ⟨rfl, ⟨hclosed, hunread⟩, by simp⟩)
      | false => exact .inr (.inr (.inl ⟨rfl, rfl, rfl, by simp⟩))
    | cons byte rest =>
      have hcount := read_count_pos (by rw [hunread]; simp) turn.limit
      obtain ⟨count, hsucc⟩ := Nat.exists_eq_succ_of_ne_zero (Nat.pos_iff_ne_zero.mp hcount)
      refine .inr (.inr (.inr ⟨rfl, by simp, byte, rest.take count, ?_, ?_⟩))
      · rw [hsucc, List.take_succ_cons]
      · rw [hsucc]
        simp

section Wake

variable (inner : Inner Nat) (token : Nat) (source : PipeSource Nat)

structure WakeSpec (pipes : List PipeState) (to_end : Bool) (after : List PipeState)
    (result : ReadResult Nat) : Prop where
  ok : result.ok = true
  readers : ∀ d ∈ result.delivered, d.reader = source.reader
  length : after.length = pipes.length
  others : ∀ (index : Nat) (a : PipeState), index ≠ source.reader.pipe →
    pipes[index]? = some a → ∃ b, after[index]? = some b ∧ Grew a b
  own : ∀ a, pipes[source.reader.pipe]? = some a → a.InOrder →
    ∃ b, after[source.reader.pipe]? = some b ∧ b.InOrder ∧
      b.written.take b.read =
        a.written.take a.read ++ result.delivered.flatMap (fun d => d.chunk.bytes) ∧
      ((result.table = inner ∧ (to_end = true → b.stranded = false)) ∨
        (result.table = inner.close_source token ∧ b.Finished))

variable {inner token source} {to_end : Bool}

theorem WakeSpec.leave {pipes : List PipeState} {result : ReadResult Nat}
    (hok : result.ok = true) (hdelivered : result.delivered = [])
    (hleft : ∀ pipe, pipes[source.reader.pipe]? = some pipe →
      (result.table = inner ∧ (to_end = true → pipe.stranded = false)) ∨
        (result.table = inner.close_source token ∧ pipe.Finished)) :
    WakeSpec inner token source pipes to_end pipes result where
  ok := hok
  readers := by simp [hdelivered]
  length := rfl
  others := fun index a _ ha => ⟨a, ha, .refl a⟩
  own := by
    intro a ha horder
    refine ⟨a, ha, horder, ?_, hleft a ha⟩
    rw [hdelivered, List.flatMap_nil, List.append_nil]

/-- The children act before the wake goes on. -/
theorem WakeSpec.grown {pipes now after : List PipeState}
    {result : ReadResult Nat} (hgrew : AllGrew pipes now)
    (h : WakeSpec inner token source now to_end after result) :
    WakeSpec inner token source pipes to_end after result where
  ok := h.ok
  readers := h.readers
  length := h.length.trans hgrew.length
  others := by
    intro index a hindex ha
    obtain ⟨mid, hmid, hgrew⟩ := hgrew.each index a ha
    obtain ⟨b, hb, hgrew'⟩ := h.others index mid hindex hmid
    exact ⟨b, hb, hgrew.trans hgrew'⟩
  own := by
    intro a ha horder
    obtain ⟨mid, hmid, hgrew⟩ := hgrew.each _ a ha
    obtain ⟨b, hb, hborder, htake, hleft⟩ := h.own mid hmid (hgrew.in_order horder)
    exact ⟨b, hb, hborder, by rw [htake, hgrew.take_read horder], hleft⟩

theorem WakeSpec.read {pipes after : List PipeState} {pipe : PipeState}
    {limit : Nat} {chunk : PipeChunk} {more : ReadResult Nat}
    (hpipe : pipes[source.reader.pipe]? = some pipe)
    (hbytes : chunk.bytes = pipe.unread.take (pipe.read_count limit))
    (h : WakeSpec inner token source (pipes.set source.reader.pipe (pipe.read_bytes limit)) to_end
      after more) : WakeSpec inner token source pipes to_end after
      { more with delivered := ⟨chunk, source.reader, inner⟩ :: more.delivered } where
  ok := h.ok
  readers := by
    intro d hd
    rcases List.mem_cons.mp hd with rfl | hd
    · rfl
    · exact h.readers d hd
  length := by
    rw [h.length, List.length_set]
  others := by
    intro index a hindex ha
    exact h.others index a hindex (by rw [List.getElem?_set_ne (Ne.symm hindex)]; exact ha)
  own := by
    intro a ha horder
    cases hpipe.symm.trans ha
    have hset : (pipes.set source.reader.pipe (pipe.read_bytes limit))[source.reader.pipe]? =
        some (pipe.read_bytes limit) := by
      rw [List.getElem?_set_self (List.getElem?_eq_some_iff.mp hpipe).1]
    obtain ⟨b, hb, hborder, htake, hleft⟩ := h.own _ hset (read_bytes_in_order horder limit)
    refine ⟨b, hb, hborder, ?_, hleft⟩
    rw [htake, read_bytes_take, List.flatMap_cons, hbytes, List.append_assoc]

/-- By induction on the reads that are left. -/
theorem reads_spec (hlive : Live inner token source) (fuel : Nat) :
    ∀ (budget : Nat) (turns : List ReadTurn) (pipes : List PipeState),
      WakeSpec inner token source pipes
        (reads_to_end source.reader.pipe fuel budget turns pipes)
        (reads source.reader.pipe fuel budget turns pipes).2
        (inner.read_ready token budget
          (reads source.reader.pipe fuel budget turns pipes).1) := by
  have hstop : ∀ (budget : Nat) (pipes : List PipeState), WakeSpec inner token source pipes
      (!(pipes[source.reader.pipe]?.map PipeState.stranded).getD false) pipes
      (inner.read_ready token budget []) := by
    intro budget pipes
    refine .leave rfl rfl fun pipe hpipe => .inl ⟨rfl, fun hto => ?_⟩
    simpa [hpipe] using hto
  induction fuel with
  | zero => exact fun budget turns pipes => hstop budget pipes
  | succ fuel ih =>
    intro budget turns pipes
    by_cases hbudget : budget = 0
    · have h := hstop budget pipes
      simpa only [reads, reads_to_end, if_pos hbudget] using h
    simp only [reads, reads_to_end, if_neg hbudget]
    have hgrew := acts_grew (turns.headD .plain).acts pipes
    generalize (turns.headD .plain).acts.foldl act pipes = now at hgrew ⊢
    cases hpipe : now[source.reader.pipe]? with
    | none =>
      refine .grown hgrew (.leave rfl rfl fun pipe hpipe' => ?_)
      exact absurd (hpipe.symm.trans hpipe') (by simp)
    | some pipe =>
      have hsource : inner.sources[token]? = some (some source) := hlive
      refine .grown hgrew ?_
      rcases outcome_cases pipe (turns.headD .plain) with ⟨hint, hout⟩ | ⟨hint, hfinished, hout⟩ |
        ⟨hint, hunread, hclosed, hout⟩ | ⟨hint, hunread, byte, bytes, htake, hout⟩
      · simp only [hout, hint, if_true, Inner.read_ready, if_neg hbudget, hsource]
        refine .leave rfl rfl fun other hother => .inl ⟨rfl, fun hto => ?_⟩
        cases hpipe.symm.trans hother
        simpa using hto
      · simp only [hout, hint, Inner.read_ready, if_neg hbudget, hsource]
        refine .leave rfl rfl fun other hother => .inr ⟨rfl, ?_⟩
        cases hpipe.symm.trans hother
        exact hfinished
      · simp only [hout, hint, Inner.read_ready, if_neg hbudget, hsource]
        refine .leave rfl rfl fun other hother => .inl ⟨rfl, fun _ => ?_⟩
        cases hpipe.symm.trans hother
        exact (not_stranded_iff _).mpr (by simp [hunread, hclosed])
      · have hcount : (byte :: bytes).length = pipe.read_count (turns.headD .plain).limit := by
          rw [← htake, List.length_take]
          exact Nat.min_eq_left (Nat.min_le_left _ _)
        have hmore := ih (budget - pipe.read_count (turns.headD .plain).limit) turns.tail
          (now.set source.reader.pipe (pipe.read_bytes (turns.headD .plain).limit))
        have hempty : pipe.unread.isEmpty = false := by simpa using hunread
        simp only [hout, hint, hempty, hcount, Bool.false_eq_true, if_false, Inner.read_ready,
          if_neg hbudget, hsource]
        exact .read hpipe htake.symm hmore

end Wake

/-! ## The invariant -/

/-- A registered pipe exists, is read in order, and is stranded only while its wake is still to
come. -/
structure Sound (inner : Inner Nat) (pipes : List PipeState) (delivered : List (Delivery Nat))
    (waiting : Nat → Prop) : Prop where
  kept : Kept inner
  there : ∀ token source, Live inner token source → ∃ pipe,
    pipes[source.reader.pipe]? = some pipe ∧ (pipe.stranded = true → waiting token)
  apart : ∀ token source other source', Live inner token source → Live inner other source' →
    source.reader.pipe = source'.reader.pipe → token = other
  order : ∀ (index : Nat) (pipe : PipeState), pipes[index]? = some pipe → pipe.InOrder ∧
    World.bytes_of index delivered = pipe.written.take pipe.read ∧
    ((∀ token source, Live inner token source → source.reader.pipe ≠ index) → pipe.Finished)
  known : ∀ d ∈ delivered, d.reader.pipe < pipes.length

section Invariant

variable {inner : Inner Nat} {pipes after : List PipeState} {delivered : List (Delivery Nat)}
  {waiting : Nat → Prop} {token : Nat} {source : PipeSource Nat}

theorem bytes_of_append (index : Nat) (front back : List (Delivery Nat)) :
    World.bytes_of index (front ++ back) =
      World.bytes_of index front ++ World.bytes_of index back := by
  simp [World.bytes_of]

theorem bytes_of_own {deliveries : List (Delivery Nat)}
    (h : ∀ d ∈ deliveries, d.reader = source.reader) :
    World.bytes_of source.reader.pipe deliveries =
      deliveries.flatMap fun d => d.chunk.bytes := by
  unfold World.bytes_of
  rw [List.filter_eq_self.mpr fun d hd => by simp [h d hd]]

variable {index : Nat}

theorem bytes_of_other (hindex : index ≠ source.reader.pipe)
    {deliveries : List (Delivery Nat)} (h : ∀ d ∈ deliveries, d.reader = source.reader) :
    World.bytes_of index deliveries = [] := by
  unfold World.bytes_of
  rw [List.filter_eq_nil_iff.mpr fun d hd => by simp [h d hd, Ne.symm hindex]]
  rfl

theorem Sound.weaken (h : Sound inner pipes delivered waiting) {later : Nat → Prop}
    (hlater : ∀ token, waiting token → later token) : Sound inner pipes delivered later where
  kept := h.kept
  there := by
    intro token source hlive
    obtain ⟨pipe, hpipe, hwaits⟩ := h.there token source hlive
    exact ⟨pipe, hpipe, fun hstranded => hlater token (hwaits hstranded)⟩
  apart := h.apart
  order := h.order
  known := h.known

/-- The children act. -/
theorem Sound.grown (h : Sound inner pipes delivered waiting) (hgrew : AllGrew pipes after) :
    Sound inner after delivered waiting where
  kept := h.kept
  there := by
    intro token source hlive
    obtain ⟨a, ha, hwaits⟩ := h.there token source hlive
    obtain ⟨b, hb, hgrew⟩ := hgrew.each _ a ha
    refine ⟨b, hb, fun hstranded => hwaits ?_⟩
    rw [← Bool.not_eq_false]
    intro hnot
    rw [hgrew.not_stranded hnot] at hstranded
    exact absurd hstranded (by simp)
  apart := h.apart
  order := by
    intro index b hb
    have hindex : index < pipes.length := by
      rw [← hgrew.length]
      exact (List.getElem?_eq_some_iff.mp hb).1
    obtain ⟨b', hb', hgrew⟩ := hgrew.each index _ (List.getElem?_eq_getElem hindex)
    cases hb'.symm.trans hb
    obtain ⟨horder, hbytes, hfinished⟩ := h.order index _ (List.getElem?_eq_getElem hindex)
    exact ⟨hgrew.in_order horder, hbytes.trans (hgrew.take_read horder).symm,
      fun hnone => hgrew.finished (hfinished hnone)⟩
  known := fun d hd => hgrew.length ▸ h.known d hd

/-- One wake: its own token does not wait any more. -/
theorem Sound.wake (h : Sound inner pipes delivered waiting) (hlive : Live inner token source)
    {result : ReadResult Nat} (hspec : WakeSpec inner token source pipes true after result) :
    Sound result.table after (delivered ++ result.delivered)
      fun other => waiting other ∧ other ≠ token := by
  obtain ⟨a, ha, -⟩ := h.there token source hlive
  obtain ⟨haorder, habytes, -⟩ := h.order _ a ha
  obtain ⟨b, hb, hborder, htake, hleft⟩ := hspec.own a ha haorder
  have hlive_iff : ∀ other source', Live result.table other source' →
      Live inner other source' ∧ (other = token → b.stranded = false) := by
    intro other source' hother
    rcases hleft with ⟨htable, hto⟩ | ⟨htable, -⟩
    · rw [htable] at hother
      exact ⟨hother, fun _ => hto rfl⟩
    · rw [htable, close_live_iff hlive] at hother
      exact ⟨hother.1, fun heq => absurd heq hother.2⟩
  have hkeeps : ∀ other source', Live inner other source' → other ≠ token →
      Live result.table other source' := by
    intro other source' hother hne
    rcases hleft with ⟨htable, -⟩ | ⟨htable, -⟩
    · rw [htable]
      exact hother
    · rw [htable]
      exact (close_live_iff hlive).mpr ⟨hother, hne⟩
  refine ⟨?_, ?_, ?_, ?_, ?_⟩
  · rcases hleft with ⟨htable, -⟩ | ⟨htable, -⟩
    · rw [htable]
      exact h.kept
    · rw [htable]
      exact Closing.close_kept h.kept hlive
  · intro other source' hother
    obtain ⟨hbefore, hown⟩ := hlive_iff other source' hother
    by_cases heq : other = token
    · subst heq
      cases Option.some.inj (Option.some.inj (hbefore.symm.trans hlive))
      exact ⟨b, hb, fun hstranded => absurd hstranded (by rw [hown rfl]; simp)⟩
    · have hindex : source'.reader.pipe ≠ source.reader.pipe :=
        fun hsame => heq (h.apart _ _ _ _ hbefore hlive hsame)
      obtain ⟨c, hc, hwaits⟩ := h.there other source' hbefore
      obtain ⟨d, hd, hgrew⟩ := hspec.others _ c hindex hc
      refine ⟨d, hd, fun hstranded => ⟨hwaits ?_, heq⟩⟩
      rw [← Bool.not_eq_false]
      intro hnot
      rw [hgrew.not_stranded hnot] at hstranded
      exact absurd hstranded (by simp)
  · intro k s j s' hk hj
    exact h.apart k s j s' (hlive_iff k s hk).1 (hlive_iff j s' hj).1
  · intro index d hd
    rw [bytes_of_append]
    by_cases hindex : index = source.reader.pipe
    · subst hindex
      cases hb.symm.trans hd
      refine ⟨hborder, by rw [bytes_of_own hspec.readers, htake, habytes], fun hnone => ?_⟩
      rcases hleft with ⟨htable, -⟩ | ⟨-, hfinished⟩
      · exact absurd rfl (hnone token source (htable ▸ hlive))
      · exact hfinished
    · have hlt : index < pipes.length := by
        rw [← hspec.length]
        exact (List.getElem?_eq_some_iff.mp hd).1
      obtain ⟨d', hd', hgrew⟩ := hspec.others index _ hindex (List.getElem?_eq_getElem hlt)
      cases hd'.symm.trans hd
      obtain ⟨horder, hbytes, hfinished⟩ := h.order index _ (List.getElem?_eq_getElem hlt)
      rw [bytes_of_other hindex hspec.readers, List.append_nil]
      refine ⟨hgrew.in_order horder, hbytes.trans (hgrew.take_read horder).symm, fun hnone => ?_⟩
      apply hgrew.finished
      apply hfinished
      intro other source' hother hsame
      by_cases heq : other = token
      · subst heq
        cases Option.some.inj (Option.some.inj (hother.symm.trans hlive))
        exact hindex hsame.symm
      · exact hnone other source' (hkeeps other source' hother heq) hsame
  · intro d hd
    rw [hspec.length]
    rcases List.mem_append.mp hd with hold | hnew
    · exact h.known d hold
    · rw [hspec.readers d hnew]
      exact (List.getElem?_eq_some_iff.mp ha).1

theorem pipe_of_some (h : pipe_of inner token = some index) :
    ∃ source, Live inner token source ∧ source.reader.pipe = index := by
  unfold pipe_of at h
  obtain ⟨source, hsource, rfl⟩ := Option.map_eq_some_iff.mp h
  exact ⟨source, Option.join_eq_some_iff.mp hsource, rfl⟩

theorem pipe_of_live (h : Live inner token source) :
    pipe_of inner token = some source.reader.pipe := by
  have hsource : inner.sources[token]? = some (some source) := h
  simp [pipe_of, hsource]

/-- The wakes in their order, by induction on those that are left. -/
theorem Sound.wakes {wakes : List Wake} (h : Sound inner pipes delivered
      fun token => token ∈ wakes.map Wake.token)
    (hend : wakes_to_end inner wakes pipes = true) :
    Sound (inner.read_events (wake_events inner wakes pipes).1).table
      (wake_events inner wakes pipes).2
      (delivered ++ (inner.read_events (wake_events inner wakes pipes).1).delivered)
      fun _ => False := by
  induction wakes generalizing inner pipes delivered with
  | nil =>
    simp only [wake_events, Inner.read_events, List.append_nil]
    exact h.weaken fun token htoken => absurd htoken (by simp)
  | cons wake rest ih =>
    cases hpipe : pipe_of inner wake.token with
    | none =>
      simp only [wake_events, hpipe]
      simp only [wakes_to_end, hpipe] at hend
      refine ih ⟨h.kept, fun token source hlive => ?_, h.apart, h.order, h.known⟩ hend
      obtain ⟨pipe, hthere, hwaits⟩ := h.there token source hlive
      refine ⟨pipe, hthere, fun hstranded => ?_⟩
      have hmem := hwaits hstranded
      rw [List.map_cons, List.mem_cons] at hmem
      refine hmem.resolve_left ?_
      rintro rfl
      rw [pipe_of_live hlive] at hpipe
      exact absurd hpipe (by simp)
    | some index =>
      obtain ⟨source, hlive, rfl⟩ := pipe_of_some hpipe
      have hspec := reads_spec hlive READ_FAIRNESS_BUDGET READ_FAIRNESS_BUDGET wake.turns pipes
      simp only [wakes_to_end, hpipe, Bool.and_eq_true] at hend
      rw [hend.1] at hspec
      have hok := hspec.ok
      simp only [wake_events, hpipe, Inner.read_events, Bool.or_false, if_true, hok]
      rw [← List.append_assoc]
      refine ih ((h.wake hlive hspec).weaken fun token htoken => ?_) hend.2
      have hmem := htoken.1
      rw [List.map_cons, List.mem_cons] at hmem
      exact hmem.resolve_left htoken.2

theorem pending_some (h : pending inner pipes token = some index) :
    pipe_of inner token = some index := by
  unfold pending at h
  exact (Option.filter_eq_some_iff.mp h).1

/-- An event given back leaves its token waiting for its wake. -/
theorem Sound.told (h : Sound inner pipes delivered waiting)
    (hlive : Live inner token source) :
    Sound inner (pipes.modify source.reader.pipe .told) delivered
      fun other => waiting other ∨ other = token where
  kept := h.kept
  there := by
    intro other source' hother
    obtain ⟨pipe, hpipe, hwaits⟩ := h.there other source' hother
    rw [List.getElem?_modify, hpipe]
    by_cases hsame : source.reader.pipe = source'.reader.pipe
    · refine ⟨pipe.told, by simp [hsame], fun _ => .inr ?_⟩
      exact h.apart _ _ _ _ hother hlive hsame.symm
    · exact ⟨pipe, by simp [hsame], fun hstranded => .inl (hwaits hstranded)⟩
  apart := h.apart
  order := by
    intro index pipe hpipe
    rw [List.getElem?_modify] at hpipe
    obtain ⟨before, hbefore, rfl⟩ := Option.map_eq_some_iff.mp hpipe
    have horder := h.order index before hbefore
    by_cases hsame : source.reader.pipe = index
    · rw [if_pos hsame]
      exact horder
    · rw [if_neg hsame]
      exact horder
  known := by
    intro d hd
    rw [List.length_modify]
    exact h.known d hd

theorem Sound.take_events (capacity : Nat) (wakes : List Wake)
    (h : Sound inner pipes delivered waiting) :
    Sound inner (take_events inner capacity wakes pipes).2 delivered fun token =>
      waiting token ∨ token ∈ (take_events inner capacity wakes pipes).1.map Wake.token := by
  induction wakes generalizing capacity pipes waiting with
  | nil =>
    cases capacity <;> exact h.weaken fun _ hwaiting => .inl hwaiting
  | cons wake rest ih =>
    cases capacity with
    | zero => exact h.weaken fun _ hwaiting => .inl hwaiting
    | succ capacity =>
      cases hpending : pending inner pipes wake.token with
      | none =>
        simp only [pipe_multiplex.take_events, hpending]
        exact ih (capacity + 1) h
      | some index =>
        obtain ⟨source, hlive, rfl⟩ := pipe_of_some (pending_some hpending)
        simp only [pipe_multiplex.take_events, hpending]
        refine (ih capacity (h.told hlive)).weaken fun token htoken => ?_
        simp only [List.map_cons, List.mem_cons]
        tauto

/-- A new pipe gets a token of its own. -/
theorem Sound.register (h : Sound inner pipes delivered waiting) (node : UInt32)
    (stream : PipeStream) (found : List UInt8) (closed : Bool) :
    Sound (inner.register node stream (reader_of stream pipes.length) true)
      (pipes ++ [⟨found, 0, closed, !found.isEmpty || closed⟩]) delivered waiting := by
  have hreader : (reader_of stream pipes.length).pipe = pipes.length := by
    cases stream <;> rfl
  have hold : ∀ token source, Live inner token source →
      source.reader.pipe < pipes.length := by
    intro token source hlive
    obtain ⟨pipe, hpipe, -⟩ := h.there token source hlive
    exact (List.getElem?_eq_some_iff.mp hpipe).1
  have hlive_iff : ∀ token source, Live (inner.register node stream
      (reader_of stream pipes.length) true) token source ↔ Live inner token source ∨
        (token = inner.take_token.1 ∧ source = ⟨node, stream, reader_of stream pipes.length⟩) :=
    fun token source => register_live h.kept node stream _
  refine ⟨register_kept h.kept node stream _, ?_, ?_, ?_, ?_⟩
  · intro token source hlive
    rcases (hlive_iff token source).mp hlive with hlive | ⟨-, rfl⟩
    · rw [List.getElem?_append_left (hold token source hlive)]
      exact h.there token source hlive
    · rw [hreader, List.getElem?_concat_length]
      refine ⟨_, rfl, fun hstranded => absurd hstranded ?_⟩
      rw [Bool.not_eq_true, not_stranded_iff]
      simp [PipeState.unread]
  · intro k s j s' hk hj hsame
    rcases (hlive_iff k s).mp hk with hk | ⟨rfl, rfl⟩
    · rcases (hlive_iff j s').mp hj with hj | ⟨rfl, rfl⟩
      · exact h.apart k s j s' hk hj hsame
      · rw [hreader] at hsame
        exact absurd hsame (Nat.ne_of_lt (hold k s hk))
    · rcases (hlive_iff j s').mp hj with hj | ⟨rfl, rfl⟩
      · rw [hreader] at hsame
        exact absurd hsame.symm (Nat.ne_of_lt (hold j s' hj))
      · rfl
  · intro index pipe hpipe
    by_cases hindex : index < pipes.length
    · rw [List.getElem?_append_left hindex] at hpipe
      obtain ⟨horder, hbytes, hfinished⟩ := h.order index pipe hpipe
      refine ⟨horder, hbytes, fun hnone => hfinished fun token source hlive => ?_⟩
      exact hnone token source ((hlive_iff token source).mpr (.inl hlive))
    · have hlast : index = pipes.length := by
        have hlt := (List.getElem?_eq_some_iff.mp hpipe).1
        rw [List.length_append, List.length_singleton] at hlt
        omega
      subst hlast
      rw [List.getElem?_concat_length] at hpipe
      cases hpipe
      refine ⟨Nat.zero_le _, ?_, fun hnone => ?_⟩
      · unfold World.bytes_of
        rw [List.filter_eq_nil_iff.mpr fun d hd => ?_]
        · rfl
        · simpa using Nat.ne_of_lt (h.known d hd)
      · exact absurd hreader (hnone _ _ ((hlive_iff _ _).mpr (.inr ⟨rfl, rfl⟩)))
  · intro d hd
    rw [List.length_append]
    exact Nat.lt_add_right _ (h.known d hd)

end Invariant

section Quiet

variable (inner : Inner Nat)

theorem reads_events {turns : List ReadTurn} (hsilent : ∀ turn ∈ turns, turn.acts = [])
    (index fuel budget : Nat) (pipes : List PipeState) :
    (reads index fuel budget turns pipes).2.map PipeState.event = pipes.map PipeState.event := by
  induction fuel generalizing budget turns pipes with
  | zero => rfl
  | succ fuel ih =>
    have hacts : (turns.headD .plain).acts = [] := by
      cases turns with
      | nil => rfl
      | cons turn rest => exact hsilent turn List.mem_cons_self
    simp only [reads, hacts, List.foldl_nil]
    split
    · rfl
    · cases hpipe : pipes[index]? with
      | none => rfl
      | some pipe =>
        dsimp only
        split
        · rw [ih fun turn hturn => hsilent turn (List.mem_of_mem_tail hturn), List.map_set]
          apply List.ext_getElem?
          intro other
          rw [List.getElem?_set]
          split
          · next hother =>
            subst hother
            obtain ⟨hlt, hget⟩ := List.getElem?_eq_some_iff.mp hpipe
            simp [PipeState.read_bytes, hlt, hget]
          · rfl
        · rfl

theorem wake_events_events {wakes : List Wake} (hsilent : Silent wakes)
    (pipes : List PipeState) :
    (wake_events inner wakes pipes).2.map PipeState.event = pipes.map PipeState.event := by
  induction wakes generalizing inner pipes with
  | nil => rfl
  | cons wake rest ih =>
    have hrest : Silent rest := fun other hother =>
      hsilent other (List.mem_cons_of_mem wake hother)
    simp only [wake_events]
    split
    · exact ih inner hrest pipes
    · dsimp only
      rw [ih _ hrest, reads_events (hsilent wake List.mem_cons_self)]

/-- An event given back is no longer to come. -/
theorem take_events_told (capacity : Nat) (wakes : List Wake) (pipes : List PipeState) :
    (∀ wake ∈ (take_events inner capacity wakes pipes).1, wake ∈ wakes ∧
      ∀ index, pipe_of inner wake.token = some index → ∀ pipe,
        (take_events inner capacity wakes pipes).2[index]? = some pipe → pipe.event = false) ∧
    ∀ (index : Nat), (pipes[index]?.map PipeState.event).getD false = false →
      ((take_events inner capacity wakes pipes).2[index]?.map PipeState.event).getD false =
        false := by
  induction wakes generalizing capacity pipes with
  | nil => cases capacity <;> exact ⟨fun _ h => absurd h (by simp [take_events]), fun _ h => h⟩
  | cons wake rest ih =>
    cases capacity with
    | zero => exact ⟨fun _ h => absurd h (by simp [take_events]), fun _ h => h⟩
    | succ capacity =>
      cases hpending : pending inner pipes wake.token with
      | none =>
        simp only [take_events, hpending]
        obtain ⟨htaken, hkept⟩ := ih (capacity + 1) pipes
        exact ⟨fun other hother => ⟨List.mem_cons_of_mem wake (htaken other hother).1,
          (htaken other hother).2⟩, hkept⟩
      | some index =>
        simp only [take_events, hpending]
        obtain ⟨htaken, hkept⟩ := ih capacity (pipes.modify index .told)
        refine ⟨?_, fun other hother => hkept other ?_⟩
        · intro other hother
          rcases List.mem_cons.mp hother with rfl | hother
          · refine ⟨List.mem_cons_self, fun index' hindex' pipe hpipe => ?_⟩
            cases (pending_some hpending).symm.trans hindex'
            have htold := hkept index (by
              rw [List.getElem?_modify]
              cases pipes[index]? <;> simp [PipeState.told])
            simpa [hpipe] using htold
          · exact ⟨List.mem_cons_of_mem wake (htaken other hother).1, (htaken other hother).2⟩
        · rw [List.getElem?_modify]
          cases hpipe : pipes[other]? with
          | none => rfl
          | some pipe =>
            rw [hpipe] at hother
            split
            · rfl
            · exact hother

end Quiet

/-! ## Runs -/

namespace World

variable {world : World}

/-- Between the turns of a run no token waits. -/
abbrev Kept (world : World) : Prop :=
  Sound world.inner world.pipes world.delivered fun _ => False

theorem new_kept : World.new.Kept where
  kept := pipe_multiplex.new_kept
  there := fun token source hlive => absurd hlive (by simp [Live, World.new, Inner.new])
  apart := fun token source _ _ hlive _ => absurd hlive (by simp [Live, World.new, Inner.new])
  order := fun index pipe hpipe => absurd hpipe (by simp [World.new])
  known := fun d hd => absurd hd (by simp [World.new])

theorem Kept.poll (h : world.Kept) {wakes : List Wake}
    (hto : world.undisturbed (.Poll true wakes) = true) : (world.poll wakes).Kept := by
  have htaken := h.take_events EVENTS_CAPACITY wakes
  simp only [false_or] at htaken
  exact htaken.wakes hto

theorem Kept.next (h : world.Kept) {turn : Turn} (hto : world.undisturbed turn = true) :
    (world.next turn).Kept := by
  cases turn with
  | Register node stream found closed => exact h.register node stream found closed
  | Child deed => exact h.grown (act_grew world.pipes deed)
  | Poll polled wakes =>
    cases polled with
    | false => exact h
    | true => exact h.poll hto

theorem run_kept {turns : List Turn} (h : Undisturbed new turns) : (run turns).Kept := by
  have hrun : ∀ (turns : List Turn) (world : World), world.Kept → Undisturbed world turns →
      (turns.foldl World.next world).Kept := by
    intro turns
    induction turns with
    | nil => exact fun world hworld _ => hworld
    | cons turn rest ih =>
      intro world hworld hundisturbed
      exact ih _ (hworld.next hundisturbed.1) hundisturbed.2
  exact hrun turns new new_kept h

theorem Kept.not_stranded (h : world.Kept) : world.NotStranded := by
  intro token source hlive
  obtain ⟨pipe, hpipe, hwaits⟩ := h.there token source hlive
  exact ⟨pipe, hpipe, (not_stranded_iff pipe).mp (by simpa using hwaits)⟩

theorem Kept.delivered (h : world.Kept) : world.Delivered := by
  intro index pipe hpipe
  obtain ⟨-, hbytes, hfinished⟩ := h.order index pipe hpipe
  refine ⟨?_, hfinished⟩
  rw [hbytes]
  exact List.take_append_drop _ _

/-- A wake that its poll gives back reads its pipe to the end. -/
theorem Kept.drains (h : world.Kept) {wakes : List Wake} (hsilent : Silent wakes)
    (hto : world.undisturbed (.Poll true wakes) = true) {wake : Wake}
    (hwake : wake ∈ (take_events world.inner EVENTS_CAPACITY wakes world.pipes).1)
    {source : PipeSource Nat} (hlive : Live world.inner wake.token source) :
    (world.poll wakes).Drained source.reader.pipe := by
  have hafter := h.poll hto
  obtain ⟨htaken, -⟩ := take_events_told world.inner EVENTS_CAPACITY wakes world.pipes
  have htold := (htaken wake hwake).2 _ (pipe_of_live hlive)
  obtain ⟨before, hbefore, -⟩ := (h.take_events EVENTS_CAPACITY wakes).there _ _ hlive
  have hevents := wake_events_events world.inner
    (fun other hother => hsilent other (htaken other hother).1)
    (take_events world.inner EVENTS_CAPACITY wakes world.pipes).2
  have hevent := congrArg (fun events => events[source.reader.pipe]?) hevents
  simp only [List.getElem?_map, hbefore, Option.map_some, htold before hbefore] at hevent
  obtain ⟨pipe, hpipe, hquiet⟩ := Option.map_eq_some_iff.mp hevent
  have hthere : (world.poll wakes).pipes[source.reader.pipe]? = some pipe := hpipe
  refine ⟨pipe, hthere, ?_, ?_⟩
  · by_cases hregistered : ∃ token other, Live (world.poll wakes).inner token other ∧
        other.reader.pipe = source.reader.pipe
    · obtain ⟨token, other, hother, hsame⟩ := hregistered
      obtain ⟨found, hfound, hholds⟩ := hafter.not_stranded token other hother
      rw [hsame] at hfound
      cases hthere.symm.trans hfound
      by_contra hunread
      exact absurd (hholds (.inl hunread)) (by simp [hquiet])
    · refine ((hafter.delivered _ pipe hthere).2 fun token other hother hsame => ?_).2
      exact hregistered ⟨token, other, hother, hsame⟩
  · intro hclosed token other hother hsame
    obtain ⟨found, hfound, hholds⟩ := hafter.not_stranded token other hother
    rw [hsame] at hfound
    cases hthere.symm.trans hfound
    exact absurd (hholds (.inr hclosed)) (by simp [hquiet])

end World

end nxr_process.pipe_multiplex
