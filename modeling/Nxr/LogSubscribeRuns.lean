-- The runs of a subscription: a subscriber has seen the whole
-- log where no step leaves bytes behind.
import Nxr.LogSubscribeLaws

open nxr_core.log_broker

namespace nxr_core.daemon.log_subscribe

/-! ## The invariant -/

inductive Stage (w : LogBroker) (sub : Subscription) : Option (List UInt8) → Prop
  | opened (hlistens : listens w sub.stream sub.rx = true) (hclosed : .Closed ∉ w.sent sub.rx)
      (hreceived : sub.received ≤ (w.sent sub.rx).length) : Stage w sub none
  | shut {events : List LogEvent} {due : List UInt8}
      (hsent : w.sent sub.rx = events ++ [.Closed]) (hclosed : .Closed ∉ events)
      (hreceived : sub.received ≤ events.length)
      (hlistens : ∀ stream, listens w stream sub.rx = false) : Stage w sub (some due)

structure Attached (watch : Watch) (sub : Subscription) : Prop where
  made : sub.rx < watch.world.broker.channels
  connected : watch.world.broker.connected sub.rx = true
  stage : Stage watch.world.broker sub watch.due

structure Told (watch : Watch) (sub : Subscription) : Prop where
  log : watch.log = watch.world.delivered ++
    chunks ((watch.world.broker.sent sub.rx).drop sub.received)
  due : ∀ due ∈ watch.due, due = watch.log

/-- The file was not found, and nothing is missed. -/
structure Blind (watch : Watch) (sub : Subscription) : Prop where
  delivered : watch.world.delivered = []
  sent : chunks (watch.world.broker.sent sub.rx) = []
  due : ∀ due ∈ watch.due, due = []

def Owed (watch : Watch) (path : String) : Prop :=
  ∀ due ∈ watch.due, due <+: watch.world.content path

structure Unopened (watch : Watch) (path : String) : Prop where
  delivered : watch.world.delivered = []
  owed : Owed watch path

structure InFile (watch : Watch) (sub : Subscription) (file : LogFile) : Prop where
  path : sub.file_path = some file.path
  delivered : watch.world.delivered = (watch.world.content file.path).take file.offset
  offset : file.offset ≤ (watch.world.content file.path).length
  owed : Owed watch file.path

/-- Where the end is the next event, what was there at the close has been read. -/
def CaughtUp (watch : Watch) (sub : Subscription) (file : LogFile) : Prop :=
  ∀ due ∈ watch.due, (watch.world.broker.sent sub.rx).length = sub.received + 1 →
    due.length ≤ file.offset

def Sourced (watch : Watch) (sub : Subscription) : Prop :=
  if sub.file_path.isSome then Blind watch sub else Told watch sub

/-- What holds at each point of the handler. -/
def Stands (watch : Watch) : Point → Prop
  | .Start =>
    optional_param_bool watch.world.request "from_start" true = true ∧ watch.due = none ∧
      watch.world.written = []
  | .Opening sub =>
    sub.from_start = true ∧
      match sub.file_path with
      | some path => Unopened watch path
      | none => Told watch sub
  | .Existing sub file => InFile watch sub file
  | .Reading sub file _ => InFile watch sub file
  | .Receiving sub _ => Sourced watch sub
  | .Waiting sub none => Sourced watch sub
  | .Waiting sub (some file) => InFile watch sub file ∧ CaughtUp watch sub file
  | .Done _ => True

structure Inv (watch : Watch) : Prop where
  reached : Reached watch.world.broker
  attached : ∀ sub ∈ watch.world.point.live, Attached watch sub
  ends : (∀ response ∈ watch.world.written, is_eof response = false) ∨ watch.Whole
  stands : Stands watch watch.world.point

/-! ## The process -/

def Watch.with_file (watch : Watch) (path : String) (bytes : List UInt8) : Watch :=
  { watch with world := watch.world.put path bytes }

theorem content_put (world : World) (path : String) (more : List UInt8) (other : String) :
    world.content other <+: (world.put path (world.content path ++ more)).content other := by
  unfold World.put
  by_cases heq : other = path
  · subst heq
    unfold World.content
    simp
  · unfold World.content
    dsimp only
    rw [if_neg heq]

section Process

variable {watch : Watch} {path : String} {bytes : List UInt8} {sub : Subscription}

theorem Owed.with_file {other : String} (h : Owed watch other)
    (hgrows : watch.world.content other <+: (watch.world.put path bytes).content other) :
    Owed (watch.with_file path bytes) other :=
  fun due hdue => (h due hdue).trans hgrows

theorem InFile.with_file {file : LogFile} (h : InFile watch sub file)
    (hgrows : watch.world.content file.path <+: (watch.world.put path bytes).content file.path) :
    InFile (watch.with_file path bytes) sub file := by
  refine ⟨h.path, ?_, Nat.le_trans h.offset hgrows.length_le, h.owed.with_file hgrows⟩
  change watch.world.delivered = _
  obtain ⟨more, hmore⟩ := hgrows
  change _ = ((watch.world.put path bytes).content file.path).take file.offset
  rw [h.delivered, ← hmore, List.take_append_of_le_length h.offset]

theorem Watch.Whole.with_file (h : watch.Whole)
    (hgrows : ∀ other, watch.world.content other <+: (watch.world.put path bytes).content other) :
    (watch.with_file path bytes).Whole := by
  obtain ⟨sub, due, hpoint, hdue, hfirst, hlast⟩ := h
  refine ⟨sub, due, hpoint, hdue, hfirst, hlast.trans ?_⟩
  unfold Watch.source Watch.with_file
  dsimp only
  rcases sub.file_path with _ | other
  · exact List.prefix_refl _
  · exact hgrows other

theorem Inv.with_file (h : Inv watch)
    (hgrows : ∀ other, watch.world.content other <+: (watch.world.put path bytes).content other) :
    Inv (watch.with_file path bytes) := by
  refine ⟨h.reached, fun sub hsub => ?_, h.ends.imp id (·.with_file hgrows), ?_⟩
  · obtain ⟨hmade, hconnected, hstage⟩ := h.attached sub hsub
    exact ⟨hmade, hconnected, hstage⟩
  · have hstands := h.stands
    have hsame : ∀ sub, Sourced watch sub → Sourced (watch.with_file path bytes) sub := by
      intro sub hsourced
      unfold Sourced at hsourced ⊢
      split
      · next hsome =>
        rw [if_pos hsome] at hsourced
        exact ⟨hsourced.delivered, hsourced.sent, hsourced.due⟩
      · next hnone =>
        rw [if_neg hnone] at hsourced
        exact ⟨hsourced.log, hsourced.due⟩
    change Stands (watch.with_file path bytes) watch.world.point
    rcases hpoint : watch.world.point with _ | sub | ⟨sub, file⟩ | ⟨sub, file, progress⟩ |
      ⟨sub, progress⟩ | ⟨sub, _ | file⟩ | sub <;> rw [hpoint] at hstands
    · exact hstands
    · refine ⟨hstands.1, ?_⟩
      have hopening := hstands.2
      rcases hpath : sub.file_path with _ | other <;> rw [hpath] at hopening
      · exact ⟨hopening.log, hopening.due⟩
      · exact ⟨hopening.delivered, hopening.owed.with_file (hgrows other)⟩
    · exact InFile.with_file hstands (hgrows _)
    · exact InFile.with_file hstands (hgrows _)
    · exact hsame sub hstands
    · exact hsame sub hstands
    · exact ⟨hstands.1.with_file (hgrows _), hstands.2⟩
    · trivial

end Process

/-! ## Requests -/

def Watch.with_broker (watch : Watch) (w : LogBroker) (log : List UInt8)
    (due : Option (List UInt8)) : Watch :=
  ⟨{ watch.world with broker := w }, log, due⟩

/-- What a request comes to for a subscription. -/
inductive Effect (watch : Watch) (sub : Subscription) (w : LogBroker) :
    List UInt8 → Option (List UInt8) → Prop
  | quiet (hsent : w.sent sub.rx = watch.world.broker.sent sub.rx) :
      Effect watch sub w watch.log watch.due
  | chunk {data : List UInt8} (hdue : watch.due = none)
      (hreceived : sub.received ≤ (watch.world.broker.sent sub.rx).length)
      (hsent : w.sent sub.rx = watch.world.broker.sent sub.rx ++ [.Chunk data])
      (hseen : watch.world.blind = none) : Effect watch sub w (watch.log ++ data) watch.due
  | closed (hdue : watch.due = none)
      (hreceived : sub.received ≤ (watch.world.broker.sent sub.rx).length)
      (hsent : w.sent sub.rx = watch.world.broker.sent sub.rx ++ [.Closed])
      (hunseen : watch.world.unseen = []) :
      Effect watch sub w watch.log (some (watch.source sub))

section Requests

variable {watch : Watch} {sub : Subscription} {w : LogBroker} {log : List UInt8}
  {due : Option (List UInt8)}

theorem Told.effect (h : Told watch sub) (hfile : sub.file_path = none)
    (heffect : Effect watch sub w log due) : Told (watch.with_broker w log due) sub := by
  cases heffect with
  | quiet hsent =>
    refine ⟨?_, h.due⟩
    change watch.log = watch.world.delivered ++ chunks ((w.sent sub.rx).drop sub.received)
    rw [hsent]
    exact h.log
  | @chunk data hdue hreceived hsent =>
    refine ⟨?_, fun due hin => ?_⟩
    · change watch.log ++ data = watch.world.delivered ++
        chunks ((w.sent sub.rx).drop sub.received)
      rw [hsent, List.drop_append_of_le_length hreceived, chunks_append, h.log, List.append_assoc]
      simp [chunks]
    · change due ∈ watch.due at hin
      rw [hdue] at hin
      cases hin
  | closed hdue hreceived hsent =>
    refine ⟨?_, fun due hin => ?_⟩
    · change watch.log = watch.world.delivered ++ chunks ((w.sent sub.rx).drop sub.received)
      rw [hsent, List.drop_append_of_le_length hreceived, chunks_append, h.log]
      simp [chunks]
    · change due ∈ some (watch.source sub) at hin
      cases hin
      unfold Watch.source
      rw [hfile]
      rfl

theorem Blind.effect (h : Blind watch sub) {path : String} (hfile : sub.file_path = some path)
    (hblind : watch.world.blind = some path)
    (hunseen : watch.world.unseen = watch.world.content path)
    (heffect : Effect watch sub w log due) : Blind (watch.with_broker w log due) sub := by
  cases heffect with
  | quiet hsent =>
    refine ⟨h.delivered, ?_, h.due⟩
    change chunks (w.sent sub.rx) = []
    rw [hsent]
    exact h.sent
  | chunk hdue hreceived hsent hseen =>
    rw [hblind] at hseen
    cases hseen
  | closed hdue hreceived hsent hnone =>
    refine ⟨h.delivered, ?_, fun due hin => ?_⟩
    · change chunks (w.sent sub.rx) = []
      rw [hsent, chunks_append, h.sent]
      rfl
    · change due ∈ some (watch.source sub) at hin
      cases hin
      unfold Watch.source
      rw [hfile]
      exact hunseen.symm.trans hnone

theorem Owed.effect {path : String} (h : Owed watch path) (hfile : sub.file_path = some path)
    (heffect : Effect watch sub w log due) : Owed (watch.with_broker w log due) path := by
  cases heffect with
  | quiet => exact h
  | chunk => exact h
  | closed =>
    intro due hin
    change due ∈ some (watch.source sub) at hin
    cases hin
    unfold Watch.source
    rw [hfile]
    exact List.prefix_refl _

theorem InFile.effect {file : LogFile} (h : InFile watch sub file)
    (heffect : Effect watch sub w log due) : InFile (watch.with_broker w log due) sub file :=
  ⟨h.path, h.delivered, h.offset, h.owed.effect h.path heffect⟩

theorem CaughtUp.effect {file : LogFile} (h : CaughtUp watch sub file)
    (hfile : InFile watch sub file) (hpoint : watch.world.point = .Waiting sub (some file))
    (heffect : Effect watch sub w log due) : CaughtUp (watch.with_broker w log due) sub file := by
  cases heffect with
  | quiet hsent =>
    intro due hdue hlength
    change (w.sent sub.rx).length = sub.received + 1 at hlength
    rw [hsent] at hlength
    exact h due hdue hlength
  | chunk hdue =>
    intro due hin
    change due ∈ watch.due at hin
    rw [hdue] at hin
    cases hin
  | closed hdue hreceived hsent hunseen =>
    intro due hin hlength
    change due ∈ some (watch.source sub) at hin
    change (w.sent sub.rx).length = sub.received + 1 at hlength
    cases hin
    rw [hsent, List.length_append, List.length_singleton] at hlength
    unfold World.unseen at hunseen
    rw [hpoint] at hunseen
    dsimp only at hunseen
    rw [if_pos (by omega)] at hunseen
    unfold Watch.source
    rw [hfile.path]
    exact List.drop_eq_nil_iff.mp hunseen

theorem Sourced.effect (h : Sourced watch sub)
    (hblind : watch.world.blind = sub.file_path)
    (hunseen : ∀ path ∈ sub.file_path, watch.world.unseen = watch.world.content path)
    (heffect : Effect watch sub w log due) : Sourced (watch.with_broker w log due) sub := by
  unfold Sourced at h ⊢
  rcases hfile : sub.file_path with _ | path
  · rw [hfile] at h
    exact Told.effect h hfile heffect
  · rw [hfile] at h
    exact Blind.effect h hfile (hblind.trans hfile) (hunseen path hfile) heffect

/-- At each point, what a request comes to leaves the handler right. -/
theorem Stands.effect (h : Stands watch watch.world.point)
    (hlive : sub ∈ watch.world.point.live) (heffect : Effect watch sub w log due) :
    Stands (watch.with_broker w log due) watch.world.point := by
  rcases hpoint : watch.world.point with _ | found | ⟨found, file⟩ | ⟨found, file, progress⟩ |
    ⟨found, progress⟩ | ⟨found, _ | file⟩ | found <;> rw [hpoint] at h hlive <;> cases hlive
  · refine ⟨h.1, ?_⟩
    have hopening := h.2
    rcases hpath : sub.file_path with _ | path <;> rw [hpath] at hopening
    · exact Told.effect hopening hpath heffect
    · exact ⟨hopening.delivered, hopening.owed.effect hpath heffect⟩
  · exact InFile.effect h heffect
  · exact InFile.effect h heffect
  · refine Sourced.effect h ?_ (fun path hpath => ?_) heffect
    · unfold World.blind
      rw [hpoint]
    · unfold World.unseen World.blind
      rw [hpoint]
      dsimp only
      rw [hpath]
      rfl
  · refine Sourced.effect h ?_ (fun path hpath => ?_) heffect
    · unfold World.blind
      rw [hpoint]
    · unfold World.unseen World.blind
      rw [hpoint]
      dsimp only
      rw [hpath]
      rfl
  · exact ⟨h.1.effect heffect, h.2.effect h.1 hpoint heffect⟩

theorem hears_eq (hreached : Reached watch.world.broker) (hlive : sub ∈ watch.world.point.live)
    (hstage : Stage watch.world.broker sub watch.due) (stream : String) :
    watch.world.hears stream = listens watch.world.broker stream sub.rx := by
  unfold World.hears
  rw [Option.mem_def.mp hlive]
  dsimp only
  rcases hlistens : listens watch.world.broker stream sub.rx
  · rw [Bool.and_false]
  · rw [Bool.and_true, decide_eq_true_eq]
    generalize watch.due = due at hstage
    cases hstage with
    | opened hown => exact listens_once hreached hown hlistens
    | shut _ _ _ hnone =>
      rw [hnone] at hlistens
      cases hlistens

/-- The channel after a request that sends nothing over it. -/
theorem Stage.quiet {closed : Option String} (h : Stage watch.world.broker sub due)
    (hcarries : Carries watch.world.broker w sub.rx [] closed)
    (hother : listens watch.world.broker sub.stream sub.rx = true → closed ≠ some sub.stream) :
    Stage w sub due := by
  have hsent := hcarries.sent.trans (List.append_nil _)
  cases h with
  | opened hlistens hclosed hreceived =>
    refine .opened ?_ (by rwa [hsent]) (by rwa [hsent])
    rw [hcarries.listens, hlistens, Bool.true_and, bne_iff_ne]
    exact hother hlistens
  | shut hshut hclosed hreceived hlistens =>
    refine .shut (hsent.trans hshut) hclosed hreceived fun stream => ?_
    rw [hcarries.listens, hlistens, Bool.false_and]

/-- A request among the steps of the handler. -/
theorem request_effect (h : Inv watch) (hlive : sub ∈ watch.world.point.live)
    {request : Request} (horderly : watch.world.Orderly (.Request request))
    (hcarries : Carries watch.world.broker w sub.rx (heard watch.world.broker sub.rx request)
      (closing request)) :
    Effect watch sub w (watch.next_log (.Request request)) (watch.next_due (.Request request)) ∧
      Stage w sub (watch.next_due (.Request request)) := by
  obtain ⟨-, -, hstage⟩ := h.attached sub hlive
  have hhears := hears_eq h.reached hlive hstage
  cases request with
  | open_stream stream path =>
    exact ⟨.quiet (hcarries.sent.trans (List.append_nil _)), hstage.quiet hcarries nofun⟩
  | subscribe stream =>
    exact ⟨.quiet (hcarries.sent.trans (List.append_nil _)), hstage.quiet hcarries nofun⟩
  | hang_up rx =>
    exact ⟨.quiet (hcarries.sent.trans (List.append_nil _)), hstage.quiet hcarries nofun⟩
  | append stream data =>
    unfold heard closing at hcarries
    dsimp only at hcarries
    have hdue : watch.next_due (.Request (.append stream data)) = watch.due := rfl
    have hlog : watch.next_log (.Request (.append stream data)) =
        if watch.world.hears stream ∧ (taken watch.world.broker (.append stream data)).1 then
          watch.log ++ data else watch.log := rfl
    rw [hdue, hlog, hhears]
    by_cases hsends : listens watch.world.broker stream sub.rx ∧
        (taken watch.world.broker (.append stream data)).1
    · rw [if_pos hsends]
      by_cases hempty : data = []
      · rw [if_neg fun hand => hand.2.2 hempty] at hcarries
        rw [hempty, List.append_nil]
        exact ⟨.quiet (hcarries.sent.trans (List.append_nil _)), hstage.quiet hcarries nofun⟩
      · rw [if_pos ⟨hsends.1, hsends.2, hempty⟩] at hcarries
        have hseen : watch.world.blind = none := by
          rcases hblind : watch.world.blind with _ | path
          · rfl
          · refine absurd (horderly ((hhears stream).trans hsends.1) ?_) hempty
            rw [hblind]
            rfl
        generalize hsame : watch.due = due at hstage
        cases hstage with
        | opened hlistens hclosed hreceived =>
          refine ⟨?_, .opened ?_ ?_ ?_⟩
          · rw [← hsame]
            exact .chunk hsame hreceived hcarries.sent hseen
          · rw [hcarries.listens, hlistens]
            rfl
          · rw [hcarries.sent]
            simp [hclosed]
          · rw [hcarries.sent, List.length_append]
            omega
        | shut _ _ _ hlistens =>
          rw [hlistens] at hsends
          cases hsends.1
    · rw [if_neg hsends]
      rw [if_neg fun hand => hsends ⟨hand.1, hand.2.1⟩] at hcarries
      exact ⟨.quiet (hcarries.sent.trans (List.append_nil _)), hstage.quiet hcarries nofun⟩
  | close stream =>
    unfold heard closing at hcarries
    dsimp only at hcarries
    have hlog : watch.next_log (.Request (.close stream)) = watch.log := rfl
    have hdue : watch.next_due (.Request (.close stream)) =
        if watch.world.hears stream then watch.world.point.live.map watch.source
        else watch.due := rfl
    rw [hdue, hlog, Option.mem_def.mp hlive, hhears]
    by_cases hsends : listens watch.world.broker stream sub.rx = true
    · rw [if_pos hsends] at hcarries ⊢
      have hunseen := horderly ((hhears stream).trans hsends)
      generalize hsame : watch.due = due at hstage
      cases hstage with
      | opened hlistens hclosed hreceived =>
        refine ⟨.closed hsame hreceived hcarries.sent hunseen,
          .shut hcarries.sent hclosed hreceived fun other => ?_⟩
        rw [hcarries.listens]
        rcases hother : listens watch.world.broker other sub.rx
        · rfl
        · rw [listens_once h.reached hsends hother]
          simp
      | shut _ _ _ hlistens =>
        rw [hlistens] at hsends
        cases hsends
    · rw [if_neg hsends] at hcarries ⊢
      refine ⟨.quiet (hcarries.sent.trans (List.append_nil _)), hstage.quiet hcarries ?_⟩
      rintro hlistens heq
      cases heq
      exact hsends hlistens

theorem answer_carries (h : Inv watch) (hlive : sub ∈ watch.world.point.live)
    (request : Request) : ∃ w, watch.world.answer request = { watch.world with broker := w } ∧
      Reached w ∧ Carries watch.world.broker w sub.rx (heard watch.world.broker sub.rx request)
        (closing request) := by
  obtain ⟨hmade, hconnected, -⟩ := h.attached sub hlive
  by_cases hown : request = .hang_up sub.rx
  · subst hown
    refine ⟨watch.world.broker, ?_, h.reached,
      carries_same hmade hconnected rfl rfl rfl fun _ => rfl⟩
    unfold World.answer
    rw [Option.mem_def.mp hlive]
    exact if_pos rfl
  · refine ⟨_, ?_, h.reached.taken request, taken_carries h.reached hmade hconnected request hown⟩
    unfold World.answer
    rw [Option.mem_def.mp hlive]
    cases request with
    | hang_up rx => exact if_neg fun heq => hown (congrArg _ heq)
    | open_stream => rfl
    | append => rfl
    | subscribe => rfl
    | close => rfl

/-- Without a subscription a request changes the broker only. -/
theorem answer_idle (hlive : watch.world.point.live = none) (request : Request) :
    watch.next (.Request request) =
      watch.with_broker (taken watch.world.broker request).2 watch.log watch.due := by
  have hhears : ∀ stream, watch.world.hears stream = false := by
    intro stream
    unfold World.hears
    rw [hlive]
  have hanswer : watch.world.answer request =
      { watch.world with broker := (taken watch.world.broker request).2 } := by
    unfold World.answer
    rw [hlive]
    cases request <;> rfl
  have hlog : watch.next_log (.Request request) = watch.log := by
    cases request with
    | append stream data =>
      exact if_neg fun hand => by rw [hhears] at hand; cases hand.1
    | open_stream => rfl
    | subscribe => rfl
    | close => rfl
    | hang_up => rfl
  have hdue : watch.next_due (.Request request) = watch.due := by
    cases request with
    | close stream => exact if_neg fun hears => by rw [hhears] at hears; cases hears
    | open_stream => rfl
    | subscribe => rfl
    | append => rfl
    | hang_up => rfl
  unfold Watch.next Watch.with_broker
  rw [hlog, hdue]
  exact congrArg (fun world => Watch.mk world watch.log watch.due) hanswer

theorem Inv.request (h : Inv watch) {request : Request}
    (horderly : watch.world.Orderly (.Request request)) : Inv (watch.next (.Request request)) := by
  rcases hlive : watch.world.point.live with _ | sub
  · rw [answer_idle hlive]
    refine ⟨h.reached.taken request, fun sub hsub => ?_, h.ends, ?_⟩
    · change sub ∈ watch.world.point.live at hsub
      rw [hlive] at hsub
      cases hsub
    · have hstands := h.stands
      change Stands _ watch.world.point
      rcases hpoint : watch.world.point with _ | found | ⟨found, file⟩ | ⟨found, file, progress⟩ |
        ⟨found, progress⟩ | ⟨found, file⟩ | found <;> rw [hpoint] at hstands hlive <;>
        cases hlive
      · exact hstands
      · trivial
  · obtain ⟨w, hanswer, hreached, hcarries⟩ := answer_carries h hlive request
    obtain ⟨heffect, hstage⟩ := request_effect h hlive horderly hcarries
    have hnext : watch.next (.Request request) = watch.with_broker w
        (watch.next_log (.Request request)) (watch.next_due (.Request request)) :=
      congrArg (fun world => Watch.mk world _ _) hanswer
    rw [hnext]
    refine ⟨hreached, fun found hfound => ?_, .inl ?_, h.stands.effect hlive heffect⟩
    · cases Option.mem_unique hlive hfound
      exact ⟨hcarries.made, hcarries.connected, hstage⟩
    · rcases h.ends with hnone | ⟨found, due, hpoint, -⟩
      · exact hnone
      · rw [hpoint] at hlive
        cases hlive

end Requests

/-! ## The steps of the handler -/

def Watch.after (watch : Watch) (world : World) : Watch := { watch with world := world }

theorem delivered_write (world : World) (response : DaemonResponse) :
    (world.write response).delivered = world.delivered ++ payload response := by
  unfold World.delivered World.write
  simp

theorem delivered_write_chunk (world : World) (data : List UInt8) :
    (world.write_chunk data).delivered = world.delivered ++ data :=
  (delivered_write _ _).trans (congrArg _ (payload_chunk _ data))

section Turns

variable {watch : Watch} {sub : Subscription} {file : LogFile} {limit : Nat} {world : World}

theorem InFile.goto (h : InFile (watch.after world) sub file) (point : Point) :
    InFile (watch.after (world.goto point)) sub file :=
  ⟨h.path, h.delivered, h.offset, h.owed⟩

theorem Sourced.goto (h : Sourced (watch.after world) sub) (point : Point) :
    Sourced (watch.after (world.goto point)) sub := by
  unfold Sourced at h ⊢
  split
  · next hsome =>
    rw [if_pos hsome] at h
    exact ⟨h.delivered, h.sent, h.due⟩
  · next hnone =>
    rw [if_neg hnone] at h
    exact ⟨h.log, h.due⟩

theorem InFile.read (h : InFile watch sub file) (limit : Nat) :
    InFile (watch.after (watch.world.write_chunk (watch.world.read file limit).1)) sub
      (watch.world.read file limit).2 := by
  have hprefix : (watch.world.read file limit).1 <+: watch.world.unread file := List.take_prefix _ _
  have hlength := hprefix.length_le
  unfold World.unread at hlength
  rw [List.length_drop] at hlength
  have hoffset := h.offset
  refine ⟨h.path, ?_, ?_, h.owed⟩
  · change (watch.world.write_chunk _).delivered = (watch.world.content file.path).take
      (file.offset + (watch.world.read file limit).1.length)
    rw [delivered_write_chunk, List.take_add, ← h.delivered]
    exact congrArg _ (List.prefix_iff_eq_take.mp hprefix)
  · change file.offset + (watch.world.read file limit).1.length ≤
      (watch.world.content file.path).length
    omega

theorem read_nil (h : (world.read file limit).1 = []) :
    (world.content file.path).length ≤ file.offset := by
  unfold World.read at h
  rcases List.take_eq_nil_iff.mp h with hzero | hnil
  · omega
  · exact List.drop_eq_nil_iff.mp hnil

variable {data : List UInt8}

theorem Told.receive (h : Told watch sub)
    (hget : (watch.world.broker.sent sub.rx)[sub.received]? = some (.Chunk data)) :
    Told (watch.after (watch.world.write_chunk data)) sub.next := by
  refine ⟨?_, h.due⟩
  change watch.log = (watch.world.write_chunk data).delivered ++
    chunks ((watch.world.broker.sent sub.rx).drop (sub.received + 1))
  rw [h.log, drop_of_get hget, chunks_cons, delivered_write_chunk, List.append_assoc]
  simp [chunks]

theorem Blind.receive (h : Blind watch sub)
    (hget : (watch.world.broker.sent sub.rx)[sub.received]? = some (.Chunk data)) :
    Blind (watch.after (watch.world.write_chunk data)) sub.next := by
  have hdata := chunks_nil_of_mem h.sent (List.mem_of_getElem? hget)
  refine ⟨?_, h.sent, h.due⟩
  change (watch.world.write_chunk data).delivered = []
  rw [delivered_write_chunk, h.delivered, hdata, List.append_nil]

theorem Sourced.receive (h : Sourced watch sub)
    (hget : (watch.world.broker.sent sub.rx)[sub.received]? = some (.Chunk data)) :
    Sourced (watch.after (watch.world.write_chunk data)) sub.next := by
  unfold Sourced at h ⊢
  change if sub.file_path.isSome then _ else _
  split
  · next hsome =>
    rw [if_pos hsome] at h
    exact h.receive hget
  · next hnone =>
    rw [if_neg hnone] at h
    exact h.receive hget

theorem Stage.next {w : LogBroker} {due : Option (List UInt8)}
    (h : Stage w sub due) (hget : (w.sent sub.rx)[sub.received]? = some (.Chunk data)) :
    Stage w sub.next due := by
  obtain ⟨hlt, hat⟩ := List.getElem?_eq_some_iff.mp hget
  cases h with
  | opened hlistens hclosed => exact .opened hlistens hclosed hlt
  | @shut events due hsent hclosed hreceived hlistens =>
    refine .shut hsent hclosed ?_ hlistens
    change sub.received + 1 ≤ events.length
    by_contra hover
    have hlast : sub.received = events.length := by omega
    rw [hsent, hlast, List.getElem?_concat_length] at hget
    cases hget

theorem Stage.ended {w : LogBroker} {due : Option (List UInt8)} (h : Stage w sub due)
    (hget : (w.sent sub.rx)[sub.received]? = some .Closed) :
    due.isSome ∧ (w.sent sub.rx).drop sub.received = [.Closed] := by
  cases h with
  | opened hlistens hclosed => exact absurd (List.mem_of_getElem? hget) hclosed
  | @shut events due hsent hclosed hreceived =>
    have hlast : sub.received = events.length := by
      by_contra hne
      rw [hsent, List.getElem?_append_left (by omega)] at hget
      exact hclosed (List.mem_of_getElem? hget)
    refine ⟨rfl, ?_⟩
    rw [hsent, hlast, List.drop_left]

/-- The handler writes the end and returns. -/
def closing_world (world : World) (sub : Subscription) : World :=
  (world.write (eof_response world.request.id sub.stream)).finish sub.next

theorem closing_delivered (world : World) (sub : Subscription) :
    (closing_world world sub).delivered = world.delivered := by
  change (world.write _).delivered = _
  rw [delivered_write, payload_eof, List.append_nil]

theorem Told.whole (h : Told watch sub) (hfile : sub.file_path = none)
    (hdue : watch.due.isSome)
    (hdrop : (watch.world.broker.sent sub.rx).drop sub.received = [.Closed]) :
    (watch.after (closing_world watch.world sub)).Whole := by
  obtain ⟨due, hsome⟩ := Option.isSome_iff_exists.mp hdue
  have hlog : watch.log = watch.world.delivered := by
    rw [h.log, hdrop]
    exact List.append_nil _
  refine ⟨sub.next, due, rfl, hsome, ?_, ?_⟩
  · change due <+: (closing_world watch.world sub).delivered
    rw [closing_delivered, h.due due hsome, hlog]
  · change (closing_world watch.world sub).delivered <+: _
    rw [closing_delivered]
    unfold Watch.source Subscription.next
    rw [hfile, ← hlog]
    exact List.prefix_refl _

theorem Blind.whole (h : Blind watch sub) (hdue : watch.due.isSome) :
    (watch.after (closing_world watch.world sub)).Whole := by
  obtain ⟨due, hsome⟩ := Option.isSome_iff_exists.mp hdue
  refine ⟨sub.next, due, rfl, hsome, ?_, ?_⟩
  · rw [h.due due hsome]
    exact List.nil_prefix
  · change (closing_world watch.world sub).delivered <+: _
    rw [closing_delivered, h.delivered]
    exact List.nil_prefix

theorem InFile.whole (h : InFile watch sub file) (hcaught : CaughtUp watch sub file)
    (hdue : watch.due.isSome)
    (hdrop : (watch.world.broker.sent sub.rx).drop sub.received = [.Closed]) :
    (watch.after (closing_world watch.world sub)).Whole := by
  obtain ⟨due, hsome⟩ := Option.isSome_iff_exists.mp hdue
  have hlength := congrArg List.length hdrop
  rw [List.length_drop, List.length_singleton] at hlength
  have hread := hcaught due hsome (by omega)
  refine ⟨sub.next, due, rfl, hsome, ?_, ?_⟩
  · change due <+: (closing_world watch.world sub).delivered
    rw [closing_delivered, h.delivered]
    apply List.prefix_of_prefix_length_le (h.owed due hsome) (List.take_prefix _ _)
    rw [List.length_take]
    have hle := (h.owed due hsome).length_le
    omega
  · change (closing_world watch.world sub).delivered <+: _
    rw [closing_delivered, h.delivered]
    unfold Watch.source Subscription.next
    rw [h.path]
    exact List.take_prefix _ _

theorem Sourced.whole (h : Sourced watch sub) (hdue : watch.due.isSome)
    (hdrop : (watch.world.broker.sent sub.rx).drop sub.received = [.Closed]) :
    (watch.after (closing_world watch.world sub)).Whole := by
  unfold Sourced at h
  rcases hfile : sub.file_path with _ | path <;> rw [hfile] at h
  · exact Told.whole h hfile hdue hdrop
  · exact Blind.whole h hdue

/-! ## A step keeps the invariant -/

/-- The handler goes on at another point. -/
theorem Inv.moved (h : Inv watch) {next : Subscription}
    (hlive : sub ∈ watch.world.point.live) (hbroker : world.broker = watch.world.broker)
    (hnext : world.point.live = some next) (hrx : next.rx = sub.rx)
    (hstage : Stage watch.world.broker next watch.due)
    (hwritten : ∀ response ∈ world.written, is_eof response = false)
    (hstands : Stands (watch.after world) world.point) : Inv (watch.after world) := by
  obtain ⟨hmade, hconnected, -⟩ := h.attached sub hlive
  refine ⟨?_, fun found hfound => ?_, .inl hwritten, hstands⟩
  · change Reached world.broker
    rw [hbroker]
    exact h.reached
  · cases hnext.symm.trans hfound
    refine ⟨?_, ?_, ?_⟩
    · change next.rx < world.broker.channels
      rwa [hbroker, hrx]
    · change world.broker.connected next.rx = true
      rwa [hbroker, hrx]
    · change Stage world.broker next watch.due
      rwa [hbroker]

theorem Inv.finished (h : Inv watch) {last : Subscription}
    (hbroker : world.broker = watch.world.broker)
    (hends : (∀ response ∈ world.written, is_eof response = false) ∨
      (watch.after (world.finish last)).Whole) : Inv (watch.after (world.finish last)) := by
  refine ⟨?_, nofun, hends, trivial⟩
  change Reached (taken world.broker (.hang_up last.rx)).2
  rw [hbroker]
  exact h.reached.taken _

theorem Inv.endless (h : Inv watch) (hlive : sub ∈ watch.world.point.live) :
    ∀ response ∈ watch.world.written, is_eof response = false := by
  rcases h.ends with hnone | ⟨found, due, hpoint, -⟩
  · exact hnone
  · rw [hpoint] at hlive
    cases hlive

theorem endless_chunk (h : ∀ response ∈ world.written, is_eof response = false)
    (data : List UInt8) :
    ∀ response ∈ (world.write_chunk data).written, is_eof response = false := by
  intro response hin
  rcases List.mem_append.mp hin with hin | hin
  · exact h response hin
  · rw [List.mem_singleton.mp hin]
    exact is_eof_chunk _ _

theorem Inv.goes (h : Inv watch) (hlive : sub ∈ watch.world.point.live) {point : Point}
    (hpoint : point.live = some sub)
    (hstands : Stands (watch.after (watch.world.goto point)) point) :
    Inv (watch.after (watch.world.goto point)) :=
  h.moved hlive rfl hpoint rfl (h.attached sub hlive).stage (h.endless hlive) hstands

/-- A subscriber from the start, where its file is missing only if it has been sent nothing. -/
theorem Inv.opening (h : Inv watch) (hpoint : watch.world.point = .Opening sub)
    (horderly : watch.world.misses = false) : Inv (watch.after (watch.world.open_file sub)) := by
  have hlive : sub ∈ watch.world.point.live := by
    rw [hpoint]
    rfl
  have hstands := h.stands
  rw [hpoint] at hstands
  obtain ⟨hstart, hopening⟩ := hstands
  unfold World.misses at horderly
  rw [hpoint] at horderly
  dsimp only at horderly
  unfold World.open_file
  rcases hfile : sub.file_path with _ | path <;> rw [hfile] at hopening horderly
  · refine h.goes hlive rfl ?_
    change Sourced _ sub
    unfold Sourced
    rw [hfile]
    exact ⟨hopening.log, hopening.due⟩
  · dsimp only
    rcases hfound : watch.world.files path with _ | bytes
    · have hcontent : watch.world.content path = [] := by
        unfold World.content
        rw [hfound]
        rfl
      refine h.goes hlive rfl ?_
      change Sourced _ sub
      unfold Sourced
      rw [hfile]
      refine ⟨hopening.delivered, ?_, fun due hdue => ?_⟩
      · change chunks (watch.world.broker.sent sub.rx) = []
        rw [Option.any_some, hfound] at horderly
        simpa using horderly
      · have howed := hopening.owed due hdue
        rw [hcontent] at howed
        exact List.prefix_nil.mp howed
    · rw [hstart]
      refine h.goes hlive rfl ?_
      exact ⟨hfile, hopening.delivered.trans List.take_zero.symm, Nat.zero_le _, hopening.owed⟩

theorem Inv.existing (h : Inv watch) (hpoint : watch.world.point = .Existing sub file)
    (limit : Nat) : Inv (watch.after (watch.world.turn limit)) := by
  have hlive : sub ∈ watch.world.point.live := by
    rw [hpoint]
    rfl
  have hfile := h.stands
  rw [hpoint] at hfile
  unfold World.turn
  rw [hpoint]
  dsimp only
  split
  · exact h.goes hlive rfl (InFile.goto hfile _)
  · exact h.moved hlive rfl rfl rfl (h.attached sub hlive).stage
      (endless_chunk (h.endless hlive) _) ((InFile.read hfile limit).goto _)

theorem Inv.reading (h : Inv watch) {progress : Bool}
    (hpoint : watch.world.point = .Reading sub file progress) (limit : Nat) :
    Inv (watch.after (watch.world.turn limit)) := by
  have hlive : sub ∈ watch.world.point.live := by
    rw [hpoint]
    rfl
  have hfile := h.stands
  rw [hpoint] at hfile
  unfold World.turn
  rw [hpoint]
  dsimp only
  split
  · next hnil =>
    cases progress with
    | true => exact h.goes hlive rfl (InFile.goto hfile _)
    | false =>
      refine h.goes hlive rfl ⟨InFile.goto hfile _, fun due hdue _ => ?_⟩
      -- the file has been read to its end, which the bytes at the close are not past
      exact Nat.le_trans (InFile.owed hfile due hdue).length_le (read_nil hnil)
  · exact h.moved hlive rfl rfl rfl (h.attached sub hlive).stage
      (endless_chunk (h.endless hlive) _) ((InFile.read hfile limit).goto _)

theorem Inv.received (h : Inv watch) (hlive : sub ∈ watch.world.point.live)
    (hsourced : Sourced watch sub) {point : Point} (hpoint : point.live = some sub.next)
    (hget : (watch.world.broker.sent sub.rx)[sub.received]? = some (.Chunk data))
    (hstands : Sourced (watch.after (watch.world.write_chunk data)) sub.next →
      Stands (watch.after ((watch.world.write_chunk data).goto point)) point) :
    Inv (watch.after ((watch.world.write_chunk data).goto point)) :=
  h.moved hlive rfl hpoint rfl ((h.attached sub hlive).stage.next hget)
    (endless_chunk (h.endless hlive) _) (hstands (hsourced.receive hget))

theorem Inv.ended (h : Inv watch) (hwhole : (watch.after (closing_world watch.world sub)).Whole) :
    Inv (watch.after (closing_world watch.world sub)) := by
  unfold closing_world at hwhole ⊢
  exact h.finished rfl (.inr hwhole)

theorem Inv.receiving (h : Inv watch) {progress : Bool}
    (hpoint : watch.world.point = .Receiving sub progress) (limit : Nat) :
    Inv (watch.after (watch.world.turn limit)) := by
  have hlive : sub ∈ watch.world.point.live := by
    rw [hpoint]
    rfl
  have hsourced := h.stands
  rw [hpoint] at hsourced
  unfold World.turn
  rw [hpoint]
  dsimp only
  rcases hrecv : recv watch.world.broker sub.rx sub.received with (data | _) | _ | _
  · exact h.received hlive hsourced rfl (recv_event hrecv) fun hnext => hnext.goto _
  · obtain ⟨hdue, hdrop⟩ := (h.attached sub hlive).stage.ended (recv_event hrecv)
    exact h.ended (Sourced.whole hsourced hdue hdrop)
  · cases progress with
    | true => exact h.goes hlive rfl (Sourced.goto hsourced _)
    | false => exact h.goes hlive rfl (Sourced.goto hsourced _)
  · exact h.finished rfl (.inl (h.endless hlive))

theorem Inv.waiting_blind (h : Inv watch) (hpoint : watch.world.point = .Waiting sub none)
    (limit : Nat) : Inv (watch.after (watch.world.turn limit)) := by
  have hlive : sub ∈ watch.world.point.live := by
    rw [hpoint]
    rfl
  have hsourced := h.stands
  rw [hpoint] at hsourced
  unfold World.turn
  rw [hpoint]
  dsimp only
  rcases hrecv : recv watch.world.broker sub.rx sub.received with (data | _) | _ | _
  · exact h.received hlive hsourced rfl (recv_event hrecv) fun hnext => hnext.goto _
  · obtain ⟨hdue, hdrop⟩ := (h.attached sub hlive).stage.ended (recv_event hrecv)
    exact h.ended (Sourced.whole hsourced hdue hdrop)
  · exact h.goes hlive rfl (Sourced.goto hsourced _)
  · exact h.finished rfl (.inl (h.endless hlive))

theorem Inv.waiting (h : Inv watch) (hpoint : watch.world.point = .Waiting sub (some file))
    (limit : Nat) : Inv (watch.after (watch.world.turn limit)) := by
  have hlive : sub ∈ watch.world.point.live := by
    rw [hpoint]
    rfl
  have hstands := h.stands
  rw [hpoint] at hstands
  obtain ⟨hfile, hcaught⟩ := hstands
  unfold World.turn
  rw [hpoint]
  dsimp only
  rcases hrecv : recv watch.world.broker sub.rx sub.received with (data | _) | _ | _
  · exact h.moved hlive rfl rfl rfl ((h.attached sub hlive).stage.next (recv_event hrecv))
      (h.endless hlive) ⟨hfile.path, hfile.delivered, hfile.offset, hfile.owed⟩
  · obtain ⟨hdue, hdrop⟩ := (h.attached sub hlive).stage.ended (recv_event hrecv)
    exact h.ended (hfile.whole hcaught hdue hdrop)
  · exact h.goes hlive rfl (hfile.goto _)
  · exact h.finished rfl (.inl (h.endless hlive))

end Turns

/-! ## The first step -/

theorem param_str_error {request : DaemonRequest} {field : String} {response : DaemonResponse}
    (h : param_str request field = .error response) : response.ok = false := by
  unfold param_str at h
  split at h
  · cases h
    rfl
  · split at h <;> cases h
    rfl

theorem optional_param_str_error {request : DaemonRequest} {field : String}
    {response : DaemonResponse} (h : optional_param_str request field = .error response) :
    response.ok = false := by
  unfold optional_param_str at h
  split at h
  · cases h
  · split at h <;> cases h
    rfl

theorem params_cases (request : DaemonRequest) :
    (∃ response, log_subscribe_params request = .error response ∧ response.ok = false) ∨
      ∃ stream path, log_subscribe_params request =
        .ok (stream, path, optional_param_bool request "from_start" true) := by
  unfold log_subscribe_params
  by_cases hversion : request.v = DAEMON_PROTOCOL_VERSION
  · rw [if_neg (not_not_intro hversion)]
    rcases hstream : param_str request "stream" with response | stream
    · exact .inl ⟨response, rfl, param_str_error hstream⟩
    · rcases hpath : optional_param_str request "path" with response | path
      · exact .inl ⟨response, rfl, optional_param_str_error hpath⟩
      · exact .inr ⟨stream, path, rfl⟩
  · rw [if_pos hversion]
    exact .inl ⟨_, rfl, rfl⟩

section Steps

variable {watch : Watch}

theorem refused_inv {world : World} (hreached : Reached world.broker)
    (hwritten : world.written = []) {response : DaemonResponse} (hok : response.ok = false)
    (log : List UInt8) (due : Option (List UInt8)) :
    Inv ⟨(world.write response).goto (.Done none), log, due⟩ := by
  refine ⟨hreached, nofun, .inl fun other hin => ?_, trivial⟩
  change other ∈ world.written ++ [response] at hin
  rw [hwritten, List.nil_append, List.mem_singleton] at hin
  rw [hin]
  exact (failed_frame hok).2

def greeted (world : World) (stream : String) (from_start : Bool) (tail : List UInt8)
    (file_path : Option String) : World :=
  let told := world.write (subscribed_response world.request stream from_start)
  if file_path.isNone ∧ tail ≠ [] then told.write_chunk tail else told

variable (world : World) (stream : String) (from_start : Bool) (tail : List UInt8)
  (file_path : Option String)

theorem greeted_broker :
    (greeted world stream from_start tail file_path).broker = world.broker := by
  unfold greeted
  split <;> rfl

theorem greeted_delivered (hwritten : world.written = []) :
    (greeted world stream from_start tail file_path).delivered =
      if file_path.isNone then tail else [] := by
  have hnothing : (world.write (subscribed_response world.request stream from_start)).delivered =
      [] := by
    rw [delivered_write]
    unfold World.delivered payload
    rw [hwritten, subscribed_frame]
    rfl
  unfold greeted
  by_cases hnone : file_path.isNone = true
  · rw [if_pos hnone]
    by_cases hempty : tail = []
    · rw [if_neg fun hand => hand.2 hempty, hnothing, hempty]
    · rw [if_pos ⟨hnone, hempty⟩, delivered_write_chunk, hnothing, List.nil_append]
  · rw [if_neg hnone, if_neg fun hand => hnone hand.1, hnothing]

theorem greeted_endless (hwritten : world.written = []) :
    ∀ response ∈ (greeted world stream from_start tail file_path).written,
      is_eof response = false := by
  have htold : ∀ response ∈ (world.write
      (subscribed_response world.request stream from_start)).written,
      is_eof response = false := by
    intro response hin
    change response ∈ world.written ++ [_] at hin
    rw [hwritten, List.nil_append, List.mem_singleton] at hin
    rw [hin]
    unfold is_eof
    rw [subscribed_frame]
  unfold greeted
  split
  · exact endless_chunk htold tail
  · exact htold

theorem registered_inv {w : LogBroker} {rx : Nat} {due : Option (List UInt8)}
    (hregistered : Registered w world.broker stream tail rx) (hwritten : world.written = [])
    (hstart : from_start = true) (hdue : due = none) :
    Inv ⟨(greeted world stream from_start tail file_path).goto
      (.Opening ⟨stream, from_start, file_path, rx, 0⟩), retained w stream, due⟩ := by
  have hbroker := greeted_broker world stream from_start tail file_path
  have hdelivered := greeted_delivered world stream from_start tail file_path hwritten
  have hendless := greeted_endless world stream from_start tail file_path hwritten
  generalize greeted world stream from_start tail file_path = after at hbroker hdelivered hendless
  obtain ⟨hreached, hmade, hconnected, hsent, hlistens, htail⟩ := hregistered
  rw [← hbroker] at hreached hmade hconnected hsent hlistens
  refine ⟨hreached, fun sub hsub => ?_, .inl hendless, hstart, ?_⟩
  · cases hsub
    refine ⟨hmade, hconnected, ?_⟩
    change Stage after.broker _ due
    rw [hdue]
    refine .opened hlistens ?_ (Nat.zero_le _)
    rw [hsent]
    exact List.not_mem_nil
  · subst hdue
    rcases file_path with _ | path
    · refine ⟨?_, nofun⟩
      change retained w stream = after.delivered ++ chunks ((after.broker.sent rx).drop 0)
      rw [hdelivered, hsent, ← htail]
      exact (List.append_nil _).symm
    · exact ⟨hdelivered, nofun⟩

theorem Inv.starting (h : Inv watch) (hpoint : watch.world.point = .Start) (limit : Nat) :
    Inv (watch.next (.Turn limit)) := by
  have hstands := h.stands
  rw [hpoint] at hstands
  obtain ⟨hstart, hdue, hwritten⟩ := hstands
  have hnext : watch.next (.Turn limit) =
      ⟨watch.world.subscribe, watch.next_log (.Turn limit), watch.due⟩ := by
    unfold Watch.next World.next World.turn
    rw [hpoint]
    rfl
  rw [hnext]
  unfold World.subscribe
  rcases params_cases watch.world.request with ⟨response, hparams, hok⟩ | ⟨stream, path, hparams⟩
  · rw [hparams]
    exact refused_inv h.reached hwritten hok _ _
  · have hlog : watch.next_log (.Turn limit) = retained watch.world.broker stream := by
      unfold Watch.next_log
      dsimp only
      rw [hpoint, hparams]
    rw [hparams, hlog]
    dsimp only
    rcases register_ends h.reached stream path with ⟨message, w, hfails, hreached⟩ |
      ⟨tail, rx, file_path, w, hregister, hregistered⟩
    · have hok : (error_response watch.world.request "invalid_params" message).ok = false := rfl
      rw [hfails]
      refine refused_inv ?_ ?_ hok _ _
      · exact hreached
      · exact hwritten
    · rw [hregister]
      exact registered_inv { watch.world with broker := w } stream _ tail file_path hregistered
        hwritten hstart hdue

theorem Inv.turned (h : Inv watch) (limit : Nat) (horderly : watch.world.misses = false) :
    Inv (watch.next (.Turn limit)) := by
  have hlog : watch.world.point ≠ .Start →
      watch.next (.Turn limit) = watch.after (watch.world.turn limit) := by
    intro hpoint
    unfold Watch.next Watch.next_log Watch.after
    dsimp only
    split
    · next hstart _ => exact absurd hstart hpoint
    · rfl
  rcases hpoint : watch.world.point with _ | sub | ⟨sub, file⟩ | ⟨sub, file, progress⟩ |
    ⟨sub, progress⟩ | ⟨sub, _ | file⟩ | sub
  · exact h.starting hpoint limit
  · rw [hlog (by rw [hpoint]; exact nofun)]
    unfold World.turn
    rw [hpoint]
    exact h.opening hpoint horderly
  · rw [hlog (by rw [hpoint]; exact nofun)]
    exact h.existing hpoint limit
  · rw [hlog (by rw [hpoint]; exact nofun)]
    exact h.reading hpoint limit
  · rw [hlog (by rw [hpoint]; exact nofun)]
    exact h.receiving hpoint limit
  · rw [hlog (by rw [hpoint]; exact nofun)]
    exact h.waiting_blind hpoint limit
  · rw [hlog (by rw [hpoint]; exact nofun)]
    exact h.waiting hpoint limit
  · rw [hlog (by rw [hpoint]; exact nofun)]
    unfold World.turn
    rw [hpoint]
    exact h

theorem Inv.failed (h : Inv watch) : Inv (watch.next .Fail) := by
  have hfinished : ∀ sub ∈ watch.world.point.live,
      Inv (watch.after (watch.world.finish sub)) := by
    intro sub hlive
    exact h.finished rfl (.inl (h.endless hlive))
  have hstands := h.stands
  unfold Watch.next World.next Watch.next_log Watch.next_due
  dsimp only
  rcases hpoint : watch.world.point with _ | sub | ⟨sub, file⟩ | ⟨sub, file, progress⟩ |
    ⟨sub, progress⟩ | ⟨sub, file⟩ | sub <;> rw [hpoint] at hfinished hstands
  · refine ⟨h.reached, nofun, .inl ?_, trivial⟩
    change ∀ response ∈ watch.world.written, is_eof response = false
    rw [hstands.2.2]
    exact nofun
  · exact hfinished sub rfl
  · exact hfinished sub rfl
  · exact hfinished sub rfl
  · exact hfinished sub rfl
  · exact hfinished sub rfl
  · exact h

theorem Inv.next (h : Inv watch) (act : Act) (horderly : watch.world.Orderly act) :
    Inv (watch.next act) := by
  cases act with
  | Request request => exact h.request horderly
  | Create path =>
    refine Inv.with_file h fun other => ?_
    rw [← List.append_nil (watch.world.content path)]
    exact content_put watch.world path [] other
  | Append path bytes => exact h.with_file (content_put watch.world path bytes)
  | Turn limit => exact h.turned limit horderly
  | Fail => exact h.failed

theorem Inv.run (acts : List Act) : ∀ watch : Watch, Inv watch → Timely watch acts →
    Inv (watch.run acts) := by
  induction acts with
  | nil => exact fun watch h _ => h
  | cons act rest ih =>
    intro watch h htimely
    exact ih (watch.next act) (h.next act htimely.1) htimely.2

end Steps

theorem start_inv (files : String → Option (List UInt8)) (request : DaemonRequest)
    (hstart : optional_param_bool request "from_start" true = true) :
    Inv (Watch.start files request) :=
  ⟨start_reached, nofun, .inl nofun, hstart, rfl, rfl⟩

/-- A subscriber from the start is sent the whole log before the end, if no step leaves bytes of the
file behind. -/
theorem a_subscriber_sees_the_whole_log (files : String → Option (List UInt8))
    (request : DaemonRequest) (acts : List Act)
    (hstart : optional_param_bool request "from_start" true = true)
    (htimely : Timely (Watch.start files request) acts)
    (hended : ((Watch.start files request).run acts).world.written.any is_eof = true) :
    ((Watch.start files request).run acts).Whole := by
  obtain ⟨response, hwritten, heof⟩ := List.any_eq_true.mp hended
  rcases (Inv.run acts _ (start_inv files request hstart) htimely).ends with hnone | hwhole
  · rw [hnone response hwritten] at heof
    cases heof
  · exact hwhole

def log_request : DaemonRequest where
  v := 1
  id := 7
  params := some (.Object [("path", .Str "/p.log"), ("stream", .Str "p")])

/-- The file holds "hi" before the subscription, and gets some bytes before the close. -/
def log_acts (more : List UInt8) : List Act :=
  [.Create "/p.log", .Append "/p.log" [104, 105], .Turn 1, .Turn 1, .Turn 64, .Turn 64, .Turn 64,
    .Append "/p.log" more, .Request (.close "p"), .Turn 1]

theorem a_subscriber_sees_hi :
    ((Watch.start (fun _ => none) log_request).run (log_acts [])).Whole :=
  a_subscriber_sees_the_whole_log (fun _ => none) log_request (log_acts []) (by decide)
    (by decide) (by decide)

/-- Bytes that come between the last read and the close are not sent. -/
theorem a_close_overtakes_the_file :
    ¬ ∀ (files : String → Option (List UInt8)) (request : DaemonRequest) (acts : List Act),
      optional_param_bool request "from_start" true = true →
      ((Watch.start files request).run acts).world.written.any is_eof = true →
      ((Watch.start files request).run acts).Whole := by
  intro h
  obtain ⟨sub, due, -, hdue, hfirst, -⟩ := h (fun _ => none) log_request (log_acts [33])
    (by decide) (by decide)
  have hfound : ((Watch.start (fun _ => none) log_request).run (log_acts [33])).due =
      some [104, 105, 33] := by decide
  have hgot : ((Watch.start (fun _ => none) log_request).run (log_acts [33])).world.delivered =
      [104, 105] := by decide
  cases hfound.symm.trans hdue
  rw [hgot] at hfirst
  have hlength := hfirst.length_le
  simp at hlength

end nxr_core.daemon.log_subscribe
