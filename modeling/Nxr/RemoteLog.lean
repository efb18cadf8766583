-- What the log of a remote run says of its files, wherever it
-- stops: the last entry has the text.
import Mathlib.Data.List.Induction
import Nxr.RemoteExecute

open programs
open nxr_core.cas (Bytes)

namespace nxr_cli.remote_execute

def Touches (path : Path) : Entry → Prop
  | .Wrote p _ => p = path
  | .Torn p => p = path
  | .Removed p => p = path
  | .Renamed source target _ => source = path ∨ target = path
  | _ => False

def Sets (path : Path) (text : Bytes) : Entry → Prop
  | .Wrote p t => p = path ∧ t = text
  | .Renamed _ target t => target = path ∧ t = text
  | _ => False

def Settled (path : Path) (text : Bytes) (log : List Entry) : Prop :=
  ∃ before entry after, log = before ++ entry :: after ∧ Sets path text entry ∧
    ∀ later ∈ after, ¬ Touches path later

variable {entry : Entry} {path : Path} {text : Bytes}

theorem Sets.touches (h : Sets path text entry) : Touches path entry := by
  cases entry with
  | Wrote p t => exact h.1
  | Renamed source target t => exact .inr h.1
  | Submitted => exact h
  | Asked attempt => exact h
  | Torn p => exact h.elim
  | Removed p => exact h.elim

variable {log : List Entry}

theorem settled_snoc (h : Settled path text (log ++ [entry])) :
    Sets path text entry ∨ ¬ Touches path entry ∧ Settled path text log := by
  obtain ⟨before, set, after, hlog, hset, hafter⟩ := h
  rcases List.eq_nil_or_concat after with rfl | ⟨front, last, rfl⟩
  · have hsplit := List.append_inj' hlog rfl
    simp only [List.cons.injEq, and_true] at hsplit
    exact .inl (hsplit.2 ▸ hset)
  · rw [List.concat_eq_append] at hlog hafter
    have hsplit : log = before ++ set :: front ∧ [entry] = [last] := by
      refine List.append_inj' (hlog.trans ?_) rfl
      simp
    simp only [List.cons.injEq, and_true] at hsplit
    obtain ⟨rfl, rfl⟩ := hsplit
    refine .inr ⟨hafter entry (by simp), before, set, front, rfl, hset, ?_⟩
    exact fun later hlater => hafter later (List.mem_append_left _ hlater)

theorem settled_sets (h : Sets path text entry) : Settled path text (log ++ [entry]) :=
  ⟨log, entry, [], rfl, h, by simp⟩

theorem Settled.mem (h : Settled path text log) : ∃ entry ∈ log, Sets path text entry := by
  obtain ⟨before, entry, after, rfl, hset, -⟩ := h
  exact ⟨entry, by simp, hset⟩

def Logs : (β : Type) → SysOp β → Entry → Prop
  | _, .Write path text, entry => entry = .Wrote path text ∨ entry = .Torn path
  | _, .Rename source target, entry => ∃ text, entry = .Renamed source target text
  | _, .Remove path, entry => entry = .Removed path
  | _, .Submit, entry => entry = .Submitted
  | _, .CollectJournal attempt _, entry => entry = .Asked attempt
  | _, .Cancel attempt, entry => entry = .Asked attempt
  | _, .Fetch attempt _, entry => entry = .Asked attempt
  | _, .Announce attempt, entry => entry = .Asked attempt
  | _, _, _ => False

def Changed (β : Type) (op : SysOp β) (w w' : World) : Prop :=
  w' = w ∨ ∃ entry, Logs β op entry ∧ w'.log = w.log ++ [entry] ∧
    ∀ path, (∀ text, Sets path text entry → w'.files path = some text) ∧
      (¬ Touches path entry → w'.files path = w.files path)

theorem changed_note {β : Type} {op : SysOp β} {w : World}
    (hlogs : Logs β op entry) (hquiet : ∀ path text, ¬ Sets path text entry) :
    Changed β op w (w.note entry) :=
  .inr ⟨entry, hlogs, rfl, fun path => ⟨fun text h => absurd h (hquiet path text), fun _ => rfl⟩⟩

theorem tears_changed {w w' : World} (h : Tears path text w w') :
    Changed _ (.Write path text) w w' := by
  rcases h with rfl | ⟨count, rfl⟩
  · exact changed_note (.inr rfl) fun _ _ h => h
  · refine .inr ⟨.Torn path, .inr rfl, rfl, fun other => ⟨fun _ h => h.elim, fun htouch => ?_⟩⟩
    exact Function.update_of_ne (fun heq => htouch heq.symm) _ _

theorem moves_changed {source target : Path} {w w' : World} (h : Moves source target w w') :
    Changed _ (.Rename source target) w w' := by
  obtain ⟨text, -, rfl⟩ := h
  refine .inr ⟨.Renamed source target text, ⟨text, rfl⟩, rfl, fun other => ⟨?_, fun htouch => ?_⟩⟩
  · rintro t ⟨rfl, rfl⟩
    exact Function.update_self _ _ _
  · have hother : other ≠ source ∧ other ≠ target :=
      ⟨fun heq => htouch (.inl heq.symm), fun heq => htouch (.inr heq.symm)⟩
    change Function.update _ target _ other = _
    rw [Function.update_of_ne hother.2]
    exact Function.update_of_ne hother.1 _ _

theorem removed_changed (path : Path) (w : World) :
    Changed _ (.Remove path) w ((w.put path none).note (.Removed path)) := by
  refine .inr ⟨.Removed path, rfl, rfl, fun other => ⟨fun _ h => h.elim, fun htouch => ?_⟩⟩
  exact Function.update_of_ne (fun heq => htouch heq.symm) _ _

theorem does_changed {β : Type} {op : SysOp β} {w w' : World} {r : β} (h : Does β op w r w') :
    Changed β op w w' := by
  cases op with
  | Read path => exact .inl h.2
  | Exists path => exact .inl h.2
  | CreateDirAll path => exact .inl h
  | Write path text =>
    rcases h with ⟨-, rfl⟩ | ⟨-, htears⟩
    · refine .inr ⟨.Wrote path text, .inl rfl, rfl, fun other => ⟨?_, fun htouch => ?_⟩⟩
      · rintro t ⟨rfl, rfl⟩
        exact Function.update_self _ _ _
      · exact Function.update_of_ne (fun heq => htouch heq.symm) _ _
    · exact tears_changed htears
  | Rename source target =>
    rcases h with ⟨-, hmoves⟩ | ⟨-, rfl⟩
    · exact moves_changed hmoves
    · exact .inl rfl
  | Remove path =>
    rcases h with rfl | rfl
    · exact removed_changed path w
    · exact .inl rfl
  | Submit => exact h ▸ changed_note rfl fun _ _ h => h
  | CollectJournal attempt after => exact h ▸ changed_note rfl fun _ _ h => h
  | Cancel attempt => exact h ▸ changed_note rfl fun _ _ h => h
  | Fetch attempt name => exact h ▸ changed_note rfl fun _ _ h => h
  | Announce attempt => exact h ▸ changed_note rfl fun _ _ h => h
  | Ask question => exact .inl h

theorem cuts_changed {β : Type} {op : SysOp β} {w w' : World} (h : Cuts β op w w') :
    Changed β op w w' := by
  cases op with
  | Read path => exact .inl h
  | Exists path => exact .inl h
  | CreateDirAll path => exact .inl h
  | Write path text => exact tears_changed h
  | Rename source target =>
    rcases h with rfl | hmoves
    · exact .inl rfl
    · exact moves_changed hmoves
  | Remove path =>
    rcases h with rfl | rfl
    · exact .inl rfl
    · exact removed_changed path w
  | Submit => exact h ▸ changed_note rfl fun _ _ h => h
  | CollectJournal attempt after => exact h ▸ changed_note rfl fun _ _ h => h
  | Cancel attempt => exact h ▸ changed_note rfl fun _ _ h => h
  | Fetch attempt name => exact h ▸ changed_note rfl fun _ _ h => h
  | Announce attempt => exact h ▸ changed_note rfl fun _ _ h => h
  | Ask question => exact .inl h

theorem kept_of_changed {ops : (β : Type) → SysOp β → Prop} {inv : World → Prop}
    (h : ∀ β op, ops β op → ∀ w w', Changed β op w w' → inv w → inv w') :
    Kept Does Cuts ops inv where
  done := fun β op hop w _ w' hdoes => h β op hop w w' (does_changed hdoes)
  cut := fun β op hop w w' hcuts => h β op hop w w' (cuts_changed hcuts)

/-- What was last given to a file is in it. -/
theorem settled_kept (path : Path) (text : Bytes) : Kept Does Cuts (fun _ _ => True)
    fun w => Settled path text w.log → w.files path = some text := by
  refine kept_of_changed fun β op _ w w' hchanged hw hsettled => ?_
  rcases hchanged with rfl | ⟨entry, -, hlog, hfiles⟩
  · exact hw hsettled
  · rw [hlog] at hsettled
    rcases settled_snoc hsettled with hset | ⟨hquiet, hbefore⟩
    · exact (hfiles path).1 text hset
    · rw [(hfiles path).2 hquiet]
      exact hw hbefore

theorem settled_reads {α : Type} {x : Program α} {files : Path → Option Bytes} {w : World}
    (h : Stops Does Cuts x ⟨files, []⟩ w)
    (hsettled : Settled path text w.log) : w.files path = some text := by
  refine (settled_kept path text).stops x.uses_any h ?_ hsettled
  rintro ⟨before, entry, after, hlog, -, -⟩
  simp at hlog

/-- The operations whose entries are of a kind. -/
def Notes (ok : Entry → Prop) (β : Type) (op : SysOp β) : Prop :=
  ∀ entry, Logs β op entry → ok entry

def Longer (ok : Entry → Prop) (log longer : List Entry) : Prop :=
  ∃ more, longer = log ++ more ∧ ∀ entry ∈ more, ok entry

theorem Longer.refl {ok : Entry → Prop} (log : List Entry) : Longer ok log log :=
  ⟨[], by simp, by simp⟩

theorem Longer.trans {ok : Entry → Prop} {mid longer : List Entry} (h : Longer ok log mid)
    (hmid : Longer ok mid longer) : Longer ok log longer := by
  obtain ⟨more, rfl, hmore⟩ := h
  obtain ⟨rest, rfl, hrest⟩ := hmid
  refine ⟨more ++ rest, by rw [List.append_assoc], fun entry hentry => ?_⟩
  exact (List.mem_append.mp hentry).elim (hmore entry) (hrest entry)

theorem Longer.mono {ok ok' : Entry → Prop} {longer : List Entry} (h : Longer ok log longer)
    (himp : ∀ entry, ok entry → ok' entry) : Longer ok' log longer := by
  obtain ⟨more, rfl, hmore⟩ := h
  exact ⟨more, rfl, fun entry hentry => himp entry (hmore entry hentry)⟩

theorem longer_kept (ok : Entry → Prop) (log : List Entry) :
    Kept Does Cuts (Notes ok) fun w => Longer ok log w.log := by
  refine kept_of_changed fun β op hop w w' hchanged hw => ?_
  rcases hchanged with rfl | ⟨entry, hlogs, hlog, -⟩
  · exact hw
  · rw [hlog]
    refine hw.trans ⟨[entry], rfl, fun other hother => ?_⟩
    rw [List.mem_singleton.mp hother]
    exact hop entry hlogs

theorem file_kept (path : Path) (content : Option Bytes) :
    Kept Does Cuts (Notes fun entry => ¬ Touches path entry) fun w => w.files path = content := by
  refine kept_of_changed fun β op hop w w' hchanged hw => ?_
  rcases hchanged with rfl | ⟨entry, hlogs, -, hfiles⟩
  · exact hw
  · rw [(hfiles path).2 (hop entry hlogs)]
    exact hw

end nxr_cli.remote_execute
