-- What a remote run does with an attempt: every receipt and
-- every pointer names it.
import Nxr.RemoteLog
import Nxr.RunRecordLaws

open programs serde_json
open nxr_cli.remote (Codec)
open nxr_core.cas (Bytes)
open nxr_task (artifact.as_bytes artifact.as_bytes_inj)

namespace nxr_cli.remote_execute

/-! ## Receipts that name an attempt -/

def Names (attempt : String) (receipt : Receipt) : Prop :=
  receipt.lookup "attempt_id" = some (.Str attempt)

section Names

variable {attempt : String} {receipt : Receipt}

theorem Names.attempt_id (h : Names attempt receipt) : attempt_id (.Object receipt) = attempt := by
  change ((receipt.lookup "attempt_id").bind Value.as_str).getD "" = attempt
  rw [h]
  rfl

variable {key : String}

theorem Names.insert (h : Names attempt receipt) (hkey : key ≠ "attempt_id")
    (value : Value) : Names attempt (map_insert key value receipt) := by
  unfold Names
  rw [lookup_map_insert, if_neg (Ne.symm hkey)]
  exact h

theorem Names.or_insert (h : Names attempt receipt) (hkey : key ≠ "attempt_id")
    (value : Option Value) : Names attempt (or_insert key value receipt) := by
  unfold remote_execute.or_insert
  split
  · exact h.insert hkey _
  · exact h

theorem Names.update_timings (h : Names attempt receipt) (update : Receipt → Receipt) :
    Names attempt (update_timings update receipt) := by
  have htimings := h.or_insert (show "timings" ≠ "attempt_id" by decide) (some (.Object []))
  unfold remote_execute.update_timings
  dsimp only
  split
  · exact htimings.insert (by decide) _
  · exact htimings

theorem Names.absorb_marks (h : Names attempt receipt) (events : List Value) :
    Names attempt (absorb_marks receipt events) := by
  unfold remote_execute.absorb_marks
  refine Names.or_insert ?_ (by decide) _
  refine Names.or_insert ?_ (by decide) _
  refine Names.or_insert ?_ (by decide) _
  exact h.update_timings _

theorem Names.with_outputs (h : Names attempt receipt) (outputs : Outputs) :
    Names attempt (with_outputs outputs receipt) := by
  have hhashes := h.insert (show "output_hashes" ≠ "attempt_id" by decide)
    (.Object outputs.published)
  unfold remote_execute.with_outputs
  dsimp only
  refine Names.insert (Names.insert ?_ (by decide) _) (by decide) _
  split
  · exact hhashes.insert (by decide) _
  · exact hhashes

theorem Names.without (h : Names attempt receipt) (hkey : key ≠ "attempt_id") :
    Names attempt (receipt.filter fun entry => entry.1 ≠ key) := by
  unfold Names at h ⊢
  induction receipt with
  | nil => exact h
  | cons entry rest ih =>
    obtain ⟨k, value⟩ := entry
    rw [lookup_entry] at h
    rw [List.filter_cons]
    by_cases hid : "attempt_id" = k
    · subst hid
      rw [if_pos rfl] at h
      rw [if_pos (by simpa using Ne.symm hkey), lookup_entry, if_pos rfl]
      exact h
    · rw [if_neg hid] at h
      split
      · rw [lookup_entry, if_neg hid]
        exact ih h
      · exact ih h

theorem Names.with_decision (h : Names attempt receipt) (decision : Option Value) :
    Names attempt (with_decision decision receipt) := by
  cases decision with
  | none => exact h
  | some decision =>
    unfold remote_execute.with_decision
    dsimp only
    refine Names.insert ?_ (by decide) _
    have hbasis : Names attempt (map_insert "savings_basis"
        (decision_or decision "savingsBasis" "unavailable")
        (map_insert "transfer" (decision_or decision "transfer" "")
          (map_insert "digest" (decision_or decision "digest" "")
            (map_insert "decision" (decision_or decision "decision" "") receipt)))) := by
      refine Names.insert ?_ (by decide) _
      refine Names.insert ?_ (by decide) _
      refine Names.insert ?_ (by decide) _
      exact h.insert (by decide) _
    split
    · exact hbasis.insert (by decide) _
    · exact hbasis.without (by decide)

theorem Names.with_counts (h : Names attempt receipt) (outputs : Outputs) (events : List Value) :
    Names attempt (with_counts outputs events receipt) := by
  unfold remote_execute.with_counts
  dsimp only
  split
  · exact (h.update_timings _).insert (by decide) _
  · exact h.update_timings _

theorem names_taken (attempt : String) (receipt : Receipt) :
    Names attempt (taken attempt receipt) := by
  unfold taken
  refine Names.insert ?_ (by decide) _
  unfold Names
  rw [lookup_map_insert, if_pos rfl]

end Names

/-! ## What a program does with an attempt -/

/-- A file of the run record, or the one that `NIXPLANE_RESULT` names. -/
def Other (env : Env) (path : Path) : Prop :=
  (∃ run_id name, env.run_id = some run_id ∧ path = run_dir env.receipt_root run_id ++ [name]) ∨
    env.result = some path

/-- What was done to such files alone. -/
def Aside (env : Env) (entry : Entry) : Prop :=
  (∃ path, Touches path entry) ∧ ∀ path, Touches path entry → Other env path

/-- Entries of a kind: all that a run leaves of an attempt once its pointers name it. -/
structure Harmless (ok : Entry → Prop) (codec : Codec) (env : Env) (pointers : List Path)
    (attempt : String) : Prop where
  asked : ok (.Asked attempt)
  wrote : ∀ receipt, attempt_id receipt = attempt →
    ok (.Wrote (receipt_path env attempt) (codec.pretty receipt))
  torn : ok (.Torn (receipt_path env attempt))
  aside : ∀ entry, Aside env entry → ok entry
  cleared : ∀ path ∈ pointers, ok (.Removed path)

section Uses

variable {ok : Entry → Prop} {codec : Codec} {env : Env} {job : Job} {attempt : String}

theorem uses_ask {α : Type} {question : Question} {f : question.Answer → Program α}
    (hf : ∀ answer, (f answer).Uses (Notes ok)) : ((ask question).bind f).Uses (Notes ok) :=
  ⟨fun _ h => h.elim, hf⟩

theorem uses_perform {α β : Type} {op : SysOp β} {f : β → Program α} (hop : Notes ok β op)
    (hf : ∀ answer, (f answer).Uses (Notes ok)) : ((Prog.perform op).bind f).Uses (Notes ok) :=
  ⟨hop, hf⟩

theorem uses_attempt_op {β : Type} {op : SysOp (Except String β)} (hop : Notes ok _ op) :
    (attempt_op op).Uses (Notes ok) :=
  uses_perform hop fun answer => Prog.uses_lift answer

theorem notes_write {path : Path} {text : Bytes} (hwrote : ok (.Wrote path text))
    (htorn : ok (.Torn path)) : Notes ok _ (.Write path text) := by
  rintro entry (rfl | rfl)
  · exact hwrote
  · exact htorn

theorem notes_none {β : Type} {op : SysOp β} (h : ∀ entry, ¬ Logs β op entry) : Notes ok β op :=
  fun entry hlogs => absurd hlogs (h entry)

theorem uses_mkdir (path : Path) : (attempt_op (.CreateDirAll path)).Uses (Notes ok) :=
  uses_attempt_op (notes_none fun _ h => h)

theorem artifact_key (key : String) : "artifact_" ++ key ≠ "attempt_id" := by
  intro h
  have hchars := congrArg String.toList h
  rw [String.toList_append] at hchars
  have hsecond := congrArg (fun chars => chars[1]?) hchars
  simp at hsecond

theorem attach_yields (receipt : Value) : (attach_artifact_decision receipt).Yields
    fun after => attempt_id after = attempt_id receipt := by
  unfold attach_artifact_decision
  split
  · next entries hget =>
    clear hget
    intro decision
    cases decision with
    | none => exact rfl
    | some decision =>
      change (((decision_keys.foldl _ entries).lookup "attempt_id").bind Value.as_str).getD "" =
        ((entries.lookup "attempt_id").bind Value.as_str).getD ""
      generalize decision_keys = keys
      congr 2
      induction keys generalizing entries with
      | nil => rfl
      | cons key keys ih =>
        rw [List.foldl_cons, ih]
        split
        · rw [lookup_map_insert]
          exact if_neg (Ne.symm (artifact_key key))
        · rfl
  · exact rfl

theorem attach_uses (receipt : Value) : (attach_artifact_decision receipt).Uses (Notes ok) := by
  unfold attach_artifact_decision
  split
  · exact uses_ask fun _ => trivial
  · exact trivial

theorem aside_of {entry : Entry} {path : Path} (htouch : Touches path entry)
    (hall : ∀ other, Touches other entry → other = path) (hother : Other env path) :
    Aside env entry :=
  ⟨⟨path, htouch⟩, fun other h => hall other h ▸ hother⟩

section Aside

variable (haside : ∀ entry, Aside env entry → ok entry)

include haside

theorem write_aside {path : Path} (hother : Other env path) (text : Bytes) :
    Notes ok _ (.Write path text) :=
  notes_write (haside _ (aside_of rfl (fun _ h => h.symm) hother))
    (haside _ (aside_of rfl (fun _ h => h.symm) hother))

theorem stage_uses {run_id : String} (hrun : env.run_id = some run_id) (text : Bytes) :
    (stage_run_record (record_path env.receipt_root run_id) text).Uses (Notes ok) := by
  have hdir : (record_path env.receipt_root run_id).dropLast = run_dir env.receipt_root run_id := by
    unfold record_path
    rw [List.dropLast_concat]
  have hother : ∀ name, Other env (run_dir env.receipt_root run_id ++ [name]) :=
    fun name => .inl ⟨run_id, name, hrun, rfl⟩
  unfold stage_run_record
  rw [hdir]
  refine uses_ask fun stamp => uses_perform (write_aside haside (hother _) _) fun written => ?_
  have hremove : Notes ok _ (.Remove (run_dir env.receipt_root run_id ++
      [s!".run.json.{stamp}.tmp"])) := by
    rintro entry rfl
    exact haside _ (aside_of rfl (fun _ h => h.symm) (hother _))
  cases written with
  | error error => exact uses_perform hremove fun _ => trivial
  | ok done =>
    refine uses_perform ?_ fun renamed => uses_perform hremove fun _ => Prog.uses_lift renamed
    rintro entry ⟨moved, rfl⟩
    refine haside _ ⟨⟨_, .inl rfl⟩, ?_⟩
    rintro path (rfl | rfl)
    · exact hother _
    · exact hother _

theorem update_uses (task : String) (receipt : Value) :
    (update_run_record codec env task receipt).Uses (Notes ok) := by
  unfold update_run_record
  dsimp only
  split
  · exact trivial
  · next hne =>
    obtain ⟨run_id, hrun⟩ : ∃ run_id, env.run_id = some run_id := by
      cases h : env.run_id with
      | none => exact absurd (by rw [h]; rfl) hne
      | some run_id => exact ⟨run_id, rfl⟩
    rw [hrun, Option.getD_some]
    refine (uses_mkdir _).bind fun _ => ?_
    refine uses_ask fun locked => (Prog.uses_lift locked).bind fun _ => ?_
    refine uses_perform (notes_none fun _ h => h) fun text => ?_
    split
    · exact trivial
    · exact stage_uses haside hrun _

theorem write_uses {receipt : Value} (hwrote : ∀ after, attempt_id after = attempt_id receipt →
      ok (.Wrote (receipt_path env (receipt_name receipt)) (codec.pretty after)))
    (htorn : ok (.Torn (receipt_path env (receipt_name receipt)))) :
    (write_receipt codec env receipt).Uses (Notes ok) := by
  refine Prog.Uses.bind_yields (attach_uses receipt) (attach_yields receipt) fun after hafter => ?_
  have hname : receipt_name after = receipt_name receipt := by
    unfold receipt_name
    rw [hafter]
  refine (uses_mkdir _).bind fun _ => ?_
  rw [hname]
  refine (uses_attempt_op (notes_write (hwrote after hafter) htorn)).bind fun _ => ?_
  refine Prog.Uses.bind ?_ fun _ => ?_
  · unfold record_receipt
    split
    · exact update_uses haside _ _
    · exact trivial
  · unfold tell_result
    split
    · next path hpath => exact uses_perform (write_aside haside (.inr hpath) _) fun _ => trivial
    · exact trivial

end Aside

variable {pointers : List Path} (hok : Harmless ok codec env pointers attempt)

include hok

theorem clear_uses (attempt : String) : (clear_attempts pointers attempt).Uses (Notes ok) := by
  have hcleared := hok.cleared
  clear hok
  unfold clear_attempts
  induction pointers with
  | nil => exact trivial
  | cons path rest ih =>
    refine Prog.Uses.bind ?_ fun _ => ih fun other hother => hcleared other (.tail _ hother)
    refine uses_perform (notes_none fun _ h => h) fun text => ?_
    split
    · refine uses_perform ?_ fun _ => trivial
      rintro entry rfl
      exact hcleared path (.head _)
    · exact trivial

theorem fetch_uses (outputs : Outputs) (names : List String) :
    (fetch_outputs attempt outputs names).Uses (Notes ok) := by
  induction names generalizing outputs with
  | nil => exact trivial
  | cons name rest ih =>
    refine uses_perform ?_ fun answer => ih _
    rintro entry rfl
    exact hok.asked

end Uses

section Follow

variable {ok : Entry → Prop} {codec : Codec} {env : Env} {job : Job} {attempt : String}
  (hok : Harmless ok codec env job.pointers attempt) (hne : attempt ≠ "")

include hok hne

variable {receipt : Receipt}

theorem receipt_uses (hnames : Names attempt receipt) :
    (write_receipt codec env (.Object receipt)).Uses (Notes ok) := by
  have hid := hnames.attempt_id
  have hname : receipt_name (.Object receipt) = attempt := by
    unfold receipt_name
    rw [hid, if_neg hne]
  apply write_uses hok.aside
  · intro after hafter
    rw [hname]
    exact hok.wrote after (hafter.trans hid)
  · rw [hname]
    exact hok.torn

theorem collect_outputs_uses (hnames : Names attempt receipt) (events : List Value) (code : Int) :
    (collect_outputs codec env job attempt events code receipt).Uses (Notes ok) := by
  refine (uses_mkdir _).bind fun _ => (fetch_uses hok _ _).bind fun outputs => ?_
  refine uses_ask fun _ => uses_ask fun decision => Prog.Uses.bind ?_ fun mismatches => ?_
  · unfold verify_outputs
    split
    · exact trivial
    · exact uses_ask fun answer => (Prog.uses_lift answer).bind fun _ => trivial
  · have hreceipt := (((hnames.with_outputs outputs).with_decision decision).with_counts outputs
      events).insert (show "hash_ok" ≠ "attempt_id" by decide) (.Bool mismatches.isEmpty)
    exact (receipt_uses hok hne hreceipt).bind fun _ => (clear_uses hok _).bind fun _ => trivial

theorem finish_uses (hnames : Names attempt receipt) (cursor : UInt64)
    (events : List Value) (finished : Value) :
    (finish codec env job attempt cursor events finished receipt).Uses (Notes ok) := by
  unfold finish
  dsimp only
  have hreceipt : ∀ kind code cursor, Names attempt (map_insert "journal_cursor" cursor
      (map_insert "exit_code" code (map_insert "terminal" kind receipt))) := by
    intro kind code cursor
    refine Names.insert ?_ (by decide) _
    refine Names.insert ?_ (by decide) _
    exact hnames.insert (by decide) _
  refine (receipt_uses hok hne (hreceipt _ _ _)).bind fun _ => ?_
  split
  · refine (receipt_uses hok hne (hreceipt _ _ _)).bind fun _ => ?_
    exact (clear_uses hok _).bind fun _ => trivial
  · exact collect_outputs_uses hok hne (hreceipt _ _ _) _ _

theorem give_up_uses (hnames : Names attempt receipt) (cursor : UInt64) :
    (give_up codec env job attempt cursor receipt).Uses (Notes ok) := by
  have hreceipt : Names attempt (map_insert "cancelled" (.Bool true) (map_insert "journal_cursor"
      (count cursor) (map_insert "error" (.Str "timed out waiting for a terminal result")
        receipt))) := by
    refine Names.insert ?_ (by decide) _
    refine Names.insert ?_ (by decide) _
    exact hnames.insert (by decide) _
  refine uses_perform ?_ fun _ => (receipt_uses hok hne hreceipt).bind fun _ => ?_
  · rintro entry rfl
    exact hok.asked
  · exact (clear_uses hok _).bind fun _ => trivial

theorem poll_uses (hnames : Names attempt receipt) (rounds : Nat)
    (cursor : UInt64) (events : List Value) :
    (poll codec env job attempt rounds cursor events receipt).Uses (Notes ok) := by
  induction rounds generalizing cursor events receipt with
  | zero => exact trivial
  | succ rounds ih =>
    unfold poll
    refine uses_ask fun late => ?_
    split
    · exact give_up_uses hok hne hnames cursor
    · refine uses_perform ?_ fun answer => ?_
      · rintro entry rfl
        exact hok.asked
      · cases answer with
        | error error =>
          have hreceipt : Names attempt (map_insert "error" (.Str error)
              (map_insert "journal_cursor" (count cursor) receipt)) := by
            refine Names.insert ?_ (by decide) _
            exact hnames.insert (by decide) _
          exact (receipt_uses hok hne hreceipt).bind fun _ => trivial
        | ok page =>
          dsimp only
          split
          · exact finish_uses hok hne (hnames.absorb_marks _) _ _ _
          · exact ih (hnames.absorb_marks _) _ _

theorem follow_uses (hnames : Names attempt receipt) (rounds : Nat) :
    (follow codec env job attempt rounds receipt).Uses (Notes ok) := by
  unfold follow
  dsimp only
  split
  · exact finish_uses hok hne hnames _ _ _
  · exact poll_uses hok hne hnames _ _ _

end Follow

/-! ## Pointers -/

section Pointers

theorem pointer_text_inj {a b : String} (h : pointer_text a = pointer_text b) : a = b := by
  have htext := congrArg String.toList (artifact.as_bytes_inj h)
  rw [String.toList_append, String.toList_append] at htext
  exact String.toList_inj.mp (List.append_cancel_right htext)

def Pointing (path : Path) (attempt : String) (entry : Entry) : Prop :=
  entry = .Wrote (with_extension path "tmp") (pointer_text attempt) ∨
    entry = .Torn (with_extension path "tmp") ∨
      entry = .Renamed (with_extension path "tmp") path (pointer_text attempt)

theorem returns_attempt_op {β : Type} {op : SysOp (Except String β)} {w w' : World} {value : β}
    (h : Returns Does (attempt_op op) w (.ok value) w') : Does _ op w (.ok value) w' := by
  cases h with
  | @call _ _ _ _ t _ r _ hdoes hrest =>
    cases r with
    | error error => cases hrest
    | ok answer =>
      cases hrest
      exact hdoes

/-- The file is renamed with what was written to it just before. -/
theorem remember_logs {path : Path} {attempt : String} {w w' : World}
    (h : Stops Does Cuts (remember_pointer path attempt) w w') :
    Longer (Pointing path attempt) w.log w'.log := by
  unfold remember_pointer at h
  simp only [Prog.bind_def] at h
  rcases h.bind_cases with hmade | ⟨_, t, hmade, hwrite⟩
  · exact (longer_kept _ _).stops (uses_mkdir _) hmade (.refl _)
  obtain rfl : t = w := returns_attempt_op hmade
  rcases hwrite.bind_cases with hwrite | ⟨_, t', hwrote, hrename⟩
  · refine (longer_kept _ _).stops (uses_attempt_op ?_) hwrite (.refl _)
    exact notes_write (.inl rfl) (.inr (.inl rfl))
  have hwritten : t' = (t.put (with_extension path "tmp") (some (pointer_text attempt))).note
      (.Wrote (with_extension path "tmp") (pointer_text attempt)) := by
    rcases returns_attempt_op hwrote with ⟨-, heq⟩ | ⟨⟨error, herror⟩, -⟩
    · exact heq
    · cases herror
  have hbefore : Longer (Pointing path attempt) t.log t'.log := by
    rw [hwritten]
    exact ⟨[_], rfl, fun entry hentry => .inl (List.mem_singleton.mp hentry)⟩
  have hmoves : ∀ w', Moves (with_extension path "tmp") path t' w' →
      Longer (Pointing path attempt) t.log w'.log := by
    rintro w' ⟨text, hfile, rfl⟩
    refine hbefore.trans ⟨[_], rfl, fun entry hentry => ?_⟩
    have hput : t'.files (with_extension path "tmp") = some (pointer_text attempt) := by
      rw [hwritten]
      exact Function.update_self _ _ _
    rw [hput, Option.some.injEq] at hfile
    rw [List.mem_singleton.mp hentry, ← hfile]
    exact .inr (.inr rfl)
  rcases hrename.call_cases with rfl | hcut | ⟨r, u, hdoes, hrest⟩
  · exact hbefore
  · rcases hcut with rfl | hcut
    · exact hbefore
    · exact hmoves _ hcut
  · have hlog : Longer (Pointing path attempt) t.log u.log := by
      rcases hdoes with ⟨-, hmove⟩ | ⟨-, rfl⟩
      · exact hmoves _ hmove
      · exact hbefore
    refine hlog.trans ?_
    exact (longer_kept _ _).stops (Prog.uses_lift r) hrest (.refl _)

theorem remember_all_logs {paths : List Path} {attempt : String} {w w' : World}
    (h : Stops Does Cuts (remember_attempts paths attempt) w w') :
    Longer (fun entry => ∃ path ∈ paths, Pointing path attempt entry) w.log w'.log := by
  unfold remember_attempts at h
  induction paths generalizing w with
  | nil =>
    cases h
    exact .refl _
  | cons path rest ih =>
    rcases h.bind_cases with hfirst | ⟨_, t, hfirst, hrest⟩
    · exact (remember_logs hfirst).mono fun entry hentry => ⟨path, .head _, hentry⟩
    · have hpath : Longer (fun entry => ∃ other ∈ path :: rest, Pointing other attempt entry)
          w.log t.log :=
        (remember_logs (Returns.stops hfirst)).mono fun entry hentry => ⟨path, .head _, hentry⟩
      refine hpath.trans ((ih hrest).mono ?_)
      rintro entry ⟨other, hother, hentry⟩
      exact ⟨other, .tail _ hother, hentry⟩

theorem leaf_attempt_path_eq_iff {root : Path} {run_id task other_run other_task : String} :
    leaf_attempt_path root run_id task = leaf_attempt_path root other_run other_task ↔
      file_token run_id = file_token other_run ∧ file_token task = file_token other_task := by
  unfold leaf_attempt_path leaf_dir run_dir
  simp only [List.append_assoc, List.append_cancel_left_eq]
  simp

end Pointers

end nxr_cli.remote_execute
