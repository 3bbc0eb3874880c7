/-
  ResearchSSH.App.ControllerTraffic — what a controller sends its session, and what it keeps of it.

  A request is put in the table of waiting requests after it was given its id, by the same function
  that has sent it, so whatever is new in a table was sent, and a result of it would be understood.
  Of what is sent, only what a user asked for changes anything on the remote.

  The ids of the requests are those of the session's counter, one after another, for as long as the
  session takes requests; a counter that goes on behind the stop of its driver numbers nothing.

  Main results:
    * `Traffic.Asks`                  — new entries were sent, and how the remote may change by it.
    * `Traffic.Numbered`              — the requests of a session have its first ids.
    * `UiAction.traffic_run`                   — one user action.
    * `traffic_ingestRustEvent`, `traffic_ingestFileResult`, `traffic_ingestExecResult` — what comes in asks
      for no change of the remote.
-/

import ResearchSSH.App.ServerActions
import ResearchSSH.Core.FileService

namespace ResearchSSH.App

open ResearchSSH.Core

/-! ## §1. Traffic. -/

/-- The operation, if it can change something. -/
def mutation (op : FsOp) : Option FsOp := if op.writes = [] then none else some op

/-- What the commands can change on the remote, in order. -/
def mutations (commands : List Command) : List FsOp :=
  (commands.filterMap Command.fsOp).filterMap mutation

/-- The ids of the requests among the commands, in order. -/
def requestIds (commands : List Command) : List UInt64 := commands.filterMap Command.requestId

/-- The first ids that a session gives out. -/
def firstIds (n : Nat) : List UInt64 := (List.range n).map fun k => UInt64.ofNat (k + 1)

/-- The last id that was given out, as long as requests are taken. -/
def Session.counter (s : Session) : Option UInt64 :=
  if s.stopped then none else some s.nextRequestId

/-- The session there is, by its handle and what it was sent, and the two tables. -/
structure Traffic where
  link : Option (Nat × List Command)
  counter : Option UInt64
  fsPending : UInt64 → Option PendingFs
  execPending : UInt64 → Option PendingExec

/-- The session with its requests, and what waits for their results. -/
def AppController.traffic (c : AppController) : Traffic :=
  { link := c.session.map fun s => (s.handle, s.sent), counter := c.session.bind Session.counter
    fsPending := c.fsPending, execPending := c.execPending }

/-- The result of the operation is one that the entry knows what to do with. -/
def PendingFs.Fits (entry : PendingFs) (op : FsOp) : Prop :=
  match entry.kind, op with
  | .listing, .list path => path = toCore entry.path
  | .editorOpen, .read path _ => path = toCore entry.path
  | .editorSave, .write path _ => path = toCore entry.path
  | .mutate, op => op.writes ≠ []
  | _, _ => False

/-- The file requests that a batch answers. -/
def Batch.fileIds : Batch → List UInt64
  | .files batch => batch.map FsResult.requestId
  | _ => []

/-- The commands that a batch answers. -/
def Batch.taskIds : Batch → List UInt64
  | .execs batch => batch.map ExecResult.requestId
  | _ => []

namespace Traffic

variable {a b c : Traffic} {new new' : List Command} {ops ops' : List FsOp}

/-- Without the entries that the batch answers. -/
def answered (a : Traffic) (batch : Batch) : Traffic :=
  { a with fsPending := fun id => if id ∈ batch.fileIds then none else a.fsPending id
           execPending := fun id => if id ∈ batch.taskIds then none else a.execPending id }

/-- The session there is, and the ids of the requests it was sent. -/
def asked (a : Traffic) : Option (Nat × List UInt64) := a.link.map fun l => (l.1, requestIds l.2)

/-- The requests of the session have its first ids, and the counter stands at the last of them. -/
def Numbered (a : Traffic) : Prop :=
  ∀ handle ids, a.asked = some (handle, ids) →
    ids = firstIds ids.length ∧ ∀ last, a.counter = some last → last = UInt64.ofNat ids.length

/-- From `a` to `b` the session was sent `new`, every new entry of a table is for some of it, and
the requests in it were given the next ids. -/
structure Sends (new : List Command) (a b : Traffic) : Prop where
  link : b.link = a.link.map fun l => (l.1, l.2 ++ new)
  idle : a.link = none → new = []
  numbered : a.Numbered → b.Numbered
  files : ∀ id entry, b.fsPending id = some entry →
    a.fsPending id = some entry ∨ ∃ op, .fs id op ∈ new ∧ entry.Fits op
  tasks : ∀ id entry, b.execPending id = some entry →
    a.execPending id = some entry ∨ ∃ command timeoutMs, .exec id command timeoutMs ∈ new

/-- From `a` to `b` something was sent that can change the remote by `ops` at most. -/
def Asks (ops : List FsOp) (a b : Traffic) : Prop :=
  ∃ new, Sends new a b ∧ (mutations new).Sublist ops

/-- Nothing waits without a session. -/
def Settled (a : Traffic) : Prop :=
  a.link = none → (∀ id, a.fsPending id = none) ∧ ∀ id, a.execPending id = none

/-- What comes of a user action that may create the session `handle`: the session is sent something,
or there is another one that was asked for nothing, or none, and nothing waits. -/
inductive Outcome (handle : Nat) (ops : List FsOp) (a b : Traffic) : Prop
  | asks : Asks ops a b → Outcome handle ops a b
  | renewed : (∀ id, b.fsPending id = none) → (∀ id, b.execPending id = none) →
      (∀ l, b.link = some l → l.1 = handle ∧ requestIds l.2 = []) → b.Numbered →
      Outcome handle ops a b

/-- The ids of what is sent later come later. -/
theorem requestIds_append (cmds cmds' : List Command) :
    requestIds (cmds ++ cmds') = requestIds cmds ++ requestIds cmds' := List.filterMap_append

/-- A command that is no request adds no id. -/
theorem requestIds_other {cmd : Command} (h : cmd.requestId = none) (cmds : List Command) :
    requestIds (cmds ++ [cmd]) = requestIds cmds := by
  rw [requestIds_append]
  show _ ++ [cmd].filterMap Command.requestId = _
  rw [List.filterMap_cons_none h, List.filterMap_nil, List.append_nil]

/-- One more id. -/
theorem firstIds_succ (n : Nat) : firstIds (n + 1) = firstIds n ++ [UInt64.ofNat (n + 1)] := by
  unfold firstIds
  rw [List.range_succ, List.map_append]
  rfl

/-- What has no id is no file operation. -/
theorem fsOp_of_requestId {cmd : Command} (h : cmd.requestId = none) : cmd.fsOp = none := by
  cases cmd with
  | fs requestId op => cases h
  | _ => rfl

/-- What is no request changes nothing. -/
theorem mutations_of_requestIds {cmds : List Command} (h : requestIds cmds = []) :
    mutations cmds = [] := by
  unfold mutations
  rw [List.filterMap_eq_nil_iff.mpr fun cmd hcmd =>
    fsOp_of_requestId (List.filterMap_eq_nil_iff.mp h cmd hcmd)]
  rfl

/-- Only the session and its counter are numbered. -/
theorem Numbered.congr (h : a.Numbered) (hasked : b.asked = a.asked)
    (hcounter : b.counter = a.counter) : b.Numbered := by
  unfold Numbered
  rw [hasked, hcounter]
  exact h

/-- A session that was asked for nothing, and has given out nothing. -/
theorem Numbered.begins {handle : Nat} (hasked : a.asked = some (handle, []))
    (hcounter : a.counter = some 0) : a.Numbered := by
  intro handle' ids hids
  obtain ⟨-, rfl⟩ := Prod.mk.inj (Option.some.inj (hasked.symm.trans hids))
  refine ⟨rfl, fun last hlast => ?_⟩
  exact Option.some.inj (hlast.symm.trans hcounter)

/-- There is no session. -/
theorem Numbered.gone (h : a.link = none) : a.Numbered := by
  intro handle ids hids
  unfold asked at hids
  rw [h] at hids
  cases hids

theorem Sends.refl (a : Traffic) : Sends [] a a where
  link := by cases h : a.link <;> simp
  idle := fun _ => rfl
  numbered := id
  files := fun _ _ => .inl
  tasks := fun _ _ => .inl

/-- One more request, under the next id. -/
theorem numbered_next {handle : Nat} {sent : List Command} {cmd : Command} {last : UInt64}
    (h : requestIds sent = firstIds (requestIds sent).length ∧
      ∀ last, a.counter = some last → last = UInt64.ofNat (requestIds sent).length)
    (hlast : a.counter = some last) (hcmd : cmd.requestId = some (last + 1))
    (hlink : b.link = some (handle, sent ++ [cmd])) (hcounter : b.counter = some (last + 1)) :
    b.Numbered := by
  obtain ⟨hids, hcount⟩ := h
  have hnext : last + 1 = UInt64.ofNat ((requestIds sent).length + 1) := by
    rw [hcount last hlast, UInt64.ofNat_add]
    rfl
  have hmore : requestIds (sent ++ [cmd]) = requestIds sent ++ [last + 1] := by
    rw [requestIds_append]
    show _ ++ [cmd].filterMap Command.requestId = _
    rw [List.filterMap_cons_some hcmd, List.filterMap_nil]
  intro handle' ids hasked
  rw [asked, hlink] at hasked
  obtain ⟨-, rfl⟩ := Prod.mk.inj (Option.some.inj hasked)
  dsimp only
  rw [hmore, List.length_append, List.length_singleton, firstIds_succ, ← hnext, ← hids]
  refine ⟨rfl, fun last' hlast' => ?_⟩
  exact Option.some.inj (hlast'.symm.trans hcounter)

/-- One after the other. -/
theorem Sends.trans (h : Sends new a b) (h' : Sends new' b c) : Sends (new ++ new') a c where
  link := by
    rw [h'.link, h.link, Option.map_map]
    congr 1
    funext l
    simp only [Function.comp_apply, List.append_assoc]
  idle := by
    intro hidle
    have hb : b.link = none := by rw [h.link, hidle]; rfl
    rw [h.idle hidle, h'.idle hb, List.append_nil]
  numbered := fun hnumbered => h'.numbered (h.numbered hnumbered)
  files := by
    intro id entry hc
    obtain hb | ⟨op, hop, hfits⟩ := h'.files id entry hc
    · refine (h.files id entry hb).imp_right ?_
      rintro ⟨op, hop, hfits⟩
      exact ⟨op, List.mem_append_left _ hop, hfits⟩
    · exact .inr ⟨op, List.mem_append_right _ hop, hfits⟩
  tasks := by
    intro id entry hc
    obtain hb | ⟨command, timeoutMs, hmem⟩ := h'.tasks id entry hc
    · refine (h.tasks id entry hb).imp_right ?_
      rintro ⟨command, timeoutMs, hmem⟩
      exact ⟨command, timeoutMs, List.mem_append_left _ hmem⟩
    · exact .inr ⟨command, timeoutMs, List.mem_append_right _ hmem⟩

/-- The changes of what is sent later come later. -/
theorem mutations_append (cmds cmds' : List Command) :
    mutations (cmds ++ cmds') = mutations cmds ++ mutations cmds' := by
  unfold mutations
  rw [List.filterMap_append, List.filterMap_append]

theorem Asks.refl (a : Traffic) : Asks [] a a := ⟨[], .refl a, List.Sublist.refl []⟩

theorem Asks.of_eq (h : b = a) : Asks [] a b := h ▸ .refl a

/-- One after the other. -/
theorem Asks.trans (h : Asks ops a b) (h' : Asks ops' b c) : Asks (ops ++ ops') a c := by
  obtain ⟨new, hsends, hops⟩ := h
  obtain ⟨new', hsends', hops'⟩ := h'
  refine ⟨new ++ new', hsends.trans hsends', ?_⟩
  rw [mutations_append]
  exact hops.append hops'

/-- The list of changes may be longer. -/
theorem Asks.mono (h : Asks ops a b) (hops : ops.Sublist ops') : Asks ops' a b := by
  obtain ⟨new, hsends, hsub⟩ := h
  exact ⟨new, hsends, hsub.trans hops⟩

/-- What changes nothing fits every list of changes. -/
theorem Asks.quiet (h : Asks [] a b) (ops : List FsOp) : Asks ops a b :=
  h.mono (List.nil_sublist ops)

/-- Entries are only taken away. -/
theorem Asks.of_less (hlink : b.link = a.link) (hcounter : b.counter = a.counter)
    (hfiles : ∀ id entry, b.fsPending id = some entry → a.fsPending id = some entry)
    (htasks : ∀ id entry, b.execPending id = some entry → a.execPending id = some entry) :
    Asks [] a b := by
  refine ⟨[], ⟨?_, fun _ => rfl, fun h => h.congr ?_ hcounter,
    fun id entry h => .inl (hfiles id entry h), fun id entry h => .inl (htasks id entry h)⟩,
    List.Sublist.refl []⟩
  · rw [hlink]
    cases a.link <;> simp
  · unfold asked
    rw [hlink]

/-- An entry for what was just sent. -/
theorem Asks.put {id : UInt64} {op : FsOp} {entry : PendingFs}
    (h : Sends [.fs id op] a b) (hfits : entry.Fits op) :
    Asks (mutation op).toList a
      { b with fsPending := Function.update b.fsPending id (some entry) } := by
  refine ⟨[.fs id op], ⟨h.link, h.idle, h.numbered, ?_, h.tasks⟩, ?_⟩
  · intro other entry' hentry
    by_cases hsame : other = id
    · subst hsame
      change Function.update b.fsPending other (some entry) other = _ at hentry
      rw [Function.update_self, Option.some.injEq] at hentry
      exact .inr ⟨op, List.mem_cons_self, hentry ▸ hfits⟩
    · change Function.update b.fsPending id (some entry) other = _ at hentry
      rw [Function.update_of_ne hsame] at hentry
      exact h.files other entry' hentry
  · unfold mutations
    cases hop : mutation op <;> simp [Command.fsOp, hop]

/-- Entries that are answered are gone from both. -/
theorem Asks.answered (h : Asks ops a b) (batch : Batch) :
    Asks ops (a.answered batch) (b.answered batch) := by
  obtain ⟨new, hsends, hops⟩ := h
  refine ⟨new, ⟨hsends.link, hsends.idle, hsends.numbered, ?_, ?_⟩, hops⟩
  · intro id entry hentry
    obtain ⟨hmem, hb⟩ := Option.ite_none_left_eq_some.mp hentry
    refine (hsends.files id entry hb).imp_left fun ha => ?_
    exact (if_neg hmem).trans ha
  · intro id entry hentry
    obtain ⟨hmem, hb⟩ := Option.ite_none_left_eq_some.mp hentry
    refine (hsends.tasks id entry hb).imp_left fun ha => ?_
    exact (if_neg hmem).trans ha

/-- A batch only takes entries away. -/
theorem Settled.answered (h : Settled a) (batch : Batch) : Settled (a.answered batch) := by
  intro hidle
  obtain ⟨hfiles, htasks⟩ := h hidle
  refine ⟨fun id => ?_, fun id => ?_⟩
  · show (if id ∈ batch.fileIds then none else a.fsPending id) = none
    rw [hfiles id, ite_self]
  · show (if id ∈ batch.taskIds then none else a.execPending id) = none
    rw [htasks id, ite_self]

/-- Without a session no entry is made. -/
theorem Settled.asks (h : Settled a) (h' : Asks ops a b) : Settled b := by
  obtain ⟨new, hsends, -⟩ := h'
  intro hidle
  have hgone : a.link = none := by
    rw [hsends.link, Option.map_eq_none_iff] at hidle
    exact hidle
  obtain ⟨hfiles, htasks⟩ := h hgone
  have hnew := hsends.idle hgone
  constructor
  · intro id
    cases hentry : b.fsPending id with
    | none => rfl
    | some entry =>
      obtain hold | ⟨op, hop, -⟩ := hsends.files id entry hentry
      · exact absurd ((hfiles id).symm.trans hold) nofun
      · rw [hnew] at hop
        cases hop
  · intro id
    cases hentry : b.execPending id with
    | none => rfl
    | some entry =>
      obtain hold | ⟨command, timeoutMs, hmem⟩ := hsends.tasks id entry hentry
      · exact absurd ((htasks id).symm.trans hold) nofun
      · rw [hnew] at hmem
        cases hmem

/-- Also when a session begins or ends. -/
theorem Settled.outcome {handle : Nat} (h : Settled a) (h' : Outcome handle ops a b) :
    Settled b := by
  cases h' with
  | asks hasks => exact h.asks hasks
  | renewed hfiles htasks _ _ => exact fun _ => ⟨hfiles, htasks⟩

end Traffic

namespace AppController

variable (c : AppController)

open Traffic

/-! ## §2. Through the bridge. -/

/-- A request is sent under the id it is given, or not at all. -/
theorem traffic_submit (command : UInt64 → Command) (hcommand : ∀ id, (command id).requestId = some id) :
    ∃ new, Sends new c.traffic (c.submit command).2.traffic
      ∧ (new = [] ∨ ∃ id, new = [command id])
      ∧ ((c.submit command).1 ≠ 0 → new = [command (c.submit command).1]) := by
  unfold submit
  cases hsession : c.session with
  | none =>
    refine ⟨[], ?_, .inl rfl, fun h => absurd rfl h⟩
    have heq : (c.traffic.link) = none := by rw [traffic, hsession]; rfl
    exact ⟨by rw [heq]; rfl, fun _ => rfl, id, fun _ _ => .inl, fun _ _ => .inl⟩
  | some s =>
    have hlink : c.traffic.link = some (s.handle, s.sent) := by rw [traffic, hsession]; rfl
    have hcounter : c.traffic.counter = s.counter := by rw [traffic, hsession]; rfl
    have hasked : c.traffic.asked = some (s.handle, requestIds s.sent) := by
      rw [asked, hlink]
      rfl
    have hsome : ∀ new, (s.submit command).2.handle = s.handle →
        (s.submit command).2.sent = s.sent ++ new →
        (c.traffic.Numbered → Numbered (traffic { c with session := some (s.submit command).2 })) →
        Sends new c.traffic (traffic { c with session := some (s.submit command).2 }) := by
      intro new hhandle hsent hnumbered
      refine ⟨?_, fun hidle => absurd (hlink.symm.trans hidle) nofun, hnumbered, fun _ _ => .inl,
        fun _ _ => .inl⟩
      show some ((s.submit command).2.handle, (s.submit command).2.sent) = _
      rw [hhandle, hsent, hlink]
      rfl
    dsimp only
    by_cases hstopped : s.stopped = true
    · have hsubmit : s.submit command = (0, { s with nextRequestId := s.nextRequestId + 1 }) :=
        if_pos hstopped
      refine ⟨[], hsome [] ?_ ?_ ?_, .inl rfl, fun h => ?_⟩
      · rw [hsubmit]
      · rw [hsubmit, List.append_nil]
      · -- the id that was used up is not counted any more
        intro hnumbered
        rw [hsubmit]
        refine hnumbered.congr (by rw [hasked]; rfl) ?_
        rw [hcounter]
        show Session.counter _ = _
        unfold Session.counter
        rw [if_pos hstopped, if_pos hstopped]
      · exact absurd (by rw [hsubmit]) h
    · have hsubmit : s.submit command = (s.nextRequestId + 1, { s with
          nextRequestId := s.nextRequestId + 1
          sent := s.sent ++ [command (s.nextRequestId + 1)] }) := if_neg hstopped
      refine ⟨[command (s.nextRequestId + 1)], hsome _ ?_ ?_ ?_, .inr ⟨_, rfl⟩, fun _ => ?_⟩
      · rw [hsubmit]
      · rw [hsubmit]
      · intro hnumbered
        rw [hsubmit]
        exact numbered_next (hnumbered _ _ hasked) (by rw [hcounter]; exact if_neg hstopped)
          (hcommand _) rfl (if_neg hstopped)
      · rw [hsubmit]

/-- A command that is no request. -/
theorem traffic_sendCmd {command : Command} (h : command.requestId = none) :
    Asks [] c.traffic (c.sendCmd command).2.traffic := by
  unfold sendCmd
  cases hsession : c.session with
  | none => exact .refl _
  | some s =>
    have hlink : c.traffic.link = some (s.handle, s.sent) := by rw [traffic, hsession]; rfl
    have hcounter : c.traffic.counter = s.counter := by rw [traffic, hsession]; rfl
    dsimp only
    unfold Session.send
    split
    · refine .of_less ?_ ?_ (fun _ _ => id) (fun _ _ => id)
      · rw [hlink]
        rfl
      · rw [hcounter]
        rfl
    · refine ⟨[command], ⟨?_, ?_, fun hnumbered => hnumbered.congr ?_ ?_, fun _ _ => .inl,
        fun _ _ => .inl⟩, ?_⟩
      · rw [hlink]
        rfl
      · exact fun hidle => absurd (hlink.symm.trans hidle) nofun
      · have hasked : c.traffic.asked = some (s.handle, requestIds s.sent) := by
          rw [asked, hlink]
          rfl
        rw [hasked]
        show some (s.handle, requestIds (s.sent ++ [command])) = some (s.handle, requestIds s.sent)
        rw [requestIds_other h]
      · rw [hcounter]
        rfl
      · show ((([command].filterMap Command.fsOp)).filterMap mutation).Sublist []
        rw [List.filterMap_cons_none (fsOp_of_requestId h)]
        exact List.Sublist.refl []

/-- A file operation is sent once at most. -/
theorem traffic_submitFs (op : FsOp) :
    Asks (mutation op).toList c.traffic (c.submitFs op).2.traffic := by
  obtain ⟨new, hsends, hnew, -⟩ := c.traffic_submit (fun id => .fs id op) fun _ => rfl
  refine ⟨new, hsends, ?_⟩
  obtain rfl | ⟨id, rfl⟩ := hnew
  · exact List.nil_sublist _
  · show ([op].filterMap mutation).Sublist _
    cases hop : mutation op <;> simp [hop]

/-- A request that is tracked, or refused. -/
theorem traffic_track {op : FsOp} {pending : PendingFs} (h : pending.Fits op) :
    Asks (mutation op).toList c.traffic
      ((c.submitFs op).2.trackFsRequest (c.submitFs op).1 pending).traffic := by
  unfold trackFsRequest
  split
  · exact c.traffic_submitFs op
  · next hzero =>
    obtain ⟨new, hsends, -, hid⟩ := c.traffic_submit (fun id => .fs id op) fun _ => rfl
    rw [hid hzero] at hsends
    exact .put hsends h

/-- A change of the tree is sent once at most, and entered. -/
theorem traffic_request {op : FsOp} {pending : PendingFs} (h : pending.Fits op) (refused : QString) :
    Asks (mutation op).toList c.traffic (trackMutation (c.submitFs op) refused pending).traffic := by
  unfold trackMutation
  split
  · exact c.traffic_submitFs op
  · exact c.traffic_track h

/-- The request of a mutation. -/
theorem traffic_mutation {op : FsOp} {pending : PendingFs} (hop : op.writes ≠ [])
    (hkind : pending.kind = .mutate) (refused : QString) :
    Asks [op] c.traffic (trackMutation (c.submitFs op) refused pending).traffic := by
  have hfits : pending.Fits op := by
    unfold PendingFs.Fits
    rw [hkind]
    exact hop
  have h := c.traffic_request hfits refused
  rwa [mutation, if_neg hop] at h

/-- A request of the editor, which is told when it is refused. -/
theorem traffic_editorRequest {op : FsOp} {pending : PendingFs} (h : pending.Fits op)
    {submitted : UInt64 × AppController} (hsubmitted : submitted = c.submitFs op)
    (refused : EditorViewModel) (notice : QString) :
    Asks (mutation op).toList c.traffic
      (if submitted.1 = 0 then { submitted.2 with editor := refused }.appendNotice notice
        else submitted.2.trackFsRequest submitted.1 pending).traffic := by
  subst hsubmitted
  split
  · exact c.traffic_submitFs op
  · exact c.traffic_track h

/-- A command changes no file by itself. -/
theorem traffic_submitExec (command : QString) (timeoutMs : UInt64) (kind : PendingExecKind)
    (label : QString) : Asks [] c.traffic (c.submitExec command timeoutMs kind label).2.traffic := by
  have hquiet : ∀ new, (new = [] ∨ ∃ id : UInt64,
      new = [.exec id (String.ofList (toCore command)) timeoutMs]) → mutations new = [] := by
    rintro new (rfl | ⟨id, rfl⟩)
    · rfl
    · rfl
  unfold submitExec
  split
  · obtain ⟨new, hsends, hnew, hid⟩ :=
      c.traffic_submit (fun id => .exec id (String.ofList (toCore command)) timeoutMs) fun _ => rfl
    generalize c.submit (fun id => .exec id (String.ofList (toCore command)) timeoutMs)
      = submitted at hsends hid ⊢
    obtain ⟨id, c'⟩ := submitted
    dsimp only at hsends hid ⊢
    split
    · exact ⟨new, hsends, by rw [hquiet new hnew]⟩
    · next hzero =>
      refine ⟨new, ⟨hsends.link, hsends.idle, hsends.numbered, hsends.files, ?_⟩,
        by rw [hquiet new hnew]⟩
      intro other entry hentry
      change Function.update c'.execPending id _ other = _ at hentry
      by_cases hsame : other = id
      · rw [hid hzero, hsame]
        exact .inr ⟨_, _, List.mem_cons_self⟩
      · rw [Function.update_of_ne hsame] at hentry
        exact hsends.tasks other entry hentry
  · exact .refl _

/-! ## §3. Files. -/

theorem traffic_expandDir (path : QString) : Asks [] c.traffic (c.expandDir path).traffic := by
  unfold expandDir
  split
  · have hrefused : Asks [] c.traffic (c.submitFs (.list (toCore path))).2.traffic :=
      c.traffic_submitFs _
    have htaken : Asks [] c.traffic ((c.submitFs (.list (toCore path))).2.trackFsRequest
        (c.submitFs (.list (toCore path))).1 (.plain .listing path none)).traffic :=
      c.traffic_track (by rfl)
    generalize c.submitFs (.list (toCore path)) = submitted at hrefused htaken ⊢
    obtain ⟨id, c'⟩ := submitted
    dsimp only at hrefused htaken ⊢
    split
    · exact hrefused
    · exact htaken
  · exact .refl _

theorem traffic_fetchMore (id : Nat) : Asks [] c.traffic (c.fetchMore id).traffic := by
  unfold fetchMore
  split
  · next tree path _ => exact traffic_expandDir { c with fileTree := tree } path
  · exact .refl _

theorem traffic_reloadFiles : Asks [] c.traffic c.reloadFiles.traffic := by
  have hexpand : ∀ d : AppController, d.traffic = c.traffic →
      Asks [] c.traffic (d.expandDir []).traffic := by
    intro d hd
    rw [← hd]
    exact d.traffic_expandDir []
  unfold reloadFiles
  split
  · exact hexpand _ rfl
  · exact .refl _

theorem traffic_expandSome (dir : Option QString) :
    Asks [] c.traffic (c.expandSome dir).traffic := by
  unfold expandSome
  split
  · exact c.traffic_expandDir _
  · exact .refl _

theorem traffic_refreshAfter (pending : PendingFs) :
    Asks [] c.traffic (c.refreshAfter pending).traffic := by
  have hfirst := c.traffic_expandSome pending.refreshDir
  unfold refreshAfter
  dsimp only
  split
  · split
    · exact hfirst.trans (traffic_expandDir _ _)
    · exact hfirst
  · exact hfirst

theorem traffic_openPath (path : QString) : Asks [] c.traffic (c.openPath path).traffic := by
  unfold openPath
  split
  · split
    · exact .refl _
    · exact traffic_editorRequest { c with editor := c.editor.beginOpen path } (by rfl) rfl _ _
  · exact .refl _

/-- What a save asks for. -/
def saveIntent (path text : QString) : Option FsOp :=
  if path = [] then none else some (.write (toCore path) (toUtf8 text))

/-- A save sends its write and nothing else. -/
theorem traffic_saveEditorPath (path text : QString) :
    Asks (saveIntent path text).toList c.traffic (c.saveEditorPath path text).traffic := by
  unfold saveEditorPath
  split
  · unfold saveIntent
    split
    · exact .refl _
    · have hfits : (PendingFs.plain .editorSave path (parentOrNull path)).Fits
          (.write (toCore path) (toUtf8 text)) := rfl
      exact traffic_editorRequest { c with editor := (c.editor.activatePath path).beginSave } hfits
        rfl _ _
  · exact (Asks.refl _).quiet _

/-- What a paste asks for. -/
def pasteIntent (destDir : QString) : Option FsOp :=
  if c.clipboardPath = [] then none
  else
    let dest := joinRemotePath (c.targetDirForWrite destDir) (baseNameOf c.clipboardPath)
    if c.clipboardCut then some (.rename (toCore c.clipboardPath) (toCore dest))
    else some (.copy (toCore c.clipboardPath) (toCore dest))

/-- A function that makes one request if the controller is ready, and none otherwise. -/
theorem traffic_whenReady {intent : Option FsOp} {d : AppController} (notice : QString)
    (h : c.ready = true → Asks intent.toList c.traffic d.traffic) :
    Asks intent.toList c.traffic (if c.ready then d else c.appendNotice notice).traffic := by
  split
  · next hready => exact h hready
  · exact (Asks.refl _).quiet _

/-- A paste sends its copy or rename and nothing else. -/
theorem traffic_paste (destDir : QString) :
    Asks (c.pasteIntent destDir).toList c.traffic (c.paste destDir).traffic := by
  refine c.traffic_whenReady _ fun _ => ?_
  unfold pasteIntent
  by_cases hempty : c.clipboardPath = []
  · rw [if_pos hempty, if_pos hempty]
    exact .refl _
  · rw [if_neg hempty, if_neg hempty]
    dsimp only
    split
    · exact c.traffic_mutation (by exact List.cons_ne_nil _ _) rfl _
    · exact c.traffic_mutation (by exact List.cons_ne_nil _ _) rfl _

/-- What a rename asks for. -/
def renameIntent (path newName : QString) : Option FsOp :=
  if path ≠ [] ∧ isValidRemoteName newName then
    some (.rename (toCore path) (toCore (joinRemotePath (parentDirOf path) (trimmed newName))))
  else none

/-- A rename sends itself and nothing else. -/
theorem traffic_renamePath (path newName : QString) :
    Asks (renameIntent path newName).toList c.traffic (c.renamePath path newName).traffic := by
  refine c.traffic_whenReady _ fun _ => ?_
  unfold renameIntent
  by_cases hempty : path = []
  · rw [if_pos hempty, if_neg fun h => h.1 hempty]
    exact .refl _
  · rw [if_neg hempty]
    by_cases hvalid : isValidRemoteName newName = true
    · rw [if_pos hvalid, if_pos ⟨hempty, hvalid⟩]
      exact c.traffic_mutation (by exact List.cons_ne_nil _ _) rfl _
    · rw [if_neg hvalid, if_neg fun h => hvalid h.2]
      exact .refl _

/-- What a delete asks for. -/
def deleteIntent (path : QString) (isDir : Bool) : Option FsOp :=
  if path = [] then none else some (.remove (toCore path) isDir)

/-- A removal sends itself and nothing else. -/
theorem traffic_deletePath (path : QString) (isDir : Bool) :
    Asks (deleteIntent path isDir).toList c.traffic (c.deletePath path isDir).traffic := by
  refine c.traffic_whenReady _ fun _ => ?_
  unfold deleteIntent
  by_cases hempty : path = []
  · rw [if_pos hempty, if_pos hempty]
    exact .refl _
  · rw [if_neg hempty, if_neg hempty]
    exact c.traffic_mutation (by exact List.cons_ne_nil _ _) rfl _

/-- What a new directory asks for. -/
def makeDirIntent (parentDir name : QString) : Option FsOp :=
  if isValidRemoteName name then
    some (.mkdir (toCore (joinRemotePath (c.targetDirForWrite parentDir) (trimmed name))))
  else none

/-- A new directory is all that is sent. -/
theorem traffic_makeDir (parentDir name : QString) :
    Asks (c.makeDirIntent parentDir name).toList c.traffic (c.makeDir parentDir name).traffic := by
  refine c.traffic_whenReady _ fun _ => ?_
  unfold makeDirIntent
  by_cases hvalid : isValidRemoteName name = true
  · rw [if_pos hvalid, if_pos hvalid]
    exact c.traffic_mutation (by exact List.cons_ne_nil _ _) rfl _
  · rw [if_neg hvalid, if_neg hvalid]
    exact .refl _

/-- What a new file asks for. -/
def makeFileIntent (parentDir name : QString) : Option FsOp :=
  if isValidRemoteName name then
    some (.write (toCore (joinRemotePath (c.targetDirForWrite parentDir) (trimmed name))) [])
  else none

/-- A new file is all that is sent. -/
theorem traffic_makeFile (parentDir name : QString) :
    Asks (c.makeFileIntent parentDir name).toList c.traffic
      (c.makeFile parentDir name).traffic := by
  refine c.traffic_whenReady _ fun _ => ?_
  unfold makeFileIntent
  by_cases hvalid : isValidRemoteName name = true
  · rw [if_pos hvalid, if_pos hvalid]
    exact c.traffic_mutation (by exact List.cons_ne_nil _ _) rfl _
  · rw [if_neg hvalid, if_neg hvalid]
    exact .refl _

/-- What an upload asks for. -/
def uploadIntent (destDir localPath fileName : QString) (contents : Option (List UInt8)) :
    Option FsOp :=
  (if localPath = [] then none else contents).map fun data =>
    .write (toCore (joinRemotePath (c.targetDirForWrite destDir) fileName)) data

/-- An upload sends its write and nothing else. -/
theorem traffic_uploadFile (destDir localPath fileName : QString)
    (contents : Option (List UInt8)) :
    Asks (c.uploadIntent destDir localPath fileName contents).toList c.traffic
      (c.uploadFile destDir localPath fileName contents).traffic := by
  refine c.traffic_whenReady _ fun _ => ?_
  unfold uploadIntent
  cases (if localPath = [] then none else contents) with
  | none => exact .refl _
  | some data => exact c.traffic_mutation (by exact List.cons_ne_nil _ _) rfl _

theorem traffic_activateEditorPath (path : QString) :
    (c.activateEditorPath path).traffic = c.traffic := by
  unfold activateEditorPath
  split <;> rfl

/-! ## §4. Commands. -/

theorem traffic_submitPackage {d : AppController} (hd : d.traffic = c.traffic) (command : QString)
    (timeoutMs : UInt64) (kind : PendingExecKind) (label failureText : QString) :
    Asks [] c.traffic (d.submitPackage command timeoutMs kind label failureText).traffic := by
  have h := d.traffic_submitExec command timeoutMs kind label
  rw [hd] at h
  unfold submitPackage
  generalize d.submitExec command timeoutMs kind label = submitted at h ⊢
  obtain ⟨id, c'⟩ := submitted
  dsimp only at h ⊢
  split
  · exact h
  · exact h

theorem traffic_refreshEnvironment : Asks [] c.traffic c.refreshEnvironment.traffic := by
  unfold refreshEnvironment
  split
  · split
    · exact .refl _
    · exact c.traffic_submitPackage (by rfl) _ _ _ _ _
  · exact .refl _

theorem traffic_searchPackages (query : QString) :
    Asks [] c.traffic (c.searchPackages query).traffic := by
  unfold searchPackages
  dsimp only
  split
  · exact .refl _
  · split
    · split
      · exact .refl _
      · exact c.traffic_submitPackage (by rfl) _ _ _ _ _
    · exact .refl _

theorem traffic_mutatePackage (m : PackageMutation) (manager name : QString) :
    Asks [] c.traffic (c.mutatePackage m manager name).traffic := by
  unfold mutatePackage
  dsimp only
  split
  · exact .refl _
  · split
    · split
      · exact .refl _
      · split
        · split
          · exact .refl _
          · exact c.traffic_submitPackage (by rfl) _ _ _ _ _
        · exact .refl _
    · exact .refl _

theorem traffic_refreshResourceSnapshot :
    Asks [] c.traffic c.refreshResourceSnapshot.traffic := by
  unfold refreshResourceSnapshot
  split
  · split
    · exact .refl _
    · have h := traffic_submitExec
        { c with resources := { busy := true, capture := [], markerTail := [] } }
        resourceSnapshotCommand 8000 .resourceSnapshot (lit "资源快照")
      generalize submitExec { c with resources := { busy := true, capture := [], markerTail := [] } }
        resourceSnapshotCommand 8000 .resourceSnapshot (lit "资源快照") = submitted at h ⊢
      obtain ⟨id, c'⟩ := submitted
      dsimp only at h ⊢
      split
      · exact h
      · exact h
  · exact .refl _

theorem traffic_sendTerminalBytes (payload : List UInt8) (failureContext : QString) :
    Asks [] c.traffic (c.sendTerminalBytes payload failureContext).2.traffic := by
  have h : Asks [] c.traffic (c.sendCmd (.send payload)).2.traffic := c.traffic_sendCmd rfl
  unfold sendTerminalBytes
  generalize c.sendCmd (.send payload) = sent at h ⊢
  obtain ⟨rc, c'⟩ := sent
  dsimp only at h ⊢
  split <;> exact h

theorem traffic_sendCommand (text : QString) : Asks [] c.traffic (c.sendCommand text).traffic := by
  unfold sendCommand
  split
  · split
    · exact .refl _
    · exact c.traffic_sendTerminalBytes _ _
  · exact .refl _

theorem traffic_sendInterrupt : Asks [] c.traffic c.sendInterrupt.traffic := by
  unfold sendInterrupt
  split
  · have h := c.traffic_sendTerminalBytes [0x03] (lit "中止信号发送失败")
    generalize c.sendTerminalBytes [0x03] (lit "中止信号发送失败") = sent at h ⊢
    obtain ⟨taken, c'⟩ := sent
    cases taken <;> exact h
  · exact .refl _

theorem traffic_runPythonFile (path device : QString) :
    Asks [] c.traffic (c.runPythonFile path device).traffic := by
  unfold runPythonFile
  split
  · split
    · exact .refl _
    · split
      · exact .refl _
      · exact traffic_sendTerminalBytes (c.appendNotice _) _ _
  · exact .refl _

/-! ## §5. What comes in. -/

theorem traffic_finishPackageMutation {d : AppController} (hd : d.traffic = c.traffic)
    (result : ExecResult) (successText failureText refreshText : QString) :
    Asks [] c.traffic (d.finishPackageMutation result successText failureText refreshText).traffic
    := by
  rw [← hd]
  unfold finishPackageMutation
  dsimp only
  split
  · exact .refl _
  · exact d.traffic_submitPackage (by rfl) _ _ _ _ _

/-- Without the one entry that a result answers. -/
theorem function_answered {α : Type} (table : UInt64 → Option α) (requestId : UInt64) :
    (fun id => if id ∈ [requestId] then none else table id)
      = Function.update table requestId none := by
  funext id
  by_cases hsame : id = requestId
  · rw [hsame, Function.update_self, if_pos List.mem_cons_self]
  · rw [Function.update_of_ne hsame, if_neg (List.mem_singleton.not.mpr hsame)]

/-- The entry of a result leaves the table. -/
theorem answered_file (result : FsResult) : c.traffic.answered (.files [result])
    = traffic { c with fsPending := Function.update c.fsPending result.requestId none } := by
  show Traffic.mk _ _ (fun id => if id ∈ [result.requestId] then none else c.fsPending id) _ = _
  rw [function_answered]
  rfl

/-- The entry of a result leaves the table. -/
theorem answered_task (result : ExecResult) : c.traffic.answered (.execs [result])
    = traffic { c with execPending := Function.update c.execPending result.requestId none } := by
  show Traffic.mk _ _ _ (fun id => if id ∈ [result.requestId] then none else c.execPending id) = _
  rw [function_answered]
  rfl

/-- **A command that is answered does not wait any more.** -/
theorem traffic_ingestExecResult (result : ExecResult) :
    Asks [] (c.traffic.answered (.execs [result])) (c.ingestExecResult result).traffic := by
  rw [answered_task]
  unfold ingestExecResult
  split
  · next hnone =>
    rw [← hnone, Function.update_eq_self]
    exact .refl _
  next pending _ =>
    dsimp only
    cases pending.kind with
    | resourceSnapshot =>
      dsimp only
      split
      · exact .refl _
      · exact .refl _
    | environmentProbe =>
      dsimp only
      split
      · exact .refl _
      · exact traffic_submitPackage _ (by rfl) _ _ _ _ _
    | packageList => dsimp only; split <;> exact .refl _
    | packageSearch => dsimp only; split <;> exact .refl _
    | packageInstall => exact traffic_finishPackageMutation _ (by rfl) _ _ _ _
    | packageUpdate => exact traffic_finishPackageMutation _ (by rfl) _ _ _ _
    | packageRemove => exact traffic_finishPackageMutation _ (by rfl) _ _ _ _

theorem traffic_failFileRequest (pending : PendingFs) (code : RsErrorCode) (message : QString) :
    (c.failFileRequest pending code message).traffic = c.traffic := by
  unfold failFileRequest
  cases pending.kind with
  | listing =>
    dsimp only
    split
    · split <;> rfl
    · rfl
  | _ => rfl

theorem traffic_finishListing (pending : PendingFs) (payload : FsPayload) :
    (c.finishListing pending payload).traffic = c.traffic := by
  unfold finishListing
  split
  · dsimp only
    split
    · unfold rememberHomeFromRootListing
      split <;> rfl
    · rfl
  · dsimp only
    split <;> rfl

theorem traffic_finishOpen (pending : PendingFs) (payload : FsPayload) :
    (c.finishOpen pending payload).traffic = c.traffic := by
  unfold finishOpen
  split
  · split
    · rfl
    · split <;> rfl
  · rfl

theorem traffic_finishSave (pending : PendingFs) (payload : FsPayload) :
    Asks [] c.traffic (c.finishSave pending payload).traffic := by
  unfold finishSave
  split
  · exact traffic_refreshAfter
      ({ c with editor := c.editor.finishSave true [] pending.path }.appendNotice _) pending
  · exact .refl _

theorem traffic_finishMutate (pending : PendingFs) (payload : FsPayload) :
    Asks [] c.traffic (c.finishMutate pending payload).traffic := by
  have hrefresh : ∀ d : AppController, d.traffic = c.traffic →
      Asks [] c.traffic (refreshAfter (if pending.clearClipboard then
        { d with clipboardPath := [], clipboardCut := false } else d) pending).traffic := by
    intro d hd
    rw [← hd]
    split
    · exact traffic_refreshAfter { d with clipboardPath := [], clipboardCut := false } pending
    · exact d.traffic_refreshAfter pending
  cases payload with
  | ok =>
    unfold finishMutate
    dsimp only
    cases pending.mutation with
    | _ => exact hrefresh _ rfl
  | content data => exact .refl _
  | listing entries => exact .refl _
  | error code message => exact .refl _

/-- **A file request that is answered does not wait any more.** -/
theorem traffic_ingestFileResult (result : FsResult) :
    Asks [] (c.traffic.answered (.files [result])) (c.ingestFileResult result).traffic := by
  rw [answered_file]
  unfold ingestFileResult
  split
  · next hnone =>
    rw [← hnone, Function.update_eq_self]
    exact .refl _
  next pending _ =>
    dsimp only
    generalize ({ c with
      fsPending := Function.update c.fsPending result.requestId none } : AppController) = d
    split
    · exact .of_eq (d.traffic_failFileRequest pending _ _)
    · split
      · exact .of_eq (d.traffic_finishListing pending _)
      · exact .of_eq (d.traffic_finishOpen pending _)
      · exact d.traffic_finishSave pending _
      · exact d.traffic_finishMutate pending _

theorem traffic_finishCapture (capture : QString) :
    (c.finishCapture capture).traffic = c.traffic := by
  unfold finishCapture
  split
  · rfl
  · split
    · rfl
    · dsimp only
      split <;> rfl

theorem traffic_captureResourceOutput (data : List UInt8) :
    (c.captureResourceOutput data).2.traffic = c.traffic := by
  unfold captureResourceOutput
  split
  · dsimp only
    split
    · split
      · rfl
      · rw [traffic_finishCapture]
        split <;> rfl
    · exact traffic_finishCapture _ _
  · rfl

theorem traffic_setStatus (row : Int) (status : RsSessionState) :
    (c.setStatus row status).traffic = c.traffic := by
  unfold setStatus
  split <;> rfl

theorem traffic_forgetConnection : Asks [] c.traffic c.forgetConnection.traffic :=
  .of_less rfl rfl (fun _ _ => nofun) fun _ _ => nofun

theorem traffic_setConnectionState (state : RsSessionState) :
    Asks [] c.traffic (c.setConnectionState state).traffic := by
  have hstatus : (if 0 ≤ c.currentIndex then
      setStatus { c with connectionState := state } c.currentIndex state
      else { c with connectionState := state }).traffic = c.traffic := by
    split
    · exact traffic_setStatus _ _ _
    · rfl
  unfold setConnectionState
  dsimp only
  generalize (if 0 ≤ c.currentIndex then
      setStatus { c with connectionState := state } c.currentIndex state
      else { c with connectionState := state }) = d at hstatus ⊢
  rw [← hstatus]
  split
  · exact traffic_reloadFiles { d with remoteHomePath := [] }
  · exact d.traffic_forgetConnection
  · exact d.traffic_forgetConnection
  · exact .refl _

theorem traffic_ingestRustEvent (ev : RustEvent) :
    Asks [] c.traffic (c.ingestRustEvent ev).traffic := by
  cases ev with
  | stateChanged state => exact c.traffic_setConnectionState state
  | data data =>
    have h := c.traffic_captureResourceOutput data
    rw [← h]
    unfold ingestRustEvent
    dsimp only
    generalize c.captureResourceOutput data = captured at h ⊢
    obtain ⟨taken, c'⟩ := captured
    cases taken <;> exact .refl _
  | error code message => exact .refl _
  | hostKeyPrompt message => exact .refl _

/-- The entries that two batches answer, one after the other. -/
theorem answered_answered {a : Traffic} {batch batch' both : Batch}
    (hfiles : both.fileIds = batch.fileIds ++ batch'.fileIds)
    (htasks : both.taskIds = batch.taskIds ++ batch'.taskIds) :
    (a.answered batch).answered batch' = a.answered both := by
  unfold Traffic.answered
  rw [hfiles, htasks]
  simp only [Traffic.mk.injEq, true_and]
  constructor
  · funext id
    rw [← ite_or]
    simp only [List.mem_append, or_comm]
  · funext id
    rw [← ite_or]
    simp only [List.mem_append, or_comm]

/-- A batch without results takes no entry away. -/
theorem answered_nothing {a : Traffic} {batch : Batch} (hfiles : batch.fileIds = [])
    (htasks : batch.taskIds = []) : a.answered batch = a := by
  unfold Traffic.answered
  rw [hfiles, htasks]
  rfl

/-- **What comes in asks for no change of the remote**, and what it answers does not wait any
more. -/
theorem traffic_ingest (batch : Batch) :
    Asks [] (c.traffic.answered batch) (c.ingest batch).traffic := by
  cases batch with
  | events batch =>
    rw [answered_nothing rfl rfl]
    show Asks [] c.traffic (batch.foldl ingestRustEvent c).traffic
    induction batch generalizing c with
    | nil => exact .refl _
    | cons ev batch ih => exact (c.traffic_ingestRustEvent ev).trans (ih _)
  | files batch =>
    show Asks [] _ (batch.foldl ingestFileResult c).traffic
    induction batch generalizing c with
    | nil =>
      rw [answered_nothing rfl rfl]
      exact .refl _
    | cons result batch ih =>
      have hfirst := (c.traffic_ingestFileResult result).answered (.files batch)
      rw [@answered_answered _ _ _ (.files (result :: batch)) rfl rfl] at hfirst
      exact hfirst.trans (ih _)
  | execs batch =>
    show Asks [] _ (batch.foldl ingestExecResult c).traffic
    induction batch generalizing c with
    | nil =>
      rw [answered_nothing rfl rfl]
      exact .refl _
    | cons result batch ih =>
      have hfirst := (c.traffic_ingestExecResult result).answered (.execs batch)
      rw [@answered_answered _ _ _ (.execs (result :: batch)) rfl rfl] at hfirst
      exact hfirst.trans (ih _)

/-! ## §6. Sessions. -/

theorem traffic_selectServer (index : Int) : (c.selectServer index).traffic = c.traffic := by
  unfold selectServer
  split <;> rfl

theorem traffic_disconnectCurrent : Asks [] c.traffic c.disconnectCurrent.traffic := by
  unfold disconnectCurrent
  split
  · exact .refl _
  · have h : Asks [] c.traffic (c.sendCmd .disconnect).2.traffic := c.traffic_sendCmd rfl
    generalize c.sendCmd .disconnect = sent at h ⊢
    obtain ⟨rc, c'⟩ := sent
    dsimp only at h ⊢
    split <;> exact h

theorem traffic_confirmHostKey (accept : Bool) :
    (c.confirmHostKey accept).traffic = c.traffic := by
  unfold confirmHostKey
  split <;> rfl

theorem traffic_requestConnect : Asks [] c.traffic c.requestConnect.traffic := by
  have h : Asks [] c.traffic
      (sendCmd (c.appendNotice (arg (lit "正在连接 %1 …") [c.currentEndpoint])) .connect).2.traffic :=
    traffic_sendCmd (c.appendNotice _) rfl
  unfold requestConnect
  dsimp only
  generalize sendCmd (c.appendNotice (arg (lit "正在连接 %1 …") [c.currentEndpoint])) .connect
    = sent at h ⊢
  obtain ⟨rc, c'⟩ := sent
  dsimp only at h ⊢
  split <;> exact h

/-- A command without an id enters nothing. -/
theorem waiting_sendCmd (command : Command) :
    (c.sendCmd command).2.fsPending = c.fsPending
      ∧ (c.sendCmd command).2.execPending = c.execPending := by
  unfold sendCmd
  split <;> exact ⟨rfl, rfl⟩

theorem waiting_requestConnect :
    c.requestConnect.fsPending = c.fsPending ∧ c.requestConnect.execPending = c.execPending := by
  have h := waiting_sendCmd (c.appendNotice (arg (lit "正在连接 %1 …") [c.currentEndpoint])) .connect
  unfold requestConnect
  dsimp only
  generalize sendCmd (c.appendNotice (arg (lit "正在连接 %1 …") [c.currentEndpoint])) .connect
    = sent at h ⊢
  obtain ⟨rc, c'⟩ := sent
  dsimp only at h ⊢
  split <;> exact h

theorem waiting_openSession (index : Int) (item : ServerItem) (handle : Nat) :
    (c.openSession index item handle).fsPending = c.fsPending
      ∧ (c.openSession index item handle).execPending = c.execPending := by
  unfold openSession
  dsimp only
  rw [(waiting_sendCmd _ _).1, (waiting_sendCmd _ _).2]
  split
  · exact ⟨rfl, rfl⟩
  · rw [(waiting_sendCmd _ _).1, (waiting_sendCmd _ _).2]
    exact ⟨rfl, rfl⟩

/-- The ids of the requests, and the counter. -/
def numbers (c : AppController) : Option (Nat × List UInt64) × Option UInt64 :=
  (c.traffic.asked, c.traffic.counter)

/-- A command without an id leaves counter and ids. -/
theorem numbers_sendCmd {command : Command} (h : command.requestId = none) :
    (c.sendCmd command).2.numbers = c.numbers := by
  unfold sendCmd
  cases hsession : c.session with
  | none => rfl
  | some s =>
    dsimp only
    unfold Session.send numbers traffic asked
    rw [hsession]
    split
    · rfl
    · show (some (s.handle, requestIds (s.sent ++ [command])), s.counter) = _
      rw [requestIds_other h]
      rfl

theorem numbers_requestConnect : c.requestConnect.numbers = c.numbers := by
  have h := numbers_sendCmd (c.appendNotice (arg (lit "正在连接 %1 …") [c.currentEndpoint]))
    (show Command.connect.requestId = none from rfl)
  unfold requestConnect
  dsimp only
  generalize sendCmd (c.appendNotice (arg (lit "正在连接 %1 …") [c.currentEndpoint])) .connect
    = sent at h ⊢
  obtain ⟨rc, c'⟩ := sent
  dsimp only at h ⊢
  split <;> exact h

/-- A new session was sent its secrets, and asked for nothing. -/
theorem numbers_openSession (index : Int) (item : ServerItem) (handle : Nat) :
    (c.openSession index item handle).numbers = (some (handle, []), some 0) := by
  unfold openSession
  dsimp only
  rw [numbers_sendCmd _ (by rfl)]
  split
  · rfl
  · rw [numbers_sendCmd _ (by rfl)]
    rfl

variable {c} in

/-- A session that begins where nothing waits. -/
theorem renewed_openSession {ops : List FsOp} (hfiles : ∀ id, c.fsPending id = none)
    (htasks : ∀ id, c.execPending id = none) (index : Int) (item : ServerItem) (handle : Nat)
    (a : Traffic) :
    Outcome handle ops a (c.openSession index item handle).requestConnect.traffic := by
  have hopened := c.waiting_openSession index item handle
  have hwaiting := (c.openSession index item handle).waiting_requestConnect
  obtain ⟨hasked, hcounter⟩ := Prod.mk.inj
    (((c.openSession index item handle).numbers_requestConnect).trans
      (c.numbers_openSession index item handle))
  refine .renewed ?_ ?_ ?_ (.begins hasked hcounter)
  · intro id
    show (c.openSession index item handle).requestConnect.fsPending id = none
    rw [hwaiting.1, hopened.1]
    exact hfiles id
  · intro id
    show (c.openSession index item handle).requestConnect.execPending id = none
    rw [hwaiting.2, hopened.2]
    exact htasks id
  · intro l hl
    rw [asked, hl] at hasked
    exact Prod.mk.inj (Option.some.inj hasked)

/-- Nothing waits, and there is no session. -/
theorem renewed_gone {ops : List FsOp} {handle : Nat} {a b : Traffic} (hlink : b.link = none)
    (hfiles : ∀ id, b.fsPending id = none) (htasks : ∀ id, b.execPending id = none) :
    Outcome handle ops a b :=
  .renewed hfiles htasks (fun _ hl => absurd (hlink.symm.trans hl) nofun) (.gone hlink)

theorem traffic_connectToServer (h : c.traffic.Settled) (index : Int) (refused : Option RsErrorCode)
    (handle : Nat) : Outcome handle [] c.traffic
      (c.connectToServer index (answer handle refused)).traffic := by
  unfold connectToServer
  split
  · exact .asks (.refl _)
  next item _ =>
    have hselected := c.traffic_selectServer index
    generalize c.selectServer index = d at hselected ⊢
    rw [← hselected] at h ⊢
    dsimp only
    by_cases hother : d.session.isSome ∧ d.currentIndex ≠ index
    · -- the session of another row is gone by the time this row gets its own
      rw [if_pos hother]
      have hgone : d.teardownSession.session = none := rfl
      rw [hgone]
      cases refused with
      | none => exact renewed_openSession (fun _ => rfl) (fun _ => rfl) index item handle _
      | some code =>
        dsimp only [answer]
        rw [traffic_setStatus]
        exact renewed_gone rfl (fun _ => rfl) fun _ => rfl
    · rw [if_neg hother]
      cases hsession : d.session with
      | some session => exact .asks d.traffic_requestConnect
      | none =>
        have hlink : d.traffic.link = none := by rw [traffic, hsession]; rfl
        cases refused with
        | none => exact renewed_openSession (h hlink).1 (h hlink).2 index item handle _
        | some code =>
          dsimp only [answer]
          rw [traffic_setStatus]
          exact .asks (.refl _)

theorem traffic_connectToHost (h : c.traffic.Settled) (host : QString) (port : Int)
    (username password name keyPath keyPassphrase : QString) (refused : Option RsErrorCode)
    (handle : Nat) : Outcome handle [] c.traffic
      (c.connectToHost host port username password name keyPath keyPassphrase
        (answer handle refused)).traffic := by
  by_cases hrefused : host = [] ∨ username = []
  · unfold connectToHost
    rw [if_pos hrefused]
    exact .asks (.refl _)
  · obtain ⟨credentials, heq⟩ := c.connectToHost_accepted hrefused port password name keyPath
      keyPassphrase (answer handle refused)
    rw [heq]
    exact traffic_connectToServer { c with servers := _, credentials := credentials } h _ refused
      handle

theorem traffic_editSecret (oldKey newKey : QString) (changed : Bool) (old : Option (List UInt8))
    (value : QString) : (c.editSecret oldKey newKey changed old value).traffic = c.traffic := by
  unfold editSecret
  split
  · dsimp only
    split <;> rfl
  · split
    · split <;> rfl
    · rfl

theorem traffic_updateServer (row : Int) (name host : QString) (port : Int) (username : QString)
    (provider : ProviderKind) (keyPath : QString) :
    (c.updateServer row name host port username provider keyPath).2.traffic = c.traffic := by
  unfold updateServer
  split <;> rfl

theorem traffic_editServer (index : Int) (host : QString) (port : Int)
    (username password name keyPath keyPassphrase : QString) (handle : Nat) :
    Outcome handle [] c.traffic
      (c.editServer index host port username password name keyPath keyPassphrase).traffic := by
  have hdropped : Outcome handle [] c.traffic
      (if index = c.currentIndex then c.dropCurrentSession else c).traffic := by
    split
    · exact renewed_gone rfl (fun _ => rfl) fun _ => rfl
    · exact .asks (.refl _)
  unfold editServer
  split
  · exact .asks (.refl _)
  · dsimp only
    split
    · exact .asks (.refl _)
    · generalize (if index = c.currentIndex then c.dropCurrentSession else c) = d at hdropped ⊢
      have hupdated := d.traffic_updateServer index name (trimmed host) port (trimmed username)
        .russh keyPath
      generalize d.updateServer index name (trimmed host) port (trimmed username) .russh keyPath
        = updated at hupdated ⊢
      obtain ⟨taken, d'⟩ := updated
      rw [← hupdated] at hdropped
      cases taken with
      | false => exact hdropped
      | true =>
        show Outcome handle [] c.traffic (selectServer _ index).traffic
        rw [traffic_selectServer, traffic_editSecret, traffic_editSecret, traffic_setStatus]
        exact hdropped

theorem traffic_deleteServer (index : Int) (handle : Nat) :
    Outcome handle [] c.traffic (c.deleteServer index).traffic := by
  unfold deleteServer
  split
  · exact .asks (.refl _)
  · by_cases hcurrent : index = c.currentIndex
    · rw [if_pos hcurrent]
      exact renewed_gone rfl (fun _ => rfl) fun _ => rfl
    · rw [if_neg hcurrent]
      split
      · exact .asks (.refl _)
      · exact .asks (.refl _)

/-! ## §7. Ids. -/

/-- The ids of the requests that the session was sent. -/
def sentIds (c : AppController) : List UInt64 := requestIds ((c.session.map Session.sent).getD [])

/-- The ids that were given out from `c` to `d`, to requests that were sent. -/
def givenOut (c d : AppController) : List UInt64 := d.sentIds.drop c.sentIds.length

variable {c} {d : AppController} {new : List Command}

/-- The ids that the session was sent. -/
theorem sentIds_of_link {l : Nat × List Command} (h : c.traffic.link = some l) :
    c.sentIds = requestIds l.2 := by
  obtain ⟨s, hs, rfl⟩ := Option.map_eq_some_iff.mp h
  rw [sentIds, hs]
  rfl

/-- Without a session there are none. -/
theorem sentIds_of_idle (h : c.traffic.link = none) : c.sentIds = [] := by
  rw [sentIds, Option.map_eq_none_iff.mp h]
  rfl

/-- What is given out is the ids of what is sent. -/
theorem givenOut_of_sends (h : Sends new c.traffic d.traffic) : givenOut c d = requestIds new := by
  have hlink := h.link
  unfold givenOut
  cases hold : c.traffic.link with
  | none =>
    rw [hold] at hlink
    rw [sentIds_of_idle hlink, h.idle hold, List.drop_nil]
    rfl
  | some l =>
    rw [hold] at hlink
    rw [sentIds_of_link hold, sentIds_of_link hlink]
    dsimp only
    rw [requestIds_append, List.drop_left]

/-- What is new in the table of file requests was put there under an id that was given out. -/
theorem entry_of_sends (h : Sends new c.traffic d.traffic) {id : UInt64} {entry : PendingFs}
    (hentry : d.fsPending id = some entry) :
    c.fsPending id = some entry ∨ id ∈ givenOut c d := by
  refine (h.files id entry hentry).imp_right ?_
  rintro ⟨op, hop, -⟩
  rw [givenOut_of_sends h]
  exact List.mem_filterMap.mpr ⟨_, hop, rfl⟩

end AppController

/-! ## §8. User actions. -/

/-- The change of the remote that an action asks for, if it is one that does. -/
def UiAction.intent (c : AppController) : UiAction → Option FsOp
  | .paste destDir => c.pasteIntent destDir
  | .renamePath path newName => AppController.renameIntent path newName
  | .deletePath path isDir => AppController.deleteIntent path isDir
  | .makeDir parentDir name => c.makeDirIntent parentDir name
  | .makeFile parentDir name => c.makeFileIntent parentDir name
  | .uploadFile destDir localPath fileName contents =>
    c.uploadIntent destDir localPath fileName contents
  | .saveEditor text => AppController.saveIntent c.editor.path text
  | .saveEditorPath path text => AppController.saveIntent path text
  | _ => none

/-- **A user action asks for no other change of the remote than the one it is for.** -/
theorem UiAction.traffic_run (action : UiAction) (handle : Nat) {c : AppController}
    (h : c.traffic.Settled) :
    Traffic.Outcome handle (action.intent c).toList c.traffic (action.run handle c).traffic := by
  cases action with
  | selectServer index => exact .asks (.of_eq (c.traffic_selectServer index))
  | connectToServer index refused => exact c.traffic_connectToServer h index refused handle
  | connectToHost host port username password name keyPath keyPassphrase refused =>
    exact c.traffic_connectToHost h host port username password name keyPath keyPassphrase refused
      handle
  | editServer index host port username password name keyPath keyPassphrase =>
    exact c.traffic_editServer index host port username password name keyPath keyPassphrase handle
  | deleteServer index => exact c.traffic_deleteServer index handle
  | disconnectCurrent => exact .asks c.traffic_disconnectCurrent
  | cancel => exact .asks (.refl _)
  | confirmHostKey accept => exact .asks (.of_eq (c.traffic_confirmHostKey accept))
  | sendCommand text => exact .asks (c.traffic_sendCommand text)
  | sendInterrupt => exact .asks c.traffic_sendInterrupt
  | clearTerminal => exact .asks (.refl _)
  | runPythonFile path device => exact .asks (c.traffic_runPythonFile path device)
  | refreshResourceSnapshot => exact .asks c.traffic_refreshResourceSnapshot
  | refreshEnvironment => exact .asks c.traffic_refreshEnvironment
  | searchPackages query => exact .asks (c.traffic_searchPackages query)
  | installPackage manager name => exact .asks (c.traffic_mutatePackage _ manager name)
  | updatePackage manager name => exact .asks (c.traffic_mutatePackage _ manager name)
  | removePackage manager name => exact .asks (c.traffic_mutatePackage _ manager name)
  | activateEditorPath path => exact .asks (.of_eq (c.traffic_activateEditorPath path))
  | closeEditor => exact .asks (.refl _)
  | openPath path => exact .asks (c.traffic_openPath path)
  | reloadFiles => exact .asks c.traffic_reloadFiles
  | fetchMore node => exact .asks (c.traffic_fetchMore node)
  | copyPath path =>
    refine .asks (.of_eq ?_)
    show (c.copyPath path).traffic = c.traffic
    unfold AppController.copyPath
    split <;> rfl
  | cutPath path =>
    refine .asks (.of_eq ?_)
    show (c.cutPath path).traffic = c.traffic
    unfold AppController.cutPath
    split <;> rfl
  | paste destDir => exact .asks (c.traffic_paste destDir)
  | renamePath path newName => exact .asks (c.traffic_renamePath path newName)
  | deletePath path isDir => exact .asks (c.traffic_deletePath path isDir)
  | makeDir parentDir name => exact .asks (c.traffic_makeDir parentDir name)
  | makeFile parentDir name => exact .asks (c.traffic_makeFile parentDir name)
  | uploadFile destDir localPath fileName contents =>
    exact .asks (c.traffic_uploadFile destDir localPath fileName contents)
  | saveEditor text => exact .asks (c.traffic_saveEditorPath c.editor.path text)
  | saveEditorPath path text => exact .asks (c.traffic_saveEditorPath path text)

end ResearchSSH.App
