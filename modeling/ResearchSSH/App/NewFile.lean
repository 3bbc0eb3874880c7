/-
  ResearchSSH.App.NewFile — "new file", from the file pane to the remote.

  The pane looks the name up in the lazily loaded tree; the controller checks the name and writes
  an empty file; the provider's write replaces whatever has that path.  So the lookup in the tree
  is the only thing between an existing file and an empty one, and the tree knows the files of a
  directory only as of its last listing.

  Main results:
    * `makeFile_newCommands` — what the controller sends for a new file.
    * `newFile_harmless_iff` — a new file costs nothing exactly if the request is refused or the
      remote has no file at the path it is written to.
-/

import ResearchSSH.App.ControllerSessions
import ResearchSSH.Core.MockFs

namespace ResearchSSH.App

open ResearchSSH.Core

/-! ## §1. The request. -/

/-- What the file pane makes of a request for a new file. -/
inductive NewFileRequest
  | ignored
  /-- The dialog that says that the name is taken. -/
  | nameExists (name : QString)
  | passed (c : AppController)

/-- `requestMakeFile` of the file pane. -/
def requestMakeFile (c : AppController) (dir name : QString) : NewFileRequest :=
  if c.fileAvailable then
    let clean := jsTrim name
    if validRemoteName clean then
      -- The only look at what is there, and the tree may not have listed the directory.
      if c.fileTree.childExists dir clean then .nameExists clean
      else .passed (c.makeFile dir clean)
    else .ignored
  else .ignored

/-- The commands a session has been sent. -/
def AppController.commands (c : AppController) : List Command :=
  match c.session with
  | none => []
  | some s => s.sent

/-- The commands sent between two states of the controller. -/
def newCommands (before after : AppController) : List Command :=
  after.commands.drop before.commands.length

/-- A request for a new file, with what it comes to at a remote in the state `fs`: the answers to
the operations it led to, and the remote after them. -/
def runNewFile (c : AppController) (fs : MockFs) (dir name : QString) : List FsAnswer × MockFs :=
  match requestMakeFile c dir name with
  | .passed c' => fs.serve (newCommands c c')
  | _ => ([], fs)

/-- The path the file is written to, as the core reads it. -/
def newFilePath (c : AppController) (dir name : QString) : Text :=
  toCore (joinRemotePath (c.targetDirForWrite dir) (trimmed (jsTrim name)))

/-- Every file of the remote keeps its contents, and where there is a file of that name already
the request does not succeed. -/
def Harmless (c : AppController) (fs : MockFs) (dir name : QString) : Prop :=
  fs.Keeps (runNewFile c fs dir name).2 ∧
    ((fs.files.lookup (newFilePath c dir name)).isSome → .done ∉ (runNewFile c fs dir name).1)

/-! ## §2. What is sent. -/

/-- Is the controller's command queue still read? -/
def AppController.accepting (c : AppController) : Bool :=
  match c.session with
  | none => false
  | some s => !s.stopped

/-- Everything that stops a request for a new file before it is sent. -/
def Refused (c : AppController) (dir name : QString) : Prop :=
  c.fileAvailable = false ∨ validRemoteName (jsTrim name) = false
    ∨ c.fileTree.childExists dir (jsTrim name) = true
    ∨ c.ready = false ∨ isValidRemoteName (jsTrim name) = false ∨ c.accepting = false

/-- Entering a request sends nothing. -/
theorem commands_trackMutation (submitted : UInt64 × AppController) (refused : QString)
    (pending : PendingFs) :
    (AppController.trackMutation submitted refused pending).commands = submitted.2.commands := by
  unfold AppController.trackMutation
  split
  · rfl
  · unfold AppController.trackFsRequest
    split <;> rfl

/-- A session that has not stopped is sent the command, under the next id. -/
theorem Session.sent_submit (s : Session) (command : UInt64 → Command) :
    (s.submit command).2.sent =
      if s.stopped then s.sent else s.sent ++ [command (s.nextRequestId + 1)] := by
  unfold Session.submit
  split <;> rfl

/-- A file request reaches the queue exactly if the queue is still read. -/
theorem newCommands_submitFs (c : AppController) (op : FsOp) :
    ∃ id, newCommands c (c.submitFs op).2 = if c.accepting then [.fs id op] else [] := by
  unfold newCommands AppController.submitFs AppController.submit AppController.accepting
    AppController.commands
  cases hs : c.session with
  | none =>
    refine ⟨0, ?_⟩
    show (match c.session with
          | none => []
          | some s => s.sent).drop 0 = []
    rw [hs]
    rfl
  | some s =>
    -- the id is spent in either case, but a closed queue takes nothing
    refine ⟨s.nextRequestId + 1, ?_⟩
    show (s.submit fun id => Command.fs id op).2.sent.drop s.sent.length
      = if !s.stopped then [.fs (s.nextRequestId + 1) op] else []
    rw [Session.sent_submit]
    cases s.stopped with
    | false => exact List.drop_left
    | true => exact List.drop_length

/-- What the controller sends for a new file: an empty write, or nothing. -/
theorem makeFile_newCommands (c : AppController) (dir name : QString) :
    ∃ id, newCommands c (c.makeFile dir name) =
      if c.ready ∧ isValidRemoteName name ∧ c.accepting then
        [.fs id (.write (toCore (joinRemotePath (c.targetDirForWrite dir) (trimmed name))) [])]
      else [] := by
  -- a notice in the terminal sends nothing
  have hsame : ∀ text, newCommands c (c.appendNotice text) = [] := fun _ => List.drop_length
  unfold AppController.makeFile
  by_cases hready : c.ready
  · rw [if_pos hready]
    by_cases hname : isValidRemoteName name
    · rw [if_pos hname]
      obtain ⟨id, hid⟩ := newCommands_submitFs c
        (.write (toCore (joinRemotePath (c.targetDirForWrite dir) (trimmed name))) [])
      refine ⟨id, ?_⟩
      unfold newCommands at hid ⊢
      rw [commands_trackMutation, hid]
      simp only [hready, hname, true_and]
    · rw [if_neg hname]
      exact ⟨0, by rw [hsame, if_neg fun h => hname h.2.1]⟩
  · rw [if_neg hready]
    exact ⟨0, by rw [hsame, if_neg fun h => hready h.1]⟩

/-! ## §3. What it does to the remote. -/

/-- A request that is not refused replaces whatever is at its path. -/
theorem runNewFile_eq (c : AppController) (fs : MockFs) (dir name : QString) :
    (Refused c dir name → runNewFile c fs dir name = ([], fs)) ∧
      (¬ Refused c dir name →
        runNewFile c fs dir name = ([.done], fs.writeFile (newFilePath c dir name) [])) := by
  obtain ⟨id, hid⟩ := makeFile_newCommands c dir (jsTrim name)
  unfold Refused runNewFile requestMakeFile
  dsimp only
  by_cases havail : c.fileAvailable = true
  · rw [if_pos havail]
    by_cases hvalid : validRemoteName (jsTrim name) = true
    · rw [if_pos hvalid]
      by_cases hexists : c.fileTree.childExists dir (jsTrim name) = true
      · rw [if_pos hexists]
        exact ⟨fun _ => rfl, fun h => absurd (.inr (.inr (.inl hexists))) h⟩
      · rw [if_neg hexists]
        dsimp only
        rw [hid]
        constructor
        · intro h
          rw [if_neg]
          · rfl
          · rintro ⟨hready, hname, haccepting⟩
            simp [havail, hvalid, hexists, hready, hname, haccepting] at h
        · intro h
          simp only [not_or, Bool.not_eq_false] at h
          rw [if_pos ⟨h.2.2.2.1, h.2.2.2.2.1, h.2.2.2.2.2⟩]
          rfl
    · rw [if_neg hvalid]
      exact ⟨fun _ => rfl, fun h => absurd (.inr (.inl (Bool.eq_false_iff.mpr hvalid))) h⟩
  · rw [if_neg havail]
    exact ⟨fun _ => rfl, fun h => absurd (.inl (Bool.eq_false_iff.mpr havail)) h⟩

/-- A request that is refused harms nothing. -/
theorem harmless_of_refused {c : AppController} {dir name : QString} (h : Refused c dir name)
    (fs : MockFs) : Harmless c fs dir name := by
  unfold Harmless
  rw [(runNewFile_eq c fs dir name).1 h]
  exact ⟨MockFs.Keeps.refl fs, fun _ => List.not_mem_nil⟩

/-- Otherwise it is harmless just where there is no such file. -/
theorem harmless_of_not_refused {c : AppController} {dir name : QString}
    (h : ¬ Refused c dir name) (fs : MockFs) :
    Harmless c fs dir name ↔ fs.files.lookup (newFilePath c dir name) = none := by
  unfold Harmless
  rw [(runNewFile_eq c fs dir name).2 h]
  constructor
  · rintro ⟨-, hfails⟩
    by_contra hsome
    exact hfails (Option.isSome_iff_ne_none.mpr hsome) (List.mem_singleton_self _)
  · intro hnone
    constructor
    -- the write touches its own path only, and nothing was there
    · rw [MockFs.keeps_writeFile_iff, hnone]
      intro old hold
      exact absurd hold (Option.some_ne_none old).symm
    · intro hsome
      rw [hnone] at hsome
      exact absurd hsome Bool.false_ne_true

/-- In a directory that is not loaded the tree refuses nothing: whether a file is lost depends on
the remote alone. -/
theorem harmless_unlisted_iff {c : AppController} {dir : QString}
    (hunlisted : ∀ node, c.fileTree.nodeForPath dir = some node → node.info.loaded = false)
    (fs : MockFs) (name : QString) (hsent : c.fileAvailable ∧ c.ready ∧ c.accepting)
    (hname : validRemoteName (jsTrim name) ∧ isValidRemoteName (jsTrim name)) :
    Harmless c fs dir name ↔ fs.files.lookup (newFilePath c dir name) = none := by
  apply harmless_of_not_refused
  unfold Refused
  rw [c.fileTree.childExists_of_not_loaded hunlisted, hsent.1, hsent.2.1, hsent.2.2, hname.1,
    hname.2]
  simp

/-- **New files and old contents.**  For every controller, every state of its tree, every remote,
directory and name: a request for a new file costs no existing file its contents, and does not
succeed on an existing name, exactly if it is refused on the way or there is no file at the path
it is written to. -/
theorem newFile_harmless_iff (c : AppController) (fs : MockFs) (dir name : QString) :
    Harmless c fs dir name ↔
      Refused c dir name ∨ fs.files.lookup (newFilePath c dir name) = none := by
  by_cases h : Refused c dir name
  · exact ⟨fun _ => .inl h, fun _ => harmless_of_refused h fs⟩
  · rw [harmless_of_not_refused h, or_iff_right h]

/-- A mock server, connected, with the home directory listed and no directory below it. -/
def listedHome : AppController :=
  let entry (name : String) (kind : FileKind) : FsEntry :=
    { name := lit name, path := lit ("/home/researcher/" ++ name), kind := kind, size := 0
      modified := -1, editable := true }
  let server : ServerItem := newServer [] (lit "mock") 22 (lit "researcher") .mock []
  ((AppController.initial [server] fun _ => none).connectToServer 0 (.session 0)
    |>.ingestRustEvents [.stateChanged .connecting, .stateChanged .connected]
    |>.ingestFileResults [{ requestId := 1, payload := .listing [entry "data" .directory,
                                                                entry "train.py" .file] }])

/-- `data/run.sh` is emptied by a request for a new file of that name, since `data` has not been
expanded. -/
theorem newFile_empties_run_sh :
    ¬ Harmless listedHome MockFs.seeded (lit "/home/researcher/data") (lit "run.sh") := by
  rintro ⟨hkeeps, -⟩
  have hbefore : MockFs.seeded.files.lookup "/home/researcher/data/run.sh".toList
      = some "#!/bin/sh\npython ../train.py\n".toUTF8.data.toList := by decide
  have hafter : (runNewFile listedHome MockFs.seeded (lit "/home/researcher/data")
      (lit "run.sh")).2.files.lookup "/home/researcher/data/run.sh".toList = some [] := by decide
  have hkept := hkeeps _ _ hbefore
  rw [hafter] at hkept
  exact absurd hkept (by decide)

end ResearchSSH.App
