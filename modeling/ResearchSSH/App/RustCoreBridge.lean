/-
  ResearchSSH.App.RustCoreBridge — the callbacks that copy batches out, and what arrives.

  Each callback goes through the C records it is given, copies every record into a value of its
  own, and posts the batch to the controller.  What it does not copy keeps its default.  Reading
  behind the end of a buffer is `none` here, and so is a panic of the emitter.

  `QString::fromUtf8` is a parameter of the callbacks.

  Main results:
    * `stores_event`, `stores_fileResult`, `stores_execResult` — one record, through both languages.
    * `carries_of_decodes` — whole batches, with any decoder.
    * `batches_carried`    — whole batches, with one that gives the characters.
    * `carries_fromUtf8`   — Qt's own decoder, which drops a byte order mark.
-/

import ResearchSSH.App.Utf8
import ResearchSSH.App.UiThread

namespace ResearchSSH.App

open ResearchSSH.Core ResearchSSH.Library

namespace RustCoreBridge

/-! ## §1. What is copied out. -/

/-- `RustEvent`: the bridge's own copy of an event. -/
structure RustEvent where
  kind : RsEventKind
  state : RsSessionState
  code : RsErrorCode
  data : List UInt8
  message : QString
  deriving DecidableEq, Repr

/-- `FsEntry`: the bridge's own copy of an entry. -/
structure FsEntry where
  name : QString
  path : QString
  kind : RsFileKind
  size : UInt64
  modified : Int64
  editable : Bool
  deriving DecidableEq, Repr

/-- `FsResult`: the bridge's own copy of a file result. -/
structure FsResult where
  requestId : UInt64
  kind : RsFsResultKind
  entries : List FsEntry
  data : List UInt8
  errorCode : RsErrorCode
  message : QString
  deriving DecidableEq, Repr

/-- `ExecResult`: the bridge's own copy of a command's result. -/
structure ExecResult where
  requestId : UInt64
  kind : RsExecResultKind
  stdoutData : List UInt8
  stderrData : List UInt8
  exitStatus : Int32
  errorCode : RsErrorCode
  message : QString
  deriving DecidableEq, Repr

/-! ## §2. Reading. -/

/-- The bytes of a C string, up to its NUL. -/
def cstr (buffer : List UInt8) : Option (List UInt8) :=
  if (0 : UInt8) ∈ buffer then some (buffer.takeWhile (· ≠ 0)) else none

/-- The first `count` items behind a pointer. -/
def readArray {α : Type} (buffer : List α) (count : Nat) : Option (List α) :=
  if count ≤ buffer.length then some (buffer.take count) else none

/-- `if (p && len > 0) out = QByteArray(p, len)`. -/
def copyBytes (p : Ptr UInt8) (len : Nat) : Option (List UInt8) :=
  match p with
  | none => some []
  | some buffer => if 0 < len then readArray buffer len else some []

variable (decode : List UInt8 → QString)

/-- `if (p) out = QString::fromUtf8(p)`. -/
def copyString (p : Ptr UInt8) : Option QString :=
  match p with
  | none => some []
  | some buffer => (cstr buffer).map decode

/-! ## §3. The callbacks. -/

/-- The copy of an event; a buffer is read only if the kind has one. -/
def copyEvent (e : RsEvent) : Option RustEvent :=
  let ev : RustEvent :=
    { kind := e.kind, state := e.state, code := e.errorCode, data := [], message := [] }
  match e.kind with
  -- A prompt carries its fingerprint as the message.
  | .data => (copyBytes e.data e.dataLen).map fun data => { ev with data := data }
  | .error | .hostKeyPrompt =>
    (copyString decode e.message).map fun message => { ev with message := message }
  | .stateChanged => some ev

/-- The copy of an entry. -/
def copyEntry (e : RsFileEntry) : Option FsEntry :=
  (copyString decode e.name).bind fun name => (copyString decode e.path).map fun path =>
    { name := name, path := path, kind := e.kind, size := e.size, modified := e.modifiedUnix
      editable := e.editableText }

/-- The copy of a file result; what is read depends on the kind. -/
def copyFsResult (r : RsFsResult) : Option FsResult :=
  let out : FsResult :=
    { requestId := r.requestId, kind := r.kind, entries := [], data := []
      errorCode := r.errorCode, message := [] }
  match r.kind with
  | .listing =>
    match r.entries with
    | none => some out
    | some entries => (readArray entries r.entryCount).bind fun entries =>
      (entries.mapM (copyEntry decode)).map fun entries => { out with entries := entries }
  | .content => (copyBytes r.data r.dataLen).map fun data => { out with data := data }
  | .error => (copyString decode r.message).map fun message => { out with message := message }
  | .ok => some out

/-- The copy of a command's result. -/
def copyExecResult (r : RsExecResult) : Option ExecResult :=
  -- All fields are copied, whatever the kind.
  (copyBytes r.stdoutData r.stdoutLen).bind fun stdoutData =>
    (copyBytes r.stderrData r.stderrLen).bind fun stderrData =>
      (copyString decode r.message).map fun message =>
        { requestId := r.requestId, kind := r.kind, stdoutData := stdoutData
          stderrData := stderrData, exitStatus := r.exitStatus, errorCode := r.errorCode
          message := message }

/-- The frame of the three callbacks: what is posted, and to whom. -/
def copyOut {κ β ι : Type} (copy : κ → Option β) (receiver : Option ι) (call : Call κ) :
    Option (Option (ι × List β)) :=
  match receiver, call.records with
  | some receiver, some records => (readArray records call.count).bind fun records =>
      (records.mapM copy).map fun batch => some (receiver, batch)
  | _, _ => some none

/-- `onRustEvents`: the copies go to the receiver the user data names. -/
def onRustEvents {ι : Type} (receiver : Option ι) (call : Call RsEvent) :
    Option (Option (ι × List RustEvent)) := copyOut (copyEvent decode) receiver call

/-- `onFileResults`. -/
def onFileResults {ι : Type} (receiver : Option ι) (call : Call RsFsResult) :
    Option (Option (ι × List FsResult)) := copyOut (copyFsResult decode) receiver call

/-- `onExecResults`. -/
def onExecResults {ι : Type} (receiver : Option ι) (call : Call RsExecResult) :
    Option (Option (ι × List ExecResult)) := copyOut (copyExecResult decode) receiver call

/-- The emitter's call, if there is one, is answered by the callback. -/
def deliver {κ β ι : Type} (emitted : Option (Option (Call κ)))
    (callback : Call κ → Option (Option (ι × List β))) : Option (Option (ι × List β)) :=
  emitted.bind fun call =>
    match call with
    | none => some none
    | some call => callback call

/-! ## §4. What should arrive. -/

variable (text : Text → QString)

/-- What should arrive of an event. -/
def RustEvent.of : SessionEvent → RustEvent
  | .stateChanged s => { kind := .stateChanged, state := s, code := .ok, data := [], message := [] }
  | .data bytes => { kind := .data, state := .idle, code := .ok, data := bytes, message := [] }
  | .error code message => {
      kind := .error, state := .idle, code := code, data := [], message := text message.toList }
  | .hostKeyPrompt fingerprint => {
      kind := .hostKeyPrompt, state := .idle, code := .ok, data := []
      message := text fingerprint.toList }

/-- What should arrive of an entry. -/
def FsEntry.of (e : FileEntry) : FsEntry :=
  -- The permission bits are not copied.
  { name := text e.name, path := text e.path, kind := mapKind e.kind, size := e.size
    modified := e.modifiedUnix, editable := e.editableText }

/-- What should arrive of a file result. -/
def FsResult.of (r : FileResult) : FsResult :=
  match r.payload with
  | .listing entries => {
      requestId := r.requestId, kind := .listing, entries := entries.map (FsEntry.of text)
      data := [], errorCode := .ok, message := [] }
  | .content bytes => {
      requestId := r.requestId, kind := .content, entries := [], data := bytes
      errorCode := .ok, message := [] }
  | .ok => {
      requestId := r.requestId, kind := .ok, entries := [], data := []
      errorCode := .ok, message := [] }
  | .error code message => {
      requestId := r.requestId, kind := .error, entries := [], data := []
      errorCode := code, message := text message.toList }

/-- What should arrive of a command's result. -/
def ExecResult.of (r : Core.ExecResult) : ExecResult :=
  match r.payload with
  | .output output => {
      requestId := r.requestId, kind := .output, stdoutData := output.stdout
      stderrData := output.stderr, exitStatus := output.exitStatus, errorCode := .ok
      message := [] }
  | .error code message => {
      requestId := r.requestId, kind := .error, stdoutData := [], stderrData := []
      exitStatus := -1, errorCode := code, message := text message.toList }

/-- Every batch that is not empty arrives at its receiver, record for record and in its order, with
the strings turned into `text`. -/
structure Carries (ι : Type) : Prop where
  events : ∀ (receiver : ι) (events : List SessionEvent), events ≠ [] →
    deliver (emitBatch true events) (onRustEvents decode (some receiver))
      = some (some (receiver, events.map (RustEvent.of text)))
  files : ∀ (receiver : ι) (results : List FileResult), results ≠ [] →
    deliver (emitFileResults true results) (onFileResults decode (some receiver))
      = some (some (receiver, results.map (FsResult.of text)))
  execs : ∀ (receiver : ι) (results : List Core.ExecResult), results ≠ [] →
    deliver (emitTaskResults true results) (onExecResults decode (some receiver))
      = some (some (receiver, results.map (ExecResult.of text)))

/-! ## §5. One record. -/

/-- An array with its own length is read as it is. -/
theorem readArray_self {α : Type} (items : List α) : readArray items items.length = some items := by
  rw [readArray, if_pos (Nat.le_refl _), List.take_length]

/-- A buffer with its own length is copied as it is. -/
theorem copyBytes_self (bytes : List UInt8) : copyBytes (some bytes) bytes.length = some bytes := by
  unfold copyBytes
  dsimp only
  split
  · exact readArray_self bytes
  · next hnone =>
    have hlength : bytes.length = 0 := by omega
    rw [List.eq_nil_of_length_eq_zero hlength]

/-- A C string is read up to its terminator. -/
theorem cstr_asPtr (s : CString) : cstr (s.bytes ++ [0]) = some s.bytes := by
  have hall : ∀ b ∈ s.bytes, decide (b ≠ 0) = true := by
    intro b hb
    rw [decide_eq_true_iff]
    exact fun heq => s.noNul (heq ▸ hb)
  rw [cstr, if_pos (List.mem_append_right _ List.mem_cons_self),
    List.takeWhile_append_of_pos hall]
  rw [show ([0] : List UInt8).takeWhile (· ≠ 0) = [] from rfl, List.append_nil]

/-- Records that are all copied are posted. -/
theorem copyOut_callback {κ β ι : Type} {copy : κ → Option β} {cs : List κ} {bs : List β}
    (h : cs.mapM copy = some bs) (receiver : ι) :
    deliver (some (callback true cs)) (copyOut copy (some receiver))
      = some (some (receiver, bs)) := by
  show (readArray cs cs.length).bind _ = _
  rw [readArray_self, Option.bind_some, h]
  rfl

section
variable {decode text} (hdecode : ∀ s : Text, decode (utf8 (replaceNul s)) = text s)
include hdecode

/-- **One string.** -/
theorem copyString_asPtr (s : Text) : copyString decode (toCString s).asPtr = some (text s) := by
  show (cstr ((toCString s).bytes ++ [0])).map decode = _
  rw [cstr_asPtr, toCString_bytes, Option.map_some, hdecode]

/-- **One session event.** -/
theorem stores_event (ev : SessionEvent) :
    Stores (fun b r => (eventOf b r).bind (copyEvent decode)) (recordOf ev)
      (RustEvent.of text ev) := by
  cases ev with
  | stateChanged s => exact .of_pure fun _ => rfl
  | data bytes =>
    refine (stores_pushBytes bytes).map Record.data fun b i hi => ?_
    simp only [eventOf, hi, Option.map_some, Option.bind_some, copyEvent, copyBytes_self]
    rfl
  | error code message =>
    refine (stores_pushCString message.toList).map (Record.error code) fun b i hi => ?_
    simp only [eventOf, hi, Option.map_some, Option.bind_some, copyEvent,
      copyString_asPtr hdecode]
    rfl
  | hostKeyPrompt fingerprint =>
    refine (stores_pushCString fingerprint.toList).map Record.hostKey fun b i hi => ?_
    simp only [eventOf, hi, Option.map_some, Option.bind_some, copyEvent,
      copyString_asPtr hdecode]
    rfl

/-- An entry goes through both passes and the copy. -/
theorem stores_entry (e : FileEntry) :
    Stores (fun b r => (entryOf b r).bind (copyEntry decode)) (entryIdx e) (FsEntry.of text e) := by
  refine ((stores_pushCString e.name).both (stores_pushCString e.path)).map
    (fun i => EntryIdx.mk i.1 i.2 (mapKind e.kind) e.size e.modifiedUnix e.mode e.editableText)
    fun b i hi => ?_
  obtain ⟨name, hname, hrest⟩ := Option.bind_eq_some_iff.mp hi
  obtain ⟨path, hpath, heq⟩ := Option.map_eq_some_iff.mp hrest
  obtain ⟨rfl, rfl⟩ := Prod.mk.inj heq
  simp only [entryOf, hname, hpath, Option.bind_some, Option.map_some, copyEntry,
    copyString_asPtr hdecode]
  rfl

/-- **One file result**, with all of its entries. -/
theorem stores_fileResult (r : FileResult) :
    Stores (fun b rec => ((entryArray b rec).bind (fsResultOf b rec)).bind (copyFsResult decode))
      (fileRec r) (FsResult.of text r) := by
  obtain ⟨id, payload⟩ := r
  cases payload with
  | listing entries =>
    refine (Stores.list (stores_entry hdecode) entries).map (fun idxs => (id, FileRec.listing idxs))
      fun b idxs hidxs => ?_
    -- the array of this result alone, and what is copied from it
    rw [← mapM_bind_mapM] at hidxs
    obtain ⟨array, harray, hcopied⟩ := Option.bind_eq_some_iff.mp hidxs
    simp only [entryArray, harray, Option.bind_some, fsResultOf, copyFsResult, readArray_self,
      hcopied, Option.map_some]
    rfl
  | content bytes =>
    refine (stores_pushBytes bytes).map (fun i => (id, FileRec.content i)) fun b i hi => ?_
    simp only [entryArray, fsResultOf, hi, Option.map_some, Option.bind_some, copyFsResult,
      copyBytes_self]
    rfl
  | ok => exact .of_pure fun _ => rfl
  | error code message =>
    refine (stores_pushCString message.toList).map (fun i => (id, FileRec.error code i))
      fun b i hi => ?_
    simp only [entryArray, fsResultOf, hi, Option.map_some, Option.bind_some, copyFsResult,
      copyString_asPtr hdecode]
    rfl

/-- **One command result.** -/
theorem stores_execResult (r : Core.ExecResult) :
    Stores (fun b rec => (execResultOf b rec).bind (copyExecResult decode)) (execRec r)
      (ExecResult.of text r) := by
  obtain ⟨id, payload⟩ := r
  cases payload with
  | output output =>
    refine ((stores_pushBytes output.stdout).both (stores_pushBytes output.stderr)).map
      (fun i => (id, ExecRec.output i.1 i.2 output.exitStatus)) fun b i hi => ?_
    obtain ⟨stdout, hstdout, hrest⟩ := Option.bind_eq_some_iff.mp hi
    obtain ⟨stderr, hstderr, heq⟩ := Option.map_eq_some_iff.mp hrest
    obtain ⟨rfl, rfl⟩ := Prod.mk.inj heq
    simp only [execResultOf, hstdout, hstderr, Option.bind_some, Option.map_some, copyExecResult,
      copyBytes_self, copyString]
    rfl
  | error code message =>
    refine (stores_pushCString message.toList).map (fun i => (id, ExecRec.error code i))
      fun b i hi => ?_
    simp only [execResultOf, hi, Option.map_some, Option.bind_some, copyExecResult,
      copyBytes, copyString_asPtr hdecode]
    rfl

/-! ## §6. Batches. -/

/-- **Whole batches**: what the decoder makes of the strings is all that changes. -/
theorem carries_of_decodes (ι : Type) : Carries decode text ι where
  events := by
    intro receiver events hne
    obtain ⟨cs, hcs, hcopied⟩ := Stores.carry (stores_event hdecode) events .empty
    unfold emitBatch
    rw [if_neg hne]
    dsimp only
    rw [hcs]
    exact copyOut_callback hcopied receiver
  files := by
    intro receiver results hne
    obtain ⟨cs, hcs, hcopied⟩ := Stores.carry (stores_fileResult hdecode) results .empty
    -- the second pass finds the arrays of the first one by position
    obtain ⟨arrays, harrays⟩ := exists_mapM_of_bind _ _ hcs
    unfold emitFileResults
    rw [if_neg hne]
    dsimp only
    rw [harrays, Option.bind_some, mapM_zipIdx _ _ harrays, hcs]
    exact copyOut_callback hcopied receiver
  execs := by
    intro receiver results hne
    obtain ⟨cs, hcs, hcopied⟩ := Stores.carry (stores_execResult hdecode) results .empty
    unfold emitTaskResults
    rw [if_neg hne]
    dsimp only
    rw [hcs]
    exact copyOut_callback hcopied receiver

end

/-- The characters, with a question mark for each NUL. -/
def arrived (s : Text) : QString := (replaceNul s).flatMap utf16

/-- **Batches are carried faithfully** by a decoder that gives the characters. -/
theorem batches_carried {decode : List UInt8 → QString}
    (hdecode : ∀ s : Text, decode (utf8 s) = s.flatMap utf16) (ι : Type) :
    Carries decode arrived ι :=
  carries_of_decodes (fun s => hdecode (replaceNul s)) ι

theorem batches_carried_decodeUtf8 : Carries (decodeUtf8 0) arrived Nat :=
  batches_carried decodeUtf8_utf8 Nat

/-- **Qt's own decoder** carries the batches too, but for a byte order mark at the beginning of a
string. -/
theorem carries_fromUtf8 (ι : Type) :
    Carries fromUtf8 (fun s =>
      (if (replaceNul s).head? = some byteOrderMark then (replaceNul s).tail
        else replaceNul s).flatMap utf16) ι :=
  carries_of_decodes (fun s => fromUtf8_utf8 (replaceNul s)) ι

/-! ## §7. What the controller reads. -/

/-- The controller looks at the fields that the kind makes valid. -/
def RustEvent.seen (ev : RustEvent) : App.RustEvent :=
  match ev.kind with
  | .stateChanged => .stateChanged ev.state
  | .data => .data ev.data
  | .error => .error ev.code ev.message
  | .hostKeyPrompt => .hostKeyPrompt ev.message

/-- The kinds of the header, as the controller tells them apart. -/
def fileKind : RsFileKind → FileKind
  | .file => .file
  | .directory => .directory
  | .symlink => .symlink
  | .other => .other

/-- The kinds correspond. -/
theorem fileKind_mapKind (kind : FileKind) : fileKind (mapKind kind) = kind := by
  cases kind <;> rfl

/-- An entry as the controller reads it. -/
def FsEntry.seen (e : FsEntry) : App.FsEntry :=
  { name := e.name, path := e.path, kind := fileKind e.kind, size := e.size
    modified := e.modified, editable := e.editable }

/-- A file result as the controller reads it. -/
def FsResult.seen (r : FsResult) : App.FsResult where
  requestId := r.requestId
  payload :=
    match r.kind with
    | .listing => .listing (r.entries.map FsEntry.seen)
    | .content => .content r.data
    | .ok => .ok
    | .error => .error r.errorCode r.message

/-- A command's result as the controller reads it. -/
def ExecResult.seen (r : ExecResult) : App.ExecResult :=
  { requestId := r.requestId, isError := r.kind = .error, stdoutData := r.stdoutData
    stderrData := r.stderrData, exitStatus := r.exitStatus, message := r.message }

/-- **A listing as the controller reads it**: its own entries in their order, and each of its own
kind. -/
theorem seen_listing (id : UInt64) (entries : List FileEntry) :
    (FsResult.of text { requestId := id, payload := .listing entries }).seen =
      { requestId := id
        payload := .listing (entries.map fun e =>
          { name := text e.name, path := text e.path, kind := e.kind, size := e.size
            modified := e.modifiedUnix, editable := e.editableText }) } := by
  show App.FsResult.mk id (.listing ((entries.map (FsEntry.of text)).map FsEntry.seen)) = _
  rw [List.map_map]
  congr 2
  refine List.map_congr_left fun e _ => ?_
  show App.FsEntry.mk _ _ (fileKind (mapKind e.kind)) _ _ _ = _
  rw [fileKind_mapKind]
  rfl

/-- What the three callbacks post, as the controller takes it. -/
theorem Carries.posted {decode : List UInt8 → QString} {ι : Type} (h : Carries decode text ι)
    (receiver : ι) :
    (∀ events ≠ [], (deliver (emitBatch true events) (onRustEvents decode (some receiver))).map
        (fun posted => posted.map fun p => Batch.events (p.2.map RustEvent.seen))
      = some (some (.events (events.map fun ev => (RustEvent.of text ev).seen)))) ∧
    (∀ results ≠ [],
      (deliver (emitFileResults true results) (onFileResults decode (some receiver))).map
        (fun posted => posted.map fun p => Batch.files (p.2.map FsResult.seen))
      = some (some (.files (results.map fun r => (FsResult.of text r).seen)))) ∧
    ∀ results ≠ [],
      (deliver (emitTaskResults true results) (onExecResults decode (some receiver))).map
        (fun posted => posted.map fun p => Batch.execs (p.2.map ExecResult.seen))
      = some (some (.execs (results.map fun r => (ExecResult.of text r).seen))) := by
  refine ⟨fun events hne => ?_, fun results hne => ?_, fun results hne => ?_⟩
  · rw [h.events receiver events hne, Option.map_some, Option.map_some, List.map_map]
    rfl
  · rw [h.files receiver results hne, Option.map_some, Option.map_some, List.map_map]
    rfl
  · rw [h.execs receiver results hne, Option.map_some, Option.map_some, List.map_map]
    rfl

end RustCoreBridge

end ResearchSSH.App
