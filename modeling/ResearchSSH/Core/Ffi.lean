/-
  ResearchSSH.Core.Ffi — how batches are laid out for the C callbacks.

  Three emitters do the same for session events, file results and command results: they move all
  strings and bytes of a batch into backing storage, keep the positions at which they lie there,
  and when nothing is moved any more they turn the positions into pointers and fill the C records
  in.  The callback then gets the records and their number.

  A pointer is what lies behind it, up to the end of its buffer; a position behind the end of the
  storage is a panic.  The enumerations of the generated header have the names and numbers of the
  core's own and are the same types here.

  Main results:
    * `toCString_bytes`           — which strings a message can hold.
    * `stores_pushCString`, `stores_pushBytes` — what is moved in is found again.
-/

import ResearchSSH.Core.Event
import ResearchSSH.Library.Store

namespace ResearchSSH.Core

open ResearchSSH.Library

/-! ## §1. Strings. -/

/-- The bytes of a string. -/
def utf8 (s : Text) : List UInt8 := s.flatMap String.utf8EncodeChar

/-- `s.replace('\0', "?")`. -/
def replaceNul (s : Text) : Text := s.map fun c => if c = '\x00' then '?' else c

/-- Bytes without a NUL; behind a pointer to them stands one. -/
structure CString where
  bytes : List UInt8
  noNul : (0 : UInt8) ∉ bytes

namespace CString

/-- `CString::new`; `none` where a NUL is inside. -/
def new (bytes : List UInt8) : Option CString :=
  if h : (0 : UInt8) ∉ bytes then some ⟨bytes, h⟩ else none

/-- The empty text. -/
def empty : CString := ⟨[], List.not_mem_nil⟩

end CString

/-- `CString::new(s.replace('\0', "?")).unwrap_or_default()`. -/
def toCString (s : Text) : CString := (CString.new (utf8 (replaceNul s))).getD .empty

/-- Only the character NUL has a NUL among its bytes. -/
theorem zero_mem_utf8EncodeChar {c : Char} :
    (0 : UInt8) ∈ String.utf8EncodeChar c ↔ c = '\x00' := by
  have hzero : ∀ n : Nat, (0 : UInt8) = UInt8.ofNat n ↔ n % 256 = 0 := by
    intro n
    rw [← UInt8.toNat_inj, UInt8.toNat_ofNat']
    exact eq_comm
  have hchar : c = '\x00' ↔ c.val.toNat = 0 := by
    rw [Char.ext_iff, ← UInt32.toNat_inj]
    rfl
  rw [hchar]
  unfold String.utf8EncodeChar
  dsimp only
  -- every byte of a longer sequence has its high bit set
  split
  · rw [List.mem_singleton, hzero]
    omega
  · split
    · simp only [List.mem_cons, List.not_mem_nil, or_false, hzero]
      omega
    · split
      · simp only [List.mem_cons, List.not_mem_nil, or_false, hzero]
        omega
      · simp only [List.mem_cons, List.not_mem_nil, or_false, hzero]
        omega

/-- No null byte is left once null characters are replaced. -/
theorem zero_notMem_utf8 (s : Text) : (0 : UInt8) ∉ utf8 (replaceNul s) := by
  intro hmem
  obtain ⟨c, hc, hzero⟩ := List.mem_flatMap.mp hmem
  obtain ⟨d, _, rfl⟩ := List.mem_map.mp hc
  rw [zero_mem_utf8EncodeChar] at hzero
  revert hzero
  split
  · decide
  · next hne => exact hne

/-- **No string is lost**: once the NULs are replaced, every string can be handed over. -/
theorem toCString_bytes (s : Text) : (toCString s).bytes = utf8 (replaceNul s) := by
  rw [toCString, CString.new, dif_pos (zero_notMem_utf8 s)]
  rfl

/-! ## §2. Records. -/

/-- What lies behind a pointer, or `none` where it is null. -/
abbrev Ptr (α : Type) := Option (List α)

/-- `as_ptr`: the bytes and the terminator behind them. -/
def CString.asPtr (s : CString) : Ptr UInt8 := some (s.bytes ++ [0])

/-- `RsEventKind`. -/
inductive RsEventKind
  | stateChanged | data | error | hostKeyPrompt
  deriving DecidableEq, Repr

/-- `RsEvent`; a null pointer is `none`. -/
structure RsEvent where
  kind : RsEventKind
  state : RsSessionState
  errorCode : RsErrorCode
  data : Ptr UInt8
  dataLen : Nat
  message : Ptr UInt8
  deriving DecidableEq, Repr

/-- `RsFileKind`. -/
inductive RsFileKind
  | file | directory | symlink | other
  deriving DecidableEq, Repr

/-- `RsFileEntry`. -/
structure RsFileEntry where
  name : Ptr UInt8
  path : Ptr UInt8
  kind : RsFileKind
  size : UInt64
  modifiedUnix : Int64
  mode : UInt32
  editableText : Bool
  deriving DecidableEq, Repr

/-- `RsFsResultKind`. -/
inductive RsFsResultKind
  | listing | content | ok | error
  deriving DecidableEq, Repr

/-- `RsFsResult`. -/
structure RsFsResult where
  requestId : UInt64
  kind : RsFsResultKind
  entries : Ptr RsFileEntry
  entryCount : Nat
  data : Ptr UInt8
  dataLen : Nat
  errorCode : RsErrorCode
  message : Ptr UInt8
  deriving DecidableEq, Repr

/-- `RsExecResultKind`. -/
inductive RsExecResultKind
  | output | error
  deriving DecidableEq, Repr

/-- `RsExecResult`. -/
structure RsExecResult where
  requestId : UInt64
  kind : RsExecResultKind
  stdoutData : Ptr UInt8
  stdoutLen : Nat
  stderrData : Ptr UInt8
  stderrLen : Nat
  exitStatus : Int32
  errorCode : RsErrorCode
  message : Ptr UInt8
  deriving DecidableEq, Repr

/-- The arguments of a callback. -/
structure Call (α : Type) where
  records : Ptr α
  count : Nat
  deriving DecidableEq, Repr

/-! ## §3. Backing storage. -/

/-- `cstrings` and `byte_bufs`; `emit_batch` calls them `msg_backing` and `data_backing`. -/
structure Backing where
  cstrings : List CString
  byteBufs : List (List UInt8)

namespace Backing

/-- Nothing is stored. -/
def empty : Backing := { cstrings := [], byteBufs := [] }

/-- A text is stored; its index is kept, for the storage may still move. -/
def pushCString (s : Text) (b : Backing) : Nat × Backing :=
  let cstrings := b.cstrings ++ [toCString s]
  (cstrings.length - 1, { b with cstrings := cstrings })

/-- A buffer is stored; its index is kept. -/
def pushBytes (bytes : List UInt8) (b : Backing) : Nat × Backing :=
  let byteBufs := b.byteBufs ++ [bytes]
  (byteBufs.length - 1, { b with byteBufs := byteBufs })

/-- Storage is only added to. -/
instance : Preorder Backing where
  le a b := a.cstrings <+: b.cstrings ∧ a.byteBufs <+: b.byteBufs
  le_refl _ := ⟨List.prefix_rfl, List.prefix_rfl⟩
  le_trans _ _ _ h h' := ⟨h.1.trans h'.1, h.2.trans h'.2⟩

end Backing

/-- The position of an item that is moved in, in every longer list. -/
theorem getElem?_push {α : Type} {items more : List α} {a : α} (h : items ++ [a] <+: more) :
    more[(items ++ [a]).length - 1]? = some a := by
  obtain ⟨rest, rfl⟩ := h
  rw [List.length_append, List.length_singleton, Nat.add_sub_cancel, List.append_assoc,
    List.getElem?_append_right (Nat.le_refl _), Nat.sub_self]
  rfl

/-- A text that is stored stays where it is. -/
theorem stores_pushCString (s : Text) :
    Stores (fun b i => b.cstrings[i]?) (Backing.pushCString s) (toCString s) where
  grows := fun b => ⟨List.prefix_append b.cstrings [toCString s], List.prefix_rfl⟩
  found := fun _ _ h => getElem?_push h.1

/-- A buffer that is stored stays where it is. -/
theorem stores_pushBytes (bytes : List UInt8) :
    Stores (fun b i => b.byteBufs[i]?) (Backing.pushBytes bytes) bytes where
  grows := fun b => ⟨List.prefix_rfl, List.prefix_append b.byteBufs [bytes]⟩
  found := fun _ _ h => getElem?_push h.2

/-! ## §4. Session events. -/

/-- A session event with positions for its string or bytes. -/
inductive Record
  | state (s : RsSessionState)
  | data (i : Nat)
  | error (code : RsErrorCode) (i : Nat)
  | hostKey (i : Nat)

/-- First pass: the payload of an event goes to the storage. -/
def recordOf : SessionEvent → Backing → Record × Backing
  | .stateChanged s, b => (.state s, b)
  | .data bytes, b =>
    let (i, b) := b.pushBytes bytes
    (.data i, b)
  | .error code message, b =>
    let (i, b) := b.pushCString message.toList
    (.error code i, b)
  | .hostKeyPrompt fingerprint, b =>
    let (i, b) := b.pushCString fingerprint.toList
    (.hostKey i, b)

/-- Second pass: the storage stands still, and indices become pointers. -/
def eventOf (b : Backing) : Record → Option RsEvent
  | .state s => some {
      kind := .stateChanged, state := s, errorCode := .ok
      data := none, dataLen := 0, message := none }
  | .data i => (b.byteBufs[i]?).map fun bytes => {
      kind := .data, state := .idle, errorCode := .ok
      data := some bytes, dataLen := bytes.length, message := none }
  | .error code i => (b.cstrings[i]?).map fun message => {
      kind := .error, state := .idle, errorCode := code
      data := none, dataLen := 0, message := message.asPtr }
  | .hostKey i => (b.cstrings[i]?).map fun message => {
      kind := .hostKeyPrompt, state := .idle, errorCode := .ok
      data := none, dataLen := 0, message := message.asPtr }

/-- The callback is called unless the session is being torn down. -/
def callback {α : Type} (active : Bool) (records : List α) : Option (Call α) :=
  if active then some { records := some records, count := records.length } else none

/-- `FfiEmitter::emit_batch`, up to the call; `none` where it panics. -/
def emitBatch (active : Bool) (events : List SessionEvent) : Option (Option (Call RsEvent)) :=
  if events = [] then some none
  else
    -- Only when nothing is moved any more are there pointers.
    let (records, backing) := storeAll recordOf events .empty
    (records.mapM (eventOf backing)).map (callback active)

/-! ## §5. File results. -/

/-- A directory entry with positions for its strings. -/
structure EntryIdx where
  name : Nat
  path : Nat
  kind : RsFileKind
  size : UInt64
  modifiedUnix : Int64
  mode : UInt32
  editableText : Bool

/-- What the first pass keeps of a file result. -/
inductive FileRec
  | listing (idxs : List EntryIdx)
  | content (i : Nat)
  | ok
  | error (code : RsErrorCode) (i : Nat)

/-- `map_kind`. -/
def mapKind : FileKind → RsFileKind
  | .file => .file
  | .directory => .directory
  | .symlink => .symlink
  | .other => .other

/-- First pass over a listing's entry. -/
def entryIdx (e : FileEntry) (b : Backing) : EntryIdx × Backing :=
  -- Names and paths of all listings, and all messages, lie in the same storage.
  let (name, b) := b.pushCString e.name
  let (path, b) := b.pushCString e.path
  ({ name := name, path := path, kind := mapKind e.kind, size := e.size
     modifiedUnix := e.modifiedUnix, mode := e.mode, editableText := e.editableText }, b)

/-- First pass over a file result. -/
def fileRec (r : FileResult) (b : Backing) : (UInt64 × FileRec) × Backing :=
  match r.payload with
  | .listing entries =>
    let (idxs, b) := storeAll entryIdx entries b
    ((r.requestId, .listing idxs), b)
  | .content bytes =>
    let (i, b) := b.pushBytes bytes
    ((r.requestId, .content i), b)
  | .ok => ((r.requestId, .ok), b)
  | .error code message =>
    let (i, b) := b.pushCString message.toList
    ((r.requestId, .error code i), b)

/-- Second pass over a listing's entry. -/
def entryOf (b : Backing) (e : EntryIdx) : Option RsFileEntry :=
  (b.cstrings[e.name]?).bind fun name => (b.cstrings[e.path]?).map fun path => {
    name := name.asPtr, path := path.asPtr, kind := e.kind, size := e.size
    modifiedUnix := e.modifiedUnix, mode := e.mode, editableText := e.editableText }

/-- The entries of one result; none but a listing has any. -/
def entryArray (b : Backing) : UInt64 × FileRec → Option (List RsFileEntry)
  | (_, .listing idxs) => idxs.mapM (entryOf b)
  | _ => some []

/-- One result, with the entry array at its position. -/
def fsResultOf (b : Backing) : UInt64 × FileRec → List RsFileEntry → Option RsFsResult
  -- The pointer of an empty array is not null either.
  | (id, .listing _), entries => some {
      requestId := id, kind := .listing, entries := some entries, entryCount := entries.length
      data := none, dataLen := 0, errorCode := .ok, message := none }
  | (id, .content i), _ => (b.byteBufs[i]?).map fun bytes => {
      requestId := id, kind := .content, entries := none, entryCount := 0
      data := some bytes, dataLen := bytes.length, errorCode := .ok, message := none }
  | (id, .ok), _ => some {
      requestId := id, kind := .ok, entries := none, entryCount := 0
      data := none, dataLen := 0, errorCode := .ok, message := none }
  | (id, .error code i), _ => (b.cstrings[i]?).map fun message => {
      requestId := id, kind := .error, entries := none, entryCount := 0
      data := none, dataLen := 0, errorCode := code, message := message.asPtr }

/-- `FfiFileEmitter::emit_file_results`, up to the call; `none` where it panics. -/
def emitFileResults (active : Bool) (results : List FileResult) :
    Option (Option (Call RsFsResult)) :=
  if results = [] then some none
  else
    let (recs, backing) := storeAll fileRec results .empty
    -- The entry arrays of all results come first, then the results that point into them.
    (recs.mapM (entryArray backing)).bind fun entryArrays =>
      (recs.zipIdx.mapM fun p => (entryArrays[p.2]?).bind (fsResultOf backing p.1)).map
        (callback active)

/-! ## §6. Command results. -/

/-- What the first pass keeps of a command's result. -/
inductive ExecRec
  | output (stdout stderr : Nat) (exitStatus : Int32)
  | error (code : RsErrorCode) (i : Nat)

/-- First pass over a command's result. -/
def execRec (r : ExecResult) (b : Backing) : (UInt64 × ExecRec) × Backing :=
  match r.payload with
  | .output output =>
    let (stdout, b) := b.pushBytes output.stdout
    let (stderr, b) := b.pushBytes output.stderr
    ((r.requestId, .output stdout stderr output.exitStatus), b)
  | .error code message =>
    let (i, b) := b.pushCString message.toList
    ((r.requestId, .error code i), b)

/-- Second pass over a command's result. -/
def execResultOf (b : Backing) : UInt64 × ExecRec → Option RsExecResult
  | (id, .output stdout stderr exitStatus) =>
    (b.byteBufs[stdout]?).bind fun out => (b.byteBufs[stderr]?).map fun err => {
      requestId := id, kind := .output, stdoutData := some out, stdoutLen := out.length
      stderrData := some err, stderrLen := err.length, exitStatus := exitStatus
      errorCode := .ok, message := none }
  | (id, .error code i) => (b.cstrings[i]?).map fun message => {
      requestId := id, kind := .error, stdoutData := none, stdoutLen := 0
      stderrData := none, stderrLen := 0, exitStatus := -1
      errorCode := code, message := message.asPtr }

/-- `FfiTaskEmitter::emit_task_results`, up to the call; `none` where it panics. -/
def emitTaskResults (active : Bool) (results : List ExecResult) :
    Option (Option (Call RsExecResult)) :=
  if results = [] then some none
  else
    let (recs, backing) := storeAll execRec results .empty
    (recs.mapM (execResultOf backing)).map (callback active)

end ResearchSSH.Core
