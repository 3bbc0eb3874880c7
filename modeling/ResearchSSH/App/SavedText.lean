/-
  ResearchSSH.App.SavedText — a text that is saved, and opened again.

  A save encodes the text in UTF-8 and writes it; an open reads at most the editor's limit, refuses
  what is as long as the limit or does not look like text, and decodes the rest.  A text comes back
  as it was unless it is one of these:  it is too long, has a NUL or too many control characters, is
  not well formed, or begins with a byte order mark.

  Main results:
    * `shownText_toUtf8_iff`   — the texts that are shown as they were encoded.
    * `saved_text_reopens_iff` — save and open, through a session with the in-memory provider.
-/

import ResearchSSH.App.Application
import ResearchSSH.Core.FileService

namespace ResearchSSH.App

open ResearchSSH.Core ResearchSSH.Library RustCoreBridge

/-! ## §1. What an open shows. -/

/-- The text that the pane is given for a file with these bytes. -/
def shownText (data : List UInt8) : Option QString :=
  if AppController.editorReadLimit ≤ data.length then none
  else if AppController.looksLikeTextBuffer data then some (fromUtf8 data) else none

/-- The text that the editor has handed to the pane last, if that is what it did last. -/
def lastLoaded (editor : EditorViewModel) : Option QString :=
  match editor.emitted.getLast? with
  | some (.contentLoaded _ text) => some text
  | _ => none

/-- What the pane is given at the end of an open. -/
def AppController.opens (c : AppController) (path : QString) (payload : FsPayload) :
    Option QString :=
  lastLoaded (c.finishOpen (.plain .editorOpen path none) payload).editor

/-- A file that is refused shows no text. -/
theorem AppController.opens_refused (c : AppController) (path reason notice : QString) :
    lastLoaded (c.refuseOpen path reason notice).editor = none := by
  have hlast : (c.refuseOpen path reason notice).editor.emitted.getLast?
      = some (.openFailed path reason) := by
    show (c.editor.failOpen path reason).emitted.getLast? = _
    unfold EditorViewModel.failOpen
    split
    · exact List.getLast?_concat
    · exact List.getLast?_concat
  unfold lastLoaded
  rw [hlast]

/-- A file that is read shows what passes the check. -/
theorem AppController.opens_content (c : AppController) (path : QString) (data : List UInt8) :
    c.opens path (.content data) = shownText data := by
  unfold opens finishOpen shownText
  dsimp only
  by_cases hlong : editorReadLimit ≤ data.length
  · rw [if_pos hlong, if_pos hlong]
    exact c.opens_refused _ _ _
  · rw [if_neg hlong, if_neg hlong]
    by_cases htext : looksLikeTextBuffer data = true
    · rw [if_pos htext, if_pos htext]
      have hlast : (c.editor.setContent path data).emitted.getLast?
          = some (.contentLoaded path (fromUtf8 data)) := List.getLast?_concat
      show lastLoaded (c.editor.setContent path data) = _
      unfold lastLoaded
      rw [hlast]
    · rw [if_neg htext, if_neg htext]
      exact c.opens_refused _ _ _

/-! ## §2. Bytes of a text. -/

/-- The bytes that `looksLikeTextBuffer` counts. -/
def oddByte (b : UInt8) : Bool := b < 0x20 && b ≠ 0x0a && b ≠ 0x0d && b ≠ 0x09

/-- The characters that are written as such a byte. -/
def oddChar (c : Char) : Bool :=
  c.toNat < 0x20 && c.toNat ≠ 0x0a && c.toNat ≠ 0x0d && c.toNat ≠ 0x09

/-- A character is one byte, or some bytes none of which is ASCII. -/
theorem utf8EncodeChar_cases (c : Char) :
    (c.toNat < 0x80 ∧ String.utf8EncodeChar c = [UInt8.ofNat c.toNat]) ∨
      (0x80 ≤ c.toNat ∧ ∀ b ∈ String.utf8EncodeChar c, 0x80 ≤ b.toNat) := by
  have hvalid : c.toNat < 0xd800 ∨ (0xdfff < c.toNat ∧ c.toNat < 0x110000) := c.valid
  unfold String.utf8EncodeChar
  dsimp only
  rw [show c.val.toNat = c.toNat from rfl]
  generalize c.toNat = v at hvalid ⊢
  by_cases hone : v ≤ 0x7f
  · rw [if_pos hone]
    exact .inl ⟨by omega, rfl⟩
  · rw [if_neg hone]
    refine .inr ⟨by omega, ?_⟩
    split
    · simp only [List.mem_cons, List.not_mem_nil, or_false, forall_eq_or_imp, forall_eq,
        UInt8.toNat_ofNat']
      omega
    · split
      · simp only [List.mem_cons, List.not_mem_nil, or_false, forall_eq_or_imp, forall_eq,
          UInt8.toNat_ofNat']
        omega
      · simp only [List.mem_cons, List.not_mem_nil, or_false, forall_eq_or_imp, forall_eq,
          UInt8.toNat_ofNat']
        omega

/-- The control characters that count as odd. -/
theorem oddByte_ofNat {n : Nat} (h : n < 0x80) : oddByte (UInt8.ofNat n) =
    (n < 0x20 && n ≠ 0x0a && n ≠ 0x0d && n ≠ 0x09) := by
  have hall : ∀ n < 0x80, oddByte (UInt8.ofNat n) =
      (n < 0x20 && n ≠ 0x0a && n ≠ 0x0d && n ≠ 0x09) := by decide
  exact hall n h

/-- Bytes beyond ASCII are not odd. -/
theorem countP_oddByte_utf8 (s : Text) : (utf8 s).countP oddByte = s.countP oddChar := by
  induction s with
  | nil => rfl
  | cons c s ih =>
    rw [utf8, List.flatMap_cons, List.countP_append, List.countP_cons,
      show (s.flatMap String.utf8EncodeChar).countP oddByte = s.countP oddChar from ih, Nat.add_comm]
    congr 1
    obtain ⟨hascii, hbytes⟩ | ⟨hlarge, hbytes⟩ := utf8EncodeChar_cases c
    · rw [hbytes, List.countP_singleton, oddByte_ofNat hascii]
      rfl
    · have hnone : oddChar c = false := by
        have hnot : ¬ c.toNat < 0x20 := by omega
        simp [oddChar, hnot]
      rw [hnone, if_neg Bool.false_ne_true, List.countP_eq_zero]
      intro b hb hodd
      have hbyte := hbytes b hb
      unfold oddByte at hodd
      simp only [Bool.and_eq_true, decide_eq_true_eq, UInt8.lt_iff_toNat_lt] at hodd
      have hsmall : b.toNat < 0x20 := hodd.1.1.1
      omega

/-- The bytes that a character has used up are skipped. -/
theorem hasUtf8Error_skip (ts rest : List UInt8) :
    hasUtf8Error ts.length (ts ++ rest) = hasUtf8Error 0 rest := by
  induction ts with
  | nil => rfl
  | cons t ts ih => exact ih

/-- What is encoded has no error. -/
theorem hasUtf8Error_utf8 (s : Text) : hasUtf8Error 0 (utf8 s) = false := by
  induction s with
  | nil => rfl
  | cons c s ih =>
    obtain ⟨b, ts, hbytes, hstep⟩ := utf8Step_char c
    rw [utf8, List.flatMap_cons, hbytes, List.cons_append, hasUtf8Error, hstep]
    dsimp only
    rw [hasUtf8Error_skip]
    exact ih

/-- Only the null character has a null byte. -/
theorem zero_mem_utf8 (s : Text) : (0 : UInt8) ∈ utf8 s ↔ '\x00' ∈ s := by
  constructor
  · intro hmem
    obtain ⟨c, hc, hzero⟩ := List.mem_flatMap.mp hmem
    rwa [← zero_mem_utf8EncodeChar.mp hzero]
  · exact fun hmem => List.mem_flatMap.mpr ⟨_, hmem, zero_mem_utf8EncodeChar.mpr rfl⟩

/-- **What looks like text**, of what is encoded. -/
theorem looksLikeTextBuffer_utf8 (s : Text) : AppController.looksLikeTextBuffer (utf8 s) = true ↔
    '\x00' ∉ s ∧ s.countP oddChar ≤ (utf8 s).length / 100 := by
  unfold AppController.looksLikeTextBuffer
  rw [hasUtf8Error_utf8]
  by_cases hempty : utf8 s = []
  · have hnil : s = [] := by
      cases s with
      | nil => rfl
      | cons c s =>
        obtain ⟨b, ts, hbytes, -⟩ := utf8Step_char c
        rw [utf8, List.flatMap_cons, hbytes] at hempty
        cases hempty
    rw [if_pos hempty, hnil]
    simp
  · rw [if_neg hempty]
    by_cases hzero : (0 : UInt8) ∈ utf8 s
    · rw [if_pos (List.contains_iff_mem.mpr hzero)]
      simp [(zero_mem_utf8 s).mp hzero]
    · rw [if_neg (by rwa [List.contains_iff_mem])]
      have hnul : '\x00' ∉ s := mt (zero_mem_utf8 s).mpr hzero
      have hcount : (utf8 s).countP (fun b => b < 0x20 && b ≠ 0x0a && b ≠ 0x0d && b ≠ 0x09)
          = s.countP oddChar := countP_oddByte_utf8 s
      dsimp only
      rw [hcount]
      simp [hnul]

/-! ## §3. Texts that come back. -/

/-- A text that an open gives back. -/
structure Savable (text : QString) : Prop where
  /-- No surrogate stands alone. -/
  wellFormed : wellFormed text = true
  unmarked : (toUnicode text).head? ≠ some byteOrderMark
  noNul : '\x00' ∉ toUnicode text
  printable : (toUnicode text).countP oddChar ≤ (toUtf8 text).length / 100
  short : (toUtf8 text).length < AppController.editorReadLimit

/-- The decoder gives the text back unless a surrogate or a mark is lost. -/
theorem fromUtf8_toUtf8_iff (text : QString) : fromUtf8 (toUtf8 text) = text ↔
    wellFormed text = true ∧ (toUnicode text).head? ≠ some byteOrderMark := by
  show fromUtf8 (utf8 (toUnicode text)) = text ↔ _
  rw [fromUtf8_utf8, ← utf16_toUnicode_iff]
  by_cases hmark : (toUnicode text).head? = some byteOrderMark
  · rw [if_pos hmark]
    constructor
    · intro heq
      -- The text would have the characters of its tail.
      have hchars : toUnicode text = (toUnicode text).tail := by
        calc toUnicode text = toUnicode ((toUnicode text).tail.flatMap utf16) := by rw [heq]
          _ = (toUnicode text).tail := toUnicode_utf16 _
      have hlength := congrArg List.length hchars
      obtain ⟨rest, hcons⟩ := List.head?_eq_some_iff.mp hmark
      rw [hcons, List.tail_cons, List.length_cons] at hlength
      omega
    · exact fun h => absurd hmark h.2
  · rw [if_neg hmark]
    exact ⟨fun heq => ⟨heq, hmark⟩, fun h => h.1⟩

/-- **The texts that are shown as they were encoded.** -/
theorem shownText_toUtf8_iff (text : QString) :
    shownText (toUtf8 text) = some text ↔ Savable text := by
  unfold shownText
  have hlooks : AppController.looksLikeTextBuffer (toUtf8 text) = true ↔
      '\x00' ∉ toUnicode text ∧ (toUnicode text).countP oddChar ≤ (toUtf8 text).length / 100 :=
    looksLikeTextBuffer_utf8 (toUnicode text)
  constructor
  · intro hshown
    obtain ⟨hshort, hshown⟩ := Option.ite_none_left_eq_some.mp hshown
    obtain ⟨htext, hsame⟩ := Option.ite_none_right_eq_some.mp hshown
    have hback := (fromUtf8_toUtf8_iff text).mp (Option.some.inj hsame)
    have hplain := hlooks.mp htext
    exact { wellFormed := hback.1, unmarked := hback.2, noNul := hplain.1
            printable := hplain.2, short := Nat.lt_of_not_le hshort }
  · intro h
    rw [if_neg (Nat.not_le.mpr h.short), if_pos (hlooks.mpr ⟨h.noNul, h.printable⟩),
      (fromUtf8_toUtf8_iff text).mpr ⟨h.wellFormed, h.unmarked⟩]

/-- A read of as much as the limit shows what a read of the whole file would show. -/
theorem shownText_cut (data : List UInt8) :
    shownText (MockFs.cut AppController.editorReadLimit.toUInt64 data) = shownText data := by
  have hlimit : AppController.editorReadLimit.toUInt64.toNat = AppController.editorReadLimit := rfl
  unfold MockFs.cut
  split
  · next hcut =>
    rw [hlimit] at hcut ⊢
    unfold shownText
    rw [if_pos (Nat.le_of_lt hcut.2), if_pos]
    rw [List.length_take]
    omega
  · rfl

/-! ## §4. Through the session. -/

/-- **A text that is saved comes back when the file is opened, exactly when it is savable**:
whatever the session goes through, as long as nothing that is carried out in between writes to the
place or to something above it. -/
theorem saved_text_reopens_iff (config : ConnectionConfig) (acts : List MockAction)
    (s : MockSession)
    (hreg : Along MockSession.step MockSession.RegisteredInTime (MockSession.initial config) acts)
    (hrun : exec MockSession.step (MockSession.initial config) acts = some s)
    {pre mid post : List (FsOp × Option FilePayload)} {path text : QString} {payload : FilePayload}
    (hlog : s.driver.fileLog =
      pre ++ (.write (toCore path) (toUtf8 text), some .ok) ::
        (mid ++ (.read (toCore path) AppController.editorReadLimit.toUInt64, some payload) :: post))
    (hmid : ∀ entry ∈ mid, entry.2.isSome = true → entry.1.Spares (toCore path))
    (c : AppController) (requestId : UInt64) :
    c.opens path (FsResult.of decoded { requestId, payload }).seen.payload = some text ↔
      Savable text := by
  rw [(MockSession.served_run hreg hrun).reads_back hlog hmid]
  show c.opens path (.content (MockFs.cut _ (toUtf8 text))) = some text ↔ _
  rw [c.opens_content, shownText_cut, shownText_toUtf8_iff]

/-- A connection, a file that is saved, a directory that is made, and the file that is opened. -/
def savedRun : List MockAction :=
  [.own (.createProvider (.ok ())), .own .setFileEmitter, .own .setTaskEmitter,
    .own (.submit .connect), .own (.submit (.fs 1 (.write (toCore (lit "a")) (toUtf8 (lit "é\n"))))),
    .own (.submit (.fs 2 (.mkdir ['d']))),
    .own (.submit (.fs 3 (.read (toCore (lit "a")) AppController.editorReadLimit.toUInt64))),
    .own .recv, .connectReturns, .own .recv, .fsReturns, .own .recv, .fsReturns,
    .own .recv, .fsReturns]

theorem savedRun_log :
    (exec MockSession.step (MockSession.initial MockSession.exampleHost) savedRun).map
      (fun s => s.driver.fileLog) =
      some ([] ++ (.write (toCore (lit "a")) (toUtf8 (lit "é\n")), some .ok) ::
        ([(.mkdir ['d'], some .ok)] ++
          (.read (toCore (lit "a")) AppController.editorReadLimit.toUInt64,
            some (.content [0xc3, 0xa9, 0x0a])) :: [])) := rfl

theorem savedRun_registered :
    Along MockSession.step MockSession.RegisteredInTime (MockSession.initial MockSession.exampleHost) savedRun := by
  decide +kernel

theorem saved_text_reopens_iff_run :
    AppController.opens (.initial [] fun _ => none) (lit "a")
      (FsResult.of decoded { requestId := 3, payload := .content [0xc3, 0xa9, 0x0a] }).seen.payload
        = some (lit "é\n") ↔ Savable (lit "é\n") := by
  obtain ⟨s, hrun, hlog⟩ := Option.map_eq_some_iff.mp savedRun_log
  have hmid : ∀ entry ∈ [(FsOp.mkdir ['d'], some FilePayload.ok)],
      entry.2.isSome = true → entry.1.Spares (toCore (lit "a")) := by decide
  exact saved_text_reopens_iff MockSession.exampleHost savedRun s savedRun_registered hrun hlog hmid
    (.initial [] fun _ => none) 3

end ResearchSSH.App
