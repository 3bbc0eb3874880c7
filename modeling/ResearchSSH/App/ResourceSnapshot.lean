/-
  ResearchSSH.App.ResourceSnapshot — what the output of the snapshot command is read as.

  The lines between the markers are read one after another.  A marker line says which section
  follows; every section has rows of its own form, and a row that does not have it is passed over.

  Main results:
    * `cpuLine_words`    — a line of five words is matched.
    * `comm_of_cpuLine`  — what is captured for a name is one word.
    * `foldl_section`    — the lines of a section, row by row.
-/

import ResearchSSH.App.Numerals
import ResearchSSH.App.ProcessGroups

namespace ResearchSSH.App

open ResearchSSH.Library

/-! ## §1. Records. -/

/-- A device of the snapshot, the processor or a graphics card. -/
structure ResourceDevice where
  id : QString
  kind : QString
  name : QString
  utilization : Int
  memoryUsed : Int
  memoryTotal : Int
  deriving DecidableEq, Repr

/-- A job; `place` stands for the key `where`. -/
structure ResourceJob where
  id : QString
  partition : QString
  name : QString
  user : QString
  state : QString
  time : QString
  nodes : QString
  place : QString
  deriving DecidableEq, Repr

/-- A mounted file system. -/
structure ResourceDisk where
  filesystem : QString
  size : QString
  used : QString
  available : QString
  percent : Int
  mount : QString
  deriving DecidableEq, Repr

/-- What the resource pane is given. -/
structure ResourceSnapshot where
  devices : List ResourceDevice
  processes : List ResourceProcess
  jobs : List ResourceJob
  disks : List ResourceDisk
  deriving DecidableEq, Repr

/-! ## §2. The body. -/

namespace Snapshot

/-- The line the snapshot begins with. -/
def beginMarker : QString := lit "__RSSH_RESOURCE_BEGIN__"

/-- The line before the processes of the graphics cards. -/
def processesMarker : QString := lit "__RSSH_RESOURCE_PROCESSES__"

/-- The line before the processes of `ps`. -/
def cpuMarker : QString := lit "__RSSH_RESOURCE_CPU__"

/-- The line before the jobs of `squeue`. -/
def jobsMarker : QString := lit "__RSSH_RESOURCE_JOBS__"

/-- The line before the file systems of `df`. -/
def diskMarker : QString := lit "__RSSH_RESOURCE_DISK__"

/-- The line the snapshot ends with. -/
def endMarker : QString := lit "__RSSH_RESOURCE_END__"

end Snapshot

open Snapshot

/-- Carriage return and line feed. -/
def isLineEnd (u : QChar) : Bool := u == 0x0d || u == 0x0a

/-- `lineEqualsMarker`: blanks around the marker do not count. -/
def lineEqualsMarker (line marker : QString) : Bool := trimmed line == marker

/-- The lines between the first begin marker and the first end marker behind it. -/
def extractMarkedBody (text : QString) : Option QString :=
  match (splitRuns isLineEnd text).dropWhile fun line => !lineEqualsMarker line beginMarker with
  | [] => none
  | _ :: rest =>
    if rest.any (lineEqualsMarker · endMarker) then
      some (join (rest.takeWhile fun line => !lineEqualsMarker line endMarker) (lit "\n"))
    else none

/-! ## §3. Rows. -/

/-- The parts of a row; every part is trimmed where it is used. -/
def commaParts (line : QString) : List QString := cells isSpace (· == 0x2c) line

/-- The cells of a line of `squeue` or `df`, trimmed. -/
def barParts (line : QString) : List QString := cells isSpace (· == 0x7c) line

/-- What a card is shown as. -/
def gpuLabel (index : QString) : QString := arg (lit "GPU %1") [index]

/-- A row of the device section: the uuid, if it has one, and the device. -/
def parseGpu (line : QString) : Option (QString × ResourceDevice) :=
  let parts := commaParts line
  let size := parts.length
  if size < 5 then none
  else
    let hasUuid := decide (6 ≤ size) && startsWith (parts.getD 1 []) (lit "GPU-")
    let nameStart := if hasUuid then 2 else 1
    (toInt (parts.getD (size - 3) [])).bind fun util =>
    (toInt (parts.getD (size - 2) [])).bind fun used =>
    (toInt (parts.getD (size - 1) [])).bind fun total =>
      some (if hasUuid then parts.getD 1 [] else [],
        { id := gpuLabel (parts.getD 0 [])
          kind := lit "GPU"
          name := join ((parts.take (size - 3)).drop nameStart) (lit ", ")
          utilization := clampPercent (.ofRat util)
          memoryUsed := used
          memoryTotal := total })

/-- A process of a card; one of a card without a device has its unique id for a label. -/
def parseGpuProcess (labels : QString → Option QString) (line : QString) :
    Option ResourceProcess :=
  let parts := commaParts line
  let size := parts.length
  if size < 3 then none
  else
    let hasDevice := decide (4 ≤ size)
    let device := if hasDevice then parts.getD 0 [] else lit "GPU"
    some
      { pid := if hasDevice then parts.getD 1 [] else parts.getD 0 []
        user := lit "-"
        name := join ((parts.take (size - 1)).drop (if hasDevice then 2 else 1)) (lit ", ")
        device := (labels device).getD device
        cpu := 0
        memory := 0
        gpuMemory := (toInt (parts.getD (size - 1) [])).getD 0 }

/-- A job, if the line has cells enough. -/
def parseJob (line : QString) : Option ResourceJob :=
  match barParts line with
  | id :: partition :: name :: user :: state :: time :: nodes :: place :: _ =>
    some { id := id, partition := partition, name := name, user := user, state := state
           time := time, nodes := nodes, place := place }
  | _ => none

/-- A file system, if the line has cells enough; a share that is no number counts as 0. -/
def parseDisk (line : QString) : Option ResourceDisk :=
  match barParts line with
  | filesystem :: size :: used :: available :: pctText :: mount :: _ =>
    let digits := if endsWith pctText (lit "%") then pctText.dropLast else pctText
    some { filesystem := filesystem, size := size, used := used, available := available
           percent := ((toInt digits).map fun percent : Int => clampPercent (.ofRat percent)).getD 0
           mount := mount }
  | _ => none

/-! ## §4. The pattern of a process. -/

/-- `\s`. -/
def isPatternSpace (u : QChar) : Bool := u == 0x20 || (9 ≤ u && u ≤ 0xd)

/-- `\d`. -/
def isPatternDigit (u : QChar) : Bool := 0x30 ≤ u && u ≤ 0x39

/-- `[0-9.]`. -/
def isPatternNumeral (u : QChar) : Bool := isPatternDigit u || u == 0x2e

/-- One or more units of a class, as many as there are.  No unit of a class is one of the next class
in the pattern, so none is ever given back. -/
def takeRun (p : QChar → Bool) (s : QString) : Option (QString × QString) :=
  if s.takeWhile p = [] then none else some (s.takeWhile p, s.dropWhile p)

/-- What the groups of the pattern capture. -/
structure CpuLine where
  pid : QString
  user : QString
  comm : QString
  pcpu : QString
  pmem : QString
  deriving DecidableEq, Repr

/-- `^\s*(\d+)\s+(\S+)\s+(\S+)\s+([0-9.]+)\s+([0-9.]+)\s*$` -/
def cpuLine (line : QString) : Option CpuLine := do
  let (pid, rest) ← takeRun isPatternDigit (line.dropWhile isPatternSpace)
  let (_, rest) ← takeRun isPatternSpace rest
  let (user, rest) ← takeRun (!isPatternSpace ·) rest
  let (_, rest) ← takeRun isPatternSpace rest
  let (comm, rest) ← takeRun (!isPatternSpace ·) rest
  let (_, rest) ← takeRun isPatternSpace rest
  let (pcpu, rest) ← takeRun isPatternNumeral rest
  let (_, rest) ← takeRun isPatternSpace rest
  let (pmem, rest) ← takeRun isPatternNumeral rest
  if rest.dropWhile isPatternSpace = [] then
    some { pid := pid, user := user, comm := comm, pcpu := pcpu, pmem := pmem }
  else none

/-- A process of `ps`, as it is shown. -/
def CpuLine.process (m : CpuLine) : ResourceProcess :=
  { pid := m.pid, user := m.user, name := m.comm, device := lit "CPU"
    cpu := clampPercent (toDouble m.pcpu)
    memory := clampPercent (toDouble m.pmem)
    gpuMemory := 0 }

/-! ## §5. The sections. -/

/-- The part of the output that is being read. -/
inductive Section
  | gpuDevices
  | gpuProcesses
  | cpuProcesses
  | jobs
  | disks
  deriving DecidableEq, Repr

/-- The device that stands for the processor. -/
def cpuDevice (cpuTotal memTotal : Binary64) : ResourceDevice :=
  { id := lit "CPU", kind := lit "CPU", name := lit "Top process load"
    utilization := clampPercent cpuTotal
    memoryUsed := clampPercent memTotal
    memoryTotal := 100 }

/-- The variables of `parseResourceSnapshot`. -/
structure SnapshotState where
  part : Section
  devices : List ResourceDevice
  processes : List ResourceProcess
  jobs : List ResourceJob
  disks : List ResourceDisk
  cpuTotal : Binary64
  memTotal : Binary64
  gpuUuidToLabel : QString → Option QString

namespace SnapshotState

/-- Nothing is read yet. -/
def initial : SnapshotState :=
  { part := .gpuDevices, devices := [], processes := [], jobs := [], disks := []
    cpuTotal := .finite 0, memTotal := .finite 0, gpuUuidToLabel := fun _ => none }

variable (st : SnapshotState)

/-- A card, and the label its processes will have. -/
def addDevice (uuid : QString) (device : ResourceDevice) : SnapshotState :=
  { st with
    devices := st.devices ++ [device]
    gpuUuidToLabel :=
      if uuid = [] then st.gpuUuidToLabel
      else Function.update st.gpuUuidToLabel uuid (some device.id) }

/-- A process of a card. -/
def addProcess (process : ResourceProcess) : SnapshotState :=
  { st with processes := st.processes ++ [process] }

/-- A process of `ps`, which also counts for the processor's sums. -/
def addCpuLine (m : CpuLine) : SnapshotState :=
  { st with
    cpuTotal := st.cpuTotal + toDouble m.pcpu
    memTotal := st.memTotal + toDouble m.pmem
    processes := st.processes ++ [m.process] }

/-- A job. -/
def addJob (job : ResourceJob) : SnapshotState := { st with jobs := st.jobs ++ [job] }

/-- A file system. -/
def addDisk (disk : ResourceDisk) : SnapshotState := { st with disks := st.disks ++ [disk] }

/-- A row of the section. -/
def readRow (line : QString) : SnapshotState :=
  match st.part with
  | .gpuDevices => (parseGpu line).elim st fun (uuid, device) => st.addDevice uuid device
  | .gpuProcesses => (parseGpuProcess st.gpuUuidToLabel line).elim st st.addProcess
  | .cpuProcesses => (cpuLine line).elim st st.addCpuLine
  | .jobs => (parseJob line).elim st st.addJob
  | .disks => (parseDisk line).elim st st.addDisk

/-- A trimmed line. -/
def readLine (line : QString) : SnapshotState :=
  if line = [] ∨ line = beginMarker then st
  else if line = processesMarker then { st with part := .gpuProcesses }
  else if line = cpuMarker then { st with part := .cpuProcesses }
  else if line = jobsMarker then { st with part := .jobs }
  else if line = diskMarker then { st with part := .disks }
  else if startsWith line (lit "PID ") then st
  else st.readRow line

/-- What was read, the processor as the first device. -/
def snapshot : ResourceSnapshot :=
  { devices := cpuDevice st.cpuTotal st.memTotal :: st.devices
    processes := st.processes, jobs := st.jobs, disks := st.disks }

end SnapshotState

/-- What `parseResourceSnapshot` shows; `none` where the markers are not complete. -/
def parseResourceSnapshot (text : QString) : Option ResourceSnapshot :=
  (extractMarkedBody text).map fun body =>
    (((splitLines body).map trimmed).foldl SnapshotState.readLine .initial).snapshot

/-! ## §6. Lines that the pattern matches. -/

section
variable {p : QChar → Bool} {w rest : QString}

/-- A run ends where a character is not of the kind. -/
theorem takeRun_append (hne : w ≠ []) (hw : ∀ u ∈ w, p u = true)
    (hrest : ∀ u, rest.head? = some u → p u = false) : takeRun p (w ++ rest) = some (w, rest) := by
  have hstop : rest.takeWhile p = [] ∧ rest.dropWhile p = rest := by
    cases rest with
    | nil => exact ⟨rfl, rfl⟩
    | cons u rest =>
      have hu : ¬ p u = true := by
        rw [hrest u rfl]
        exact Bool.false_ne_true
      exact ⟨List.takeWhile_cons_of_neg hu, List.dropWhile_cons_of_neg hu⟩
  unfold takeRun
  rw [List.takeWhile_append_of_pos hw, List.dropWhile_append_of_pos hw, hstop.1, hstop.2,
    List.append_nil, if_neg hne]

/-- What a run consists of. -/
theorem takeRun_spec {s taken : QString} (h : takeRun p s = some (taken, rest)) :
    taken ≠ [] ∧ ∀ u ∈ taken, p u = true := by
  unfold takeRun at h
  split at h
  · cases h
  · next hne =>
    rw [Option.some.injEq, Prod.mk.injEq] at h
    rw [← h.1]
    exact ⟨hne, fun u hu => List.mem_takeWhile_imp hu⟩

end

/-- One or more units, none of them a space of the pattern. -/
def Word (s : QString) : Prop := s ≠ [] ∧ ∀ u ∈ s, isPatternSpace u = false

/-- One or more spaces. -/
def Gap (s : QString) : Prop := s ≠ [] ∧ ∀ u ∈ s, isPatternSpace u = true

instance (s : QString) : Decidable (Word s) := @instDecidableAnd _ _ _ (List.decidableBAll _ s)

/-- A text of digits and points. -/
def NumeralText (s : QString) : Prop := s ≠ [] ∧ ∀ u ∈ s, isPatternNumeral u = true

section
variable {pid user comm pcpu pmem g₁ g₂ g₃ g₄ rest : QString}

/-- A gap begins with a blank. -/
theorem Gap.head (h : Gap g₁) {u : QChar} (hu : (g₁ ++ rest).head? = some u) :
    isPatternSpace u = true := by
  obtain ⟨v, g, rfl⟩ := List.exists_cons_of_ne_nil h.1
  rw [List.cons_append, List.head?_cons, Option.some.injEq] at hu
  rw [← hu]
  exact h.2 v List.mem_cons_self

/-- A word does not begin with a blank. -/
theorem Word.head (h : Word user) {u : QChar} (hu : (user ++ rest).head? = some u) :
    isPatternSpace u = false := by
  obtain ⟨v, w, rfl⟩ := List.exists_cons_of_ne_nil h.1
  rw [List.cons_append, List.head?_cons, Option.some.injEq] at hu
  rw [← hu]
  exact h.2 v List.mem_cons_self

/-- A numeral is made of digits and points. -/
theorem bounds_of_numeral {u : QChar} (h : isPatternNumeral u = true) :
    0x2e ≤ u.toNat ∧ u.toNat ≤ 0x39 := by
  unfold isPatternNumeral isPatternDigit at h
  simp only [Bool.and_eq_true, Bool.or_eq_true, decide_eq_true_eq, beq_iff_eq,
    UInt16.le_iff_toNat_le, ← UInt16.toNat_inj] at h
  simp only [UInt16.reduceToNat] at h
  omega

/-- No blank is in a numeral. -/
theorem isSpace_of_numeral {u : QChar} (h : isPatternNumeral u = true) : isSpace u = false := by
  obtain ⟨hlow, hhigh⟩ := bounds_of_numeral h
  exact not_space_of_bounds (by omega) (by omega)

/-- The spaces of the pattern are among those that are trimmed. -/
theorem isSpace_of_patternSpace {u : QChar} (h : isPatternSpace u = true) : isSpace u = true := by
  unfold isSpace isSeparatorSpace
  obtain hblank | hcontrol := Bool.or_eq_true_iff.mp h
  · rw [beq_iff_eq.mp hblank]
    rfl
  · rw [hcontrol]
    rfl

/-- A blank is in no numeral. -/
theorem not_numeral_of_space {u : QChar} (h : isPatternSpace u = true) :
    isPatternNumeral u = false := by
  by_contra hnumeral
  have hnot := isSpace_of_numeral (Bool.eq_true_of_not_eq_false hnumeral)
  rw [isSpace_of_patternSpace h] at hnot
  cases hnot

/-- A numeral is a word. -/
theorem NumeralText.word (h : NumeralText pcpu) : Word pcpu := by
  refine ⟨h.1, fun u hu => ?_⟩
  by_contra hspace
  have hnot := not_numeral_of_space (Bool.eq_true_of_not_eq_false hspace)
  rw [h.2 u hu] at hnot
  cases hnot

/-- **A line of five words is matched.** -/
theorem cpuLine_words (hpid : pid ≠ []) (hdigits : ∀ u ∈ pid, isPatternDigit u = true)
    (huser : Word user) (hcomm : Word comm) (hpcpu : NumeralText pcpu) (hpmem : NumeralText pmem)
    (h₁ : Gap g₁) (h₂ : Gap g₂) (h₃ : Gap g₃) (h₄ : Gap g₄) :
    cpuLine (pid ++ (g₁ ++ (user ++ (g₂ ++ (comm ++ (g₃ ++ (pcpu ++ (g₄ ++ pmem))))))))
      = some { pid := pid, user := user, comm := comm, pcpu := pcpu, pmem := pmem } := by
  have hnumeral : NumeralText pid := by
    refine ⟨hpid, fun u hu => ?_⟩
    unfold isPatternNumeral
    rw [hdigits u hu, Bool.true_or]
  have hstart : ∀ t : QString, (pid ++ t).dropWhile isPatternSpace = pid ++ t := by
    intro t
    obtain ⟨u, w, rfl⟩ := List.exists_cons_of_ne_nil hpid
    rw [List.cons_append, List.dropWhile_cons_of_neg]
    rw [hnumeral.word.2 u List.mem_cons_self]
    exact Bool.false_ne_true
  have hgap : ∀ {g t : QString}, Gap g → ∀ u, (g ++ t).head? = some u →
      isPatternNumeral u = false := fun hg _ hu => not_numeral_of_space (hg.head hu)
  have hdigit : ∀ {u}, isPatternNumeral u = false → isPatternDigit u = false := by
    intro u hu
    unfold isPatternNumeral at hu
    exact (Bool.or_eq_false_iff.mp hu).1
  have hword : ∀ {g t : QString}, Gap g → ∀ u, (g ++ t).head? = some u →
      (!isPatternSpace u) = false := by
    intro g t hg u hu
    rw [hg.head hu]
    rfl
  have hunits : ∀ {w : QString}, Word w → ∀ u ∈ w, (!isPatternSpace u) = true := by
    intro w hw u hu
    rw [hw.2 u hu]
    rfl
  have hlast : takeRun isPatternNumeral pmem = some (pmem, []) := by
    have happ := takeRun_append hpmem.1 hpmem.2 fun u (hu : ([] : QString).head? = some u) => by
      cases hu
    rwa [List.append_nil] at happ
  have hpmemHead : ∀ u, pmem.head? = some u → isPatternSpace u = false := fun u hu =>
    hpmem.word.2 u (List.mem_of_head? hu)
  -- every run of the pattern ends where the next one begins
  unfold cpuLine
  rw [hstart, takeRun_append hpid hdigits fun u hu => hdigit (hgap h₁ u hu)]
  simp only [Option.bind_eq_bind, Option.bind_some]
  rw [takeRun_append h₁.1 h₁.2 fun _ hu => huser.head hu]
  simp only [Option.bind_some]
  rw [takeRun_append huser.1 (hunits huser) (hword h₂)]
  simp only [Option.bind_some]
  rw [takeRun_append h₂.1 h₂.2 fun _ hu => hcomm.head hu]
  simp only [Option.bind_some]
  rw [takeRun_append hcomm.1 (hunits hcomm) (hword h₃)]
  simp only [Option.bind_some]
  rw [takeRun_append h₃.1 h₃.2 fun _ hu => hpcpu.word.head hu]
  simp only [Option.bind_some]
  rw [takeRun_append hpcpu.1 hpcpu.2 (hgap h₄)]
  simp only [Option.bind_some]
  rw [takeRun_append h₄.1 h₄.2 hpmemHead]
  simp only [Option.bind_some]
  rw [hlast]
  rfl

/-- What is captured for a name is one word. -/
theorem comm_of_cpuLine {line : QString} {m : CpuLine} (h : cpuLine line = some m) :
    Word m.comm := by
  unfold cpuLine at h
  simp only [Option.bind_eq_bind, Option.bind_eq_some_iff, Prod.exists] at h
  obtain ⟨_, _, _, _, _, _, _, _, _, _, _, _, comm, _, hcomm, _, _, _, _, _, _, _, _, _, _, _, _, hm⟩ :=
    h
  obtain ⟨hne, hunits⟩ := takeRun_spec hcomm
  split at hm
  · rw [Option.some.injEq] at hm
    rw [← hm]
    exact ⟨hne, fun u hu => by simpa using hunits u hu⟩
  · cases hm

end

/-! ## §7. The lines of a section. -/

/-- A trimmed line that is no marker. -/
def Ordinary (line : QString) : Prop :=
  line ≠ [] ∧ line ∉ [beginMarker, processesMarker, cpuMarker, jobsMarker, diskMarker, endMarker]

/-- Lines that begin like the header of `ps` are passed over in every section. -/
def unlessHeader {β : Type} (parse : QString → Option β) (line : QString) : Option β :=
  if startsWith line (lit "PID ") then none else parse line

namespace SnapshotState

variable {st : SnapshotState} {line : QString} {lines : List QString}

/-- A line that is no marker is a row, unless it is the header of `ps`. -/
theorem readLine_ordinary (h : Ordinary line) :
    st.readLine line = if startsWith line (lit "PID ") then st else st.readRow line := by
  obtain ⟨hne, hmarkers⟩ := h
  simp only [List.mem_cons, List.not_mem_nil, or_false, not_or] at hmarkers
  obtain ⟨hbegin, hprocesses, hcpu, hjobs, hdisk, _⟩ := hmarkers
  unfold readLine
  rw [if_neg (not_or.mpr ⟨hne, hbegin⟩), if_neg hprocesses, if_neg hcpu, if_neg hjobs,
    if_neg hdisk]

/-- **The lines of a section, row by row.** -/
theorem foldl_section {β : Type} (I : SnapshotState → Prop) (parse : QString → Option β)
    (add : SnapshotState → β → SnapshotState)
    (hread : ∀ st line, I st → st.readRow line = (parse line).elim st (add st))
    (hadd : ∀ st x, I st → I (add st x)) (hst : I st) (hlines : ∀ line ∈ lines, Ordinary line) :
    lines.foldl readLine st = (lines.filterMap (unlessHeader parse)).foldl add st := by
  induction lines generalizing st with
  | nil => rfl
  | cons line lines ih =>
    have hrest : ∀ line ∈ lines, Ordinary line := fun l hl => hlines l (List.mem_cons_of_mem _ hl)
    rw [List.foldl_cons, readLine_ordinary (hlines line List.mem_cons_self), List.filterMap_cons]
    unfold unlessHeader
    by_cases hheader : startsWith line (lit "PID ") = true
    · rw [if_pos hheader, if_pos hheader]
      exact ih hst hrest
    · rw [if_neg hheader, if_neg hheader, hread st line hst]
      cases parse line with
      | none => exact ih hst hrest
      | some x => exact ih (hadd st x hst) hrest

/-- Appending to one field, again and again. -/
theorem foldl_field {β : Type} (get : SnapshotState → List β)
    (set : SnapshotState → List β → SnapshotState) (hget : ∀ st l, get (set st l) = l)
    (hset : ∀ st l l', set (set st l) l' = set st l') (hself : ∀ st, set st (get st) = st)
    (xs : List β) (st : SnapshotState) :
    xs.foldl (fun st x => set st (get st ++ [x])) st = set st (get st ++ xs) := by
  induction xs generalizing st with
  | nil => rw [List.append_nil, hself, List.foldl_nil]
  | cons x xs ih => rw [List.foldl_cons, ih, hset, hget, List.append_assoc, List.singleton_append]

/-- The labels of the devices, by their uuids. -/
def addLabels (labels : QString → Option QString) (gpus : List (QString × ResourceDevice)) :
    QString → Option QString :=
  gpus.foldl (fun labels gpu =>
    if gpu.1 = [] then labels else Function.update labels gpu.1 (some gpu.2.id)) labels

/-- The sums of the two columns. -/
def addTotals (sums : Binary64 × Binary64) (ms : List CpuLine) : Binary64 × Binary64 :=
  ms.foldl (fun sums m => (sums.1 + toDouble m.pcpu, sums.2 + toDouble m.pmem)) sums

section
variable (hlines : ∀ line ∈ lines, Ordinary line)

include hlines

/-- The rows of the cards. -/
theorem foldl_gpuDevices (hpart : st.part = .gpuDevices) :
    lines.foldl readLine st =
      { st with
        devices := st.devices ++ (lines.filterMap (unlessHeader parseGpu)).map Prod.snd
        gpuUuidToLabel :=
          addLabels st.gpuUuidToLabel (lines.filterMap (unlessHeader parseGpu)) } := by
  have hread : ∀ (st : SnapshotState) (line : QString), st.part = .gpuDevices →
      st.readRow line = (parseGpu line).elim st fun gpu => st.addDevice gpu.1 gpu.2 := by
    intro st line hst
    unfold readRow
    rw [hst]
  rw [foldl_section (·.part = .gpuDevices) parseGpu _ hread (fun _ _ h => h) hpart hlines]
  generalize lines.filterMap (unlessHeader parseGpu) = gpus
  clear hpart hlines
  induction gpus generalizing st with
  | nil =>
    rw [List.map_nil, List.append_nil]
    rfl
  | cons gpu gpus ih =>
    rw [List.foldl_cons, ih, List.map_cons, ← List.singleton_append, ← List.append_assoc]
    rfl

/-- The rows of the cards' processes. -/
theorem foldl_gpuProcesses (hpart : st.part = .gpuProcesses) :
    lines.foldl readLine st =
      { st with processes := st.processes
          ++ lines.filterMap (unlessHeader (parseGpuProcess st.gpuUuidToLabel)) } := by
  generalize hlabels : st.gpuUuidToLabel = labels
  have hread : ∀ (st : SnapshotState) (line : QString),
      st.part = .gpuProcesses ∧ st.gpuUuidToLabel = labels →
      st.readRow line = (parseGpuProcess labels line).elim st st.addProcess := by
    rintro st line ⟨hst, rfl⟩
    unfold readRow
    rw [hst]
  rw [foldl_section _ (parseGpuProcess labels) addProcess hread (fun _ _ h => h) ⟨hpart, hlabels⟩
    hlines, ← hlabels]
  exact foldl_field processes (fun st l => { st with processes := l }) (fun _ _ => rfl)
    (fun _ _ _ => rfl) (fun _ => rfl) _ st

/-- The rows of `ps`. -/
theorem foldl_cpuProcesses (hpart : st.part = .cpuProcesses) :
    lines.foldl readLine st =
      { st with
        processes := st.processes ++ (lines.filterMap (unlessHeader cpuLine)).map CpuLine.process
        cpuTotal :=
          (addTotals (st.cpuTotal, st.memTotal) (lines.filterMap (unlessHeader cpuLine))).1
        memTotal :=
          (addTotals (st.cpuTotal, st.memTotal) (lines.filterMap (unlessHeader cpuLine))).2 } := by
  have hread : ∀ (st : SnapshotState) (line : QString), st.part = .cpuProcesses →
      st.readRow line = (cpuLine line).elim st st.addCpuLine := by
    intro st line hst
    unfold readRow
    rw [hst]
  rw [foldl_section (·.part = .cpuProcesses) cpuLine _ hread (fun _ _ h => h) hpart hlines]
  generalize lines.filterMap (unlessHeader cpuLine) = ms
  clear hpart hlines
  induction ms generalizing st with
  | nil =>
    rw [List.map_nil, List.append_nil]
    rfl
  | cons m ms ih =>
    rw [List.foldl_cons, ih, List.map_cons, ← List.singleton_append, ← List.append_assoc]
    rfl

/-- The rows of the jobs. -/
theorem foldl_jobs (hpart : st.part = .jobs) :
    lines.foldl readLine st =
      { st with jobs := st.jobs ++ lines.filterMap (unlessHeader parseJob) } := by
  have hread : ∀ (st : SnapshotState) (line : QString), st.part = .jobs →
      st.readRow line = (parseJob line).elim st st.addJob := by
    intro st line hst
    unfold readRow
    rw [hst]
  rw [foldl_section (·.part = .jobs) parseJob _ hread (fun _ _ h => h) hpart hlines]
  exact foldl_field jobs (fun st l => { st with jobs := l }) (fun _ _ => rfl) (fun _ _ _ => rfl)
    (fun _ => rfl) _ st

/-- The rows of the file systems. -/
theorem foldl_disks (hpart : st.part = .disks) :
    lines.foldl readLine st =
      { st with disks := st.disks ++ lines.filterMap (unlessHeader parseDisk) } := by
  have hread : ∀ (st : SnapshotState) (line : QString), st.part = .disks →
      st.readRow line = (parseDisk line).elim st st.addDisk := by
    intro st line hst
    unfold readRow
    rw [hst]
  rw [foldl_section (·.part = .disks) parseDisk _ hread (fun _ _ h => h) hpart hlines]
  exact foldl_field disks (fun st l => { st with disks := l }) (fun _ _ => rfl) (fun _ _ _ => rfl)
    (fun _ => rfl) _ st

end

/-- A line that names a section. -/
theorem readLine_marker (st : SnapshotState) :
    st.readLine processesMarker = { st with part := .gpuProcesses }
      ∧ st.readLine cpuMarker = { st with part := .cpuProcesses }
      ∧ st.readLine jobsMarker = { st with part := .jobs }
      ∧ st.readLine diskMarker = { st with part := .disks } := by
  unfold readLine
  refine ⟨?_, ?_, ?_, ?_⟩
  · rw [if_neg (by decide), if_pos rfl]
  · rw [if_neg (by decide), if_neg (by decide), if_pos rfl]
  · rw [if_neg (by decide), if_neg (by decide), if_neg (by decide), if_pos rfl]
  · rw [if_neg (by decide), if_neg (by decide), if_neg (by decide), if_neg (by decide), if_pos rfl]

end SnapshotState

/-- **The lines of a body.**  Five sections of ordinary lines, with their marker lines. -/
theorem foldl_readLine {gpus gpuProcesses processes jobs disks : List QString}
    (h : ∀ line ∈ gpus ++ gpuProcesses ++ processes ++ jobs ++ disks, Ordinary line) :
    ((gpus ++ processesMarker :: (gpuProcesses ++ cpuMarker :: (processes ++
        jobsMarker :: (jobs ++ diskMarker :: disks)))).foldl SnapshotState.readLine .initial).snapshot
      = let devices := gpus.filterMap (unlessHeader parseGpu)
        let matched := processes.filterMap (unlessHeader cpuLine)
        let sums := SnapshotState.addTotals (.finite 0, .finite 0) matched
        { devices := cpuDevice sums.1 sums.2 :: devices.map Prod.snd
          processes := gpuProcesses.filterMap (unlessHeader
              (parseGpuProcess (SnapshotState.addLabels (fun _ => none) devices)))
            ++ matched.map CpuLine.process
          jobs := jobs.filterMap (unlessHeader parseJob)
          disks := disks.filterMap (unlessHeader parseDisk) } := by
  simp only [List.forall_mem_append] at h
  obtain ⟨⟨⟨⟨hgpus, hgpuProcesses⟩, hprocesses⟩, hjobs⟩, hdisks⟩ := h
  rw [List.foldl_append, SnapshotState.foldl_gpuDevices hgpus rfl, List.foldl_cons,
    (SnapshotState.readLine_marker _).1, List.foldl_append,
    SnapshotState.foldl_gpuProcesses hgpuProcesses rfl, List.foldl_cons,
    (SnapshotState.readLine_marker _).2.1, List.foldl_append,
    SnapshotState.foldl_cpuProcesses hprocesses rfl, List.foldl_cons,
    (SnapshotState.readLine_marker _).2.2.1, List.foldl_append,
    SnapshotState.foldl_jobs hjobs rfl, List.foldl_cons,
    (SnapshotState.readLine_marker _).2.2.2, SnapshotState.foldl_disks hdisks rfl]
  rfl

end ResearchSSH.App
