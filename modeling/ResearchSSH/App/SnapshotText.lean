/-
  ResearchSSH.App.SnapshotText — a whole snapshot, as it is printed and as it is read.

  The sections follow one another between the markers, with a marker line between two of them.  A
  process on a device has the uuid of the device; it is listed under the label of that device, or
  under the uuid if no such device is.

  Main results:
    * `extractMarkedBody_text` — the body is what stands between the markers.
    * `parse_text`             — what is read, row by row.
    * `snapshot_read_iff`      — nothing is lost exactly if every row is readable.
-/

import ResearchSSH.App.SnapshotRows

namespace ResearchSSH.App

open ResearchSSH.Library
open Snapshot

/-! ## §1. The text. -/

/-- What the commands of the snapshot print. -/
structure PrintedSnapshot where
  gpus : List GpuRow
  gpuProcesses : List GpuProcessRow
  header : Option Gaps
  processes : List PsRow
  jobs : List JobRow
  disks : List DiskRow
  distinct : (gpus.map GpuRow.uuid).Nodup

/-- What stands at the end of every line. -/
abbrev LineEnd : Type := { s : QString // s ≠ [] ∧ ∀ u ∈ s, isLineEnd u = true }

namespace PrintedSnapshot

variable (s : PrintedSnapshot)

/-- The lines of `ps`. -/
def psLines : List QString := s.header.toList.map Gaps.header ++ s.processes.map PsRow.line

/-- The lines between the markers. -/
def body : List QString :=
  s.gpus.map GpuRow.line ++ processesMarker :: (s.gpuProcesses.map GpuProcessRow.line ++
    cpuMarker :: (s.psLines ++ jobsMarker :: (s.jobs.map JobRow.line ++
      diskMarker :: s.disks.map DiskRow.line)))

/-- The snapshot as it is printed, with the line ends of the server. -/
def text (lineEnd : LineEnd) : QString :=
  (beginMarker :: (s.body ++ [endMarker])).flatMap (· ++ lineEnd.val)

/-- The label of the device with a uuid; the uuid if there is none. -/
def labelOf (uuid : GpuUuid) : QString :=
  ((s.gpus.find? fun r => r.uuid = uuid).map GpuRow.label).getD uuid.val

/-- The loads of all processes, added as doubles. -/
def sums : Binary64 × Binary64 :=
  s.processes.foldl (fun sums r => (sums.1 + .ofRat r.pcpu.value, sums.2 + .ofRat r.pmem.value))
    (.finite 0, .finite 0)

/-- **What the snapshot says**: the records of every section in their order, behind the device that
stands for the processor. -/
def snapshot : ResourceSnapshot :=
  { devices := cpuDevice s.sums.1 s.sums.2 :: s.gpus.map GpuRow.device
    processes := s.gpuProcesses.map (fun r => r.process (s.labelOf r.uuid))
      ++ s.processes.map PsRow.process
    jobs := s.jobs.map JobRow.job
    disks := s.disks.map DiskRow.disk }

/-- Every row is readable. -/
def Readable : Prop :=
  (∀ r ∈ s.gpus, r.Readable) ∧ (∀ r ∈ s.gpuProcesses, r.Readable) ∧
    (∀ r ∈ s.processes, r.Readable) ∧ (∀ r ∈ s.jobs, r.Readable) ∧ ∀ r ∈ s.disks, r.Readable

end PrintedSnapshot

/-! ## §2. Rows are no markers. -/

/-- On one line, with a unit that no marker has. -/
def PlainRow (line : QString) : Prop :=
  OneLine line ∧ ∃ u ∈ line, isSpace u = false ∧
    ∀ marker ∈ [beginMarker, processesMarker, cpuMarker, jobsMarker, diskMarker, endMarker],
      u ∉ marker

/-- A plain row is none of the markers. -/
theorem PlainRow.ordinary {line : QString} (h : PlainRow line) : Ordinary (trimmed line) := by
  obtain ⟨_, u, hu, hspace, hmarkers⟩ := h
  have hmem : u ∈ trimmed line := mem_trim hu hspace
  exact ⟨List.ne_nil_of_mem hmem, fun hmarker => hmarkers _ hmarker hmem⟩

/-- A plain row is not empty. -/
theorem PlainRow.ne_nil {line : QString} (h : PlainRow line) : line ≠ [] := by
  obtain ⟨_, u, hu, _⟩ := h
  exact List.ne_nil_of_mem hu

/-- A number has no line end. -/
theorem oneLine_number (n : Nat) : OneLine (number n) := fun _ hu =>
  not_lineEnd_of_not_space (isSpace_of_mem_number hu)

/-- Fields without line ends make one line. -/
theorem oneLine_join {fields : List QString} {gap : QString} (hgap : OneLine gap)
    (h : ∀ f ∈ fields, OneLine f) : OneLine (join fields gap) := by
  intro u hu
  obtain hu | ⟨f, hf, hu⟩ := mem_intercalate hu
  · exact hgap u hu
  · exact h f hf u hu

/-- The gap is in the line. -/
theorem mem_join {f g gap : QString} {fields : List QString} {u : QChar} (hu : u ∈ gap) :
    u ∈ join (f :: g :: fields) gap := by
  unfold join
  rw [List.intercalate_cons_cons]
  exact List.mem_append_left _ (List.mem_append_right _ hu)

/-- A unique id has no line end. -/
theorem oneLine_uuid (uuid : GpuUuid) : OneLine uuid.val := fun u hu =>
  not_lineEnd_of_not_space (uuid.property.2 u hu).1

/-- The row of a card. -/
theorem GpuRow.plain (r : GpuRow) : PlainRow r.line := by
  refine ⟨oneLine_join (by decide) ?_, 0x2c, mem_join (by decide), by decide, by decide⟩
  unfold fields
  simp only [List.forall_mem_cons, List.not_mem_nil, false_implies, implies_true, and_true]
  exact ⟨oneLine_number _, oneLine_uuid _, r.name.property, oneLine_number _, oneLine_number _,
    oneLine_number _⟩

/-- The row of a card's process. -/
theorem GpuProcessRow.plain (r : GpuProcessRow) : PlainRow r.line := by
  refine ⟨oneLine_join (by decide) ?_, 0x2c, mem_join (by decide), by decide, by decide⟩
  unfold fields
  simp only [List.forall_mem_cons, List.not_mem_nil, false_implies, implies_true, and_true]
  exact ⟨oneLine_uuid _, oneLine_number _, r.name.property, oneLine_number _⟩

/-- The row of a job. -/
theorem JobRow.plain (r : JobRow) : PlainRow r.line := by
  refine ⟨oneLine_join (by decide) ?_, 0x7c, mem_join (by decide), by decide, by decide⟩
  unfold fields
  simp only [List.forall_mem_cons, List.not_mem_nil, false_implies, implies_true, and_true]
  exact ⟨r.id.property.1, r.partition.property.1, r.name.property.1, r.user.property.1,
    r.state.property.1, r.time.property.1, r.nodes.property.1, r.place.property.1⟩

/-- The row of a file system. -/
theorem DiskRow.plain (r : DiskRow) : PlainRow r.line := by
  refine ⟨oneLine_join (by decide) ?_, 0x7c, mem_join (by decide), by decide, by decide⟩
  unfold fields
  simp only [List.forall_mem_cons, List.not_mem_nil, false_implies, implies_true, and_true]
  exact ⟨r.filesystem.property.1, r.size.property.1, r.used.property.1, r.available.property.1,
    fun u hu => not_lineEnd_of_not_space (DiskRow.percent_units u hu).2, r.mount.property.1⟩

/-- Columns without line ends make one line. -/
theorem oneLine_columns (g : Gaps) {pid user comm pcpu pmem : QString} (hpid : OneLine pid)
    (huser : OneLine user) (hcomm : OneLine comm) (hpcpu : OneLine pcpu) (hpmem : OneLine pmem) :
    OneLine (g.columns pid user comm pcpu pmem) := by
  have hspaces : ∀ n, OneLine (spaces n) := by
    intro n u hu
    rw [List.eq_of_mem_replicate hu]
    rfl
  unfold Gaps.columns
  intro u hu
  simp only [List.mem_append] at hu
  obtain hu | hu | hu | hu | hu | hu | hu | hu | hu | hu := hu
  · exact hspaces _ u hu
  · exact hpid u hu
  · exact hspaces _ u hu
  · exact huser u hu
  · exact hspaces _ u hu
  · exact hcomm u hu
  · exact hspaces _ u hu
  · exact hpcpu u hu
  · exact hspaces _ u hu
  · exact hpmem u hu

/-- The row of a process. -/
theorem PsRow.plain (r : PsRow) : PlainRow r.line := by
  have hnumeral : ∀ x : Numeral, OneLine x.text := fun x u hu =>
    not_lineEnd_of_not_space (isSpace_of_numeral ((numeralText_text x).2 u hu))
  have huser : OneLine r.user.val := by
    intro u hu
    have hword := r.user.property.2 u hu
    by_contra hend
    rw [Bool.not_eq_false] at hend
    obtain hcr | hlf := Bool.or_eq_true_iff.mp hend
    · rw [beq_iff_eq.mp hcr] at hword
      exact absurd hword (by decide)
    · rw [beq_iff_eq.mp hlf] at hword
      exact absurd hword (by decide)
  obtain ⟨u, digits, hcons⟩ := List.exists_cons_of_ne_nil (number_ne_nil r.pid)
  have hu : u ∈ number r.pid := by
    rw [hcons]
    exact List.mem_cons_self
  refine ⟨oneLine_columns r.gaps (oneLine_number _) huser r.comm.property (hnumeral _) (hnumeral _),
    u, ?_, isSpace_of_mem_number hu, ?_⟩
  · exact List.mem_append_right _ (List.mem_append_left _ hu)
  · intro marker hmarker hmem
    have hdigits : ∀ marker ∈ [beginMarker, processesMarker, cpuMarker, jobsMarker, diskMarker,
        endMarker], marker.all (fun u => (digitOf u).isNone) = true := by decide
    have hnone := List.all_eq_true.mp (hdigits marker hmarker) u hmem
    rw [Option.isNone_iff_eq_none] at hnone
    have hdigit := digitOf_of_mem_number hu
    rw [hnone] at hdigit
    cases hdigit

/-- The header of `ps`. -/
theorem Gaps.plain_header (g : Gaps) : PlainRow g.header := by
  refine ⟨oneLine_columns g (by decide) (by decide) (by decide) (by decide) (by decide), 0x25, ?_,
    by decide, by decide⟩
  unfold header columns
  simp only [List.mem_append]
  exact .inr (.inr (.inr (.inr (.inr (.inr (.inr (.inl (by decide))))))))

/-! ## §3. The lines. -/

namespace PrintedSnapshot

variable {s : PrintedSnapshot}

/-- A line of the body is a marker line or a row. -/
theorem body_cases {line : QString} (h : line ∈ s.body) :
    line ∈ [processesMarker, cpuMarker, jobsMarker, diskMarker] ∨ PlainRow line := by
  unfold body psLines at h
  simp only [List.mem_append, List.mem_cons, List.mem_map] at h
  obtain ⟨r, _, rfl⟩ | rfl | ⟨r, _, rfl⟩ | rfl | (⟨g, _, rfl⟩ | ⟨r, _, rfl⟩) | rfl |
    ⟨r, _, rfl⟩ | rfl | ⟨r, _, rfl⟩ := h
  · exact .inr r.plain
  · exact .inl (by decide)
  · exact .inr r.plain
  · exact .inl (by decide)
  · exact .inr g.plain_header
  · exact .inr r.plain
  · exact .inl (by decide)
  · exact .inr r.plain
  · exact .inl (by decide)
  · exact .inr r.plain

/-- Each line of the body is one line and not the end. -/
theorem body_line {line : QString} (h : line ∈ s.body) :
    line ≠ [] ∧ OneLine line ∧ lineEqualsMarker line endMarker = false := by
  obtain hmarker | hrow := body_cases h
  · have hmarkers : ∀ line ∈ [processesMarker, cpuMarker, jobsMarker, diskMarker],
        line ≠ [] ∧ OneLine line ∧ lineEqualsMarker line endMarker = false := by decide
    exact hmarkers line hmarker
  · refine ⟨hrow.ne_nil, hrow.1, beq_eq_false_iff_ne.mpr fun heq => ?_⟩
    exact hrow.ordinary.2 (by rw [heq]; decide)

/-- **The body is what stands between the markers.** -/
theorem extractMarkedBody_text (lineEnd : LineEnd) :
    extractMarkedBody (s.text lineEnd) = some (join s.body (lit "\n")) := by
  have hlines : splitRuns isLineEnd (s.text lineEnd)
      = beginMarker :: (s.body ++ [endMarker]) ++ [[]] := by
    have hmarkers : OneLine beginMarker ∧ OneLine endMarker := by decide
    refine splitRuns_lines lineEnd.property.2 lineEnd.property.1 fun line hline => ?_
    obtain rfl | hline := List.mem_cons.mp hline
    · exact ⟨by decide, hmarkers.1⟩
    · obtain hline | hline := List.mem_append.mp hline
      · exact ⟨(body_line hline).1, (body_line hline).2.1⟩
      · rw [List.mem_singleton.mp hline]
        exact ⟨by decide, hmarkers.2⟩
  have hbody : ∀ line ∈ s.body, (!lineEqualsMarker line endMarker) = true := fun line hline => by
    rw [(body_line hline).2.2]
    rfl
  unfold extractMarkedBody
  rw [hlines, List.cons_append, List.dropWhile_cons_of_neg (by decide)]
  dsimp only
  rw [if_pos, List.append_assoc, List.takeWhile_append_of_pos hbody, List.singleton_append,
    List.takeWhile_cons_of_neg (by decide), List.append_nil]
  rw [List.any_append, List.any_append]
  have hend : [endMarker].any (lineEqualsMarker · endMarker) = true := by decide
  rw [hend, Bool.or_true, Bool.true_or]

/-- The body is split into its lines. -/
theorem splitLines_body : splitLines (join s.body (lit "\n")) = s.body := by
  have hne : s.body ≠ [] :=
    List.append_ne_nil_of_right_ne_nil _ (List.cons_ne_nil _ _)
  have hsplit : (join s.body (lit "\n")).splitOnP isLineEnd = s.body :=
    splitOnP_intercalate (m := 0x0a) rfl hne fun line hline => (body_line hline).2.1
  unfold splitLines
  refine (congrArg (List.filter (· ≠ [])) hsplit).trans (List.filter_eq_self.mpr ?_)
  exact fun line hline => decide_eq_true (body_line hline).1

/-! ## §4. What is read. -/

/-- The labels of the devices that are read. -/
def readLabels (s : PrintedSnapshot) : QString → Option QString :=
  SnapshotState.addLabels (fun _ => none)
    (s.gpus.filterMap fun r => unlessHeader parseGpu (trimmed r.line))

/-- The processes that are read in the section of the processor. -/
def readProcesses (s : PrintedSnapshot) : List CpuLine :=
  s.processes.filterMap fun r => unlessHeader cpuLine (trimmed r.line)

/-- The line above the columns is passed over. -/
theorem unlessHeader_header (g : Gaps) : unlessHeader cpuLine (trimmed g.header) = none := by
  have hstart : startsWith (trimmed g.header) (lit "PID ") = true := by
    unfold Gaps.header
    have hfirst : ∀ u, (lit "PID").head? = some u → isSpace u = false := by
      intro u hu
      rw [← Option.some.inj hu]
      rfl
    have hlast : ∀ u, (lit "%MEM").getLast? = some u → isSpace u = false := by
      intro u hu
      rw [← Option.some.inj hu]
      rfl
    rw [trimmed_columns g hfirst (by decide) hlast (by decide)]
    exact List.isPrefixOf_iff_prefix.mpr ⟨_, (List.append_assoc (lit "PID") [0x20] _)⟩
  unfold unlessHeader
  rw [if_pos hstart]

/-- **What is read, row by row.** -/
theorem parse_text (lineEnd : LineEnd) : parseResourceSnapshot (s.text lineEnd) = some
    { devices := cpuDevice (SnapshotState.addTotals (.finite 0, .finite 0) s.readProcesses).1
          (SnapshotState.addTotals (.finite 0, .finite 0) s.readProcesses).2
        :: s.gpus.filterMap fun r => (unlessHeader parseGpu (trimmed r.line)).map Prod.snd
      processes :=
        (s.gpuProcesses.filterMap fun r =>
            unlessHeader (parseGpuProcess s.readLabels) (trimmed r.line))
          ++ s.readProcesses.map CpuLine.process
      jobs := s.jobs.filterMap fun r => unlessHeader parseJob (trimmed r.line)
      disks := s.disks.filterMap fun r => unlessHeader parseDisk (trimmed r.line) } := by
  have hmarkers : trimmed processesMarker = processesMarker ∧ trimmed cpuMarker = cpuMarker
      ∧ trimmed jobsMarker = jobsMarker ∧ trimmed diskMarker = diskMarker := by decide
  have hheader : (s.header.toList.filterMap fun g => unlessHeader cpuLine (trimmed g.header)) = [] :=
    List.filterMap_eq_nil_iff.mpr fun g _ => unlessHeader_header g
  unfold parseResourceSnapshot
  rw [extractMarkedBody_text, Option.map_some, splitLines_body]
  unfold body psLines
  simp only [List.map_append, List.map_cons, hmarkers]
  rw [foldl_readLine]
  · unfold readLabels readProcesses
    simp only [List.filterMap_append, List.map_map, List.filterMap_map, List.map_filterMap,
      Function.comp_def, hheader, List.nil_append]
  · have hrows : ∀ line ∈ s.gpus.map GpuRow.line ++ s.gpuProcesses.map GpuProcessRow.line
        ++ (s.header.toList.map Gaps.header ++ s.processes.map PsRow.line) ++ s.jobs.map JobRow.line
        ++ s.disks.map DiskRow.line, PlainRow line := by
      simp only [List.forall_mem_append, List.forall_mem_map]
      exact ⟨⟨⟨⟨fun r _ => r.plain, fun r _ => r.plain⟩, fun g _ => g.plain_header,
        fun r _ => r.plain⟩, fun r _ => r.plain⟩, fun r _ => r.plain⟩
    intro line hline
    simp only [← List.map_append] at hline
    obtain ⟨row, hrow, rfl⟩ := List.mem_map.mp hline
    exact (hrows row hrow).ordinary

/-! ## §5. Nothing is lost. -/

/-- A label is that of the device which has the uuid. -/
theorem lookup_addLabels {gpus : List GpuRow} (hdistinct : (gpus.map GpuRow.uuid).Nodup)
    (labels : QString → Option QString) (uuid : GpuUuid) :
    SnapshotState.addLabels labels (gpus.map fun r => (r.uuid.val, r.device)) uuid.val =
      ((gpus.find? fun r => r.uuid = uuid).map GpuRow.label).or (labels uuid.val) := by
  induction gpus generalizing labels with
  | nil => rfl
  | cons r gpus ih =>
    obtain ⟨hfresh, hrest⟩ := List.nodup_cons.mp hdistinct
    have hne : r.uuid.val ≠ [] := by
      intro hnil
      have hgpu := r.uuid.property.1
      rw [hnil] at hgpu
      exact absurd hgpu (by decide)
    have hstep : SnapshotState.addLabels labels ((r :: gpus).map fun r => (r.uuid.val, r.device))
        = SnapshotState.addLabels (Function.update labels r.uuid.val (some r.label))
            (gpus.map fun r => (r.uuid.val, r.device)) := by
      unfold SnapshotState.addLabels
      rw [List.map_cons, List.foldl_cons, if_neg hne]
      rfl
    rw [hstep, ih hrest, List.find?_cons]
    by_cases huuid : r.uuid = uuid
    · have hnone : (gpus.find? fun r => r.uuid = uuid) = none := by
        rw [List.find?_eq_none]
        intro g hg hsame
        refine hfresh (List.mem_map.mpr ⟨g, hg, ?_⟩)
        exact (of_decide_eq_true hsame).trans huuid.symm
      rw [hnone, decide_eq_true huuid, ← huuid, Function.update_self]
      rfl
    · have hval : uuid.val ≠ r.uuid.val := fun heq => huuid (Subtype.ext heq).symm
      rw [decide_eq_false huuid, Function.update_of_ne hval]

/-- A process finds the label of its card. -/
theorem readLabels_of_readable (h : ∀ r ∈ s.gpus, r.Readable) (uuid : GpuUuid) :
    (s.readLabels uuid.val).getD uuid.val = s.labelOf uuid := by
  have hrows : (s.gpus.filterMap fun r => unlessHeader parseGpu (trimmed r.line))
      = s.gpus.map fun r => (r.uuid.val, r.device) :=
    List.filterMap_eq_map_iff_forall_eq_some.mpr fun r hr => GpuRow.parse_readable (h r hr)
  unfold readLabels labelOf
  rw [hrows, lookup_addLabels s.distinct, Option.or_none]

/-- The processor's sums are those of the rows. -/
theorem totals_of_readable (h : ∀ r ∈ s.processes, r.Readable) :
    SnapshotState.addTotals (.finite 0, .finite 0) s.readProcesses = s.sums := by
  have hrows : s.readProcesses = s.processes.map PsRow.captured :=
    List.filterMap_eq_map_iff_forall_eq_some.mpr fun r hr => PsRow.parse_readable (h r hr)
  unfold SnapshotState.addTotals sums
  rw [hrows, List.foldl_map]
  congr 1
  funext sums r
  unfold PsRow.captured
  dsimp only
  rw [Numeral.toDouble_text, Numeral.toDouble_text]

/-- Every row of a process on a device is read as something. -/
theorem length_gpuProcesses (labels : QString → Option QString) (rows : List GpuProcessRow) :
    (rows.filterMap fun r => unlessHeader (parseGpuProcess labels) (trimmed r.line)).length
      = rows.length := by
  have hall := List.filterMap_eq_map_iff_forall_eq_some.mpr fun (r : GpuProcessRow)
    (_ : r ∈ rows) => r.parse_line labels
  rw [hall, List.length_map]

/-- The cards come back if and only if their rows are readable. -/
theorem gpus_read_iff : (s.gpus.filterMap fun r =>
      (unlessHeader parseGpu (trimmed r.line)).map Prod.snd) = s.gpus.map GpuRow.device ↔
    ∀ r ∈ s.gpus, r.Readable := by
  rw [List.filterMap_eq_map_iff_forall_eq_some]
  exact forall₂_congr fun r _ => GpuRow.read_iff

/-- The cards' processes come back if and only if their rows are readable. -/
theorem gpuProcesses_read_iff (h : ∀ r ∈ s.gpus, r.Readable) :
    (s.gpuProcesses.filterMap fun r =>
        unlessHeader (parseGpuProcess s.readLabels) (trimmed r.line))
      = s.gpuProcesses.map (fun r => r.process (s.labelOf r.uuid)) ↔
    ∀ r ∈ s.gpuProcesses, r.Readable := by
  rw [List.filterMap_eq_map_iff_forall_eq_some]
  refine forall₂_congr fun r _ => ?_
  rw [← readLabels_of_readable h]
  exact GpuProcessRow.read_iff _

/-- The processes come back if and only if their rows are readable. -/
theorem processes_read_iff :
    s.readProcesses.map CpuLine.process = s.processes.map PsRow.process ↔
      ∀ r ∈ s.processes, r.Readable := by
  unfold readProcesses
  rw [List.map_filterMap, List.filterMap_eq_map_iff_forall_eq_some]
  exact forall₂_congr fun r _ => PsRow.read_iff

/-- The jobs come back if and only if their rows are readable. -/
theorem jobs_read_iff : (s.jobs.filterMap fun r => unlessHeader parseJob (trimmed r.line))
    = s.jobs.map JobRow.job ↔ ∀ r ∈ s.jobs, r.Readable := by
  rw [List.filterMap_eq_map_iff_forall_eq_some]
  exact forall₂_congr fun r _ => JobRow.read_iff

/-- The file systems come back if and only if their rows are readable. -/
theorem disks_read_iff : (s.disks.filterMap fun r => unlessHeader parseDisk (trimmed r.line))
    = s.disks.map DiskRow.disk ↔ ∀ r ∈ s.disks, r.Readable := by
  rw [List.filterMap_eq_map_iff_forall_eq_some]
  exact forall₂_congr fun r _ => DiskRow.read_iff

/-- **A snapshot is read as what it says exactly if every row is readable.** -/
theorem snapshot_read_iff (s : PrintedSnapshot) (lineEnd : LineEnd) :
    parseResourceSnapshot (s.text lineEnd) = some s.snapshot ↔ s.Readable := by
  rw [parse_text, Option.some.injEq]
  unfold snapshot Readable
  rw [ResourceSnapshot.mk.injEq, List.cons.injEq, gpus_read_iff, jobs_read_iff, disks_read_iff]
  constructor
  · rintro ⟨⟨_, hgpus⟩, hprocesses, hjobs, hdisks⟩
    obtain ⟨hfirst, hsecond⟩ := List.append_inj hprocesses (by
      rw [length_gpuProcesses, List.length_map])
    exact ⟨hgpus, (gpuProcesses_read_iff hgpus).mp hfirst, processes_read_iff.mp hsecond, hjobs,
      hdisks⟩
  · rintro ⟨hgpus, hgpuProcesses, hprocesses, hjobs, hdisks⟩
    refine ⟨⟨?_, hgpus⟩, ?_, hjobs, hdisks⟩
    · rw [totals_of_readable hprocesses]
    · rw [(gpuProcesses_read_iff hgpus).mpr hgpuProcesses, processes_read_iff.mpr hprocesses]

/-! ## §6. A name of two words. -/

/-- Every comma is followed by one space. -/
def OneSpaced (name : QString) : Prop :=
  ∀ before after, name = before ++ 0x2c :: after →
    ∃ rest, after = 0x20 :: rest ∧ rest.head? ≠ some 0x20

/-- A name without spaces at its ends. -/
def Unpadded (name : QString) : Prop :=
  name ≠ [] ∧ name.head? ≠ some 0x20 ∧ name.getLast? ≠ some 0x20

instance (name : QString) : Decidable (Unpadded name) := inferInstanceAs (Decidable (_ ∧ _ ∧ _))

/-- One process, whose name is two words. -/
def twoWords : PrintedSnapshot :=
  { gpus := [], gpuProcesses := []
    header := some { lead := 4, user := 0, comm := 4, pcpu := 8, pmem := 0 }
    processes := [{ gaps := { lead := 0, user := 0, comm := 0, pcpu := 0, pmem := 0 }
                    pid := 41
                    user := ⟨lit "ana", by decide⟩
                    comm := ⟨lit "tmux: server", by decide⟩
                    pcpu := { whole := 0, tenth := some 3 }
                    pmem := { whole := 1, tenth := some 0 } }]
    jobs := [], disks := [], distinct := List.nodup_nil }

/-- The row does not match the pattern and is passed over. -/
theorem twoWords_lost :
    ¬ ∀ (s : PrintedSnapshot) (lineEnd : LineEnd),
      (∀ r ∈ s.gpus, OneSpaced r.name.val) → (∀ r ∈ s.gpuProcesses, Unpadded r.name.val) →
      (∀ r ∈ s.processes, Unpadded r.comm.val) →
      parseResourceSnapshot (s.text lineEnd) = some s.snapshot := by
  intro h
  have hend : ∀ u ∈ lit "\n", isLineEnd u = true := List.forall_mem_singleton.mpr rfl
  have hread := h twoWords ⟨lit "\n", by decide, hend⟩ nofun nofun (by decide)
  rw [parse_text, Option.some.injEq] at hread
  have hprocesses : twoWords.readProcesses.map CpuLine.process
      = twoWords.processes.map PsRow.process := congrArg ResourceSnapshot.processes hread
  have hword : Word (lit "tmux: server") := processes_read_iff.mp hprocesses _ List.mem_cons_self
  exact absurd hword (by decide)

end PrintedSnapshot

end ResearchSSH.App
