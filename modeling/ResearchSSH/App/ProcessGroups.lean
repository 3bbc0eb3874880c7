/-
  ResearchSSH.App.ProcessGroups — the processes of a snapshot by device.

  The controller collects processes, loads and memory in three hashes by device and makes a group
  of each device, that of the CPU first.  The order in which a hash gives its keys is not
  specified: it is a parameter here.

  Main results:
    * `totals_eq`          — what the three hashes hold.
    * `groups_eq`          — the groups, device by device.
    * `groups_partition`   — the groups are a partition of the processes.
-/

import ResearchSSH.App.QString
import ResearchSSH.Library.Binary64
import ResearchSSH.Library.Tally

namespace ResearchSSH.App

open ResearchSSH.Library

/-! ## §1. Processes and groups. -/

/-- A process, as the snapshot has it. -/
structure ResourceProcess where
  pid : QString
  user : QString
  name : QString
  device : QString
  cpu : Int
  memory : Int
  gpuMemory : Int
  deriving DecidableEq, Repr

/-- The processes of a device with their sums. -/
structure ResourceProcessGroup where
  device : QString
  processes : List ResourceProcess
  count : Nat
  cpu : Int
  gpuMemory : Int
  deriving DecidableEq

/-- The sum of two `int`s, in 32 bits. -/
def addInt (m n : Int) : Int := (m + n).bmod (2 ^ 32)

/-- `clampPercent`: rounded, and between 0 and 100. -/
def clampPercent (value : Binary64) : Int :=
  if value.lt (.finite 0) then 0
  else if (Binary64.finite 100).lt value then 100
  else (value + .finite (1 / 2)).truncate

/-- The device under which a process is listed. -/
def ResourceProcess.group (process : ResourceProcess) : QString :=
  if process.device = [] then lit "CPU" else process.device

/-- The hashes of `rebuildResourceProcessGroups`. -/
structure ProcessTotals where
  buckets : AList fun _ : QString => List ResourceProcess
  cpuTotals : AList fun _ : QString => Binary64
  memoryTotals : AList fun _ : QString => Int

/-- A process is put into the bucket of its device, and its shares are added. -/
def ProcessTotals.add (t : ProcessTotals) (process : ResourceProcess) : ProcessTotals :=
  let device := process.group
  { buckets := t.buckets.insert device ((t.buckets.lookup device).getD [] ++ [process])
    cpuTotals := t.cpuTotals.insert device
      ((t.cpuTotals.lookup device).getD (.finite 0) + .ofRat process.cpu)
    memoryTotals := t.memoryTotals.insert device
      (addInt ((t.memoryTotals.lookup device).getD 0) process.gpuMemory) }

/-- The buckets of all processes. -/
def processTotals (processes : List ResourceProcess) : ProcessTotals :=
  processes.foldl ProcessTotals.add { buckets := ∅, cpuTotals := ∅, memoryTotals := ∅ }

/-- The group of one key. -/
def ProcessTotals.appendGroup (t : ProcessTotals) (groups : List ResourceProcessGroup)
    (device : QString) : List ResourceProcessGroup :=
  match t.buckets.lookup device with
  | none => groups
  | some bucket =>
    groups ++ [{ device := device
                 processes := bucket
                 count := bucket.length
                 cpu := clampPercent ((t.cpuTotals.lookup device).getD (.finite 0))
                 gpuMemory := (t.memoryTotals.lookup device).getD 0 }]

/-- `buckets.keys()`: every key once, in some order. -/
def BucketKeys (processes : List ResourceProcess) : Type :=
  { keys : List QString // keys.Perm (processTotals processes).buckets.keys }

/-- `rebuildResourceProcessGroups`: a group for each key, in the order the hash has them. -/
def rebuildResourceProcessGroups (processes : List ResourceProcess)
    (keys : BucketKeys processes) : List ResourceProcessGroup :=
  let t := processTotals processes
  keys.val.foldl
    (fun groups device => if device = lit "CPU" then groups else t.appendGroup groups device)
    (t.appendGroup [] (lit "CPU"))

/-! ## §2. What the hashes hold. -/

/-- The buckets and the sums, each a tally. -/
theorem totals_eq (processes : List ResourceProcess) : processTotals processes =
    { buckets := tally ResourceProcess.group (fun ps p => ps ++ [p]) [] processes
      cpuTotals := tally ResourceProcess.group (fun x p => x + .ofRat p.cpu) (.finite 0) processes
      memoryTotals := tally ResourceProcess.group (fun n p => addInt n p.gpuMemory) 0 processes } := by
  induction processes using List.reverseRecOn with
  | nil => rfl
  | append_singleton processes p ih =>
    rw [tally_concat, tally_concat, tally_concat]
    unfold processTotals at ih ⊢
    rw [List.foldl_append, ih]
    rfl

/-- The processes of a device, in their order. -/
def processesOf (processes : List ResourceProcess) (device : QString) : List ResourceProcess :=
  processes.filter (·.group = device)

/-- A device has processes if it is one of theirs. -/
theorem processesOf_ne_nil {processes : List ResourceProcess} {device : QString} :
    processesOf processes device ≠ [] ↔ device ∈ processes.map ResourceProcess.group := by
  unfold processesOf
  simp only [ne_eq, List.filter_eq_nil_iff, decide_eq_true_eq, not_forall, not_not, List.mem_map,
    exists_prop]

/-- The bucket of a device holds its processes in their order. -/
theorem lookup_buckets (processes : List ResourceProcess) (device : QString) :
    (processTotals processes).buckets.lookup device =
      if processesOf processes device = [] then none else some (processesOf processes device) := by
  rw [totals_eq]
  refine (lookup_tally processes device).trans ?_
  rw [foldl_concat, List.nil_append]
  by_cases h : processesOf processes device = []
  · rw [if_pos h, if_neg (mt processesOf_ne_nil.mpr (not_not.mpr h))]
  · rw [if_neg h, if_pos (processesOf_ne_nil.mp h)]
    rfl

/-- The group of a device that has processes. -/
def groupOf (processes : List ResourceProcess) (device : QString) : ResourceProcessGroup :=
  { device := device
    processes := processesOf processes device
    count := (processesOf processes device).length
    cpu := clampPercent ((processesOf processes device).foldl (fun x p => x + .ofRat p.cpu)
      (.finite 0))
    gpuMemory := (processesOf processes device).foldl (fun n p => addInt n p.gpuMemory) 0 }

/-- The group of a device is added if it has processes. -/
theorem appendGroup_eq (processes : List ResourceProcess) (groups : List ResourceProcessGroup)
    (device : QString) : (processTotals processes).appendGroup groups device =
      if processesOf processes device = [] then groups
      else groups ++ [groupOf processes device] := by
  unfold ProcessTotals.appendGroup
  rw [lookup_buckets]
  by_cases h : processesOf processes device = []
  · rw [if_pos h, if_pos h]
  · have hmem := processesOf_ne_nil.mp h
    have hcpu : (processTotals processes).cpuTotals.lookup device
        = some ((processesOf processes device).foldl (fun x p => x + .ofRat p.cpu)
            (.finite 0)) := by
      rw [totals_eq]
      exact (lookup_tally processes device).trans (if_pos hmem)
    have hmemory : (processTotals processes).memoryTotals.lookup device
        = some ((processesOf processes device).foldl (fun n p => addInt n p.gpuMemory) 0) := by
      rw [totals_eq]
      exact (lookup_tally processes device).trans (if_pos hmem)
    rw [if_neg h, if_neg h, hcpu, hmemory]
    rfl

/-- The keys are the devices of the processes. -/
theorem mem_keys {processes : List ResourceProcess} (keys : BucketKeys processes)
    {device : QString} :
    device ∈ keys.val ↔ device ∈ processes.map ResourceProcess.group := by
  rw [keys.property.mem_iff, totals_eq]
  exact mem_keys_tally processes device

/-- No key comes twice. -/
theorem nodup_keys {processes : List ResourceProcess} (keys : BucketKeys processes) :
    keys.val.Nodup :=
  keys.property.nodup_iff.mpr (AList.keys_nodup _)

/-! ## §3. The groups. -/

/-- The devices that have a group, in the order of the groups. -/
def groupOrder (processes : List ResourceProcess) (keys : List QString) : List QString :=
  (lit "CPU" :: keys.filter (· ≠ lit "CPU")).filter fun device => processesOf processes device ≠ []

/-- The groups in their order. -/
theorem groups_eq (processes : List ResourceProcess) (keys : BucketKeys processes) :
    rebuildResourceProcessGroups processes keys
      = (groupOrder processes keys.val).map (groupOf processes) := by
  -- the loop over any keys, behind any groups
  have hloop : ∀ (devices : List QString) (groups : List ResourceProcessGroup),
      devices.foldl (fun groups device =>
          if device = lit "CPU" then groups
          else (processTotals processes).appendGroup groups device) groups
        = groups ++ ((devices.filter (· ≠ lit "CPU")).filter
            fun device => processesOf processes device ≠ []).map (groupOf processes) := by
    intro devices
    induction devices with
    | nil => exact fun groups => (List.append_nil groups).symm
    | cons device devices ih =>
      intro groups
      rw [List.foldl_cons, ih, appendGroup_eq]
      by_cases hcpu : device = lit "CPU"
      · simp only [hcpu, if_true, ne_eq, not_true_eq_false, decide_false, Bool.false_eq_true,
          not_false_eq_true, List.filter_cons_of_neg]
      · by_cases hnone : processesOf processes device = []
        · simp only [hcpu, hnone, if_true, if_false, ne_eq, List.filter_cons, not_true_eq_false,
            decide_false, decide_true, not_false_eq_true, Bool.false_eq_true]
        · simp only [hcpu, hnone, if_true, if_false, ne_eq, List.filter_cons, decide_true,
            not_false_eq_true, List.map_cons, List.append_assoc, List.singleton_append]
  unfold rebuildResourceProcessGroups groupOrder
  dsimp only
  rw [hloop, appendGroup_eq]
  by_cases hnone : processesOf processes (lit "CPU") = []
  · rw [if_pos hnone, List.filter_cons_of_neg (by simpa using hnone), List.nil_append]
  · rw [if_neg hnone, List.filter_cons_of_pos (by simpa using hnone)]
    rfl

/-- The order holds all devices. -/
theorem mem_groupOrder {processes : List ResourceProcess} (keys : BucketKeys processes)
    {device : QString} :
    device ∈ groupOrder processes keys.val ↔ device ∈ processes.map ResourceProcess.group := by
  unfold groupOrder
  rw [List.mem_filter, decide_eq_true_eq, processesOf_ne_nil]
  refine and_iff_right_of_imp fun hdevice => ?_
  by_cases hcpu : device = lit "CPU"
  · rw [hcpu]
    exact List.mem_cons_self
  · exact List.mem_cons_of_mem _
      (List.mem_filter.mpr ⟨(mem_keys keys).mpr hdevice, decide_eq_true hcpu⟩)

/-- No device comes twice. -/
theorem nodup_groupOrder {processes : List ResourceProcess} (keys : BucketKeys processes) :
    (groupOrder processes keys.val).Nodup := by
  refine List.Nodup.filter _ (List.nodup_cons.mpr ⟨?_, (nodup_keys keys).filter _⟩)
  intro hmem
  exact of_decide_eq_true (List.mem_filter.mp hmem).2 rfl

/-- The processor comes first. -/
theorem head?_groupOrder {processes : List ResourceProcess} {keys : List QString}
    (h : lit "CPU" ∈ groupOrder processes keys) :
    (groupOrder processes keys).head? = some (lit "CPU") := by
  have hcpu := (List.mem_filter.mp h).2
  unfold groupOrder
  rw [List.filter_cons, if_pos hcpu]
  rfl

/-- Where the CPU is listed, its group is the first one. -/
theorem head?_groups {processes : List ResourceProcess} (keys : BucketKeys processes)
    {g : ResourceProcessGroup} (hg : g ∈ rebuildResourceProcessGroups processes keys)
    (hcpu : g.device = lit "CPU") :
    (rebuildResourceProcessGroups processes keys).head? = some g := by
  rw [groups_eq] at hg ⊢
  obtain ⟨device, hdevice, rfl⟩ := List.mem_map.mp hg
  obtain rfl : device = lit "CPU" := hcpu
  rw [List.head?_map, head?_groupOrder hdevice]
  rfl

/-- **The groups are a partition of the processes**: distinct devices, each with its processes in
their order and their number, none without any, the CPU before all others. -/
theorem groups_partition (processes : List ResourceProcess) (keys : BucketKeys processes) :
    ((rebuildResourceProcessGroups processes keys).map ResourceProcessGroup.device).Nodup
      ∧ ((rebuildResourceProcessGroups processes keys).flatMap ResourceProcessGroup.processes).Perm
          processes
      ∧ (∀ p ∈ processes, ∃ g ∈ rebuildResourceProcessGroups processes keys,
          g.device = if p.device = [] then lit "CPU" else p.device)
      ∧ (∀ g ∈ rebuildResourceProcessGroups processes keys,
          g.processes = processes.filter
              (fun p => (if p.device = [] then lit "CPU" else p.device) = g.device)
            ∧ g.count = g.processes.length ∧ g.processes ≠ [])
      ∧ ∀ g ∈ rebuildResourceProcessGroups processes keys, g.device = lit "CPU" →
          (rebuildResourceProcessGroups processes keys).head? = some g := by
  have hgroups := groups_eq processes keys
  refine ⟨?_, ?_, fun p hp => ?_, fun g hg => ?_, fun g hg => head?_groups keys hg⟩
  · have hdevices : (groupOrder processes keys.val).map
        (ResourceProcessGroup.device ∘ groupOf processes) = groupOrder processes keys.val :=
      List.map_id _
    rw [hgroups, List.map_map, hdevices]
    exact nodup_groupOrder keys
  · rw [hgroups, List.flatMap_map]
    exact perm_flatMap_keys (nodup_groupOrder keys)
      fun p hp => (mem_groupOrder keys).mpr (List.mem_map_of_mem hp)
  · refine ⟨groupOf processes p.group, ?_, rfl⟩
    rw [hgroups]
    exact List.mem_map_of_mem ((mem_groupOrder keys).mpr (List.mem_map_of_mem hp))
  · rw [hgroups] at hg
    obtain ⟨device, hdevice, rfl⟩ := List.mem_map.mp hg
    exact ⟨rfl, rfl, processesOf_ne_nil.mpr ((mem_groupOrder keys).mp hdevice)⟩

end ResearchSSH.App
