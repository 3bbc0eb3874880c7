/-
  ResearchSSH.App.SnapshotRows — the rows of the snapshot command, and what they are read as.

  Each command prints rows of its own form: fields behind commas, columns, or fields between bars.
  A field may be any text that its command can print, so it may have commas or spaces of its own,
  or be a number that does not fit.

  Main results:
    * `clampPercent_tenths`   — a load is rounded and clamped.
    * `GpuRow.read_iff`, `GpuProcessRow.read_iff`, `PsRow.read_iff`, `JobRow.read_iff`,
      `DiskRow.read_iff`      — which rows are read as what they say.
-/

import Mathlib.Algebra.Order.Round
import ResearchSSH.App.ResourceSnapshot

namespace ResearchSSH.App

open ResearchSSH.Library
open Snapshot

/-! ## §1. Percentages. -/

/-- A number of tenths, and the double next to it. -/
theorem nearest_tenths {k m : ℕ} (hlow : 10 * m ≤ k + 5) (hhigh : k + 5 ≤ 10 * m + 9)
    (hm : m ≤ 100) :
    (m : ℚ) - 1 / 2 ≤ nearest ((k : ℚ) / 10) ∧ nearest ((k : ℚ) / 10) ≤ m + 7 / 16 := by
  have hx : (0 : ℚ) ≤ (k : ℚ) / 10 := by positivity
  have hlow' : (10 : ℚ) * m ≤ k + 5 := by exact_mod_cast hlow
  have hhigh' : (k : ℚ) + 5 ≤ 10 * m + 9 := by exact_mod_cast hhigh
  constructor
  · refine le_nearest ?_ hx (by linarith)
    have hrep := representable_div (2 * m - 1) (k := 1) (by rw [abs_le]; omega) (by norm_num)
    have heq : ((2 * m - 1 : ℤ) : ℚ) / 2 ^ 1 = m - 1 / 2 := by
      push_cast
      ring
    rwa [heq] at hrep
  · refine nearest_le ?_ hx (by linarith)
    have hrep := representable_div (16 * m + 7) (k := 4) (by rw [abs_le]; omega) (by norm_num)
    have heq : ((16 * m + 7 : ℤ) : ℚ) / 2 ^ 4 = m + 7 / 16 := by
      push_cast
      ring
    rwa [heq] at hrep

/-- Tenths are rounded half up. -/
theorem round_tenths (k : ℕ) : round ((k : ℚ) / 10) = ((k + 5) / 10 : ℕ) := by
  have hlow : 10 * ((k + 5) / 10) ≤ k + 5 := by omega
  have hhigh : k + 5 < 10 * ((k + 5) / 10) + 10 := by omega
  rw [round_eq, Int.floor_eq_iff, Int.cast_natCast]
  generalize (k + 5) / 10 = m at hlow hhigh ⊢
  have hlow' : (10 : ℚ) * m ≤ k + 5 := by exact_mod_cast hlow
  have hhigh' : (k : ℚ) + 5 < 10 * m + 10 := by exact_mod_cast hhigh
  constructor <;> linarith

/-- **A load is rounded and clamped**, although it is a double when that is done. -/
theorem clampPercent_tenths (k : ℕ) :
    clampPercent (.ofRat ((k : ℚ) / 10)) = min 100 (round ((k : ℚ) / 10)) := by
  have hx : (0 : ℚ) ≤ (k : ℚ) / 10 := by positivity
  have hpositive : (Binary64.finite (nearest ((k : ℚ) / 10))).lt (.finite 0) = false :=
    decide_eq_false (not_lt.mpr (nearest_nonneg hx))
  have hundred_lt : ∀ v : ℚ, (Binary64.finite 100).lt (.finite v) = decide (100 < v) := fun _ => rfl
  have hhundred : Representable 100 := by
    have hrep := representable_div 100 (k := 0) (by norm_num) (by norm_num)
    norm_num at hrep
    exact hrep
  have hsmall : (100 : ℚ) < 2 ^ 1024 := by
    have hlarge : (2 : ℚ) ^ 7 ≤ 2 ^ 1024 := pow_le_pow_right₀ (by norm_num) (by norm_num)
    exact lt_of_lt_of_le (by norm_num) hlarge
  rw [round_tenths]
  -- below 100: the nearest double lies on the same side of the half as the tenths do
  by_cases hk : k < 1000
  · have hk' : (k : ℚ) / 10 ≤ 100 := by
      have hcast : (k : ℚ) ≤ 999 := by exact_mod_cast Nat.le_of_lt_succ hk
      linarith
    have hle : nearest ((k : ℚ) / 10) ≤ 100 := nearest_le hhundred hx hk'
    have hm : (k + 5) / 10 ≤ 100 := by omega
    obtain ⟨hbelow, habove⟩ := nearest_tenths (k := k) (by omega) (by omega) hm
    have hround : (Binary64.ofRat (nearest ((k : ℚ) / 10) + 1 / 2)).truncate
        = ((k + 5) / 10 : ℕ) := by
      refine Binary64.truncate_ofRat (by omega) (by omega) ?_ ?_
      · rw [Int.cast_natCast]
        linarith
      · rw [Int.cast_natCast]
        linarith
    rw [Binary64.ofRat_of_le hx hhundred hk' hsmall, min_eq_right (by exact_mod_cast hm)]
    unfold clampPercent
    rw [hpositive, if_neg Bool.false_ne_true,
      if_neg (by rw [hundred_lt, decide_eq_true_eq, not_lt]; exact hle)]
    exact hround
  · have hm : 100 ≤ (k + 5) / 10 := by omega
    have hk' : (100 : ℚ) ≤ (k : ℚ) / 10 := by
      have hcast : (1000 : ℚ) ≤ k := by exact_mod_cast Nat.le_of_not_lt hk
      linarith
    rw [min_eq_left (by exact_mod_cast hm)]
    -- from 100 on the cap decides, whatever the nearest double is
    obtain hfinite | hinfinite := Binary64.ofRat_cases hx
    · have hge : 100 ≤ nearest ((k : ℚ) / 10) := le_nearest hhundred hx hk'
      rw [hfinite]
      unfold clampPercent
      rw [hpositive, if_neg Bool.false_ne_true, hundred_lt]
      by_cases hgt : 100 < nearest ((k : ℚ) / 10)
      · rw [if_pos (decide_eq_true hgt)]
      · rw [if_neg (by rwa [decide_eq_true_eq]), le_antisymm (not_lt.mp hgt) hge]
        have hround : (Binary64.ofRat ((100 : ℚ) + 1 / 2)).truncate = 100 :=
          Binary64.truncate_ofRat (by norm_num) (by norm_num) (by norm_num) (by norm_num)
        exact hround
    · rw [hinfinite]
      rfl

/-- An integer is clamped. -/
theorem clampPercent_natCast (n : ℕ) : clampPercent (.ofRat n) = min 100 (n : ℤ) := by
  have htenths := clampPercent_tenths (10 * n)
  have heq : ((10 * n : ℕ) : ℚ) / 10 = n := by
    push_cast
    rw [mul_div_cancel_left₀ _ (by norm_num)]
  rwa [heq, round_natCast] at htenths

/-! ## §2. Fields. -/

/-- A text without a line end. -/
def OneLine (s : QString) : Prop := ∀ u ∈ s, isLineEnd u = false

instance (s : QString) : Decidable (OneLine s) := List.decidableBAll _ s

/-- Any text on one line. -/
abbrev LineText : Type := { s : QString // OneLine s }

/-- Any text on one line that can stand between bars. -/
abbrev BarField : Type := { s : QString // OneLine s ∧ ∀ u ∈ s, (u == 0x7c) = false }

/-- The uuid of a device: one word, without a comma. -/
abbrev GpuUuid : Type :=
  { s : QString // startsWith s (lit "GPU-") = true ∧
    ∀ u ∈ s, isSpace u = false ∧ (u == 0x2c) = false }

/-- The name of a user. -/
abbrev UserName : Type := { s : QString // Word s }

/-- Texts without commas and without spaces at their ends, with a comma and a space between them. -/
def CommaSpaced (name : QString) : Prop := Tidy isSpace (· == 0x2c) (lit ", ") name

/-- A blank is no comma. -/
theorem comma_of_space (u : QChar) (h : isSpace u = true) : (u == 0x2c) = false := by
  rw [beq_eq_false_iff_ne]
  rintro rfl
  exact absurd h (by decide)

/-- A blank is no bar. -/
theorem bar_of_space (u : QChar) (h : isSpace u = true) : (u == 0x7c) = false := by
  rw [beq_eq_false_iff_ne]
  rintro rfl
  exact absurd h (by decide)

/-- A line end is a blank. -/
theorem not_lineEnd_of_not_space {u : QChar} (h : isSpace u = false) : isLineEnd u = false := by
  by_contra hend
  rw [Bool.not_eq_false] at hend
  obtain hcr | hlf := Bool.or_eq_true_iff.mp hend
  · rw [beq_iff_eq.mp hcr] at h
    exact absurd h (by decide)
  · rw [beq_iff_eq.mp hlf] at h
    exact absurd h (by decide)

/-- What is put together again from its parts. -/
theorem join_commaParts (name : QString) :
    join (commaParts name) (lit ", ") = name ↔ CommaSpaced name :=
  tidy_iff comma_of_space (m := 0x2c) (l := [0x20]) rfl (List.forall_mem_singleton.mpr rfl)

/-- Blanks around the line do not count. -/
theorem commaParts_trimmed (line : QString) : commaParts (trimmed line) = commaParts line :=
  cells_trim comma_of_space line

/-- The cells of a line are those of its fields. -/
theorem commaParts_join {fields : List QString} (hne : fields ≠ []) :
    commaParts (join fields (lit ", ")) = fields.flatMap commaParts :=
  cells_intercalate comma_of_space (m := 0x2c) (l := [0x20]) rfl
    (List.forall_mem_singleton.mpr rfl) hne

/-- Blanks around the line do not count. -/
theorem barParts_trimmed (line : QString) : barParts (trimmed line) = barParts line :=
  cells_trim bar_of_space line

/-- The cells of a line are those of its fields. -/
theorem barParts_join {fields : List QString} (hne : fields ≠ []) :
    barParts (join fields (lit "|")) = fields.flatMap barParts :=
  cells_intercalate bar_of_space (m := 0x7c) (l := []) rfl (List.forall_mem_nil _) hne

/-- A number is one cell. -/
theorem commaParts_number (n : Nat) : commaParts (number n) = [number n] := by
  have hplain : ∀ u ∈ number n, (u == 0x2c) = false := by
    intro u hu
    rw [beq_eq_false_iff_ne]
    rintro rfl
    exact notMem_number (by decide) n hu
  refine (cells_plain hplain).trans ?_
  exact congrArg ([·]) (trimmed_number n)

/-- A unique id is one cell. -/
theorem commaParts_uuid (uuid : GpuUuid) : commaParts uuid.val = [uuid.val] := by
  refine (cells_plain fun u hu => (uuid.property.2 u hu).2).trans ?_
  exact congrArg ([·]) (trim_of_forall fun u hu => (uuid.property.2 u hu).1)

/-- A field without bars is one cell. -/
theorem barParts_field (s : BarField) : barParts s.val = [trimmed s.val] :=
  cells_plain s.property.2

/-- Behind two parts and those of a name. -/
theorem getD_parts (a b : QString) (names rest : List QString) (i : Nat) :
    (a :: b :: (names ++ rest)).getD (names.length + (2 + i)) [] = rest.getD i [] := by
  rw [List.getD_eq_getElem?_getD, List.getD_eq_getElem?_getD,
    show names.length + (2 + i) = names.length + i + 1 + 1 by omega, List.getElem?_cons_succ,
    List.getElem?_cons_succ, List.getElem?_append_right (Nat.le_add_right _ i),
    Nat.add_sub_cancel_left]

/-- The name is between the first two cells and the rest. -/
theorem names_of_parts (a b : QString) (names rest : List QString) :
    ((a :: b :: (names ++ rest)).take (names.length + 2)).drop 2 = names := by
  rw [List.take_succ_cons, List.take_succ_cons, List.take_left']
  · rfl
  · rfl

/-! ## §3. Rows of devices. -/

/-- A card, as `nvidia-smi` is asked for it. -/
structure GpuRow where
  index : Nat
  uuid : GpuUuid
  name : LineText
  utilization : Nat
  used : Nat
  total : Nat

namespace GpuRow

variable (r : GpuRow)

/-- The cells of the row. -/
def fields : List QString :=
  [number r.index, r.uuid.val, r.name.val, number r.utilization, number r.used, number r.total]

/-- The row as it is printed. -/
def line : QString := join r.fields (lit ", ")

/-- What its device is shown as. -/
def label : QString := lit "GPU " ++ number r.index

/-- The record of the row. -/
def device : ResourceDevice :=
  { id := r.label, kind := lit "GPU", name := r.name.val, utilization := min 100 r.utilization
    memoryUsed := r.used, memoryTotal := r.total }

/-- The name is put together from its parts, and the numbers fit. -/
def Readable : Prop :=
  CommaSpaced r.name.val ∧ r.utilization < 2 ^ 31 ∧ r.used < 2 ^ 31 ∧ r.total < 2 ^ 31

end GpuRow

/-- The label with its index filled in. -/
theorem gpuLabel_eq (index : QString) : gpuLabel index = lit "GPU " ++ index := by
  have hpieces : argPieces 0 (lit "GPU %1")
      = (lit "GPU ").map (fun u => (none, [u])) ++ [(some 1, lit "%1")] := by decide
  unfold gpuLabel arg
  rw [hpieces]
  dsimp only
  have hnumbers : (((lit "GPU ").map (fun u => (none, [u])) ++ [(some 1, lit "%1")] :
      List (Option Nat × QString)).filterMap Prod.fst).dedup.insertionSort (· ≤ ·) = [1] := by
    decide
  rw [hnumbers]
  show lit "GPU " ++ (index ++ []) = _
  rw [List.append_nil]

/-- A row begins with a digit or a letter that a header does not begin with. -/
theorem unlessHeader_of_head {β : Type} {parse : QString → Option β} {line : QString} {u : QChar}
    (hhead : (trimmed line).head? = some u) (hu : u ≠ 0x50) :
    unlessHeader parse (trimmed line) = parse (trimmed line) := by
  unfold unlessHeader
  rw [if_neg]
  intro hstart
  obtain ⟨rest, hrest⟩ := List.isPrefixOf_iff_prefix.mp hstart
  rw [← hrest] at hhead
  exact hu (Option.some.inj hhead).symm

/-- A row that begins with a number is no header. -/
theorem head_number (n : Nat) (rest : QString) :
    ∃ u, (trimmed (number n ++ rest)).head? = some u ∧ u ≠ 0x50 := by
  obtain ⟨u, digits, hcons⟩ := List.exists_cons_of_ne_nil (number_ne_nil n)
  have hmem : u ∈ number n := by
    rw [hcons]
    exact List.mem_cons_self
  refine ⟨u, ?_, ?_⟩
  · rw [hcons, List.cons_append]
    exact head?_trim (l := []) (fun _ h => absurd h List.not_mem_nil)
      (isSpace_of_mem_number hmem) (digits ++ rest)
  · rintro rfl
    exact notMem_number (by decide) n hmem

namespace GpuRow

variable {r : GpuRow}

theorem line_eq : r.line = number r.index ++ (lit ", " ++ (r.uuid.val ++ (lit ", " ++
    (r.name.val ++ (lit ", " ++ (number r.utilization ++ (lit ", " ++ (number r.used
      ++ (lit ", " ++ number r.total))))))))) := by
  unfold line fields join
  simp only [List.intercalate_cons_cons, List.intercalate_singleton, List.append_assoc]

/-- The cells of the row. -/
theorem commaParts_line : commaParts (trimmed r.line) = number r.index :: r.uuid.val ::
    (commaParts r.name.val ++ [number r.utilization, number r.used, number r.total]) := by
  rw [commaParts_trimmed]
  unfold line fields
  rw [commaParts_join (List.cons_ne_nil _ _)]
  simp only [List.flatMap_cons, List.flatMap_nil, commaParts_number, commaParts_uuid,
    List.singleton_append, List.append_nil]

/-- What a row is read as. -/
theorem parse_line : unlessHeader parseGpu (trimmed r.line) =
    if r.utilization < 2 ^ 31 ∧ r.used < 2 ^ 31 ∧ r.total < 2 ^ 31 then
      some (r.uuid.val, { r.device with name := join (commaParts r.name.val) (lit ", ") })
    else none := by
  obtain ⟨u, hu, hletter⟩ := head_number r.index (lit ", " ++ (r.uuid.val ++ (lit ", " ++
    (r.name.val ++ (lit ", " ++ (number r.utilization ++ (lit ", " ++ (number r.used
      ++ (lit ", " ++ number r.total)))))))))
  rw [← line_eq] at hu
  rw [unlessHeader_of_head hu hletter]
  unfold parseGpu
  rw [commaParts_line]
  generalize hnames : commaParts r.name.val = names
  have hpos : 0 < names.length := by
    rw [← hnames]
    exact List.length_pos_of_ne_nil (cells_ne_nil _)
  -- the cells of the line: two before the name, which may hold commas, and three behind it
  generalize hparts : number r.index :: r.uuid.val ::
    (names ++ [number r.utilization, number r.used, number r.total]) = parts
  have hsize : parts.length = names.length + 5 := by
    rw [← hparts]
    simp only [List.length_cons, List.length_append, List.length_nil]
  have hindex : parts.getD 0 [] = number r.index := by rw [← hparts]; rfl
  have huuid : parts.getD 1 [] = r.uuid.val := by rw [← hparts]; rfl
  have hname : (parts.take (names.length + 2)).drop 2 = names := by
    rw [← hparts, names_of_parts]
  have hnumbers : parts.getD (names.length + 2) [] = number r.utilization
      ∧ parts.getD (names.length + 3) [] = number r.used
      ∧ parts.getD (names.length + 4) [] = number r.total := by
    rw [← hparts]
    exact ⟨getD_parts _ _ _ _ 0, getD_parts _ _ _ _ 1, getD_parts _ _ _ _ 2⟩
  have hgpu : (decide (6 ≤ names.length + 5) && startsWith r.uuid.val (lit "GPU-")) = true := by
    rw [r.uuid.property.1, Bool.and_true, decide_eq_true_eq]
    omega
  dsimp only
  rw [hsize, if_neg (by omega), huuid, hgpu, if_pos rfl, if_pos rfl, hindex,
    show names.length + 5 - 3 = names.length + 2 by omega,
    show names.length + 5 - 2 = names.length + 3 by omega,
    show names.length + 5 - 1 = names.length + 4 by omega, hname, hnumbers.1, hnumbers.2.1,
    hnumbers.2.2, toInt_number, toInt_number, toInt_number, gpuLabel_eq]
  -- toInt refuses what does not fit into 32 bits
  by_cases hutil : r.utilization < 2 ^ 31
  · by_cases hused : r.used < 2 ^ 31
    · by_cases htotal : r.total < 2 ^ 31
      · rw [if_pos hutil, if_pos hused, if_pos htotal, if_pos ⟨hutil, hused, htotal⟩,
          Option.bind_some, Option.bind_some, Option.bind_some, Int.cast_natCast,
          clampPercent_natCast]
        rfl
      · rw [if_neg htotal, if_pos hutil, if_pos hused, if_neg (not_and_of_not_right _
          (not_and_of_not_right _ htotal))]
        rfl
    · rw [if_neg hused, if_pos hutil, if_neg (not_and_of_not_right _
        (not_and_of_not_left _ hused))]
      rfl
  · rw [if_neg hutil, if_neg (not_and_of_not_left _ hutil)]
    rfl

/-- **A row is read as its record exactly if it is readable.** -/
theorem read_iff : (unlessHeader parseGpu (trimmed r.line)).map Prod.snd = some r.device ↔
    r.Readable := by
  rw [parse_line]
  unfold Readable
  split
  · next hfit =>
    rw [Option.map_some, Option.some.injEq, ← join_commaParts]
    unfold device
    rw [ResourceDevice.mk.injEq]
    simp only [true_and, and_true, hfit]
  · next hfit =>
    rw [Option.map_none]
    exact iff_of_false nofun fun h => hfit h.2

/-- With its uuid. -/
theorem parse_readable (h : r.Readable) :
    unlessHeader parseGpu (trimmed r.line) = some (r.uuid.val, r.device) := by
  rw [parse_line, if_pos h.2, join_commaParts _ |>.mpr h.1]
  rfl

end GpuRow

/-! ## §4. Rows of processes on devices. -/

/-- A process on a card, as `nvidia-smi` is asked for it. -/
structure GpuProcessRow where
  uuid : GpuUuid
  pid : Nat
  name : LineText
  memory : Nat

namespace GpuProcessRow

variable (r : GpuProcessRow)

/-- The cells of the row. -/
def fields : List QString := [r.uuid.val, number r.pid, r.name.val, number r.memory]

/-- The row as it is printed. -/
def line : QString := join r.fields (lit ", ")

/-- The record of the row, on a device with a label. -/
def process (device : QString) : ResourceProcess :=
  { pid := number r.pid, user := lit "-", name := r.name.val, device := device, cpu := 0
    memory := 0, gpuMemory := r.memory }

/-- What the row needs to come back: the commas of the name are spaced, and the memory fits an
`int`. -/
def Readable : Prop := CommaSpaced r.name.val ∧ r.memory < 2 ^ 31

variable {r}

theorem line_head : (trimmed r.line).head? = some 0x47 := by
  obtain ⟨rest, hrest⟩ := List.isPrefixOf_iff_prefix.mp r.uuid.property.1
  unfold line fields join
  rw [← hrest, List.intercalate_cons_cons]
  exact head?_trim (l := []) (fun _ h => absurd h List.not_mem_nil) (by decide) _

/-- The cells of the row. -/
theorem commaParts_line : commaParts (trimmed r.line) = r.uuid.val :: number r.pid ::
    (commaParts r.name.val ++ [number r.memory]) := by
  rw [commaParts_trimmed]
  unfold line fields
  rw [commaParts_join (List.cons_ne_nil _ _)]
  simp only [List.flatMap_cons, List.flatMap_nil, commaParts_number, commaParts_uuid,
    List.singleton_append, List.append_nil]

/-- What a row is read as. -/
theorem parse_line (labels : QString → Option QString) :
    unlessHeader (parseGpuProcess labels) (trimmed r.line) =
      some { r.process ((labels r.uuid.val).getD r.uuid.val) with
        name := join (commaParts r.name.val) (lit ", ")
        gpuMemory := if r.memory < 2 ^ 31 then (r.memory : Int) else 0 } := by
  rw [unlessHeader_of_head line_head (by decide)]
  unfold parseGpuProcess
  rw [commaParts_line]
  generalize hnames : commaParts r.name.val = names
  have hpos : 0 < names.length := by
    rw [← hnames]
    exact List.length_pos_of_ne_nil (cells_ne_nil _)
  generalize hparts : r.uuid.val :: number r.pid :: (names ++ [number r.memory]) = parts
  have hsize : parts.length = names.length + 3 := by
    rw [← hparts]
    simp only [List.length_cons, List.length_append, List.length_nil]
  have huuid : parts.getD 0 [] = r.uuid.val := by rw [← hparts]; rfl
  have hpid : parts.getD 1 [] = number r.pid := by rw [← hparts]; rfl
  have hname : (parts.take (names.length + 2)).drop 2 = names := by
    rw [← hparts, names_of_parts]
  have hmemory : parts.getD (names.length + 2) [] = number r.memory := by
    rw [← hparts]
    exact getD_parts _ _ _ _ 0
  have hdevice : decide (4 ≤ names.length + 3) = true := decide_eq_true (by omega)
  dsimp only
  rw [hsize, if_neg (by omega), hdevice, if_pos rfl, if_pos rfl, if_pos rfl, huuid, hpid,
    show names.length + 3 - 1 = names.length + 2 by omega, hname, hmemory, toInt_number]
  split
  · rfl
  · rfl

/-- **A row is read as its record exactly if it is readable.** -/
theorem read_iff (labels : QString → Option QString) :
    unlessHeader (parseGpuProcess labels) (trimmed r.line)
      = some (r.process ((labels r.uuid.val).getD r.uuid.val)) ↔ r.Readable := by
  rw [parse_line, Option.some.injEq]
  unfold process Readable
  rw [ResourceProcess.mk.injEq, ← join_commaParts]
  simp only [true_and]
  refine and_congr_right fun _ => ?_
  split
  · next hfit => exact iff_of_true rfl hfit
  · next hfit => exact iff_of_false (by omega) hfit

end GpuProcessRow

/-! ## §5. Columns. -/

/-- So many blanks. -/
def spaces (n : Nat) : QString := List.replicate n 0x20

/-- The spaces before the columns. -/
structure Gaps where
  lead : Nat
  user : Nat
  comm : Nat
  pcpu : Nat
  pmem : Nat

/-- Five columns, with at least one space between them. -/
def Gaps.columns (g : Gaps) (pid user comm pcpu pmem : QString) : QString :=
  spaces g.lead ++ (pid ++ (spaces (g.user + 1) ++ (user ++ (spaces (g.comm + 1) ++ (comm ++
    (spaces (g.pcpu + 1) ++ (pcpu ++ (spaces (g.pmem + 1) ++ pmem))))))))

/-- The line above the columns. -/
def Gaps.header (g : Gaps) : QString :=
  g.columns (lit "PID") (lit "USER") (lit "COMMAND") (lit "%CPU") (lit "%MEM")

/-- A process, as `ps` is asked for it. -/
structure PsRow where
  gaps : Gaps
  pid : Nat
  user : UserName
  comm : LineText
  pcpu : Numeral
  pmem : Numeral

namespace PsRow

variable (r : PsRow)

/-- The row as it is printed, with the gaps of its columns. -/
def line : QString :=
  r.gaps.columns (number r.pid) r.user.val r.comm.val r.pcpu.text r.pmem.text

/-- The record of the row. -/
def process : ResourceProcess :=
  { pid := number r.pid, user := r.user.val, name := r.comm.val, device := lit "CPU"
    cpu := min 100 (round r.pcpu.value)
    memory := min 100 (round r.pmem.value)
    gpuMemory := 0 }

/-- What the pattern is to capture. -/
def captured : CpuLine :=
  { pid := number r.pid, user := r.user.val, comm := r.comm.val, pcpu := r.pcpu.text
    pmem := r.pmem.text }

/-- The name is one word. -/
def Readable : Prop := Word r.comm.val

end PsRow

/-- Blanks make a gap. -/
theorem gap_spaces (n : Nat) : Gap (spaces (n + 1)) := by
  refine ⟨List.cons_ne_nil _ _, fun u hu => ?_⟩
  rw [List.eq_of_mem_replicate hu]
  rfl

/-- Blanks are blanks. -/
theorem isSpace_spaces (n : Nat) : ∀ u ∈ spaces n, isSpace u = true := by
  intro u hu
  rw [List.eq_of_mem_replicate hu]
  rfl

/-- A number is all digits, for the pattern too. -/
theorem patternDigit_of_mem_number {u : QChar} {n : Nat} (h : u ∈ number n) :
    isPatternDigit u = true := by
  have hdigit := digitOf_of_mem_number h
  unfold digitOf at hdigit
  split at hdigit
  · next hbounds => exact hbounds
  · cases hdigit

/-- A numeral is one for the pattern. -/
theorem numeralText_text (x : Numeral) : NumeralText x.text := by
  have hnumber : ∀ n, ∀ u ∈ number n, isPatternNumeral u = true := by
    intro n u hu
    unfold isPatternNumeral
    rw [patternDigit_of_mem_number hu, Bool.true_or]
  obtain ⟨whole, tenth⟩ := x
  unfold Numeral.text
  cases tenth with
  | none => exact ⟨number_ne_nil whole, hnumber whole⟩
  | some d =>
    refine ⟨List.append_ne_nil_of_left_ne_nil (number_ne_nil whole) _, fun u hu => ?_⟩
    obtain hu | hu := List.mem_append.mp hu
    · exact hnumber whole u hu
    · obtain rfl | hu := List.mem_cons.mp hu
      · rfl
      · exact hnumber d u hu

/-- Columns are trimmed where the first and the last of them are. -/
theorem trimmed_columns (g : Gaps) {pid user comm pcpu pmem : QString}
    (hfirst : ∀ u, pid.head? = some u → isSpace u = false) (hpid : pid ≠ [])
    (hlast : ∀ u, pmem.getLast? = some u → isSpace u = false) (hpmem : pmem ≠ []) :
    trimmed (g.columns pid user comm pcpu pmem) =
      pid ++ (spaces (g.user + 1) ++ (user ++ (spaces (g.comm + 1) ++ (comm ++
        (spaces (g.pcpu + 1) ++ (pcpu ++ (spaces (g.pmem + 1) ++ pmem))))))) := by
  refine (trim_append (isSpace_spaces g.lead) _).trans (trim_of_ends ?_ ?_)
  · intro u hu
    rw [List.head?_append_of_ne_nil _ hpid] at hu
    exact hfirst u hu
  · intro u hu
    simp only [← List.append_assoc] at hu
    rw [List.getLast?_append_of_ne_nil _ hpmem] at hu
    exact hlast u hu

namespace PsRow

variable {r : PsRow}

/-- The columns of the row. -/
theorem trimmed_line : trimmed r.line = number r.pid ++ (spaces (r.gaps.user + 1) ++ (r.user.val ++
    (spaces (r.gaps.comm + 1) ++ (r.comm.val ++ (spaces (r.gaps.pcpu + 1) ++ (r.pcpu.text ++
      (spaces (r.gaps.pmem + 1) ++ r.pmem.text))))))) := by
  have hpmem := numeralText_text r.pmem
  refine trimmed_columns r.gaps (fun u hu => ?_) (number_ne_nil r.pid) (fun u hu => ?_) hpmem.1
  · exact isSpace_of_mem_number (List.mem_of_head? hu)
  · exact isSpace_of_numeral (hpmem.2 u (List.mem_of_getLast? hu))

/-- The row is no header. -/
theorem unlessHeader_line : unlessHeader cpuLine (trimmed r.line) = cpuLine (trimmed r.line) := by
  have hhead : ∃ u, (trimmed r.line).head? = some u ∧ u ≠ 0x50 := by
    obtain ⟨u, hu, hletter⟩ := head_number r.pid (spaces (r.gaps.user + 1) ++ (r.user.val ++
      (spaces (r.gaps.comm + 1) ++ (r.comm.val ++ (spaces (r.gaps.pcpu + 1) ++ (r.pcpu.text ++
        (spaces (r.gaps.pmem + 1) ++ r.pmem.text)))))))
    refine ⟨u, ?_, hletter⟩
    rw [← trimmed_line, trimmed_trimmed] at hu
    exact hu
  obtain ⟨u, hu, hletter⟩ := hhead
  exact unlessHeader_of_head hu hletter

theorem parse_readable (h : r.Readable) :
    unlessHeader cpuLine (trimmed r.line) = some r.captured := by
  rw [unlessHeader_line, trimmed_line]
  exact cpuLine_words (number_ne_nil r.pid) (fun _ hu => patternDigit_of_mem_number hu)
    r.user.property h (numeralText_text r.pcpu) (numeralText_text r.pmem) (gap_spaces _)
    (gap_spaces _) (gap_spaces _) (gap_spaces _)

/-- What is made of the columns. -/
theorem process_captured : r.captured.process = r.process := by
  unfold captured CpuLine.process process Numeral.value
  dsimp only
  rw [Numeral.toDouble_text, Numeral.toDouble_text]
  unfold Numeral.value
  rw [clampPercent_tenths, clampPercent_tenths]

/-- **A row is read as its record exactly if it is readable.** -/
theorem read_iff : (unlessHeader cpuLine (trimmed r.line)).map CpuLine.process = some r.process ↔
    r.Readable := by
  constructor
  · intro h
    obtain ⟨m, hm, hprocess⟩ := Option.map_eq_some_iff.mp h
    rw [unlessHeader_line] at hm
    have hname : m.comm = r.comm.val := congrArg ResourceProcess.name hprocess
    unfold Readable
    rw [← hname]
    exact comm_of_cpuLine hm
  · intro h
    rw [parse_readable h, Option.map_some, process_captured]

end PsRow

/-! ## §6. Rows between bars. -/

/-- A job, as `squeue` is asked for it. -/
structure JobRow where
  id : BarField
  partition : BarField
  name : BarField
  user : BarField
  state : BarField
  time : BarField
  nodes : BarField
  place : BarField

namespace JobRow

variable (r : JobRow)

/-- The cells of the row. -/
def fields : List QString :=
  [r.id.val, r.partition.val, r.name.val, r.user.val, r.state.val, r.time.val, r.nodes.val,
    r.place.val]

/-- The row as it is printed. -/
def line : QString := join r.fields (lit "|")

/-- The record of the row. -/
def job : ResourceJob :=
  { id := r.id.val, partition := r.partition.val, name := r.name.val, user := r.user.val
    state := r.state.val, time := r.time.val, nodes := r.nodes.val, place := r.place.val }

/-- No field begins or ends with white space, and the row does not begin like a header. -/
def Readable : Prop :=
  (∀ f ∈ r.fields, trimmed f = f) ∧ startsWith r.id.val (lit "PID ") = false

end JobRow

/-- A file system, as `df` and `awk` print it. -/
structure DiskRow where
  filesystem : BarField
  size : BarField
  used : BarField
  available : BarField
  percent : Nat
  mount : BarField

namespace DiskRow

variable (r : DiskRow)

/-- The cells of the row that are taken as they are. -/
def texts : List QString :=
  [r.filesystem.val, r.size.val, r.used.val, r.available.val, r.mount.val]

/-- The cells of the row. -/
def fields : List QString :=
  [r.filesystem.val, r.size.val, r.used.val, r.available.val, number r.percent ++ lit "%",
    r.mount.val]

/-- The row as it is printed. -/
def line : QString := join r.fields (lit "|")

/-- The record of the row. -/
def disk : ResourceDisk :=
  { filesystem := r.filesystem.val, size := r.size.val, used := r.used.val
    available := r.available.val, percent := min 100 r.percent, mount := r.mount.val }

/-- No text begins or ends with white space, the row does not begin like a header, and the number
fits. -/
def Readable : Prop :=
  ((∀ f ∈ r.texts, trimmed f = f) ∧ startsWith r.filesystem.val (lit "PID ") = false)
    ∧ r.percent < 2 ^ 31

end DiskRow

/-- A row of trimmed fields begins like a header only if its first field does. -/
theorem startsWith_join {f : QString} {fields : List QString} (hne : fields ≠ [])
    (h : ∀ g ∈ f :: fields, trimmed g = g) :
    startsWith (trimmed (join (f :: fields) (lit "|"))) (lit "PID ") = startsWith f (lit "PID ") := by
  have htrim : trimmed (join (f :: fields) (lit "|")) = join (f :: fields) (lit "|") :=
    trim_intercalate (m := 0x7c) rfl h
  obtain ⟨g, more, rfl⟩ := List.exists_cons_of_ne_nil hne
  have hsplit : join (f :: g :: more) (lit "|") = f ++ 0x7c :: join (g :: more) (lit "|") := by
    unfold join
    rw [List.intercalate_cons_cons, List.append_assoc]
    rfl
  rw [htrim, hsplit]
  unfold startsWith
  rw [Bool.eq_iff_iff, List.isPrefixOf_iff_prefix, List.isPrefixOf_iff_prefix,
    prefix_append_cons_iff (by decide)]

/-- A row whose fields have to be trimmed is passed over only if its first field begins like a
header. -/
theorem unlessHeader_bars {β : Type} {parse : QString → Option β} {f : QString}
    {fields : List QString} {x : β} {P : Prop} (hne : fields ≠ [])
    (hparse : parse (trimmed (join (f :: fields) (lit "|"))) = some x ↔ P)
    (htrimmed : P → ∀ g ∈ f :: fields, trimmed g = g) :
    unlessHeader parse (trimmed (join (f :: fields) (lit "|"))) = some x ↔
      P ∧ startsWith f (lit "PID ") = false := by
  unfold unlessHeader
  constructor
  · intro h
    split at h
    · cases h
    · next hheader =>
      have hP := hparse.mp h
      rw [startsWith_join hne (htrimmed hP)] at hheader
      exact ⟨hP, Bool.eq_false_iff.mpr hheader⟩
  · rintro ⟨hP, hheader⟩
    rw [startsWith_join hne (htrimmed hP), hheader, if_neg Bool.false_ne_true]
    exact hparse.mpr hP

namespace JobRow

variable {r : JobRow}

/-- The cells of the row. -/
theorem barParts_line : barParts (trimmed r.line) = r.fields.map trimmed := by
  rw [barParts_trimmed]
  unfold line fields
  rw [barParts_join (List.cons_ne_nil _ _)]
  simp only [List.flatMap_cons, List.flatMap_nil, barParts_field, List.singleton_append,
    List.append_nil, List.map_cons, List.map_nil]

/-- **A row is read as its record exactly if it is readable.** -/
theorem read_iff : unlessHeader parseJob (trimmed r.line) = some r.job ↔ r.Readable := by
  have hparse : parseJob (trimmed r.line) = some r.job ↔ ∀ f ∈ r.fields, trimmed f = f := by
    unfold parseJob
    rw [barParts_line]
    unfold fields job
    simp only [List.map_cons, List.map_nil, Option.some.injEq, ResourceJob.mk.injEq,
      List.forall_mem_cons, List.not_mem_nil, false_implies, implies_true, and_true]
  exact unlessHeader_bars (List.cons_ne_nil _ _) hparse fun h => h

end JobRow

namespace DiskRow

variable {r : DiskRow}

/-- A percentage has neither bar nor blank. -/
theorem percent_units : ∀ u ∈ number r.percent ++ lit "%",
    (u == 0x7c) = false ∧ isSpace u = false := by
  intro u hu
  obtain hu | hu := List.mem_append.mp hu
  · refine ⟨?_, isSpace_of_mem_number hu⟩
    rw [beq_eq_false_iff_ne]
    rintro rfl
    exact notMem_number (by decide) _ hu
  · rw [List.mem_singleton.mp hu]
    decide

/-- A percentage has nothing to trim. -/
theorem trimmed_percent : trimmed (number r.percent ++ lit "%") = number r.percent ++ lit "%" :=
  trim_of_forall fun u hu => (percent_units u hu).2

/-- The cells of the row. -/
theorem barParts_line : barParts (trimmed r.line) = r.fields.map trimmed := by
  have hpercent : barParts (number r.percent ++ lit "%")
      = [trimmed (number r.percent ++ lit "%")] :=
    cells_plain fun u hu => (percent_units u hu).1
  rw [barParts_trimmed]
  unfold line fields
  rw [barParts_join (List.cons_ne_nil _ _)]
  simp only [List.flatMap_cons, List.flatMap_nil, barParts_field, hpercent, List.singleton_append,
    List.append_nil, List.map_cons, List.map_nil]

/-- **A row is read as its record exactly if it is readable.** -/
theorem read_iff : unlessHeader parseDisk (trimmed r.line) = some r.disk ↔ r.Readable := by
  have hdigits : endsWith (number r.percent ++ lit "%") (lit "%") = true
      ∧ (number r.percent ++ lit "%").dropLast = number r.percent :=
    ⟨List.isSuffixOf_iff_suffix.mpr (List.suffix_append _ _), List.dropLast_concat⟩
  have hvalue : (((toInt (number r.percent)).map fun percent : Int =>
      clampPercent (.ofRat percent)).getD 0 = min 100 (r.percent : Int)) ↔ r.percent < 2 ^ 31 := by
    rw [toInt_number]
    split
    · next hfit =>
      rw [Option.map_some, Option.getD_some, Int.cast_natCast, clampPercent_natCast]
      exact iff_of_true rfl hfit
    · next hfit =>
      rw [Option.map_none, Option.getD_none]
      exact iff_of_false (by omega) hfit
  have hparse : parseDisk (trimmed r.line) = some r.disk ↔
      (∀ f ∈ r.texts, trimmed f = f) ∧ r.percent < 2 ^ 31 := by
    unfold parseDisk
    rw [barParts_line, ← hvalue]
    unfold fields texts disk
    simp only [List.map_cons, List.map_nil, trimmed_percent, hdigits.1, hdigits.2, if_true,
      Option.some.injEq, ResourceDisk.mk.injEq, List.forall_mem_cons, List.not_mem_nil,
      false_implies, implies_true, and_true]
    constructor
    · rintro ⟨hfilesystem, hsize, hused, havailable, hpercent, hmount⟩
      exact ⟨⟨hfilesystem, hsize, hused, havailable, hmount⟩, hpercent⟩
    · rintro ⟨⟨hfilesystem, hsize, hused, havailable, hmount⟩, hpercent⟩
      exact ⟨hfilesystem, hsize, hused, havailable, hpercent, hmount⟩
  have hfields : (∀ f ∈ r.texts, trimmed f = f) → ∀ f ∈ r.fields, trimmed f = f := by
    intro h
    have hpercent := trimmed_percent (r := r)
    unfold texts at h
    unfold fields
    simp only [List.forall_mem_cons, List.not_mem_nil, false_implies, implies_true,
      and_true] at h ⊢
    exact ⟨h.1, h.2.1, h.2.2.1, h.2.2.2.1, hpercent, h.2.2.2.2⟩
  have hread := unlessHeader_bars (List.cons_ne_nil _ _) hparse fun h => hfields h.1
  exact hread.trans and_right_comm

end DiskRow

end ResearchSSH.App
