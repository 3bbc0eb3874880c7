/-
  ResearchSSH.App.PathAlgebra — joining paths and taking them apart.

  The controller puts a directory and a name together and takes the name and the directory of a
  path back out; the tree and the file pane take the directory out on their own.  The three agree
  on every string, and putting together and taking apart are inverse to each other on names
  without a slash.

  Main results:
    * `baseNameOf_join`, `parentDirOf_join` — a joined path has the name and the directory.
    * `exists_pathOf`  — an absolute path without empty components is a list of names.
    * `join_pathOf`    — on lists of names, joining puts a name at the end.
    * `parentDir_eq`   — the pane's own loop gives what the controller gives.
    * `paths_compose`  — all of it, for every string.
-/

import ResearchSSH.App.RemotePath

namespace ResearchSSH.App

/-! ## §1. The path functions of the file pane. -/

/-- An index of `String.prototype.slice`, a negative one counted from the end. -/
def jsIndex (length : Nat) (i : Int) : Nat :=
  if i < 0 then (length + i).toNat else min i.toNat length

/-- `String.prototype.slice`. -/
def jsSlice (s : QString) (start stop : Int) : QString :=
  (s.take (jsIndex s.length stop)).drop (jsIndex s.length start)

/-- `slice(0, -1)`. -/
theorem jsSlice_dropLast (s : QString) : jsSlice s 0 (-1) = s.dropLast := by
  have hstop : jsIndex s.length (-1) = s.length - 1 := by
    unfold jsIndex
    rw [if_pos (by decide)]
    omega
  unfold jsSlice
  have hstart : jsIndex s.length 0 = 0 := Nat.zero_min s.length
  rw [hstop, hstart, List.drop_zero, List.dropLast_eq_take]

/-- `slice(0, i)`. -/
theorem jsSlice_take (s : QString) (i : Nat) : jsSlice s 0 i = s.take i := by
  have hstop : jsIndex s.length i = min i s.length := if_neg (by omega)
  have hstart : jsIndex s.length 0 = 0 := Nat.zero_min s.length
  unfold jsSlice
  rw [hstop, hstart, List.drop_zero, List.take_eq_take_iff, Nat.min_assoc, Nat.min_self]

/-- `while (s.length > 1 && s.endsWith("/")) s = s.slice(0, -1)`. -/
def sliceSlashes (s : QString) : QString :=
  if s.length > 1 ∧ endsWith s [slash] = true then sliceSlashes (jsSlice s 0 (-1)) else s
termination_by s.length
decreasing_by
  rw [jsSlice_dropLast, List.length_dropLast]
  omega

/-- `parentDir` of the file pane. -/
def parentDir (path : QString) : QString :=
  let s := sliceSlashes path
  match lastIndexOf s slash with
  | none => []
  | some 0 => [slash]
  | some i => jsSlice s 0 i

/-! ## §2. Trailing slashes and the last slash. -/

variable {base dir name s : QString}

/-- What ends with a character is something before it. -/
theorem endsWith_iff_append {u : QChar} : endsWith s [u] = true ↔ ∃ start, s = start ++ [u] := by
  unfold endsWith
  rw [List.isSuffixOf_iff_suffix]
  exact ⟨fun ⟨start, h⟩ => ⟨start, h.symm⟩, fun ⟨start, h⟩ => ⟨start, h.symm⟩⟩

/-- One slash more at the end makes no difference. -/
theorem chopSlashes_append (h : s ≠ []) : chopSlashes (s ++ [slash]) = chopSlashes s := by
  unfold chopSlashes
  rw [List.reverse_append, List.reverse_singleton, List.singleton_append]
  obtain ⟨u, rest, hcons⟩ := List.exists_cons_of_ne_nil (mt List.reverse_eq_nil_iff.mp h)
  rw [hcons]
  exact congrArg List.reverse (if_pos rfl)

/-- What does not end in a slash, and a slash alone, is left as it is. -/
theorem chopSlashes_self (h : ¬ (s.length > 1 ∧ endsWith s [slash] = true)) :
    chopSlashes s = s := by
  obtain rfl | ⟨start, u, rfl⟩ := s.eq_nil_or_concat
  · rfl
  · rw [List.concat_eq_append] at h ⊢
    unfold chopSlashes
    rw [List.reverse_append, List.reverse_singleton, List.singleton_append]
    cases hrev : start.reverse with
    | nil =>
      rw [List.reverse_eq_nil_iff.mp hrev]
      rfl
    | cons v rest =>
      have hu : u ≠ slash := by
        rintro rfl
        refine h ⟨?_, endsWith_iff_append.mpr ⟨start, rfl⟩⟩
        have hlen := congrArg List.length hrev
        rw [List.length_reverse, List.length_cons] at hlen
        rw [List.length_append, hlen, List.length_singleton]
        omega
      have hkeep : chopSlashesRev (u :: v :: rest) = u :: v :: rest := if_neg hu
      rw [hkeep, ← hrev, List.reverse_cons, List.reverse_reverse]

/-- **The loop of the pane chops as the controller does.** -/
theorem sliceSlashes_eq (s : QString) : sliceSlashes s = chopSlashes s := by
  fun_induction sliceSlashes s with
  | case1 s h ih =>
    rw [ih, jsSlice_dropLast]
    obtain ⟨start, rfl⟩ := endsWith_iff_append.mp h.2
    have hne : start ≠ [] := by
      rintro rfl
      exact absurd h.1 (by decide)
    rw [List.dropLast_concat, chopSlashes_append hne]
  | case2 s h => exact (chopSlashes_self h).symm

/-- Some path is always left. -/
theorem chopSlashes_ne_nil (h : s ≠ []) : chopSlashes s ≠ [] := by
  rw [← sliceSlashes_eq]
  fun_induction sliceSlashes s with
  | case1 s hs ih =>
    apply ih
    rw [jsSlice_dropLast, Ne, ← List.length_eq_zero_iff, List.length_dropLast]
    omega
  | case2 s hs => exact h

/-- A path that ends with a name has nothing to chop. -/
theorem chopSlashes_entry (base : QString) {name : QString} (hname : name ≠ [])
    (hslash : slash ∉ name) :
    chopSlashes (base ++ slash :: name) = base ++ slash :: name := by
  apply chopSlashes_self
  rintro ⟨_, hends⟩
  obtain ⟨start, hstart⟩ := endsWith_iff_append.mp hends
  -- the last unit of the name would be a slash
  have hlast := congrArg List.getLast? hstart
  rw [List.getLast?_append_cons, List.getLast?_concat, List.getLast?_cons_of_ne_nil hname] at hlast
  exact hslash (List.mem_of_getLast? hlast)

/-- A name has nothing to chop. -/
theorem chopSlashes_name (hslash : slash ∉ name) : chopSlashes name = name := by
  apply chopSlashes_self
  rintro ⟨_, hends⟩
  obtain ⟨start, rfl⟩ := endsWith_iff_append.mp hends
  exact hslash (List.mem_append_right _ List.mem_cons_self)

/-- No slash is in a name. -/
theorem findIdx_slash (hslash : slash ∉ name) :
    name.reverse.findIdx? (· == slash) = none := by
  rw [List.findIdx?_eq_none_iff]
  intro u hu
  rw [List.mem_reverse] at hu
  exact beq_eq_false_iff_ne.mpr fun heq => hslash (heq ▸ hu)

/-- No slash is in a name. -/
theorem lastIndexOf_name (hslash : slash ∉ name) : lastIndexOf name slash = none := by
  unfold lastIndexOf
  rw [findIdx_slash hslash, Option.map_none]

/-- The last slash is the one in front of the name. -/
theorem lastIndexOf_entry (base : QString) {name : QString} (hslash : slash ∉ name) :
    lastIndexOf (base ++ slash :: name) slash = some base.length := by
  have hrev : (base ++ slash :: name).reverse = name.reverse ++ slash :: base.reverse := by
    simp
  have hindex : (name.reverse ++ slash :: base.reverse).findIdx? (· == slash) = some name.length := by
    rw [List.findIdx?_append, findIdx_slash hslash]
    simp [List.findIdx?_cons]
  unfold lastIndexOf
  rw [hrev, hindex, Option.map_some, List.length_append, List.length_cons]
  congr 1
  omega

/-! ## §3. Joining and taking apart. -/

/-- The directory that is found again in a joined path: the home directory has no name. -/
def normPath (dir : QString) : QString := if dir = lit "." then [] else chopSlashes dir

/-- A name lies nowhere. -/
theorem parentPathOf_name (hslash : slash ∉ name) : parentPathOf name = [] := by
  unfold parentPathOf
  dsimp only
  rw [chopSlashes_name hslash, lastIndexOf_name hslash]

/-- What the name lies in. -/
theorem parentPathOf_append (hbase : base ≠ []) (hname : name ≠ []) (hslash : slash ∉ name) :
    parentPathOf (base ++ slash :: name) = base := by
  unfold parentPathOf
  dsimp only
  rw [chopSlashes_entry base hname hslash, lastIndexOf_entry base hslash]
  obtain ⟨u, rest, rfl⟩ := List.exists_cons_of_ne_nil hbase
  exact List.take_left

/-- What lies in the root. -/
theorem parentPathOf_root (hname : name ≠ []) (hslash : slash ∉ name) :
    parentPathOf (slash :: name) = [slash] := by
  have hchop := chopSlashes_entry [] hname hslash
  have hlast := lastIndexOf_entry [] hslash
  rw [List.nil_append] at hchop hlast
  unfold parentPathOf
  dsimp only
  rw [hchop, hlast]
  rfl

/-- The controller's check for the empty path changes nothing. -/
theorem parentDirOf_eq (path : QString) : parentDirOf path = parentPathOf path := by
  unfold parentDirOf
  split
  · next h =>
    rw [h]
    rfl
  · rfl

/-- **The pane finds the same directory.** -/
theorem parentDir_eq (path : QString) : parentDir path = parentPathOf path := by
  unfold parentDir parentPathOf
  dsimp only
  rw [sliceSlashes_eq]
  cases lastIndexOf (chopSlashes path) slash with
  | none => rfl
  | some i =>
    cases i with
    | zero => rfl
    | succ i => exact jsSlice_take _ _

/-- The name of an entry. -/
theorem baseNameOf_append (hname : name ≠ []) (hslash : slash ∉ name) :
    baseNameOf (base ++ slash :: name) = name := by
  have hlast : (base ++ slash :: name).getLast? ≠ some slash := by
    rw [List.getLast?_append_cons, List.getLast?_cons_of_ne_nil hname]
    exact fun h => hslash (List.mem_of_getLast? h)
  unfold baseNameOf
  dsimp only
  rw [if_neg fun h => hlast h.1, lastIndexOf_entry base hslash]
  show List.drop (base.length + 1) (base ++ slash :: name) = name
  rw [← List.drop_drop, List.drop_left]
  rfl

/-- The name of a name. -/
theorem baseNameOf_name (hslash : slash ∉ name) : baseNameOf name = name := by
  unfold baseNameOf
  dsimp only
  rw [if_neg fun h => hslash (List.mem_of_getLast? h.1), lastIndexOf_name hslash]

/-- The three ways to join a directory and a name. -/
theorem join_cases (dir : QString) (hname : name ≠ []) :
    ((dir = [] ∨ dir = lit ".") ∧ joinRemotePath dir name = name)
      ∨ (dir = [slash] ∧ joinRemotePath dir name = slash :: name)
      ∨ (dir ≠ [] ∧ dir ≠ lit "." ∧ joinRemotePath dir name = chopSlashes dir ++ slash :: name) := by
  unfold joinRemotePath
  rw [if_neg hname]
  by_cases hhome : dir = [] ∨ dir = lit "."
  · exact .inl ⟨hhome, if_pos hhome⟩
  · rw [if_neg hhome]
    by_cases hroot : dir = lit "/"
    · exact .inr (.inl ⟨hroot, if_pos hroot⟩)
    · exact .inr (.inr ⟨fun h => hhome (.inl h), fun h => hhome (.inr h), if_neg hroot⟩)

/-- The name that was joined. -/
theorem baseNameOf_join (dir : QString) (hname : name ≠ []) (hslash : slash ∉ name) :
    baseNameOf (joinRemotePath dir name) = name := by
  obtain ⟨_, hjoin⟩ | ⟨_, hjoin⟩ | ⟨_, _, hjoin⟩ := join_cases dir hname
  · rw [hjoin, baseNameOf_name hslash]
  · have hroot : baseNameOf ([] ++ slash :: name) = name := baseNameOf_append hname hslash
    rw [hjoin]
    exact hroot
  · rw [hjoin, baseNameOf_append hname hslash]

/-- The directory that was joined, in its normal form. -/
theorem parentDirOf_join (dir : QString) (hname : name ≠ []) (hslash : slash ∉ name) :
    parentDirOf (joinRemotePath dir name) = normPath dir := by
  rw [parentDirOf_eq]
  obtain ⟨hhome, hjoin⟩ | ⟨rfl, hjoin⟩ | ⟨hne, hdot, hjoin⟩ := join_cases dir hname
  · rw [hjoin, parentPathOf_name hslash]
    obtain rfl | rfl := hhome
    · decide
    · decide
  · rw [hjoin, parentPathOf_root hname hslash]
    decide
  · rw [hjoin, parentPathOf_append (chopSlashes_ne_nil hne) hname hslash]
    exact (if_neg hdot).symm

/-! ## §4. Absolute paths as lists of names. -/

/-- What a directory can hold. -/
structure RemoteName where
  units : QString
  nonempty : units ≠ []
  noSlash : slash ∉ units

/-- The absolute path through the names. -/
def pathOf : List RemoteName → QString
  | [] => [slash]
  | n :: ns => (n :: ns).flatMap fun m => slash :: m.units

/-- One name more. -/
theorem pathOf_concat (ns : List RemoteName) (n : RemoteName) (hns : ns ≠ []) :
    pathOf (ns ++ [n]) = pathOf ns ++ slash :: n.units := by
  obtain ⟨m, rest, rfl⟩ := List.exists_cons_of_ne_nil hns
  show ((m :: rest) ++ [n]).flatMap _ = _
  rw [List.flatMap_append, List.flatMap_singleton]
  rfl

/-- A path is not empty. -/
theorem pathOf_ne_nil (ns : List RemoteName) : pathOf ns ≠ [] := by
  cases ns with
  | nil => exact List.cons_ne_nil _ _
  | cons n ns => exact List.cons_ne_nil _ _

/-- A path begins with a slash. -/
theorem head?_pathOf (ns : List RemoteName) : (pathOf ns).head? = some slash := by
  cases ns with
  | nil => rfl
  | cons n ns => rfl

/-- A path through names has no slash to chop. -/
theorem chopSlashes_pathOf (ns : List RemoteName) : chopSlashes (pathOf ns) = pathOf ns := by
  obtain rfl | ⟨rest, n, rfl⟩ := ns.eq_nil_or_concat
  · rfl
  · rw [List.concat_eq_append]
    by_cases hrest : rest = []
    · rw [hrest]
      show chopSlashes ([] ++ slash :: (n.units ++ [])) = [] ++ slash :: (n.units ++ [])
      rw [List.append_nil]
      exact chopSlashes_entry [] n.nonempty n.noSlash
    · rw [pathOf_concat rest n hrest]
      exact chopSlashes_entry _ n.nonempty n.noSlash

/-- A path of names is in its normal form. -/
theorem normPath_pathOf (ns : List RemoteName) : normPath (pathOf ns) = pathOf ns := by
  unfold normPath
  rw [if_neg, chopSlashes_pathOf]
  intro h
  have hhead := head?_pathOf ns
  rw [h] at hhead
  exact absurd hhead (by decide)

/-- **Joining puts a name at the end.** -/
theorem join_pathOf (ns : List RemoteName) (n : RemoteName) :
    joinRemotePath (pathOf ns) n.units = pathOf (ns ++ [n]) := by
  have hdot : pathOf ns ≠ lit "." := by
    intro h
    have hhead := head?_pathOf ns
    rw [h] at hhead
    exact absurd hhead (by decide)
  unfold joinRemotePath
  rw [if_neg n.nonempty, if_neg (not_or.mpr ⟨pathOf_ne_nil ns, hdot⟩)]
  cases ns with
  | nil =>
    rw [if_pos (by decide)]
    exact (List.append_nil _).symm
  | cons m rest =>
    rw [if_neg, chopSlashes_pathOf, pathOf_concat _ _ (List.cons_ne_nil _ _)]
    intro h
    have htail : m.units ++ rest.flatMap (fun m => slash :: m.units) = [] := (List.cons.inj h).2
    exact m.nonempty (List.append_eq_nil_iff.mp htail).1

/-- The last name of a path. -/
theorem baseNameOf_pathOf (ns : List RemoteName) (n : RemoteName) :
    baseNameOf (pathOf (ns ++ [n])) = n.units := by
  rw [← join_pathOf, baseNameOf_join _ n.nonempty n.noSlash]

/-- A text is cut before its first slash. -/
theorem cut_at_slash (rest : QString) : ∃ name tail, rest = name ++ tail ∧ slash ∉ name
    ∧ (tail = [] ∨ ∃ more, tail = slash :: more) := by
  refine ⟨rest.takeWhile (· ≠ slash), rest.dropWhile (· ≠ slash),
    List.takeWhile_append_dropWhile.symm, fun hmem => ?_, ?_⟩
  · have hne := List.mem_takeWhile_imp hmem
    exact of_decide_eq_true hne rfl
  · have hhead := List.head?_dropWhile_not (· ≠ slash) rest
    cases htail : rest.dropWhile (· ≠ slash) with
    | nil => exact .inl rfl
    | cons u more =>
      rw [htail] at hhead
      have hu : u = slash := by simpa using hhead
      exact .inr ⟨more, hu ▸ rfl⟩

/-- A path without empty names is that of its names. -/
theorem exists_names : ∀ rest : QString, ¬ [slash, slash] <:+: slash :: rest →
    (slash :: rest).getLast? ≠ some slash → ∃ n ns, slash :: rest = pathOf (n :: ns) := by
  intro rest
  induction hsize : rest.length using Nat.strong_induction_on generalizing rest with
  | _ size ih =>
    intro hempty hend
    obtain ⟨name, tail, rfl, hslash, htail⟩ := cut_at_slash rest
    have hname : name ≠ [] := by
      rintro rfl
      obtain rfl | ⟨more, rfl⟩ := htail
      · exact hend rfl
      · exact hempty ⟨[], more, rfl⟩
    obtain rfl | ⟨more, rfl⟩ := htail
    · exact ⟨⟨name, hname, hslash⟩, [], rfl⟩
    · -- what follows the first name is shorter
      have hshort : more.length < size := by
        rw [← hsize, List.length_append, List.length_cons]
        omega
      have hsuffix : slash :: more <:+ slash :: (name ++ slash :: more) :=
        ⟨slash :: name, rfl⟩
      have hend' : (slash :: more).getLast? ≠ some slash := by
        intro h
        apply hend
        rw [← List.cons_append, List.getLast?_append_cons, h]
      obtain ⟨n, ns, hns⟩ := ih _ hshort more rfl (fun h => hempty (h.trans hsuffix.isInfix)) hend'
      refine ⟨⟨name, hname, hslash⟩, n :: ns, ?_⟩
      rw [hns]
      rfl

/-- **An absolute path without empty components is a path through names.** -/
theorem exists_pathOf {p : QString} (habs : p.head? = some slash)
    (hempty : ¬ [slash, slash] <:+: p) (hend : p = [slash] ∨ p.getLast? ≠ some slash) :
    ∃ ns, p = pathOf ns := by
  obtain rfl | hend := hend
  · exact ⟨[], rfl⟩
  · obtain ⟨rest, rfl⟩ := List.head?_eq_some_iff.mp habs
    obtain ⟨n, ns, hns⟩ := exists_names rest hempty hend
    exact ⟨n :: ns, hns⟩

/-- A path without its last name. -/
theorem parentDirOf_pathOf (ns : List RemoteName) (n : RemoteName) :
    parentDirOf (pathOf (ns ++ [n])) = pathOf ns := by
  rw [← join_pathOf, parentDirOf_join _ n.nonempty n.noSlash, normPath_pathOf]

/-! ## §5. Every string. -/

/-- A joined path is taken apart into what it was joined from, an absolute path is joined from what
it is taken apart into, and the controller, the tree and the pane find the same directory. -/
theorem paths_compose :
    (∀ dir name : QString, name ≠ [] → slash ∉ name →
        baseNameOf (joinRemotePath dir name) = name
          ∧ parentDirOf (joinRemotePath dir name) = normPath dir)
      ∧ (∀ p : QString, p.head? = some slash → p ≠ [slash] → ¬ [slash, slash] <:+: p →
          p.getLast? ≠ some slash → joinRemotePath (parentDirOf p) (baseNameOf p) = p)
      ∧ ∀ s : QString, parentDirOf s = parentPathOf s ∧ parentDir s = parentPathOf s := by
  refine ⟨fun dir name hname hslash => ?_, fun p habs hroot hempty hend => ?_, fun s => ?_⟩
  · exact ⟨baseNameOf_join dir hname hslash, parentDirOf_join dir hname hslash⟩
  · obtain ⟨ns, rfl⟩ := exists_pathOf habs hempty (.inr hend)
    obtain rfl | ⟨rest, n, rfl⟩ := ns.eq_nil_or_concat
    · exact absurd rfl hroot
    · rw [List.concat_eq_append, parentDirOf_pathOf, baseNameOf_pathOf, join_pathOf]
  · exact ⟨parentDirOf_eq s, parentDir_eq s⟩

end ResearchSSH.App
