/-
  ResearchSSH.Core.MockMoves — renaming and copying in the in-memory filesystem.

  A directory is moved by rewriting the beginning of paths: its own path becomes the destination,
  and a path that begins with it and a slash begins with the destination and a slash afterwards.
  No two paths become the same one, so to a place where there is nothing a rename is a relocation
  of both collections.  What is already there is merged with, and files are written over.

  Main results:
    * `mem_dirs_rename`, `lookup_rename`, and so for `copy` and `remove` — what a call on a directory
      leaves at each path, also where something is merged with or written over.
    * `rename_undone`      — renaming to a fresh destination is undone by renaming back.
    * `rename_copy_remove` — renaming is copying and then removing.
-/

import ResearchSSH.Core.MockFs
import ResearchSSH.Library.FoldedMap
import ResearchSSH.Library.Relocation

namespace ResearchSSH.Core

open ResearchSSH.Library

/-! ## §1. Paths that move along. -/

/-- The path itself, or one below it. -/
def AtOrBelow (path p : Text) : Prop := p = path ∨ startsWith p (below path) = true

instance (path p : Text) : Decidable (AtOrBelow path p) := inferInstanceAs (Decidable (_ ∨ _))

theorem startsWith_iff {p start : Text} : startsWith p start = true ↔ ∃ rest, p = start ++ rest := by
  unfold startsWith
  rw [List.isPrefixOf_iff_prefix]
  exact ⟨fun ⟨rest, h⟩ => ⟨rest, h.symm⟩, fun ⟨rest, h⟩ => ⟨rest, h.symm⟩⟩

/-- The prefix is exchanged. -/
theorem replacePrefix_append (fromPrefix toPrefix rest : Text) :
    replacePrefix (fromPrefix ++ rest) fromPrefix toPrefix = toPrefix ++ rest := by
  unfold replacePrefix
  rw [List.drop_left]

theorem below_eq {path : Text} (h : path.getLast? ≠ some '/') : below path = path ++ ['/'] := by
  unfold below
  rw [List.rdropWhile_eq_self_iff.mpr]
  intro hne hslash
  rw [List.getLast?_eq_getLast_of_ne_nil hne] at h
  exact h (congrArg some (of_decide_eq_true hslash))

/-- What stands behind a path that does not end in a slash. -/
theorem ne_below_append {path : Text} (h : path.getLast? ≠ some '/') (rest : Text) :
    below path ++ rest ≠ path := by
  intro heq
  have hlength := congrArg List.length heq
  rw [below_eq h] at hlength
  simp only [List.length_append, List.length_singleton] at hlength
  omega

/-- Where a path goes when `src` becomes `dst`. -/
def movedTo (src dst p : Text) : Option Text :=
  if p = src then some dst
  else if startsWith p (below src) then
    let q := replacePrefix p (below src) (below dst)
    if q = dst then none else some q
  else none

/-- Where a path moves. -/
theorem movedTo_eq_some {src dst p q : Text} : movedTo src dst p = some q ↔
    (p = src ∧ q = dst) ∨
      (∃ rest, p = below src ++ rest ∧ q = below dst ++ rest) ∧ p ≠ src ∧ q ≠ dst := by
  unfold movedTo
  split
  · next hp =>
    rw [Option.some.injEq]
    constructor
    · rintro rfl
      exact .inl ⟨hp, rfl⟩
    · rintro (⟨_, hq⟩ | ⟨_, hne, _⟩)
      · exact hq.symm
      · exact absurd hp hne
  · next hp =>
    split
    · next hstart =>
      obtain ⟨rest, rfl⟩ := startsWith_iff.mp hstart
      rw [replacePrefix_append, Option.ite_none_left_eq_some, Option.some.injEq]
      constructor
      · rintro ⟨hq, rfl⟩
        exact .inr ⟨⟨rest, rfl, rfl⟩, hp, hq⟩
      · rintro (⟨hsrc, _⟩ | ⟨⟨rest', hrest, hq⟩, _, hne⟩)
        · exact absurd hsrc hp
        · rw [List.append_cancel_left hrest]
          exact ⟨hq ▸ hne, hq.symm⟩
    · next hstart =>
      constructor
      · intro h
        cases h
      · rintro (⟨hsrc, _⟩ | ⟨⟨rest, hrest, _⟩, _⟩)
        · exact absurd hsrc hp
        · exact absurd (startsWith_iff.mpr ⟨rest, hrest⟩) hstart

/-- The paths that move along with `src`, and where they go. -/
def moves (src dst : Text) : Text ≃. Text where
  toFun := movedTo src dst
  invFun := movedTo dst src
  inv p q := by
    rw [movedTo_eq_some, movedTo_eq_some]
    constructor
    · rintro (⟨hq, hp⟩ | ⟨⟨rest, hq, hp⟩, hne, hne'⟩)
      · exact .inl ⟨hp, hq⟩
      · exact .inr ⟨⟨rest, hp, hq⟩, hne', hne⟩
    · rintro (⟨hp, hq⟩ | ⟨⟨rest, hp, hq⟩, hne, hne'⟩)
      · exact .inl ⟨hq, hp⟩
      · exact .inr ⟨⟨rest, hq, hp⟩, hne', hne⟩

/-- The move back. -/
theorem moves_symm (src dst : Text) : (moves src dst).symm = moves dst src := rfl

/-- A destination that does not end in a slash is the place of one path only. -/
theorem mem_moves {src dst p q : Text} (hdst : dst.getLast? ≠ some '/') :
    q ∈ moves src dst p ↔ AtOrBelow src p ∧ MockFs.renamedDir src dst p = q := by
  show movedTo src dst p = some q ↔ _
  rw [movedTo_eq_some]
  unfold AtOrBelow MockFs.renamedDir
  by_cases hp : p = src
  · rw [if_pos hp]
    constructor
    · rintro (⟨_, rfl⟩ | ⟨_, hne, _⟩)
      · exact ⟨.inl hp, rfl⟩
      · exact absurd hp hne
    · rintro ⟨_, rfl⟩
      exact .inl ⟨hp, rfl⟩
  · rw [if_neg hp, startsWith_iff]
    constructor
    · rintro (⟨hsrc, _⟩ | ⟨⟨rest, rfl, rfl⟩, _⟩)
      · exact absurd hsrc hp
      · exact ⟨.inr ⟨rest, rfl⟩, replacePrefix_append _ _ _⟩
    · rintro ⟨hsrc | ⟨rest, rfl⟩, rfl⟩
      · exact absurd hsrc hp
      · rw [replacePrefix_append]
        exact .inr ⟨⟨rest, rfl, rfl⟩, hp, ne_below_append hdst rest⟩

/-- What does not move. -/
theorem moves_eq_none {src dst p : Text} (hdst : dst.getLast? ≠ some '/') :
    moves src dst p = none ↔ ¬ AtOrBelow src p := by
  constructor
  · intro hnone hp
    have hmem := (mem_moves hdst).mpr ⟨hp, rfl⟩
    rw [hnone] at hmem
    cases hmem
  · intro hnot
    by_contra hsome
    obtain ⟨q, hq⟩ := Option.ne_none_iff_exists'.mp hsome
    exact hnot ((mem_moves hdst).mp hq).1

/-- A path that something moves to is at the destination or below it. -/
theorem atOrBelow_of_mem_moves {src dst p q : Text} (h : q ∈ moves src dst p) :
    AtOrBelow dst q := by
  obtain ⟨_, rfl⟩ | ⟨⟨rest, _, rfl⟩, _⟩ := movedTo_eq_some.mp h
  · exact .inl rfl
  · exact .inr (startsWith_iff.mpr ⟨rest, rfl⟩)

/-- What comes behind a path to make it a path at or below it. -/
def PathSuffix (s : Text) : Prop := s = [] ∨ ∃ rest, s = '/' :: rest

/-- A path at or below another has it for a prefix. -/
theorem atOrBelow_iff {path p : Text} (h : path.getLast? ≠ some '/') :
    AtOrBelow path p ↔ ∃ s, PathSuffix s ∧ p = path ++ s := by
  unfold AtOrBelow PathSuffix
  rw [startsWith_iff, below_eq h]
  constructor
  · rintro (rfl | ⟨rest, rfl⟩)
    · exact ⟨[], .inl rfl, (List.append_nil _).symm⟩
    · exact ⟨'/' :: rest, .inr ⟨rest, rfl⟩, by simp⟩
  · rintro ⟨s, rfl | ⟨rest, rfl⟩, rfl⟩
    · exact .inl (List.append_nil _)
    · exact .inr ⟨rest, by simp⟩

/-- What is below moves along. -/
theorem mem_moves_suffix {src dst s : Text} (hsrc : src.getLast? ≠ some '/')
    (hdst : dst.getLast? ≠ some '/') (hs : PathSuffix s) : dst ++ s ∈ moves src dst (src ++ s) := by
  refine movedTo_eq_some.mpr ?_
  obtain rfl | ⟨rest, rfl⟩ := hs
  · exact .inl ⟨List.append_nil _, List.append_nil _⟩
  · have hbelow : ∀ path : Text, path.getLast? ≠ some '/' →
        path ++ '/' :: rest = below path ++ rest := by
      intro path hpath
      rw [below_eq hpath, List.append_assoc]
      rfl
    rw [hbelow src hsrc, hbelow dst hdst]
    exact .inr ⟨⟨rest, rfl, rfl⟩, ne_below_append hsrc rest, ne_below_append hdst rest⟩

theorem PathSuffix.of_append {s t : Text} (h : PathSuffix (s ++ t)) : PathSuffix s := by
  cases s with
  | nil => exact .inl rfl
  | cons c s =>
    obtain hnil | ⟨rest, hrest⟩ := h
    · cases hnil
    · exact .inr ⟨s, by rw [(List.cons.inj hrest).1]⟩

/-- What every path below `src` begins with is below another path only if `src` is. -/
theorem atOrBelow_of_below {src dst : Text} (hdst : dst.getLast? ≠ some '/')
    (h : AtOrBelow dst (below src)) : AtOrBelow dst src := by
  obtain ⟨u, hu, hbelow⟩ := (atOrBelow_iff hdst).mp h
  refine (atOrBelow_iff hdst).mpr ?_
  obtain rfl | ⟨v, c, rfl⟩ := List.eq_nil_or_concat' u
  · -- it ends in a slash, and the other path does not
    rw [List.append_nil] at hbelow
    exact absurd (hbelow ▸ List.getLast?_concat) hdst
  · unfold below at hbelow
    rw [← List.append_assoc] at hbelow
    obtain ⟨htrim, _⟩ := List.append_inj' hbelow rfl
    refine ⟨v ++ src.rtakeWhile (· = '/'), ?_, ?_⟩
    · obtain rfl | ⟨rest, rfl⟩ := hu.of_append
      · cases hslashes : src.rtakeWhile (· = '/') with
        | nil => exact .inl rfl
        | cons d ds =>
          have hd : d ∈ src.rtakeWhile (· = '/') := by
            rw [hslashes]
            exact List.mem_cons_self
          have hslash : d = '/' := by simpa using List.mem_rtakeWhile_imp hd
          exact .inr ⟨ds, by rw [hslash]; rfl⟩
      · exact .inr ⟨rest ++ src.rtakeWhile (· = '/'), rfl⟩
    · rw [← List.append_assoc, ← htrim]
      exact List.rdropWhile_append_rtakeWhile.symm

namespace MockFs

/-! ## §2. What the operations do to the entries. -/

/-- The directories, as a store without values. -/
def dirAt (fs : MockFs) (p : Text) (_ : Unit) : Prop := p ∈ fs.dirs

/-- There is a file of that content. -/
def fileAt (fs : MockFs) (p : Text) (content : List UInt8) : Prop :=
  fs.files.lookup p = some content

/-- The same directories and files: what tells two filesystems apart. -/
structure Same (fs fs' : MockFs) : Prop where
  dirs : fs.dirs = fs'.dirs
  files : ∀ p, fs.files.lookup p = fs'.files.lookup p

/-- There is nothing at the path or below it. -/
def Vacant (fs : MockFs) (path : Text) : Prop := ∀ p, AtOrBelow path p → p ∉ fs.dirs ∧ p ∉ fs.files

instance (fs : MockFs) (path : Text) : Decidable (fs.Vacant path) :=
  decidable_of_iff ((∀ p ∈ fs.dirs, ¬ AtOrBelow path p) ∧ ∀ p ∈ fs.files.keys, ¬ AtOrBelow path p)
    ⟨fun h p hp => ⟨fun hd => h.1 p hd hp, fun hf => h.2 p (AList.mem_keys.mpr hf) hp⟩,
      fun h => ⟨fun p hd hp => (h p hp).1 hd, fun p hf hp => (h p hp).2 (AList.mem_keys.mp hf)⟩⟩

/-- There is nothing at `dst` or below it that does not move along with `src`. -/
def Room (fs : MockFs) (src dst : Text) : Prop :=
  ∀ p, AtOrBelow dst p → ¬ AtOrBelow src p → p ∉ fs.dirs ∧ p ∉ fs.files

variable {fs fs' : MockFs} {src dst p : Text} {content : List UInt8}

/-- Two states with the same directories and files are the same. -/
theorem Same.of_stores (hdirs : fs.dirAt = fs'.dirAt) (hfiles : fs.fileAt = fs'.fileAt) :
    Same fs fs' := by
  refine ⟨Finset.ext fun p => ?_, fun p => Option.ext fun c => ?_⟩
  · exact iff_of_eq (congrFun (congrFun hdirs p) ())
  · exact iff_of_eq (congrFun (congrFun hfiles p) c)

/-- A place where nothing is has room. -/
theorem Vacant.room (h : fs.Vacant dst) (src : Text) : fs.Room src dst := fun p hp _ => h p hp

theorem mem_of_fileAt (h : fs.fileAt p content) : p ∈ fs.files := by
  rw [← AList.lookup_isSome, show fs.files.lookup p = some content from h]
  rfl

/-- Where there is a file and where there is none are two places. -/
theorem ne_of_lookup (hnone : fs.files.lookup src = none) (h : fs.files.lookup p = some content) :
    p ≠ src := by
  rintro rfl
  rw [hnone] at h
  cases h

/-- Nothing is moved to the place of something that stays. -/
theorem Room.unhit (h : fs.Room src dst) (hdst : dst.getLast? ≠ some '/')
    (hp : p ∈ fs.dirs ∨ p ∈ fs.files) (hstays : moves src dst p = none) :
    (moves src dst).symm p = none := by
  by_contra hsome
  obtain ⟨q, hq⟩ := Option.ne_none_iff_exists'.mp hsome
  have hat : AtOrBelow dst p := atOrBelow_of_mem_moves ((moves src dst).mem_iff_mem.mp hq)
  obtain ⟨hdirs, hfiles⟩ := h p hat ((moves_eq_none hdst).mp hstays)
  exact hp.elim hdirs hfiles

/-- No directory is in the way. -/
theorem Room.dirs_free (h : fs.Room src dst) (hdst : dst.getLast? ≠ some '/') :
    Free (moves src dst) fs.dirAt := fun _ _ hp hstays => h.unhit hdst (.inl hp) hstays

/-- No file is in the way. -/
theorem Room.files_free (h : fs.Room src dst) (hdst : dst.getLast? ≠ some '/') :
    Free (moves src dst) fs.fileAt := fun _ _ hp hstays =>
  h.unhit hdst (.inr (mem_of_fileAt hp)) hstays

theorem Vacant.lookup_self (h : fs.Vacant dst) : fs.files.lookup dst = none :=
  AList.lookup_eq_none.mpr (h dst (.inl rfl)).2

/-- The files that move along, where they go. -/
theorem mem_renamedFiles : (p, content) ∈ fs.renamedFiles src dst ↔
    ∃ rest, p = below dst ++ rest ∧ fs.files.lookup (below src ++ rest) = some content := by
  unfold renamedFiles
  rw [List.mem_map]
  constructor
  · rintro ⟨⟨q, c⟩, hq, heq⟩
    obtain ⟨hmem, hstart⟩ := List.mem_filter.mp hq
    obtain ⟨rest, rfl⟩ := startsWith_iff.mp hstart
    obtain ⟨rfl, rfl⟩ := Prod.mk.inj heq
    exact ⟨rest, replacePrefix_append _ _ _, AList.mem_lookup_iff.mpr hmem⟩
  · rintro ⟨rest, rfl, hlookup⟩
    refine ⟨⟨below src ++ rest, content⟩, List.mem_filter.mpr ⟨?_, ?_⟩, ?_⟩
    · exact AList.mem_lookup_iff.mp hlookup
    · exact startsWith_iff.mpr ⟨rest, rfl⟩
    · rw [replacePrefix_append]

/-- No two files go to one place. -/
theorem nodup_renamedFiles (fs : MockFs) (src dst : Text) :
    ((fs.renamedFiles src dst).map Prod.fst).Nodup := by
  unfold renamedFiles
  rw [List.map_map]
  have hkeys : (fs.files.entries.map Sigma.fst).Nodup := fs.files.keys_nodup
  have hentries : fs.files.entries.Nodup := hkeys.of_map _
  refine (hentries.filter _).map_on ?_
  rintro ⟨q, c⟩ hq ⟨q', c'⟩ hq' heq
  obtain ⟨hmem, hstart⟩ := List.mem_filter.mp hq
  obtain ⟨hmem', hstart'⟩ := List.mem_filter.mp hq'
  obtain ⟨rest, rfl⟩ := startsWith_iff.mp hstart
  obtain ⟨rest', rfl⟩ := startsWith_iff.mp hstart'
  have hrest : replacePrefix (below src ++ rest) (below src) (below dst)
      = replacePrefix (below src ++ rest') (below src) (below dst) := heq
  rw [replacePrefix_append, replacePrefix_append] at hrest
  obtain rfl := List.append_cancel_left hrest
  exact List.inj_on_of_nodup_map hkeys hmem hmem' rfl

theorem not_mem_keys_renamedFiles : p ∉ (fs.renamedFiles src dst).map Prod.fst ↔
    ∀ rest, p = below dst ++ rest → fs.files.lookup (below src ++ rest) = none := by
  constructor
  · rintro h rest rfl
    by_contra hsome
    obtain ⟨c, hc⟩ := Option.ne_none_iff_exists'.mp hsome
    exact h (List.mem_map.mpr ⟨(_, c), mem_renamedFiles.mpr ⟨rest, rfl, hc⟩, rfl⟩)
  · intro h hmem
    obtain ⟨⟨q, c⟩, hq, rfl⟩ := List.mem_map.mp hmem
    obtain ⟨rest, hrest, hc⟩ := mem_renamedFiles.mp hq
    rw [h rest hrest] at hc
    cases hc

/-- A rename of a file. -/
theorem rename_file (h : fs.files.lookup src = some content) :
    fs.rename src dst = (.ok (), { fs with files := (fs.files.erase src).insert dst content }) := by
  unfold rename
  rw [h]

/-- A copy of a file. -/
theorem copy_file (h : fs.files.lookup src = some content) :
    fs.copy src dst = (.ok (), { fs with files := fs.files.insert dst content }) := by
  unfold copy
  rw [h]

/-- A removal of a file. -/
theorem remove_file (h : fs.files.lookup p = some content) (recursive : Bool) :
    fs.remove p recursive = (.ok (), { fs with files := fs.files.erase p }) := by
  unfold remove
  rw [h, Option.isSome_some, if_pos rfl]

/-- The files that `rename` and `remove` take away with a directory. -/
theorem taken_iff (hfile : fs.files.lookup src = none) (hp : fs.files.lookup p = some content) :
    (p ∈ fs.files.keys ∧ startsWith p (below src) = true) ↔ AtOrBelow src p := by
  have hkey : p ∈ fs.files.keys := AList.mem_keys.mp (mem_of_fileAt hp)
  have hne : p ≠ src := ne_of_lookup hfile hp
  simp only [AtOrBelow, hkey, hne, true_and, false_or]

section
variable (hfile : fs.files.lookup src = none) (hdir : src ∈ fs.dirs)

include hfile hdir

/-- A rename of a directory succeeds. -/
theorem rename_dir_ok : (fs.rename src dst).1 = .ok () := by
  unfold rename
  rw [hfile]
  dsimp only
  rw [if_neg (not_not.mpr hdir)]

/-- The directories after a rename. -/
theorem mem_dirs_rename : p ∈ (fs.rename src dst).2.dirs ↔
    (∃ d ∈ fs.dirs, AtOrBelow src d ∧ renamedDir src dst d = p)
      ∨ (p ∈ fs.dirs ∧ ¬ AtOrBelow src p) := by
  unfold rename
  rw [hfile]
  dsimp only
  rw [if_neg (not_not.mpr hdir), Finset.mem_union, Finset.mem_sdiff, Finset.mem_image, or_comm]
  simp only [Finset.mem_filter, not_and, AtOrBelow, and_assoc]
  refine or_congr_right (and_congr_right fun hp => ?_)
  exact ⟨fun h => h hp, fun h _ => h⟩

/-- A file that moves along stands over what was at its new place. -/
theorem lookup_rename : (fs.rename src dst).2.files.lookup p = some content ↔
    (∃ rest, p = below dst ++ rest ∧ fs.files.lookup (below src ++ rest) = some content)
      ∨ ((∀ rest, p = below dst ++ rest → fs.files.lookup (below src ++ rest) = none)
        ∧ fs.files.lookup p = some content ∧ ¬ AtOrBelow src p) := by
  unfold rename
  rw [hfile]
  dsimp only
  rw [if_neg (not_not.mpr hdir)]
  refine (lookup_foldl_insert _ (nodup_renamedFiles fs src dst) _ _ _).trans ?_
  rw [mem_renamedFiles, not_mem_keys_renamedFiles, lookup_foldl_erase]
  -- what is not written over is a file that is not taken away
  refine or_congr_right (and_congr_right fun _ => ?_)
  rw [Option.ite_none_left_eq_some, List.mem_filter, and_comm]
  exact and_congr_right fun hp => not_congr (taken_iff hfile hp)

/-- A copy of a directory succeeds. -/
theorem copy_dir_ok : (fs.copy src dst).1 = .ok () := by
  unfold copy
  rw [hfile]
  dsimp only
  rw [if_neg (not_not.mpr hdir)]

/-- The directories after a copy. -/
theorem mem_dirs_copy : p ∈ (fs.copy src dst).2.dirs ↔
    (∃ d ∈ fs.dirs, AtOrBelow src d ∧ renamedDir src dst d = p) ∨ p ∈ fs.dirs := by
  unfold copy
  rw [hfile]
  dsimp only
  rw [if_neg (not_not.mpr hdir), Finset.mem_union, Finset.mem_image, or_comm]
  simp only [Finset.mem_filter, AtOrBelow, and_assoc]

/-- The files after a copy. -/
theorem lookup_copy : (fs.copy src dst).2.files.lookup p = some content ↔
    (∃ rest, p = below dst ++ rest ∧ fs.files.lookup (below src ++ rest) = some content)
      ∨ ((∀ rest, p = below dst ++ rest → fs.files.lookup (below src ++ rest) = none)
        ∧ fs.files.lookup p = some content) := by
  unfold copy
  rw [hfile]
  dsimp only
  rw [if_neg (not_not.mpr hdir)]
  refine (lookup_foldl_insert _ (nodup_renamedFiles fs src dst) _ _ _).trans ?_
  rw [mem_renamedFiles, not_mem_keys_renamedFiles]

/-- A removal of a directory with what it holds succeeds. -/
theorem remove_dir_ok : (fs.remove src true).1 = .ok () := by
  unfold remove
  rw [hfile, Option.isSome_none, if_neg Bool.false_ne_true, if_pos hdir]
  dsimp only
  rw [if_neg (fun h => absurd h.2 Bool.noConfusion)]

/-- The directories after a removal. -/
theorem mem_dirs_remove : p ∈ (fs.remove src true).2.dirs ↔ p ∈ fs.dirs ∧ ¬ AtOrBelow src p := by
  unfold remove
  rw [hfile, Option.isSome_none, if_neg Bool.false_ne_true, if_pos hdir]
  dsimp only
  rw [if_neg (fun h => absurd h.2 Bool.noConfusion), Finset.mem_filter]
  simp [AtOrBelow]

/-- The files after a removal. -/
theorem lookup_remove : (fs.remove src true).2.files.lookup p = some content ↔
    fs.files.lookup p = some content ∧ ¬ AtOrBelow src p := by
  unfold remove
  rw [hfile, Option.isSome_none, if_neg Bool.false_ne_true, if_pos hdir]
  dsimp only
  rw [if_neg (fun h => absurd h.2 Bool.noConfusion), lookup_foldl_erase,
    Option.ite_none_left_eq_some, List.mem_filter, and_comm]
  exact and_congr_right fun hp => not_congr (taken_iff hfile hp)

end

/-! ## §3. Moves to a place where there is nothing. -/

theorem dirAt_moved (hdst : dst.getLast? ≠ some '/') :
    (∃ d ∈ fs.dirs, AtOrBelow src d ∧ renamedDir src dst d = p) ↔
      ∃ d, p ∈ moves src dst d ∧ fs.dirAt d () := by
  simp only [mem_moves hdst]
  constructor
  · rintro ⟨d, hd, hmoved⟩
    exact ⟨d, hmoved, hd⟩
  · rintro ⟨d, hmoved, hd⟩
    exact ⟨d, hd, hmoved⟩

theorem fileAt_moved (hfile : fs.files.lookup src = none) (hdst : dst.getLast? ≠ some '/') :
    (∃ rest, p = below dst ++ rest ∧ fs.files.lookup (below src ++ rest) = some content) ↔
      ∃ f, p ∈ moves src dst f ∧ fs.fileAt f content := by
  have hne : ∀ f, fs.fileAt f content → f ≠ src := fun _ hf => ne_of_lookup hfile hf
  constructor
  · rintro ⟨rest, rfl, hf⟩
    refine ⟨_, movedTo_eq_some.mpr (.inr ⟨⟨rest, rfl, rfl⟩, hne _ hf, ?_⟩), hf⟩
    exact ne_below_append hdst rest
  · rintro ⟨f, hf, hcontent⟩
    obtain ⟨hsrc, _⟩ | ⟨⟨rest, rfl, rfl⟩, _⟩ := movedTo_eq_some.mp hf
    · exact absurd hsrc (hne f hcontent)
    · exact ⟨rest, rfl, hcontent⟩

section
variable (hfile : fs.files.lookup src = none) (hdir : src ∈ fs.dirs)
  (hdst : dst.getLast? ≠ some '/')

include hfile hdir hdst

/-- A rename moves the directories. -/
theorem dirAt_rename : (fs.rename src dst).2.dirAt = relocate (moves src dst) fs.dirAt := by
  funext p _
  refine propext ((mem_dirs_rename hfile hdir).trans ?_)
  rw [dirAt_moved hdst, ← moves_eq_none hdst, and_comm (b := moves src dst p = none)]
  rfl

/-- A copy doubles the directories. -/
theorem dirAt_copy : (fs.copy src dst).2.dirAt = duplicate (moves src dst) fs.dirAt := by
  funext p _
  refine propext ((mem_dirs_copy hfile hdir).trans ?_)
  rw [dirAt_moved hdst]
  rfl

/-- A removal discards the directories. -/
theorem dirAt_remove : (fs.remove src true).2.dirAt = discard (moves src dst) fs.dirAt := by
  funext p _
  refine propext ((mem_dirs_remove hfile hdir).trans ?_)
  rw [← moves_eq_none hdst, and_comm]
  rfl

/-- A removal discards the files. -/
theorem fileAt_remove : (fs.remove src true).2.fileAt = discard (moves src dst) fs.fileAt := by
  funext p c
  refine propext ((lookup_remove hfile hdir).trans ?_)
  rw [← moves_eq_none hdst, and_comm]
  rfl

/-- A rename moves the files. -/
theorem fileAt_rename (hroom : fs.Room src dst) :
    (fs.rename src dst).2.fileAt = relocate (moves src dst) fs.fileAt := by
  funext p c
  refine propext ((lookup_rename hfile hdir).trans ?_)
  rw [fileAt_moved hfile hdst, ← moves_eq_none hdst]
  refine or_congr_right ⟨fun h => ⟨h.2.2, h.2.1⟩, fun h => ⟨fun rest hrest => ?_, h.2, h.1⟩⟩
  -- nothing that stays is written over
  refine absurd (mem_of_fileAt h.2) (hroom p ?_ ((moves_eq_none hdst).mp h.1)).2
  exact .inr (startsWith_iff.mpr ⟨rest, hrest⟩)

/-- A copy doubles the files. -/
theorem fileAt_copy (hvacant : fs.Vacant dst) :
    (fs.copy src dst).2.fileAt = duplicate (moves src dst) fs.fileAt := by
  funext p c
  refine propext ((lookup_copy hfile hdir).trans ?_)
  rw [fileAt_moved hfile hdst]
  refine or_congr_right ⟨fun h => h.2, fun h => ⟨fun rest hrest => ?_, h⟩⟩
  refine absurd (mem_of_fileAt h) (hvacant p ?_).2
  exact .inr (startsWith_iff.mpr ⟨rest, hrest⟩)

end

/-- A file is moved alone. -/
theorem fileAt_rename_file (hfile : fs.files.lookup src = some content)
    (hdst : fs.files.lookup dst = none) :
    (fs.rename src dst).2.fileAt = relocate (PEquiv.single src dst) fs.fileAt := by
  rw [rename_file hfile]
  funext p c
  refine propext ?_
  show ((fs.files.erase src).insert dst content).lookup p = some c ↔ _
  unfold relocate
  simp only [PEquiv.mem_single_iff]
  by_cases hp : p = dst
  · subst hp
    rw [AList.lookup_insert]
    constructor
    · intro hc
      exact .inl ⟨src, ⟨rfl, rfl⟩, hfile.trans hc⟩
    · rintro (⟨_, ⟨rfl, _⟩, hc⟩ | ⟨_, hc⟩)
      · exact hfile.symm.trans hc
      · exact absurd rfl (ne_of_lookup hdst hc)
  · rw [AList.lookup_insert_ne hp]
    by_cases hsrc : p = src
    · subst hsrc
      simp [AList.lookup_erase, hp]
    · rw [AList.lookup_erase_ne hsrc, PEquiv.single_apply_of_ne (Ne.symm hsrc)]
      simp [hp, fileAt]

/-! ## §4. Renaming back. -/

/-- What has arrived at the destination, and what is left at the source. -/
structure Moved (fs fs' : MockFs) (src dst : Text) : Prop where
  arrived : ∀ s, PathSuffix s → (dst ++ s ∈ fs'.dirs ↔ src ++ s ∈ fs.dirs)
    ∧ fs'.files.lookup (dst ++ s) = fs.files.lookup (src ++ s)
  left : ∀ p, AtOrBelow src p → ¬ AtOrBelow dst p → p ∉ fs'.dirs ∧ p ∉ fs'.files

/-- A directory is moved with everything below it, also into itself. -/
theorem moved_rename_dir (hfile : fs.files.lookup src = none) (hdir : src ∈ fs.dirs)
    (hsrc : src.getLast? ≠ some '/') (hdst : dst.getLast? ≠ some '/') (hvacant : fs.Vacant dst) :
    Moved fs (fs.rename src dst).2 src dst := by
  have hdirs := dirAt_rename hfile hdir hdst
  have hfiles := fileAt_rename hfile hdir hdst (hvacant.room src)
  constructor
  · intro s hs
    have hmoved := mem_moves_suffix hsrc hdst hs
    constructor
    · show (fs.rename src dst).2.dirAt (dst ++ s) () ↔ fs.dirAt (src ++ s) ()
      rw [hdirs]
      exact relocate_target ((hvacant.room src).dirs_free hdst) hmoved
    · refine Option.ext fun c => ?_
      show (fs.rename src dst).2.fileAt (dst ++ s) c ↔ fs.fileAt (src ++ s) c
      rw [hfiles]
      exact relocate_target ((hvacant.room src).files_free hdst) hmoved
  · intro p hp hnot
    have hmoves : (moves src dst p).isSome := by
      rw [Option.isSome_iff_ne_none]
      exact fun hnone => (moves_eq_none hdst).mp hnone hp
    have hunhit : (moves src dst).symm p = none := by
      rw [moves_symm]
      exact (moves_eq_none hsrc).mpr hnot
    constructor
    · intro hmem
      have hat : (fs.rename src dst).2.dirAt p () := hmem
      rw [hdirs] at hat
      exact not_relocate_source hmoves hunhit hat
    · intro hmem
      obtain ⟨c, hc⟩ := Option.isSome_iff_exists.mp (AList.lookup_isSome.mpr hmem)
      have hat : (fs.rename src dst).2.fileAt p c := hc
      rw [hfiles] at hat
      exact not_relocate_source hmoves hunhit hat

/-- A directory comes back. -/
theorem rename_dir_back (hfile : fs.files.lookup src = none) (hdir : src ∈ fs.dirs)
    (hsrc : src.getLast? ≠ some '/') (hdst : dst.getLast? ≠ some '/') (hvacant : fs.Vacant dst) :
    ((fs.rename src dst).2.rename dst src).1 = .ok () ∧
      Same ((fs.rename src dst).2.rename dst src).2 fs := by
  have hmoved := moved_rename_dir hfile hdir hsrc hdst hvacant
  have hself := hmoved.arrived [] (.inl rfl)
  rw [List.append_nil, List.append_nil] at hself
  have hdir' : dst ∈ (fs.rename src dst).2.dirs := hself.1.mpr hdir
  have hfile' : (fs.rename src dst).2.files.lookup dst = none := hself.2.trans hfile
  refine ⟨rename_dir_ok hfile' hdir', .of_stores ?_ ?_⟩
  · rw [dirAt_rename hfile' hdir' hsrc, dirAt_rename hfile hdir hdst, ← moves_symm]
    exact relocate_symm ((hvacant.room src).dirs_free hdst)
  · -- what is still at the source or below it is what has been moved there
    have hroom : (fs.rename src dst).2.Room dst src := hmoved.left
    rw [fileAt_rename hfile' hdir' hsrc hroom, fileAt_rename hfile hdir hdst (hvacant.room src),
      ← moves_symm]
    exact relocate_symm ((hvacant.room src).files_free hdst)

theorem moved_rename_file (hfile : fs.files.lookup src = some content) (hapart : src ∉ fs.dirs)
    (hleaf : ∀ s, PathSuffix s → s ≠ [] → src ++ s ∉ fs.dirs ∧ src ++ s ∉ fs.files)
    (hsrc : src.getLast? ≠ some '/') (hdst : dst.getLast? ≠ some '/') (hvacant : fs.Vacant dst) :
    Moved fs (fs.rename src dst).2 src dst := by
  rw [rename_file hfile]
  constructor
  · intro s hs
    have hnew := hvacant (dst ++ s) ((atOrBelow_iff hdst).mpr ⟨s, hs, rfl⟩)
    show (dst ++ s ∈ fs.dirs ↔ _) ∧ ((fs.files.erase src).insert dst content).lookup _ = _
    -- the file itself arrives, and nothing was below it
    by_cases hnil : s = []
    · subst hnil
      rw [List.append_nil, List.append_nil, AList.lookup_insert, hfile]
      rw [List.append_nil] at hnew
      exact ⟨iff_of_false hnew.1 hapart, rfl⟩
    · obtain ⟨hdirs, hfiles⟩ := hleaf s hs hnil
      have hbehind : dst ++ s ≠ dst := fun h => hnil (List.append_right_eq_self.mp h)
      have hold : dst ++ s ≠ src :=
        (ne_of_lookup (AList.lookup_eq_none.mpr hnew.2) hfile).symm
      rw [AList.lookup_insert_ne hbehind, AList.lookup_erase_ne hold,
        AList.lookup_eq_none.mpr hnew.2, AList.lookup_eq_none.mpr hfiles]
      exact ⟨iff_of_false hnew.1 hdirs, rfl⟩
  · intro p hp hnot
    obtain ⟨s, hs, rfl⟩ := (atOrBelow_iff hsrc).mp hp
    show src ++ s ∉ fs.dirs ∧ src ++ s ∉ (fs.files.erase src).insert dst content
    have hnotDst : src ++ s ≠ dst := fun heq => hnot (.inl heq)
    rw [AList.mem_insert, AList.mem_erase]
    by_cases hnil : s = []
    · subst hnil
      rw [List.append_nil] at hnotDst ⊢
      exact ⟨hapart, fun h => h.elim hnotDst fun h => h.1 rfl⟩
    · obtain ⟨hdirs, hfiles⟩ := hleaf s hs hnil
      exact ⟨hdirs, fun h => h.elim hnotDst fun h => hfiles h.2⟩

/-- A file comes back. -/
theorem rename_file_back (hfile : fs.files.lookup src = some content) (hvacant : fs.Vacant dst) :
    ((fs.rename src dst).2.rename dst src).1 = .ok () ∧
      Same ((fs.rename src dst).2.rename dst src).2 fs := by
  have hnew := hvacant.lookup_self
  have hne : src ≠ dst := ne_of_lookup hnew hfile
  have hfiles := fileAt_rename_file hfile hnew
  have hfile' : (fs.rename src dst).2.files.lookup dst = some content := by
    rw [rename_file hfile]
    exact AList.lookup_insert _
  have hnew' : (fs.rename src dst).2.files.lookup src = none := by
    rw [rename_file hfile]
    exact (AList.lookup_insert_ne hne).trans (AList.lookup_erase src fs.files)
  have hfree : Free (PEquiv.single src dst) fs.fileAt := by
    intro p c hp _
    rw [PEquiv.symm_single]
    have hplace : p ≠ dst := ne_of_lookup hnew hp
    exact PEquiv.single_apply_of_ne (Ne.symm hplace) src
  refine ⟨by rw [rename_file hfile'], .of_stores ?_ ?_⟩
  · rw [rename_file hfile', rename_file hfile]
    rfl
  · rw [fileAt_rename_file hfile' hnew', hfiles, ← PEquiv.symm_single]
    exact relocate_symm hfree

/-- **A rename is undone by renaming back.**  Nothing is a file and a directory or lies below a
file, and there is nothing at the destination or below it, which may lie in the source itself. -/
theorem rename_undone (hapart : ∀ p ∈ fs.dirs, p ∉ fs.files)
    (hleaf : ∀ f ∈ fs.files, ∀ rest, f ++ '/' :: rest ∉ fs.dirs ∧ f ++ '/' :: rest ∉ fs.files)
    (hexists : src ∈ fs.dirs ∨ src ∈ fs.files) (hsrc : src.getLast? ≠ some '/')
    (hdst : dst.getLast? ≠ some '/') (hvacant : fs.Vacant dst) :
    (fs.rename src dst).1 = .ok () ∧ Moved fs (fs.rename src dst).2 src dst ∧
      ((fs.rename src dst).2.rename dst src).1 = .ok () ∧
      Same ((fs.rename src dst).2.rename dst src).2 fs := by
  cases hfile : fs.files.lookup src with
  | some content =>
    have hmem : src ∈ fs.files := mem_of_fileAt hfile
    have hsrcDir : src ∉ fs.dirs := fun h => hapart src h hmem
    have hbelow : ∀ s, PathSuffix s → s ≠ [] → src ++ s ∉ fs.dirs ∧ src ++ s ∉ fs.files := by
      rintro s (rfl | ⟨rest, rfl⟩) hne
      · exact absurd rfl hne
      · exact hleaf src hmem rest
    exact ⟨by rw [rename_file hfile], moved_rename_file hfile hsrcDir hbelow hsrc hdst hvacant,
      rename_file_back hfile hvacant⟩
  | none =>
    have hdir : src ∈ fs.dirs := hexists.resolve_right (AList.lookup_eq_none.mp hfile)
    exact ⟨rename_dir_ok hfile hdir, moved_rename_dir hfile hdir hsrc hdst hvacant,
      rename_dir_back hfile hdir hsrc hdst hvacant⟩

/-- The data directory of the seeded filesystem, moved into itself and back. -/
theorem rename_undone_into_itself :
    (seeded.rename "/home/researcher/data".toList "/home/researcher/data/old".toList).1 = .ok () ∧
      Same ((seeded.rename "/home/researcher/data".toList "/home/researcher/data/old".toList).2.rename
        "/home/researcher/data/old".toList "/home/researcher/data".toList).2 seeded := by
  have hleaf : ∀ f ∈ seeded.files, ∀ rest,
      f ++ '/' :: rest ∉ seeded.dirs ∧ f ++ '/' :: rest ∉ seeded.files := by
    have hdirs : ∀ f ∈ seeded.files.keys, ∀ p ∈ seeded.dirs, ¬ f ++ ['/'] <+: p := by
      decide +kernel
    have hfiles : ∀ f ∈ seeded.files.keys, ∀ p ∈ seeded.files.keys, ¬ f ++ ['/'] <+: p := by
      decide +kernel
    intro f hf rest
    have hprefix : f ++ ['/'] <+: f ++ '/' :: rest := ⟨rest, by simp⟩
    rw [AList.mem_keys] at hf
    exact ⟨fun h => hdirs f hf _ h hprefix, fun h => hfiles f hf _ (AList.mem_keys.mp h) hprefix⟩
  obtain ⟨hok, _, _, hback⟩ := @rename_undone seeded "/home/researcher/data".toList
    "/home/researcher/data/old".toList (by decide +kernel) hleaf (by decide +kernel) (by decide)
    (by decide) (by decide +kernel)
  exact ⟨hok, hback⟩

/-! ## §5. Renaming by copying. -/

/-- What is at a fresh place or below it is not at the source or below it, where the place
itself is not. -/
theorem Vacant.outside (hvacant : fs.Vacant dst) (hexists : src ∈ fs.dirs ∨ src ∈ fs.files)
    (hdst : dst.getLast? ≠ some '/') (hout : ¬ AtOrBelow src dst) (hp : AtOrBelow dst p) :
    ¬ AtOrBelow src p := by
  have hsrc : ¬ AtOrBelow dst src := fun h =>
    hexists.elim (hvacant src h).1 (hvacant src h).2
  rintro (rfl | hstart)
  · exact hsrc hp
  · obtain ⟨rest, rfl⟩ := startsWith_iff.mp hstart
    obtain ⟨s, hs, hsplit⟩ := (atOrBelow_iff hdst).mp hp
    -- Both begin the path, so the destination is below the source or the other way round.
    obtain hprefix | hprefix := List.prefix_or_prefix_of_prefix (List.prefix_append (below src) rest)
      (hsplit ▸ List.prefix_append dst s)
    · obtain ⟨more, hmore⟩ := hprefix
      exact hout (.inr (startsWith_iff.mpr ⟨more, hmore.symm⟩))
    · obtain ⟨t, ht⟩ := hprefix
      rw [← ht, List.append_assoc] at hsplit
      obtain rfl := List.append_cancel_left hsplit
      apply hsrc
      apply atOrBelow_of_below hdst
      rw [← ht]
      exact (atOrBelow_iff hdst).mpr ⟨t, hs.of_append, rfl⟩

/-- **A rename is a copy and a recursive removal**, for a destination outside of the source at
which, and below which, there is nothing. -/
theorem rename_copy_remove (hexists : src ∈ fs.dirs ∨ src ∈ fs.files)
    (hdst : dst.getLast? ≠ some '/') (hout : ¬ AtOrBelow src dst) (hvacant : fs.Vacant dst) :
    (fs.rename src dst).1 = .ok () ∧ (fs.copy src dst).1 = .ok () ∧
      ((fs.copy src dst).2.remove src true).1 = .ok () ∧
      Same (fs.rename src dst).2 ((fs.copy src dst).2.remove src true).2 := by
  have hne : src ≠ dst := fun h => hout (.inl h.symm)
  cases hfile : fs.files.lookup src with
  | some content =>
    have hkept : (fs.copy src dst).2.files.lookup src = some content := by
      rw [copy_file hfile]
      exact (AList.lookup_insert_ne hne).trans hfile
    refine ⟨by rw [rename_file hfile], by rw [copy_file hfile], by rw [remove_file hkept], ?_⟩
    rw [remove_file hkept, rename_file hfile, copy_file hfile]
    refine ⟨rfl, fun p => ?_⟩
    show ((fs.files.erase src).insert dst content).lookup p
      = ((fs.files.insert dst content).erase src).lookup p
    by_cases hp : p = dst
    · subst hp
      rw [AList.lookup_insert, AList.lookup_erase_ne (Ne.symm hne), AList.lookup_insert]
    · rw [AList.lookup_insert_ne hp]
      by_cases hsrc : p = src
      · rw [hsrc, AList.lookup_erase, AList.lookup_erase]
      · rw [AList.lookup_erase_ne hsrc, AList.lookup_erase_ne hsrc, AList.lookup_insert_ne hp]
  | none =>
    have hdir : src ∈ fs.dirs := hexists.resolve_right (AList.lookup_eq_none.mp hfile)
    have hkeptDir : src ∈ (fs.copy src dst).2.dirs := (mem_dirs_copy hfile hdir).mpr (.inr hdir)
    have hkeptFile : (fs.copy src dst).2.files.lookup src = none := by
      refine Option.eq_none_iff_forall_ne_some.mpr fun c hc => ?_
      obtain ⟨rest, hrest, _⟩ | ⟨_, hold⟩ := (lookup_copy hfile hdir).mp hc
      · exact (hvacant src (.inr (startsWith_iff.mpr ⟨rest, hrest⟩))).1 hdir
      · exact ne_of_lookup hfile hold rfl
    -- where things move to, nothing is moved away
    have hapart : ∀ q s, q ∈ moves src dst s → moves src dst q = none := fun q s hq =>
      (moves_eq_none hdst).mpr (hvacant.outside hexists hdst hout (atOrBelow_of_mem_moves hq))
    refine ⟨rename_dir_ok hfile hdir, copy_dir_ok hfile hdir, remove_dir_ok hkeptFile hkeptDir,
      .of_stores ?_ ?_⟩
    · rw [dirAt_rename hfile hdir hdst, dirAt_remove hkeptFile hkeptDir hdst,
        dirAt_copy hfile hdir hdst]
      exact relocate_eq_discard_duplicate hapart
    · rw [fileAt_rename hfile hdir hdst (hvacant.room src),
        fileAt_remove hkeptFile hkeptDir hdst, fileAt_copy hfile hdir hdst hvacant]
      exact relocate_eq_discard_duplicate hapart

/-- The data directory of the seeded filesystem, under a name that its own begins. -/
theorem rename_copy_remove_data :
    Same (seeded.rename "/home/researcher/data".toList "/home/researcher/database".toList).2
      ((seeded.copy "/home/researcher/data".toList "/home/researcher/database".toList).2.remove
        "/home/researcher/data".toList true).2 :=
  (@rename_copy_remove seeded "/home/researcher/data".toList "/home/researcher/database".toList
    (by decide +kernel) (by decide) (by decide) (by decide +kernel)).2.2.2

end MockFs

end ResearchSSH.Core
