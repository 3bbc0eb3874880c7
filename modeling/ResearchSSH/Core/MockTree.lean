/-
  ResearchSSH.Core.MockTree — when the in-memory filesystem is a tree.

  No operation looks for the parent of what it makes, or for an entry of the other kind at the
  place where it puts something: the filesystem is a set of paths and a map.  It is a tree as long
  as its callers see to both.

  Main results:
    * `isTree_iff_rooted` — a tree is told by the kinds and the parents of its entries.
    * `tree_iff_wellPlaced` — every state of a run is a tree exactly if every call of the run puts
      its entries into directories and not over entries of the other kind.
-/

import ResearchSSH.Core.MockMoves
import ResearchSSH.Library.Transition

namespace ResearchSSH.Core

open ResearchSSH.Library

namespace MockFs

/-! ## §1. Trees. -/

/-- There is something at the path. -/
def Has (fs : MockFs) (p : Text) : Prop := p ∈ fs.dirs ∨ p ∈ fs.files

/-- The home directory, and what is listed for directories that are reached. -/
inductive Reached (fs : MockFs) : Text → Prop
  | home : Reached fs mockHome
  | listed {dir : Text} {es : List FileEntry} {e : FileEntry} :
      Reached fs dir → fs.listDir dir = .ok es → e ∈ es → Reached fs e.path

/-- What stands before the name of the path is what every path below `dir` begins with. -/
def IsParent (dir p : Text) : Prop := below dir = p.rdropWhile (· ≠ '/')

/-- The paths make a tree below the home directory. -/
structure IsTree (fs : MockFs) : Prop where
  apart : ∀ p ∈ fs.dirs, p ∉ fs.files
  parent : ∀ p, fs.Has p → p ≠ mockHome → ∃ dir ∈ fs.dirs, IsParent dir p
  reached : ∀ p, fs.Has p → fs.Reached p
  agrees : ∀ dir es e, fs.listDir dir = .ok es → e ∈ es → fs.stat e.path = .ok e

/-- The path is the directory's, a slash and a name. -/
def IsChild (dir p : Text) : Prop := ∃ name, name ≠ [] ∧ '/' ∉ name ∧ p = dir ++ '/' :: name

/-- The home directory itself, or a path in a directory that is kept. -/
def Placed (fs : MockFs) (kept : Text → Prop) (p : Text) : Prop :=
  p = mockHome ∨ ∃ dir ∈ fs.dirs, kept dir ∧ IsChild dir p

/-- The kinds and the places of the entries of a tree. -/
structure Rooted (fs : MockFs) : Prop where
  apart : ∀ p ∈ fs.dirs, p ∉ fs.files
  placed : ∀ p, fs.Has p → fs.Placed (fun _ => True) p

variable {fs : MockFs} {src dst p dir name : Text}

/-- The name of an entry of a directory. -/
theorem childName_eq_some {start : Text} : childName start p = some name ↔
    p = start ++ name ∧ name ≠ [] ∧ '/' ∉ name := by
  unfold childName
  split
  · next hstart =>
    obtain ⟨rest, rfl⟩ := startsWith_iff.mp hstart
    simp only [List.drop_left, Option.ite_none_left_eq_some, Option.some.injEq, not_or,
      List.append_cancel_left_eq]
    constructor
    · rintro ⟨hname, rfl⟩
      exact ⟨rfl, hname⟩
    · rintro ⟨rfl, hname⟩
      exact ⟨hname, rfl⟩
  · next hstart =>
    constructor
    · intro h
      cases h
    · rintro ⟨rfl, _⟩
      exact absurd (startsWith_iff.mpr ⟨name, rfl⟩) hstart

instance (dir p : Text) : Decidable (IsChild dir p) :=
  decidable_of_iff ((childName (dir ++ ['/']) p).isSome = true) <| by
    rw [Option.isSome_iff_exists]
    refine exists_congr fun name => ?_
    rw [childName_eq_some, List.append_assoc]
    exact ⟨fun ⟨hp, hne, hslash⟩ => ⟨hne, hslash, hp⟩, fun ⟨hne, hslash, hp⟩ => ⟨hp, hne, hslash⟩⟩

instance (fs : MockFs) (kept : Text → Prop) [DecidablePred kept] (p : Text) :
    Decidable (fs.Placed kept p) := inferInstanceAs (Decidable (_ ∨ _))

/-! ### Listings. -/

/-- What is listed for a directory. -/
theorem mem_children {e : FileEntry} : e ∈ fs.children dir ↔
    ∃ name, name ≠ [] ∧ '/' ∉ name ∧
      ((below dir ++ name ∈ fs.dirs ∧ e = entry (below dir ++ name) name true 0) ∨
        (below dir ++ name ∈ fs.files ∧ e = entry (below dir ++ name) name false
          ((fs.files.lookup (below dir ++ name)).getD []).length.toUInt64)) := by
  unfold children
  simp only [List.mem_append, List.mem_map, Finset.mem_sort, Finset.mem_eraseNone, Finset.mem_image,
    childName_eq_some, List.mem_toFinset, AList.mem_keys.symm]
  constructor
  · rintro (⟨name, ⟨p, hp, rfl, hne, hslash⟩, rfl⟩ | ⟨name, ⟨p, hp, rfl, hne, hslash⟩, rfl⟩)
    · exact ⟨name, hne, hslash, .inl ⟨hp, rfl⟩⟩
    · exact ⟨name, hne, hslash, .inr ⟨hp, rfl⟩⟩
  · rintro ⟨name, hne, hslash, ⟨hp, rfl⟩ | ⟨hp, rfl⟩⟩
    · exact .inl ⟨name, ⟨_, hp, rfl, hne, hslash⟩, rfl⟩
    · exact .inr ⟨name, ⟨_, hp, rfl, hne, hslash⟩, rfl⟩

/-- What a listing lists. -/
theorem listDir_ok {es : List FileEntry} :
    fs.listDir p = .ok es ↔ resolve p ∈ fs.dirs ∧ es = fs.children (resolve p) := by
  unfold listDir
  dsimp only
  split
  · next h =>
    rw [Except.ok.injEq]
    exact ⟨fun hes => ⟨h, hes.symm⟩, fun hes => hes.2.symm⟩
  · next h =>
    constructor
    · intro hes
      cases hes
    · rintro ⟨hmem, _⟩
      exact absurd hmem h

theorem resolve_of_slash (h : '/' ∈ p) : resolve p = p := by
  unfold resolve
  rw [if_neg]
  rintro (rfl | rfl)
  · cases h
  · exact absurd h (by decide)

theorem slash_mem_below (path rest : Text) : '/' ∈ below path ++ rest := by
  unfold below
  simp

/-- A directory is reported as one. -/
theorem stat_dir (hslash : '/' ∈ p) (hdir : p ∈ fs.dirs) :
    fs.stat p = .ok (entry p (p.rtakeWhile (· ≠ '/')) true 0) := by
  unfold stat
  rw [resolve_of_slash hslash]
  dsimp only
  rw [if_pos hdir]

/-- A file is reported with its size. -/
theorem stat_file {content : List UInt8} (hslash : '/' ∈ p) (hdir : p ∉ fs.dirs)
    (hcontent : fs.files.lookup p = some content) : fs.stat p
      = .ok (entry p (p.rtakeWhile (· ≠ '/')) false content.length.toUInt64) := by
  unfold stat
  rw [resolve_of_slash hslash]
  dsimp only
  rw [if_neg hdir, hcontent]

/-- A path is cut before its name. -/
theorem cut_name (hslash : '/' ∉ name) (start : Text) :
    (start ++ '/' :: name).rtakeWhile (· ≠ '/') = name ∧
      (start ++ '/' :: name).rdropWhile (· ≠ '/') = start ++ ['/'] := by
  have hname : ∀ c ∈ name.reverse, decide (c ≠ '/') = true := by
    intro c hc
    refine decide_eq_true fun h => hslash ?_
    rw [← h]
    exact List.mem_reverse.mp hc
  have hreverse : (start ++ '/' :: name).reverse = name.reverse ++ '/' :: start.reverse := by simp
  constructor
  · rw [List.rtakeWhile, hreverse, List.takeWhile_append_of_pos hname]
    simp
  · rw [List.rdropWhile, hreverse, List.dropWhile_append_of_pos hname]
    simp

/-- Without a path of both kinds, an entry of a listing is what `stat` says of it. -/
theorem stat_listed (hapart : ∀ p ∈ fs.dirs, p ∉ fs.files) {es : List FileEntry} {e : FileEntry}
    (hes : fs.listDir dir = .ok es) (he : e ∈ es) : fs.stat e.path = .ok e := by
  obtain ⟨_, rfl⟩ := listDir_ok.mp hes
  have hlast : ∀ name : Text, '/' ∉ name →
      (below (resolve dir) ++ name).rtakeWhile (· ≠ '/') = name := by
    intro name hslash
    unfold below
    rw [List.append_assoc]
    exact (cut_name hslash _).1
  obtain ⟨name, hne, hslash, ⟨hp, rfl⟩ | ⟨hp, rfl⟩⟩ := mem_children.mp he
  · show fs.stat (below (resolve dir) ++ name) = _
    rw [stat_dir (slash_mem_below _ _) hp, hlast name hslash]
  · have hdir : below (resolve dir) ++ name ∉ fs.dirs := fun h => hapart _ h hp
    obtain ⟨content, hcontent⟩ := Option.isSome_iff_exists.mp (AList.lookup_isSome.mpr hp)
    show fs.stat (below (resolve dir) ++ name) = _
    rw [stat_file (slash_mem_below _ _) hdir hcontent, hlast name hslash, hcontent,
      Option.getD_some]

/-! ### Places. -/

theorem IsChild.slash_mem (h : IsChild dir p) : '/' ∈ p := by
  obtain ⟨name, _, _, rfl⟩ := h
  simp

theorem IsChild.getLast? (h : IsChild dir p) : p.getLast? ≠ some '/' := by
  obtain ⟨name, hne, hslash, rfl⟩ := h
  intro hlast
  obtain ⟨name, c, rfl⟩ := (List.eq_nil_or_concat' name).resolve_left hne
  rw [← List.cons_append, ← List.append_assoc, List.getLast?_concat, Option.some.injEq] at hlast
  exact hslash (by simp [hlast])

theorem IsChild.length_lt (h : IsChild dir p) : dir.length < p.length := by
  obtain ⟨name, _, _, rfl⟩ := h
  simp

theorem mockHome_getLast? : mockHome.getLast? ≠ some '/' := by decide

theorem Placed.getLast? {kept : Text → Prop} (h : fs.Placed kept p) : p.getLast? ≠ some '/' := by
  obtain rfl | ⟨dir, _, _, hchild⟩ := h
  · exact mockHome_getLast?
  · exact hchild.getLast?

theorem Placed.slash_mem {kept : Text → Prop} (h : fs.Placed kept p) : '/' ∈ p := by
  obtain rfl | ⟨dir, _, _, hchild⟩ := h
  · decide
  · exact hchild.slash_mem

/-- What is listed for a directory that is reached has its place there. -/
theorem placed_of_reached (h : fs.Reached p) : fs.Placed (fun _ => True) p := by
  induction h with
  | home => exact .inl rfl
  | @listed dir es e _ hes he ih =>
    obtain ⟨hdir, rfl⟩ := listDir_ok.mp hes
    rw [resolve_of_slash ih.slash_mem] at hdir he
    obtain ⟨name, hne, hslash, hentry⟩ := mem_children.mp he
    have hpath : e.path = dir ++ '/' :: name := by
      have hbelow : e.path = below dir ++ name := by
        obtain ⟨_, rfl⟩ | ⟨_, rfl⟩ := hentry <;> rfl
      rw [hbelow, below_eq ih.getLast?, List.append_assoc]
      rfl
    exact .inr ⟨dir, hdir, trivial, name, hne, hslash, hpath⟩

theorem Rooted.getLast? (h : fs.Rooted) (hp : fs.Has p) : p.getLast? ≠ some '/' :=
  (h.placed p hp).getLast?

/-- An entry in a directory is listed for it. -/
theorem Rooted.listed (h : fs.Rooted) (hdir : dir ∈ fs.dirs) (hp : fs.Has p)
    (hchild : IsChild dir p) : ∃ e ∈ fs.children dir, e.path = p := by
  obtain ⟨name, hne, hslash, rfl⟩ := hchild
  have hbelow : below dir ++ name = dir ++ '/' :: name := by
    rw [below_eq (h.getLast? (.inl hdir)), List.append_assoc]
    rfl
  rw [← hbelow] at hp ⊢
  obtain hp | hp := hp
  · exact ⟨_, mem_children.mpr ⟨name, hne, hslash, .inl ⟨hp, rfl⟩⟩, rfl⟩
  · exact ⟨_, mem_children.mpr ⟨name, hne, hslash, .inr ⟨hp, rfl⟩⟩, rfl⟩

/-- Every entry is reached: by induction on the length of its path, its directory is. -/
theorem Rooted.reached (h : fs.Rooted) (hp : fs.Has p) : fs.Reached p := by
  induction hlength : p.length using Nat.strong_induction_on generalizing p with
  | _ n ih =>
    obtain rfl | ⟨dir, hdir, -, hchild⟩ := h.placed p hp
    · exact .home
    · have hreached := ih dir.length (hlength ▸ hchild.length_lt) (.inl hdir) rfl
      obtain ⟨e, he, rfl⟩ := h.listed hdir hp hchild
      refine .listed hreached (listDir_ok.mpr ⟨?_, rfl⟩) ?_
      · rw [resolve_of_slash (h.placed dir (.inl hdir)).slash_mem]
        exact hdir
      · rw [resolve_of_slash (h.placed dir (.inl hdir)).slash_mem]
        exact he

/-- **A tree is told by its entries**: no path is of both kinds, and each one but the home
directory has its place in a directory. -/
theorem isTree_iff_rooted : fs.IsTree ↔ fs.Rooted := by
  constructor
  · intro h
    exact ⟨h.apart, fun p hp => placed_of_reached (h.reached p hp)⟩
  · intro h
    refine ⟨h.apart, fun p hp hne => ?_, fun p hp => h.reached hp,
      fun dir es e hes he => stat_listed h.apart hes he⟩
    obtain ⟨dir, hdir, -, name, _, hslash, rfl⟩ := (h.placed p hp).resolve_left hne
    refine ⟨dir, hdir, ?_⟩
    show below dir = _
    rw [(cut_name hslash dir).2, below_eq (h.getLast? (.inl hdir))]

/-! ## §2. What an operation may do to a tree. -/

/-- What becomes of the entries when the directory `src` becomes `dst`, or is copied there:
everything at `src` or below it is at or below `dst`, beside what is kept. -/
structure Rearranged (fs fs' : MockFs) (kept : Text → Prop) (src dst : Text) : Prop where
  dirs : ∀ p, p ∈ fs'.dirs ↔
    (∃ d ∈ fs.dirs, AtOrBelow src d ∧ renamedDir src dst d = p) ∨ (p ∈ fs.dirs ∧ kept p)
  files : ∀ p, p ∈ fs'.files ↔
    (∃ f ∈ fs.files, AtOrBelow src f ∧ renamedDir src dst f = p) ∨ (p ∈ fs.files ∧ kept p)

/-- The new place of `src` is in a directory that is kept, and nothing that is kept gets an entry
of the other kind. -/
structure Receives (fs : MockFs) (kept : Text → Prop) (src dst : Text) : Prop where
  placed : fs.Placed kept dst
  dirs : ∀ d ∈ fs.dirs, AtOrBelow src d → ∀ f ∈ fs.files, kept f → renamedDir src dst d ≠ f
  files : ∀ f ∈ fs.files, AtOrBelow src f → ∀ d ∈ fs.dirs, kept d → renamedDir src dst f ≠ d

/-- The directory of what is kept is kept. -/
def ParentClosed (kept : Text → Prop) : Prop := ∀ dir p, IsChild dir p → kept p → kept dir

/-- What is below moves along. -/
theorem renamedDir_suffix {s : Text} (hsrc : src.getLast? ≠ some '/')
    (hdst : dst.getLast? ≠ some '/') (hs : PathSuffix s) :
    renamedDir src dst (src ++ s) = dst ++ s :=
  ((mem_moves hdst).mp (mem_moves_suffix hsrc hdst hs)).2

/-- Two directories that move do not meet. -/
theorem renamedDir_injective {q : Text} (hdst : dst.getLast? ≠ some '/') (hp : AtOrBelow src p)
    (hq : AtOrBelow src q) (h : renamedDir src dst p = renamedDir src dst q) : p = q :=
  (moves src dst).inj ((mem_moves hdst).mpr ⟨hp, h⟩) ((mem_moves hdst).mpr ⟨hq, rfl⟩)

/-- The directory of a path that is properly below `src` is at `src` or below it. -/
theorem IsChild.split (hsrc : src.getLast? ≠ some '/') (h : IsChild dir p) (hp : AtOrBelow src p) :
    p = src ∨ ∃ s name, PathSuffix s ∧ dir = src ++ s ∧ p = src ++ (s ++ '/' :: name) ∧
      name ≠ [] ∧ '/' ∉ name := by
  obtain ⟨u, hu, rfl⟩ := (atOrBelow_iff hsrc).mp hp
  obtain rfl | ⟨rest, rfl⟩ := hu
  · exact .inl (List.append_nil _)
  · obtain ⟨name, hne, hslash, heq⟩ := h
    refine .inr ?_
    -- the last slash is the one behind `src` or a later one
    obtain hprefix | hprefix := List.prefix_or_prefix_of_prefix
      (List.prefix_append src ('/' :: rest)) (heq ▸ List.prefix_append dir ('/' :: name))
    · obtain ⟨s, rfl⟩ := hprefix
      rw [List.append_assoc] at heq
      have htail := List.append_cancel_left heq
      exact ⟨s, name, .of_append (.inr ⟨rest, htail.symm⟩), rfl, by rw [htail], hne, hslash⟩
    · obtain ⟨t, rfl⟩ := hprefix
      rw [List.append_assoc] at heq
      have htail := List.append_cancel_left heq
      cases t with
      | nil =>
        refine ⟨[], name, .inl rfl, by simp, ?_, hne, hslash⟩
        rw [List.nil_append] at htail
        rw [← htail]
        simp
      | cons c t =>
        -- a slash behind `src` would stand in the name
        obtain ⟨_, hname⟩ := List.cons.inj htail
        exact absurd (by rw [← hname]; simp) hslash

theorem parentClosed_true : ParentClosed fun _ => True := fun _ _ _ _ => trivial

/-- What stays when a directory is moved away or removed. -/
theorem parentClosed_elsewhere (hsrc : src.getLast? ≠ some '/') :
    ParentClosed fun p => ¬ AtOrBelow src p := by
  rintro dir p ⟨name, _, _, rfl⟩ hkept hdir
  obtain ⟨s, hs, rfl⟩ := (atOrBelow_iff hsrc).mp hdir
  refine hkept ((atOrBelow_iff hsrc).mpr ⟨s ++ '/' :: name, ?_, List.append_assoc _ _ _⟩)
  obtain rfl | ⟨rest, rfl⟩ := hs
  · exact .inr ⟨name, rfl⟩
  · exact .inr ⟨rest ++ '/' :: name, rfl⟩

/-- Nothing has a shorter path than the home directory. -/
theorem Rooted.length_le (h : fs.Rooted) (hp : fs.Has p) : mockHome.length ≤ p.length := by
  induction hlength : p.length using Nat.strong_induction_on generalizing p with
  | _ n ih =>
    obtain rfl | ⟨dir, hdir, -, hchild⟩ := h.placed p hp
    · exact hlength.le
    · have hlt := hchild.length_lt
      have hle := ih dir.length (hlength ▸ hlt) (.inl hdir) rfl
      omega

section
variable {fs' : MockFs} {kept : Text → Prop}

/-- What moves along has its place beside its directory, which moves along too. -/
theorem Rearranged.placed_moved (hr : Rearranged fs fs' kept src dst) (h : fs.Rooted)
    (hdir : src ∈ fs.dirs) (hc : fs.Receives kept src dst) {q : Text} (hq : fs.Has q)
    (hat : AtOrBelow src q) : fs'.Placed (fun _ => True) (renamedDir src dst q) := by
  have hsrc := h.getLast? (.inl hdir)
  have hdst := hc.placed.getLast?
  have hself : renamedDir src dst src = dst := if_pos rfl
  have hroot : fs'.Placed (fun _ => True) dst := by
    obtain hhome | ⟨parent, hparent, hkept, hchild⟩ := hc.placed
    · exact .inl hhome
    · exact .inr ⟨parent, (hr.dirs parent).mpr (.inr ⟨hparent, hkept⟩), trivial, hchild⟩
  by_cases hne : q = src
  · rw [hne, hself]
    exact hroot
  · obtain rfl | ⟨parent, hparent, -, hchild⟩ := h.placed q hq
    · -- the home directory is not below another one
      obtain ⟨s, _, hs⟩ := (atOrBelow_iff hsrc).mp hat
      have hlength := congrArg List.length hs
      have hle := h.length_le (.inl hdir)
      rw [List.length_append] at hlength
      have hnil : s = [] := List.length_eq_zero_iff.mp (by omega)
      rw [hnil, List.append_nil] at hs
      exact absurd hs hne
    · -- its directory is at `src` or below it, and moves along
      obtain ⟨s, name, hs, rfl, rfl, hname, hslash⟩ := (hchild.split hsrc hat).resolve_left hne
      have hs' : PathSuffix (s ++ '/' :: name) := by
        obtain rfl | ⟨rest, rfl⟩ := hs
        · exact .inr ⟨name, rfl⟩
        · exact .inr ⟨rest ++ '/' :: name, rfl⟩
      rw [renamedDir_suffix hsrc hdst hs']
      refine .inr ⟨dst ++ s, (hr.dirs _).mpr (.inl ⟨src ++ s, hparent, ?_, ?_⟩), trivial, ?_⟩
      · exact (atOrBelow_iff hsrc).mpr ⟨s, hs, rfl⟩
      · exact renamedDir_suffix hsrc hdst hs
      · exact ⟨name, hname, hslash, (List.append_assoc _ _ _).symm⟩

/-- A tree stays one if its new place receives what moves. -/
theorem Rearranged.rooted (hr : Rearranged fs fs' kept src dst) (h : fs.Rooted)
    (hclosed : ParentClosed kept) (hdir : src ∈ fs.dirs) (hc : fs.Receives kept src dst) :
    fs'.Rooted := by
  constructor
  · -- both have moved along, one has, or both are kept
    intro p hp hfile
    obtain ⟨d, hd, hat, rfl⟩ | ⟨hd, hkept⟩ := (hr.dirs p).mp hp
    · obtain ⟨f, hf, hatFile, heq⟩ | ⟨hf, hkept⟩ := (hr.files _).mp hfile
      · obtain rfl := renamedDir_injective hc.placed.getLast? hatFile hat heq
        exact h.apart f hd hf
      · exact hc.dirs d hd hat _ hf hkept rfl
    · obtain ⟨f, hf, hatFile, heq⟩ | ⟨hf, _⟩ := (hr.files p).mp hfile
      · exact hc.files f hf hatFile p hd hkept heq
      · exact h.apart p hd hf
  · have hstays : ∀ p, fs.Has p → kept p → fs'.Placed (fun _ => True) p := by
      intro p hp hkept
      obtain hhome | ⟨parent, hparent, -, hchild⟩ := h.placed p hp
      · exact .inl hhome
      · refine .inr ⟨parent, (hr.dirs parent).mpr (.inr ⟨hparent, ?_⟩), trivial, hchild⟩
        exact hclosed parent p hchild hkept
    rintro p (hp | hp)
    · obtain ⟨d, hd, hat, rfl⟩ | ⟨hd, hkept⟩ := (hr.dirs p).mp hp
      · exact hr.placed_moved h hdir hc (.inl hd) hat
      · exact hstays p (.inl hd) hkept
    · obtain ⟨f, hf, hat, rfl⟩ | ⟨hf, hkept⟩ := (hr.files p).mp hp
      · exact hr.placed_moved h hdir hc (.inr hf) hat
      · exact hstays p (.inr hf) hkept

/-- The new place of a tree has received what moved. -/
theorem Rearranged.receives (hr : Rearranged fs fs' kept src dst) (h : fs.Rooted)
    (hdir : src ∈ fs.dirs) (h' : fs'.Rooted) : fs.Receives kept src dst := by
  have hsrc := h.getLast? (.inl hdir)
  have hself : AtOrBelow src src := .inl rfl
  have hdst : dst ∈ fs'.dirs := (hr.dirs dst).mpr (.inl ⟨src, hdir, hself, if_pos rfl⟩)
  refine ⟨?_, ?_, ?_⟩
  · obtain hhome | ⟨parent, hparent, -, hchild⟩ := h'.placed dst (.inl hdst)
    · exact .inl hhome
    · obtain ⟨d, _, hat, rfl⟩ | ⟨hd, hkept⟩ := (hr.dirs parent).mp hparent
      · -- nothing that moves along has a shorter path than its new place
        obtain ⟨s, hs, rfl⟩ := (atOrBelow_iff hsrc).mp hat
        have hlt := hchild.length_lt
        rw [renamedDir_suffix hsrc hchild.getLast? hs, List.length_append] at hlt
        omega
      · exact .inr ⟨parent, hd, hkept, hchild⟩
  · rintro d hd hat _ hf hkept rfl
    exact h'.apart _ ((hr.dirs _).mpr (.inl ⟨d, hd, hat, rfl⟩)) ((hr.files _).mpr (.inr ⟨hf, hkept⟩))
  · rintro f hf hat _ hd hkept rfl
    exact h'.apart _ ((hr.dirs _).mpr (.inr ⟨hd, hkept⟩)) ((hr.files _).mpr (.inl ⟨f, hf, hat, rfl⟩))

/-- A tree in which a directory is moved or copied is a tree exactly if the new place is fit. -/
theorem Rearranged.rooted_iff (hr : Rearranged fs fs' kept src dst) (h : fs.Rooted)
    (hclosed : ParentClosed kept) (hdir : src ∈ fs.dirs) :
    fs'.Rooted ↔ fs.Receives kept src dst :=
  ⟨hr.receives h hdir, hr.rooted h hclosed hdir⟩

/-- A tree into which a file is put is a tree exactly if it is in a directory and none itself. -/
theorem rooted_put_iff (h : fs.Rooted) (hdirs : fs'.dirs = fs.dirs) (hput : dst ∈ fs'.files)
    (hfiles : ∀ p ∈ fs'.files, p = dst ∨ p ∈ fs.files) :
    fs'.Rooted ↔ dst ∉ fs.dirs ∧ fs.Placed (fun _ => True) dst := by
  have hplaced : ∀ p, fs'.Placed (fun _ => True) p ↔ fs.Placed (fun _ => True) p := by
    intro p
    unfold Placed
    rw [hdirs]
  constructor
  · intro h'
    refine ⟨fun hd => h'.apart dst (hdirs ▸ hd) hput, ?_⟩
    exact (hplaced dst).mp (h'.placed dst (.inr hput))
  · rintro ⟨hnot, hdst⟩
    refine ⟨fun p hd hf => ?_, fun p hp => (hplaced p).mpr ?_⟩
    · rw [hdirs] at hd
      obtain rfl | hf := hfiles p hf
      · exact hnot hd
      · exact h.apart p hd hf
    · obtain hd | hf := hp
      · exact h.placed p (.inl (hdirs ▸ hd))
      · obtain rfl | hf := hfiles p hf
        · exact hdst
        · exact h.placed p (.inr hf)

/-- A tree of which only a part is left, each path with its directory, is one. -/
theorem Rooted.of_kept (h : fs.Rooted) (hclosed : ParentClosed kept)
    (hdirs : ∀ p, p ∈ fs'.dirs ↔ p ∈ fs.dirs ∧ kept p)
    (hfiles : ∀ p ∈ fs'.files, p ∈ fs.files ∧ kept p) : fs'.Rooted := by
  refine ⟨fun p hd hf => h.apart p ((hdirs p).mp hd).1 (hfiles p hf).1, fun p hp => ?_⟩
  have hold : fs.Has p ∧ kept p := by
    obtain hp | hp := hp
    · exact ⟨.inl ((hdirs p).mp hp).1, ((hdirs p).mp hp).2⟩
    · exact ⟨.inr (hfiles p hp).1, (hfiles p hp).2⟩
  obtain hhome | ⟨parent, hparent, -, hchild⟩ := h.placed p hold.1
  · exact .inl hhome
  · refine .inr ⟨parent, (hdirs parent).mpr ⟨hparent, ?_⟩, trivial, hchild⟩
    exact hclosed parent p hchild hold.2

end

/-! ## §3. The operations. -/

/-- When a write keeps the tree. -/
theorem rooted_writeFile_iff (h : fs.Rooted) (data : List UInt8) :
    (fs.writeFile p data).Rooted ↔ p ∉ fs.dirs ∧ fs.Placed (fun _ => True) p := by
  refine rooted_put_iff h rfl ?_ fun q hq => ?_
  · exact AList.mem_insert _ |>.mpr (.inl rfl)
  · exact (AList.mem_insert _).mp hq

/-- When a new directory keeps the tree. -/
theorem rooted_mkdir_iff (h : fs.Rooted) :
    (fs.mkdir p).Rooted ↔ p ∉ fs.files ∧ fs.Placed (fun _ => True) p := by
  have hdirs : ∀ d, d ∈ (fs.mkdir p).dirs ↔ d = p ∨ d ∈ fs.dirs := fun d => Finset.mem_insert
  constructor
  · intro h'
    have hp : p ∈ (fs.mkdir p).dirs := (hdirs p).mpr (.inl rfl)
    refine ⟨h'.apart p hp, ?_⟩
    obtain hhome | ⟨parent, hparent, -, hchild⟩ := h'.placed p (.inl hp)
    · exact .inl hhome
    · -- the new directory is not in itself
      obtain rfl | hold := (hdirs parent).mp hparent
      · exact absurd hchild.length_lt (lt_irrefl _)
      · exact .inr ⟨parent, hold, trivial, hchild⟩
  · rintro ⟨hnot, hplaced⟩
    have hmono : ∀ q, fs.Placed (fun _ => True) q → (fs.mkdir p).Placed (fun _ => True) q := by
      rintro q (hhome | ⟨parent, hparent, -, hchild⟩)
      · exact .inl hhome
      · exact .inr ⟨parent, (hdirs parent).mpr (.inr hparent), trivial, hchild⟩
    refine ⟨fun q hq hf => ?_, fun q hq => hmono q ?_⟩
    · obtain rfl | hq := (hdirs q).mp hq
      · exact hnot hf
      · exact h.apart q hq hf
    · obtain hq | hq := hq
      · obtain rfl | hq := (hdirs q).mp hq
        · exact hplaced
        · exact h.placed q (.inl hq)
      · exact h.placed q (.inr hq)

theorem mem_files_iff : p ∈ fs.files ↔ ∃ content, fs.files.lookup p = some content :=
  AList.lookup_isSome.symm.trans Option.isSome_iff_exists

/-- The new places of the files below a directory, which is no file itself. -/
theorem mem_files_moved (hfile : fs.files.lookup src = none) :
    (∃ f ∈ fs.files, AtOrBelow src f ∧ renamedDir src dst f = p) ↔
      ∃ rest, p = below dst ++ rest ∧ below src ++ rest ∈ fs.files := by
  have hnot : src ∉ fs.files := AList.lookup_eq_none.mp hfile
  have hmoved : ∀ rest, below src ++ rest ∈ fs.files →
      renamedDir src dst (below src ++ rest) = below dst ++ rest := by
    intro rest hf
    unfold renamedDir
    have hne : below src ++ rest ≠ src := by
      intro heq
      rw [heq] at hf
      exact hnot hf
    rw [if_neg hne, replacePrefix_append]
  constructor
  · rintro ⟨f, hf, rfl | hstart, rfl⟩
    · exact absurd hf hnot
    · obtain ⟨rest, rfl⟩ := startsWith_iff.mp hstart
      exact ⟨rest, hmoved rest hf, hf⟩
  · rintro ⟨rest, rfl, hf⟩
    exact ⟨_, hf, .inr (startsWith_iff.mpr ⟨rest, rfl⟩), hmoved rest hf⟩

/-- The files, where those that move along are written over what is kept. -/
theorem mem_files_rearranged {fs' : MockFs} {kept : Prop}
    (hfile : fs.files.lookup src = none)
    (hlookup : ∀ content, fs'.files.lookup p = some content ↔
      (∃ rest, p = below dst ++ rest ∧ fs.files.lookup (below src ++ rest) = some content)
        ∨ ((∀ rest, p = below dst ++ rest → fs.files.lookup (below src ++ rest) = none)
          ∧ fs.files.lookup p = some content ∧ kept)) :
    p ∈ fs'.files ↔
      (∃ f ∈ fs.files, AtOrBelow src f ∧ renamedDir src dst f = p) ∨ (p ∈ fs.files ∧ kept) := by
  rw [mem_files_moved hfile, mem_files_iff, mem_files_iff]
  simp only [hlookup]
  constructor
  · rintro ⟨content, ⟨rest, hp, hf⟩ | ⟨_, hp, hkept⟩⟩
    · exact .inl ⟨rest, hp, mem_of_fileAt hf⟩
    · exact .inr ⟨⟨content, hp⟩, hkept⟩
  · intro hp
    -- what arrives comes first: it stands over what is kept
    by_cases hmoved : ∃ rest, p = below dst ++ rest ∧ below src ++ rest ∈ fs.files
    · obtain ⟨rest, hp, hf⟩ := hmoved
      obtain ⟨content, hcontent⟩ := mem_files_iff.mp hf
      exact ⟨content, .inl ⟨rest, hp, hcontent⟩⟩
    · obtain ⟨⟨content, hcontent⟩, hkept⟩ := hp.resolve_left hmoved
      refine ⟨content, .inr ⟨fun rest hrest => ?_, hcontent, hkept⟩⟩
      exact AList.lookup_eq_none.mpr fun hf => hmoved ⟨rest, hrest, hf⟩

section
variable (hfile : fs.files.lookup src = none) (hdir : src ∈ fs.dirs)

include hfile hdir

/-- A rename rearranges. -/
theorem rearranged_rename :
    Rearranged fs (fs.rename src dst).2 (fun p => ¬ AtOrBelow src p) src dst :=
  ⟨fun _ => mem_dirs_rename hfile hdir,
    fun _ => mem_files_rearranged hfile fun _ => lookup_rename hfile hdir⟩

/-- A copy rearranges. -/
theorem rearranged_copy : Rearranged fs (fs.copy src dst).2 (fun _ => True) src dst := by
  refine ⟨fun p => ?_, fun p => mem_files_rearranged hfile fun content => ?_⟩
  · rw [mem_dirs_copy hfile hdir, and_true]
  · rw [lookup_copy hfile hdir, and_true]

/-- A directory that is removed takes along what is below it. -/
theorem rooted_remove_dir (h : fs.Rooted) : (fs.remove src true).2.Rooted := by
  refine h.of_kept (parentClosed_elsewhere (h.getLast? (.inl hdir)))
    (fun p => mem_dirs_remove hfile hdir) fun p hp => ?_
  obtain ⟨content, hcontent⟩ := mem_files_iff.mp hp
  obtain ⟨hold, hkept⟩ := (lookup_remove hfile hdir).mp hcontent
  exact ⟨mem_of_fileAt hold, hkept⟩

end

/-- Without `recursive`, a directory is removed only if nothing is below it. -/
theorem remove_dir_cases (hfile : fs.files.lookup src = none) (hdir : src ∈ fs.dirs)
    (recursive : Bool) : (fs.remove src recursive).2 = fs ∨
      fs.remove src recursive = fs.remove src true := by
  unfold remove
  rw [hfile, Option.isSome_none, if_neg Bool.false_ne_true, if_pos hdir, if_neg Bool.false_ne_true,
    if_pos hdir]
  dsimp only
  split
  · exact .inl rfl
  · rw [if_neg fun hrec => absurd hrec.2 Bool.noConfusion]
    exact .inr rfl

/-- A removal keeps the tree. -/
theorem rooted_remove (h : fs.Rooted) (recursive : Bool) :
    (fs.remove src recursive).2.Rooted := by
  cases hfile : fs.files.lookup src with
  | some content =>
    rw [remove_file hfile]
    refine h.of_kept parentClosed_true (fun p => ?_) fun p hp => ⟨?_, trivial⟩
    · rw [and_true]
    · exact (AList.mem_erase.mp hp).2
  | none =>
    by_cases hdir : src ∈ fs.dirs
    · obtain hsame | hsame := remove_dir_cases hfile hdir recursive
      · rw [hsame]
        exact h
      · rw [hsame]
        exact rooted_remove_dir hfile hdir h
    · unfold remove
      rw [hfile, Option.isSome_none, if_neg Bool.false_ne_true, if_neg hdir]
      exact h

/-- Renaming or copying what is not there changes nothing. -/
theorem rename_absent (hfile : src ∉ fs.files) (hdir : src ∉ fs.dirs) :
    (fs.rename src dst).2 = fs ∧ (fs.copy src dst).2 = fs := by
  unfold rename copy
  rw [AList.lookup_eq_none.mpr hfile]
  dsimp only
  rw [if_pos hdir, if_pos hdir]
  exact ⟨rfl, rfl⟩

/-- What is put somewhere, by any of the calls, goes into a directory, or is the home directory,
and not to where there is an entry of the other kind. -/
def WellPlaced (fs : MockFs) : FsOp → Prop
  | .list _ | .stat _ | .read _ _ | .remove _ _ => True
  | .write path _ => path ∉ fs.dirs ∧ fs.Placed (fun _ => True) path
  | .mkdir path => path ∉ fs.files ∧ fs.Placed (fun _ => True) path
  | .rename src dst =>
    if src ∈ fs.files then dst ∉ fs.dirs ∧ fs.Placed (fun _ => True) dst
    -- The directory it goes to is none that moves along.
    else src ∈ fs.dirs → fs.Receives (fun p => ¬ AtOrBelow src p) src dst
  | .copy src dst =>
    if src ∈ fs.files then dst ∉ fs.dirs ∧ fs.Placed (fun _ => True) dst
    else src ∈ fs.dirs → fs.Receives (fun _ => True) src dst

/-- What `rename` and `copy` have in common: a file is put somewhere, a directory arrives with
everything below it, and what is not there changes nothing. -/
theorem rooted_arrival_iff {fs' : MockFs} {kept : Text → Prop} (h : fs.Rooted)
    (hput : src ∈ fs.files →
      fs'.dirs = fs.dirs ∧ dst ∈ fs'.files ∧ ∀ p ∈ fs'.files, p = dst ∨ p ∈ fs.files)
    (harrives : src ∉ fs.files → src ∈ fs.dirs →
      ParentClosed kept ∧ Rearranged fs fs' kept src dst)
    (habsent : src ∉ fs.files → src ∉ fs.dirs → fs' = fs) :
    fs'.Rooted ↔ if src ∈ fs.files then dst ∉ fs.dirs ∧ fs.Placed (fun _ => True) dst
      else src ∈ fs.dirs → fs.Receives kept src dst := by
  by_cases hfile : src ∈ fs.files
  · obtain ⟨hdirs, hdst, hfiles⟩ := hput hfile
    rw [if_pos hfile]
    exact rooted_put_iff h hdirs hdst hfiles
  · rw [if_neg hfile]
    by_cases hdir : src ∈ fs.dirs
    · obtain ⟨hclosed, hr⟩ := harrives hfile hdir
      rw [hr.rooted_iff h hclosed hdir]
      exact ⟨fun hc _ => hc, fun hc => hc hdir⟩
    · rw [habsent hfile hdir]
      exact iff_of_true h fun hd => absurd hd hdir

/-- When a rename keeps the tree. -/
theorem rooted_rename_iff (h : fs.Rooted) :
    (fs.rename src dst).2.Rooted ↔ fs.WellPlaced (.rename src dst) := by
  refine rooted_arrival_iff h (fun hfile => ?_) (fun hfile hdir => ⟨?_, ?_⟩) fun hfile hdir => ?_
  · obtain ⟨content, hcontent⟩ := mem_files_iff.mp hfile
    rw [rename_file hcontent]
    refine ⟨rfl, (AList.mem_insert _).mpr (.inl rfl), fun p hp => ?_⟩
    exact ((AList.mem_insert _).mp hp).imp_right fun hp => (AList.mem_erase.mp hp).2
  · exact parentClosed_elsewhere (h.getLast? (.inl hdir))
  · exact rearranged_rename (AList.lookup_eq_none.mpr hfile) hdir
  · exact (rename_absent hfile hdir).1

/-- When a copy keeps the tree. -/
theorem rooted_copy_iff (h : fs.Rooted) :
    (fs.copy src dst).2.Rooted ↔ fs.WellPlaced (.copy src dst) := by
  refine rooted_arrival_iff h (fun hfile => ?_) (fun hfile hdir => ⟨parentClosed_true, ?_⟩)
    fun hfile hdir => ?_
  · obtain ⟨content, hcontent⟩ := mem_files_iff.mp hfile
    rw [copy_file hcontent]
    exact ⟨rfl, (AList.mem_insert _).mpr (.inl rfl), fun p hp => (AList.mem_insert _).mp hp⟩
  · exact rearranged_copy (AList.lookup_eq_none.mpr hfile) hdir
  · exact (rename_absent hfile hdir).2

/-! ## §4. Runs. -/

/-- One call after another; what a call answers is not looked at. -/
def step (fs : MockFs) (op : FsOp) : Option MockFs := some (fs.perform op).2

/-- **One call.**  It leaves a tree exactly if it is well placed. -/
theorem rooted_perform_iff (h : fs.Rooted) (op : FsOp) :
    (fs.perform op).2.Rooted ↔ fs.WellPlaced op := by
  cases op with
  | list path => exact iff_of_true h trivial
  | stat path => exact iff_of_true h trivial
  | read path maxLen => exact iff_of_true h trivial
  | write path data => exact rooted_writeFile_iff h data
  | rename src dst => exact rooted_rename_iff h
  | remove path recursive => exact iff_of_true (rooted_remove h recursive) trivial
  | mkdir path => exact rooted_mkdir_iff h
  | copy src dst => exact rooted_copy_iff h

/-- The file system that the provider starts with is a tree. -/
theorem rooted_seeded : seeded.Rooted := by
  have hdirs : ∀ p ∈ seeded.dirs, seeded.Placed (fun _ => True) p := by decide +kernel
  have hfiles : ∀ p ∈ seeded.files.keys, seeded.Placed (fun _ => True) p := by decide +kernel
  refine ⟨by decide +kernel, fun p hp => ?_⟩
  obtain hp | hp := hp
  · exact hdirs p hp
  · exact hfiles p (AList.mem_keys.mp hp)

/-- **The filesystem is a tree in every state of a run exactly if every call of it is well
placed**, whatever the paths are. -/
theorem tree_iff_wellPlaced (ops : List FsOp) :
    Throughout step IsTree seeded ops ↔ Along step WellPlaced seeded ops := by
  refine throughout_iff_along (fun fs => isTree_iff_rooted.mpr) ?_ ?_ rooted_seeded
  · intro fs op fs' h hop hstep
    obtain rfl := Option.some.inj hstep
    exact (rooted_perform_iff h op).mpr hop
  · intro fs op h hop
    refine ⟨_, rfl, fun htree => hop ?_⟩
    exact (rooted_perform_iff h op).mp (isTree_iff_rooted.mp htree)

/-- A directory that is moved below itself is in no directory any more. -/
theorem not_tree_moved_below_itself : ¬ ∀ ops, Throughout step IsTree seeded ops := by
  intro hall
  have htree := hall [.rename "/home/researcher/data".toList "/home/researcher/data/old".toList] _
    _ List.prefix_rfl rfl
  have hfit := (rooted_perform_iff rooted_seeded _).mp (isTree_iff_rooted.mp htree)
  rw [WellPlaced, if_neg (by decide +kernel)] at hfit
  have hkept := (hfit (by decide +kernel)).placed
  exact absurd hkept (by decide +kernel)

end MockFs

end ResearchSSH.Core
