/-
  ResearchSSH.Library.FileTree — a finite tree of files with symbolic links.

  A node is named by its place: the names that lead to it from the root, through directories
  alone.  A path is text; resolving it walks from directory to directory, follows the links on
  the way and ends at a place.  Links can point anywhere, to their own ancestors as well, so a
  resolution is bounded by the number of links it may follow.

  Nodes are only ever taken out of a tree here.  The one fact on which everything else rests is
  that resolution is monotone: in what is left of a tree a path leads where it led before, or
  nowhere.

  Main results:
    * `FileTree.not_mem_below` — nothing is left below a place that is gone.
    * `resolve_mono`           — a path leads where it led in any larger tree.
    * `resolve_child`          — the path of an entry, from the path of its directory.
-/

import Mathlib.Data.List.AList
import Mathlib.Data.List.DropRight

namespace ResearchSSH.Library

/-! ## §1. Trees. -/

/-- What a node is, with contents of regular files in `δ`. -/
inductive Node (δ : Type*) where
  | directory
  | file (data : δ)
  | symlink (target : List Char)
  | other
  deriving DecidableEq

/-- The names from the root to a node. -/
abbrev Place := List (List Char)

/-- The names that entries of a directory have. -/
def ProperName (name : List Char) : Prop :=
  name ≠ [] ∧ name ≠ ['.'] ∧ name ≠ ['.', '.'] ∧ '/' ∉ name

/-- A finite tree: every node but the root stands in a directory. -/
structure FileTree (δ : Type*) where
  nodes : AList fun _ : Place => Node δ
  proper : ∀ place ∈ nodes, ∀ name ∈ place, ProperName name
  parents : ∀ place name, place ++ [name] ∈ nodes → nodes.lookup place = some .directory

namespace FileTree

variable {δ : Type*} (t : FileTree δ)

/-- The node at a place. -/
def at? (place : Place) : Option (Node δ) := t.nodes.lookup place

/-- There is a directory at the place. -/
def isDirectory (place : Place) : Bool :=
  match t.at? place with
  | some .directory => true
  | _ => false

theorem isDirectory_iff {place : Place} :
    t.isDirectory place = true ↔ t.at? place = some .directory := by
  unfold isDirectory
  split
  · next h => simp [h]
  · next h => simpa using h

theorem mem_iff {place : Place} : place ∈ t.nodes ↔ ∃ node, t.at? place = some node := by
  rw [← AList.lookup_isSome, Option.isSome_iff_exists]
  rfl

theorem parent_of_at {place : Place} {name : List Char} {node : Node δ}
    (h : t.at? (place ++ [name]) = some node) : t.at? place = some .directory :=
  t.parents place name (t.mem_iff.mpr ⟨node, h⟩)

theorem proper_of_at {place : Place} {name : List Char} {node : Node δ}
    (h : t.at? (place ++ [name]) = some node) : ProperName name :=
  t.proper _ (t.mem_iff.mpr ⟨node, h⟩) name (by simp)

/-- **Nothing is left below a place that is gone.** -/
theorem not_mem_below {place : Place} (h : t.at? place = none) (rest : Place) :
    t.at? (place ++ rest) = none := by
  induction rest using List.reverseRecOn with
  | nil => rw [List.append_nil, h]
  | append_singleton rest name ih =>
    cases hnode : t.at? (place ++ (rest ++ [name])) with
    | none => rfl
    | some node =>
      -- its directory is gone already
      rw [← List.append_assoc] at hnode
      rw [t.parent_of_at hnode] at ih
      cases ih

/-- The name of an entry of the directory at `place`, if the node `inner` is one. -/
def entryName (place inner : Place) : Option (List Char) :=
  match inner.getLast? with
  | some name => if inner.dropLast = place then some name else none
  | none => none

theorem entryName_eq_some {place inner : Place} {name : List Char} :
    entryName place inner = some name ↔ inner = place ++ [name] := by
  unfold entryName
  cases hlast : inner.getLast? with
  | none =>
    rw [List.getLast?_eq_none_iff] at hlast
    simp [hlast]
  | some last =>
    have hinner := List.dropLast_append_getLast? last hlast
    simp only
    constructor
    · intro h
      obtain ⟨hdrop, hname⟩ := Option.ite_none_right_eq_some.mp h
      rw [Option.some.injEq] at hname
      rw [← hinner, hdrop, hname]
    · rintro rfl
      rw [List.getLast?_concat, Option.some.injEq] at hlast
      rw [List.dropLast_concat, if_pos rfl, hlast]

/-- The names of the entries of a directory. -/
def entryNames (place : Place) : List (List Char) := t.nodes.keys.filterMap (entryName place)

/-- The names of the entries of a place. -/
theorem mem_entryNames {place : Place} {name : List Char} :
    name ∈ t.entryNames place ↔ ∃ node, t.at? (place ++ [name]) = some node := by
  rw [← t.mem_iff, entryNames, List.mem_filterMap, AList.mem_keys]
  constructor
  · rintro ⟨inner, hin, hname⟩
    rw [entryName_eq_some] at hname
    exact hname ▸ hin
  · intro hin
    exact ⟨_, hin, entryName_eq_some.mpr rfl⟩

/-- Take out a node that has no entries. -/
def erase (place : Place) (hempty : t.entryNames place = []) : FileTree δ where
  nodes := t.nodes.erase place
  proper := fun inner hin => t.proper inner (AList.mem_erase.mp hin).2
  parents := by
    intro dir name hin
    have hin' : dir ++ [name] ∈ t.nodes := (AList.mem_erase.mp hin).2
    have hdir := t.parents dir name hin'
    by_cases heq : dir = place
    · -- the node that is taken out has no entry of this name
      subst heq
      have hname := t.mem_entryNames.mpr (t.mem_iff.mp hin')
      rw [hempty] at hname
      cases hname
    · rw [AList.lookup_erase_ne heq]
      exact hdir

theorem at_erase_self {place : Place} (hempty : t.entryNames place = []) :
    (t.erase place hempty).at? place = none := AList.lookup_erase _ _

/-- Other places stay. -/
theorem at_erase_ne {place inner : Place} (hempty : t.entryNames place = [])
    (hne : inner ≠ place) : (t.erase place hempty).at? inner = t.at? inner :=
  AList.lookup_erase_ne hne

/-- A node that is no directory has no entries. -/
theorem entryNames_of_not_directory {place : Place} (h : t.at? place ≠ some .directory) :
    t.entryNames place = [] := by
  rw [List.eq_nil_iff_forall_not_mem]
  intro name hname
  obtain ⟨node, hnode⟩ := t.mem_entryNames.mp hname
  exact h (t.parent_of_at hnode)

/-- Every node of `t` is in `u`, as it is. -/
def Within (t u : FileTree δ) : Prop := ∀ place node, t.at? place = some node →
  u.at? place = some node

theorem Within.refl : t.Within t := fun _ _ h => h

theorem Within.trans {t u v : FileTree δ} (h : t.Within u) (h' : u.Within v) : t.Within v :=
  fun place node hnode => h' place node (h place node hnode)

/-- Erasing adds nothing. -/
theorem erase_within {place : Place} (hempty : t.entryNames place = []) :
    (t.erase place hempty).Within t := by
  intro inner node hnode
  by_cases heq : inner = place
  · rw [heq, at_erase_self] at hnode
    cases hnode
  · rw [at_erase_ne t hempty heq] at hnode
    exact hnode

/-- The places of a finite tree are of bounded length. -/
theorem exists_depth : ∃ depth, ∀ place node, t.at? place = some node → place.length ≤ depth := by
  have hbound : ∀ places : List Place, ∃ depth, ∀ place ∈ places, place.length ≤ depth := by
    intro places
    induction places with
    | nil => exact ⟨0, fun _ h => absurd h List.not_mem_nil⟩
    | cons first more ih =>
      obtain ⟨depth, hdepth⟩ := ih
      refine ⟨max first.length depth, fun place hin => ?_⟩
      rcases List.mem_cons.mp hin with rfl | hin
      · exact Nat.le_max_left _ _
      · exact Nat.le_trans (hdepth place hin) (Nat.le_max_right _ _)
  obtain ⟨depth, hdepth⟩ := hbound t.nodes.keys
  refine ⟨depth, fun place node hnode => hdepth place ?_⟩
  exact AList.mem_keys.mp (t.mem_iff.mpr ⟨node, hnode⟩)

end FileTree

/-! ## §2. Paths. -/

/-- The components of a path, between its slashes. -/
def components : List Char → List (List Char)
  | [] => [[]]
  | c :: cs =>
    if c = '/' then [] :: components cs
    else
      match components cs with
      | [] => [[c]]
      | first :: more => (c :: first) :: more

theorem components_ne_nil (s : List Char) : components s ≠ [] := by
  cases s with
  | nil => exact List.cons_ne_nil _ _
  | cons c cs =>
    rw [components]
    split
    · exact List.cons_ne_nil _ _
    · split <;> exact List.cons_ne_nil _ _

/-- The components on both sides of a slash. -/
theorem components_append (a b : List Char) :
    components (a ++ '/' :: b) = components a ++ components b := by
  induction a with
  | nil => simp [components]
  | cons c cs ih =>
    rw [List.cons_append, components, components, ih]
    by_cases hc : c = '/'
    · rw [if_pos hc, if_pos hc, List.cons_append]
    · rw [if_neg hc, if_neg hc]
      cases hcs : components cs with
      | nil => exact absurd hcs (components_ne_nil cs)
      | cons first more => rfl

theorem components_of_name {name : List Char} (h : '/' ∉ name) : components name = [name] := by
  induction name with
  | nil => rfl
  | cons c cs ih =>
    have hc : c ≠ '/' := fun heq => h (heq ▸ List.mem_cons_self)
    rw [components, if_neg hc, ih (fun hin => h (List.mem_cons_of_mem _ hin))]

/-- Slashes at the end of a path are empty components. -/
theorem components_append_slashes (a : List Char) (k : Nat) :
    components (a ++ List.replicate k '/') = components a ++ List.replicate k [] := by
  induction k generalizing a with
  | zero => simp
  | succ k ih =>
    rw [List.replicate_succ, List.append_cons, ih, components_append, List.append_assoc]
    rfl

/-! ## §3. Resolution. -/

section Walk

variable {δ : Type*}

/-- Walk along the components from the directory `dir`.  A link that is met is followed by
`jump`, the last component's only where `follow` says so. -/
def walk (t : FileTree δ) (jump : Place → List Char → Option Place) (follow : Bool) :
    Place → List (List Char) → Option Place
  | dir, [] => if (t.at? dir).isSome then some dir else none
  | dir, c :: cs =>
    if t.isDirectory dir = false then none
    else if c = [] ∨ c = ['.'] then walk t jump follow dir cs
    else if c = ['.', '.'] then walk t jump follow dir.dropLast cs
    else
      match t.at? (dir ++ [c]) with
      | none => none
      | some (.symlink target) =>
        if cs = [] ∧ follow = false then some (dir ++ [c])
        else (jump dir target).bind fun place => walk t jump follow place cs
      | some _ => walk t jump follow (dir ++ [c]) cs

/-- Resolve a path against the directory `dir`, over at most `limit` links. -/
def resolveFrom (t : FileTree δ) :
    (limit : Nat) → (follow : Bool) → Place → List Char → Option Place
  | 0, _, _, _ => none
  | limit + 1, follow, dir, path =>
    walk t (resolveFrom t limit true) follow (if path.head? = some '/' then [] else dir)
      (components path)

/-- Resolve an absolute path. -/
def resolve (t : FileTree δ) (limit : Nat) (follow : Bool) (path : List Char) : Option Place :=
  resolveFrom t limit follow [] path

variable {t u : FileTree δ} {jump jump' : Place → List Char → Option Place} {follow : Bool}

/-- A walk in a part of a tree is a walk in the tree. -/
theorem walk_mono (h : t.Within u)
    (hjump : ∀ dir target place, jump dir target = some place → jump' dir target = some place)
    (cs : List (List Char)) : ∀ {dir place : Place},
      walk t jump follow dir cs = some place → walk u jump' follow dir cs = some place := by
  induction cs with
  | nil =>
    intro dir place hwalk
    obtain ⟨hsome, heq⟩ := Option.ite_none_right_eq_some.mp hwalk
    obtain ⟨node, hnode⟩ := Option.isSome_iff_exists.mp hsome
    rw [walk, h dir node hnode]
    exact heq
  | cons c cs ih =>
    intro dir place hwalk
    rw [walk] at hwalk ⊢
    obtain ⟨hdir, hwalk⟩ := Option.ite_none_left_eq_some.mp hwalk
    -- a directory of the one is a directory of the other
    have hdir' : ¬ u.isDirectory dir = false := by
      rw [Bool.not_eq_false] at hdir ⊢
      exact u.isDirectory_iff.mpr (h _ _ (t.isDirectory_iff.mp hdir))
    rw [if_neg hdir']
    by_cases hdot : c = [] ∨ c = ['.']
    · rw [if_pos hdot] at hwalk ⊢
      exact ih hwalk
    · rw [if_neg hdot] at hwalk ⊢
      by_cases hup : c = ['.', '.']
      · rw [if_pos hup] at hwalk ⊢
        exact ih hwalk
      · rw [if_neg hup] at hwalk ⊢
        cases hnode : t.at? (dir ++ [c]) with
        | none =>
          rw [hnode] at hwalk
          cases hwalk
        | some node =>
          rw [hnode] at hwalk
          rw [h _ _ hnode]
          cases node with
          | symlink target =>
            simp only at hwalk ⊢
            split at hwalk
            · -- a link at the end is not followed
              next hlast => rw [if_pos hlast, hwalk]
            · next hlast =>
              rw [if_neg hlast]
              -- a link on the way leads to the same place, and the walk goes on there
              obtain ⟨mid, hmid, hrest⟩ := Option.bind_eq_some_iff.mp hwalk
              rw [hjump dir target mid hmid, Option.bind_some]
              exact ih hrest
          | directory => exact ih hwalk
          | file data => exact ih hwalk
          | other => exact ih hwalk

/-- What resolves in a part of a tree resolves in the tree. -/
theorem resolveFrom_mono (h : t.Within u) (limit : Nat) : ∀ {follow : Bool} {dir place : Place}
    {path : List Char}, resolveFrom t limit follow dir path = some place →
      resolveFrom u limit follow dir path = some place := by
  induction limit with
  | zero =>
    intro follow dir place path hres
    cases hres
  | succ limit ih =>
    intro follow dir place path hres
    exact walk_mono h (fun _ _ _ hjump => ih hjump) _ hres

/-- **Monotonicity.**  In what is left of a tree a path leads where it led before, or nowhere. -/
theorem resolve_mono (h : t.Within u) {limit : Nat} {path : List Char} {place : Place}
    (hres : resolve t limit follow path = some place) : resolve u limit follow path = some place :=
  resolveFrom_mono h limit hres

/-- A walk that ends at no link would have followed one. -/
theorem walk_follow (cs : List (List Char)) : ∀ {dir place : Place},
    walk t jump false dir cs = some place → (∀ target, t.at? place ≠ some (.symlink target)) →
      walk t jump true dir cs = some place := by
  induction cs with
  | nil => intro dir place hwalk _; exact hwalk
  | cons c cs ih =>
    intro dir place hwalk hplace
    rw [walk] at hwalk ⊢
    obtain ⟨hdir, hwalk⟩ := Option.ite_none_left_eq_some.mp hwalk
    rw [if_neg hdir]
    by_cases hdot : c = [] ∨ c = ['.']
    · rw [if_pos hdot] at hwalk ⊢
      exact ih hwalk hplace
    · rw [if_neg hdot] at hwalk ⊢
      by_cases hup : c = ['.', '.']
      · rw [if_pos hup] at hwalk ⊢
        exact ih hwalk hplace
      · rw [if_neg hup] at hwalk ⊢
        cases hnode : t.at? (dir ++ [c]) with
        | none =>
          rw [hnode] at hwalk
          cases hwalk
        | some node =>
          rw [hnode] at hwalk
          cases node with
          | symlink target =>
            simp only [and_true, reduceCtorEq, and_false, if_false] at hwalk ⊢
            split at hwalk
            · -- the walk would have ended at this link
              rw [Option.some.injEq] at hwalk
              exact absurd (hwalk ▸ hnode) (hplace target)
            · obtain ⟨mid, hmid, hrest⟩ := Option.bind_eq_some_iff.mp hwalk
              rw [hmid, Option.bind_some]
              exact ih hrest hplace
          | directory => exact ih hwalk hplace
          | file data => exact ih hwalk hplace
          | other => exact ih hwalk hplace

/-- A walk can be cut: the first part follows every link. -/
theorem walk_append (cs ds : List (List Char)) (hds : ds ≠ []) : ∀ dir : Place,
    walk t jump follow dir (cs ++ ds)
      = (walk t jump true dir cs).bind fun place => walk t jump follow place ds := by
  induction cs with
  | nil =>
    intro dir
    rw [List.nil_append, walk]
    cases hnode : t.at? dir with
    | some node => rfl
    | none =>
      -- no walk begins where there is no directory
      obtain ⟨d, more, rfl⟩ := List.exists_cons_of_ne_nil hds
      have hdir : t.isDirectory dir = false := by
        rw [FileTree.isDirectory, hnode]
      rw [walk, if_pos hdir]
      rfl
  | cons c cs ih =>
    intro dir
    rw [List.cons_append, walk, walk]
    by_cases hdir : t.isDirectory dir = false
    · rw [if_pos hdir, if_pos hdir]
      rfl
    · rw [if_neg hdir, if_neg hdir]
      by_cases hdot : c = [] ∨ c = ['.']
      · rw [if_pos hdot, if_pos hdot, ih]
      · rw [if_neg hdot, if_neg hdot]
        by_cases hup : c = ['.', '.']
        · rw [if_pos hup, if_pos hup, ih]
        · rw [if_neg hup, if_neg hup]
          cases hnode : t.at? (dir ++ [c]) with
          | none => rfl
          | some node =>
            cases node with
            | symlink target =>
              have hmore : ¬ (cs ++ ds = [] ∧ follow = false) := by
                rintro ⟨hnil, _⟩
                exact hds (List.append_eq_nil_iff.mp hnil).2
              simp only [if_neg hmore, reduceCtorEq, and_false, if_false, Option.bind_assoc, ih]
            | directory => exact ih _
            | file data => exact ih _
            | other => exact ih _

/-- Empty components at the end only ask for a directory. -/
theorem walk_trailing {cs : List (List Char)} (k : Nat) {dir place : Place}
    (h : walk t jump true dir (cs ++ List.replicate k []) = some place) :
    walk t jump true dir cs = some place := by
  induction k with
  | zero => simpa using h
  | succ k ih =>
    rw [List.replicate_succ', ← List.append_assoc, walk_append _ _ (by simp)] at h
    obtain ⟨mid, hmid, hlast⟩ := Option.bind_eq_some_iff.mp h
    rw [walk] at hlast
    obtain ⟨hdir, hlast⟩ := Option.ite_none_left_eq_some.mp hlast
    rw [if_pos (.inl rfl)] at hlast
    obtain ⟨_, heq⟩ := Option.ite_none_right_eq_some.mp hlast
    rw [Option.some.injEq] at heq
    subst heq
    exact ih hmid

/-- A path that leads to no link leads there whether links are followed at its end or not. -/
theorem resolve_follow {limit : Nat} {path : List Char} {place : Place}
    (hres : resolve t limit false path = some place)
    (hplace : ∀ target, t.at? place ≠ some (.symlink target)) :
    resolve t limit follow path = some place := by
  cases follow with
  | false => exact hres
  | true =>
    cases limit with
    | zero => cases hres
    | succ limit => exact walk_follow _ hres hplace

/-- The path of an entry: the path of its directory without slashes at the end, a slash, and the
name. -/
def entryPath (path name : List Char) : List Char := path.rdropWhile (· = '/') ++ '/' :: name

/-- **The path of an entry leads to the entry**, or nowhere. -/
theorem resolve_child {limit : Nat} {path name : List Char} {dir place : Place}
    (hdir : resolve t limit false path = some dir) (hnode : t.at? dir = some .directory)
    (hname : ProperName name) (hres : resolve t limit false (entryPath path name) = some place) :
    place = dir ++ [name] := by
  cases limit with
  | zero => cases hdir
  | succ limit =>
    -- the directory's path, with every link followed and without the slashes at its end
    have hfollow : resolve t (limit + 1) true path = some dir :=
      resolve_follow hdir (by rw [hnode]; simp)
    have hslashes : path = path.rdropWhile (· = '/')
        ++ List.replicate (path.rtakeWhile (· = '/')).length '/' := by
      have hall : path.rtakeWhile (· = '/')
          = List.replicate (path.rtakeWhile (· = '/')).length '/' :=
        List.eq_replicate_of_mem fun c hc => by simpa using List.mem_rtakeWhile_imp hc
      rw [← hall, List.rdropWhile_append_rtakeWhile]
    have hstart : ∀ q : List Char, (if q.head? = some '/' then ([] : Place) else []) = [] := by
      intro q
      split <;> rfl
    simp only [resolve, resolveFrom, hstart] at hfollow hres
    rw [hslashes, components_append_slashes] at hfollow
    have htrimmed := walk_trailing _ hfollow
    rw [entryPath, components_append, components_of_name hname.2.2.2,
      walk_append _ _ (List.cons_ne_nil _ _), htrimmed, Option.bind_some, walk,
      if_neg (by rw [t.isDirectory_iff.mpr hnode]; decide),
      if_neg (by rintro (h | h); exacts [hname.1 h, hname.2.1 h]), if_neg hname.2.2.1] at hres
    split at hres
    · cases hres
    · rw [if_pos ⟨rfl, rfl⟩, Option.some.injEq] at hres
      exact hres.symm
    · obtain ⟨_, heq⟩ := Option.ite_none_right_eq_some.mp hres
      rw [Option.some.injEq] at heq
      exact heq.symm

end Walk

end ResearchSSH.Library
