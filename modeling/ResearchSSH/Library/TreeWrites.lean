/-
  ResearchSSH.Library.TreeWrites — making, changing and moving nodes of a file tree.

  A file takes new contents, a node is made where there was none, a subtree is moved to a place
  where there was none.  A tree that has only gained nodes, and whose files may hold something
  else, `Kept` what it had: every path that led somewhere leads there still.

  A path can also name something that is to be made.  It is walked as ever, and may end at a name
  that its last directory does not have; a link at its end that leads nowhere yet is followed to
  the name that it is a link to.

  Main results:
    * `resolveFrom_kept` — a path leads where it led before in every tree that kept its nodes.
    * `resolveNewFrom_fits` — what a path to something that may be new leads to.
    * `resolve_made`   — once it is made, the path leads to it.
    * `FileTree.at_move` — a moved subtree is what it was, at its new place and nowhere else.
-/

import ResearchSSH.Library.FileTree

namespace ResearchSSH.Library

namespace FileTree

variable {δ : Type*} (t : FileTree δ)

/-! ## §1. Changing one node. -/

/-- There is a file at the place. -/
def isFile (place : Place) : Bool :=
  match t.at? place with
  | some (.file _) => true
  | _ => false

theorem isFile_iff {place : Place} :
    t.isFile place = true ↔ ∃ data, t.at? place = some (.file data) := by
  unfold isFile
  split
  · next data h => simp [h]
  · next h =>
    constructor
    · intro hfalse
      cases hfalse
    · rintro ⟨data, hdata⟩
      exact absurd hdata (h data)

/-- Put a node that has no entries at a place in a directory, over what is there. -/
def put (place : Place) (node : Node δ) (hproper : ∀ name ∈ place, ProperName name)
    (hparent : ∀ dir name, place = dir ++ [name] → t.at? dir = some .directory)
    (hempty : t.entryNames place = []) : FileTree δ where
  nodes := t.nodes.insert place node
  proper := by
    intro inner hin
    rcases (AList.mem_insert _).mp hin with rfl | hin
    · exact hproper
    · exact t.proper inner hin
  parents := by
    intro dir name hin
    have hnone : t.at? (place ++ [name]) = none := by
      cases hnode : t.at? (place ++ [name]) with
      | none => rfl
      | some node =>
        -- the node that is put here has no entry of this name
        have hname := t.mem_entryNames.mpr ⟨node, hnode⟩
        rw [hempty] at hname
        cases hname
    by_cases heq : dir = place
    · rcases (AList.mem_insert _).mp hin with hplace | hin
      · rw [heq] at hplace
        exact absurd hplace (by simp)
      · obtain ⟨node, hnode⟩ := t.mem_iff.mp hin
        rw [heq, hnone] at hnode
        cases hnode
    · rw [AList.lookup_insert_ne heq]
      rcases (AList.mem_insert _).mp hin with hplace | hin
      · exact hparent dir name hplace.symm
      · exact t.parents dir name hin

/-- What is at each place after a node is put. -/
theorem at_put {place : Place} {node : Node δ} {hproper hparent hempty} (inner : Place) :
    (t.put place node hproper hparent hempty).at? inner =
      if inner = place then some node else t.at? inner := by
  by_cases heq : inner = place
  · rw [if_pos heq, heq]
    exact AList.lookup_insert _
  · rw [if_neg heq]
    exact AList.lookup_insert_ne heq

/-- New contents for the file at a place, if there is one. -/
def write (place : Place) (data : δ) : FileTree δ :=
  if h : t.isFile place = true then
    t.put place (.file data)
      (fun name hname => by
        obtain ⟨old, hold⟩ := t.isFile_iff.mp h
        exact t.proper place (t.mem_iff.mpr ⟨_, hold⟩) name hname)
      (fun dir name heq => by
        obtain ⟨old, hold⟩ := t.isFile_iff.mp h
        exact t.parent_of_at (heq ▸ hold))
      (t.entryNames_of_not_directory (by
        obtain ⟨old, hold⟩ := t.isFile_iff.mp h
        rw [hold]
        simp))
  else t

/-- What is at each place after a write. -/
theorem at_write {place : Place} {old data : δ} (h : t.at? place = some (.file old))
    (inner : Place) :
    (t.write place data).at? inner =
      if inner = place then some (.file data) else t.at? inner := by
  rw [write, dif_pos (t.isFile_iff.mpr ⟨old, h⟩), at_put]

/-- Something can be made under this name in the directory. -/
def Vacant (dir : Place) (name : List Char) : Prop :=
  t.isDirectory dir = true ∧ (t.at? (dir ++ [name])).isNone = true ∧ ProperName name

instance (name : List Char) : Decidable (ProperName name) :=
  inferInstanceAs (Decidable (_ ∧ _))

instance (dir : Place) (name : List Char) : Decidable (t.Vacant dir name) :=
  inferInstanceAs (Decidable (_ ∧ _))

theorem Vacant.free {t : FileTree δ} {dir : Place} {name : List Char} (h : t.Vacant dir name) :
    t.at? (dir ++ [name]) = none := Option.isNone_iff_eq_none.mp h.2.1

theorem Vacant.no_entries {t : FileTree δ} {dir : Place} {name : List Char} (h : t.Vacant dir name) :
    t.entryNames (dir ++ [name]) = [] :=
  t.entryNames_of_not_directory (by rw [h.free]; simp)

theorem Vacant.proper {t : FileTree δ} {dir : Place} {name : List Char} (h : t.Vacant dir name) :
    ∀ c ∈ dir ++ [name], ProperName c := by
  intro c hc
  rcases List.mem_append.mp hc with hc | hc
  · exact t.proper dir (t.mem_iff.mpr ⟨_, t.isDirectory_iff.mp h.1⟩) c hc
  · rw [List.mem_singleton.mp hc]
    exact h.2.2

theorem Vacant.parent {t : FileTree δ} {dir : Place} {name : List Char} (h : t.Vacant dir name) :
    ∀ d n, dir ++ [name] = d ++ [n] → t.at? d = some .directory := by
  intro d n heq
  obtain ⟨rfl, _⟩ := List.append_inj' heq rfl
  exact t.isDirectory_iff.mp h.1

/-- Make a node, if there is room for it. -/
def create (dir : Place) (name : List Char) (node : Node δ) : Option (FileTree δ) :=
  if h : t.Vacant dir name then
    some (t.put (dir ++ [name]) node h.proper h.parent h.no_entries)
  else none

/-- What a create needs and what it leaves. -/
theorem create_eq_some {dir : Place} {name : List Char} {node : Node δ} {u : FileTree δ}
    (h : t.create dir name node = some u) :
    t.Vacant dir name ∧ ∀ inner, u.at? inner =
      if inner = dir ++ [name] then some node else t.at? inner := by
  unfold create at h
  split at h
  · next hvacant =>
    rw [Option.some.injEq] at h
    exact ⟨hvacant, fun inner => h ▸ t.at_put inner⟩
  · cases h

end FileTree

/-! ## §2. What a tree keeps. -/

section Kept

variable {δ : Type*} {t u : FileTree δ}

/-- A node without the contents of a file. -/
def Node.shape : Node δ → Node Unit
  | .directory => .directory
  | .file _ => .file ()
  | .symlink target => .symlink target
  | .other => .other

/-- Every node of `t` is in `u`, though a file may hold something else. -/
def FileTree.Kept (t u : FileTree δ) : Prop := ∀ place node, t.at? place = some node →
  (u.at? place).map Node.shape = some node.shape

theorem FileTree.Kept.directory (h : t.Kept u) {place : Place}
    (hdir : t.at? place = some .directory) : u.at? place = some .directory := by
  obtain ⟨node, hnode, hshape⟩ := Option.map_eq_some_iff.mp (h place _ hdir)
  cases node with
  | directory => exact hnode
  | file data => cases hshape
  | symlink target => cases hshape
  | other => cases hshape

theorem FileTree.Kept.symlink (h : t.Kept u) {place : Place} {target : List Char}
    (hlink : t.at? place = some (.symlink target)) : u.at? place = some (.symlink target) := by
  obtain ⟨node, hnode, hshape⟩ := Option.map_eq_some_iff.mp (h place _ hlink)
  cases node with
  | directory => cases hshape
  | file data => cases hshape
  | symlink target' =>
    injection hshape with htarget
    rw [hnode, htarget]
  | other => cases hshape

/-- What is no link stays none, and stays. -/
theorem FileTree.Kept.plain (h : t.Kept u) {place : Place} {node : Node δ}
    (hnode : t.at? place = some node) (hplain : ∀ target, node ≠ .symlink target) :
    ∃ node', u.at? place = some node' ∧ ∀ target, node' ≠ .symlink target := by
  obtain ⟨node', hnode', hshape⟩ := Option.map_eq_some_iff.mp (h place node hnode)
  refine ⟨node', hnode', ?_⟩
  rintro target rfl
  cases node with
  | directory => cases hshape
  | file data => cases hshape
  | symlink target' => exact hplain target' rfl
  | other => cases hshape

variable {jump jump' : Place → List Char → Option Place} {follow : Bool}

/-- A step of a walk, at a node that is no link. -/
theorem walk_plain {dir : Place} {c : List Char} {cs : List (List Char)} {node : Node δ}
    (hdir : t.isDirectory dir = true) (hdot : ¬ (c = [] ∨ c = ['.'])) (hup : c ≠ ['.', '.'])
    (hnode : t.at? (dir ++ [c]) = some node) (hplain : ∀ target, node ≠ .symlink target) :
    walk t jump follow dir (c :: cs) = walk t jump follow (dir ++ [c]) cs := by
  rw [walk, if_neg (by rw [hdir]; decide), if_neg hdot, if_neg hup, hnode]
  cases node with
  | symlink target => exact absurd rfl (hplain target)
  | directory => rfl
  | file data => rfl
  | other => rfl

/-- A walk is a walk in every tree that kept the nodes. -/
theorem walk_kept (h : t.Kept u)
    (hjump : ∀ dir target place, jump dir target = some place → jump' dir target = some place)
    (cs : List (List Char)) : ∀ {dir place : Place},
      walk t jump follow dir cs = some place → walk u jump' follow dir cs = some place := by
  induction cs with
  | nil =>
    intro dir place hwalk
    obtain ⟨hsome, heq⟩ := Option.ite_none_right_eq_some.mp hwalk
    obtain ⟨node, hnode⟩ := Option.isSome_iff_exists.mp hsome
    have hsome' : (u.at? dir).isSome := by
      rw [← Option.isSome_map (f := Node.shape), h dir node hnode]
      rfl
    rw [walk, if_pos hsome', heq]
  | cons c cs ih =>
    intro dir place hwalk
    have hrest := hwalk
    rw [walk] at hrest
    obtain ⟨hdir, hrest⟩ := Option.ite_none_left_eq_some.mp hrest
    rw [Bool.not_eq_false] at hdir
    have hdir' : u.isDirectory dir = true :=
      u.isDirectory_iff.mpr (h.directory (t.isDirectory_iff.mp hdir))
    have hno : ¬ u.isDirectory dir = false := by
      rw [hdir']
      decide
    by_cases hdot : c = [] ∨ c = ['.']
    · rw [if_pos hdot] at hrest
      rw [walk, if_neg hno, if_pos hdot]
      exact ih hrest
    · rw [if_neg hdot] at hrest
      by_cases hup : c = ['.', '.']
      · rw [if_pos hup] at hrest
        rw [walk, if_neg hno, if_neg hdot, if_pos hup]
        exact ih hrest
      · rw [if_neg hup] at hrest
        cases hnode : t.at? (dir ++ [c]) with
        | none =>
          rw [hnode] at hrest
          cases hrest
        | some node =>
          by_cases hlink : ∃ target, node = .symlink target
          · -- a link leads on from the same place
            obtain ⟨target, rfl⟩ := hlink
            rw [hnode] at hrest
            rw [walk, if_neg hno, if_neg hdot, if_neg hup, h.symlink hnode]
            simp only at hrest ⊢
            split at hrest
            · next hlast => rw [if_pos hlast, hrest]
            · next hlast =>
              obtain ⟨mid, hmid, hwalk'⟩ := Option.bind_eq_some_iff.mp hrest
              rw [if_neg hlast, hjump dir target mid hmid, Option.bind_some]
              exact ih hwalk'
          · -- what is no link is none in the other tree
            have hplain : ∀ target, node ≠ .symlink target :=
              fun target heq => hlink ⟨target, heq⟩
            obtain ⟨node', hnode', hplain'⟩ := h.plain hnode hplain
            rw [walk_plain hdir hdot hup hnode hplain] at hwalk
            rw [walk_plain hdir' hdot hup hnode' hplain']
            exact ih hwalk

/-- What resolves still resolves while its directories and links are kept. -/
theorem resolveFrom_kept (h : t.Kept u) (limit : Nat) : ∀ {follow : Bool} {dir place : Place}
    {path : List Char}, resolveFrom t limit follow dir path = some place →
      resolveFrom u limit follow dir path = some place := by
  induction limit with
  | zero =>
    intro follow dir place path hres
    cases hres
  | succ limit ih =>
    intro follow dir place path hres
    exact walk_kept h (fun _ _ _ hjump => ih hjump) _ hres

/-- A walk ends at a node. -/
theorem walk_exists (cs : List (List Char)) : ∀ {dir place : Place},
    walk t jump follow dir cs = some place → (t.at? place).isSome := by
  induction cs with
  | nil =>
    intro dir place hwalk
    obtain ⟨hsome, heq⟩ := Option.ite_none_right_eq_some.mp hwalk
    rw [Option.some.injEq] at heq
    rw [← heq]
    exact hsome
  | cons c cs ih =>
    intro dir place hwalk
    rw [walk] at hwalk
    obtain ⟨_, hwalk⟩ := Option.ite_none_left_eq_some.mp hwalk
    split at hwalk
    · exact ih hwalk
    · split at hwalk
      · exact ih hwalk
      · split at hwalk
        · cases hwalk
        · next target hnode =>
          split at hwalk
          · rw [Option.some.injEq] at hwalk
            rw [← hwalk, hnode]
            rfl
          · obtain ⟨mid, _, hwalk⟩ := Option.bind_eq_some_iff.mp hwalk
            exact ih hwalk
        · exact ih hwalk

/-! ## §3. Paths to what is to be made. -/

/-- What a path leads to that may name something new. -/
inductive Target
  | existing (place : Place)
  | vacant (dir : Place) (name : List Char)
  deriving DecidableEq

/-- Where it is, or will be. -/
def Target.place : Target → Place
  | .existing place => place
  | .vacant dir name => dir ++ [name]

/-- Walk as `walk` does, to a name that need not be there.  A link at the end is followed by
`last`, where `follow` says so. -/
def walkNew (t : FileTree δ) (jump : Place → List Char → Option Place)
    (last : Place → List Char → Option Target) (follow : Bool) :
    Place → List (List Char) → Option Target
  | dir, [] => if (t.at? dir).isSome then some (.existing dir) else none
  | dir, c :: cs =>
    if t.isDirectory dir = false then none
    else if c = [] ∨ c = ['.'] then walkNew t jump last follow dir cs
    else if c = ['.', '.'] then walkNew t jump last follow dir.dropLast cs
    else
      match t.at? (dir ++ [c]) with
      | none => if cs = [] then some (.vacant dir c) else none
      | some (.symlink target) =>
        if cs = [] then
          if follow then last dir target else some (.existing (dir ++ [c]))
        else (jump dir target).bind fun place => walkNew t jump last follow place cs
      | some _ => walkNew t jump last follow (dir ++ [c]) cs

/-- Resolve a path to something that may be new, over at most `limit` links. -/
def resolveNewFrom (t : FileTree δ) :
    (limit : Nat) → (follow : Bool) → Place → List Char → Option Target
  | 0, _, _, _ => none
  | limit + 1, follow, dir, path =>
    walkNew t (resolveFrom t limit true) (resolveNewFrom t limit true) follow
      (if path.head? = some '/' then [] else dir) (components path)

/-- Where a path leads whose last name need not be there. -/
def resolveNew (t : FileTree δ) (limit : Nat) (follow : Bool) (path : List Char) :
    Option Target := resolveNewFrom t limit follow [] path

variable {last : Place → List Char → Option Target}

/-- What a target says of the tree: it is where the path leads, or there is room for it. -/
def Target.Fits (t : FileTree δ) (leads : Option Place) : Target → Prop
  | .existing place => leads = some place
  | .vacant dir name => t.Vacant dir name

/-- Components of a path have no slash. -/
theorem slash_not_mem_components (s : List Char) : ∀ c ∈ components s, '/' ∉ c := by
  induction s with
  | nil => intro c hc; simp [components] at hc; simp [hc]
  | cons a cs ih =>
    intro c hc
    rw [components] at hc
    split at hc
    · rcases List.mem_cons.mp hc with rfl | hc
      · exact List.not_mem_nil
      · exact ih c hc
    · next ha =>
      split at hc
      · next hnil => exact absurd hnil (components_ne_nil cs)
      · next first more hcs =>
        rw [hcs] at ih
        rcases List.mem_cons.mp hc with rfl | hc
        · intro hslash
          rcases List.mem_cons.mp hslash with heq | hslash
          · exact ha heq.symm
          · exact ih first List.mem_cons_self hslash
        · exact ih c (List.mem_cons_of_mem _ hc)

theorem walkNew_fits
    (hlast : ∀ dir target found, last dir target = some found →
      found.Fits t (jump dir target))
    (hjump : ∀ dir target place, jump dir target = some place → (t.at? place).isSome)
    (cs : List (List Char)) (hcs : ∀ c ∈ cs, '/' ∉ c) : ∀ {dir : Place} {found : Target},
      walkNew t jump last follow dir cs = some found →
        found.Fits t (walk t jump follow dir cs) := by
  induction cs with
  | nil =>
    intro dir found hwalk
    obtain ⟨hsome, heq⟩ := Option.ite_none_right_eq_some.mp hwalk
    rw [Option.some.injEq] at heq
    subst heq
    show walk t jump follow dir [] = some dir
    rw [walk, if_pos hsome]
  | cons c cs ih =>
    intro dir found hwalk
    have hcs' : ∀ d ∈ cs, '/' ∉ d := fun d hd => hcs d (List.mem_cons_of_mem _ hd)
    rw [walkNew] at hwalk
    rw [walk]
    obtain ⟨hdir, hwalk⟩ := Option.ite_none_left_eq_some.mp hwalk
    rw [if_neg hdir]
    -- names that leave the walk where it is
    by_cases hdot : c = [] ∨ c = ['.']
    · rw [if_pos hdot] at hwalk ⊢
      exact ih hcs' hwalk
    · rw [if_neg hdot] at hwalk ⊢
      -- and the one that leads up
      by_cases hup : c = ['.', '.']
      · rw [if_pos hup] at hwalk ⊢
        exact ih hcs' hwalk
      · rw [if_neg hup] at hwalk ⊢
        cases hnode : t.at? (dir ++ [c]) with
        -- the name is free: there is room for it, as it is a proper one
        | none =>
          rw [hnode] at hwalk
          obtain ⟨_, heq⟩ := Option.ite_none_right_eq_some.mp hwalk
          rw [Option.some.injEq] at heq
          subst heq
          rw [not_or] at hdot
          rw [Bool.not_eq_false] at hdir
          refine ⟨hdir, ?_, hdot.1, hdot.2, hup, hcs c List.mem_cons_self⟩
          rw [hnode]
          rfl
        | some node =>
          rw [hnode] at hwalk
          cases node with
          | symlink target =>
            simp only at hwalk ⊢
            by_cases hnil : cs = []
            · subst hnil
              rw [if_pos rfl] at hwalk
              cases follow with
              -- a link at the end is followed to what it may be a link to
              | true =>
                rw [if_pos rfl] at hwalk
                have hfits := hlast dir target found hwalk
                rw [if_neg (by simp)]
                cases hto : jump dir target with
                | none => rwa [hto] at hfits
                | some place =>
                  rw [hto] at hfits
                  rw [Option.bind_some, walk, if_pos (hjump dir target place hto)]
                  exact hfits
              | false =>
                rw [if_neg Bool.false_ne_true, Option.some.injEq] at hwalk
                subst hwalk
                rw [if_pos ⟨rfl, rfl⟩]
                rfl
            · rw [if_neg hnil] at hwalk
              rw [if_neg (fun h => hnil h.1)]
              obtain ⟨mid, hmid, hrest⟩ := Option.bind_eq_some_iff.mp hwalk
              rw [hmid, Option.bind_some]
              exact ih hcs' hrest
          | directory => exact ih hcs' hwalk
          | file data => exact ih hcs' hwalk
          | other => exact ih hcs' hwalk

theorem resolveNewFrom_fits (limit : Nat) : ∀ {follow : Bool} {dir : Place} {path : List Char}
    {found : Target}, resolveNewFrom t limit follow dir path = some found →
      found.Fits t (resolveFrom t limit follow dir path) := by
  induction limit with
  | zero =>
    intro follow dir path found h
    cases h
  | succ limit ih =>
    intro follow dir path found h
    refine walkNew_fits (fun _ _ _ hlast => ih hlast) ?_ _ (slash_not_mem_components path) h
    intro dir target place hto
    cases limit with
    | zero => cases hto
    | succ limit => exact walk_exists _ hto

/-- Where a walk led to something that may be new, it leads once there is a node that is no link. -/
theorem walkNew_made (h : t.Kept u)
    (hlast : ∀ dir target found, last dir target = some found →
      (∃ node, u.at? found.place = some node ∧ ∀ target', node ≠ .symlink target') →
        jump' dir target = some found.place)
    (hjump : ∀ dir target place, jump dir target = some place → jump' dir target = some place)
    (cs : List (List Char)) : ∀ {dir : Place} {found : Target},
      walkNew t jump last follow dir cs = some found →
      (∃ node, u.at? found.place = some node ∧ ∀ target', node ≠ .symlink target') →
        walk u jump' true dir cs = some found.place := by
  induction cs with
  | nil =>
    intro dir found hwalk hmade
    obtain ⟨_, heq⟩ := Option.ite_none_right_eq_some.mp hwalk
    rw [Option.some.injEq] at heq
    subst heq
    obtain ⟨node, hnode, _⟩ := hmade
    show walk u jump' true dir [] = some dir
    rw [walk, if_pos (by rw [show u.at? dir = some node from hnode]; rfl)]
  | cons c cs ih =>
    intro dir found hwalk hmade
    rw [walkNew] at hwalk
    obtain ⟨hdir, hwalk⟩ := Option.ite_none_left_eq_some.mp hwalk
    rw [Bool.not_eq_false] at hdir
    have hdir' : u.isDirectory dir = true :=
      u.isDirectory_iff.mpr (h.directory (t.isDirectory_iff.mp hdir))
    have hno : ¬ u.isDirectory dir = false := by
      rw [hdir']
      decide
    by_cases hdot : c = [] ∨ c = ['.']
    · rw [if_pos hdot] at hwalk
      rw [walk, if_neg hno, if_pos hdot]
      exact ih hwalk hmade
    · rw [if_neg hdot] at hwalk
      by_cases hup : c = ['.', '.']
      · rw [if_pos hup] at hwalk
        rw [walk, if_neg hno, if_neg hdot, if_pos hup]
        exact ih hwalk hmade
      · rw [if_neg hup] at hwalk
        cases hnode : t.at? (dir ++ [c]) with
        | none =>
          -- the name is new, and the walk ends at it
          rw [hnode] at hwalk
          obtain ⟨hnil, heq⟩ := Option.ite_none_right_eq_some.mp hwalk
          rw [Option.some.injEq] at heq
          subst heq
          obtain ⟨node, hmade, hplain⟩ := hmade
          rw [walk_plain hdir' hdot hup hmade hplain, hnil, walk,
            if_pos (by rw [show u.at? (dir ++ [c]) = some node from hmade]; rfl)]
          rfl
        | some node =>
          rw [hnode] at hwalk
          by_cases hlink : ∃ target, node = .symlink target
          · obtain ⟨target, rfl⟩ := hlink
            rw [walk, if_neg hno, if_neg hdot, if_neg hup, h.symlink hnode]
            simp only at hwalk ⊢
            rw [if_neg (by simp)]
            by_cases hnil : cs = []
            · subst hnil
              rw [if_pos rfl] at hwalk
              cases follow with
              | true =>
                rw [if_pos rfl] at hwalk
                rw [hlast dir target found hwalk hmade, Option.bind_some, walk]
                obtain ⟨node, hnode', _⟩ := hmade
                rw [if_pos (by rw [hnode']; rfl)]
              | false =>
                -- a link that is not followed is no target that has been made
                rw [if_neg Bool.false_ne_true, Option.some.injEq] at hwalk
                subst hwalk
                obtain ⟨node, hnode', hplain⟩ := hmade
                have heq : some (Node.symlink target) = some node :=
                  (h.symlink hnode).symm.trans hnode'
                exact absurd (Option.some.inj heq).symm (hplain target)
            · rw [if_neg hnil] at hwalk
              obtain ⟨mid, hmid, hrest⟩ := Option.bind_eq_some_iff.mp hwalk
              rw [hjump dir target mid hmid, Option.bind_some]
              exact ih hrest hmade
          · have hplain : ∀ target, node ≠ .symlink target :=
              fun target heq => hlink ⟨target, heq⟩
            obtain ⟨node', hnode', hplain'⟩ := h.plain hnode hplain
            rw [walk_plain hdir' hdot hup hnode' hplain']
            cases node with
            | symlink target => exact absurd rfl (hplain target)
            | directory => exact ih hwalk hmade
            | file data => exact ih hwalk hmade
            | other => exact ih hwalk hmade

theorem resolveNewFrom_made (h : t.Kept u) (limit : Nat) : ∀ {follow : Bool} {dir : Place}
    {path : List Char} {found : Target}, resolveNewFrom t limit follow dir path = some found →
      (∃ node, u.at? found.place = some node ∧ ∀ target, node ≠ .symlink target) →
        resolveFrom u limit true dir path = some found.place := by
  induction limit with
  | zero =>
    intro follow dir path found hres _
    cases hres
  | succ limit ih =>
    intro follow dir path found hres hmade
    exact walkNew_made h (fun _ _ _ hlast hthere => ih hlast hthere)
      (fun _ _ _ hjump => resolveFrom_kept h limit hjump) _ hres hmade

/-- **Once it is made, the path leads to it.** -/
theorem resolve_made (h : t.Kept u) {limit : Nat} {path : List Char} {found : Target}
    (hres : resolveNew t limit follow path = some found)
    (hmade : ∃ node, u.at? found.place = some node ∧ ∀ target, node ≠ .symlink target) :
    resolve u limit true path = some found.place := resolveNewFrom_made h limit hres hmade

end Kept

/-! ## §4. Paths of entries. -/

section Entries

variable {δ : Type*} {t : FileTree δ} {jump : Place → List Char → Option Place}
  {last : Place → List Char → Option Target} {follow : Bool}

/-- Where a walk that follows every link leads, something that may be new is found as well. -/
theorem walkNew_existing
    (hlast : ∀ dir target place, jump dir target = some place →
      last dir target = some (.existing place))
    (cs : List (List Char)) : ∀ {dir place : Place}, walk t jump true dir cs = some place →
      walkNew t jump last true dir cs = some (.existing place) := by
  induction cs with
  | nil =>
    intro dir place hwalk
    obtain ⟨hsome, heq⟩ := Option.ite_none_right_eq_some.mp hwalk
    rw [Option.some.injEq] at heq
    rw [walkNew, if_pos hsome, heq]
  | cons c cs ih =>
    intro dir place hwalk
    rw [walk] at hwalk
    rw [walkNew]
    obtain ⟨hdir, hwalk⟩ := Option.ite_none_left_eq_some.mp hwalk
    rw [if_neg hdir]
    by_cases hdot : c = [] ∨ c = ['.']
    · rw [if_pos hdot] at hwalk ⊢
      exact ih hwalk
    · rw [if_neg hdot] at hwalk ⊢
      by_cases hup : c = ['.', '.']
      · rw [if_pos hup] at hwalk ⊢
        exact ih hwalk
      · rw [if_neg hup] at hwalk ⊢
        cases hnode : t.at? (dir ++ [c]) with
        | none =>
          rw [hnode] at hwalk
          cases hwalk
        | some node =>
          rw [hnode] at hwalk
          cases node with
          | symlink target =>
            simp only at hwalk ⊢
            rw [if_neg (by simp)] at hwalk
            obtain ⟨mid, hmid, hrest⟩ := Option.bind_eq_some_iff.mp hwalk
            -- a link at the end is asked for a place that may not exist yet: it does exist
            by_cases hnil : cs = []
            · subst hnil
              obtain ⟨_, heq⟩ := Option.ite_none_right_eq_some.mp hrest
              rw [Option.some.injEq] at heq
              rw [if_pos rfl, if_pos trivial, hlast dir target mid hmid, heq]
            · rw [if_neg hnil, hmid, Option.bind_some]
              exact ih hrest
          | directory => exact ih hwalk
          | file data => exact ih hwalk
          | other => exact ih hwalk

theorem resolveNewFrom_existing (limit : Nat) : ∀ {dir place : Place} {path : List Char},
    resolveFrom t limit true dir path = some place →
      resolveNewFrom t limit true dir path = some (.existing place) := by
  induction limit with
  | zero =>
    intro dir place path h
    cases h
  | succ limit ih =>
    intro dir place path h
    exact walkNew_existing (fun _ _ _ hjump => ih hjump) _ h

/-- What is there is found, whether it is looked for or to be made. -/
theorem resolveNew_existing {limit : Nat} {path : List Char} {place : Place}
    (h : resolve t limit true path = some place) :
    resolveNew t limit true path = some (.existing place) := resolveNewFrom_existing limit h

/-- The path of an entry is resolved from the place of its directory. -/
theorem resolve_entryPath {limit : Nat} {path name : List Char} {dir : Place}
    (hdir : resolve t (limit + 1) true path = some dir) (hname : '/' ∉ name) :
    resolve t (limit + 1) follow (entryPath path name)
      = walk t (resolveFrom t limit true) follow dir [name] := by
  have hslashes : path = path.rdropWhile (· = '/')
      ++ List.replicate (path.rtakeWhile (· = '/')).length '/' := by
    have hall : path.rtakeWhile (· = '/')
        = List.replicate (path.rtakeWhile (· = '/')).length '/' :=
      List.eq_replicate_of_mem fun c hc => by simpa using List.mem_rtakeWhile_imp hc
    rw [← hall, List.rdropWhile_append_rtakeWhile]
  have hstart : ∀ q : List Char, (if q.head? = some '/' then ([] : Place) else []) = [] := by
    intro q
    split <;> rfl
  simp only [resolve, resolveFrom, hstart] at hdir ⊢
  rw [hslashes, components_append_slashes] at hdir
  have htrimmed := walk_trailing _ hdir
  rw [entryPath, components_append, components_of_name hname,
    walk_append _ _ (List.cons_ne_nil _ _), htrimmed, Option.bind_some]

/-- **The path of an entry leads to the entry.** -/
theorem resolve_entry {limit : Nat} {path name : List Char} {dir : Place} {node : Node δ}
    (hdir : resolve t limit true path = some dir) (hnode : t.at? (dir ++ [name]) = some node) :
    resolve t limit false (entryPath path name) = some (dir ++ [name]) := by
  cases limit with
  | zero => cases hdir
  | succ limit =>
    obtain ⟨hnil, hdot, hup, hslash⟩ := t.proper_of_at hnode
    have hisdir := t.isDirectory_iff.mpr (t.parent_of_at hnode)
    rw [resolve_entryPath hdir hslash, walk, if_neg (by rw [hisdir]; decide),
      if_neg (fun h => h.elim hnil hdot), if_neg hup, hnode]
    have hend : walk t (resolveFrom t limit true) false (dir ++ [name]) []
        = some (dir ++ [name]) := by
      rw [walk, if_pos (by rw [hnode]; rfl)]
    cases node with
    | symlink target =>
      simp only
      rw [if_pos ⟨trivial, trivial⟩]
    | directory => exact hend
    | file data => exact hend
    | other => exact hend

end Entries

/-! ## §5. Moving a subtree. -/

namespace FileTree

variable {δ : Type*} (t : FileTree δ)

/-- Where a node goes when what is at `src` is moved to `dst`. -/
def movedPlace (src dst place : Place) : Place :=
  if src <+: place then dst ++ place.drop src.length else place

/-- The node at `src` can become the entry `name` of `dir`. -/
def Movable (src dir : Place) (name : List Char) : Prop :=
  (t.at? src).isSome = true ∧ t.Vacant dir name ∧ ¬ src <+: dir

instance (src dir : Place) (name : List Char) : Decidable (t.Movable src dir name) :=
  inferInstanceAs (Decidable (_ ∧ _))

variable {t} {src dir : Place} {name : List Char}

/-- Nothing is at the place a subtree is moved to, nor below it. -/
theorem Vacant.below (h : t.Vacant dir name) (rest : Place) :
    t.at? (dir ++ [name] ++ rest) = none := t.not_mem_below h.free rest

/-- Two places that move do not meet. -/
theorem movedPlace_inj (h : t.Vacant dir name) {a b : Place} (ha : a ∈ t.nodes)
    (hb : b ∈ t.nodes) (heq : movedPlace src (dir ++ [name]) a = movedPlace src (dir ++ [name]) b) :
    a = b := by
  -- no node that stays where it is stands where a subtree is moved to
  have hstays : ∀ rest p, p ∈ t.nodes → dir ++ [name] ++ rest ≠ p := by
    rintro rest _ hp rfl
    obtain ⟨node, hnode⟩ := t.mem_iff.mp hp
    rw [h.below] at hnode
    cases hnode
  unfold movedPlace at heq
  split at heq
  · next hsa =>
    split at heq
    · next hsb =>
      have hdrop := List.append_cancel_left heq
      rw [← (List.prefix_iff_eq_append.mp hsa), hdrop, List.prefix_iff_eq_append.mp hsb]
    · exact absurd heq (hstays _ b hb)
  · split at heq
    · exact absurd heq.symm (hstays _ a ha)
    · exact heq

/-- The nodes after a move. -/
def movedNodes (t : FileTree δ) (src dir : Place) (name : List Char) (h : t.Vacant dir name) :
    AList fun _ : Place => Node δ where
  entries := t.nodes.entries.map fun e => ⟨movedPlace src (dir ++ [name]) e.1, e.2⟩
  nodupKeys := by
    show (List.map Sigma.fst _).Nodup
    rw [List.map_map]
    have hkeys : (t.nodes.entries.map fun e => movedPlace src (dir ++ [name]) e.1).Nodup := by
      refine List.Nodup.map_on ?_ t.nodes.nodupKeys.nodup
      intro a ha b hb heq
      have hfst := movedPlace_inj h (AList.mem_keys.mpr (List.mem_keys_of_mem ha))
        (AList.mem_keys.mpr (List.mem_keys_of_mem hb)) heq
      exact t.nodes.nodupKeys.eq_of_fst_eq ha hb hfst
    exact hkeys

theorem lookup_movedNodes_iff (h : t.Vacant dir name) {inner : Place} {node : Node δ} :
    (t.movedNodes src dir name h).lookup inner = some node ↔
      ∃ place, t.at? place = some node ∧ movedPlace src (dir ++ [name]) place = inner := by
  rw [← Option.mem_def, AList.mem_lookup_iff]
  constructor
  · intro hin
    obtain ⟨e, he, heq⟩ := List.mem_map.mp hin
    cases heq
    exact ⟨e.1, AList.mem_lookup_iff.mpr he, rfl⟩
  · rintro ⟨place, hplace, rfl⟩
    exact List.mem_map.mpr ⟨⟨place, node⟩, AList.mem_lookup_iff.mp hplace, rfl⟩

/-- What is at each place after a move. -/
theorem lookup_movedNodes (h : t.Vacant dir name) (inner : Place) :
    (t.movedNodes src dir name h).lookup inner =
      if dir ++ [name] <+: inner then t.at? (src ++ inner.drop (dir ++ [name]).length)
      else if src <+: inner then none
      else t.at? inner := by
  apply Option.ext
  intro node
  rw [lookup_movedNodes_iff h]
  constructor
  · rintro ⟨place, hplace, rfl⟩
    unfold movedPlace
    by_cases hsrc : src <+: place
    · rw [if_pos hsrc, if_pos (List.prefix_append _ _), List.drop_left,
        List.prefix_iff_eq_append.mp hsrc]
      exact hplace
    · -- what stays is not where the subtree was moved to
      have hdst : ¬ dir ++ [name] <+: place := by
        rintro ⟨rest, rfl⟩
        rw [h.below] at hplace
        cases hplace
      rw [if_neg hsrc, if_neg hdst, if_neg hsrc]
      exact hplace
  · intro hnode
    split at hnode
    · next hdst =>
      refine ⟨_, hnode, ?_⟩
      rw [movedPlace, if_pos (List.prefix_append _ _), List.drop_left,
        List.prefix_iff_eq_append.mp hdst]
    · split at hnode
      · cases hnode
      · next hsrc => exact ⟨inner, hnode, by rw [movedPlace, if_neg hsrc]⟩

/-- Move the subtree at `src`. -/
def move (t : FileTree δ) (src dir : Place) (name : List Char) : Option (FileTree δ) :=
  if h : t.Movable src dir name then
    some {
      nodes := t.movedNodes src dir name h.2.1
      proper := by
        intro inner hin c hc
        obtain ⟨node, hnode⟩ := Option.isSome_iff_exists.mp (AList.lookup_isSome.mpr hin)
        obtain ⟨place, hplace, rfl⟩ := (lookup_movedNodes_iff h.2.1).mp hnode
        have hproper := t.proper place (t.mem_iff.mpr ⟨node, hplace⟩)
        unfold movedPlace at hc
        split at hc
        · rcases List.mem_append.mp hc with hc | hc
          · exact h.2.1.proper c hc
          · exact hproper c (List.mem_of_mem_drop hc)
        · exact hproper c hc
      parents := by
        intro d n hin
        obtain ⟨node, hnode⟩ := Option.isSome_iff_exists.mp (AList.lookup_isSome.mpr hin)
        rw [lookup_movedNodes h.2.1] at hnode ⊢
        have hshort : ¬ dir ++ [name] <+: dir := by
          intro hstart
          have hlength := hstart.length_le
          rw [List.length_append, List.length_singleton] at hlength
          omega
        split at hnode
        · next hdst =>
          rcases List.prefix_concat_iff.mp hdst with heq | hdst'
          · -- the new entry itself, in its directory
            obtain ⟨rfl, _⟩ := List.append_inj' heq rfl
            rw [if_neg hshort, if_neg h.2.2]
            exact t.isDirectory_iff.mp h.2.1.1
          · rw [if_pos hdst']
            rw [List.drop_append_of_le_length hdst'.length_le, ← List.append_assoc] at hnode
            exact t.parent_of_at hnode
        · next hdst =>
          obtain ⟨hsrc, hnode⟩ := Option.ite_none_left_eq_some.mp hnode
          have hdst' : ¬ dir ++ [name] <+: d :=
            fun hstart => hdst (hstart.trans (List.prefix_append _ _))
          have hsrc' : ¬ src <+: d :=
            fun hstart => hsrc (hstart.trans (List.prefix_append _ _))
          rw [if_neg hdst', if_neg hsrc']
          exact t.parent_of_at hnode }
  else none

/-- **A moved subtree is what it was**, at its new place and nowhere else. -/
theorem at_move {u : FileTree δ} (h : t.move src dir name = some u) :
    t.Movable src dir name ∧ ∀ inner, u.at? inner =
      if dir ++ [name] <+: inner then t.at? (src ++ inner.drop (dir ++ [name]).length)
      else if src <+: inner then none
      else t.at? inner := by
  unfold move at h
  split at h
  · next hmovable =>
    rw [Option.some.injEq] at h
    refine ⟨hmovable, fun inner => ?_⟩
    rw [← h]
    exact lookup_movedNodes hmovable.2.1 inner
  · cases h

end FileTree

end ResearchSSH.Library
