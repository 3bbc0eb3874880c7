/-
  ResearchSSH.App.TreeIndex — the index of the file tree and the listings.

  A row is looked up by its path in the whole tree, whatever directory is being listed, and the
  home directory has no node of its own: it is the root, known by the first row below it.  What
  makes both work is that the path of an entry says which directory it is in.

  Main results:
    * `parentPathOf_entry` — the directory of an entry can be read off its path.
    * `nodeForPath_spec` — which node a path stands for.
    * `Keyed` and its lemmas — tree and index belong together, whatever is listed.
    * `Linked` and its lemmas — the same for entries of the directory that is listed, with where
      each node is.
    * `tree_mirrors_listings` — in every run the index is that of the tree, and a listing leaves
      the directory with exactly its entries and every other one as it was.
-/

import Mathlib.Data.List.Perm.Basic
import ResearchSSH.App.TreeLinks
import ResearchSSH.App.PathAlgebra
import ResearchSSH.Library.KeyedList

namespace ResearchSSH.App

open ResearchSSH.Core ResearchSSH.Library

/-! ## §1. Paths of entries. -/

/-- The path of an entry of the directory `base`. -/
def EntryOf (base path : QString) : Prop :=
  ∃ name, name ≠ [] ∧ slash ∉ name
    ∧ (path = base ++ slash :: name ∨ base = [slash] ∧ path = slash :: name)

/-- The name is what stands behind the directory. -/
theorem entryOf_iff (base path : QString) :
    EntryOf base path ↔
      (path.drop (base.length + 1) ≠ [] ∧ slash ∉ path.drop (base.length + 1)
          ∧ path = base ++ slash :: path.drop (base.length + 1))
        ∨ (path.drop 1 ≠ [] ∧ slash ∉ path.drop 1 ∧ base = [slash] ∧ path = slash :: path.drop 1) := by
  constructor
  · rintro ⟨name, hname, hslash, rfl | ⟨rfl, rfl⟩⟩
    · left
      have hdrop : (base ++ slash :: name).drop (base.length + 1) = name := by
        rw [List.drop_append, List.drop_of_length_le (by omega)]
        simp
      rw [hdrop]
      exact ⟨hname, hslash, rfl⟩
    · right
      exact ⟨hname, hslash, rfl, rfl⟩
  · rintro (⟨hname, hslash, hpath⟩ | ⟨hname, hslash, hbase, hpath⟩)
    · exact ⟨_, hname, hslash, Or.inl hpath⟩
    · exact ⟨_, hname, hslash, Or.inr ⟨hbase, hpath⟩⟩

instance (base path : QString) : Decidable (EntryOf base path) :=
  decidable_of_iff _ (entryOf_iff base path).symm

/-- **The directory of an entry can be read off its path.** -/
theorem parentPathOf_entry {base path : QString} (hbase : base ≠ []) (h : EntryOf base path) :
    parentPathOf path = base ∧ base.length < path.length := by
  obtain ⟨name, hname, hslash, rfl | ⟨rfl, rfl⟩⟩ := h
  · refine ⟨parentPathOf_append hbase hname hslash, ?_⟩
    rw [List.length_append, List.length_cons]
    omega
  · refine ⟨parentPathOf_root hname hslash, ?_⟩
    have hpos := List.length_pos_iff.mpr hname
    rw [List.length_cons, List.length_cons, List.length_nil]
    omega

/-- The directory that a listing of `path` is of. -/
def listingBase (home path : QString) : QString :=
  if path = [] ∨ path = lit "." ∨ path = home then home else path

/-- The entries are distinct, and those of the directory. -/
def ListsDirectory (home path : QString) (entries : List FsEntry) : Prop :=
  (entries.map FsEntry.path).Nodup ∧ ∀ e ∈ entries, EntryOf (listingBase home path) e.path

instance (home path : QString) (entries : List FsEntry) :
    Decidable (ListsDirectory home path entries) :=
  inferInstanceAs (Decidable ((entries.map FsEntry.path).Nodup
    ∧ ∀ e ∈ entries, EntryOf (listingBase home path) e.path))

/-- The directory that a node stands for. -/
def Ref.base (home : QString) (r : Ref) : QString := if r.path = [] then home else r.path

namespace RemoteFileTreeModel

/-! ## §2. Tree and index. -/

/-- Who is whose child, all over the tree. -/
def links (t : RemoteFileTreeModel) : List Link := t.root.links

/-- The nodes of the tree. -/
def refs (t : RemoteFileTreeModel) : List Ref := t.links.map Link.self

/-- Tree and index belong together, below the home directory `home`. -/
structure Linked (home : QString) (t : RemoteFileTreeModel) : Prop where
  ids : Distinct (t.refs.map Ref.id) t.nextId
  paths : (t.refs.map Ref.path).Nodup
  root : t.root.ref = { id := 0, path := [], parent := none }
  children : ∀ l ∈ t.links, ∀ r ∈ l.children, r.parent = some l.self.id
    ∧ parentPathOf r.path = l.self.base home ∧ home.length < r.path.length
  index : ∀ path id, t.byPath path = some id ↔ ∃ r ∈ t.refs, r.path = path ∧ r.id = id

/-- Every node is found under its path, whatever the paths look like. -/
structure Keyed (t : RemoteFileTreeModel) : Prop where
  ids : Distinct (t.refs.map Ref.id) t.nextId
  paths : (t.refs.map Ref.path).Nodup
  root : t.root.ref = { id := 0, path := [], parent := none }
  index : ∀ path id, t.byPath path = some id ↔ ∃ r ∈ t.refs, r.path = path ∧ r.id = id

variable {home : QString} {t u : RemoteFileTreeModel}

/-- What is linked is keyed. -/
theorem Linked.keyed (h : Linked home t) : Keyed t := ⟨h.ids, h.paths, h.root, h.index⟩

/-- No node is there twice. -/
theorem Keyed.link_ids (h : Keyed t) : (t.root.links.map fun l => l.self.id).Nodup := by
  have hnodup := h.ids.1
  unfold refs at hnodup
  rwa [List.map_map] at hnodup

/-- The rows are the same nodes, known to the index as they were. -/
structure SameRows (t u : RemoteFileTreeModel) : Prop where
  links : u.links = t.links
  root : u.root.ref = t.root.ref
  byPath : u.byPath = t.byPath
  nextId : u.nextId = t.nextId

theorem SameRows.refl (t : RemoteFileTreeModel) : SameRows t t := ⟨rfl, rfl, rfl, rfl⟩

theorem Keyed.congr (h : Keyed t) (h' : SameRows t u) : Keyed u := by
  have hrefs : u.refs = t.refs := congrArg (List.map Link.self) h'.links
  refine ⟨?_, ?_, h'.root.trans h.root, ?_⟩
  · rw [hrefs, h'.nextId]
    exact h.ids
  · rw [hrefs]
    exact h.paths
  · rw [hrefs, h'.byPath]
    exact h.index

/-- A link is one of a node. -/
theorem self_mem_refs {l : Link} (hl : l ∈ t.links) : l.self ∈ t.refs := List.mem_map_of_mem hl

/-- The root has its link. -/
theorem root_mem_links (t : RemoteFileTreeModel) : t.root.link ∈ t.links :=
  Node.link_mem_links (Node.self_mem_nodes t.root)

/-- A child is a node. -/
theorem child_mem_refs {l : Link} {r : Ref} (hl : l ∈ t.links) (hr : r ∈ l.children) :
    r ∈ t.refs := by
  obtain ⟨l', hl', rfl⟩ := Node.exists_link_of_child t.root l hl r hr
  exact self_mem_refs hl'

/-- A tree of its root alone is linked. -/
theorem linked_rootOnly (home : QString) {t : RemoteFileTreeModel} (hlinks : t.links = [t.root.link])
    (hchildren : t.root.children = []) (hroot : t.root.ref = { id := 0, path := [], parent := none })
    (hindex : t.byPath = rootOnly) (hnext : 0 < t.nextId) : Linked home t := by
  have hrefs : t.refs = [{ id := 0, path := [], parent := none }] := by
    unfold refs
    rw [hlinks, ← hroot]
    rfl
  refine ⟨?_, ?_, hroot, ?_, ?_⟩
  · rw [hrefs]
    refine ⟨List.nodup_singleton _, ?_⟩
    intro id hid
    rw [List.map_singleton, List.mem_singleton] at hid
    rw [hid]
    exact hnext
  · rw [hrefs]
    exact List.nodup_singleton _
  · rw [hlinks]
    intro l hl r hr
    rw [List.mem_singleton.mp hl] at hr
    obtain ⟨c, hc, _⟩ := List.mem_map.mp hr
    rw [hchildren] at hc
    exact absurd hc List.not_mem_nil
  · intro path id
    rw [hindex, hrefs]
    unfold rootOnly
    simp only [List.mem_singleton, exists_eq_left, Option.ite_none_right_eq_some, Option.some.injEq]
    exact and_congr_left' eq_comm

/-- The model as it is made is linked. -/
theorem linked_initial (home : QString) : Linked home initial := by
  apply linked_rootOnly home
  · unfold links initial
    rw [Node.links_mk]
    rfl
  · rfl
  · rfl
  · rfl
  · exact Nat.one_pos

theorem Linked.congr (h : Linked home t) (h' : SameRows t u) : Linked home u := by
  have hkeyed := h.keyed.congr h'
  refine ⟨hkeyed.ids, hkeyed.paths, hkeyed.root, ?_, hkeyed.index⟩
  rw [h'.links]
  exact h.children

section
variable (h : Linked home t)

include h

/-- Two links are the same if their nodes have the same path. -/
theorem Linked.link_inj {l l' : Link} (hl : l ∈ t.links) (hl' : l' ∈ t.links)
    (hpath : l.self.path = l'.self.path) : l = l' := by
  have hnodup := h.paths
  unfold refs at hnodup
  rw [List.map_map] at hnodup
  exact List.inj_on_of_nodup_map hnodup hl hl' hpath

/-- Only the root has the empty path. -/
theorem Linked.length_path {l : Link} (hl : l ∈ t.links) (hpath : l.self.path ≠ []) :
    home.length < l.self.path.length := by
  obtain rfl | ⟨l', hl', hchild⟩ := Node.mem_links_cases t.root l hl
  · exact absurd (congrArg Ref.path h.root) hpath
  · exact (h.children l' hl' _ hchild).2.2

/-- Every directory lies in the home directory. -/
theorem Linked.length_base {l : Link} (hl : l ∈ t.links) :
    home.length ≤ (l.self.base home).length := by
  unfold Ref.base
  split
  · exact Nat.le_refl _
  · exact Nat.le_of_lt (h.length_path hl ‹_›)

/-- A directory is that of one node. -/
theorem Linked.base_inj {l l' : Link} (hl : l ∈ t.links) (hl' : l' ∈ t.links)
    (hbase : l.self.base home = l'.self.base home) : l = l' := by
  apply h.link_inj hl hl'
  unfold Ref.base at hbase
  split at hbase
  · next hpath =>
    split at hbase
    · next hpath' => rw [hpath, hpath']
    · next hpath' =>
      have hlong := h.length_path hl' hpath'
      rw [← hbase] at hlong
      omega
  · next hpath =>
    split at hbase
    · have hlong := h.length_path hl hpath
      rw [hbase] at hlong
      omega
    · exact hbase

/-- The node of an entry is a child of the node of its directory. -/
theorem Linked.mem_children {l l' : Link} (hl : l ∈ t.links) (hl' : l' ∈ t.links)
    (hpath : l'.self.path ≠ []) (hparent : parentPathOf l'.self.path = l.self.base home) :
    l'.self ∈ l.children := by
  obtain rfl | ⟨l'', hl'', hchild⟩ := Node.mem_links_cases t.root l' hl'
  · exact absurd (congrArg Ref.path h.root) hpath
  · have hbase := (h.children l'' hl'' _ hchild).2.1
    rwa [h.base_inj hl hl'' (hparent.symm.trans hbase)]

/-- The paths that stand for the home directory. -/
theorem Linked.isRootAliasPath {path : QString} (halias : t.isRootAliasPath path = true) :
    path = [] ∨ path = lit "." ∨ path = home := by
  unfold RemoteFileTreeModel.isRootAliasPath at halias
  split at halias
  · next hpath => exact hpath.elim Or.inl fun hdot => Or.inr (Or.inl hdot)
  · split at halias
    · cases halias
    · next first rest hchildren =>
      right; right
      have hchild : first.ref ∈ t.root.link.children := by
        show first.ref ∈ t.root.children.map Node.ref
        rw [hchildren]
        exact List.mem_map_of_mem List.mem_cons_self
      have hbase := (h.children _ t.root_mem_links _ hchild).2.1
      have hrootBase : t.root.link.self.base home = home := if_pos (congrArg Ref.path h.root)
      rw [← of_decide_eq_true halias]
      exact hbase.trans hrootBase

/-- **Which node a path stands for.** -/
theorem Linked.nodeForPath_spec (hhome : home ≠ []) {path : QString} {x : Node}
    (hx : t.nodeForPath path = some x) :
    x ∈ t.root.nodes ∧ x.ref.base home = listingBase home path
      ∧ (path ≠ [] → path ≠ lit "." → path ≠ home → x.ref.path = path) := by
  have hpos := List.length_pos_iff.mpr hhome
  unfold nodeForPath at hx
  split at hx
  · next id hid =>
    obtain ⟨hmem, hxid⟩ := Node.find?_spec hx
    obtain ⟨r, hr, rfl, hrid⟩ := (h.index path id).mp hid
    have hxr : x.ref = r := by
      apply List.inj_on_of_nodup_map h.ids.1 _ hr (hxid.trans hrid.symm)
      exact self_mem_refs (Node.link_mem_links hmem)
    rw [hxr]
    refine ⟨hmem, ?_, fun _ _ _ => rfl⟩
    unfold Ref.base listingBase
    by_cases hpath : r.path = []
    · rw [if_pos hpath, if_pos (Or.inl hpath)]
    · -- the path of a node below the root is longer than that of the home directory
      have hlong : home.length < r.path.length := by
        rw [← hxr] at hpath ⊢
        exact h.length_path (Node.link_mem_links hmem) hpath
      rw [if_neg hpath, if_neg]
      rintro (hnil | hdot | hhomePath)
      · exact hpath hnil
      · rw [hdot] at hlong
        have hone : (lit ".").length = 1 := rfl
        omega
      · rw [hhomePath] at hlong
        omega
  · split at hx
    · next halias =>
      have hpath := h.isRootAliasPath halias
      obtain rfl := Option.some.inj hx
      refine ⟨Node.self_mem_nodes _, ?_, ?_⟩
      · unfold listingBase
        rw [if_pos hpath]
        exact if_pos (congrArg Ref.path h.root)
      · intro hnil hdot hhomePath
        obtain hp | hp | hp := hpath
        · exact absurd hp hnil
        · exact absurd hp hdot
        · exact absurd hp hhomePath
    · cases hx

end

/-! ## §3. Operations that leave the rows. -/

/-- What a node shows is no part of the links. -/
theorem links_updateNode {f : NodeInfo → NodeInfo} (hf : ∀ i, (f i).ref = i.ref) (id : Nat)
    (t : RemoteFileTreeModel) :
    (t.updateNode id (Node.mapInfo f)).links = t.links
      ∧ (t.updateNode id (Node.mapInfo f)).root.ref = t.root.ref :=
  Node.links_update_mapInfo hf id t.root

/-- What a node shows changes no row. -/
theorem sameRows_updateNode {f : NodeInfo → NodeInfo} (hf : ∀ i, (f i).ref = i.ref) (id : Nat)
    (t : RemoteFileTreeModel) : SameRows t (t.updateNode id (Node.mapInfo f)) :=
  ⟨(links_updateNode hf id t).1, (links_updateNode hf id t).2, rfl, rfl⟩

/-- A fetch changes no row. -/
theorem sameRows_fetchMore (id : Nat) (t : RemoteFileTreeModel) :
    SameRows t (t.fetchMore id).1 := by
  unfold RemoteFileTreeModel.fetchMore
  split
  · exact .refl t
  · split
    · exact sameRows_updateNode (f := fun i => { i with loading := true }) (fun _ => rfl) id t
    · exact .refl t

/-- Loading the root changes no row. -/
theorem sameRows_loadRoot (t : RemoteFileTreeModel) : SameRows t t.loadRoot := by
  refine ⟨?_, ?_, rfl, rfl⟩
  · unfold links RemoteFileTreeModel.loadRoot
    rw [Node.links_eq, Node.links_eq]
    cases t.root with
    | mk info children => rfl
  · unfold RemoteFileTreeModel.loadRoot
    cases t.root with
    | mk info children => rfl

/-- A failure changes no row. -/
theorem sameRows_markLoadFailed (path : QString) (t : RemoteFileTreeModel) :
    SameRows t (t.markLoadFailed path) := by
  unfold RemoteFileTreeModel.markLoadFailed
  split
  · exact .refl t
  · exact sameRows_updateNode (f := fun i => { i with loading := false }) (fun _ => rfl) _ t

/-- Only the root is left. -/
theorem linked_clearTree (home : QString) (h : Keyed t) : Linked home t.clearTree := by
  have hroot : t.clearTree.root.ref = t.root.ref := rfl
  apply linked_rootOnly home
  · unfold links
    rw [Node.links_eq]
    rfl
  · rfl
  · exact hroot.trans h.root
  · rfl
  · have hmem : t.root.ref ∈ t.refs := self_mem_refs t.root_mem_links
    have hlt := h.ids.2 _ (List.mem_map_of_mem hmem)
    show 0 < t.nextId
    omega

/-! ## §4. Taking rows out. -/

/-- The index without the paths of some nodes. -/
def forget (gone : List Link) (byPath : QString → Option Nat) (path : QString) : Option Nat :=
  if path ≠ [] ∧ ∃ l ∈ gone, l.self.path = path then none else byPath path

/-- Nothing is forgotten. -/
theorem forget_nil (byPath : QString → Option Nat) : forget [] byPath = byPath := by
  funext path
  unfold forget
  rw [if_neg]
  rintro ⟨_, l, hl, _⟩
  exact absurd hl List.not_mem_nil

/-- What is forgotten together is forgotten one after another. -/
theorem forget_append (gone gone' : List Link) (byPath : QString → Option Nat) :
    forget (gone ++ gone') byPath = forget gone (forget gone' byPath) := by
  funext path
  have hsplit : (∃ l ∈ gone ++ gone', l.self.path = path)
      ↔ (∃ l ∈ gone, l.self.path = path) ∨ ∃ l ∈ gone', l.self.path = path := by
    simp [or_and_right, exists_or]
  unfold forget
  simp only [hsplit]
  by_cases hgone : ∃ l ∈ gone, l.self.path = path
  · by_cases hpath : path = [] <;> simp [hgone, hpath]
  · simp [hgone]

/-- The order does not count. -/
theorem forget_comm (gone gone' : List Link) (byPath : QString → Option Nat) :
    forget gone (forget gone' byPath) = forget gone' (forget gone byPath) := by
  funext path
  unfold forget
  by_cases hgone : path ≠ [] ∧ ∃ l ∈ gone, l.self.path = path
  · rw [if_pos hgone, if_pos hgone, ite_self]
  · rw [if_neg hgone, if_neg hgone]

/-- One path is forgotten. -/
theorem forget_singleton (l : Link) (byPath : QString → Option Nat) :
    forget [l] byPath
      = if l.self.path = [] then byPath else Function.update byPath l.self.path none := by
  funext path
  unfold forget
  simp only [List.mem_singleton, exists_eq_left]
  split
  · next h =>
    rw [if_neg (h.2 ▸ h.1), ← h.2, Function.update_self]
  · next h =>
    split
    · rfl
    · next hne =>
      rw [Function.update_of_ne]
      rintro rfl
      exact h ⟨hne, rfl⟩

/-- The paths of a node and of everything below it are forgotten. -/
theorem removePathIndex_eq (n : Node) : ∀ byPath : QString → Option Nat,
    removePathIndex byPath n = forget n.links byPath := by
  induction n using Node.induct with
  | mk info children ih =>
    have hbelow : ∀ (ns : List Node), (∀ c ∈ ns, c ∈ children) → ∀ byPath : QString → Option Nat,
        removePathIndexOfAll byPath ns = forget (ns.flatMap Node.links) byPath := by
      intro ns
      induction ns with
      | nil =>
        intro _ byPath
        rw [removePathIndexOfAll, List.flatMap_nil, forget_nil]
      | cons c ns ihs =>
        intro hsub byPath
        rw [removePathIndexOfAll, ihs (fun d hd => hsub d (List.mem_cons_of_mem _ hd)),
          ih c (hsub c List.mem_cons_self), List.flatMap_cons, forget_append, forget_comm]
    intro byPath
    rw [removePathIndex, Node.links_mk, ← List.singleton_append, forget_append, forget_singleton]
    dsimp only
    rw [hbelow children (fun _ hc => hc)]
    rfl

/-- Which rows stay is decided by their paths alone. -/
theorem pruneChildren_eq (incoming : List QString) (children : List Node)
    (byPath : QString → Option Nat) :
    pruneChildren incoming children byPath
      = (children.filter fun c => decide (c.info.path ∈ incoming),
        forget ((children.filter fun c => !decide (c.info.path ∈ incoming)).flatMap Node.links)
          byPath) := by
  unfold pruneChildren
  induction children with
  | nil =>
    rw [List.foldr_nil, List.filter_nil, List.filter_nil, List.flatMap_nil, forget_nil]
  | cons c children ih =>
    rw [List.foldr_cons, ih]
    by_cases hin : c.info.path ∈ incoming
    · rw [List.filter_cons_of_pos (by simp [hin]), List.filter_cons_of_neg (by simp [hin])]
      dsimp only
      rw [if_pos hin]
    · rw [List.filter_cons_of_neg (by simp [hin]), List.filter_cons_of_pos (by simp [hin]),
        List.flatMap_cons, forget_append]
      dsimp only
      rw [if_neg hin, removePathIndex_eq]

/-- The links of the nodes, once a node has been given other children. -/
theorem links_setChildren (h : Keyed t) {x : Node} (hx : x ∈ t.root.nodes) :
    ∃ before after, t.links = before ++ (x.link :: x.children.flatMap Node.links) ++ after ∧
      ∀ (f : Node → Node) (children : List Node), f x = .mk x.info children →
        (t.root.update x.info.id f).links
            = before ++ ({ self := x.ref, children := children.map Node.ref }
              :: children.flatMap Node.links) ++ after
          ∧ (t.root.update x.info.id f).ref = t.root.ref := by
  obtain ⟨before, after, hlinks, hupdate⟩ := Node.links_splice t.root x hx h.link_ids
  refine ⟨before, after, ?_, fun f children hf => ?_⟩
  · rw [← Node.links_eq]
    exact hlinks
  · obtain ⟨hnew, href⟩ := hupdate f (by rw [hf]; rfl)
    refine ⟨?_, href⟩
    rw [hnew, hf, Node.links_mk]
    rfl

/-- No two rows of a node have one path. -/
theorem Keyed.child_paths (h : Keyed t) {x : Node} (hx : x ∈ t.root.nodes) :
    (x.link.children.map Ref.path).Nodup := by
  obtain ⟨before, after, hsplit, _⟩ := links_setChildren h hx
  have hsub : (x.children.map Node.ref).Sublist t.refs := by
    unfold refs
    rw [hsplit, List.map_append, List.map_append, List.map_cons]
    refine (Node.children_sublist x.children).trans ?_
    refine (List.sublist_cons_self x.link.self _).trans ?_
    exact (List.sublist_append_right (before.map Link.self) _).trans (List.sublist_append_left _ _)
  exact List.Nodup.sublist (hsub.map Ref.path) h.paths

/-- The tree and the index after the rows of `x` that are not listed have been taken out. -/
def pruned (t : RemoteFileTreeModel) (x : Node) (incoming : List QString) : RemoteFileTreeModel :=
  { root := t.root.update x.info.id fun n => .mk n.info (pruneChildren incoming x.children t.byPath).1
    byPath := (pruneChildren incoming x.children t.byPath).2, nextId := t.nextId }

/-- The nodes that go with the rows that are taken out. -/
def gone (x : Node) (incoming : List QString) : List Link :=
  (x.children.filter fun c => !incoming.contains c.info.path).flatMap Node.links

/-- What goes are the rows that are not listed, with all below them. -/
theorem gone_eq (x : Node) (incoming : List QString) : gone x incoming
    = (x.children.filter fun c => !decide (c.info.path ∈ incoming)).flatMap Node.links := by
  simp only [gone, List.contains_eq_mem]

/-- Something is taken out of the middle. -/
theorem perm_splice {α : Type} {middle kept gone : List α} (h : List.Perm middle (kept ++ gone))
    (before after : List α) :
    List.Perm (before ++ middle ++ after) (before ++ kept ++ after ++ gone) := by
  have hswap : List.Perm (gone ++ after) (after ++ gone) := List.perm_append_comm
  calc before ++ middle ++ after
      _ = before ++ (middle ++ after) := List.append_assoc _ _ _
      List.Perm _ (before ++ (kept ++ gone ++ after)) := (h.append_right after).append_left before
      _ = before ++ kept ++ (gone ++ after) := by simp only [List.append_assoc]
      List.Perm _ (before ++ kept ++ (after ++ gone)) := hswap.append_left _
      _ = before ++ kept ++ after ++ gone := (List.append_assoc _ _ _).symm

/-- What `pruneChildren` does. -/
structure PrunedSpec (t u : RemoteFileTreeModel) (x : Node) (incoming : List QString) : Prop where
  /-- Nothing is lost but what goes with the rows. -/
  refs : List.Perm t.refs (u.refs ++ (gone x incoming).map Link.self)
  root : u.root.ref = t.root.ref
  others : ∀ l ∈ t.links, l.self.id ≠ x.info.id → l ∉ gone x incoming → l ∈ u.links
  only : ∀ l ∈ u.links, l ∈ t.links ∨ l.self = x.ref ∧ l.children ⊆ x.link.children
  self : ∃ l ∈ u.links, l.self = x.ref
    ∧ l.children.map Ref.path = (x.link.children.map Ref.path).filter (· ∈ incoming)

/-- What pruning does to the links. -/
theorem pruned_spec (h : Keyed t) {x : Node} (hx : x ∈ t.root.nodes)
    (incoming : List QString) : PrunedSpec t (t.pruned x incoming) x incoming := by
  obtain ⟨before, after, hlinks, hupdate⟩ := links_setChildren h hx
  have hprune := pruneChildren_eq incoming x.children t.byPath
  obtain ⟨hnew, hroot⟩ := hupdate
    (fun n => .mk n.info (pruneChildren incoming x.children t.byPath).1) _ rfl
  have hu : (t.pruned x incoming).links = _ := hnew
  rw [hprune] at hu
  dsimp only at hu
  generalize hkept : x.children.filter (fun c => decide (c.info.path ∈ incoming)) = kept at hu
  -- the rows are those that stay and those that go
  have hsplit : List.Perm x.children
      (kept ++ x.children.filter fun c => !decide (c.info.path ∈ incoming)) := by
    rw [← hkept]
    exact (List.filter_append_perm _ _).symm
  -- and so is all that is below them
  have hbelow : List.Perm (x.children.flatMap Node.links)
      (kept.flatMap Node.links ++ gone x incoming) := by
    rw [gone_eq, ← List.flatMap_append]
    exact hsplit.flatMap_right _
  have hsub : kept ⊆ x.children := by
    rw [← hkept]
    exact List.filter_sublist.subset
  refine ⟨?_, hroot, ?_, ?_, ?_⟩
  · unfold refs
    rw [hlinks, hu]
    simp only [List.map_append, List.map_cons]
    have hselves := hbelow.map Link.self
    rw [List.map_append] at hselves
    exact perm_splice (hselves.cons x.ref) _ _
  · intro l hl hid hgone
    rw [hlinks] at hl
    rw [hu]
    obtain hl | hl := List.mem_append.mp hl
    · obtain hl | hl := List.mem_append.mp hl
      · exact List.mem_append_left _ (List.mem_append_left _ hl)
      · refine List.mem_append_left _ (List.mem_append_right _ (List.mem_cons_of_mem _ ?_))
        obtain rfl | hl := List.mem_cons.mp hl
        · exact absurd rfl hid
        · exact (List.mem_append.mp (hbelow.subset hl)).resolve_right hgone
    · exact List.mem_append_right _ hl
  · intro l hl
    rw [hu] at hl
    rw [hlinks]
    obtain hl | hl := List.mem_append.mp hl
    · obtain hl | hl := List.mem_append.mp hl
      · exact Or.inl (List.mem_append_left _ (List.mem_append_left _ hl))
      · obtain rfl | hl := List.mem_cons.mp hl
        · exact Or.inr ⟨rfl, List.map_subset _ hsub⟩
        · refine Or.inl (List.mem_append_left _ (List.mem_append_right _ ?_))
          refine List.mem_cons_of_mem _ ?_
          exact hbelow.symm.subset (List.mem_append_left _ hl)
    · exact Or.inl (List.mem_append_right _ hl)
  · refine ⟨{ self := x.ref, children := kept.map Node.ref }, ?_, rfl, ?_⟩
    · rw [hu]
      exact List.mem_append_left _ (List.mem_append_right _ List.mem_cons_self)
    · show (kept.map Node.ref).map Ref.path = ((x.children.map Node.ref).map Ref.path).filter _
      rw [List.map_map, List.map_map, List.filter_map, ← hkept]
      rfl

/-- Pruning keeps the index. -/
theorem Keyed.pruned (h : Keyed t) {x : Node} (hx : x ∈ t.root.nodes)
    (incoming : List QString) : Keyed (t.pruned x incoming) := by
  have hspec := pruned_spec h hx incoming
  have hids : ((t.pruned x incoming).refs.map Ref.id
      ++ ((gone x incoming).map Link.self).map Ref.id).Nodup := by
    rw [← List.map_append]
    exact (hspec.refs.map Ref.id).nodup_iff.mp h.ids.1
  have hpaths : ((t.pruned x incoming).refs.map Ref.path
      ++ ((gone x incoming).map Link.self).map Ref.path).Nodup := by
    rw [← List.map_append]
    exact (hspec.refs.map Ref.path).nodup_iff.mp h.paths
  have hsub : ∀ r ∈ (t.pruned x incoming).refs, r ∈ t.refs :=
    fun r hr => hspec.refs.symm.subset (List.mem_append_left _ hr)
  refine ⟨⟨hids.of_append_left, ?_⟩, hpaths.of_append_left, hspec.root.trans h.root, ?_⟩
  · intro id hid
    obtain ⟨r, hr, rfl⟩ := List.mem_map.mp hid
    exact h.ids.2 _ (List.mem_map_of_mem (hsub r hr))
  · intro path id
    show (pruneChildren incoming x.children t.byPath).2 path = some id ↔ _
    rw [pruneChildren_eq, ← gone_eq]
    show forget (gone x incoming) t.byPath path = some id ↔ _
    unfold forget
    have hsplit := (List.nodup_append.mp hpaths).2.2
    split
    · -- the path went with a row, and no other node has it
      next hforgot =>
      obtain ⟨_, l, hl, rfl⟩ := hforgot
      constructor
      · intro hnone
        cases hnone
      · rintro ⟨r, hr, hpath, _⟩
        refine absurd hpath (hsplit _ (List.mem_map_of_mem hr) _ ?_)
        exact List.mem_map_of_mem (List.mem_map_of_mem hl)
    · next hkept =>
      rw [h.index]
      constructor
      · rintro ⟨r, hr, rfl, rfl⟩
        refine ⟨r, ?_, rfl, rfl⟩
        refine (List.mem_append.mp (hspec.refs.subset hr)).resolve_right ?_
        intro hgone
        obtain ⟨l, hl, rfl⟩ := List.mem_map.mp hgone
        apply hkept
        refine ⟨?_, l, hl, rfl⟩
        -- the root stays
        intro hnil
        have hroot : (t.pruned x incoming).root.ref ∈ (t.pruned x incoming).refs :=
          self_mem_refs (root_mem_links _)
        have hrootPath : (t.pruned x incoming).root.ref.path = [] :=
          congrArg Ref.path (hspec.root.trans h.root)
        refine hsplit _ (List.mem_map_of_mem hroot) _
          (List.mem_map_of_mem (List.mem_map_of_mem hl)) ?_
        rw [hrootPath, hnil]
      · rintro ⟨r, hr, hpath, hid⟩
        exact ⟨r, hsub r hr, hpath, hid⟩

/-- Pruning keeps the paths. -/
theorem Linked.pruned (h : Linked home t) {x : Node} (hx : x ∈ t.root.nodes)
    (incoming : List QString) : Linked home (t.pruned x incoming) := by
  have hkeyed := h.keyed.pruned hx incoming
  refine ⟨hkeyed.ids, hkeyed.paths, hkeyed.root, ?_, hkeyed.index⟩
  intro l hl r hr
  obtain hold | ⟨hself, hchildren⟩ := (pruned_spec h.keyed hx incoming).only l hl
  · exact h.children l hold r hr
  · rw [hself]
    exact h.children _ (Node.link_mem_links hx) r (hchildren hr)

/-! ## §5. The entries of a listing. -/

/-- What one entry leaves: it is a child of the node whose directory is listed, and the nodes that
were there have the children they had. -/
structure AppliedSpec (home : QString) (t u : RemoteFileTreeModel) (l : Link) (path : QString) :
    Prop where
  linked : Linked home u
  others : ∀ l' ∈ t.links, l'.self.id ≠ l.self.id → l' ∈ u.links
  self : ∃ l' ∈ u.links, l'.self = l.self ∧ l'.children.map Ref.path
    = if path ∈ l.children.map Ref.path then l.children.map Ref.path
      else l.children.map Ref.path ++ [path]

/-- The tree and the index after a new row has been put behind those of `x`. -/
def appended (t : RemoteFileTreeModel) (x child : Node) : RemoteFileTreeModel :=
  { root := t.root.update x.info.id fun n => .mk n.info (n.children ++ [child])
    byPath := Function.update t.byPath child.ref.path (some t.nextId)
    nextId := t.nextId + 1 }

/-- What appending a child does. -/
structure AppendedSpec (t u : RemoteFileTreeModel) (x child : Node) : Prop where
  refs : List.Perm u.refs (t.refs ++ [child.ref])
  root : u.root.ref = t.root.ref
  others : ∀ l ∈ t.links, l.self.id ≠ x.info.id → l ∈ u.links
  only : ∀ l ∈ u.links, l ∈ t.links ∨ l = child.link
    ∨ l = { self := x.ref, children := (x.children ++ [child]).map Node.ref }
  self : { self := x.ref, children := (x.children ++ [child]).map Node.ref : Link } ∈ u.links

/-- A new row is put behind the others. -/
theorem appended_spec (h : Keyed t) {x : Node} (hx : x ∈ t.root.nodes) {child : Node}
    (hleaf : child.children = []) : AppendedSpec t (t.appended x child) x child := by
  obtain ⟨before, after, hlinks, hupdate⟩ := links_setChildren h hx
  obtain ⟨hadded, hroot⟩ := hupdate (fun n => .mk n.info (n.children ++ [child])) _ rfl
  have hchild : child.links = [child.link] := by
    rw [Node.links_eq, hleaf, List.flatMap_nil]
  rw [List.flatMap_append, List.flatMap_singleton, hchild] at hadded
  have hulinks : (t.appended x child).links = before
      ++ ({ self := x.ref, children := (x.children ++ [child]).map Node.ref }
      :: (x.children.flatMap Node.links ++ [child.link])) ++ after := hadded
  refine ⟨?_, hroot, ?_, ?_, ?_⟩
  · unfold RemoteFileTreeModel.refs
    rw [hlinks, hulinks]
    simp only [List.map_append, List.map_cons, List.map_nil]
    have hlast : List.Perm (x.ref :: ((x.children.flatMap Node.links).map Link.self ++ [child.ref]))
        ((x.ref :: (x.children.flatMap Node.links).map Link.self) ++ [child.ref]) := List.Perm.refl _
    exact perm_splice hlast _ _
  · intro l hl hother
    rw [hlinks] at hl
    rw [hulinks]
    simp only [List.mem_append, List.mem_cons, List.not_mem_nil, or_false] at hl ⊢
    obtain (hl | rfl | hl) | hl := hl
    · exact Or.inl (Or.inl hl)
    · exact absurd rfl hother
    · exact Or.inl (Or.inr (Or.inr (Or.inl hl)))
    · exact Or.inr hl
  · intro l hl
    rw [hulinks] at hl
    rw [hlinks]
    simp only [List.mem_append, List.mem_cons, List.not_mem_nil, or_false] at hl ⊢
    tauto
  · rw [hulinks]
    exact List.mem_append_left _ (List.mem_append_right _ List.mem_cons_self)

/-- The path of a new row is of no other node. -/
theorem Keyed.fresh (h : Keyed t) {path : QString} (hnew : t.byPath path = none) :
    ∀ r ∈ t.refs, r.path ≠ path := by
  intro r hr hpath
  have hsome := (h.index path r.id).mpr ⟨r, hr, hpath, rfl⟩
  rw [hnew] at hsome
  cases hsome

/-- A new row keeps the index. -/
theorem Keyed.append (h : Keyed t) {x : Node} (hx : x ∈ t.root.nodes) {child : Node}
    (hleaf : child.children = []) (hid : child.ref.id = t.nextId)
    (hnew : t.byPath child.ref.path = none) : Keyed (t.appended x child) := by
  have hspec := appended_spec h hx hleaf
  have hfresh := h.fresh hnew
  have hsplit : ∀ r, r ∈ (t.appended x child).refs ↔ r ∈ t.refs ∨ r = child.ref := by
    intro r
    rw [hspec.refs.mem_iff, List.mem_append, List.mem_singleton]
  refine ⟨?_, ?_, hspec.root.trans h.root, ?_⟩
  · have hpush := h.ids.push
    have hids := hspec.refs.map Ref.id
    rw [List.map_append, List.map_singleton, hid] at hids
    exact ⟨hids.nodup_iff.mpr hpush.1, fun id hmem => hpush.2 id (hids.subset hmem)⟩
  · have hpaths := hspec.refs.map Ref.path
    rw [List.map_append, List.map_singleton] at hpaths
    rw [hpaths.nodup_iff, List.nodup_append]
    refine ⟨h.paths, List.nodup_singleton _, ?_⟩
    intro path hpath other hother
    obtain ⟨r, hr, rfl⟩ := List.mem_map.mp hpath
    rw [List.mem_singleton.mp hother]
    exact hfresh r hr
  · intro path id
    simp only [hsplit]
    show Function.update t.byPath child.ref.path (some t.nextId) path = some id ↔ _
    by_cases hpath : path = child.ref.path
    · rw [hpath, Function.update_self, Option.some.injEq]
      constructor
      · rintro rfl
        exact ⟨child.ref, Or.inr rfl, rfl, hid⟩
      · rintro ⟨r, hr | rfl, hrpath, hrid⟩
        · exact absurd hrpath (hfresh r hr)
        · rw [← hid, hrid]
    · rw [Function.update_of_ne hpath, h.index]
      constructor
      · rintro ⟨r, hr, hrest⟩
        exact ⟨r, Or.inl hr, hrest⟩
      · rintro ⟨r, hr | rfl, hrpath, hrid⟩
        · exact ⟨r, hr, hrpath, hrid⟩
        · exact absurd hrpath.symm hpath

/-- A new row keeps the paths. -/
theorem Linked.append (h : Linked home t) {x : Node} (hx : x ∈ t.root.nodes) {child : Node}
    (hleaf : child.children = []) (hid : child.ref.id = t.nextId)
    (hpointer : child.ref.parent = some x.info.id)
    (hparent : parentPathOf child.ref.path = x.ref.base home)
    (hlong : home.length < child.ref.path.length)
    (hnew : t.byPath child.ref.path = none) :
    AppliedSpec home t (t.appended x child) x.link child.ref.path := by
  have hspec := appended_spec h.keyed hx hleaf
  have hkeyed := h.keyed.append hx hleaf hid hnew
  have hxlink : x.link ∈ t.links := Node.link_mem_links hx
  have hleafLink : child.link.children = [] := by
    show child.children.map Node.ref = []
    rw [hleaf, List.map_nil]
  refine ⟨⟨hkeyed.ids, hkeyed.paths, hkeyed.root, ?_, hkeyed.index⟩, hspec.others, _, hspec.self,
    rfl, ?_⟩
  · intro l hl r hr
    obtain hold | rfl | rfl := hspec.only l hl
    · exact h.children l hold r hr
    · rw [hleafLink] at hr
      exact absurd hr List.not_mem_nil
    · change r ∈ (x.children ++ [child]).map Node.ref at hr
      rw [List.map_append, List.map_singleton] at hr
      obtain hold | hlast := List.mem_append.mp hr
      · exact h.children _ hxlink r hold
      · rw [List.mem_singleton.mp hlast]
        exact ⟨hpointer, hparent, hlong⟩
  · rw [if_neg]
    · show ((x.children ++ [child]).map Node.ref).map Ref.path = _
      rw [List.map_append, List.map_append]
      rfl
    · intro hin
      obtain ⟨r, hr, hrpath⟩ := List.mem_map.mp hin
      exact h.keyed.fresh hnew r (child_mem_refs hxlink hr) hrpath

/-- A path that leads to no node is not in the index. -/
theorem Keyed.byPath_of_unknown (h : Keyed t) {path : QString} (hnone : t.nodeForPath path = none) :
    t.byPath path = none := by
  cases hindex : t.byPath path with
  | none => rfl
  | some id =>
    obtain ⟨r, hr, _, hid⟩ := (h.index path id).mp hindex
    obtain ⟨l', hl', rfl⟩ := List.mem_map.mp hr
    obtain ⟨y, hy, rfl⟩ := List.mem_map.mp hl'
    have hfound := Node.find?_self h.link_ids hy
    unfold nodeForPath at hnone
    rw [hindex, ← hid] at hnone
    exact absurd (hfound.symm.trans hnone) (Option.some_ne_none y)

/-- What an entry says of the node under its path. -/
def toldBy (e : FsEntry) (i : NodeInfo) : NodeInfo :=
  { i with name := e.name, isDir := e.kind = .directory, size := e.size, editable := e.editable }

/-- The row that an entry adds to those of `x`. -/
def newRow (t : RemoteFileTreeModel) (x : Node) (e : FsEntry) : Node :=
  .mk { id := t.nextId, name := e.name, path := e.path, isDir := e.kind = .directory, size := e.size
        editable := e.editable, loaded := false, loading := false, parent := some x.info.id } []

/-- An entry tells a known node what it is, or adds a row under a path that is not known. -/
theorem Keyed.applyEntry_cases (h : Keyed t) (x : Node) (e : FsEntry) :
    (∃ existing, t.nodeForPath e.path = some existing ∧
      t.applyEntry x.info.id e = t.updateNode existing.info.id (Node.mapInfo (toldBy e))) ∨
    (t.byPath e.path = none ∧ t.applyEntry x.info.id e = t.appended x (t.newRow x e)) := by
  unfold RemoteFileTreeModel.applyEntry
  split
  · next existing hexisting => exact .inl ⟨existing, hexisting, rfl⟩
  · next hnone =>
    have hindex := h.byPath_of_unknown hnone
    -- the empty path is that of the root
    have hne : e.path ≠ [] := by
      intro hnil
      have hroot := (h.index [] t.root.ref.id).mpr
        ⟨t.root.ref, self_mem_refs t.root_mem_links, congrArg Ref.path h.root, rfl⟩
      rw [hnil, hroot] at hindex
      cases hindex
    rw [if_neg hne]
    exact .inr ⟨hindex, rfl⟩

/-- A row is shown otherwise where it stands. -/
theorem Linked.shown (h : Linked home t) {l : Link} (hl : l ∈ t.links) {f : NodeInfo → NodeInfo}
    (hf : ∀ i, (f i).ref = i.ref) {id : Nat} {path : QString}
    (hin : path ∈ l.children.map Ref.path) :
    AppliedSpec home t (t.updateNode id (Node.mapInfo f)) l path := by
  obtain ⟨hlinks, _⟩ := links_updateNode hf id t
  refine ⟨h.congr (sameRows_updateNode hf id t), ?_, l, ?_, rfl, ?_⟩
  · intro l' hl' _
    rw [hlinks]
    exact hl'
  · rw [hlinks]
    exact hl
  · rw [if_pos hin]

/-- A path that is longer than that of the home directory does not stand for it. -/
theorem not_home_of_longer (hhome : home ≠ []) {path : QString} (hlong : home.length < path.length) :
    path ≠ [] ∧ path ≠ lit "." ∧ path ≠ home := by
  have hpos := List.length_pos_iff.mpr hhome
  refine ⟨?_, ?_, ?_⟩
  · intro heq
    rw [heq] at hlong
    exact absurd hlong (Nat.not_lt_zero _)
  · intro heq
    rw [heq] at hlong
    have hone : (lit ".").length = 1 := rfl
    omega
  · intro heq
    rw [heq] at hlong
    omega

/-- The path of an entry says which node it is a row of, and is longer than that node's. -/
theorem Linked.entry_below (h : Linked home t) (hhome : home ≠ []) {l : Link} (hl : l ∈ t.links)
    {path : QString} (hentry : EntryOf (l.self.base home) path) :
    parentPathOf path = l.self.base home ∧ (l.self.base home).length < path.length
      ∧ home.length < path.length := by
  have hpos := List.length_pos_iff.mpr hhome
  have hlong := h.length_base hl
  have hbase : l.self.base home ≠ [] := List.length_pos_iff.mp (by omega)
  obtain ⟨hparent, hlonger⟩ := parentPathOf_entry hbase hentry
  exact ⟨hparent, hlonger, by omega⟩

/-- **An entry of a listing.**  Its node is a child of the one whose directory is listed. -/
theorem Linked.applyEntry (h : Linked home t) (hhome : home ≠ []) {l : Link} (hl : l ∈ t.links)
    {e : FsEntry} (hentry : EntryOf (l.self.base home) e.path) :
    AppliedSpec home t (t.applyEntry l.self.id e) l e.path := by
  obtain ⟨hparent, _, hlong⟩ := h.entry_below hhome hl hentry
  obtain ⟨hne, hdot, hhomePath⟩ := not_home_of_longer hhome hlong
  obtain ⟨x, hx, rfl⟩ : ∃ x ∈ t.root.nodes, x.link = l := List.mem_map.mp hl
  show AppliedSpec home t (t.applyEntry x.info.id e) x.link e.path
  obtain ⟨existing, hexisting, heq⟩ | ⟨hindex, heq⟩ := h.keyed.applyEntry_cases x e
  · rw [heq]
    -- known by its path, and so a child of the directory
    obtain ⟨hmem, _, hpath⟩ := h.nodeForPath_spec hhome hexisting
    have hpathEq : existing.ref.path = e.path := hpath hne hdot hhomePath
    have hlinkMem : existing.link ∈ t.links := Node.link_mem_links hmem
    have hchild : existing.ref ∈ x.link.children := by
      apply h.mem_children hl hlinkMem
      · show existing.ref.path ≠ []
        rw [hpathEq]
        exact hne
      · show parentPathOf existing.ref.path = _
        rw [hpathEq, hparent]
    refine h.shown hl ?_ ?_
    · intro i
      rfl
    · rw [← hpathEq]
      exact List.mem_map_of_mem hchild
  · rw [heq]
    exact h.append hx rfl rfl rfl hparent hlong hindex

/-- The rows of a directory once the listed paths have been filled in. -/
def fill (rows listed : List QString) : List QString :=
  rows ++ listed.filter fun path => !rows.contains path

/-- The rows there were, and behind them those that are new. -/
theorem fill_eq (rows listed : List QString) :
    fill rows listed = rows ++ listed.filter fun path => decide (path ∉ rows) := by
  simp only [fill, List.contains_eq_mem, decide_not]

/-- One entry first. -/
theorem fill_cons {rows listed : List QString} {path : QString} (h : path ∉ listed) :
    fill rows (path :: listed) = fill (if path ∈ rows then rows else rows ++ [path]) listed := by
  rw [fill_eq, fill_eq]
  by_cases hin : path ∈ rows
  · rw [if_pos hin, List.filter_cons_of_neg (by simpa using hin)]
  · have hrest : listed.filter (fun q => decide (q ∉ rows ++ [path]))
        = listed.filter (fun q => decide (q ∉ rows)) := by
      apply List.filter_congr
      intro q hq
      have hne : q ≠ path := fun heq => h (heq ▸ hq)
      simp [hne]
    rw [if_neg hin, List.filter_cons_of_pos (by simpa using hin), hrest, List.append_assoc]
    rfl

/-- Rows that are listed, filled up with the rest, are what is listed. -/
theorem fill_perm {rows listed : List QString} (hrows : rows.Nodup) (hlisted : listed.Nodup)
    (hsub : rows ⊆ listed) : List.Perm (fill rows listed) listed := by
  have hnodup : (fill rows listed).Nodup := by
    rw [fill_eq, List.nodup_append]
    refine ⟨hrows, hlisted.filter _, ?_⟩
    rintro a ha b hb rfl
    exact of_decide_eq_true (List.mem_filter.mp hb).2 ha
  rw [List.perm_ext_iff_of_nodup hnodup hlisted]
  intro a
  rw [fill_eq, List.mem_append, List.mem_filter]
  constructor
  · rintro (ha | ha)
    · exact hsub ha
    · exact ha.1
  · intro ha
    by_cases hin : a ∈ rows
    · exact Or.inl hin
    · exact Or.inr ⟨ha, decide_eq_true hin⟩

/-- All entries of a listing. -/
theorem Linked.applyEntries (hhome : home ≠ []) {self : Ref} (entries : List FsEntry) :
    ∀ {t : RemoteFileTreeModel} {l : Link}, Linked home t → l ∈ t.links → l.self = self →
      (entries.map FsEntry.path).Nodup → (∀ e ∈ entries, EntryOf (self.base home) e.path) →
      Linked home (entries.foldl (fun t e => t.applyEntry self.id e) t)
        ∧ (∀ l' ∈ t.links, l'.self.id ≠ self.id →
            l' ∈ (entries.foldl (fun t e => t.applyEntry self.id e) t).links)
        ∧ ∃ l' ∈ (entries.foldl (fun t e => t.applyEntry self.id e) t).links, l'.self = self
          ∧ l'.children.map Ref.path
            = fill (l.children.map Ref.path) (entries.map FsEntry.path) := by
  induction entries with
  | nil =>
    intro t l h hl hself _ _
    refine ⟨h, fun l' hl' _ => hl', l, hl, hself, ?_⟩
    unfold fill
    rw [List.map_nil, List.filter_nil, List.append_nil]
  | cons e entries ih =>
    rintro t l h hl rfl hnodup hentries
    rw [List.map_cons, List.nodup_cons] at hnodup
    obtain ⟨hlinked, hothers, l', hl', hself, hrows⟩ :=
      h.applyEntry hhome hl (hentries e List.mem_cons_self)
    obtain ⟨hlinked', hothers', l'', hl'', hself', hrows'⟩ :=
      ih hlinked hl' hself hnodup.2 (fun e' he' => hentries e' (List.mem_cons_of_mem _ he'))
    rw [List.foldl_cons]
    refine ⟨hlinked', fun m hm hid => hothers' m (hothers m hm hid) hid, l'', hl'', hself', ?_⟩
    rw [hrows', hrows, List.map_cons, fill_cons hnodup.1]

/-! ## §6. Listings. -/

/-- The index is that of the tree. -/
structure Indexed (t : RemoteFileTreeModel) : Prop where
  ids : (t.root.nodes.map fun n => n.info.id).Nodup
  root : t.byPath [] = some t.root.info.id
  index : ∀ path id, path ≠ [] →
    (t.byPath path = some id ↔ ∃ n ∈ t.root.nodes, n.info.path = path ∧ n.info.id = id)
  paths : (t.root.nodes.map fun n => n.info.path).Nodup
  parents : ∀ n ∈ t.root.nodes, ∀ c ∈ n.children, c.info.parent = some n.info.id

/-- From `t` to `u` the directory of `x` has been given the rows of a listing. -/
structure Mirrors (t u : RemoteFileTreeModel) (x : Node) (entries : List FsEntry) : Prop where
  listed : ∃ n ∈ u.root.nodes, n.info.id = x.info.id
    ∧ List.Perm (n.children.map fun c => c.info.path) (entries.map FsEntry.path)
  /-- Every other node that did not go with a row of `x` has the children it had. -/
  others : ∀ n ∈ t.root.nodes, n.info.id ≠ x.info.id →
    (∀ c ∈ x.children, c.info.path ∉ entries.map FsEntry.path →
      ∀ m ∈ c.nodes, m.info.id ≠ n.info.id) →
    ∃ m ∈ u.root.nodes, m.info.id = n.info.id ∧ m.info.path = n.info.path
      ∧ m.children.map (fun c => c.info.id) = n.children.map (fun c => c.info.id)
      ∧ m.children.map (fun c => c.info.path) = n.children.map (fun c => c.info.path)

/-- In a linked tree the index is the tree's. -/
theorem Linked.indexed (h : Linked home t) : Indexed t := by
  have hrefs : t.refs = t.root.nodes.map Node.ref := Node.map_self_links t.root
  refine ⟨?_, ?_, ?_, ?_, ?_⟩
  · have hids := h.ids.1
    rwa [hrefs, List.map_map] at hids
  · refine (h.index [] t.root.info.id).mpr ⟨t.root.ref, ?_, congrArg Ref.path h.root, rfl⟩
    exact self_mem_refs t.root_mem_links
  · intro path id _
    rw [h.index, hrefs]
    constructor
    · rintro ⟨r, hr, hpath, hid⟩
      obtain ⟨n, hn, rfl⟩ := List.mem_map.mp hr
      exact ⟨n, hn, hpath, hid⟩
    · rintro ⟨n, hn, hpath, hid⟩
      exact ⟨n.ref, List.mem_map_of_mem hn, hpath, hid⟩
  · have hpaths := h.paths
    rwa [hrefs, List.map_map] at hpaths
  · intro n hn c hc
    exact (h.children _ (Node.link_mem_links hn) _ (List.mem_map_of_mem hc)).1

/-- **A listing.** -/
theorem Linked.applyListing (h : Linked home t) (hhome : home ≠ []) {path : QString}
    {entries : List FsEntry} (hlists : ListsDirectory home path entries) :
    Linked home (t.applyListing path entries)
      ∧ ∀ x, t.nodeForPath path = some x → Mirrors t (t.applyListing path entries) x entries := by
  unfold RemoteFileTreeModel.applyListing
  cases hx : t.nodeForPath path with
  | none =>
    refine ⟨h, fun x hfound => ?_⟩
    cases hfound
  | some x =>
    obtain ⟨hmem, hbase, _⟩ := h.nodeForPath_spec hhome hx
    dsimp only
    generalize hincoming : entries.map FsEntry.path = incoming
    have hspec := pruned_spec h.keyed hmem incoming
    have hpruned : Linked home (t.pruned x incoming) := h.pruned hmem incoming
    obtain ⟨l, hl, hself, hrows⟩ := hspec.self
    have hentries : ∀ e ∈ entries, EntryOf (x.ref.base home) e.path := by
      rw [hbase]
      exact hlists.2
    obtain ⟨hlinked, hothers, l', hl', hself', hrows'⟩ :=
      Linked.applyEntries hhome entries hpruned hl hself hlists.1 hentries
    rw [hincoming, hrows] at hrows'
    show Linked home (RemoteFileTreeModel.updateNode
      (entries.foldl (fun t e => t.applyEntry x.info.id e)
      (t.pruned x incoming)) _ _) ∧ _
    obtain ⟨hlinks, _⟩ := links_updateNode (f := fun i => { i with loaded := true, loading := false })
      (fun _ => rfl) x.info.id (entries.foldl (fun t e => t.applyEntry x.info.id e)
        (t.pruned x incoming))
    refine ⟨hlinked.congr (sameRows_updateNode
      (f := fun i => { i with loaded := true, loading := false }) (fun _ => rfl) _ _), fun y hy => ?_⟩
    obtain rfl := Option.some.inj hy
    constructor
    · obtain ⟨n, hn, hnlink⟩ : ∃ n ∈ _, Node.link n = l' := List.mem_map.mp (hlinks ▸ hl')
      refine ⟨n, hn, ?_, ?_⟩
      · have hid := congrArg (fun m : Link => m.self.id) hnlink
        exact hid.trans (congrArg Ref.id hself')
      · have hpaths : n.children.map (fun c => c.info.path) = l'.children.map Ref.path := by
          rw [← hnlink]
          show _ = (n.children.map Node.ref).map Ref.path
          rw [List.map_map]
          rfl
        rw [hpaths, hrows', hincoming]
        -- the rows that stayed are listed, and no two of them have one path
        apply fill_perm ((h.keyed.child_paths hmem).filter _) (hincoming ▸ hlists.1)
        intro q hq
        exact of_decide_eq_true (List.mem_filter.mp hq).2
    · intro n hn hother hstays
      have hkept : n.link ∈ (t.pruned x incoming).links := by
        refine hspec.others n.link (Node.link_mem_links hn) hother ?_
        intro hgone
        obtain ⟨c, hc, hlink⟩ := List.mem_flatMap.mp hgone
        obtain ⟨hcx, hunlisted⟩ := List.mem_filter.mp hc
        obtain ⟨m, hm, hmlink⟩ := List.mem_map.mp hlink
        rw [hincoming] at hstays
        refine hstays c hcx (by simpa using hunlisted) m hm ?_
        exact congrArg (fun k : Link => k.self.id) hmlink
      obtain ⟨m, hm, hmlink⟩ : ∃ m ∈ _, Node.link m = n.link :=
        List.mem_map.mp (hlinks ▸ hothers _ hkept hother)
      have hrefs := congrArg Link.children hmlink
      refine ⟨m, hm, congrArg (fun k : Link => k.self.id) hmlink,
        congrArg (fun k : Link => k.self.path) hmlink, ?_, ?_⟩
      · have hids := congrArg (List.map Ref.id) hrefs
        simpa [Node.link, Node.ref, NodeInfo.ref, Function.comp_def] using hids
      · have hpaths := congrArg (List.map Ref.path) hrefs
        simpa [Node.link, Node.ref, NodeInfo.ref, Function.comp_def] using hpaths

/-! ## §7. Runs. -/

/-- The operations of the model. -/
inductive TreeAction
  | clearTree
  | loadRoot
  | fetchMore (id : Nat)
  | markLoadFailed (path : QString)
  | applyListing (path : QString) (entries : List FsEntry)
  deriving DecidableEq, Repr

/-- An operation on the model. -/
def run (t : RemoteFileTreeModel) : TreeAction → RemoteFileTreeModel
  | .clearTree => t.clearTree
  | .loadRoot => t.loadRoot
  | .fetchMore id => (t.fetchMore id).1
  | .markLoadFailed path => t.markLoadFailed path
  | .applyListing path entries => t.applyListing path entries

/-- A listing has the entries of the directory it is of. -/
def TreeAction.Lists (home : QString) : TreeAction → Prop
  | .applyListing path entries => ListsDirectory home path entries
  | _ => True

instance (home : QString) : ∀ action : TreeAction, Decidable (action.Lists home)
  | .applyListing path entries => inferInstanceAs (Decidable (ListsDirectory home path entries))
  | .clearTree | .loadRoot | .fetchMore _ | .markLoadFailed _ => inferInstanceAs (Decidable True)

/-- **One operation** keeps it. -/
theorem Linked.run (h : Linked home t) (hhome : home ≠ []) {action : TreeAction}
    (hlists : action.Lists home) : Linked home (t.run action) := by
  cases action with
  | clearTree => exact linked_clearTree home h.keyed
  | loadRoot => exact h.congr (sameRows_loadRoot t)
  | fetchMore id => exact h.congr (sameRows_fetchMore id t)
  | markLoadFailed path => exact h.congr (sameRows_markLoadFailed path t)
  | applyListing path entries => exact (h.applyListing hhome hlists).1

/-- **The tree mirrors the listings.**  After any actions whose listings have the entries of the
directories they are of, the index is that of the tree, and one more listing leaves its directory
with exactly the listed rows and every other node that stays with the rows it had. -/
theorem tree_mirrors_listings (home : QString) (hhome : startsWith home (lit "/") = true)
    (actions : List TreeAction) (hlists : ∀ action ∈ actions, action.Lists home) :
    Indexed (actions.foldl run initial)
      ∧ ∀ path entries, ListsDirectory home path entries →
          ∀ x, (actions.foldl run initial).nodeForPath path = some x →
            Mirrors (actions.foldl run initial)
              ((actions.foldl run initial).applyListing path entries) x entries := by
  have hne : home ≠ [] := by
    rintro rfl
    cases hhome
  have hlinked : Linked home (actions.foldl run initial) :=
    List.foldlRecOn actions run (linked_initial home)
      (fun _ h action hmem => h.run hne (hlists action hmem))
  exact ⟨hlinked.indexed, fun path entries hentries => (hlinked.applyListing hne hentries).2⟩

/-- A directory or an empty file. -/
def row (path name : QString) (kind : FileKind) : FsEntry :=
  { name := name, path := path, kind := kind, size := 0, modified := 0, editable := false }

/-- The home directory is listed, its one directory expanded and listed, and the home directory
listed again under its path. -/
def expandedActions : List TreeAction :=
  [.loadRoot,
    .applyListing [] [row (lit "/home/a") (lit "a") .directory, row (lit "/home/b") (lit "b") .file],
    .fetchMore 1, .applyListing (lit "/home/a") [row (lit "/home/a/x") (lit "x") .file],
    .applyListing (lit "/home") [row (lit "/home/a") (lit "a") .directory,
      row (lit "/home/c") (lit "c") .file]]

theorem tree_mirrors_listings_expanded :
    (∀ action ∈ expandedActions, action.Lists (lit "/home"))
      ∧ Indexed (expandedActions.foldl run initial)
      ∧ ((expandedActions.foldl run initial).root.nodes.map fun n => n.info.path)
        = [[], lit "/home/a", lit "/home/a/x", lit "/home/c"] :=
  ⟨by decide, (tree_mirrors_listings (lit "/home") (by decide) expandedActions (by decide)).1,
    by decide⟩

end RemoteFileTreeModel

end ResearchSSH.App
