/-
  ResearchSSH.App.TreeKinds — which nodes of the tree have rows below them.

  A node is asked whether it has children by what its last listing said it is, and how many by the
  rows it has.  A listing tells an old row anew what it is and leaves the rows below it; and it
  gives rows to whatever node its path leads to.

  Main results:
    * `Linked.listed_rows`, `Linked.showsDir_applyListing` — what a listing makes of rows and kinds.
    * `Leafy` — only directories have rows, and every path is below that of its directory.
    * `only_directories_iff` — in a run only directories have rows exactly if no listing makes
      something else of a node with rows, or gives rows to something else.
-/

import ResearchSSH.App.TreeLoading
import ResearchSSH.Library.Transition

namespace ResearchSSH.App

open ResearchSSH.Core ResearchSSH.Library

namespace Node

/-- `rowCount`, for the node of an index. -/
def rowCount (n : Node) : Nat := n.children.length

/-- `hasChildren`, for the node of an index. -/
def hasChildren (n : Node) : Bool := n.info.isDir

end Node

namespace RemoteFileTreeModel

variable {home : QString} {t u : RemoteFileTreeModel} {r : Ref}

/-! ## §1. Rows and kinds after a listing. -/

/-- One entry gives rows to the listed node alone. -/
theorem applyEntry_only (h : Keyed t) {x : Node} (hx : x ∈ t.root.nodes) (e : FsEntry) :
    ∀ l ∈ (t.applyEntry x.info.id e).links, l ∈ t.links ∨ l.children = [] ∨ l.self = x.ref := by
  intro l hl
  obtain ⟨existing, _, heq⟩ | ⟨_, heq⟩ := h.applyEntry_cases x e
  · left
    rwa [heq, (links_updateNode (f := toldBy e) (fun _ => rfl) existing.info.id t).1] at hl
  · rw [heq] at hl
    have hleaf : (t.newRow x e).children = [] := rfl
    obtain hold | rfl | rfl := (appended_spec h hx hleaf).only l hl
    · exact .inl hold
    · exact .inr (.inl rfl)
    · exact .inr (.inr rfl)

/-- New rows have nothing below them. -/
theorem applyEntries_only {self : Ref} (entries : List FsEntry) :
    ∀ {t : RemoteFileTreeModel}, Keyed t → self ∈ t.refs →
      ∀ l ∈ (entries.foldl (fun t e => t.applyEntry self.id e) t).links,
        l ∈ t.links ∨ l.children = [] ∨ l.self = self := by
  induction entries with
  | nil => exact fun _ _ l hl => .inl hl
  | cons e entries ih =>
    intro t h hself l hl
    obtain ⟨l', hl', rfl⟩ := List.mem_map.mp hself
    obtain ⟨x, hx, rfl⟩ := List.mem_map.mp hl'
    obtain ⟨hkeyed, hstays, _⟩ := h.applyEntry hx e
    obtain hold | hrest := ih hkeyed hstays l hl
    · exact applyEntry_only h hx e l hold
    · exact .inr hrest

/-- The rows that a listing leaves. -/
structure ListedRows (t u : RemoteFileTreeModel) (x : Node) (entries : List FsEntry) : Prop where
  only : ∀ l ∈ u.links, l ∈ t.links ∨ l.children = [] ∨ l.self = x.ref
  self : ∃ l ∈ u.links, l.self = x.ref
    ∧ List.Perm (l.children.map Ref.path) (entries.map FsEntry.path)
  /-- A row that is listed keeps what is below it. -/
  kept : ∀ l ∈ t.links, l.self ∈ x.link.children → l.self.path ∈ entries.map FsEntry.path →
    l ∈ u.links

/-- What a listing does to the rows. -/
theorem Linked.listed_rows (h : Linked home t) (hhome : home ≠ []) {path : QString}
    {entries : List FsEntry} (hlists : ListsDirectory home path entries) {x : Node}
    (hx : t.nodeForPath path = some x) : ListedRows t (t.applyListing path entries) x entries := by
  obtain ⟨hmem, hbase, _⟩ := h.nodeForPath_spec hhome hx
  have hspec := pruned_spec h.keyed hmem (entries.map FsEntry.path)
  have hpruned : Linked home (t.pruned x (entries.map FsEntry.path)) := h.pruned hmem _
  obtain ⟨l, hl, hself, hrows⟩ := hspec.self
  have hentries : ∀ e ∈ entries, EntryOf (x.ref.base home) e.path := by
    rw [hbase]
    exact hlists.2
  obtain ⟨_, hothers, l', hl', hself', hrows'⟩ :=
    Linked.applyEntries hhome entries hpruned hl hself hlists.1 hentries
  have hlinks : (t.applyListing path entries).links = (entries.foldl
      (fun t e => t.applyEntry x.info.id e) (t.pruned x (entries.map FsEntry.path))).links := by
    unfold RemoteFileTreeModel.applyListing
    rw [hx]
    exact (links_updateNode (f := fun i => { i with loaded := true, loading := false })
      (fun _ => rfl) x.info.id _).1
  refine ⟨fun k hk => ?_, ⟨l', ?_, hself', ?_⟩, fun k hk hchild hlisted => ?_⟩
  · -- through the entries first, and then through the rows that go
    rw [hlinks] at hk
    obtain hold | hrest := applyEntries_only entries hpruned.keyed
      (hself ▸ self_mem_refs hl) k hk
    · obtain hold | ⟨hself, _⟩ := hspec.only k hold
      · exact .inl hold
      · exact .inr (.inr hself)
    · exact .inr hrest
  · rw [hlinks]
    exact hl'
  · rw [hrows', hrows]
    apply fill_perm ((h.keyed.child_paths hmem).filter _) hlists.1
    intro q hq
    exact of_decide_eq_true (List.mem_filter.mp hq).2
  · -- it stands among the rows that stay, and so not among those that go
    have hrow : k.self.path ∈ l.children.map Ref.path := by
      rw [hrows]
      exact List.mem_filter.mpr ⟨List.mem_map_of_mem hchild, decide_eq_true hlisted⟩
    obtain ⟨r, hr, hrpath⟩ := List.mem_map.mp hrow
    have hkref : k.self ∈ (t.pruned x (entries.map FsEntry.path)).refs := by
      have hold : r ∈ t.refs := hspec.refs.symm.subset (List.mem_append_left _ (child_mem_refs hl hr))
      rw [← List.inj_on_of_nodup_map h.paths hold (self_mem_refs hk) hrpath]
      exact child_mem_refs hl hr
    have hne : k.self.id ≠ x.info.id := by
      obtain ⟨c, hc, hcref⟩ := List.mem_map.mp hchild
      rw [← hcref]
      exact (h.keyed.id_below hmem (List.mem_flatMap.mpr ⟨c, hc, Node.self_mem_nodes c⟩)).2
    have hstays : k ∉ gone x (entries.map FsEntry.path) := by
      intro hgone
      have hnodup := (hspec.refs.map Ref.id).nodup_iff.mp h.ids.1
      rw [List.map_append, List.nodup_append] at hnodup
      exact hnodup.2.2 _ (List.mem_map_of_mem hkref) _
        (List.mem_map_of_mem (List.mem_map_of_mem hgone)) rfl
    rw [hlinks]
    exact hothers k (hspec.others k hk hne hstays) hne

/-- The node `r` is told to be a directory, or not to be one. -/
def ShowsDir (b : Bool) (t : RemoteFileTreeModel) (r : Ref) : Prop :=
  Shows (fun i => i.isDir = b) t r

/-- What is shown is a node. -/
theorem ShowsDir.mem_refs {b : Bool} (h : ShowsDir b t r) : r ∈ t.refs := by
  obtain ⟨n, hn, _, rfl⟩ := h
  exact self_mem_refs (Node.link_mem_links hn)

/-- A node is shown as it is. -/
theorem showsDir_self {n : Node} (hn : n ∈ t.root.nodes) : ShowsDir n.info.isDir t n.ref :=
  ⟨n, hn, rfl, rfl⟩

/-- A node is a directory or it is none. -/
theorem Keyed.showsDir_unique (h : Keyed t) {b b' : Bool} (hb : ShowsDir b t r)
    (hb' : ShowsDir b' t r) : b = b' := by
  obtain ⟨n, hn, rfl, rfl⟩ := hb
  obtain ⟨n', hn', rfl, href⟩ := hb'
  have hids := h.link_ids
  rw [← Node.ids_nodes] at hids
  rw [List.inj_on_of_nodup_map hids hn' hn (congrArg Ref.id href)]

/-- Other data do not count. -/
theorem showsDir_updateNode (h : Keyed t) {f : NodeInfo → NodeInfo} (hf : ∀ i, (f i).ref = i.ref)
    (hdir : ∀ i, (f i).isDir = i.isDir) {id : Nat} {b : Bool}
    (hr : ShowsDir b (t.updateNode id (Node.mapInfo f)) r) : ShowsDir b t r := by
  obtain ⟨_, hold⟩ | ⟨_, n, hn, hnr, hb⟩ := shows_updateNode (Q := fun i => i.isDir = b) h hf hr
  · exact hold
  · exact ⟨n, hn, (hdir n.info).symm.trans hb, hnr⟩

/-- An entry says what the node under its path is, and nothing of another one. -/
theorem Linked.showsDir_applyEntry (h : Linked home t) (hhome : home ≠ []) {x : Node}
    (hx : x ∈ t.root.nodes) {e : FsEntry} (hentry : EntryOf (x.ref.base home) e.path) {b : Bool}
    (hr : ShowsDir b (t.applyEntry x.info.id e) r) :
    (r.path = e.path ∧ b = decide (e.kind = .directory)) ∨ (r.path ≠ e.path ∧ ShowsDir b t r) := by
  obtain ⟨_, _, hlong⟩ := h.entry_below hhome (Node.link_mem_links hx) hentry
  obtain ⟨hne, hdot, hhomePath⟩ := not_home_of_longer hhome hlong
  obtain ⟨existing, hexisting, heq⟩ | ⟨hindex, heq⟩ := h.keyed.applyEntry_cases x e
  · rw [heq] at hr
    obtain ⟨hmem, _, hpath⟩ := h.nodeForPath_spec hhome hexisting
    have hpathEq : existing.ref.path = e.path := hpath hne hdot hhomePath
    obtain ⟨hid, hold⟩ | ⟨hid, n, hn, rfl, hb⟩ := shows_updateNode (Q := fun i => i.isDir = b)
      h.keyed (f := toldBy e) (fun _ => rfl) hr
    · -- another node has another path
      refine .inr ⟨fun heq => hid ?_, hold⟩
      have hsame : r = existing.ref := List.inj_on_of_nodup_map h.paths
        (ShowsDir.mem_refs (b := b) hold) (self_mem_refs (Node.link_mem_links hmem))
        (heq.trans hpathEq.symm)
      exact congrArg Ref.id hsame
    · refine .inl ⟨?_, hb.symm⟩
      have hsame : n.ref = existing.ref := List.inj_on_of_nodup_map h.ids.1
        (self_mem_refs (Node.link_mem_links hn)) (self_mem_refs (Node.link_mem_links hmem)) hid
      rw [hsame, hpathEq]
  · rw [heq] at hr
    have hleaf : (t.newRow x e).children = [] := rfl
    obtain hold | ⟨rfl, hb⟩ := shows_appended (Q := fun i => i.isDir = b) h.keyed hleaf hr
    · refine .inr ⟨?_, hold⟩
      exact h.keyed.fresh hindex r (ShowsDir.mem_refs (b := b) hold)
    · exact .inl ⟨rfl, hb.symm⟩

/-- A directory stays one when its entries come. -/
theorem Linked.showsDir_applyEntries (hhome : home ≠ []) {self : Ref} {b : Bool}
    (entries : List FsEntry) : ∀ {t : RemoteFileTreeModel}, Linked home t → self ∈ t.refs →
      (∀ e ∈ entries, EntryOf (self.base home) e.path) →
      ShowsDir b (entries.foldl (fun t e => t.applyEntry self.id e) t) r →
      (∃ e ∈ entries, e.path = r.path ∧ b = decide (e.kind = .directory)) ∨
        ((∀ e ∈ entries, e.path ≠ r.path) ∧ ShowsDir b t r) := by
  induction entries with
  | nil => exact fun _ _ _ hr => .inr ⟨fun e he => absurd he List.not_mem_nil, hr⟩
  | cons e entries ih =>
    intro t h hself hentries hr
    obtain ⟨l, hl, rfl⟩ := List.mem_map.mp hself
    obtain ⟨x, hx, rfl⟩ := List.mem_map.mp hl
    have hentry := hentries e List.mem_cons_self
    have happlied := h.applyEntry hhome (Node.link_mem_links hx) hentry
    obtain ⟨_, hstays, _⟩ := h.keyed.applyEntry hx e
    obtain ⟨e', he', hlast⟩ | ⟨hnone, hr⟩ := ih happlied.linked hstays
      (fun e' he' => hentries e' (List.mem_cons_of_mem e he')) hr
    · exact .inl ⟨e', List.mem_cons_of_mem e he', hlast⟩
    · -- no later entry has the path, so the first one has the last word
      obtain ⟨hpath, hb⟩ | ⟨hpath, hold⟩ := h.showsDir_applyEntry hhome hx hentry hr
      · exact .inl ⟨e, List.mem_cons_self, hpath.symm, hb⟩
      · refine .inr ⟨fun e' he' => ?_, hold⟩
        obtain rfl | he' := List.mem_cons.mp he'
        · exact Ne.symm hpath
        · exact hnone e' he'

/-- **What a listing says of a node**: the kind of its entry, or nothing. -/
theorem Linked.showsDir_applyListing (h : Linked home t) (hhome : home ≠ []) {path : QString}
    {entries : List FsEntry} (hlists : ListsDirectory home path entries) {x : Node}
    (hx : t.nodeForPath path = some x) {b : Bool} (hr : ShowsDir b (t.applyListing path entries) r) :
    (∃ e ∈ entries, e.path = r.path ∧ b = decide (e.kind = .directory)) ∨
      ((∀ e ∈ entries, e.path ≠ r.path) ∧ ShowsDir b t r) := by
  obtain ⟨hmem, hbase, _⟩ := h.nodeForPath_spec hhome hx
  have hpruned : Linked home (t.pruned x (entries.map FsEntry.path)) := h.pruned hmem _
  have hself : x.ref ∈ (t.pruned x (entries.map FsEntry.path)).refs := by
    obtain ⟨l, hl, hlself, _⟩ := (pruned_spec h.keyed hmem (entries.map FsEntry.path)).self
    exact hlself ▸ self_mem_refs hl
  have hentries : ∀ e ∈ entries, EntryOf (x.ref.base home) e.path := by
    rw [hbase]
    exact hlists.2
  have hlisted := (Keyed.applyEntries entries hpruned.keyed hself).1
  unfold RemoteFileTreeModel.applyListing at hr
  rw [hx] at hr
  have hshown := showsDir_updateNode hlisted (f := fun i => { i with loaded := true, loading := false })
    (fun _ => rfl) (fun _ => rfl) hr
  obtain hentry | ⟨hnone, hold⟩ := Linked.showsDir_applyEntries hhome entries hpruned hself hentries
    hshown
  · exact .inl hentry
  · exact .inr ⟨hnone, shows_pruned (Q := fun i => i.isDir = b) h.keyed hmem _ hold⟩

/-! ## §2. Trees in which only directories have rows. -/

/-- A path that the path of an entry goes on from is that of its directory, or its directory's
path goes on from it. -/
theorem below_entry {base path p : QString} (h : EntryOf base path) (hp : p ≠ [])
    (hbelow : p ++ [slash] <+: path) : p = base ∨ p ++ [slash] <+: base := by
  obtain ⟨name, _, hslash, rfl | ⟨rfl, rfl⟩⟩ := h
  · -- both begin the path of the entry, so one of them begins the other
    have hdir : base ++ [slash] <+: base ++ slash :: name := ⟨name, by simp⟩
    obtain ⟨s, hs⟩ | ⟨s, hs⟩ := List.prefix_or_prefix_of_prefix hbelow hdir
    · obtain rfl | ⟨s, c, rfl⟩ := List.eq_nil_or_concat' s
      · rw [List.append_nil] at hs
        exact .inl (List.append_cancel_right hs)
      · rw [← List.append_assoc] at hs
        exact .inr ⟨s, (List.append_inj' hs rfl).1⟩
    · obtain rfl | ⟨s, c, rfl⟩ := List.eq_nil_or_concat' s
      · rw [List.append_nil] at hs
        exact .inl (List.append_cancel_right hs).symm
      · -- the slash behind `p` would stand in the name
        obtain ⟨more, hmore⟩ := hbelow
        rw [← List.append_assoc] at hs
        obtain ⟨hp', hc⟩ := List.append_inj' hs rfl
        rw [← hs, List.singleton_inj.mp hc] at hmore
        simp only [List.append_assoc, List.append_cancel_left_eq] at hmore
        obtain ⟨_, hname⟩ := List.cons.inj hmore
        exact absurd (by rw [← hname]; simp) hslash
  · obtain ⟨c, p, rfl⟩ := List.exists_cons_of_ne_nil hp
    obtain ⟨more, hmore⟩ := hbelow
    simp only [List.cons_append, List.cons.injEq, List.append_assoc, List.nil_append] at hmore
    exact absurd (by rw [← hmore.2]; simp) hslash

/-- Only directories have rows, and what is below a path is below its node. -/
structure Leafy (home : QString) (t : RemoteFileTreeModel) : Prop where
  linked : Linked home t
  rows : ∀ l ∈ t.links, ∀ r ∈ l.children, EntryOf (l.self.base home) r.path
  root : ShowsDir true t t.root.ref
  leaves : ∀ l ∈ t.links, ShowsDir false t l.self → l.children = []

/-- What is found below the path of a node is below the node, by induction on its length. -/
theorem Leafy.rows_of_below (h : Leafy home t) {l : Link} (hl : l ∈ t.links)
    (hpath : l.self.path ≠ []) (hr : r ∈ t.refs) (hbelow : l.self.path ++ [slash] <+: r.path) :
    l.children ≠ [] := by
  induction hlength : r.path.length using Nat.strong_induction_on generalizing r with
  | _ n ih =>
    obtain ⟨lr, hlr, rfl⟩ := List.mem_map.mp hr
    obtain rfl | ⟨l', hl', hchild⟩ := Node.mem_links_cases t.root lr hlr
    · rw [show t.root.link.self.path = [] from congrArg Ref.path h.linked.root] at hbelow
      exact absurd (List.prefix_nil.mp hbelow) (by simp)
    · have hentry := h.rows l' hl' _ hchild
      by_cases hroot : l'.self.path = []
      · -- the path is longer than that of the home directory
        have hbase : l'.self.base home = home := if_pos hroot
        have hlong := h.linked.length_path hl hpath
        rw [hbase] at hentry
        obtain heq | ⟨s, hs⟩ := below_entry hentry hpath hbelow
        · rw [heq] at hlong
          exact absurd hlong (lt_irrefl _)
        · have hlen := congrArg List.length hs
          simp only [List.length_append, List.length_singleton] at hlen
          omega
      · have hbase : l'.self.base home = l'.self.path := if_neg hroot
        rw [hbase] at hentry
        obtain heq | hup := below_entry hentry hpath hbelow
        · obtain rfl := h.linked.link_inj hl hl' heq
          exact List.ne_nil_of_mem hchild
        · refine ih l'.self.path.length ?_ (self_mem_refs hl') hup rfl
          exact hlength ▸ (parentPathOf_entry hroot hentry).2

/-- No node that is no directory has rows, and no path below its own is known. -/
structure OnlyDirectories (t : RemoteFileTreeModel) : Prop where
  counts : ∀ n ∈ t.root.nodes, n.hasChildren = false → n.rowCount = 0
  children : ∀ n ∈ t.root.nodes, n.info.isDir = false → n.children = []
  index : ∀ n ∈ t.root.nodes, n.info.isDir = false →
    ∀ path, n.info.path ++ [slash] <+: path → t.byPath path = none

/-- Then only directories have children. -/
theorem Leafy.onlyDirectories (h : Leafy home t) : OnlyDirectories t := by
  have hchildren : ∀ n ∈ t.root.nodes, n.info.isDir = false → n.children = [] := by
    intro n hn hfile
    have hnone := h.leaves n.link (Node.link_mem_links hn) (hfile ▸ showsDir_self hn)
    exact List.map_eq_nil_iff.mp hnone
  refine ⟨fun n hn hfile => ?_, hchildren, fun n hn hfile path hbelow => ?_⟩
  · show n.children.length = 0
    rw [hchildren n hn hfile]
    rfl
  · have hlink : n.link ∈ t.links := Node.link_mem_links hn
    have hpath : n.link.self.path ≠ [] := by
      intro hnil
      have hroot : n.ref = t.root.ref := List.inj_on_of_nodup_map h.linked.paths
        (self_mem_refs hlink) (self_mem_refs t.root_mem_links)
        (hnil.trans (congrArg Ref.path h.linked.root).symm)
      have hdir : ShowsDir true t n.ref := hroot ▸ h.root
      cases h.linked.keyed.showsDir_unique hdir (hfile ▸ showsDir_self hn)
    cases hindex : t.byPath path with
    | none => rfl
    | some id =>
      obtain ⟨r, hr, rfl, _⟩ := (h.linked.index path id).mp hindex
      refine absurd ?_ (h.rows_of_below hlink hpath hr hbelow)
      exact h.leaves n.link hlink (hfile ▸ showsDir_self hn)

/-! ## §3. Runs. -/

theorem Leafy.congr (h : Leafy home t) (hrows : SameRows t u)
    (hkinds : ∀ b r, ShowsDir b u r → ShowsDir b t r) : Leafy home u := by
  have hlinked := h.linked.congr hrows
  refine ⟨hlinked, ?_, ?_, ?_⟩
  · rw [hrows.links]
    exact h.rows
  · have hself : ShowsDir u.root.info.isDir u u.root.ref := showsDir_self (Node.self_mem_nodes _)
    have hold := hkinds _ _ hself
    rw [hrows.root] at hold
    rw [h.linked.keyed.showsDir_unique h.root hold]
    exact hself
  · rw [hrows.links]
    exact fun l hl hfile => h.leaves l hl (hkinds _ _ hfile)

/-- Other data do not count. -/
theorem Leafy.updateNode (h : Leafy home t) {f : NodeInfo → NodeInfo} (hf : ∀ i, (f i).ref = i.ref)
    (hdir : ∀ i, (f i).isDir = i.isDir) (id : Nat) :
    Leafy home (t.updateNode id (Node.mapInfo f)) :=
  h.congr (sameRows_updateNode hf id t) fun _ _ => showsDir_updateNode h.linked.keyed hf hdir

/-- The root is marked. -/
theorem loadRoot_eq (t : RemoteFileTreeModel) : t.loadRoot = t.updateNode t.root.info.id
    (Node.mapInfo fun i => { i with loaded := false, loading := true }) := by
  unfold RemoteFileTreeModel.loadRoot RemoteFileTreeModel.updateNode
  cases t.root with
  | mk info children =>
    rw [Node.update_mk, Node.info_mk, if_pos rfl]

/-- A root alone. -/
theorem leafy_single (hlinked : Linked home t) (hchildren : t.root.children = [])
    (hroot : t.root.info.isDir = true) : Leafy home t := by
  have hlinks : t.links = [t.root.link] := by
    unfold links
    rw [Node.links_eq, hchildren, List.flatMap_nil]
  have hnone : t.root.link.children = [] := by
    show t.root.children.map Node.ref = []
    rw [hchildren, List.map_nil]
  refine ⟨hlinked, ?_, hroot ▸ showsDir_self (Node.self_mem_nodes _), ?_⟩
  · rw [hlinks]
    intro l hl r hr
    rw [List.mem_singleton.mp hl, hnone] at hr
    exact absurd hr List.not_mem_nil
  · rw [hlinks]
    intro l hl _
    rw [List.mem_singleton.mp hl]
    exact hnone

/-- The root has no children. -/
theorem leafy_initial (home : QString) : Leafy home initial :=
  leafy_single (linked_initial home) rfl rfl

/-- The root has no children. -/
theorem Leafy.clearTree (h : Leafy home t) : Leafy home t.clearTree := by
  refine leafy_single (linked_clearTree home h.linked.keyed) rfl ?_
  show t.root.info.isDir = true
  exact h.linked.keyed.showsDir_unique (showsDir_self (Node.self_mem_nodes t.root)) h.root

/-- The listing is of a directory, or empty, and no node with rows is in it as something else. -/
def FitsKinds (t : RemoteFileTreeModel) (path : QString) (entries : List FsEntry) : Prop :=
  ∀ x, t.nodeForPath path = some x → (x.info.isDir = true ∨ entries = []) ∧
    ∀ e ∈ entries, ∀ n ∈ t.root.nodes, n.info.path = e.path → n.children ≠ [] → e.kind = .directory

instance (t : RemoteFileTreeModel) (path : QString) (entries : List FsEntry) :
    Decidable (FitsKinds t path entries) :=
  match hx : t.nodeForPath path with
  | none => isTrue fun x h => by
      rw [hx] at h
      cases h
  | some x =>
    decidable_of_iff ((x.info.isDir = true ∨ entries = []) ∧ ∀ e ∈ entries, ∀ n ∈ t.root.nodes,
        n.info.path = e.path → n.children ≠ [] → e.kind = .directory)
      ⟨fun h y hy => by
        obtain rfl := Option.some.inj (hx.symm.trans hy)
        exact h, fun h => h x hx⟩

section
variable (h : Leafy home t) (hhome : home ≠ []) {path : QString} {entries : List FsEntry}
  (hlists : ListsDirectory home path entries) {x : Node} (hx : t.nodeForPath path = some x)

include h hhome hlists hx

/-- No entry is the directory itself, and none is the root. -/
theorem Leafy.entry_elsewhere {e : FsEntry} (he : e ∈ entries) :
    e.path ≠ x.ref.path ∧ e.path ≠ t.root.ref.path := by
  obtain ⟨hmem, hbase, _⟩ := h.linked.nodeForPath_spec hhome hx
  have hentry : EntryOf (x.link.self.base home) e.path := hbase ▸ hlists.2 e he
  obtain ⟨_, hlonger, hlong⟩ := h.linked.entry_below hhome (Node.link_mem_links hmem) hentry
  have hne := (not_home_of_longer hhome hlong).1
  refine ⟨fun heq => ?_, fun heq => hne (heq.trans (congrArg Ref.path h.linked.root))⟩
  have hbasePath : x.link.self.base home = x.ref.path := if_neg (heq ▸ hne)
  rw [hbasePath, heq] at hlonger
  exact lt_irrefl _ hlonger

/-- The rows of the directory are its entries. -/
theorem Leafy.rows_of_listed {l : Link} (hl : l ∈ (t.applyListing path entries).links)
    (hself : l.self = x.ref) : List.Perm (l.children.map Ref.path) (entries.map FsEntry.path) := by
  obtain ⟨l', hl', hself', hperm⟩ := (h.linked.listed_rows hhome hlists hx).self
  have hlinked := (h.linked.applyListing hhome hlists).1
  obtain rfl := hlinked.link_inj hl hl' (congrArg Ref.path (hself.trans hself'.symm))
  exact hperm

/-- A listing that fits the kinds there are keeps it. -/
theorem Leafy.listed (hdir : x.info.isDir = true ∨ entries = [])
    (hkinds : ∀ e ∈ entries, ∀ n ∈ t.root.nodes, n.info.path = e.path → n.children ≠ [] →
      e.kind = .directory) : Leafy home (t.applyListing path entries) := by
  obtain ⟨hmem, hbase, _⟩ := h.linked.nodeForPath_spec hhome hx
  have hlinked := (h.linked.applyListing hhome hlists).1
  have hspec := h.linked.listed_rows hhome hlists hx
  have hroot : (t.applyListing path entries).root.ref = t.root.ref :=
    hlinked.root.trans h.linked.root.symm
  refine ⟨hlinked, fun l hl r hr => ?_, ?_, fun l hl hfile => ?_⟩
  · obtain hold | hnil | hself := hspec.only l hl
    · exact h.rows l hold r hr
    · rw [hnil] at hr
      exact absurd hr List.not_mem_nil
    · have hpath := (h.rows_of_listed hhome hlists hx hl hself).subset (List.mem_map_of_mem hr)
      obtain ⟨e, he, heq⟩ := List.mem_map.mp hpath
      rw [hself, hbase, ← heq]
      exact hlists.2 e he
  · have hself : ShowsDir (t.applyListing path entries).root.info.isDir
        (t.applyListing path entries) (t.applyListing path entries).root.ref :=
      showsDir_self (Node.self_mem_nodes _)
    obtain ⟨e, he, heq, _⟩ | ⟨_, hold⟩ := h.linked.showsDir_applyListing hhome hlists hx hself
    · rw [hroot] at heq
      exact absurd heq (h.entry_elsewhere hhome hlists hx he).2
    · rw [hroot] at hold
      rw [h.linked.keyed.showsDir_unique h.root hold]
      exact hself
  · have hkind := h.linked.showsDir_applyListing hhome hlists hx hfile
    obtain hold | hnil | hself := hspec.only l hl
    · obtain ⟨e, he, heq, hnot⟩ | ⟨_, hfile⟩ := hkind
      · -- an old row that is something else now
        obtain ⟨n, hn, rfl⟩ := List.mem_map.mp hold
        by_contra hrows
        have hdirectory := hkinds e he n hn heq.symm fun hnone => hrows (by
          show n.children.map Node.ref = []
          rw [hnone, List.map_nil])
        rw [hdirectory] at hnot
        cases hnot
      · exact h.leaves l hold hfile
    · exact hnil
    · -- the listed node itself: no entry is about it, so it is what it was
      obtain ⟨e, he, heq, _⟩ | ⟨_, hfile⟩ := hkind
      · rw [hself] at heq
        exact absurd heq (h.entry_elsewhere hhome hlists hx he).1
      · rw [hself] at hfile
        have hnot := h.linked.keyed.showsDir_unique hfile (showsDir_self hmem)
        have hempty := hdir.resolve_left (hnot ▸ Bool.false_ne_true)
        have hperm := h.rows_of_listed hhome hlists hx hl hself
        rw [hempty, List.map_nil, List.perm_nil] at hperm
        exact List.map_eq_nil_iff.mp hperm

/-- A listing of something else than a directory gives it rows. -/
theorem Leafy.broken_listed (hdir : x.info.isDir = false) (hne : entries ≠ []) :
    ¬ OnlyDirectories (t.applyListing path entries) := by
  intro honly
  obtain ⟨hmem, _, _⟩ := h.linked.nodeForPath_spec hhome hx
  obtain ⟨l, hl, hself, hperm⟩ := (h.linked.listed_rows hhome hlists hx).self
  obtain ⟨n, hn, rfl⟩ := List.mem_map.mp hl
  have hrows : n.children ≠ [] := by
    intro hnil
    have hnone : n.link.children = [] := by
      show n.children.map Node.ref = []
      rw [hnil, List.map_nil]
    rw [hnone, List.map_nil, List.nil_perm, List.map_eq_nil_iff] at hperm
    exact hne hperm
  -- so it would have to be a directory now, and no entry has made it one
  have htrue : n.info.isDir = true := by
    by_contra hnot
    exact hrows (honly.children n hn (Bool.eq_false_of_not_eq_true hnot))
  have hshows := showsDir_self hn
  rw [htrue, show n.ref = x.ref from hself] at hshows
  obtain ⟨e, he, heq, _⟩ | ⟨_, hold⟩ := h.linked.showsDir_applyListing hhome hlists hx hshows
  · exact (h.entry_elsewhere hhome hlists hx he).1 heq
  · have hself := showsDir_self hmem
    rw [hdir] at hself
    cases h.linked.keyed.showsDir_unique hold hself

/-- A row with rows of its own keeps them, whatever it is told to be. -/
theorem Leafy.broken_kept {e : FsEntry} (he : e ∈ entries) {n : Node} (hn : n ∈ t.root.nodes)
    (hpath : n.info.path = e.path) (hrows : n.children ≠ []) (hkind : e.kind ≠ .directory) :
    ¬ OnlyDirectories (t.applyListing path entries) := by
  intro honly
  obtain ⟨hmem, hbase, _⟩ := h.linked.nodeForPath_spec hhome hx
  have hentry : EntryOf (x.link.self.base home) e.path := hbase ▸ hlists.2 e he
  have hlink := Node.link_mem_links hn
  have hxlink := Node.link_mem_links hmem
  obtain ⟨hparent, _, hlong⟩ := h.linked.entry_below hhome hxlink hentry
  have hchild : n.link.self ∈ x.link.children := by
    apply h.linked.mem_children hxlink hlink
    · show n.info.path ≠ []
      rw [hpath]
      exact (not_home_of_longer hhome hlong).1
    · show parentPathOf n.info.path = _
      rw [hpath, hparent]
  have hlisted : n.link.self.path ∈ entries.map FsEntry.path := by
    show n.info.path ∈ _
    rw [hpath]
    exact List.mem_map_of_mem he
  have hstays := (h.linked.listed_rows hhome hlists hx).kept n.link hlink hchild hlisted
  obtain ⟨m, hm, hmlink⟩ := List.mem_map.mp hstays
  have hmrows : m.children ≠ [] := by
    intro hnil
    have hchildren : m.children.map Node.ref = n.children.map Node.ref :=
      congrArg Link.children hmlink
    rw [hnil, List.map_nil] at hchildren
    exact hrows (List.map_eq_nil_iff.mp hchildren.symm)
  -- so it would have to be a directory, but its entry says otherwise
  have htrue : m.info.isDir = true := by
    by_contra hnot
    exact hmrows (honly.children m hm (Bool.eq_false_of_not_eq_true hnot))
  have hshows := showsDir_self hm
  rw [htrue] at hshows
  have hmpath : m.ref.path = e.path := (congrArg (fun l => l.self.path) hmlink).trans hpath
  obtain ⟨e', he', heq, hdirectory⟩ | ⟨hnone, _⟩ :=
    h.linked.showsDir_applyListing hhome hlists hx hshows
  · have hsame : e' = e := List.inj_on_of_nodup_map hlists.1 he' he (heq.trans hmpath)
    rw [hsame] at hdirectory
    exact hkind (of_decide_eq_true hdirectory.symm)
  · exact hnone e he hmpath.symm

end

/-- **One listing.**  It leaves rows below directories alone exactly if it fits what is there. -/
theorem Leafy.applyListing_iff (h : Leafy home t) (hhome : home ≠ []) {path : QString}
    {entries : List FsEntry} (hlists : ListsDirectory home path entries) :
    (FitsKinds t path entries → Leafy home (t.applyListing path entries)) ∧
      (¬ FitsKinds t path entries → ¬ OnlyDirectories (t.applyListing path entries)) := by
  constructor
  · intro hfits
    cases hx : t.nodeForPath path with
    | none =>
      unfold RemoteFileTreeModel.applyListing
      rw [hx]
      exact h
    | some x => exact h.listed hhome hlists hx (hfits x hx).1 (hfits x hx).2
  · intro hnot
    unfold FitsKinds at hnot
    push Not at hnot
    obtain ⟨x, hx, hbad⟩ := hnot
    by_cases hdir : x.info.isDir = true ∨ entries = []
    · obtain ⟨e, he, n, hn, hpath, hrows, hkind⟩ := hbad hdir
      exact h.broken_kept hhome hlists hx he hn hpath hrows hkind
    · obtain ⟨hfile, hne⟩ := not_or.mp hdir
      exact h.broken_listed hhome hlists hx (Bool.eq_false_of_not_eq_true hfile) hne

/-- An action whose listing has the entries of the directory it is of. -/
abbrev ListedAction (home : QString) := { action : TreeAction // action.Lists home }

/-- A run whose listings name the entries of one server. -/
def stepListed (home : QString) (t : RemoteFileTreeModel) (action : ListedAction home) :
    Option RemoteFileTreeModel := some (t.run action.1)

/-- What an action must meet, in the tree before it. -/
def TreeAction.Fits (t : RemoteFileTreeModel) : TreeAction → Prop
  | .applyListing path entries => FitsKinds t path entries
  | _ => True

instance (t : RemoteFileTreeModel) : ∀ action : TreeAction, Decidable (action.Fits t)
  | .applyListing path entries => inferInstanceAs (Decidable (FitsKinds t path entries))
  | .clearTree | .loadRoot | .fetchMore _ | .markLoadFailed _ => inferInstanceAs (Decidable True)

/-- **One operation** keeps it, if its listing fits. -/
theorem Leafy.run (h : Leafy home t) (hhome : home ≠ []) (action : ListedAction home)
    (hfits : action.1.Fits t) : Leafy home (t.run action.1) := by
  obtain ⟨action, hlists⟩ := action
  cases action with
  | clearTree => exact h.clearTree
  | loadRoot =>
    show Leafy home t.loadRoot
    rw [loadRoot_eq]
    exact h.updateNode (f := fun i => { i with loaded := false, loading := true }) (fun _ => rfl)
      (fun _ => rfl) _
  | fetchMore id =>
    show Leafy home (t.fetchMore id).1
    unfold RemoteFileTreeModel.fetchMore
    split
    · exact h
    · split
      · exact h.updateNode (f := fun i => { i with loading := true }) (fun _ => rfl) (fun _ => rfl) _
      · exact h
  | markLoadFailed path =>
    show Leafy home (t.markLoadFailed path)
    unfold RemoteFileTreeModel.markLoadFailed
    split
    · exact h
    · exact h.updateNode (f := fun i => { i with loading := false }) (fun _ => rfl) (fun _ => rfl) _
  | applyListing path entries => exact (h.applyListing_iff hhome hlists).1 hfits

/-- **Only directories have rows, exactly as long as the listings fit.**  In a run of listings
that have the entries of their directories, every tree has rows below directories alone exactly
if each listing is of a directory, or empty, and has no node with rows as something else. -/
theorem only_directories_iff (home : QString) (hhome : startsWith home (lit "/") = true)
    (actions : List (ListedAction home)) :
    Throughout (stepListed home) OnlyDirectories initial actions ↔
      Along (stepListed home) (fun t action => action.1.Fits t) initial actions := by
  have hne : home ≠ [] := by
    rintro rfl
    cases hhome
  refine throughout_iff_along (I := Leafy home) (fun t => Leafy.onlyDirectories) ?_ ?_
    (leafy_initial home)
  · intro t action u h hfits hstep
    obtain rfl := Option.some.inj hstep
    exact h.run hne action hfits
  · rintro t ⟨action, hlists⟩ h hnot
    refine ⟨_, rfl, ?_⟩
    cases action with
    | applyListing path entries => exact (h.applyListing_iff hne hlists).2 hnot
    | clearTree | loadRoot | fetchMore id | markLoadFailed path => exact absurd trivial hnot

/-- The home directory is listed, its one directory expanded and listed, and the home directory
listed again with the directory as `kind`. -/
def relistedActions (kind : FileKind) : List TreeAction :=
  [.applyListing [] [row (lit "/home/a") (lit "a") .directory], .fetchMore 1,
    .applyListing (lit "/home/a") [row (lit "/home/a/x") (lit "x") .file],
    .applyListing [] [row (lit "/home/a") (lit "a") kind]]

/-- They are listings of one server. -/
theorem relistedActions_lists (kind : FileKind) :
    ∀ action ∈ relistedActions kind, action.Lists (lit "/home") := by
  cases kind <;> decide

/-- A directory with a file below it, then listed as something of the kind. -/
def relisted (kind : FileKind) : List (ListedAction (lit "/home")) :=
  (relistedActions kind).attachWith _ (relistedActions_lists kind)

theorem only_directories_iff_same :
    Throughout (stepListed (lit "/home")) OnlyDirectories initial (relisted .directory) :=
  (only_directories_iff (lit "/home") (by decide) (relisted .directory)).mpr (by decide)

/-- The directory has become a file, and its row still has the row below it. -/
theorem not_only_directories_replaced :
    ¬ ∀ actions, Throughout (stepListed (lit "/home")) OnlyDirectories initial actions := by
  intro hall
  have honly := hall (relisted .file) _ _ List.prefix_rfl rfl
  exact absurd honly.children (by decide)

end RemoteFileTreeModel

end ResearchSSH.App
