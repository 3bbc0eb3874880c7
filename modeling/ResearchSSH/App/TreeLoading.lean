/-
  ResearchSSH.App.TreeLoading — which nodes of the tree wait for a listing.

  A node is loading from `fetchMore` or `loadRoot` until its path is listed or has failed.  Both
  ends find the node by its path, so they reach it exactly if the index is that of the tree; that
  it is, whatever the entries of the listings look like (`Keyed`).

  Main results:
    * `Keyed.applyListing`     — any listing leaves tree and index together.
    * `loading_markLoadFailed` — a path that has failed is not loading any more, and no other one
      begins to; so it is with one that is listed.
-/

import ResearchSSH.App.TreeIndex

namespace ResearchSSH.App

open ResearchSSH.Core ResearchSSH.Library

namespace Node

/-! ## §1. Writing through a pointer. -/

/-- What is below a node is below what is above it. -/
theorem nodes_sublist {m : Node} (n : Node) : m ∈ n.nodes → m.nodes.Sublist n.nodes := by
  induction n using Node.induct with
  | mk info children ih =>
    intro hm
    rw [nodes_mk] at hm ⊢
    obtain rfl | hm := List.mem_cons.mp hm
    · rw [nodes_mk]
    · obtain ⟨c, hc, hmc⟩ := List.mem_flatMap.mp hm
      obtain ⟨before, after, rfl⟩ := List.append_of_mem hc
      rw [List.flatMap_append, List.flatMap_cons]
      refine List.Sublist.cons _ ((ih c hc hmc).trans ?_)
      exact (List.sublist_append_left _ _).trans (List.sublist_append_right _ _)

/-- A node of the tree after a write at `id`: one with another id that was there, or one of those
that the write has put in place. -/
theorem mem_nodes_update (id : Nat) (f : Node → Node) (n : Node) :
    ∀ y ∈ (n.update id f).nodes, (y.info.id ≠ id ∧ ∃ m ∈ n.nodes, m.info = y.info) ∨
      ∃ m ∈ n.nodes, m.info.id = id ∧ y ∈ (f m).nodes := by
  induction n using Node.induct with
  | mk info children ih =>
    intro y hy
    rw [update_mk] at hy
    split at hy
    · next hid => exact Or.inr ⟨_, self_mem_nodes _, hid, hy⟩
    · next hid =>
      rw [nodes_mk] at hy
      obtain rfl | hy := List.mem_cons.mp hy
      · exact Or.inl ⟨hid, _, self_mem_nodes _, rfl⟩
      · obtain ⟨c', hc', hy⟩ := List.mem_flatMap.mp hy
        obtain ⟨c, hc, rfl⟩ := List.mem_map.mp hc'
        have hup : ∀ m ∈ c.nodes, m ∈ (Node.mk info children).nodes := by
          intro m hm
          rw [nodes_mk]
          exact List.mem_cons_of_mem _ (List.mem_flatMap.mpr ⟨c, hc, hm⟩)
        obtain ⟨hne, m, hm, heq⟩ | ⟨m, hm, heq⟩ := ih c hc y hy
        · exact Or.inl ⟨hne, m, hup m hm, heq⟩
        · exact Or.inr ⟨m, hup m hm, heq⟩

end Node

namespace RemoteFileTreeModel

variable {t u : RemoteFileTreeModel} {r : Ref}

/-! ## §2. What the nodes show. -/

/-- The node `r` shows something that meets `Q`. -/
def Shows (Q : NodeInfo → Prop) (t : RemoteFileTreeModel) (r : Ref) : Prop :=
  ∃ n ∈ t.root.nodes, Q n.info ∧ n.ref = r

/-- The node `r` is loading. -/
def Loading (t : RemoteFileTreeModel) (r : Ref) : Prop :=
  ∃ n ∈ t.root.nodes, n.info.loading = true ∧ n.ref = r

/-- What is loading is a node. -/
theorem Loading.mem_refs (h : Loading t r) : r ∈ t.refs := by
  obtain ⟨n, hn, _, rfl⟩ := h
  exact self_mem_refs (Node.link_mem_links hn)

/-- The nodes below a node have other ids. -/
theorem Keyed.id_below (h : Keyed t) {n m : Node} (hn : n ∈ t.root.nodes)
    (hm : m ∈ n.children.flatMap Node.nodes) : m ∈ t.root.nodes ∧ m.info.id ≠ n.info.id := by
  have hsub := Node.nodes_sublist t.root hn
  have hnodes : n.nodes = n :: n.children.flatMap Node.nodes := by
    cases n with
    | mk info children => exact Node.nodes_mk info children
  rw [hnodes] at hsub
  have hids : ((n :: n.children.flatMap Node.nodes).map fun m => m.info.id).Nodup := by
    have hall := h.link_ids
    rw [← Node.ids_nodes] at hall
    exact hall.sublist (hsub.map _)
  rw [List.map_cons, List.nodup_cons] at hids
  refine ⟨hsub.subset (List.mem_cons_of_mem _ hm), fun heq => hids.1 ?_⟩
  exact heq ▸ List.mem_map_of_mem hm

/-- After a write to what one node shows. -/
theorem shows_updateNode {Q : NodeInfo → Prop} (h : Keyed t) {f : NodeInfo → NodeInfo}
    (hf : ∀ i, (f i).ref = i.ref) {id : Nat} (hr : Shows Q (t.updateNode id (Node.mapInfo f)) r) :
    (r.id ≠ id ∧ Shows Q t r) ∨ (r.id = id ∧ ∃ n ∈ t.root.nodes, n.ref = r ∧ Q (f n.info)) := by
  obtain ⟨y, hy, hshows, rfl⟩ := hr
  obtain ⟨hne, m, hm, heq⟩ | ⟨m, hm, hid, hy⟩ :=
    Node.mem_nodes_update id (Node.mapInfo f) t.root y hy
  · refine Or.inl ⟨hne, m, hm, ?_, congrArg NodeInfo.ref heq⟩
    rw [heq]
    exact hshows
  · cases m with
    | mk info children =>
      rw [Node.mapInfo, Node.nodes_mk] at hy
      obtain rfl | hy := List.mem_cons.mp hy
      · refine Or.inr ⟨?_, _, hm, (hf info).symm, hshows⟩
        exact (congrArg Ref.id (hf info)).trans hid
      · -- a node below the one that is written to
        obtain ⟨hy, hne⟩ := h.id_below hm hy
        exact Or.inl ⟨hid ▸ hne, y, hy, hshows, rfl⟩

/-- Only the node that is changed may begin to load. -/
theorem loading_updateNode (h : Keyed t) {f : NodeInfo → NodeInfo} (hf : ∀ i, (f i).ref = i.ref)
    {id : Nat} (hr : Loading (t.updateNode id (Node.mapInfo f)) r) :
    (r.id ≠ id ∧ Loading t r) ∨
      (r.id = id ∧ ∃ n ∈ t.root.nodes, n.ref = r ∧ (f n.info).loading = true) :=
  shows_updateNode (Q := fun i => i.loading = true) h hf hr

/-- After a new row has been put behind those of `x`. -/
theorem shows_appended {Q : NodeInfo → Prop} (h : Keyed t) {x child : Node}
    (hleaf : child.children = []) (hr : Shows Q (t.appended x child) r) :
    Shows Q t r ∨ (r = child.ref ∧ Q child.info) := by
  obtain ⟨y, hy, hshows, rfl⟩ := hr
  obtain ⟨_, m, hm, heq⟩ | ⟨m, hm, _, hy⟩ := Node.mem_nodes_update x.info.id
    (fun n => .mk n.info (n.children ++ [child])) t.root y hy
  · exact Or.inl ⟨m, hm, heq ▸ hshows, congrArg NodeInfo.ref heq⟩
  · rw [Node.nodes_mk] at hy
    obtain rfl | hy := List.mem_cons.mp hy
    · exact Or.inl ⟨m, hm, hshows, rfl⟩
    · rw [List.flatMap_append, List.mem_append] at hy
      obtain hy | hy := hy
      · -- an old row of the same node
        exact Or.inl ⟨y, (h.id_below hm hy).1, hshows, rfl⟩
      · cases child with
        | mk info children =>
          obtain rfl : children = [] := hleaf
          rw [List.flatMap_singleton, Node.nodes_mk, List.flatMap_nil, List.mem_singleton] at hy
          exact Or.inr ⟨by rw [hy], by rw [hy] at hshows; exact hshows⟩

/-- After rows of `x` have been taken out. -/
theorem shows_pruned {Q : NodeInfo → Prop} (h : Keyed t) {x : Node} (hx : x ∈ t.root.nodes)
    (incoming : List QString) (hr : Shows Q (t.pruned x incoming) r) : Shows Q t r := by
  obtain ⟨y, hy, hshows, rfl⟩ := hr
  obtain ⟨_, m, hm, heq⟩ | ⟨m, hm, hid, hy⟩ := Node.mem_nodes_update x.info.id
    (fun n => .mk n.info (pruneChildren incoming x.children t.byPath).1) t.root y hy
  · exact ⟨m, hm, heq ▸ hshows, congrArg NodeInfo.ref heq⟩
  · rw [Node.nodes_mk, pruneChildren_eq] at hy
    obtain rfl | hy := List.mem_cons.mp hy
    · exact ⟨m, hm, hshows, rfl⟩
    · obtain ⟨c, hc, hy⟩ := List.mem_flatMap.mp hy
      have hbelow := List.mem_flatMap.mpr ⟨c, (List.mem_filter.mp hc).1, hy⟩
      exact ⟨y, (h.id_below hx hbelow).1, hshows, rfl⟩

/-- A write that starts no loading. -/
theorem loading_shown (h : Keyed t) {f : NodeInfo → NodeInfo} (hf : ∀ i, (f i).ref = i.ref)
    (hload : ∀ i, (f i).loading = i.loading) {id : Nat}
    (hr : Loading (t.updateNode id (Node.mapInfo f)) r) : Loading t r := by
  obtain ⟨_, hold⟩ | ⟨_, n, hn, hnr, hloading⟩ := loading_updateNode h hf hr
  · exact hold
  · exact ⟨n, hn, hload n.info ▸ hloading, hnr⟩

/-- A write that ends the loading of its node. -/
theorem loading_ended (h : Keyed t) {f : NodeInfo → NodeInfo} (hf : ∀ i, (f i).ref = i.ref)
    (hload : ∀ i, (f i).loading = false) {id : Nat}
    (hr : Loading (t.updateNode id (Node.mapInfo f)) r) : r.id ≠ id ∧ Loading t r := by
  obtain hold | ⟨_, n, _, _, hloading⟩ := loading_updateNode h hf hr
  · exact hold
  · rw [hload] at hloading
    cases hloading

/-- The path of a node leads to it. -/
theorem Keyed.nodeForPath_self (h : Keyed t) (hr : r ∈ t.refs) :
    ∃ x, t.nodeForPath r.path = some x ∧ x.info.id = r.id := by
  obtain ⟨l, hl, rfl⟩ := List.mem_map.mp hr
  obtain ⟨x, hx, rfl⟩ := List.mem_map.mp hl
  have hindex := (h.index _ _).mpr ⟨x.ref, hr, rfl, rfl⟩
  refine ⟨x, ?_, rfl⟩
  unfold nodeForPath
  rw [show t.byPath x.link.self.path = some x.ref.id from hindex]
  exact Node.find?_self h.link_ids hx

/-! ## §3. Expanding. -/

/-- Only the directory that is fetched begins to load. -/
theorem loading_fetchMore (h : Keyed t) {id : Nat} (hr : Loading (t.fetchMore id).1 r) :
    Loading t r ∨ (t.fetchMore id).2 = some r.path := by
  unfold RemoteFileTreeModel.fetchMore at hr ⊢
  cases hnode : t.root.find? id with
  | none =>
    rw [hnode] at hr
    exact Or.inl hr
  | some node =>
    rw [hnode] at hr
    dsimp only at hr ⊢
    split at hr
    · next hcan =>
      rw [if_pos hcan]
      obtain ⟨_, hold⟩ | ⟨hid, n, hn, rfl, _⟩ :=
        loading_updateNode h (f := fun i => { i with loading := true }) (fun _ => rfl) hr
      · exact Or.inl hold
      · -- the node that was found
        have hself := Node.find?_self h.link_ids hn
        rw [show n.info.id = id from hid, hnode, Option.some.injEq] at hself
        exact Or.inr (by rw [hself]; rfl)
    · exact Or.inl hr

/-- Only the root begins to load. -/
theorem loading_loadRoot (h : Keyed t) (hr : Loading t.loadRoot r) : Loading t r ∨ r.path = [] := by
  obtain ⟨y, hy, hloading, rfl⟩ := hr
  have hroot := congrArg Ref.path h.root
  unfold RemoteFileTreeModel.loadRoot at hy
  cases hcase : t.root with
  | mk info children =>
    rw [hcase] at hy hroot
    rw [Node.mapInfo, Node.nodes_mk] at hy
    obtain rfl | hy := List.mem_cons.mp hy
    · exact Or.inr hroot
    · refine Or.inl ⟨y, ?_, hloading, rfl⟩
      rw [hcase, Node.nodes_mk]
      exact List.mem_cons_of_mem _ hy

/-- Nothing is loading in an empty tree. -/
theorem not_loading_clearTree : ¬ Loading t.clearTree r := by
  rintro ⟨y, hy, hloading, _⟩
  unfold RemoteFileTreeModel.clearTree at hy
  rw [Node.nodes_mk, List.flatMap_nil, List.mem_singleton] at hy
  rw [hy] at hloading
  cases hloading

/-- **A failed listing.** -/
theorem loading_markLoadFailed (h : Keyed t) {path : QString}
    (hr : Loading (t.markLoadFailed path) r) : Loading t r ∧ r.path ≠ path := by
  have hrefs : (t.markLoadFailed path).refs = t.refs :=
    congrArg (List.map Link.self) (sameRows_markLoadFailed path t).links
  obtain ⟨x, hx, hid⟩ := h.nodeForPath_self (hrefs ▸ hr.mem_refs)
  have hpath : Loading t r ∧ ∀ y, t.nodeForPath path = some y → r.id ≠ y.info.id := by
    unfold RemoteFileTreeModel.markLoadFailed at hr
    cases hy : t.nodeForPath path with
    | none =>
      rw [hy] at hr
      exact ⟨hr, nofun⟩
    | some y =>
      rw [hy] at hr
      have hended := loading_ended h (f := fun i => { i with loading := false }) (fun _ => rfl)
        (fun _ => rfl) hr
      refine ⟨hended.2, fun z hz => ?_⟩
      rw [Option.some.injEq] at hz
      exact hz ▸ hended.1
  refine ⟨hpath.1, ?_⟩
  rintro rfl
  exact hpath.2 x hx hid.symm

/-! ## §4. Listings. -/

/-- A new row waits for nothing. -/
theorem loading_appended (h : Keyed t) {x child : Node} (hleaf : child.children = [])
    (hidle : child.info.loading = false) (hr : Loading (t.appended x child) r) : Loading t r := by
  obtain hold | ⟨_, hloading⟩ := shows_appended (Q := fun i => i.loading = true) h hleaf hr
  · exact hold
  · rw [hidle] at hloading
    cases hloading

/-- An entry is filled in or added; either way the node that is listed stays, and no other one
starts to wait. -/
theorem Keyed.applyEntry (h : Keyed t) {x : Node} (hx : x ∈ t.root.nodes) (e : FsEntry) :
    Keyed (t.applyEntry x.info.id e) ∧ x.ref ∈ (t.applyEntry x.info.id e).refs ∧
      ∀ r, Loading (t.applyEntry x.info.id e) r → Loading t r := by
  have hxref : x.ref ∈ t.refs := self_mem_refs (Node.link_mem_links hx)
  obtain ⟨existing, _, heq⟩ | ⟨hindex, heq⟩ := h.applyEntry_cases x e
  · rw [heq]
    have hsame := sameRows_updateNode (f := toldBy e) (fun _ => rfl) existing.info.id t
    refine ⟨h.congr hsame, ?_, fun r hr => ?_⟩
    · rw [show RemoteFileTreeModel.refs _ = t.refs from congrArg (List.map Link.self) hsame.links]
      exact hxref
    · exact loading_shown h (f := toldBy e) (fun _ => rfl) (fun _ => rfl) hr
  · rw [heq]
    have hleaf : (t.newRow x e).children = [] := rfl
    refine ⟨h.append hx hleaf rfl hindex, ?_, fun r => loading_appended h hleaf rfl⟩
    rw [(appended_spec h hx hleaf).refs.mem_iff]
    exact List.mem_append_left _ hxref

/-- New rows are not loading. -/
theorem Keyed.applyEntries {self : Ref} (entries : List FsEntry) :
    ∀ {t : RemoteFileTreeModel}, Keyed t → self ∈ t.refs →
      Keyed (entries.foldl (fun t e => t.applyEntry self.id e) t)
        ∧ ∀ r, Loading (entries.foldl (fun t e => t.applyEntry self.id e) t) r → Loading t r := by
  induction entries with
  | nil => exact fun h _ => ⟨h, fun _ hr => hr⟩
  | cons e entries ih =>
    intro t h hself
    obtain ⟨l, hl, rfl⟩ := List.mem_map.mp hself
    obtain ⟨x, hx, rfl⟩ := List.mem_map.mp hl
    obtain ⟨hkeyed, hstays, hless⟩ := h.applyEntry hx e
    obtain ⟨hkeyed', hless'⟩ := ih hkeyed hstays
    exact ⟨hkeyed', fun r hr => hless r (hless' r hr)⟩

/-- A path leads to a node. -/
theorem Keyed.mem_of_nodeForPath {path : QString} {x : Node} (hx : t.nodeForPath path = some x) :
    x ∈ t.root.nodes := by
  unfold nodeForPath at hx
  split at hx
  · exact (Node.find?_spec hx).1
  · rw [Option.ite_none_right_eq_some, Option.some.injEq] at hx
    exact hx.2 ▸ Node.self_mem_nodes _

/-- **Any listing**: tree and index stay together, the listed path is not loading any more, and no
other one begins to. -/
theorem Keyed.applyListing (h : Keyed t) (path : QString) (entries : List FsEntry) :
    Keyed (t.applyListing path entries) ∧
      ∀ r, Loading (t.applyListing path entries) r → Loading t r ∧ r.path ≠ path := by
  unfold RemoteFileTreeModel.applyListing
  cases hx : t.nodeForPath path with
  | none =>
    refine ⟨h, fun r hr => ⟨hr, ?_⟩⟩
    rintro rfl
    obtain ⟨y, hy, _⟩ := h.nodeForPath_self hr.mem_refs
    rw [hx] at hy
    cases hy
  | some x =>
    have hmem := Keyed.mem_of_nodeForPath hx
    have hpruned : Keyed (t.pruned x (entries.map FsEntry.path)) := h.pruned hmem _
    have hself : x.ref ∈ (t.pruned x (entries.map FsEntry.path)).refs := by
      obtain ⟨l, hl, hlself, _⟩ := (pruned_spec h hmem (entries.map FsEntry.path)).self
      exact hlself ▸ self_mem_refs hl
    obtain ⟨hlisted, hless⟩ := Keyed.applyEntries entries hpruned hself
    show Keyed (RemoteFileTreeModel.updateNode (entries.foldl
        (fun t e => t.applyEntry x.ref.id e) (t.pruned x (entries.map FsEntry.path))) _ _) ∧ _
    refine ⟨hlisted.congr (sameRows_updateNode
      (f := fun i => { i with loaded := true, loading := false }) (fun _ => rfl) _ _), ?_⟩
    intro r hr
    obtain ⟨hid, hr⟩ := loading_ended hlisted
      (f := fun i => { i with loaded := true, loading := false }) (fun _ => rfl) (fun _ => rfl) hr
    have hold : Loading t r :=
      shows_pruned (Q := fun i => i.loading = true) h hmem _ (hless r hr)
    refine ⟨hold, ?_⟩
    rintro rfl
    obtain ⟨y, hy, hyid⟩ := h.nodeForPath_self hold.mem_refs
    rw [hx, Option.some.injEq] at hy
    exact hid (hy ▸ hyid.symm)

end RemoteFileTreeModel

end ResearchSSH.App
