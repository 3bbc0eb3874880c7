/-
  ResearchSSH.App.TreeLinks — the tree of nodes seen as a list of links.

  A link is a node without what it shows: who it is, and who its children are.  The operations of
  the tree write through a pointer, into one node; what that does to the links of all nodes is
  read off where the links of that node stand in the list.

  Main results:
    * `mem_links_cases`, `exists_link_of_child` — every node but the root is a child of a node.
    * `links_update_mapInfo` — writing what a node shows leaves the links.
    * `links_splice` — writing through a pointer replaces the links of one node.
-/

import Mathlib.Data.List.Nodup
import ResearchSSH.App.RemoteFileTree

namespace ResearchSSH.App

/-! ## §1. Links. -/

/-- Who a node is. -/
structure Ref where
  id : Nat
  path : QString
  parent : Option Nat
  deriving DecidableEq, Repr

/-- A node and its children, by their names. -/
structure Link where
  self : Ref
  children : List Ref
  deriving DecidableEq, Repr

/-- The node, its path and its parent. -/
def NodeInfo.ref (i : NodeInfo) : Ref := { id := i.id, path := i.path, parent := i.parent }

namespace Node

/-- The node, its path and its parent. -/
def ref (n : Node) : Ref := n.info.ref

/-- The node and its children, by their names. -/
def link (n : Node) : Link := { self := n.ref, children := n.children.map ref }

/-- The link of the node and those of everything below it. -/
def links (n : Node) : List Link := n.nodes.map link

/-- Induction over the tree, with the hypothesis for every child. -/
theorem induct {P : Node → Prop}
    (mk : ∀ info children, (∀ c ∈ children, P c) → P (.mk info children)) : ∀ n, P n
  | .mk info children => mk info children fun c _ => induct mk c
termination_by n => n
decreasing_by
  have hlt := List.sizeOf_lt_of_mem ‹c ∈ children›
  simp only [Node.mk.sizeOf_spec]
  omega

/-- The nodes of a list of trees. -/
theorem nodesOfAll_eq (ns : List Node) : nodesOfAll ns = ns.flatMap nodes := by
  induction ns with
  | nil => rw [nodesOfAll, List.flatMap_nil]
  | cons n ns ih => rw [nodesOfAll, List.flatMap_cons, ih]

/-- The nodes of a tree: its root and those below. -/
theorem nodes_mk (info : NodeInfo) (children : List Node) :
    (Node.mk info children).nodes = .mk info children :: children.flatMap nodes := by
  rw [nodes, nodesOfAll_eq]

/-- The change of a list of trees. -/
theorem updateAll_eq (id : Nat) (f : Node → Node) (ns : List Node) :
    updateAll id f ns = ns.map (update id f) := by
  induction ns with
  | nil => rw [updateAll, List.map_nil]
  | cons n ns ih => rw [updateAll, List.map_cons, ih]

/-- The change of a tree, at its root or below. -/
theorem update_mk (id : Nat) (f : Node → Node) (info : NodeInfo) (children : List Node) :
    (Node.mk info children).update id f
      = if info.id = id then f (.mk info children) else .mk info (children.map (update id f)) := by
  rw [update, updateAll_eq]

/-- The links of a tree: its root's and those below. -/
theorem links_mk (info : NodeInfo) (children : List Node) :
    (Node.mk info children).links
      = { self := info.ref, children := children.map ref } :: children.flatMap links := by
  unfold links
  rw [nodes_mk, List.map_cons, List.map_flatMap]
  rfl

/-- The links of a tree: its root's and those below. -/
theorem links_eq (n : Node) : n.links = n.link :: n.children.flatMap links := by
  cases n with
  | mk info children => exact links_mk info children

/-- The root of a tree is one of its nodes. -/
theorem self_mem_nodes (n : Node) : n ∈ n.nodes := by
  cases n with
  | mk info children =>
    rw [nodes_mk]
    exact List.mem_cons_self

/-- A node has its link. -/
theorem link_mem_links {n x : Node} (h : x ∈ n.nodes) : x.link ∈ n.links := List.mem_map_of_mem h

/-- A link for each node. -/
theorem map_self_links (n : Node) : n.links.map Link.self = n.nodes.map ref := by
  unfold links
  rw [List.map_map]
  rfl

/-- Every node below another one is a child of one. -/
theorem mem_links_cases (n : Node) :
    ∀ l ∈ n.links, l = n.link ∨ ∃ l' ∈ n.links, l.self ∈ l'.children := by
  induction n using induct with
  | mk info children ih =>
    intro l hl
    rw [links_mk] at hl ⊢
    obtain rfl | hl := List.mem_cons.mp hl
    · exact Or.inl rfl
    · right
      obtain ⟨c, hc, hlc⟩ := List.mem_flatMap.mp hl
      obtain rfl | ⟨l', hl', hself⟩ := ih c hc l hlc
      · exact ⟨_, List.mem_cons_self, List.mem_map_of_mem hc⟩
      · exact ⟨l', List.mem_cons_of_mem _ (List.mem_flatMap.mpr ⟨c, hc, hl'⟩), hself⟩

/-- A child is a node of the tree. -/
theorem exists_link_of_child (n : Node) :
    ∀ l ∈ n.links, ∀ r ∈ l.children, ∃ l' ∈ n.links, l'.self = r := by
  induction n using induct with
  | mk info children ih =>
    intro l hl r hr
    rw [links_mk] at hl ⊢
    obtain rfl | hl := List.mem_cons.mp hl
    · obtain ⟨c, hc, rfl⟩ := List.mem_map.mp hr
      refine ⟨c.link, List.mem_cons_of_mem _ (List.mem_flatMap.mpr ⟨c, hc, ?_⟩), rfl⟩
      exact link_mem_links (self_mem_nodes c)
    · obtain ⟨c, hc, hlc⟩ := List.mem_flatMap.mp hl
      obtain ⟨l', hl', hself⟩ := ih c hc l hlc r hr
      exact ⟨l', List.mem_cons_of_mem _ (List.mem_flatMap.mpr ⟨c, hc, hl'⟩), hself⟩

/-- The children come in the order of the rows. -/
theorem children_sublist (children : List Node) :
    (children.map ref).Sublist ((children.flatMap links).map Link.self) := by
  induction children with
  | nil => exact .slnil
  | cons c children ih =>
    rw [List.map_cons, List.flatMap_cons, links_eq, List.cons_append, List.map_cons, List.map_append]
    exact (ih.trans (List.sublist_append_right _ _)).cons_cons _

/-! ## §2. Writing through a pointer. -/

/-- The nodes' names are those of the links. -/
theorem ids_nodes (n : Node) : n.nodes.map (fun m => m.info.id) = n.links.map (fun l => l.self.id) := by
  unfold links
  rw [List.map_map]
  rfl

/-- Nothing is written where no node has the id. -/
theorem update_absent {id : Nat} (f : Node → Node) (n : Node) :
    (∀ l ∈ n.links, l.self.id ≠ id) → n.update id f = n := by
  induction n using induct with
  | mk info children ih =>
    intro h
    rw [links_mk] at h
    have hself : info.id ≠ id := h _ List.mem_cons_self
    have hbelow : ∀ c ∈ children, c.update id f = c := by
      intro c hc
      exact ih c hc fun l hl => h l (List.mem_cons_of_mem _ (List.mem_flatMap.mpr ⟨c, hc, hl⟩))
    rw [update_mk, if_neg hself, List.map_congr_left hbelow, List.map_id'' (fun _ => rfl)]

/-- Writing what a node shows leaves who the nodes are. -/
theorem links_update_mapInfo {f : NodeInfo → NodeInfo} (hf : ∀ i, (f i).ref = i.ref) (id : Nat)
    (n : Node) :
    (n.update id (mapInfo f)).links = n.links ∧ (n.update id (mapInfo f)).ref = n.ref := by
  induction n using induct with
  | mk info children ih =>
    rw [update_mk]
    split
    · constructor
      · show (Node.mk (f info) children).links = _
        rw [links_mk, links_mk, hf]
      · exact hf info
    · refine ⟨?_, rfl⟩
      have hrefs : (children.map (update id (mapInfo f))).map ref = children.map ref := by
        rw [List.map_map]
        exact List.map_congr_left fun c hc => (ih c hc).2
      have hlinks : (children.map (update id (mapInfo f))).flatMap links = children.flatMap links := by
        rw [List.flatMap_map]
        exact List.flatMap_congr fun c hc => (ih c hc).1
      rw [links_mk, links_mk, hrefs, hlinks]

/-- What is written into none of the nodes. -/
theorem map_update_absent {id : Nat} (f : Node → Node) {ns : List Node}
    (h : ∀ l ∈ ns.flatMap links, l.self.id ≠ id) : ns.map (update id f) = ns := by
  have hsame : ∀ c ∈ ns, c.update id f = c := fun c hc =>
    update_absent f c fun l hl => h l (List.mem_flatMap.mpr ⟨c, hc, hl⟩)
  rw [List.map_congr_left hsame, List.map_id'' (fun _ => rfl)]

/-- **Writing through a pointer.**  The links of one node are replaced, where it stays who it
is. -/
theorem links_splice (n : Node) :
    ∀ x ∈ n.nodes, (n.links.map fun l => l.self.id).Nodup →
      ∃ before after, n.links = before ++ x.links ++ after ∧
        ∀ f : Node → Node, (f x).ref = x.ref →
          (n.update x.info.id f).links = before ++ (f x).links ++ after
            ∧ (n.update x.info.id f).ref = n.ref := by
  induction n using induct with
  | mk info children ih =>
    intro x hx hids
    rw [nodes_mk] at hx
    obtain rfl | hx := List.mem_cons.mp hx
    · refine ⟨[], [], by rw [List.nil_append, List.append_nil], fun f hf => ?_⟩
      rw [update_mk, info_mk, if_pos rfl, List.nil_append, List.append_nil]
      exact ⟨rfl, hf⟩
    · obtain ⟨c, hc, hxc⟩ := List.mem_flatMap.mp hx
      obtain ⟨left, right, rfl⟩ := List.append_of_mem hc
      have hxlink : x.link ∈ c.links := link_mem_links hxc
      -- the node is below one child, and no other node has its id
      rw [links_mk, List.flatMap_append, List.flatMap_cons, List.map_cons] at hids
      obtain ⟨hself, hbelow⟩ := List.nodup_cons.mp hids
      rw [List.map_append, List.map_append] at hself hbelow
      obtain ⟨_, hmiddle, hleft⟩ := List.nodup_append.mp hbelow
      obtain ⟨hcids, _, hright⟩ := List.nodup_append.mp hmiddle
      have hxids : x.info.id ∈ c.links.map fun l => l.self.id := List.mem_map_of_mem hxlink
      have hne : info.id ≠ x.info.id := by
        intro heq
        apply hself
        show info.id ∈ _
        rw [heq]
        exact List.mem_append_right _ (List.mem_append_left _ hxids)
      obtain ⟨before, after, hlinks, hupdate⟩ := ih c hc x hxc hcids
      refine ⟨{ self := info.ref, children := (left ++ c :: right).map ref }
        :: (left.flatMap links ++ before), after ++ right.flatMap links, ?_, fun f hf => ?_⟩
      · rw [links_mk, List.flatMap_append, List.flatMap_cons, hlinks]
        simp only [List.cons_append, List.append_assoc]
      · have hleftSame : left.map (update x.info.id f) = left := by
          apply map_update_absent
          intro l hl heq
          exact hleft _ (List.mem_map_of_mem hl) _ (List.mem_append_left _ hxids) heq
        have hrightSame : right.map (update x.info.id f) = right := by
          apply map_update_absent
          intro l hl heq
          exact hright _ hxids _ (List.mem_map_of_mem hl) heq.symm
        obtain ⟨hnew, href⟩ := hupdate f hf
        refine ⟨?_, ?_⟩
        · rw [update_mk, if_neg hne, List.map_append, List.map_cons, hleftSame, hrightSame, links_mk,
            List.map_append, List.map_cons, href, List.flatMap_append, List.flatMap_cons, hnew,
            List.map_append, List.map_cons]
          simp only [List.cons_append, List.append_assoc]
        · rw [update_mk, if_neg hne]
          rfl

/-- What is found is a node of that name. -/
theorem find?_spec {n x : Node} {id : Nat} (h : n.find? id = some x) :
    x ∈ n.nodes ∧ x.info.id = id := by
  unfold find? at h
  have hid := List.find?_some h
  exact ⟨List.mem_of_find?_eq_some h, eq_of_beq hid⟩

/-- A node is found by its id. -/
theorem find?_self {n x : Node} (hids : (n.links.map fun l => l.self.id).Nodup) (hx : x ∈ n.nodes) :
    n.find? x.info.id = some x := by
  rw [← ids_nodes] at hids
  obtain ⟨y, hy⟩ : ∃ y, n.find? x.info.id = some y := by
    rw [← Option.isSome_iff_exists]
    unfold find?
    rw [List.find?_isSome]
    exact ⟨x, hx, BEq.rfl⟩
  obtain ⟨hmem, hid⟩ := find?_spec hy
  rw [hy, List.inj_on_of_nodup_map hids hmem hx hid]

end Node

end ResearchSSH.App
