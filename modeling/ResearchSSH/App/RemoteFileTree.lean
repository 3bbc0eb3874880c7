/-
  ResearchSSH.App.RemoteFileTree — the lazily loaded tree of the remote files.

  A node is told apart by its `id`, where the source has its address; `m_byPath` is a map from
  paths to ids, and the parent pointer of a node an id as well.  A directory is listed when it is
  expanded for the first time: until then it is not `loaded`, and what the tree says about its
  contents is nothing.

  Main definitions:
    * `RemoteFileTreeModel` and its operations `fetchMore`, `loadRoot`, `clearTree`,
      `markLoadFailed`, `applyListing`, `childExists`.
-/

import Mathlib.Logic.Function.Basic
import ResearchSSH.App.RemotePath

namespace ResearchSSH.App

open ResearchSSH.Core

/-! ## §1. Nodes. -/

/-- One directory entry, copied out of a `RsFileEntry`. -/
structure FsEntry where
  name : QString
  path : QString
  kind : FileKind
  size : UInt64
  modified : Int64
  editable : Bool
  deriving DecidableEq, Repr

/-- The members of a node, without its children. -/
structure NodeInfo where
  id : Nat
  name : QString
  path : QString
  isDir : Bool
  size : UInt64
  editable : Bool
  loaded : Bool
  loading : Bool
  parent : Option Nat
  deriving DecidableEq, Repr

/-- A node of the tree with the nodes below it. -/
inductive Node
  | mk (info : NodeInfo) (children : List Node)

namespace Node

/-- What the model shows of the node. -/
def info : Node → NodeInfo
  | .mk info _ => info

/-- The nodes one level below. -/
def children : Node → List Node
  | .mk _ children => children

/-- What the node shows. -/
@[simp] theorem info_mk (i : NodeInfo) (cs : List Node) : (Node.mk i cs).info = i := rfl

/-- The nodes below it. -/
@[simp] theorem children_mk (i : NodeInfo) (cs : List Node) : (Node.mk i cs).children = cs := rfl

mutual

/-- The node and everything below it, each node before its children. -/
def nodes : Node → List Node
  | .mk info children => .mk info children :: nodesOfAll children

/-- The nodes of a list of trees. -/
def nodesOfAll : List Node → List Node
  | [] => []
  | n :: ns => nodes n ++ nodesOfAll ns

end

/-- The node with this id. -/
def find? (n : Node) (id : Nat) : Option Node := n.nodes.find? fun m => m.info.id == id

mutual

/-- Write through a pointer: `f` at the node with this id. -/
def update (id : Nat) (f : Node → Node) : Node → Node
  | .mk info children =>
    if info.id = id then f (.mk info children) else .mk info (updateAll id f children)

/-- The change in every tree of a list. -/
def updateAll (id : Nat) (f : Node → Node) : List Node → List Node
  | [] => []
  | n :: ns => update id f n :: updateAll id f ns

end

/-- A change of what the node shows. -/
def mapInfo (f : NodeInfo → NodeInfo) : Node → Node
  | .mk info children => .mk (f info) children

end Node

/-! ## §2. The model. -/

/-- The tree, the index of its paths and the name of the next node. -/
structure RemoteFileTreeModel where
  root : Node
  byPath : QString → Option Nat
  nextId : Nat

namespace RemoteFileTreeModel

/-- `m_byPath` with the root alone in it. -/
def rootOnly : QString → Option Nat := fun path => if path = [] then some 0 else none

/-- The model as it is constructed: an empty root, not loaded. -/
def initial : RemoteFileTreeModel :=
  { root := .mk { id := 0, name := [], path := [], isDir := true, size := 0, editable := false
                  loaded := false, loading := false, parent := none } []
    byPath := rootOnly, nextId := 1 }

variable (t : RemoteFileTreeModel)

/-- Is the path one that the home directory is listed under? -/
def isRootAliasPath (path : QString) : Bool :=
  if path = [] ∨ path = lit "." then true
  else
    match t.root.children with
    | [] => false
    | first :: _ => parentPathOf first.info.path = path

/-- `nodeForPath`: the index first, then the names the root also goes by. -/
def nodeForPath (path : QString) : Option Node :=
  match t.byPath path with
  | some id => t.root.find? id
  | none => if t.isRootAliasPath path then some t.root else none

/-- A change of the node of that name. -/
def updateNode (id : Nat) (f : Node → Node) : RemoteFileTreeModel :=
  { t with root := t.root.update id f }

mutual

/-- Forget the paths of a node and of everything below it. -/
def removePathIndex (byPath : QString → Option Nat) : Node → QString → Option Nat
  | .mk info children =>
    let below := removePathIndexOfAll byPath children
    if info.path = [] then below else Function.update below info.path none

/-- The paths of a list of trees leave the index. -/
def removePathIndexOfAll (byPath : QString → Option Nat) : List Node → QString → Option Nat
  | [] => byPath
  | n :: ns => removePathIndexOfAll (removePathIndex byPath n) ns

end

/-! ## §3. Expanding. -/

/-- `canFetchMore`: a directory that is neither loaded nor loading. -/
def canFetchMore (node : Node) : Bool :=
  node.info.isDir && !node.info.loaded && !node.info.loading

/-- `fetchMore` at the node with this id, and the path of `directoryExpandRequested` if it is
emitted. -/
def fetchMore (id : Nat) : RemoteFileTreeModel × Option QString :=
  match t.root.find? id with
  | none => (t, none)
  | some node =>
    if canFetchMore node then
      (t.updateNode id (Node.mapInfo fun i => { i with loading := true }), some node.info.path)
    else (t, none)

/-- `loadRoot`, which always emits `directoryExpandRequested` for the empty path. -/
def loadRoot : RemoteFileTreeModel :=
  { t with root := t.root.mapInfo fun i => { i with loaded := false, loading := true } }

/-- Is there an entry of this name in a directory?  A directory that is unknown or not loaded
answers no. -/
def childExists (parentPath name : QString) : Bool :=
  let needle := trimmed name
  if needle = [] then false
  else
    match t.nodeForPath parentPath with
    | none => false
    | some parentNode =>
      -- Rows of an earlier listing count only while the directory is loaded.
      parentNode.info.loaded && parentNode.children.any fun child => child.info.name == needle

/-- `clearTree`: only the root is left, not loaded. -/
def clearTree : RemoteFileTreeModel :=
  { t with
    root := .mk { t.root.info with loaded := false, loading := false } []
    byPath := rootOnly }

/-- `markLoadFailed`: the directory can be fetched again. -/
def markLoadFailed (path : QString) : RemoteFileTreeModel :=
  match t.nodeForPath path with
  | none => t
  | some node => t.updateNode node.info.id (Node.mapInfo fun i => { i with loading := false })

/-! ## §4. Listings. -/

/-- The rows that are not in the listing are removed, from the last to the first. -/
def pruneChildren (incomingPaths : List QString) (children : List Node)
    (byPath : QString → Option Nat) : List Node × (QString → Option Nat) :=
  children.foldr
    (fun child (kept, byPath) =>
      if child.info.path ∈ incomingPaths then (child :: kept, byPath)
      else (kept, removePathIndex byPath child))
    ([], byPath)

/-- One entry of a listing: a node that is known by its path is updated where it stands, any
other becomes a new row of the directory `parent`. -/
def applyEntry (parent : Nat) (e : FsEntry) : RemoteFileTreeModel :=
  match t.nodeForPath e.path with
  | some existing =>
    t.updateNode existing.info.id (Node.mapInfo fun i =>
      { i with name := e.name, isDir := e.kind = .directory, size := e.size
               editable := e.editable })
  | none =>
    -- A new directory is not listed before it is expanded.
    let child := Node.mk { id := t.nextId, name := e.name, path := e.path
                           isDir := e.kind = .directory, size := e.size, editable := e.editable
                           loaded := false, loading := false, parent := some parent } []
    { root := t.root.update parent fun n => .mk n.info (n.children ++ [child])
      byPath := if e.path = [] then t.byPath else Function.update t.byPath e.path (some t.nextId)
      nextId := t.nextId + 1 }

/-- `applyListing`: the entries take the place of what was below the directory. -/
def applyListing (path : QString) (entries : List FsEntry) : RemoteFileTreeModel :=
  match t.nodeForPath path with
  | none => t
  | some parentNode =>
    -- Rows that stay keep their nodes, and with them what was expanded below.
    let (kept, byPath) :=
      pruneChildren (entries.map FsEntry.path) parentNode.children t.byPath
    let pruned : RemoteFileTreeModel :=
      { root := t.root.update parentNode.info.id fun n => .mk n.info kept
        byPath := byPath, nextId := t.nextId }
    let listed := entries.foldl (fun t e => t.applyEntry parentNode.info.id e) pruned
    listed.updateNode parentNode.info.id (Node.mapInfo fun i =>
      { i with loaded := true, loading := false })

/-! ## §5. What the tree does not know. -/

/-- A directory that is not loaded has no children yet. -/
theorem childExists_of_not_loaded {parentPath : QString}
    (h : ∀ node, t.nodeForPath parentPath = some node → node.info.loaded = false)
    (name : QString) : t.childExists parentPath name = false := by
  unfold childExists
  dsimp only
  split
  · rfl
  · cases hnode : t.nodeForPath parentPath with
    | none => rfl
    | some node =>
      show (node.info.loaded && _) = false
      rw [h node hnode, Bool.false_and]

end RemoteFileTreeModel

end ResearchSSH.App
