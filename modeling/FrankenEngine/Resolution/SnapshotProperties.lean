import FrankenEngine.Resolution.Graph

/-!
# Snapshots

A checkpoint verifies against a graph with the same content hash. The hash is
taken over bytes in which node ids and roots are not delimited. Roots are hashed
as the same bytes exactly if they are made of the same pieces, some of them
joined by the mark that is written before each root.
-/

set_option autoImplicit false

namespace FrankenEngine.Resolution

open Library List

variable (hashing : Hashing)

theorem verifyCheckpoint_createCheckpoint (graph other : ResolutionGraph) :
    verifyCheckpoint hashing other (createCheckpoint hashing graph) =
      .ok (decide (other.contentHash = graph.contentHash)) := by
  have intact : computeCheckpointHash hashing (createCheckpoint hashing graph) =
      (createCheckpoint hashing graph).contentHash := rfl
  rw [verifyCheckpoint, if_neg (not_not.mpr intact)]
  rfl

def nodeHashes (hashing : Hashing) (nodes : OrderedMap String ModuleNode) :
    List (String × ContentHash) :=
  nodes.entries.map fun entry => (entry.1, entry.2.computeHash hashing)

def nodeText (node : String × ContentHash) : Bytes := utf8 node.1 ++ node.2.bytes

/-- No roots of the one graph are joined to roots of the other by the mark. -/
def RootsClear (left right : List String) : Prop :=
  ∀ pieces, Joins (utf8 "root:") pieces ((left.insertionSort (· ≤ ·)).map utf8) →
    Joins (utf8 "root:") pieces ((right.insertionSort (· ≤ ·)).map utf8) → left.Perm right

theorem utf8_root : utf8 "root:" = 114 :: utf8 "oot:" := by decide

/-- The bytes of a graph over the texts of its parts. -/
theorem graphPreimage_eq (nodes : OrderedMap String ModuleNode) (edges : List DependencyEdge)
    (roots : List String) : graphPreimage hashing nodes edges roots = utf8 "ResolutionGraph:v1:" ++
      (written (110 :: utf8 "ode:") ((nodeHashes hashing nodes).map nodeText) ++
        (written (101 :: utf8 "dge:")
            (((edges.map (·.computeHash hashing)).insertionSort (· ≤ ·)).map Digest.bytes) ++
          (written (utf8 "root:") ((roots.insertionSort (· ≤ ·)).map utf8)))) := by
  have node : utf8 "node:" = 110 :: utf8 "ode:" := by decide
  have edge : utf8 "edge:" = 101 :: utf8 "dge:" := by decide
  simp only [graphPreimage, nodeHashes, nodeText, written, ← node, ← edge, flatMap_map,
    append_assoc]

theorem head?_written_roots_ne (roots : List Bytes) :
    (written (utf8 "root:") roots).head? ≠ some (101 : UInt8) := by
  cases roots with
  | cons root roots => exact (by decide : some (114 : UInt8) ≠ some 101)
  | nil => exact Option.some_ne_none _ |>.symm

theorem head?_written_edges_ne (edges roots : List Bytes) :
    (written (101 :: utf8 "dge:") edges ++ written (utf8 "root:") roots).head? ≠
      some (110 : UInt8) := by
  cases edges with
  | cons hash edges => exact (by decide : some (101 : UInt8) ≠ some 110)
  | nil =>
    cases roots with
    | cons root roots => exact (by decide : some (114 : UInt8) ≠ some 110)
    | nil => exact Option.some_ne_none _ |>.symm

theorem perm_of_sorted {α : Type} [LinearOrder α] {left right : List α}
    (same : left.insertionSort (· ≤ ·) = right.insertionSort (· ≤ ·)) : left.Perm right :=
  (perm_insertionSort (· ≤ ·) left).symm.trans (same ▸ perm_insertionSort (· ≤ ·) right)

theorem nodeText_injective {left right : List (String × ContentHash)}
    (same : left.map nodeText = right.map nodeText) : left = right := by
  refine map_injective_iff.mpr ?_ same
  intro one two texts
  have hashes := append_inj_right' texts (one.2.width.trans two.2.width.symm)
  exact Prod.ext (utf8_injective (append_inj_left' texts (one.2.width.trans two.2.width.symm)))
    (Digest.ext_bytes hashes)

theorem sorted_of_perm {α : Type} [LinearOrder α] {left right : List α} (same : left.Perm right) :
    left.insertionSort (· ≤ ·) = right.insertionSort (· ≤ ·) := by
  refine Perm.eq_of_pairwise (fun _ _ _ _ => le_antisymm) (pairwise_insertionSort _ left)
    (pairwise_insertionSort _ right) ?_
  exact ((perm_insertionSort _ left).trans same).trans (perm_insertionSort _ right).symm

theorem graphPreimage_injective {hashing : Hashing}
    {leftNodes rightNodes : OrderedMap String ModuleNode}
    {leftEdges rightEdges : List DependencyEdge} {leftRoots rightRoots : List String}
    (nodesPart : PartsClearly ((nodeHashes hashing leftNodes).map nodeText)
      ((nodeHashes hashing rightNodes).map nodeText))
    (rootsClear : RootsClear leftRoots rightRoots)
    (same : graphPreimage hashing leftNodes leftEdges leftRoots =
      graphPreimage hashing rightNodes rightEdges rightRoots) :
    nodeHashes hashing leftNodes = nodeHashes hashing rightNodes ∧
      (leftEdges.map (·.computeHash hashing)).Perm (rightEdges.map (·.computeHash hashing)) ∧
      leftRoots.Perm rightRoots := by
  have fixed (hashes : List ContentHash) : ∀ item ∈ hashes.map Digest.bytes, item.length = 32 :=
    forall_mem_map.mpr fun hash _ => hash.width
  rw [graphPreimage_eq, graphPreimage_eq] at same
  obtain ⟨nodes, same⟩ := nodesPart.eq_of_written (head?_written_edges_ne _ _)
    (head?_written_edges_ne _ _) (append_cancel_left same)
  obtain ⟨edges, same⟩ := (partsClearly_of_length (fixed _) (fixed _)).eq_of_written
    (head?_written_roots_ne _) (head?_written_roots_ne _) same
  rw [utf8_root] at same
  obtain ⟨pieces, joinsLeft, joinsRight⟩ := exists_joins (by decide) same
  rw [← utf8_root] at joinsLeft joinsRight
  refine ⟨nodeText_injective nodes, perm_of_sorted ?_, rootsClear pieces joinsLeft joinsRight⟩
  exact map_injective_iff.mpr (fun _ _ => Digest.ext_bytes) edges

theorem get?_map_computeHash (nodes : OrderedMap String ModuleNode) (id : String) :
    (nodes.get? id).map (·.computeHash hashing) = (nodeHashes hashing nodes).lookup id :=
  (lookup_map_value _ id nodes.entries).symm

def modulesNamed (ids : List String) : List ModuleNode :=
  ids.map fun id =>
    { nodeId := id, specifier := "m", resolvedPath := "", version := "", contentHash := .zero }

theorem buildGraph_modulesNamed {ids : List String} (distinct : ids.Nodup)
    (few : ids.length ≤ maxNodes) :
    ∃ nodeMap : OrderedMap String ModuleNode, (∀ id, id ∈ nodeMap.keys ↔ id ∈ ids) ∧
      ∀ (hashing : Hashing) (roots : List String), (∀ root ∈ roots, root ∈ ids) →
        buildGraph hashing (modulesNamed ids) [] roots =
          .ok (assembleGraph hashing nodeMap [] roots) := by
  have named : (modulesNamed ids).map (·.nodeId) = ids := by
    rw [modulesNamed, map_map]
    exact map_id ids
  obtain ⟨nodeMap, inserted, members⟩ := insertNodes_ok_of_nodup (named.symm ▸ distinct)
    (fun node _ => (nofun : node.nodeId ∉ OrderedMap.empty.keys))
  have members : ∀ id, id ∈ nodeMap.keys ↔ id ∈ ids := fun id =>
    (members id).trans (named.symm ▸ or_iff_right (not_mem_nil : id ∉ []))
  refine ⟨nodeMap, members, fun hashing roots rooted => buildGraph_ok_iff.mpr ⟨?_, ?_, ?_, nodeMap,
    inserted, nofun, nodup_nil, fun root member => ?_, rfl⟩⟩
  · rw [modulesNamed, length_map]
    exact few
  · exact Nat.zero_le _
  · intro node member
    obtain ⟨id, -, rfl⟩ := mem_map.mp member
    show validateSpecifier "m" = .ok ()
    decide
  · exact (members root).mpr (rooted root member)

end FrankenEngine.Resolution
