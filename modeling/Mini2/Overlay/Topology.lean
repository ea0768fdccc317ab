import Mathlib.Data.List.Nodup
import Mathlib.Data.Set.Finite.List

/-!
# The overlay a cluster runs on

`Topology` is what the node servers read of the configuration: the node ids,
the node marked as root, and for each node the ids its peer clients are keyed
by, in the order in which they are iterated (the code iterates an unordered map,
so any order has to be covered, and none is assumed). `Overlay` adds what a
configuration guarantees: edges join declared nodes and are recorded at both
ends.
-/

namespace Mini2

/-- The configuration as the node servers read it. -/
structure Topology (Node : Type*) where
  /-- `allNodeIds()`. -/
  nodes : List Node
  /-- The node whose entry is marked as root. -/
  portal : Node
  /-- The keys of `peer_clients_` on a node. -/
  nbrs : Node → List Node
  /-- `kSelfRoute`, the upstream id that stands for the portal's own buffer. -/
  selfRoute : Node
  /-- `"__cache__"`, the producer id that stands for a cached result. -/
  cacheProducer : Node

/-- A topology with declared ids and symmetric adjacency. -/
structure Overlay (Node : Type*) extends Topology Node where
  nodes_nodup : nodes.Nodup
  portal_mem : portal ∈ nodes
  nbrs_nodup : ∀ n, (nbrs n).Nodup
  nbrs_mem : ∀ {n m}, m ∈ nbrs n → m ∈ nodes
  nbrs_symm : ∀ {n m}, m ∈ nbrs n → n ∈ nbrs m

namespace Overlay

variable {Node : Type*} (O : Overlay Node)

/-- Adjacency of the overlay. -/
def Adj (n m : Node) : Prop := m ∈ O.nbrs n

/-- Finitely many darts. -/
theorem adj_finite : {e : Node × Node | O.Adj e.1 e.2}.Finite := by
  refine ((List.finite_toSet O.nodes).prod (List.finite_toSet O.nodes)).subset ?_
  rintro ⟨n, m⟩ h
  exact ⟨O.nbrs_mem (O.nbrs_symm h), O.nbrs_mem h⟩

theorem nbrs_length_le (n : Node) : (O.nbrs n).length ≤ O.nodes.length :=
  (O.nbrs_nodup n).subperm (fun _ h => O.nbrs_mem h) |>.length_le

/-! ### Small overlays

The overlays on which the runs of the examples below take place. -/

/-- The ids of a cluster of up to three nodes, and the two reserved ids. -/
inductive Id3
  | a
  | b
  | c
  | self
  | cache
  deriving DecidableEq

/-- Three nodes, each joined to the two others. -/
def triangle : Overlay Id3 where
  nodes := [.a, .b, .c]
  portal := .a
  nbrs
    | .a => [.b, .c]
    | .b => [.a, .c]
    | .c => [.a, .b]
    | _ => []
  selfRoute := .self
  cacheProducer := .cache
  nodes_nodup := by decide
  portal_mem := by decide
  nbrs_nodup n := by cases n <;> decide
  nbrs_mem {n m} := by cases n <;> cases m <;> decide
  nbrs_symm {n m} := by cases n <;> cases m <;> decide

/-- The portal and one other node. -/
def pair : Overlay Id3 where
  nodes := [.a, .b]
  portal := .a
  nbrs
    | .a => [.b]
    | .b => [.a]
    | _ => []
  selfRoute := .self
  cacheProducer := .cache
  nodes_nodup := by decide
  portal_mem := by decide
  nbrs_nodup n := by cases n <;> decide
  nbrs_mem {n m} := by cases n <;> cases m <;> decide
  nbrs_symm {n m} := by cases n <;> cases m <;> decide

/-- Three nodes in a row, the portal at one end. -/
def chain : Overlay Id3 where
  nodes := [.a, .b, .c]
  portal := .a
  nbrs
    | .a => [.b]
    | .b => [.a, .c]
    | .c => [.b]
    | _ => []
  selfRoute := .self
  cacheProducer := .cache
  nodes_nodup := by decide
  portal_mem := by decide
  nbrs_nodup n := by cases n <;> decide
  nbrs_mem {n m} := by cases n <;> cases m <;> decide
  nbrs_symm {n m} := by cases n <;> cases m <;> decide

end Overlay
end Mini2
