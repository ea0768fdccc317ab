import Mini2.Framework.Repeats
import Mini2.Node.ClusterAnswer

/-!
# A dataset on a cluster

The scripts give each record of a dataset to one node, by its key, and write a partition file
for every node; each node loads its own. What a query without a box and without a cap is
answered with does not show how the records were spread: it is what the plain filter finds in
one store with all of them (`dataset_answered`).
-/

namespace Mini2

open Framework

variable {Node : Type*} [DecidableEq Node]

/-- The records that the scripts write for a node, `nodes[key % n]`. -/
def Record.share (nodes : List Node) (rs : List Record) (n : Node) : List Record :=
  rs.filter fun r => nodes[r.key.toNat % nodes.length]? = some n

omit [DecidableEq Node] in
/-- Every record goes to one of the nodes. -/
theorem Record.exists_owner {nodes : List Node} (hne : nodes ≠ []) (r : Record) :
    ∃ n ∈ nodes, nodes[r.key.toNat % nodes.length]? = some n := by
  have h_lt : r.key.toNat % nodes.length < nodes.length :=
    Nat.mod_lt _ (List.length_pos_iff.mpr hne)
  exact ⟨_, List.getElem_mem h_lt, List.getElem?_eq_getElem h_lt⟩

namespace Cluster

variable (C : Cluster Node)

/-- The nodes have loaded the partition files of a dataset. -/
structure Holds (strtod : Str → Option ℚ) (path : Node → Str) (nodes : List Node)
    (rs : List Record) : Prop where
  /-- The scripts were given the nodes of the cluster, in any order. -/
  perm : nodes.Perm C.overlay.nodes
  load : ∀ n ∈ C.overlay.nodes, PartitionStore.load strtod (path n)
    (some (partitionFile (Record.share nodes rs n))) = some (.ok (C.store n))

variable {C} {strtod : Str → Option ℚ} {path : Node → Str} {nodes : List Node}
  {rs : List Record} {spec : QuerySpec}

/-- What a node emits is what the filter finds in its share. -/
theorem Holds.emitted_eq (h : C.Holds strtod path nodes rs) {n : Node} (hn : n ∈ C.overlay.nodes)
    (hgeo : spec.useGeoBox = false) (hcap : spec.maxRows = 0)
    (hb : 0 ≤ spec.borough ∧ spec.borough ≤ 5) : C.emitted spec n =
      ((Record.share nodes rs n).map fun r => r.loaded strtod).filter spec.admits := by
  obtain ⟨calls, h_run, h_rows⟩ : ∃ calls, QueryEngine.run (C.store n) spec C.sort
      C.params.initialChunkRows (fun _ => false) = some calls ∧ calls.flatMap SinkCall.rows =
        spec.cut ((C.store n).rows.filter (QueryEngine.indexHit spec)) :=
    QueryEngine.run_hits hgeo
  -- the node has loaded its share
  have h_store : (C.store n).rows = (Record.share nodes rs n).map fun r => r.loaded strtod := by
    rw [load_partitionFile.mp (h.load n hn)]
    exact rows_recordColumns strtod _
  -- without a box the indices apply all predicates
  have h_admits : spec.admits = QueryEngine.indexHit spec := by
    funext r
    simp [QuerySpec.admits, hgeo, QueryEngine.indexHit_eq hb]
  calc C.emitted spec n
      = calls.flatMap SinkCall.rows := by
        unfold emitted
        rw [h_run]
        rfl
    _ = spec.cut ((C.store n).rows.filter (QueryEngine.indexHit spec)) := h_rows
    _ = (C.store n).rows.filter spec.admits := by rw [QuerySpec.cut, if_pos hcap, h_admits]
    _ = _ := by rw [h_store]

/-- **Spreading the records makes no difference** to the result. -/
theorem Holds.result_perm (h : C.Holds strtod path nodes rs) (hgeo : spec.useGeoBox = false)
    (hcap : spec.maxRows = 0) (hb : 0 ≤ spec.borough ∧ spec.borough ≤ 5) :
    (C.result spec).Perm ((rs.map fun r => r.loaded strtod).filter spec.admits) := by
  classical
  have h_nodup : nodes.Nodup := h.perm.nodup_iff.mpr C.overlay.nodes_nodup
  have h_ne : nodes ≠ [] := List.ne_nil_of_mem (h.perm.mem_iff.mpr C.overlay.portal_mem)
  -- each record is in one share
  have h_shares : (nodes.flatMap (Record.share nodes rs)).Perm rs :=
    flatMap_filter_perm h_nodup fun r _ => Record.exists_owner h_ne r
  calc C.result spec
      = C.overlay.nodes.flatMap fun n =>
          ((Record.share nodes rs n).map fun r => r.loaded strtod).filter spec.admits :=
        List.flatMap_congr fun n hn => h.emitted_eq hn hgeo hcap hb
    _ = ((C.overlay.nodes.flatMap (Record.share nodes rs)).map fun r =>
          r.loaded strtod).filter spec.admits := by
        rw [List.map_flatMap, List.filter_flatMap]
    List.Perm _ ((rs.map fun r => r.loaded strtod).filter spec.admits) :=
        (((h.perm.symm.flatMap_right _).trans h_shares).map _).filter _

/-- **A dataset is answered as if it were in one place.** Let the nodes of a tree have loaded
the partition files that the scripts make of a dataset, and let `whole` be a store with all of
it. In every run of the portal in which results fit into the buffers and nothing disturbs the
requests, a query without a box and without a cap is answered with what the plain filter
finds in `whole`, in some order. -/
theorem dataset_answered (C : Cluster Node) (htree : C.overlay.IsTree)
    (hself : C.overlay.selfRoute ∉ C.overlay.nodes) (hholds : C.Holds strtod path nodes rs)
    {all : Str} {whole : PartitionStore}
    (hwhole : PartitionStore.load strtod all (some (partitionFile rs)) = some (.ok whole))
    {s : PortalState Node} (h : C.machine.Reachable C.Calm s) {a : Active Node}
    (ha : a ∈ s.requests) (hgeo : a.spec.useGeoBox = false) (hcap : a.spec.maxRows = 0)
    (hb : 0 ≤ a.spec.borough ∧ a.spec.borough ≤ 5) :
    ∀ f ∈ a.state.store.fetches, f.pc = .answered → f.rsp.final = true →
      (Request.returned a.state.store).Perm (whole.rows.filter a.spec.admits) := by
  have h_whole : whole.rows = rs.map fun r => r.loaded strtod := by
    rw [load_partitionFile.mp hwhole]
    exact rows_recordColumns strtod rs
  intro f hf hpc hfinal
  rw [h_whole]
  exact ((AnswersInv.reachable htree hself h).requests a ha |>.returned_perm hf hpc hfinal).trans
    (hholds.result_perm hgeo hcap hb)

/-- Two records, of which the first goes to `b` and the second to `c`. -/
def twoRecords : List Record :=
  [rodentRecord, { rodentRecord with key := 1000001, borough := .bronx, key_ne := by decide }]

/-- They are spread over a row of nodes. -/
def spread : Cluster Overlay.Id3 :=
  { near with
    overlay := .chain
    store := fun n => (PartitionStore.ofColumns (recordColumns (fun _ => none)
      (Record.share [.a, .b, .c] twoRecords n))).getD .empty }

theorem spread_holds : spread.Holds (fun _ => none) (fun _ => []) [.a, .b, .c] twoRecords where
  perm := List.Perm.refl _
  load n hn := by
    rw [load_partitionFile, ← PartitionStore.ofColumns_eq_some]
    show PartitionStore.ofColumns _ = some (Option.getD (PartitionStore.ofColumns _) .empty)
    have h_some : ∀ n ∈ spread.overlay.nodes, (PartitionStore.ofColumns
        (recordColumns (fun _ => none) (Record.share [.a, .b, .c] twoRecords n))).isSome := by
      decide +kernel
    obtain ⟨store, h_store⟩ := Option.isSome_iff_exists.mp (h_some n hn)
    rw [h_store]
    rfl

/-- All records that there are. -/
def everything : QuerySpec :=
  { QueryEngine.noiseQuery with complaintType := [], dateFrom := 0, maxRows := 0 }

/-- A run in which the query for everything is answered. -/
theorem spread_run : ∃ s, spread.machine.Reachable spread.Calm s ∧ ∃ a ∈ s.requests,
    a.spec = everything ∧ a.state.store.registered = false ∧
      ∃ f ∈ a.state.store.fetches, f.pc = .answered ∧ f.rsp.final = true := by
  obtain ⟨s, hrun, h⟩ := Machine.exists_run_of_exec (M := spread.machine) (P := spread.Calm)
    (s := spread.machine.init)
    (l := .submitQuery everything :: (Request.overChain ++ Request.fetchOnce).map (.request 0))
    (Φ := fun s => ∃ a ∈ s.requests, a.spec = everything ∧ a.state.store.registered = false ∧
      ∃ f ∈ a.state.store.fetches, f.pc = .answered ∧ f.rsp.final = true)
    (by decide +kernel)
  exact ⟨s, ⟨_, hrun⟩, h⟩

/-- A query for everything returns both records. -/
theorem dataset_answered_two : ∃ s whole, spread.machine.Reachable spread.Calm s ∧
    PartitionStore.load (fun _ => none) [] (some (partitionFile twoRecords)) = some (.ok whole) ∧
    ∃ a ∈ s.requests, a.state.store.registered = false ∧
      (Request.returned a.state.store).Perm (whole.rows.filter a.spec.admits) := by
  obtain ⟨whole, h_whole⟩ := Option.isSome_iff_exists.mp (show (PartitionStore.ofColumns
    (recordColumns (fun _ => none) twoRecords)).isSome by decide +kernel)
  have h_load : PartitionStore.load (fun _ => none) [] (some (partitionFile twoRecords)) =
      some (.ok whole) :=
    load_partitionFile.mpr (PartitionStore.ofColumns_eq_some.mp h_whole)
  obtain ⟨s, h_s, a, ha, h_spec, hgone, f, hf, hpc, hfinal⟩ := spread_run
  refine ⟨s, whole, h_s, h_load, a, ha, hgone, ?_⟩
  exact dataset_answered spread Overlay.chain_isTree (by decide) spread_holds h_load h_s ha
    (by rw [h_spec]; rfl) (by rw [h_spec]; rfl) (by rw [h_spec]; decide) f hf hpc hfinal

end Cluster
end Mini2
