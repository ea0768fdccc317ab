import Mini2.Node.Dataset
import Mini2.Python.PartitionData

/-!
# Raw files on a cluster

From the raw files of a dataset to the answer of a query: `partition_data.py` writes the
partition files, each node loads its own, and the portal returns what the plain filter finds in
the rows that the script has kept (`raw_files_answered`). The rows have to be such that the C++
loader reads a row as it was written, as those of a `Record`.
-/

namespace Mini2

open Python (Unicode)
open Python.PartitionData

variable {Node : Type*} [DecidableEq Node]

/-! ### Records that the script writes -/

namespace Record

/-- What the script keeps of a raw row with the cells of a record. -/
def kept (r : Record) : Kept :=
  ⟨r.key.toNat, r.date.toNat, boroughName r.borough, r.latitude, r.longitude, r.complaint⟩

theorem fields_kept (r : Record) : r.kept.fields = r.fields := by
  have h_str : ∀ n : ℕ, str n = toDec n := fun n => if_neg (by omega)
  show [str r.key.toNat, str r.date.toNat, _, _, _, _] = r.front ++ [r.complaint]
  rw [h_str, h_str]
  rfl

omit [DecidableEq Node] in
/-- The script gives a record to the node that has its share. -/
theorem nodeOf_kept {ids : Node → Str} (hids : Function.Injective ids) {nodes : List Node}
    (hne : nodes ≠ []) (r : Record) (n : Node) :
    nodeOf (nodes.map ids) r.kept.key = ids n ↔
      nodes[r.key.toNat % nodes.length]? = some n := by
  have h_lt : r.key.toNat % nodes.length < nodes.length :=
    Nat.mod_lt _ (List.length_pos_iff.mpr hne)
  -- the remainder of a key is not negative
  have h_index : ((r.key.toNat : ℤ) % (nodes.map ids).length).toNat =
      r.key.toNat % nodes.length := by
    rw [List.length_map, ← Int.natCast_mod, Int.toNat_natCast]
  calc nodeOf (nodes.map ids) r.kept.key = ids n
      ↔ (nodes.map ids).getD (r.key.toNat % nodes.length) [] = ids n := by
        show (nodes.map ids).getD ((r.key.toNat : ℤ) % (nodes.map ids).length).toNat [] = _ ↔ _
        rw [h_index]
    _ ↔ ids nodes[r.key.toNat % nodes.length] = ids n := by
        rw [List.getD_eq_getElem _ _ (by rwa [List.length_map]), List.getElem_map]
    _ ↔ nodes[r.key.toNat % nodes.length]? = some n := by
        rw [hids.eq_iff, List.getElem?_eq_getElem h_lt, Option.some_inj]

/-- **The file of a node** is a partition file of its share. -/
theorem file_eq {ids : Node → Str} (hids : Function.Injective ids) {nodes : List Node}
    {out : Output} {rs : List Record} (h : out.Holds (nodes.map ids) (rs.map kept)) {n : Node}
    (hn : n ∈ nodes) : out.files (ids n) = partitionFile (share nodes rs n) := by
  have h_share : Python.PartitionData.share (nodes.map ids) (rs.map kept) (ids n) =
      (share nodes rs n).map kept := by
    unfold Python.PartitionData.share share
    rw [List.filter_map]
    congr 1
    refine List.filter_congr fun r _ => decide_eq_decide.mpr ?_
    exact nodeOf_kept hids (List.ne_nil_of_mem hn) r n
  rw [h.files _ (List.mem_map_of_mem hn), h_share, List.flatMap_map, partitionFile]
  simp only [fields_kept]

end Record

namespace Cluster

variable {C : Cluster Node} {U : Unicode} {nodesArg : Str} {limit : ℤ}
  {inputs : List (Option Str)} {out : Output} {ids : Node → Str} {nodes : List Node}
  {strtod : Str → Option ℚ} {path : Node → Str} {rs : List Record}

/-- **From raw files to the answer of a query.** Let `partition_data.py` have gone through some
raw files for the ids of a tree's nodes, let the rows it has kept be those of the records `rs`,
and let each node have loaded its file. In every run of the portal in which results fit into
the buffers and nothing disturbs the requests, a query without a box and without a cap is
answered with the records that the plain filter lets through. -/
theorem raw_files_answered (htree : C.overlay.IsTree)
    (hself : C.overlay.selfRoute ∉ C.overlay.nodes)
    (hmain : main U nodesArg limit inputs = some (out, none))
    (hrecords : inputs.flatMap (keptRows U limit) = rs.map Record.kept)
    (hids : Function.Injective ids) (hnodes : nodes.map ids = nodeIds U nodesArg)
    (hperm : nodes.Perm C.overlay.nodes)
    (hload : ∀ n ∈ C.overlay.nodes,
      PartitionStore.load strtod (path n) (some (out.files (ids n))) = some (.ok (C.store n)))
    {s : PortalState Node} (h : C.machine.Reachable C.Calm s) {a : Active Node}
    (ha : a ∈ s.requests) (hgeo : a.spec.useGeoBox = false) (hcap : a.spec.maxRows = 0)
    (hb : 0 ≤ a.spec.borough ∧ a.spec.borough ≤ 5) :
    ∀ f ∈ a.state.store.fetches, f.pc = .answered → f.rsp.final = true →
      (Request.returned a.state.store).Perm
        ((rs.map fun r => r.loaded strtod).filter a.spec.admits) := by
  obtain ⟨h_ne, ks, h_writes⟩ := main_writes hmain
  -- what the script has written is the partition file of each node
  have h_kept : ks = rs.map Record.kept := (h_writes.all rfl).trans hrecords
  have h_files : out.Holds (nodes.map ids) (rs.map Record.kept) := by
    rw [hnodes, ← h_kept]
    exact h_writes.holds h_ne
  -- so the nodes hold the records, as for a dataset that is given as such
  have h_holds : C.Holds strtod path nodes rs :=
    { perm := hperm
      load := fun n hn => by
        rw [← Record.file_eq hids h_files (hperm.mem_iff.mpr hn)]
        exact hload n hn }
  intro f hf hpc hfinal
  exact ((AnswersInv.reachable htree hself h).requests a ha |>.returned_perm hf hpc hfinal).trans
    (h_holds.result_perm hgeo hcap hb)

/-- The ids of three nodes, as the scripts get them. -/
def idOf : Overlay.Id3 → Str
  | .a => "A".toList
  | .b => "B".toList
  | .c => "C".toList
  | .self => "__self__".toList
  | .cache => "__cache__".toList

/-- A raw file with the two records, and a row that is skipped. -/
def rawRecords : Str :=
  "Unique Key,Created Date,Complaint Type,Borough\n1000000,2023-01-01,Rodent,QUEENS\n".toList ++
    ",,,\n1000001,01/01/2023,Rodent,BRONX\n".toList

theorem idOf_injective : Function.Injective idOf := by
  intro n m
  cases n <;> cases m <;> decide

/-- The script goes through the raw file, and the portal returns its two records. -/
theorem raw_files_answered_two : ∃ s out, spread.machine.Reachable spread.Calm s ∧
    main .ascii "A,B,C".toList 0 [some rawRecords] = some (out, none) ∧
    ∃ a ∈ s.requests, a.state.store.registered = false ∧ (Request.returned a.state.store).Perm
      ((twoRecords.map fun r => r.loaded fun _ => none).filter a.spec.admits) := by
  have h_none : (main .ascii "A,B,C".toList 0 [some rawRecords]).map Prod.snd = some none := by
    decide +kernel
  obtain ⟨⟨out, e⟩, h_main, rfl⟩ := Option.map_eq_some_iff.mp h_none
  have h_records : [some rawRecords].flatMap (keptRows .ascii 0) = twoRecords.map Record.kept := by
    decide +kernel
  have h_ids : [Overlay.Id3.a, .b, .c].map idOf = nodeIds .ascii "A,B,C".toList := by
    decide
  -- the files are those that the nodes have loaded
  have h_files : out.Holds ([Overlay.Id3.a, .b, .c].map idOf) (twoRecords.map Record.kept) := by
    obtain ⟨h_ne, ks, h_writes⟩ := main_writes h_main
    rw [h_ids, ← h_records, ← show ks = _ from h_writes.all rfl]
    exact h_writes.holds h_ne
  obtain ⟨s, h_s, a, ha, h_spec, hgone, f, hf, hpc, hfinal⟩ := spread_run
  refine ⟨s, out, h_s, h_main, a, ha, hgone, ?_⟩
  have h_load : ∀ n ∈ spread.overlay.nodes, PartitionStore.load (fun _ => none) []
      (some (out.files (idOf n))) = some (.ok (spread.store n)) := by
    intro n hn
    rw [Record.file_eq idOf_injective h_files (spread_holds.perm.mem_iff.mpr hn)]
    exact spread_holds.load n hn
  exact raw_files_answered Overlay.chain_isTree (by decide) h_main h_records idOf_injective h_ids
    spread_holds.perm h_load h_s ha (by rw [h_spec]; rfl) (by rw [h_spec]; rfl)
    (by rw [h_spec]; decide) f hf hpc hfinal

end Cluster
end Mini2
