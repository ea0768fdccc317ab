import Mini2.Query.QueryEngine

/-!
# Queries with a box

The grid answers a box by the rows in the cells that overlap it, so the emit loop
compares each row with the box itself. Two things keep the answer from being the
filter by the box:

* `emit_one` answers `false` for a row outside the box, and the loop takes that for
  the reached cap: it stops at the first such row.
* The grid leaves out the rows at (0, 0).

`run_geo_iff` says exactly when neither shows. Besides, the lookup of the box is
undefined, or throws, when the numbers of its cells do not fit.
-/

namespace Mini2
namespace QueryEngine

open Framework

section Geo

variable {store : PartitionStore} {q : QuerySpec} {sort : SizeSort} {chunkRows : UInt32}

/-- The rows that the grid finds for the box of a query. -/
def reached (store : PartitionStore) (q : QuerySpec) (i : Fin store.n) : Bool :=
  (q.minLat ≤ q.maxLat && q.minLon ≤ q.maxLon) && (!Indices.ungeocoded store.toColumns i &&
    Indices.overlaps q.minLat q.maxLat q.minLon q.maxLon store.toColumns i)

/-- The lookup of the box of a query goes through. -/
def BoxFound (store : PartitionStore) (q : QuerySpec) : Prop :=
  (∀ i, Indices.ungeocoded store.toColumns i = true) ∨ q.maxLat < q.minLat ∨ q.maxLon < q.minLon ∨
    Indices.BoxFits store.indices q.minLat q.maxLat q.minLon q.maxLon

/-- Some predicate other than the box holds of no row by itself. -/
def Short (store : PartitionStore) (q : QuerySpec) : Prop :=
  (∀ i, boroughHit q (store.row i) = false) ∨ (∀ i, q.complaintOk (store.row i) = false) ∨
    ∀ i, q.dateOk (store.row i) = false

/-- A row in the box lies in a cell that overlaps it. -/
theorem reached_of_inBox {i : Fin store.n} (h : q.inBox (store.row i) = true) :
    reached store q i = !Indices.ungeocoded store.toColumns i := by
  simp only [QuerySpec.inBox, Bool.and_eq_true, decide_eq_true_eq] at h
  obtain ⟨⟨⟨h₁, h₂⟩, h₃⟩, h₄⟩ := h
  have h_overlaps :
      Indices.overlaps q.minLat q.maxLat q.minLon q.maxLon store.toColumns i = true := by
    simp only [Indices.overlaps, Bool.and_eq_true, decide_eq_true_eq]
    exact ⟨⟨Indices.cell_mono h₁, Indices.cell_mono h₂⟩, Indices.cell_mono h₃, Indices.cell_mono h₄⟩
  simp [reached, h_overlaps, h₁.trans h₂, h₃.trans h₄]

/-- **What the lookup of the box returns**, if it goes through. -/
theorem geoBox_found (h : BoxFound store q) :
    store.indices.geoBox q.minLat q.maxLat q.minLon q.maxLon =
      some (store.ids.filter (reached store q)) := by
  have h_none : (∀ i, reached store q i = false) → store.ids.filter (reached store q) = [] :=
    fun h => List.filter_eq_nil_iff.mpr fun i _ => by simp [h i]
  by_cases hgrid : store.indices.byCell.keys = []
  · -- nothing is on the grid
    have h_place := (Indices.keys_byCell store.built).mp hgrid
    rw [Indices.geoBox, if_pos hgrid, h_none fun i => by simp [reached, h_place i]]
  · by_cases hbox : q.minLat > q.maxLat ∨ q.minLon > q.maxLon
    · -- the bounds cross
      rw [Indices.geoBox, if_neg hgrid, if_pos hbox, h_none fun i => ?_]
      rcases hbox with h | h <;> simp [reached, not_le.mpr h]
    · -- otherwise the cells of the box are looked up
      obtain ⟨hlat, hlon⟩ : q.minLat ≤ q.maxLat ∧ q.minLon ≤ q.maxLon := by
        simpa [not_or] using hbox
      refine (Indices.geoBox_eq_some store.built hgrid hlat hlon).mpr ⟨?_, ?_⟩
      · rcases h with h | h | h | h
        · exact absurd ((Indices.keys_byCell store.built).mpr h) hgrid
        · exact absurd hlat (not_le.mpr h)
        · exact absurd hlon (not_le.mpr h)
        · exact h
      · refine List.filter_congr fun i _ => ?_
        simp [reached, hlat, hlon]

/-- Otherwise it returns nothing. -/
theorem geoBox_undefined (h : ¬ BoxFound store q) :
    store.indices.geoBox q.minLat q.maxLat q.minLon q.maxLon = none := by
  obtain ⟨h_place, h_lat, h_lon, h_fits⟩ : _ ∧ _ ∧ _ ∧ _ := by
    simpa only [BoxFound, not_or] using h
  refine Option.eq_none_iff_forall_ne_some.mpr fun out hout => h_fits ?_
  exact ((Indices.geoBox_eq_some store.built
    (fun hgrid => h_place ((Indices.keys_byCell store.built).mp hgrid)) (not_lt.mp h_lat)
    (not_lt.mp h_lon)).mp hout).1

/-! ### The candidates of a query with a box -/

/-- Without rows there is nothing to look up. -/
theorem gatherIndexed_ne_undefined : gatherIndexed store q ≠ .error .undefined := by
  intro h
  have h_gathers := gathers_indexed store q
  rw [h] at h_gathers
  exact h_gathers

/-- **The grid answers the box**, unless a predicate before it ends the gathering. -/
theorem gathers_geo (hgeo : q.useGeoBox = true) (h : Short store q ∨ BoxFound store q) :
    Gathers store.ids (gather store q)
      fun i => indexHit q (store.row i) && reached store q i := by
  have h_indexed := gathers_indexed store q
  by_cases hbox : BoxFound store q
  · have h_gather : gather store q =
        gatherIndexed store q >>= addCandidate (some (store.ids.filter (reached store q))) := by
      unfold gather
      rw [hgeo, geoBox_found hbox]
      rfl
    rw [h_gather]
    exact h_indexed.addCandidate rfl
  · -- it does not; then the gathering has come to its end before it
    have h_rows : store.ids ≠ [] := by
      intro hids
      refine hbox (Or.inl fun i => ?_)
      exact absurd (store.mem_ids i) (hids ▸ List.not_mem_nil)
    have h_noRows : gatherIndexed store q = .error .noRows :=
      (gatherIndexed_eq_noRows h_rows).mpr (h.resolve_right hbox)
    -- the box goes through, and is one candidate more
    have h_gather : gather store q = .error .noRows := by
      unfold gather
      rw [h_noRows]
      rfl
    rw [h_noRows] at h_indexed
    rw [h_gather]
    exact fun i hi => by simp [h_indexed i hi]

/-- The lookup of a box whose cells do not fit is undefined. -/
theorem gather_undefined (hgeo : q.useGeoBox = true) (h : ¬ (Short store q ∨ BoxFound store q)) :
    gather store q = .error .undefined := by
  obtain ⟨h_short, h_box⟩ := not_or.mp h
  have h_rows : store.ids ≠ [] := fun hids =>
    h_box (Or.inl fun i => absurd (store.mem_ids i) (hids ▸ List.not_mem_nil))
  unfold gather
  match hx : gatherIndexed store q with
  | .error .noRows => exact absurd ((gatherIndexed_eq_noRows h_rows).mp hx) h_short
  | .error .undefined => exact absurd hx gatherIndexed_ne_undefined
  | .ok cands =>
    rw [hgeo, geoBox_undefined h_box]
    rfl

/-- A run that looks it up has no defined result. -/
theorem run_undefined (hgeo : q.useGeoBox = true) (h : ¬ (Short store q ∨ BoxFound store q)) :
    run store q sort chunkRows (fun _ => false) = none := by
  unfold run
  rw [gather_undefined hgeo h]

/-! ### What a query with a box emits -/

/-- Each row asked for, within the cap, has a location, and so has no row before it
that the grid finds with the other predicates but that lies outside the box. -/
def GeoExact (store : PartitionStore) (q : QuerySpec) : Prop :=
  ∀ i ∈ q.cut (store.ids.filter fun i => q.admits (store.row i)),
    Indices.ungeocoded store.toColumns i = false ∧
      ∀ j < i, q.indexedOk (store.row j) → reached store q j → q.inBox (store.row j)

/-- The rows that a query with a box hands over, before the cap. -/
def emitted (store : PartitionStore) (q : QuerySpec) : List (Fin store.n) :=
  (store.ids.filter fun i => indexHit q (store.row i) && reached store q i).takeWhile
    fun i => q.inBox (store.row i)

variable (store) in
/-- They are the first rows asked for that have a location. -/
theorem emitted_start (hgeo : q.useGeoBox = true) (hb : 0 ≤ q.borough ∧ q.borough ≤ 5) :
    emitted store q <+: (store.ids.filter fun i => q.admits (store.row i)).filter
      fun i => !Indices.ungeocoded store.toColumns i := by
  -- all that is emitted is within the box
  have h_filter : (emitted store q).filter (fun i => q.inBox (store.row i)) = emitted store q := by
    unfold emitted
    exact List.filter_eq_self.mpr fun i hi =>
      List.mem_takeWhile_imp (p := fun i => q.inBox (store.row i)) hi
  -- within the box a row is reached if it is on the grid
  have h_box : ((store.ids.filter fun i => indexHit q (store.row i) && reached store q i).filter
      fun i => q.inBox (store.row i)) =
      (store.ids.filter fun i => q.admits (store.row i)).filter
        fun i => !Indices.ungeocoded store.toColumns i := by
    rw [List.filter_filter, List.filter_filter]
    refine List.filter_congr fun i _ => ?_
    cases hbox : q.inBox (store.row i) with
    | false => simp [QuerySpec.admits, hgeo, hbox]
    | true =>
      simp [QuerySpec.admits, hgeo, hbox, reached_of_inBox hbox, indexHit_eq hb, Bool.and_comm]
  rw [← h_filter, ← h_box]
  exact (List.takeWhile_prefix _).filter _

/-- When a row asked for is handed over. -/
theorem mem_emitted {i : Fin store.n} (hgeo : q.useGeoBox = true)
    (hb : 0 ≤ q.borough ∧ q.borough ≤ 5) (hi : q.admits (store.row i) = true) :
    i ∈ emitted store q ↔ Indices.ungeocoded store.toColumns i = false ∧
      ∀ j < i, q.indexedOk (store.row j) → reached store q j → q.inBox (store.row j) := by
  obtain ⟨h_indexed, h_box⟩ : q.indexedOk (store.row i) = true ∧ q.inBox (store.row i) = true := by
    simpa [QuerySpec.admits, hgeo] using hi
  unfold emitted
  rw [indexHit_eq hb, mem_takeWhile_iff (store.ids_pairwise.filter _)]
  simp only [List.mem_filter, Columns.mem_ids, true_and, Bool.and_eq_true, h_indexed,
    reached_of_inBox h_box, Bool.not_eq_true']
  refine and_congr_right fun _ => ⟨fun h j hj h₁ h₂ => h j ⟨h₁, h₂⟩ hj.le, fun h j hj hle => ?_⟩
  rcases hle.lt_or_eq with hlt | rfl
  · exact h j hlt hj.1 hj.2
  · exact h_box

/-- **A query with a box is answered by the plain filter** exactly if its box can be
looked up and every row asked for is on the grid, before any that is only near. -/
theorem run_geo_iff (store : PartitionStore) (q : QuerySpec) (sort : SizeSort)
    (chunkRows : UInt32) (hgeo : q.useGeoBox = true) (hb : 0 ≤ q.borough ∧ q.borough ≤ 5) :
    (∃ calls, run store q sort chunkRows (fun _ => false) = some calls ∧
      calls.flatMap SinkCall.rows = q.cut (store.rows.filter q.admits)) ↔
    (Short store q ∨ BoxFound store q) ∧ GeoExact store q := by
  by_cases h : Short store q ∨ BoxFound store q
  -- where the lookup is undefined, nothing is returned
  swap
  · rw [run_undefined hgeo h]
    simp [h]
  obtain ⟨calls, hcalls, h_rows⟩ :=
    run_rows sort chunkRows (gathers_geo hgeo h)
  have h_accepts : accepts q = q.inBox := by
    funext r
    simp [accepts, hgeo]
  -- what is emitted starts with the rows that are asked for
  have h_start := emitted_start store hgeo hb
  -- equal rows have equal places, so that either all of them are on the grid or none
  have h_place : ∀ i j, store.row i = store.row j →
      (!Indices.ungeocoded store.toColumns i) = !Indices.ungeocoded store.toColumns j := by
    intro i j heq
    have h_lat : store.lats.get i = store.lats.get j := congrArg Row311.latitude heq
    have h_lon : store.lons.get i = store.lons.get j := congrArg Row311.longitude heq
    unfold Indices.ungeocoded
    rw [h_lat, h_lon]
  have h_ids : store.ids.Nodup := store.ids_pairwise.imp fun h => ne_of_lt h
  rw [hcalls]
  simp only [Option.some.injEq, exists_eq_left', h, true_and, h_rows, rows_filter, h_accepts]
  change q.cut ((emitted store q).map store.row) = _ ↔ _
  -- both sides are cut to the cap; the ids make the comparison one of places
  rw [QuerySpec.cut_map, QuerySpec.cut_map, q.cut_eq_take (h_start.length_le.trans
      (List.length_filter_le _ _)), q.cut_eq_take le_rfl,
    take_map_eq_iff (h_ids.filter _) h_start h_place, ← q.cut_eq_take le_rfl]
  refine forall₂_congr fun i hi => mem_emitted hgeo hb ?_
  exact (List.mem_filter.mp (q.mem_of_mem_cut hi)).2

/-- The rows in a box around the first and third row of `nearStore`. -/
def boxQuery (maxLat : ℚ) : QuerySpec :=
  { noiseQuery with
    complaintType := [], dateFrom := 0, maxRows := 0, useGeoBox := true
    minLat := 407 / 10, maxLat := maxLat, minLon := -73905 / 1000, maxLon := -73895 / 1000 }

/-- A box that holds the second row too is answered exactly. -/
theorem run_geo_iff_wide :
    ∃ calls, run nearStore (boxQuery (4071 / 100)) .stable 0 (fun _ => false) = some calls ∧
      calls.flatMap SinkCall.rows =
        (boxQuery (4071 / 100)).cut (nearStore.rows.filter (boxQuery (4071 / 100)).admits) := by
  refine (run_geo_iff nearStore (boxQuery (4071 / 100)) .stable 0 rfl (by decide)).mpr
    ⟨Or.inr ?_, ?_⟩
  · exact Or.inr (Or.inr (Or.inr ⟨by decide +kernel, by decide +kernel, by decide +kernel⟩))
  · unfold GeoExact
    decide +kernel

/-- One that leaves it out is not: the loop stops there. -/
theorem run_geo_near :
    ¬ ∃ calls, run nearStore (boxQuery (40705 / 1000)) .stable 0 (fun _ => false) = some calls ∧
      calls.flatMap SinkCall.rows =
        (boxQuery (40705 / 1000)).cut (nearStore.rows.filter (boxQuery (40705 / 1000)).admits) := by
  rintro ⟨calls, hcalls, h_rows⟩
  have h_run : run nearStore (boxQuery (40705 / 1000)) .stable 0 (fun _ => false) =
      some [⟨[nearColumns.row (0 : Fin 3)], true⟩] := by decide +kernel
  rw [h_run, Option.some.injEq] at hcalls
  subst hcalls
  revert h_rows
  decide +kernel

end Geo

end QueryEngine
end Mini2
