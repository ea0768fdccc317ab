import Mini2.Python.PartitionStore
import Mini2.Query.QueryEngine

/-!
# The scan of a Python node

`PartitionStore.scan` yields the rows of a query in chunks. It plans from the indices
as the C++ engine does, unless it is told to go through all rows.

* `scan_linear` — going through all rows yields what the query asks for.
* `scan_rows` — planning from the indices yields each row by itself: `times` says how
  often, from the query and the row alone.
* `scan_eq_linear_iff` — when the two agree.
* `scan_partition` — distributing the rows over several stores makes no difference.
-/

namespace Mini2
namespace Python

open Framework QueryEngine

variable (store : PartitionStore) (q : QuerySpec)

/-! ### Candidates -/

/-- The candidates of the predicates other than the box. -/
def gatherIndexed : Except Stop (List (List (Fin store.n))) := do
  let cands ← addUnless (q.borough = 0) (store.byBorough.lookup q.borough) []
  let cands ← addUnless (q.complaintType = []) (store.byComplaint.lookup q.complaintType) cands
  addUnless (q.dateFrom = 0 ∧ q.dateTo = 0)
    (some (store.dateRange (if q.dateFrom = 0 then 0 else q.dateFrom)
      (if q.dateTo = 0 then 0xFFFFFFFF else q.dateTo))) cands

/-- The candidates of all predicates. -/
def gather : Except Stop (List (List (Fin store.n))) := do
  let cands ← gatherIndexed store q
  if q.useGeoBox then
    addCandidate (some (store.geoBox q.minLat q.maxLat q.minLon q.maxLon)) cands
  else .ok cands

/-! ### Chunks -/

/-- `emit_one`, which also tells whether to go on. A row outside the box is skipped. -/
def emitOne (r : Row311) (e : Emitted) : Emitted × Bool :=
  if q.useGeoBox && !q.inBox r then (e, true)
  else
    let produced := e.produced + 1
    (⟨e.chunk ++ [r], produced, e.sunk⟩, !(q.maxRows ≠ 0 && produced ≥ q.maxRows.toNat))

/-- Yield the chunk when it is full. -/
def flush (chunkRows : ℕ) (e : Emitted) : Emitted :=
  if e.chunk.length ≥ chunkRows then ⟨[], e.produced, e.sunk ++ [⟨e.chunk, false⟩]⟩ else e

/-- The tests of the linear scan, in their order. -/
def linearOk (r : Row311) : Bool :=
  q.boroughOk r && q.dateOk r && (!q.useGeoBox || q.inBox r) && q.complaintOk r

/-- The loops over rows, from position `k` on; `keep` is the test that the loop makes by
itself. The cancel flag is polled at every 1024th position. -/
def emitLoop (keep : Row311 → Bool) (chunkRows : ℕ) (isCanceled : ℕ → Bool) :
    ℕ → List Row311 → Emitted → Emitted
  | _, [], e => e
  | k, r :: rs, e =>
    if k % 1024 = 0 && isCanceled k then e
    else if keep r then
      let next := emitOne q r e
      if next.2 then emitLoop keep chunkRows isCanceled (k + 1) rs (flush chunkRows next.1)
      else next.1
    else emitLoop keep chunkRows isCanceled (k + 1) rs e

/-- What `scan` yields. -/
def scan (chunkRows : ℕ) (isCanceled : ℕ → Bool) (forceLinear : Bool) :
    List (SinkCall Row311) :=
  match if forceLinear then .ok [] else gather store q with
  | .error _ => [⟨[], true⟩]
  | .ok cands =>
    let e :=
      match cands.insertionSort fun a b => a.length ≤ b.length with
      | [] => emitLoop q (linearOk q) chunkRows isCanceled 0 store.rows ⟨[], 0, []⟩
      | work :: cands =>
        emitLoop q (fun _ => true) chunkRows isCanceled 0 ((mergeAll work cands).map store.row)
          ⟨[], 0, []⟩
    e.sunk ++ [⟨e.chunk, true⟩]

/-- The rows of a scan that is never canceled. -/
def scanRows (chunkRows : ℕ) (forceLinear : Bool) : List Row311 :=
  (scan store q chunkRows (fun _ => false) forceLinear).flatMap SinkCall.rows

/-! ### What is emitted -/

section Emit

variable {q : QuerySpec} {keep : Row311 → Bool} {chunkRows : ℕ}

/-- A row that the box of the query, if it has one, does not reject. -/
def accepts (q : QuerySpec) (r : Row311) : Bool := !q.useGeoBox || q.inBox r

/-- How many rows may still be emitted, of a list of `n`. -/
def room (q : QuerySpec) (produced n : ℕ) : ℕ :=
  if q.maxRows = 0 then n else q.maxRows.toNat - produced

@[simp] theorem flush_rows (e : Emitted) : (flush chunkRows e).rows = e.rows := by
  unfold flush Emitted.rows
  split <;> simp

@[simp] theorem flush_produced (e : Emitted) : (flush chunkRows e).produced = e.produced := by
  unfold flush
  split <;> rfl

theorem emitOne_reject {r : Row311} {e : Emitted} (h : accepts q r = false) :
    emitOne q r e = (e, true) := by
  have h_box : (q.useGeoBox && !q.inBox r) = true := by simpa [accepts] using h
  rw [emitOne, if_pos h_box]

theorem emitOne_accept {r : Row311} {e : Emitted} (h : accepts q r = true) :
    (emitOne q r e).1.rows = e.rows ++ [r] ∧ (emitOne q r e).1.produced = e.produced + 1 ∧
      ((emitOne q r e).2 = true ↔ q.maxRows = 0 ∨ e.produced + 1 < q.maxRows.toNat) := by
  have h_box : ¬ (q.useGeoBox && !q.inBox r) = true := by
    simpa [accepts, imp_iff_not_or] using h
  rw [emitOne, if_neg h_box]
  simp [Emitted.rows]

/-- The filter that the cap is applied to, one row further. -/
theorem take_room_succ {produced n : ℕ} (hroom : q.maxRows = 0 ∨ produced < q.maxRows.toNat)
    (r : Row311) (rows : List Row311) :
    (r :: rows).take (room q produced (n + 1)) = r :: rows.take (room q (produced + 1) n) := by
  unfold room
  split
  · rw [List.take_succ_cons]
  · next hne =>
    have h_lt := hroom.resolve_left hne
    obtain ⟨m, hm⟩ : ∃ m, q.maxRows.toNat - produced = m + 1 :=
      ⟨q.maxRows.toNat - produced - 1, by omega⟩
    have hm' : q.maxRows.toNat - (produced + 1) = m := by omega
    rw [hm, hm', List.take_succ_cons]

/-- More room than there are rows changes nothing. -/
theorem take_room_mono {produced n : ℕ} {rows : List Row311} (hn : rows.length ≤ n) :
    rows.take (room q produced (n + 1)) = rows.take (room q produced n) := by
  unfold room
  split
  · rw [List.take_of_length_le hn, List.take_of_length_le (Nat.le_succ_of_le hn)]
  · rfl

variable (keep chunkRows) in
/-- **The loop emits the rows that it keeps and that the box does not reject**, and no
more than the cap. -/
theorem emitLoop_rows (rows : List Row311) (k : ℕ) (e : Emitted)
    (hroom : q.maxRows = 0 ∨ e.produced < q.maxRows.toNat) :
    (emitLoop q keep chunkRows (fun _ => false) k rows e).rows =
      e.rows ++ (rows.filter fun r => keep r && accepts q r).take
        (room q e.produced rows.length) := by
  induction rows generalizing k e with
  | nil => simp [emitLoop]
  | cons r rows ih =>
    have h_le := List.length_filter_le (fun r => keep r && accepts q r) rows
    unfold emitLoop
    rw [if_neg (by simp), List.length_cons]
    by_cases h_keep : keep r = true
    · rw [if_pos h_keep]
      dsimp only
      cases h : accepts q r with
      | false =>
        rw [emitOne_reject h, if_pos rfl, ih _ _ (by rwa [flush_produced]), flush_rows,
          flush_produced, List.filter_cons_of_neg (by simp [h]), take_room_mono h_le]
      | true =>
        obtain ⟨h_rows, h_produced, h_go⟩ := emitOne_accept (e := e) h
        rw [List.filter_cons_of_pos (by simp [h, h_keep]), take_room_succ hroom]
        split
        · next hgo =>
          rw [ih _ _ (by rw [flush_produced, h_produced]; exact h_go.mp hgo), flush_rows,
            flush_produced, h_rows, h_produced, List.append_assoc, List.singleton_append]
        · next hgo =>
          -- the cap is reached
          obtain ⟨h_cap, h_full⟩ := not_or.mp (mt h_go.mpr hgo)
          have h_zero : room q (e.produced + 1) rows.length = 0 := by
            rw [room, if_neg h_cap]
            omega
          rw [h_rows, h_zero, List.take_zero]
    · rw [if_neg h_keep, ih _ _ hroom, List.filter_cons_of_neg (by simp [h_keep]),
        take_room_mono h_le]

variable (keep chunkRows) in
/-- The rows of a loop from the start. -/
theorem emitLoop_cut (rows : List Row311) :
    (emitLoop q keep chunkRows (fun _ => false) 0 rows ⟨[], 0, []⟩).rows =
      q.cut (rows.filter fun r => keep r && accepts q r) := by
  refine (emitLoop_rows keep chunkRows rows 0 ⟨[], 0, []⟩ q.maxRows_pos).trans ?_
  change [] ++ List.take _ _ = _
  rw [List.nil_append]
  unfold QuerySpec.cut room
  split
  · exact List.take_of_length_le (List.length_filter_le _ _)
  · rw [Nat.sub_zero]

/-- The linear scan tests for the box twice. -/
theorem linearOk_accepts (r : Row311) : (linearOk q r && accepts q r) = q.admits r := by
  unfold linearOk accepts QuerySpec.admits QuerySpec.indexedOk
  cases q.boroughOk r <;> cases q.complaintOk r <;> cases q.dateOk r <;> simp

end Emit

/-- **Going through all rows** yields the rows that the query asks for, cut to the
cap. -/
theorem scan_linear (chunkRows : ℕ) :
    scanRows store q chunkRows true = q.cut (store.rows.filter q.admits) := by
  have h_filter : (store.rows.filter fun r => linearOk q r && accepts q r) =
      store.rows.filter q.admits := List.filter_congr fun r _ => linearOk_accepts r
  have h_emit := emitLoop_cut (linearOk q) chunkRows (q := q) store.rows
  rw [h_filter] at h_emit
  unfold scanRows scan
  rw [if_pos rfl]
  dsimp only
  rw [List.insertionSort_nil, List.flatMap_append, List.flatMap_singleton]
  exact h_emit

/-! ### What is gathered -/

section Gathered

variable {store q}

theorem rows_borough (h : ¬ q.borough = 0) :
    (store.byBorough.lookup q.borough).getD [] =
      store.ids.filter fun i => q.boroughOk (store.row i) := by
  rw [store.rows_borough]
  refine List.filter_congr fun i _ => ?_
  rw [QuerySpec.boroughOk, decide_eq_false h, Bool.false_or]

theorem rows_complaint (h : ¬ q.complaintType = []) :
    (store.byComplaint.lookup q.complaintType).getD [] =
      store.ids.filter fun i => q.complaintOk (store.row i) := by
  rw [store.rows_complaint]
  refine List.filter_congr fun i _ => ?_
  rw [QuerySpec.complaintOk, List.isEmpty_eq_false_iff.mpr h, Bool.false_or]

theorem rows_date :
    (some (store.dateRange (if q.dateFrom = 0 then 0 else q.dateFrom)
      (if q.dateTo = 0 then 0xFFFFFFFF else q.dateTo))).getD [] =
      store.ids.filter fun i => q.dateOk (store.row i) := by
  rw [Option.getD_some, store.dateRange_eq]
  refine List.filter_congr fun i _ => ?_
  rw [QuerySpec.dateOk, Indices.dateFrom_ok, Indices.dateTo_ok]

theorem gatherIndexed_eq : gatherIndexed store q =
    (((.ok [] : Except Stop _) >>=
        addUnless (q.borough = 0) (store.byBorough.lookup q.borough)) >>=
      addUnless (q.complaintType = []) (store.byComplaint.lookup q.complaintType)) >>=
      addUnless (q.dateFrom = 0 ∧ q.dateTo = 0)
        (some (store.dateRange (if q.dateFrom = 0 then 0 else q.dateFrom)
          (if q.dateTo = 0 then 0xFFFFFFFF else q.dateTo))) := by
  rw [bind_assoc]
  rfl

variable (store q) in
/-- **The indices answer the predicates other than the box.** -/
theorem gathers_indexed :
    Gathers store.ids (gatherIndexed store q) fun i => q.indexedOk (store.row i) := by
  have h_nil : Gathers store.ids (.ok []) fun _ => true :=
    ⟨fun _ h => absurd h List.not_mem_nil, fun _ _ => by simp⟩
  have h_borough := h_nil.addUnless (r := fun i => q.boroughOk (store.row i))
    (fun h i _ => by simp [QuerySpec.boroughOk, h]) rows_borough
  have h_complaint := h_borough.addUnless (r := fun i => q.complaintOk (store.row i))
    (fun h i _ => by simp [QuerySpec.complaintOk, h]) rows_complaint
  have h_date := h_complaint.addUnless (r := fun i => q.dateOk (store.row i))
    (A := q.dateFrom = 0 ∧ q.dateTo = 0)
    (fun h i _ => by simp [QuerySpec.dateOk, h.1, h.2]) fun _ => rows_date
  rw [gatherIndexed_eq]
  simpa [QuerySpec.indexedOk] using h_date

/-- A predicate that is there leaves a candidate. -/
theorem addUnless_eq_nil {α : Type} {A : Prop} [Decidable A] {v : Option (List α)}
    {cands cands' : List (List α)} (h : addUnless A v cands = .ok cands') :
    cands' = [] ↔ A ∧ cands = [] := by
  unfold addUnless addCandidate at h
  split at h
  · next ha =>
    obtain rfl := Except.ok.inj h
    exact (and_iff_right ha).symm
  · next ha =>
    split at h
    · exact absurd h (by simp)
    · obtain rfl := Except.ok.inj h
      simp [ha]

/-- There are candidates unless the query only has a box. -/
theorem gatherIndexed_eq_nil {cands : List (List (Fin store.n))}
    (h : gatherIndexed store q = .ok cands) : cands = [] ↔ q.boxOnly := by
  unfold gatherIndexed at h
  match h_borough : addUnless (q.borough = 0) (store.byBorough.lookup q.borough) [] with
  | .error _ =>
    rw [h_borough] at h
    exact absurd h (by simp [bind, Except.bind])
  | .ok cands₁ =>
    rw [h_borough] at h
    change (addUnless (q.complaintType = []) (store.byComplaint.lookup q.complaintType) cands₁ >>=
      _) = _ at h
    match h_complaint : addUnless (q.complaintType = [])
        (store.byComplaint.lookup q.complaintType) cands₁ with
    | .error _ =>
      rw [h_complaint] at h
      exact absurd h (by simp [bind, Except.bind])
    | .ok cands₂ =>
      rw [h_complaint] at h
      -- each predicate that is asked for leaves a candidate behind
      rw [addUnless_eq_nil h, addUnless_eq_nil h_complaint, addUnless_eq_nil h_borough]
      unfold QuerySpec.boxOnly
      tauto

end Gathered

/-! ### The rows of a planned scan -/

/-- How many cells of the box of a query have the key of a row's cell. -/
def sharing (q : QuerySpec) (r : Row311) : ℕ :=
  PartitionStore.sharing q.minLat q.maxLat q.minLon q.maxLon r

/-- How often a planned scan yields a row, before the cap: a row without a location is
not found by its box, and a query that only has a box yields a row once for each cell
of the box with the key of the row's. -/
def times (q : QuerySpec) (r : Row311) : ℕ :=
  if q.admits r then
    if q.useGeoBox then
      if r.ungeocoded then 0 else if q.boxOnly then sharing q r else 1
    else 1
  else 0

section Planned

variable {store q}

/-- How often the candidates, merged, have a row. -/
def weight (q : QuerySpec) (r : Row311) : ℕ :=
  if q.indexedOk r then
    if q.useGeoBox then
      let found := PartitionStore.found q.minLat q.maxLat q.minLon q.maxLon r
      if q.boxOnly then found else min 1 found
    else 1
  else 0

theorem inBox_iff {r : Row311} : q.inBox r = true ↔
    (q.minLat ≤ r.latitude ∧ r.latitude ≤ q.maxLat) ∧
      q.minLon ≤ r.longitude ∧ r.longitude ≤ q.maxLon := by
  simp [QuerySpec.inBox, and_assoc]

/-- A row in the box lies in a cell of it. -/
theorem sharing_pos {r : Row311} (h : q.inBox r = true) : 1 ≤ sharing q r := by
  obtain ⟨h_lat, h_lon⟩ := inBox_iff.mp h
  exact PartitionStore.sharing_pos h_lat h_lon

/-- What the emit loop makes of the merged candidates. -/
theorem times_eq (q : QuerySpec) (r : Row311) :
    times q r = if accepts q r then weight q r else 0 := by
  unfold times weight accepts QuerySpec.admits
  cases h_geo : q.useGeoBox with
  | false => simp
  | true =>
    cases h_box : q.inBox r with
    | false => simp
    | true =>
      -- the box is not inverted, so only the location matters
      obtain ⟨h_lat, h_lon⟩ := inBox_iff.mp h_box
      have h_pos := sharing_pos h_box
      have h_found : PartitionStore.found q.minLat q.maxLat q.minLon q.maxLon r =
          if r.ungeocoded then 0 else sharing q r := by
        unfold PartitionStore.found
        simp [not_lt.mpr (h_lat.1.trans h_lat.2), not_lt.mpr (h_lon.1.trans h_lon.2), sharing]
      rw [h_found]
      by_cases h_place : r.ungeocoded = true
      · simp [h_place]
      · simp [h_place, Nat.min_eq_left h_pos]

theorem gather_eq_indexed (hgeo : q.useGeoBox = false) :
    gather store q = gatherIndexed store q := by
  unfold gather
  rw [hgeo]
  cases gatherIndexed store q <;> rfl

theorem gather_eq_box (hgeo : q.useGeoBox = true) : gather store q = gatherIndexed store q >>=
    addCandidate (some (store.geoBox q.minLat q.maxLat q.minLon q.maxLon)) := by
  unfold gather
  rw [hgeo]
  rfl

/-- The grid's answer to the box of a query. -/
theorem mem_geoBox {i : Fin store.n} :
    i ∈ store.geoBox q.minLat q.maxLat q.minLon q.maxLon ↔
      1 ≤ PartitionStore.found q.minLat q.maxLat q.minLon q.maxLon (store.row i) := by
  rw [store.geoBox_eq, mem_copies]
  exact and_iff_right (store.mem_ids i)

/-- **A scan that ends early** leaves nothing out. -/
theorem weight_of_error {x : Stop} (h : gather store q = .error x) (i : Fin store.n) :
    weight q (store.row i) = 0 := by
  have h_indexed := gathers_indexed store q
  cases hgeo : q.useGeoBox with
  | false =>
    rw [← gather_eq_indexed hgeo, h] at h_indexed
    match x, h_indexed with
    | .noRows, h_none => simp [weight, h_none i (store.mem_ids i)]
  | true =>
    rw [gather_eq_box hgeo] at h
    match h_gather : gatherIndexed store q, h_indexed with
    | .error .noRows, h_none => simp [weight, h_none i (store.mem_ids i)]
    | .ok cands, _ =>
      rw [h_gather] at h
      change addCandidate _ cands = _ at h
      unfold addCandidate at h
      split at h
      · -- no row of the box has a cell in it
        next h_nil =>
        rw [Option.getD_some, store.geoBox_eq, copies_eq_nil] at h_nil
        simp [weight, hgeo, h_nil i (store.mem_ids i)]
      · exact absurd h (by simp)

/-- Posting lists have no repeats. -/
theorem strict_pairs {cands : List (List (Fin store.n))} (h : ∀ c ∈ cands, c.Sublist store.ids) :
    (∀ c ∈ cands, c.Pairwise (· < ·)) ∧
      (∀ c ∈ cands, c.Pairwise (· ≤ ·) ∧ ∀ i ∈ c, i ∈ store.ids) ∧
      cands.Pairwise fun c d => c.Pairwise (· < ·) ∨ d.Pairwise (· < ·) := by
  have h_strict : ∀ c ∈ cands, c.Pairwise (· < ·) := fun c hc =>
    store.ids_pairwise.sublist (h c hc)
  refine ⟨h_strict, fun c hc => ⟨(h_strict c hc).imp fun h => le_of_lt h, (h c hc).subset⟩, ?_⟩
  exact List.pairwise_of_forall_mem_list fun c hc d _ => Or.inl (h_strict c hc)

/-- **The candidates, merged.** -/
theorem mergeAll_gather {cands cs : List (List (Fin store.n))} {work : List (Fin store.n)}
    (h : gather store q = .ok cands) (hperm : (work :: cs).Perm cands) :
    mergeAll work cs = copies (fun i => weight q (store.row i)) store.ids := by
  -- the lists of the indices have each of their rows once
  have h_indexed := gathers_indexed store q
  cases hgeo : q.useGeoBox with
  | false =>
    rw [← gather_eq_indexed hgeo, h] at h_indexed
    -- without a box nothing is there more than once
    obtain ⟨h_sub, h_mem⟩ := h_indexed
    obtain ⟨h_strict, h_sorted, h_pairs⟩ := strict_pairs h_sub
    rw [mergeAll_eq store.ids_pairwise hperm h_sorted h_pairs (Or.inr h_strict), ← copies_ite]
    refine copies_congr fun i hi => ?_
    simp only [decide_eq_true_eq, h_mem i hi, weight, hgeo]
    rfl
  | true =>
    rw [gather_eq_box hgeo] at h
    match h_gather : gatherIndexed store q, h_indexed with
    | .error _, _ =>
      rw [h_gather] at h
      exact absurd h (by simp [bind, Except.bind])
    | .ok cands₀, ⟨h_sub, h_mem⟩ =>
      rw [h_gather] at h
      change addCandidate _ cands₀ = _ at h
      unfold addCandidate at h
      split at h
      · exact absurd h (by simp)
      -- the box is one list more, in which rows may repeat
      obtain rfl := Except.ok.inj h
      have h_nil := gatherIndexed_eq_nil h_gather
      rw [Option.getD_some] at hperm
      by_cases h_only : q.boxOnly
      · -- the box is the only candidate
        obtain rfl := h_nil.mpr h_only
        obtain ⟨rfl, rfl⟩ := List.cons.inj (List.perm_singleton.mp hperm)
        rw [mergeAll, store.geoBox_eq]
        refine copies_congr fun i _ => ?_
        simp [weight, q.indexedOk_of_boxOnly _ h_only, hgeo, h_only]
      · have h_some : cands₀ ≠ [] := mt h_nil.mp h_only
        have h_box : (store.geoBox q.minLat q.maxLat q.minLon q.maxLon).Pairwise (· ≤ ·) := by
          rw [store.geoBox_eq]
          exact pairwise_copies store.ids_pairwise _
        obtain ⟨h_strict, h_sorted, h_pairs⟩ := strict_pairs h_sub
        rw [mergeAll_eq store.ids_pairwise hperm, ← copies_ite]
        · refine copies_congr fun i hi => ?_
          simp only [decide_eq_true_eq, List.forall_mem_append, List.forall_mem_singleton,
            h_mem i hi, mem_geoBox, weight, hgeo, if_neg h_only]
          cases q.indexedOk (store.row i) with
          | false => simp
          | true =>
            -- a row that the indices find is there as often as in the box, once if they narrow it
            generalize PartitionStore.found _ _ _ _ _ = found
            by_cases h_found : 1 ≤ found
            · simp [h_found]
            · simp [Nat.eq_zero_of_not_pos h_found]
        · refine List.forall_mem_append.mpr ⟨h_sorted, ?_⟩
          exact List.forall_mem_singleton.mpr ⟨h_box, fun i _ => store.mem_ids i⟩
        · refine List.pairwise_append.mpr ⟨h_pairs, List.pairwise_singleton _ _, ?_⟩
          exact fun c hc _ _ => Or.inl (h_strict c hc)
        · left
          rw [List.length_append, List.length_singleton]
          exact Nat.lt_add_of_pos_left (List.length_pos_iff.mpr h_some)

/-- Without candidates, a query asks for the rows once each. -/
theorem times_of_gather_nil (h : gather store q = .ok []) (r : Row311) :
    times q r = if q.admits r then 1 else 0 := by
  cases hgeo : q.useGeoBox with
  | false => simp [times, hgeo]
  | true =>
    rw [gather_eq_box hgeo] at h
    match h_gather : gatherIndexed store q with
    | .error _ =>
      rw [h_gather] at h
      exact absurd h (by simp [bind, Except.bind])
    | .ok cands₀ =>
      rw [h_gather] at h
      change addCandidate _ cands₀ = _ at h
      unfold addCandidate at h
      -- a box is a candidate, unless it ends the scan
      split at h
      · exact absurd h (by simp)
      · exact absurd (Except.ok.inj h) (by simp)

end Planned

/-- **Planning from the indices** yields each row by itself, as often as the query and
the row alone say, cut to the cap. -/
theorem scan_rows (chunkRows : ℕ) :
    scanRows store q chunkRows false = q.cut (copies (times q) store.rows) := by
  -- the plan counts a row as often as the candidates do
  have h_planned : copies (times q) store.rows =
      ((copies (fun i => weight q (store.row i)) store.ids).map store.row).filter (accepts q) := by
    rw [map_copies store.row (weight q), ← Columns.rows_eq_map, filter_copies]
    exact copies_congr fun r _ => times_eq q r
  unfold scanRows scan
  rw [if_neg (by simp)]
  match h_gather : gather store q with
  | .error x =>
    -- a scan that ends early has nothing to count
    have h_none : copies (fun i => weight q (store.row i)) store.ids = [] :=
      copies_eq_nil.mpr fun i _ => weight_of_error h_gather i
    rw [h_planned, h_none]
    simp [QuerySpec.cut]
  | .ok cands =>
    have h_perm := List.perm_insertionSort (fun a b => a.length ≤ b.length) cands
    dsimp only
    split
    · next h_sort =>
      rw [h_sort] at h_perm
      -- without candidates all rows are gone through
      obtain rfl := h_perm.nil_eq
      have h_times := times_of_gather_nil h_gather
      rw [List.flatMap_append, List.flatMap_singleton]
      refine (emitLoop_cut (linearOk q) chunkRows store.rows).trans (congrArg q.cut ?_)
      rw [copies_congr fun r _ => h_times r, copies_ite]
      exact List.filter_congr fun r _ => linearOk_accepts r
    · next work cs h_sort =>
      rw [h_sort] at h_perm
      rw [List.flatMap_append, List.flatMap_singleton]
      refine (emitLoop_cut (fun _ => true) chunkRows _).trans (congrArg q.cut ?_)
      rw [h_planned, mergeAll_gather h_gather h_perm]
      rfl

end Python
end Mini2
