import Mini2.Query.Scan
import Mini2.Store.PartitionStore

/-!
# The query engine

`QueryEngine::run` gathers one candidate list for each predicate that an index can
answer, intersects them from the smallest on, and hands the surviving rows to the
sink chunk by chunk. Without candidate lists it goes through all rows.

* `Gathers` — the candidates of a row are the predicates that hold of it.
* `emitLoop_rows` — what the loop hands over: rows up to the first outside the box,
  and no more than the cap.
* `run_rows` — hence the rows of a run.
-/

namespace Mini2

open Framework

/-- `std::sort` by size: any arrangement in ascending order of sizes. -/
structure SizeSort where
  sort {α : Type} : List (List α) → List (List α)
  perm {α : Type} (l : List (List α)) : (sort l).Perm l
  sorted {α : Type} (l : List (List α)) : (sort l).Pairwise fun a b => a.length ≤ b.length

/-- The arrangement that leaves lists of one size in their order. -/
def SizeSort.stable : SizeSort where
  sort l := l.insertionSort fun a b => a.length ≤ b.length
  perm l := List.perm_insertionSort _ l
  sorted {α} l := by
    have h_total : Std.Total fun a b : List α => a.length ≤ b.length :=
      ⟨fun a b => le_total a.length b.length⟩
    have h_trans : IsTrans (List α) fun a b => a.length ≤ b.length := ⟨fun _ _ _ => le_trans⟩
    exact List.pairwise_insertionSort _ l

namespace QueryEngine

/-! ### Candidates -/

/-- Why the gathering of candidates ends early. -/
inductive Stop
  /-- Some predicate holds of no row. -/
  | noRows
  /-- The lookup of the box is undefined. -/
  | undefined
  deriving DecidableEq

/-- Add the rows of one predicate, if there are any. -/
def addCandidate {α : Type} (v : Option (List α)) (cands : List (List α)) :
    Except Stop (List (List α)) :=
  if v.getD [] = [] then .error .noRows else .ok (cands ++ [v.getD []])

/-- Add the rows of one predicate, unless it holds of all rows. -/
def addUnless {α : Type} (any : Prop) [Decidable any] (v : Option (List α))
    (cands : List (List α)) : Except Stop (List (List α)) :=
  if any then .ok cands else addCandidate v cands

variable (store : PartitionStore) (q : QuerySpec)

/-- The row has the borough that the code reads in the query. -/
def boroughHit (r : Row311) : Bool := q.borough = 0 || fromProto q.borough = some r.borough

/-- The row satisfies every predicate but the box, as the indices answer them. -/
def indexHit (r : Row311) : Bool := boroughHit q r && q.complaintOk r && q.dateOk r

/-- A query for one of the six boroughs means what the code reads. -/
theorem indexHit_eq {q : QuerySpec} (hb : 0 ≤ q.borough ∧ q.borough ≤ 5) :
    indexHit q = q.indexedOk := by
  funext r
  unfold indexHit QuerySpec.indexedOk boroughHit QuerySpec.boroughOk
  rw [decide_eq_decide.mpr (fromProto_eq_some hb)]

/-- The candidates of the predicates other than the box. -/
def gatherIndexed : Except Stop (List (List (Fin store.n))) := do
  let cands ←
    addUnless (q.borough = 0) ((fromProto q.borough).bind store.indices.boroughRows) []
  let cands ← addUnless (q.complaintType = []) (store.indices.complaintRows q.complaintType) cands
  addUnless (q.dateFrom = 0 ∧ q.dateTo = 0)
    (some (store.indices.dateRange q.dateFrom q.dateTo)) cands

/-- The candidates of all predicates. -/
def gather : Except Stop (List (List (Fin store.n))) := do
  let cands ← gatherIndexed store q
  if q.useGeoBox then
    match store.indices.geoBox q.minLat q.maxLat q.minLon q.maxLon with
    | some v => addCandidate (some v) cands
    | none => .error .undefined
  else .ok cands

/-! ### Chunks -/

/-- What has been handed to the sink, and the rows of the chunk under way. -/
structure Emitted where
  chunk : List Row311
  produced : ℕ
  sunk : List (SinkCall Row311)

/-- All rows so far. -/
def Emitted.rows (e : Emitted) : List Row311 := e.sunk.flatMap SinkCall.rows ++ e.chunk

/-- `emit_one`, which also tells whether to go on. -/
def emitOne (chunkRows : ℕ) (r : Row311) (e : Emitted) : Emitted × Bool :=
  if q.useGeoBox && !q.inBox r then (e, false)
  else
    let chunk := e.chunk ++ [r]
    let produced := e.produced + 1
    (if chunk.length ≥ chunkRows then ⟨[], produced, e.sunk ++ [⟨chunk, false⟩]⟩
      else ⟨chunk, produced, e.sunk⟩,
      q.maxRows = 0 || produced < q.maxRows.toNat)

/-- The emit loop from position `k` on. The cancel flag is polled at every 1024th
position. -/
def emitLoop (chunkRows : ℕ) (isCanceled : ℕ → Bool) : ℕ → List Row311 → Emitted → Emitted
  | _, [], e => e
  | k, r :: rs, e =>
    if k % 1024 = 0 && isCanceled k then e
    else
      let next := emitOne q chunkRows r e
      if next.2 then emitLoop chunkRows isCanceled (k + 1) rs next.1 else next.1

/-- The sink calls of a run; none where its behaviour is undefined. -/
def run (sort : SizeSort) (chunkRows : UInt32) (isCanceled : ℕ → Bool) :
    Option (List (SinkCall Row311)) :=
  let chunkRows := if chunkRows = 0 then 512 else chunkRows
  match gather store q with
  | .error .noRows => some [⟨[], true⟩]
  | .error .undefined => none
  | .ok cands =>
    let ids :=
      match sort.sort cands with
      | [] => store.ids
      | work :: cands => intersectAll work cands
    let e := emitLoop q chunkRows.toNat isCanceled 0 (ids.map store.row) ⟨[], 0, []⟩
    some (e.sunk ++ [⟨e.chunk, true⟩])

/-! ### What is gathered -/

/-- The candidates come from `rows`, and a row is in all of them when `p` holds of
it; when the gathering has ended early, `p` holds of no row. -/
def Gathers {ι : Type} (rows : List ι) (x : Except Stop (List (List ι))) (p : ι → Bool) : Prop :=
  match x with
  | .ok cands => (∀ c ∈ cands, c.Sublist rows) ∧ ∀ i ∈ rows, (∀ c ∈ cands, i ∈ c) ↔ p i
  | .error .noRows => ∀ i ∈ rows, p i = false
  | .error .undefined => False

section Next

variable {ι : Type} {rows : List ι} {x : Except Stop (List (List ι))} {p r : ι → Bool}
  {A : Prop} [Decidable A] {v : Option (List ι)}

/-- **Each candidate adds its predicate.** -/
theorem Gathers.addCandidate (h : Gathers rows x p) (hv : v.getD [] = rows.filter r) :
    Gathers rows (x >>= addCandidate v) fun i => p i && r i := by
  match x, h with
  | .error .noRows, h => exact fun i hi => by simp [h i hi]
  | .ok cands, ⟨h_sub, h_mem⟩ =>
    change Gathers rows (QueryEngine.addCandidate v cands) _
    unfold QueryEngine.addCandidate
    rw [hv]
    split
    · next hnil => exact fun i hi => by simp [List.filter_eq_nil_iff.mp hnil i hi]
    · refine ⟨List.forall_mem_append.mpr ⟨h_sub, ?_⟩, fun i hi => ?_⟩
      · exact fun c hc => List.mem_singleton.mp hc ▸ List.filter_sublist
      · rw [List.forall_mem_append, h_mem i hi, Bool.and_eq_true]
        simp [hi]

theorem Gathers.addUnless (h : Gathers rows x p) (hany : A → ∀ i ∈ rows, r i)
    (hv : ¬ A → v.getD [] = rows.filter r) :
    Gathers rows (x >>= addUnless A v) fun i => p i && r i := by
  by_cases ha : A
  · -- the filter is off, and no list is added
    have h_same : x >>= QueryEngine.addUnless A v = x := by
      match x with
      | .error _ => rfl
      | .ok cands => exact if_pos ha
    rw [h_same]
    match x, h with
    | .error .noRows, h => exact fun i hi => by simp [h i hi]
    | .ok cands, ⟨h_sub, h_mem⟩ => exact ⟨h_sub, fun i hi => by simp [h_mem i hi, hany ha i hi]⟩
  · have h_add : x >>= QueryEngine.addUnless A v = x >>= QueryEngine.addCandidate v := by
      match x with
      | .error _ => rfl
      | .ok cands => exact if_neg ha
    rw [h_add]
    exact h.addCandidate (hv ha)

/-- When a candidate ends the gathering over some rows. -/
theorem Gathers.addUnless_eq_noRows (h : Gathers rows x p) (hrows : rows ≠ [])
    (hany : A → ∀ i ∈ rows, r i) (hv : ¬ A → v.getD [] = rows.filter r) :
    x >>= QueryEngine.addUnless A v = .error .noRows ↔
      x = .error .noRows ∨ ∀ i ∈ rows, r i = false := by
  have h_nil : rows.filter r = [] ↔ ∀ i ∈ rows, r i = false := by
    simp [List.filter_eq_nil_iff]
  match x, h with
  | .error .noRows, h => exact iff_of_true rfl (Or.inl rfl)
  | .ok cands, _ =>
    change QueryEngine.addUnless A v cands = _ ↔ _
    unfold QueryEngine.addUnless QueryEngine.addCandidate
    rw [← h_nil]
    split
    · -- a predicate that is not asked for holds of all rows
      next ha => simp [List.filter_eq_self.mpr (hany ha), hrows]
    · next ha =>
      rw [hv ha]
      split
      · next hnil => simp [hnil]
      · next hnil => simp [hnil]

end Next

section Gathered

variable {store : PartitionStore} {q : QuerySpec}

theorem gatherIndexed_eq : gatherIndexed store q =
    (((.ok [] : Except Stop _) >>=
        addUnless (q.borough = 0) ((fromProto q.borough).bind store.indices.boroughRows)) >>=
      addUnless (q.complaintType = []) (store.indices.complaintRows q.complaintType)) >>=
      addUnless (q.dateFrom = 0 ∧ q.dateTo = 0)
        (some (store.indices.dateRange q.dateFrom q.dateTo)) := by
  rw [bind_assoc]
  rfl

theorem rows_borough (h : ¬ q.borough = 0) :
    ((fromProto q.borough).bind store.indices.boroughRows).getD [] =
      store.ids.filter fun i => boroughHit q (store.row i) := by
  unfold boroughHit
  simp only [decide_eq_false h, Bool.false_or]
  cases hproto : fromProto q.borough with
  | none => simp
  | some b =>
    rw [Option.bind_some, Indices.rows_borough store.built]
    exact List.filter_congr fun i _ =>
      decide_eq_decide.mpr (eq_comm.trans Option.some_inj.symm)

theorem rows_complaint (h : ¬ q.complaintType = []) :
    (store.indices.complaintRows q.complaintType).getD [] =
      store.ids.filter fun i => q.complaintOk (store.row i) := by
  rw [Indices.rows_complaint store.built]
  refine List.filter_congr fun i _ => ?_
  rw [QuerySpec.complaintOk, List.isEmpty_eq_false_iff.mpr h, Bool.false_or]
  rfl

theorem rows_date : (some (store.indices.dateRange q.dateFrom q.dateTo)).getD [] =
    store.ids.filter fun i => q.dateOk (store.row i) :=
  Indices.dateRange_eq store.built q.dateFrom q.dateTo

theorem boroughHit_any (h : q.borough = 0) (i : Fin store.n) :
    boroughHit q (store.row i) := by
  simp [boroughHit, h]

theorem complaintOk_any (h : q.complaintType = []) (i : Fin store.n) :
    q.complaintOk (store.row i) := by
  simp [QuerySpec.complaintOk, h]

theorem dateOk_any (h : q.dateFrom = 0 ∧ q.dateTo = 0) (i : Fin store.n) :
    q.dateOk (store.row i) := by
  simp [QuerySpec.dateOk, h.1, h.2]

/-- At first every row is a candidate. -/
theorem gathers_nil : Gathers store.ids (.ok []) fun _ => true :=
  ⟨fun _ h => absurd h List.not_mem_nil, fun _ _ => by simp⟩

theorem gathers_borough :
    Gathers store.ids ((.ok [] : Except Stop _) >>=
        addUnless (q.borough = 0) ((fromProto q.borough).bind store.indices.boroughRows))
      fun i => true && boroughHit q (store.row i) :=
  gathers_nil.addUnless (fun h i _ => boroughHit_any h i) rows_borough

variable (store q) in
theorem gathers_complaint :
    Gathers store.ids (((.ok [] : Except Stop _) >>=
        addUnless (q.borough = 0) ((fromProto q.borough).bind store.indices.boroughRows)) >>=
      addUnless (q.complaintType = []) (store.indices.complaintRows q.complaintType))
      fun i => (true && boroughHit q (store.row i)) && q.complaintOk (store.row i) :=
  gathers_borough.addUnless (fun h i _ => complaintOk_any h i) rows_complaint

variable (store q) in
/-- **The indices answer the predicates other than the box.** -/
theorem gathers_indexed :
    Gathers store.ids (gatherIndexed store q) fun i => indexHit q (store.row i) := by
  rw [gatherIndexed_eq]
  have h_date := (gathers_complaint store q).addUnless
    (r := fun i => q.dateOk (store.row i)) (A := q.dateFrom = 0 ∧ q.dateTo = 0)
    (fun h i _ => dateOk_any h i) fun _ => rows_date
  simpa [indexHit] using h_date

/-- When some predicate ends the gathering over some rows. -/
theorem gatherIndexed_eq_noRows (hrows : store.ids ≠ []) :
    gatherIndexed store q = .error .noRows ↔ (∀ i, boroughHit q (store.row i) = false) ∨
      (∀ i, q.complaintOk (store.row i) = false) ∨ ∀ i, q.dateOk (store.row i) = false := by
  rw [gatherIndexed_eq,
    (gathers_complaint store q).addUnless_eq_noRows (r := fun i => q.dateOk (store.row i)) hrows
      (fun h i _ => dateOk_any h i) (fun _ => rows_date),
    gathers_borough.addUnless_eq_noRows hrows (fun h i _ => complaintOk_any h i) rows_complaint,
    gathers_nil.addUnless_eq_noRows hrows (fun h i _ => boroughHit_any h i) rows_borough]
  simp [Columns.mem_ids, or_assoc]

end Gathered

/-! ### What is emitted -/

section Emit

variable {q : QuerySpec} {chunkRows : ℕ}

/-- A row that the box of the query, if it has one, does not reject. -/
def accepts (q : QuerySpec) (r : Row311) : Bool := !q.useGeoBox || q.inBox r

/-- How many rows may still be emitted, of a list of `n`. -/
def room (q : QuerySpec) (produced n : ℕ) : ℕ :=
  if q.maxRows = 0 then n else q.maxRows.toNat - produced

theorem emitOne_reject {r : Row311} {e : Emitted} (h : accepts q r = false) :
    emitOne q chunkRows r e = (e, false) := by
  have h_box : (q.useGeoBox && !q.inBox r) = true := by simpa [accepts] using h
  unfold emitOne
  rw [if_pos h_box]

variable (chunkRows) in
theorem emitOne_accept {r : Row311} {e : Emitted} (h : accepts q r = true) :
    (emitOne q chunkRows r e).1.rows = e.rows ++ [r] ∧
      (emitOne q chunkRows r e).1.produced = e.produced + 1 ∧
      (emitOne q chunkRows r e).2 = (q.maxRows = 0 || e.produced + 1 < q.maxRows.toNat) := by
  have h_box : ¬ (q.useGeoBox && !q.inBox r) = true := by
    simpa [accepts, imp_iff_not_or] using h
  unfold emitOne
  rw [if_neg h_box]
  dsimp only
  split <;> simp [Emitted.rows]

theorem room_succ {produced n : ℕ} (h : q.maxRows = 0 ∨ produced < q.maxRows.toNat) :
    room q produced (n + 1) = room q (produced + 1) n + 1 := by
  unfold room
  split
  · rfl
  · next hne => have := h.resolve_left hne; omega

variable (chunkRows) in
/-- **The loop hands over the rows up to the first that is rejected**, and no more
than the cap. -/
theorem emitLoop_rows (rows : List Row311) (k : ℕ) (e : Emitted)
    (hroom : q.maxRows = 0 ∨ e.produced < q.maxRows.toNat) :
    (emitLoop q chunkRows (fun _ => false) k rows e).rows =
      e.rows ++ (rows.takeWhile (accepts q)).take (room q e.produced rows.length) := by
  induction rows generalizing k e with
  | nil => simp [emitLoop]
  | cons r rows ih =>
    unfold emitLoop
    rw [if_neg (by simp)]
    dsimp only
    cases h : accepts q r with
    | false =>
      rw [emitOne_reject h, List.takeWhile_cons_of_neg (by simp [h])]
      simp
    | true =>
      obtain ⟨h_rows, h_produced, h_go⟩ := emitOne_accept chunkRows (e := e) h
      rw [List.takeWhile_cons_of_pos h, h_go]
      split
      · next hgo =>
        rw [ih _ _ (by rw [h_produced]; simpa using hgo), h_rows, h_produced, List.append_assoc,
          List.length_cons, room_succ hroom, List.take_succ_cons, List.singleton_append]
      · next hgo =>
        -- the cap is reached
        have h_cap : ¬ q.maxRows = 0 ∧ ¬ e.produced + 1 < q.maxRows.toNat := by simpa using hgo
        have h_one : room q e.produced (r :: rows).length = 1 := by
          have := hroom.resolve_left h_cap.1
          rw [room, if_neg h_cap.1]
          omega
        rw [h_rows, h_one, List.take_succ_cons, List.take_zero]

end Emit

/-! ### What a run emits -/

section Run

variable {store : PartitionStore} {q : QuerySpec} {sort : SizeSort} {chunkRows : UInt32}

/-- The rows that survive the intersection. -/
theorem candidates_eq {cands : List (List (Fin store.n))} {p : Fin store.n → Bool}
    (h : Gathers store.ids (.ok cands) p) :
    (match sort.sort cands with
      | [] => store.ids
      | work :: cands => intersectAll work cands) = store.ids.filter p := by
  obtain ⟨h_sub, h_mem⟩ := h
  have h_perm := sort.perm cands
  split
  · next hsort =>
    rw [hsort] at h_perm
    -- without candidates all rows remain
    obtain rfl := h_perm.nil_eq
    exact (List.filter_eq_self.mpr fun i hi => (h_mem i hi).mp (by simp)).symm
  · next work cs hsort =>
    rw [hsort] at h_perm
    -- the order of the lists makes no difference to what they share
    rw [intersectAll_eq store.ids_pairwise fun c hc => h_sub c (h_perm.mem_iff.mp hc)]
    refine List.filter_congr fun i hi => ?_
    rw [Bool.eq_iff_iff, decide_eq_true_iff, ← h_mem i hi]
    exact forall_congr' fun c => imp_congr_left h_perm.mem_iff

variable (sort chunkRows) in
/-- **The rows of a run** that is never canceled: those of the gathered predicate,
up to the first that the box rejects, cut to the cap. -/
theorem run_rows {p : Fin store.n → Bool} (h : Gathers store.ids (gather store q) p) :
    ∃ calls, run store q sort chunkRows (fun _ => false) = some calls ∧
      calls.flatMap SinkCall.rows =
        q.cut (((store.ids.filter p).takeWhile fun i =>
          accepts q (store.row i)).map store.row) := by
  unfold run
  match hgather : gather store q, h with
  | .error .noRows, h =>
    refine ⟨_, rfl, ?_⟩
    -- an index says that there is no such row
    have h_none : store.ids.filter p = [] :=
      List.filter_eq_nil_iff.mpr fun i hi => by simp [h i hi]
    rw [h_none]
    simp [QuerySpec.cut]
  | .ok cands, h =>
    refine ⟨_, rfl, ?_⟩
    -- the lists of the indices are merged to the rows that pass all of them
    rw [candidates_eq h]
    have h_emit := emitLoop_rows (if chunkRows = 0 then 512 else chunkRows).toNat
      ((store.ids.filter p).map store.row) 0 ⟨[], 0, []⟩ q.maxRows_pos
    rw [List.flatMap_append, List.flatMap_singleton]
    refine h_emit.trans ?_
    rw [List.takeWhile_map]
    change ([] ++ []) ++ List.take _ _ = _
    rw [List.append_nil, List.nil_append]
    unfold QuerySpec.cut room
    split
    · -- a cap of zero is none
      refine List.take_of_length_le ?_
      rw [List.length_map, List.length_map]
      exact (List.takeWhile_sublist _).length_le
    · rw [Nat.sub_zero]
      rfl

/-- A query without a box has the candidates of the other predicates. -/
theorem gather_eq_indexed (hgeo : q.useGeoBox = false) :
    gather store q = gatherIndexed store q := by
  unfold gather
  rw [hgeo]
  cases gatherIndexed store q <;> rfl

/-- What a query asks for, as row ids. -/
theorem rows_filter (f : Row311 → Bool) :
    store.rows.filter f = (store.ids.filter fun i => f (store.row i)).map store.row := by
  rw [Columns.rows_eq_map, List.filter_map]
  rfl

/-- Without a box, a run sinks the rows that the indices answer. -/
theorem run_hits (hgeo : q.useGeoBox = false) :
    ∃ calls, run store q sort chunkRows (fun _ => false) = some calls ∧
      calls.flatMap SinkCall.rows = q.cut (store.rows.filter (indexHit q)) := by
  obtain ⟨calls, hcalls, h_rows⟩ :=
    run_rows sort chunkRows (gather_eq_indexed hgeo ▸ gathers_indexed store q)
  refine ⟨calls, hcalls, h_rows.trans ?_⟩
  have h_all : ((store.ids.filter fun i => indexHit q (store.row i)).takeWhile
      fun i => accepts q (store.row i)) = store.ids.filter fun i => indexHit q (store.row i) :=
    List.takeWhile_eq_self_iff.mpr fun i _ => by simp [accepts, hgeo]
  rw [h_all, rows_filter]

/-- **A query without a box is answered by the plain filter**, whatever the other
predicates, the cap and the size of the chunks. -/
theorem run_indexed (store : PartitionStore) (q : QuerySpec) (sort : SizeSort)
    (chunkRows : UInt32) (hgeo : q.useGeoBox = false) (hb : 0 ≤ q.borough ∧ q.borough ≤ 5) :
    ∃ calls, run store q sort chunkRows (fun _ => false) = some calls ∧
      calls.flatMap SinkCall.rows = q.cut (store.rows.filter q.admits) := by
  have h_admits : q.admits = indexHit q := by
    funext r
    simp [QuerySpec.admits, hgeo, indexHit_eq hb]
  rw [h_admits]
  exact run_hits hgeo

/-- Three rows of one neighbourhood, the second a little north of the others. -/
def nearColumns : Columns where
  n := 3
  keys := #v[1, 2, 3]
  dates := #v[20230101, 20230102, 20230103]
  boroughs := #v[.queens, .queens, .bronx]
  lats := #v[40701 / 1000, 40709 / 1000, 40702 / 1000]
  lons := #v[-739 / 10, -739 / 10, -739 / 10]
  complaints := #v["Rodent".toList, "Noise".toList, "Noise".toList]

def nearStore : PartitionStore where
  toColumns := nearColumns
  indices := (Indices.build nearColumns).get (by decide +kernel)
  built := (Option.some_get _).symm

/-- The complaints about noise since the second day. -/
def noiseQuery : QuerySpec where
  borough := 0
  complaintType := "Noise".toList
  dateFrom := 20230102
  dateTo := 0
  minLat := 0
  maxLat := 0
  minLon := 0
  maxLon := 0
  useGeoBox := false
  maxRows := 1

theorem run_indexed_near :
    ∃ calls, run nearStore noiseQuery .stable 0 (fun _ => false) = some calls ∧
      calls.flatMap SinkCall.rows =
        noiseQuery.cut (nearStore.rows.filter noiseQuery.admits) :=
  run_indexed nearStore noiseQuery .stable 0 rfl (by decide)

end Run

/-! ### Runs as scans -/

section Scans

variable {store : PartitionStore} {q : QuerySpec} {sort : SizeSort} {chunkRows : UInt32}
  {isCanceled : ℕ → Bool}

/-- The calls of the loop are not marked as done. -/
theorem emitLoop_sunk (chunkRows k : ℕ) (rows : List Row311) (e : Emitted)
    (h : ∀ c ∈ e.sunk, c.done = false) :
    ∀ c ∈ (emitLoop q chunkRows isCanceled k rows e).sunk, c.done = false := by
  -- one row hands out a full chunk, or nothing
  have h_one : ∀ r e, (∀ c ∈ e.sunk, c.done = false) →
      ∀ c ∈ (emitOne q chunkRows r e).1.sunk, c.done = false := by
    intro r e h
    unfold emitOne
    split
    · exact h
    · dsimp only
      split
      · exact List.forall_mem_append.mpr ⟨h, by simp⟩
      · exact h
  induction rows generalizing k e with
  | nil => exact h
  | cons r rows ih =>
    unfold emitLoop
    split
    · exact h
    · dsimp only
      split
      · exact ih _ _ (h_one r e h)
      · exact h_one r e h

/-- **Exactly the last call of a run is marked as done**, canceled or not. -/
theorem run_shape {calls : List (SinkCall Row311)}
    (h : run store q sort chunkRows isCanceled = some calls) :
    ∃ init last, calls = init ++ [last] ∧ last.done = true ∧ ∀ c ∈ init, c.done = false := by
  unfold run at h
  dsimp only at h
  split at h
  · obtain rfl := Option.some.inj h
    exact ⟨[], ⟨[], true⟩, rfl, rfl, by simp⟩
  · exact absurd h (by simp)
  · obtain rfl := Option.some.inj h
    exact ⟨_, _, rfl, rfl, emitLoop_sunk _ _ _ _ (by simp)⟩

/-- The output of a run that is never canceled. -/
def scan (store : PartitionStore) (q : QuerySpec) (sort : SizeSort) (chunkRows : UInt32) :
    Option (Scan Row311) :=
  match h : run store q sort chunkRows fun _ => false with
  | some calls => some ⟨calls, run_shape h⟩
  | none => none

variable (store q sort chunkRows) in
/-- It consists of the calls of the run. -/
theorem scan_calls : (scan store q sort chunkRows).map Scan.calls =
    run store q sort chunkRows fun _ => false := by
  unfold scan
  split
  · next calls h => exact h.symm
  · next h => exact h.symm

/-- A box that is not used makes no difference. -/
theorem run_box (hgeo : q.useGeoBox = false) (minLat maxLat minLon maxLon : ℚ) :
    run store
      { q with minLat := minLat, maxLat := maxLat, minLon := minLon, maxLon := maxLon } sort
      chunkRows isCanceled = run store q sort chunkRows isCanceled := by
  generalize hbox :
    ({ q with minLat := minLat, maxLat := maxLat, minLon := minLon, maxLon := maxLon } :
      QuerySpec) = q'
  -- neither the candidates nor the loop over them look at the box
  have h_gather : gather store q' = gather store q := by
    subst hbox
    unfold gather
    rw [hgeo]
    rfl
  have h_one : ∀ n r e, emitOne q' n r e = emitOne q n r e := by
    subst hbox
    intro n r e
    simp [emitOne, hgeo]
  have h_loop : ∀ n k rows e, emitLoop q' n isCanceled k rows e =
      emitLoop q n isCanceled k rows e := by
    intro n k rows e
    induction rows generalizing k e with
    | nil => rfl
    | cons r rows ih => simp only [emitLoop, h_one, ih]
  unfold run
  simp only [h_gather, h_loop]

end Scans

end QueryEngine
end Mini2
