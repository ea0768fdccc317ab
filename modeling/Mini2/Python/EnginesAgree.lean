import Mini2.Python.Scan

/-!
# Queries without a box on both engines

The C++ engine casts the borough of a query to 8 bits before it looks it up, and the
Python engine does not. A query that names a number from 0 to 255 means the same to
both; any other number means a borough to C++ and none to Python
(`engines_agree_iff`).
-/

namespace Mini2
namespace Python

open Framework QueryEngine

variable {q : QuerySpec}

/-- A number of 8 bits is read as it is. -/
theorem fromProto_eq_some_byte {b : ℤ} (hb : 0 ≤ b ∧ b ≤ 255) {borough : Borough} :
    fromProto b = some borough ↔ borough.code = b := by
  by_cases h : b ≤ 5
  · exact fromProto_eq_some ⟨hb.1, h⟩
  · -- from 6 on it is none of the boroughs, cast or not
    have h_code : borough.code ≤ 5 := by cases borough <;> decide
    have h_none : fromProto b = none := by
      have h_mod : b % 256 = b := Int.emod_eq_of_lt hb.1 (by omega)
      unfold fromProto
      split <;> first | omega | rfl
    rw [h_none]
    exact iff_of_false (by simp) (by omega)

theorem indexHit_eq_byte (hb : 0 ≤ q.borough ∧ q.borough ≤ 255) : indexHit q = q.indexedOk := by
  funext r
  unfold indexHit QuerySpec.indexedOk boroughHit QuerySpec.boroughOk
  rw [decide_eq_decide.mpr (fromProto_eq_some_byte hb)]

/-- Beyond, no row has the borough. -/
theorem indexedOk_eq_false (hb : ¬ (0 ≤ q.borough ∧ q.borough ≤ 255)) (r : Row311) :
    q.indexedOk r = false := by
  have h_code : 0 ≤ r.borough.code ∧ r.borough.code ≤ 5 := by
    cases r.borough <;> decide
  have h_borough : q.boroughOk r = false := by
    simp only [QuerySpec.boroughOk, Bool.or_eq_false_iff, decide_eq_false_iff_not]
    omega
  simp [QuerySpec.indexedOk, h_borough]

/-- The row has the borough that is left of the query's number in 8 bits, and satisfies the
other predicates. -/
def CastHit (q : QuerySpec) (r : Row311) : Prop :=
  fromProto q.borough = some r.borough ∧ q.complaintOk r ∧ q.dateOk r

theorem castHit_iff (hb : q.borough ≠ 0) {r : Row311} : CastHit q r ↔ indexHit q r = true := by
  simp [CastHit, indexHit, boroughHit, hb, and_assoc]

/-- Without a box, a scan yields the rows that satisfy the predicates. -/
theorem scan_indexed {store : PartitionStore} (hgeo : q.useGeoBox = false) (chunkRows : ℕ) :
    scanRows store q chunkRows false = q.cut (store.rows.filter q.indexedOk) := by
  rw [scan_rows, ← copies_ite]
  refine congrArg q.cut (copies_congr fun r _ => ?_)
  simp [times, QuerySpec.admits, hgeo]

/-- **Both engines answer a query without a box alike**, over the same columns, exactly if its
borough is a number of 8 bits or no row is what the cast makes of the query. -/
theorem engines_agree_iff (store : Mini2.PartitionStore) (q : QuerySpec) (sort : SizeSort)
    (chunkRows : UInt32) (hgeo : q.useGeoBox = false) :
    (∃ calls, QueryEngine.run store q sort chunkRows (fun _ => false) = some calls ∧
      calls.flatMap SinkCall.rows =
        scanRows (.buildIndices store.toColumns) q chunkRows.toNat false) ↔
    (0 ≤ q.borough ∧ q.borough ≤ 255) ∨ ∀ r ∈ store.rows, ¬ CastHit q r := by
  have h_run : ∃ calls, QueryEngine.run store q sort chunkRows (fun _ => false) = some calls ∧
      calls.flatMap SinkCall.rows = q.cut (store.rows.filter (indexHit q)) := run_hits hgeo
  obtain ⟨calls, h_calls, h_rows⟩ := h_run
  rw [scan_indexed hgeo, h_calls]
  simp only [Option.some.injEq, exists_eq_left', h_rows]
  change _ = q.cut (store.rows.filter q.indexedOk) ↔ _
  by_cases hb : 0 ≤ q.borough ∧ q.borough ≤ 255
  · rw [indexHit_eq_byte hb]
    exact iff_of_true rfl (Or.inl hb)
  · -- Python finds nothing, so C++ must find nothing either
    have h_none : store.rows.filter q.indexedOk = [] :=
      List.filter_eq_nil_iff.mpr fun r _ => by simp [indexedOk_eq_false hb r]
    have h_zero : q.borough ≠ 0 := by omega
    rw [h_none, q.cut_eq_nil.mpr rfl, q.cut_eq_nil, List.filter_eq_nil_iff, or_iff_right hb]
    exact forall₂_congr fun r _ => not_congr (castHit_iff h_zero).symm

/-- The rows of Queens, asked for by its number. -/
def queensQuery (borough : ℤ) : QuerySpec :=
  { noiseQuery with borough := borough, complaintType := [], dateFrom := 0, maxRows := 0 }

theorem engines_agree_queens :
    ∃ calls, QueryEngine.run nearStore (queensQuery 3) .stable 1 (fun _ => false) = some calls ∧
      calls.flatMap SinkCall.rows =
        scanRows (.buildIndices nearStore.toColumns) (queensQuery 3) 1 false :=
  (engines_agree_iff nearStore (queensQuery 3) .stable 1 rfl).mpr (Or.inl (by decide))

/-- With 256 more, C++ finds the same rows and Python none. -/
theorem engines_differ :
    ¬ ∃ calls, QueryEngine.run nearStore (queensQuery 259) .stable 1 (fun _ => false) =
        some calls ∧
      calls.flatMap SinkCall.rows =
        scanRows (.buildIndices nearStore.toColumns) (queensQuery 259) 1 false := by
  rintro ⟨calls, h_calls, h_rows⟩
  have h_run : QueryEngine.run nearStore (queensQuery 259) .stable 1 (fun _ => false) =
      some [⟨[nearColumns.row (0 : Fin 3)], false⟩, ⟨[nearColumns.row (1 : Fin 3)], false⟩,
        ⟨[], true⟩] := by decide +kernel
  rw [h_run, Option.some.injEq] at h_calls
  subst h_calls
  revert h_rows
  decide +kernel

end Python
end Mini2
