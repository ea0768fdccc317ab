import Mini2.Portal.QueryCache
import Mini2.Python.Scan

/-!
# What a cache key covers

The cache gives one client the rows of another's query when `specEqual` holds of the two
specifications. That is safe since neither engine reads more of a specification than
`specEqual` compares: the bounds of a box, which it passes over when there is no box, are
not read then either.
-/

namespace Mini2

open Framework

namespace QuerySpec

/-- The specification with other bounds for its box. -/
def withBounds (q bounds : QuerySpec) : QuerySpec :=
  { q with
    minLat := bounds.minLat, maxLat := bounds.maxLat
    minLon := bounds.minLon, maxLon := bounds.maxLon }

end QuerySpec

/-- Equal specifications differ in the bounds of a box that is not used. -/
theorem QueryCache.eq_withBounds {a b : QuerySpec} (h : QueryCache.specEqual a b = true) :
    a = b ∨ a.useGeoBox = false ∧ b = a.withBounds b := by
  rw [QueryCache.specEqual_iff] at h
  obtain ⟨_, _, _, _, _, _, _, _, geo, _⟩ := a
  obtain ⟨_, _, _, _, _, _, _, _, geo', _⟩ := b
  -- with a box, all bounds are compared
  cases geo <;> cases geo' <;> simp_all [QueryCache.key, QuerySpec.withBounds]

namespace Python

variable {store : PartitionStore} {q : QuerySpec}

/-- The candidates of a query without a box do not depend on its bounds. -/
theorem gather_withBounds (hgeo : q.useGeoBox = false) (bounds : QuerySpec) :
    gather store (q.withBounds bounds) = gather store q := by
  have hgeo' : (q.withBounds bounds).useGeoBox = false := hgeo
  -- the box is the only index that knows the bounds
  rw [gather_eq_indexed hgeo, gather_eq_indexed hgeo']
  rfl

theorem emitOne_withBounds (hgeo : q.useGeoBox = false) (bounds : QuerySpec) (r : Row311)
    (e : QueryEngine.Emitted) : emitOne (q.withBounds bounds) r e = emitOne q r e := by
  have hgeo' : (q.withBounds bounds).useGeoBox = false := hgeo
  unfold emitOne
  rw [hgeo, hgeo']
  rfl

theorem linearOk_withBounds (hgeo : q.useGeoBox = false) (bounds : QuerySpec) :
    linearOk (q.withBounds bounds) = linearOk q := by
  have hgeo' : (q.withBounds bounds).useGeoBox = false := hgeo
  funext r
  unfold linearOk
  rw [hgeo, hgeo']
  rfl

theorem emitLoop_withBounds (hgeo : q.useGeoBox = false) (bounds : QuerySpec)
    (keep : Row311 → Bool) (chunkRows : ℕ) (isCanceled : ℕ → Bool) (k : ℕ) (rows : List Row311)
    (e : QueryEngine.Emitted) :
    emitLoop (q.withBounds bounds) keep chunkRows isCanceled k rows e =
      emitLoop q keep chunkRows isCanceled k rows e := by
  induction rows generalizing k e with
  | nil => rfl
  | cons r rows ih =>
    unfold emitLoop
    -- neither the poll nor the cap looks at the bounds
    rw [emitOne_withBounds hgeo]
    simp only [ih]

/-- A scan does not read the bounds of a box that is not used. -/
theorem scan_withBounds (hgeo : q.useGeoBox = false) (bounds : QuerySpec) (chunkRows : ℕ)
    (isCanceled : ℕ → Bool) (forceLinear : Bool) :
    scan store (q.withBounds bounds) chunkRows isCanceled forceLinear =
      scan store q chunkRows isCanceled forceLinear := by
  unfold scan
  rw [gather_withBounds hgeo, linearOk_withBounds hgeo]
  simp only [emitLoop_withBounds hgeo]

end Python

/-- **The cache key covers what the engines read.** Specifications that are equal to the
cache make both engines emit the same chunks, on every store, with every size of chunks and
whenever the query is canceled. -/
theorem runs_eq_of_specEqual {a b : QuerySpec} (h : QueryCache.specEqual a b = true) :
    (∀ store sort chunkRows isCanceled,
      QueryEngine.run store a sort chunkRows isCanceled =
        QueryEngine.run store b sort chunkRows isCanceled) ∧
    ∀ store chunkRows isCanceled forceLinear,
      Python.scan store a chunkRows isCanceled forceLinear =
        Python.scan store b chunkRows isCanceled forceLinear := by
  rcases QueryCache.eq_withBounds h with rfl | ⟨hgeo, hb⟩
  · exact ⟨fun _ _ _ _ => rfl, fun _ _ _ _ => rfl⟩
  · rw [hb]
    refine ⟨fun store sort chunkRows isCanceled => ?_, fun store chunkRows isCanceled linear => ?_⟩
    · -- the C++ engine has been shown to pass over the box in just this case
      exact (QueryEngine.run_box hgeo _ _ _ _).symm
    · exact (Python.scan_withBounds hgeo b chunkRows isCanceled linear).symm

/-- Bounds that are not used make no difference to a query for noise. -/
theorem runs_eq_of_specEqual_noise :
    QueryEngine.run QueryEngine.nearStore QueryEngine.noiseQuery .stable 1 (fun _ => false) =
      QueryEngine.run QueryEngine.nearStore { QueryEngine.noiseQuery with maxLat := 41 } .stable 1
        fun _ => false :=
  (runs_eq_of_specEqual (by decide)).1 QueryEngine.nearStore .stable 1 fun _ => false

end Mini2
