import Mini2.Portal.Pacing

/-!
# The pacing of a Python portal

`_RequestState.record_fetch` moves the chunk size in unbounded integers and clamps it on
the side it moves to only. Between limits that keep the 32 bits of the C++ portal from
wrapping, both portals suggest the same sizes for ever (`paces_agree`).
-/

namespace Mini2
namespace Python

/-- `_RequestState`, less what pacing does not read. -/
structure RequestState where
  suggestedChunk : ℤ
  minChunk : ℤ
  maxChunk : ℤ
  ewmaFetchMs : ℚ

namespace RequestState

/-- `__init__` -/
def create (initChunk minChunk maxChunk : ℤ) : RequestState where
  suggestedChunk := initChunk
  minChunk := minChunk
  maxChunk := maxChunk
  ewmaFetchMs := 100

variable (st : RequestState)

/-- `record_fetch`, `dt` milliseconds after the fetch before. -/
def recordFetch (dt : ℚ) : RequestState :=
  let dtMs := max (1 / 10) dt
  let ewma := 7 / 10 * st.ewmaFetchMs + 3 / 10 * dtMs
  { st with
    ewmaFetchMs := ewma
    suggestedChunk :=
      if ewma < 20 then min st.maxChunk (st.suggestedChunk + st.suggestedChunk / 4 + 1)
      else if ewma > 500 then max st.minChunk (st.suggestedChunk - st.suggestedChunk / 4 - 1)
      else st.suggestedChunk }

/-- The state after a sequence of fetches, given by the times between them. -/
def fetched (dts : List ℚ) : RequestState := dts.foldl recordFetch st

theorem recordFetch_ewmaFetchMs (dt : ℚ) :
    (st.recordFetch dt).ewmaFetchMs = nextEwma st.ewmaFetchMs dt := by
  change 7 / 10 * st.ewmaFetchMs + 3 / 10 * max (1 / 10) dt = _
  rw [nextEwma, max_def]
  split <;> split <;> first | rfl | (congr 2; linarith)

/-- **One step of the chunk size**, from one within the limits. -/
theorem recordFetch_suggestedChunk {lo hi s : ℕ} (hmin : st.minChunk = lo) (hmax : st.maxChunk = hi)
    (hsize : st.suggestedChunk = s) (hlo : lo ≤ s) (hhi : s ≤ hi) (dt : ℚ) :
    (st.recordFetch dt).suggestedChunk =
      (clamp lo hi ((Pace.ofEwma (nextEwma st.ewmaFetchMs dt)).move s) : ℕ) := by
  rw [← recordFetch_ewmaFetchMs]
  change (if (st.recordFetch dt).ewmaFetchMs < 20 then
      min st.maxChunk (st.suggestedChunk + st.suggestedChunk / 4 + 1)
    else if (st.recordFetch dt).ewmaFetchMs > 500 then
      max st.minChunk (st.suggestedChunk - st.suggestedChunk / 4 - 1)
    else st.suggestedChunk) = _
  -- the three branches are the three paces
  rw [hmin, hmax, hsize]
  unfold Pace.ofEwma clamp
  split
  · simp only [Pace.move]
    omega
  · split
    · simp only [Pace.move]
      omega
    · simp only [Pace.move]
      omega

end RequestState

/-! ### Both portals -/

/-- The sizes next to `s` fit 32 bits, on the way to them too. -/
def StepFits (s : UInt32) : Prop :=
  s.toNat + s.toNat / 4 + 1 < 2 ^ 32 ∧ s.toNat / 4 + 1 ≤ s.toNat

/-- The two portals are in step, within the limits. -/
structure InStep {Node Row : Type*} (lo hi : ℕ) (cpp : Mini2.RequestState Node Row)
    (py : RequestState) : Prop where
  minChunk : cpp.minChunk.toNat = lo ∧ py.minChunk = lo
  maxChunk : cpp.maxChunk.toNat = hi ∧ py.maxChunk = hi
  ewma : cpp.ewmaFetchMs = py.ewmaFetchMs
  size : py.suggestedChunk = cpp.suggestedChunk.toNat
  min_le : lo ≤ cpp.suggestedChunk.toNat
  le_max : cpp.suggestedChunk.toNat ≤ hi

section InStep

variable {Node Row : Type*} {lo hi : ℕ} {cpp : Mini2.RequestState Node Row} {py : RequestState}

/-- Limits below three thousand millions leave room for a step. -/
theorem InStep.fits (h : InStep lo hi cpp py) (hlo : 1 ≤ lo) (hhi : hi ≤ 3000000000) :
    StepFits cpp.suggestedChunk := by
  have h_min := h.min_le
  have h_max := h.le_max
  unfold StepFits
  omega

/-- A fetch keeps the portals in step. -/
theorem InStep.step (h : InStep lo hi cpp py) (hlo : 1 ≤ lo) (hhi : hi ≤ 3000000000) (dt : ℚ) :
    InStep lo hi (cpp.recordFetch dt) (py.recordFetch dt) := by
  obtain ⟨h_cpp, h_py⟩ := h.minChunk
  obtain ⟨h_cpp', h_py'⟩ := h.maxChunk
  have h_min := h.min_le
  have h_max := h.le_max
  have h_le : cpp.minChunk ≤ cpp.maxChunk := by
    rw [UInt32.le_iff_toNat_le]
    omega
  have h_next := cpp.recordFetch_toNat h_le dt
  rw [h_cpp, h_cpp', Pace.moveU32_eq cpp.suggestedChunk.toNat_lt
    (fun _ => by unfold wrapChunk; omega) (fun _ => by omega)] at h_next
  -- within these limits the C++ step does not wrap
  have h_range : lo ≤ (cpp.recordFetch dt).suggestedChunk.toNat ∧
      (cpp.recordFetch dt).suggestedChunk.toNat ≤ hi := by
    rw [h_next, clamp]
    omega
  refine ⟨⟨h_cpp, h_py⟩, ⟨h_cpp', h_py'⟩, ?_, ?_, h_range.1, h_range.2⟩
  · rw [py.recordFetch_ewmaFetchMs, ← h.ewma]
    rfl
  · rw [py.recordFetch_suggestedChunk h_py h_py' h.size h_min h_max, h_next, ← h.ewma]
    rfl

/-- **A run of fetches** keeps them in step. -/
theorem InStep.fetched (h : InStep lo hi cpp py) (hlo : 1 ≤ lo) (hhi : hi ≤ 3000000000)
    (dts : List ℚ) : InStep lo hi (cpp.fetched dts) (py.fetched dts) := by
  induction dts generalizing cpp py with
  | nil => exact h
  | cons dt dts ih => exact ih (h.step hlo hhi dt)

/-- **Both portals pace clients identically**: after every run of fetches they suggest the
same chunk size, within the limits, and no step from it wraps. -/
theorem paces_agree (params : RequestParams) (expected : ℕ)
    (hlo : 1 ≤ params.minChunkRows.toNat)
    (hmin : params.minChunkRows.toNat ≤ params.initialChunkRows.toNat)
    (hmax : params.initialChunkRows.toNat ≤ params.maxChunkRows.toNat)
    (hhi : params.maxChunkRows.toNat ≤ 3000000000) (dts : List ℚ) :
    let cpp : Mini2.RequestState Node Row := (Mini2.RequestState.create params expected).fetched dts
    let py := (RequestState.create params.initialChunkRows.toNat params.minChunkRows.toNat
      params.maxChunkRows.toNat).fetched dts
    py.suggestedChunk = cpp.suggestedChunk.toNat ∧ params.minChunkRows ≤ cpp.suggestedChunk ∧
      cpp.suggestedChunk ≤ params.maxChunkRows ∧ StepFits cpp.suggestedChunk := by
  have h_start : InStep params.minChunkRows.toNat params.maxChunkRows.toNat
      (Mini2.RequestState.create params expected : Mini2.RequestState Node Row)
      (.create params.initialChunkRows.toNat params.minChunkRows.toNat
        params.maxChunkRows.toNat) :=
    ⟨⟨rfl, rfl⟩, ⟨rfl, rfl⟩, rfl, rfl, hmin, hmax⟩
  have h_run := h_start.fetched hlo hhi dts
  exact ⟨h_run.size, UInt32.le_iff_toNat_le.mpr h_run.min_le,
    UInt32.le_iff_toNat_le.mpr h_run.le_max, h_run.fits hlo hhi⟩

/-- The sizes of a configuration that sets none of them, after a fast and a slow fetch. -/
theorem paces_agree_default :
    ((RequestState.create 512 64 4096).fetched [10, 2000]).suggestedChunk =
      ((Mini2.RequestState.create .default 1 :
        Mini2.RequestState Unit Unit).fetched [10, 2000]).suggestedChunk.toNat :=
  (paces_agree .default 1 (by decide) (by decide) (by decide) (by decide) [10, 2000]).1

end InStep

end Python
end Mini2
