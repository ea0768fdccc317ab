import Mathlib.Tactic.Linarith
import Mini2.Portal.RequestRegistry

/-!
# Adaptive chunk sizes

`RequestState::recordFetch` follows the time between the fetches of a client by a
running mean and moves the suggested chunk size: up by a quarter and one where the
client is fast, down by as much where it is slow, within the configured limits.

The moves are meant as moves of natural numbers (`Pace.move`), but the code takes them
in 32 bits (`Pace.moveU32`), where a step down from zero and a step up from
`wrapChunk` on come out at the other end. `paced_iff` says for which configured values
no run of fetches meets one of them.
-/

namespace Mini2

/-! ### Paces -/

/-- What the running mean says about the client. -/
inductive Pace
  | fast
  | neutral
  | slow
  deriving DecidableEq

namespace Pace

/-- The pace of a client whose fetches are `ewma` milliseconds apart. -/
def ofEwma (ewma : ℚ) : Pace :=
  if ewma < 20 then .fast else if ewma > 500 then .slow else .neutral

/-- A chunk size moved by a quarter and one. -/
def move : Pace → ℕ → ℕ
  | .fast, s => s + s / 4 + 1
  | .neutral, s => s
  | .slow, s => s - s / 4 - 1

/-- The move in 32 bits. -/
def moveU32 : Pace → ℕ → ℕ
  | .fast, s => (s + s / 4 + 1) % 2 ^ 32
  | .neutral, s => s
  | .slow, s => (s + 2 ^ 32 - s / 4 - 1) % 2 ^ 32

end Pace

/-- The nearest number within the limits. -/
def clamp (lo hi s : ℕ) : ℕ := min hi (max lo s)

/-- The running mean after a fetch that comes `dt` milliseconds after the last. -/
def nextEwma (ewma dt : ℚ) : ℚ := 7 / 10 * ewma + 3 / 10 * (if dt < 1 / 10 then 1 / 10 else dt)

/-- The least size from which a step up does not fit 32 bits. -/
def wrapChunk : ℕ := 3435973836

/-- Below, a step up is as meant, and from any size but zero a step down is. -/
theorem Pace.moveU32_eq {p : Pace} {s : ℕ} (h32 : s < 2 ^ 32)
    (hfast : p = .fast → s < wrapChunk) (hslow : p = .slow → s ≠ 0) : p.moveU32 s = p.move s := by
  unfold wrapChunk at hfast
  cases p with
  | fast =>
    have h_lt := hfast rfl
    simp only [moveU32, move]
    omega
  | neutral => rfl
  | slow =>
    have h_pos := hslow rfl
    simp only [moveU32, move]
    omega

/-- From there on, a step up comes out below. -/
theorem Pace.moveU32_fast_lt {s : ℕ} (h32 : s < 2 ^ 32) (hwrap : wrapChunk ≤ s) :
    Pace.fast.moveU32 s < s := by
  unfold wrapChunk at hwrap
  have h_over : 2 ^ 32 ≤ s + s / 4 + 1 := by omega
  rw [moveU32, Nat.mod_eq_sub_mod h_over, Nat.mod_eq_of_lt (by omega)]
  omega

/-- A step that wraps up or is meant down does not go up. -/
theorem Pace.moveU32_le {p : Pace} {s : ℕ} (h32 : s < 2 ^ 32)
    (hfast : p = .fast → wrapChunk ≤ s) (hslow : p = .slow → s ≠ 0) : p.moveU32 s ≤ s := by
  cases p with
  | fast => exact (moveU32_fast_lt h32 (hfast rfl)).le
  | neutral => exact le_rfl
  | slow =>
    rw [moveU32_eq h32 (by simp) hslow, move]
    omega

theorem clamp_of_le {lo hi s : ℕ} (h : lo ≤ hi) (hs : s ≤ lo) : clamp lo hi s = lo := by
  unfold clamp
  omega

namespace RequestState

variable {Node Row : Type*} (st : RequestState Node Row)

/-- The pace that the next fetch shows. -/
def pace (dt : ℚ) : Pace := .ofEwma (nextEwma st.ewmaFetchMs dt)

/-- The state after a sequence of fetches, given by the times between them. -/
def fetched (dts : List ℚ) : RequestState Node Row := dts.foldl recordFetch st

@[simp] theorem recordFetch_minChunk (dt : ℚ) : (st.recordFetch dt).minChunk = st.minChunk := rfl

@[simp] theorem recordFetch_maxChunk (dt : ℚ) : (st.recordFetch dt).maxChunk = st.maxChunk := rfl

@[simp] theorem recordFetch_ewmaFetchMs (dt : ℚ) :
    (st.recordFetch dt).ewmaFetchMs = nextEwma st.ewmaFetchMs dt := rfl

theorem fetched_append (dts dts' : List ℚ) :
    st.fetched (dts ++ dts') = (st.fetched dts).fetched dts' := List.foldl_append

/-- The limits that `recordFetch` ends with. -/
theorem toNat_limits {size lo hi : UInt32} (h : lo ≤ hi) :
    (let size := if size < lo then lo else size
      if size > hi then hi else size).toNat = clamp lo.toNat hi.toNat size.toNat := by
  rw [UInt32.le_iff_toNat_le] at h
  unfold clamp
  dsimp only [GT.gt]
  simp only [UInt32.lt_iff_toNat_lt]
  split <;> split <;> omega

/-- **One step of the chunk size.** -/
theorem recordFetch_toNat (h : st.minChunk ≤ st.maxChunk) (dt : ℚ) :
    (st.recordFetch dt).suggestedChunk.toNat = clamp st.minChunk.toNat st.maxChunk.toNat
      ((st.pace dt).moveU32 st.suggestedChunk.toNat) := by
  have h_size := st.suggestedChunk.toNat_lt
  have h_le := UInt32.le_iff_toNat_le.mp h
  change (let size := if nextEwma st.ewmaFetchMs dt < 20 then
        min st.maxChunk (st.suggestedChunk + st.suggestedChunk / 4 + 1)
      else if nextEwma st.ewmaFetchMs dt > 500 then
        max st.minChunk (st.suggestedChunk - st.suggestedChunk / 4 - 1)
      else st.suggestedChunk
    let size := if size < st.minChunk then st.minChunk else size
    if size > st.maxChunk then st.maxChunk else size).toNat = _
  rw [toNat_limits h]
  unfold pace Pace.ofEwma
  split
  · -- the bound above is applied twice
    rw [UInt32.toNat_min, UInt32.toNat_add, UInt32.toNat_add, UInt32.toNat_div]
    change clamp _ _ (min _ (((_ + _ / 4) % 2 ^ 32 + 1) % 2 ^ 32)) = _
    simp only [clamp, Pace.moveU32]
    omega
  · split
    · rw [UInt32.toNat_max, UInt32.toNat_sub, UInt32.toNat_sub, UInt32.toNat_div]
      change clamp _ _ (max _ ((2 ^ 32 - 1 + (2 ^ 32 - _ / 4 + _) % 2 ^ 32) % 2 ^ 32)) = _
      simp only [clamp, Pace.moveU32]
      omega
    · rfl

/-! ### What a fetch asks for -/

theorem floor_ne_zero (size : UInt32) {lo : UInt32} (hlo : lo ≠ 0) :
    (if size < lo then lo else size) ≠ 0 := by
  split
  · exact hlo
  · -- a size that is not below the floor is not below one
    next h_ge =>
    intro h
    rw [h, UInt32.lt_iff_toNat_lt, not_lt] at h_ge
    exact hlo (UInt32.toNat_inj.mp (Nat.le_zero.mp h_ge))

theorem cap_ne_zero {size hi : UInt32} (hsize : size ≠ 0) (hhi : hi ≠ 0) :
    (if size > hi then hi else size) ≠ 0 := by
  split
  · exact hhi
  · exact hsize

/-- The portal's own size is not zero, unless a limit of it is. -/
theorem recordFetch_suggestedChunk (dt : ℚ) (hmin : st.minChunk ≠ 0) (hmax : st.maxChunk ≠ 0) :
    (st.recordFetch dt).suggestedChunk ≠ 0 :=
  cap_ne_zero (floor_ne_zero _ hmin) hmax

theorem want_le (maxRows : UInt32) : (st.want maxRows).toNat ≤ st.maxChunk.toNat := by
  unfold want
  generalize (if maxRows = 0 then st.suggestedChunk else maxRows) = size
  change (if size > st.maxChunk then st.maxChunk else size).toNat ≤ st.maxChunk.toNat
  split
  · exact le_rfl
  · next h => exact UInt32.le_iff_toNat_le.mp (UInt32.not_lt.mp h)

/-- A fetch asks for rows, unless it leaves the size to a portal whose size is zero. -/
theorem want_ne_zero {maxRows : UInt32} (h : maxRows ≠ 0 ∨ st.suggestedChunk ≠ 0)
    (hmax : st.maxChunk ≠ 0) : st.want maxRows ≠ 0 := by
  have h_some : (if maxRows = 0 then st.suggestedChunk else maxRows) ≠ 0 := by
    split
    · next hzero => exact h.resolve_left (not_not.mpr hzero)
    · assumption
  exact cap_ne_zero h_some hmax

/-! ### Pacing a client -/

/-- A fetch paces the client: its chunk size is within the limits, it is no larger than
before where the client is slow and no smaller where it is fast, and it asks for a row. -/
structure Paced (dt : ℚ) : Prop where
  min_le : st.minChunk ≤ (st.recordFetch dt).suggestedChunk
  le_max : (st.recordFetch dt).suggestedChunk ≤ st.maxChunk
  slow : st.pace dt = .slow → (st.recordFetch dt).suggestedChunk.toNat ≤
    clamp st.minChunk.toNat st.maxChunk.toNat st.suggestedChunk.toNat
  fast : st.pace dt = .fast → clamp st.minChunk.toNat st.maxChunk.toNat st.suggestedChunk.toNat ≤
    (st.recordFetch dt).suggestedChunk.toNat
  positive : 1 ≤ (st.recordFetch dt).suggestedChunk
  returns : ∀ b : ChunkBuffer Node Row, b.q ≠ [] →
    (b.popUpTo ((st.recordFetch dt).want 0).toNat).2 ≠ []

end RequestState

/-- The configured sizes keep every run of fetches away from the ends of the 32 bits. -/
def PaceSafe (initial lo hi : UInt32) : Prop :=
  lo ≠ 0 ∧ (lo = hi ∨ initial ≠ 0 ∧
    (hi.toNat < wrapChunk ∨ wrapChunk ≤ lo.toNat ∧ initial ≤ lo))

instance (initial lo hi : UInt32) : Decidable (PaceSafe initial lo hi) := by
  unfold PaceSafe
  infer_instance

namespace RequestState

variable {Node Row : Type*} {st : RequestState Node Row} {dt : ℚ}

/-- A step that is taken as meant, or that the limits undo, paces the client. -/
theorem Paced.of_move (hle : st.minChunk ≤ st.maxChunk) (hmin : st.minChunk ≠ 0)
    (h : st.minChunk = st.maxChunk ∨ (st.pace dt).moveU32 st.suggestedChunk.toNat =
        (st.pace dt).move st.suggestedChunk.toNat ∨
      st.suggestedChunk ≤ st.minChunk ∧
        (st.pace dt).moveU32 st.suggestedChunk.toNat ≤ st.minChunk.toNat) : st.Paced dt := by
  have h_toNat := st.recordFetch_toNat hle dt
  have h_le := UInt32.le_iff_toNat_le.mp hle
  have h_pos : st.minChunk.toNat ≠ 0 := fun h => hmin (UInt32.toNat_inj.mp h)
  have h_max : st.maxChunk ≠ 0 := by
    rw [← UInt32.toNat_inj.ne]
    change _ ≠ 0
    omega
  have h_size := (st.recordFetch_suggestedChunk dt hmin h_max)
  rw [← UInt32.toNat_inj, UInt32.le_iff_toNat_le] at h
  -- the bounds, the direction of either move, and a pop that is not empty
  refine ⟨?_, ?_, fun h_pace => ?_, fun h_pace => ?_, ?_, fun b hb => ?_⟩
  · rw [UInt32.le_iff_toNat_le, h_toNat, clamp]
    omega
  · rw [UInt32.le_iff_toNat_le, h_toNat, clamp]
    omega
  · rw [h_toNat]
    rw [h_pace] at h ⊢
    simp only [Pace.move] at h
    unfold clamp
    omega
  · rw [h_toNat]
    rw [h_pace] at h ⊢
    simp only [Pace.move] at h
    unfold clamp
    omega
  · rw [UInt32.le_iff_toNat_le, h_toNat, clamp]
    change 1 ≤ _
    omega
  · have h_want : (st.recordFetch dt).want 0 ≠ 0 :=
      (st.recordFetch dt).want_ne_zero (Or.inr h_size) h_max
    have h_want : ((st.recordFetch dt).want 0).toNat ≠ 0 := fun h =>
      h_want (UInt32.toNat_inj.mp h)
    change b.q.take _ ≠ []
    simp [hb, h_want]

/-! ### Runs of fetches -/

/-- The state after a fetch has paced the client with these limits, and no later fetch
can meet an end of the 32 bits. -/
structure PaceInv (lo hi : UInt32) (st : RequestState Node Row) : Prop where
  minChunk : st.minChunk = lo
  maxChunk : st.maxChunk = hi
  min_le : lo ≤ st.suggestedChunk
  le_max : st.suggestedChunk ≤ hi
  safe : hi.toNat < wrapChunk ∨ st.suggestedChunk = lo ∧ (lo = hi ∨ wrapChunk ≤ lo.toNat)

variable {lo hi : UInt32}

/-- Every later fetch paces the client. -/
theorem PaceInv.paced (hI : PaceInv lo hi st) (hlo : lo ≠ 0) (dt : ℚ) : st.Paced dt := by
  obtain ⟨rfl, rfl, h_min, h_max, h_safe⟩ := hI
  rw [UInt32.le_iff_toNat_le] at h_min h_max
  have h_pos : st.minChunk.toNat ≠ 0 := fun h => hlo (UInt32.toNat_inj.mp h)
  have h_size : st.suggestedChunk.toNat < 2 ^ 32 := st.suggestedChunk.toNat_lt
  refine .of_move (UInt32.le_iff_toNat_le.mpr (h_min.trans h_max)) hlo ?_
  rcases h_safe with h_wrap | ⟨h_eq, h_eq' | h_wrap⟩
  · exact Or.inr (Or.inl (Pace.moveU32_eq h_size (fun _ => by omega) fun _ => by omega))
  · exact Or.inl h_eq'
  · by_cases h_pace : st.pace dt = .fast
    · -- a size at the floor wraps to one below the floor
      refine Or.inr (Or.inr ⟨h_eq ▸ UInt32.le_refl _, ?_⟩)
      rw [h_pace, h_eq]
      exact (Pace.moveU32_fast_lt st.minChunk.toNat_lt h_wrap).le
    · exact Or.inr (Or.inl (Pace.moveU32_eq h_size (fun h => absurd h h_pace) fun _ => by omega))

theorem PaceInv.step (hI : PaceInv lo hi st) (hlo : lo ≠ 0) (dt : ℚ) :
    PaceInv lo hi (st.recordFetch dt) := by
  have h_paced := hI.paced hlo dt
  obtain ⟨rfl, rfl, h_min, h_max, h_safe⟩ := hI
  refine ⟨rfl, rfl, h_paced.min_le, h_paced.le_max, h_safe.imp_right fun ⟨h_eq, h⟩ => ⟨?_, h⟩⟩
  have h_le := UInt32.le_trans h_min h_max
  have h_pos : st.minChunk.toNat ≠ 0 := fun h => hlo (UInt32.toNat_inj.mp h)
  rw [← UInt32.toNat_inj, st.recordFetch_toNat h_le, h_eq]
  rw [UInt32.le_iff_toNat_le] at h_le
  rcases h with h_eq' | h_wrap
  · -- there is one size only
    rw [← h_eq', clamp]
    omega
  · refine clamp_of_le h_le (Pace.moveU32_le st.minChunk.toNat_lt (fun _ => h_wrap) fun _ => h_pos)

/-- **A run of fetches.** -/
theorem PaceInv.fetched (hI : PaceInv lo hi st) (hlo : lo ≠ 0) (dts : List ℚ) :
    PaceInv lo hi (st.fetched dts) := by
  induction dts generalizing st with
  | nil => exact hI
  | cons dt dts ih => exact ih (hI.step hlo dt)

/-! ### The first fetch -/

section Create

variable {params : RequestParams} {expected : ℕ}

/-- The running mean starts too high for the first fetch to be fast. -/
theorem pace_create (dt : ℚ) :
    (create params expected : RequestState Node Row).pace dt ≠ .fast := by
  have h_ewma : ¬ nextEwma 100 dt < 20 := by
    unfold nextEwma
    split <;> linarith
  change Pace.ofEwma (nextEwma 100 dt) ≠ .fast
  rw [Pace.ofEwma, if_neg h_ewma]
  split <;> simp

/-- The first fetch paces the client. -/
theorem paced_create (h : PaceSafe params.initialChunkRows params.minChunkRows params.maxChunkRows)
    (hle : params.minChunkRows ≤ params.maxChunkRows) (dt : ℚ) :
    (create params expected : RequestState Node Row).Paced dt := by
  obtain ⟨h_lo, h_eq | ⟨h_init, -⟩⟩ := h
  · exact .of_move hle h_lo (Or.inl h_eq)
  · refine .of_move hle h_lo (Or.inr (Or.inl (Pace.moveU32_eq ?_ ?_ ?_)))
    · exact params.initialChunkRows.toNat_lt
    · exact fun h => absurd h (pace_create dt)
    · exact fun _ h => h_init (UInt32.toNat_inj.mp h)

/-- And what it leaves keeps the later ones safe. -/
theorem inv_create (h : PaceSafe params.initialChunkRows params.minChunkRows params.maxChunkRows)
    (hle : params.minChunkRows ≤ params.maxChunkRows) (dt : ℚ) :
    PaceInv params.minChunkRows params.maxChunkRows
      ((create params expected : RequestState Node Row).recordFetch dt) := by
  have h_paced : (create params expected : RequestState Node Row).Paced dt :=
    paced_create h hle dt
  have h_toNat := (create params expected : RequestState Node Row).recordFetch_toNat hle dt
  have h_fast : (create params expected : RequestState Node Row).pace dt ≠ .fast := pace_create dt
  refine ⟨rfl, rfl, h_paced.min_le, h_paced.le_max, ?_⟩
  rw [← UInt32.toNat_inj, h_toNat]
  change _ ∨ clamp params.minChunkRows.toNat params.maxChunkRows.toNat
    (Pace.moveU32 _ params.initialChunkRows.toNat) = _ ∧ _
  obtain ⟨h_lo, h⟩ := h
  have h_le := UInt32.le_iff_toNat_le.mp hle
  have h_size := params.initialChunkRows.toNat_lt
  rcases h with h_eq | ⟨h_init, h_wrap | ⟨h_wrap, h_init_le⟩⟩
  · refine Or.inr ⟨?_, Or.inl h_eq⟩
    rw [h_eq, clamp]
    omega
  · exact Or.inl h_wrap
  · -- what starts at the floor or below stays at the floor
    refine Or.inr ⟨?_, Or.inr h_wrap⟩
    rw [UInt32.le_iff_toNat_le] at h_init_le
    have h_pos : params.initialChunkRows.toNat ≠ 0 := fun h => h_init (UInt32.toNat_inj.mp h)
    refine clamp_of_le h_le (le_trans (Pace.moveU32_le h_size ?_ fun _ => h_pos) h_init_le)
    exact fun h => absurd h h_fast

end Create

/-! ### Runs that leave the limits or stall -/

/-- A long pause is slow, whatever came before. -/
theorem pace_pause (hewma : 0 ≤ st.ewmaFetchMs) : st.pace 2000 = .slow := by
  have h_next : nextEwma st.ewmaFetchMs 2000 = 7 / 10 * st.ewmaFetchMs + 600 := by
    unfold nextEwma
    norm_num
  rw [pace, h_next, Pace.ofEwma, if_neg (by linarith), if_pos (by linarith)]

/-- Without a lower limit, a client that stays slow brings the size to zero. -/
theorem exists_zero (hmin : st.minChunk = 0) (hewma : 0 ≤ st.ewmaFetchMs) :
    ∃ dts, (st.fetched dts).suggestedChunk = 0 := by
  -- induction on the size, which each slow fetch lowers
  induction hn : st.suggestedChunk.toNat using Nat.strong_induction_on generalizing st with
  | _ n ih =>
    by_cases h_zero : st.suggestedChunk = 0
    · exact ⟨[], h_zero⟩
    have h_pos : st.suggestedChunk.toNat ≠ 0 := fun h => h_zero (UInt32.toNat_inj.mp h)
    have h_min : st.minChunk.toNat = 0 := congrArg UInt32.toNat hmin
    have h_toNat := st.recordFetch_toNat (UInt32.le_iff_toNat_le.mpr (h_min ▸ Nat.zero_le _)) 2000
    rw [pace_pause hewma, Pace.moveU32_eq st.suggestedChunk.toNat_lt (by simp) fun _ => h_pos,
      h_min, clamp, Pace.move] at h_toNat
    have h_ewma : 0 ≤ (st.recordFetch 2000).ewmaFetchMs := by
      change 0 ≤ nextEwma st.ewmaFetchMs 2000
      unfold nextEwma
      norm_num
      linarith
    have h_next : (st.recordFetch 2000).minChunk = 0 := hmin
    obtain ⟨dts, h_dts⟩ := ih _ (by omega) h_next h_ewma rfl
    exact ⟨2000 :: dts, h_dts⟩

/-- With an upper limit from `wrapChunk` on, a client that stays fast brings a size above the
lower limit to the end of the 32 bits, and the next step up comes out below. -/
theorem exists_unpaced (hmin : st.minChunk ≤ st.suggestedChunk)
    (hmax : st.suggestedChunk ≤ st.maxChunk) (hewma : st.ewmaFetchMs ≤ 28)
    (hwrap : wrapChunk ≤ st.maxChunk.toNat)
    (habove : wrapChunk ≤ st.suggestedChunk.toNat → st.minChunk < st.suggestedChunk) :
    ∃ dts dt, ¬ (st.fetched dts).Paced dt := by
  -- induction on the way that is left to `wrapChunk`
  induction hn : wrapChunk - st.suggestedChunk.toNat using Nat.strong_induction_on
    generalizing st with
  | _ n ih =>
    have h_le := UInt32.le_trans hmin hmax
    have h_size := st.suggestedChunk.toNat_lt
    have h_next : nextEwma st.ewmaFetchMs 0 < 20 := by
      unfold nextEwma
      rw [if_pos (by norm_num)]
      linarith
    have h_pace : st.pace 0 = .fast := by
      rw [pace, Pace.ofEwma, if_pos h_next]
    have h_toNat := st.recordFetch_toNat h_le 0
    rw [h_pace] at h_toNat
    rw [UInt32.le_iff_toNat_le] at hmin hmax h_le
    rw [UInt32.lt_iff_toNat_lt] at habove
    by_cases h_wrap : wrapChunk ≤ st.suggestedChunk.toNat
    · refine ⟨[], 0, fun h => ?_⟩
      have h_up : clamp st.minChunk.toNat st.maxChunk.toNat st.suggestedChunk.toNat ≤ _ :=
        h.fast h_pace
      have h_down := Pace.moveU32_fast_lt h_size h_wrap
      have h_above := habove h_wrap
      rw [show st.fetched [] = st from rfl, h_toNat] at h_up
      unfold clamp at h_up
      omega
    · rw [Pace.moveU32_eq h_size (fun _ => not_le.mp h_wrap) (by simp), clamp, Pace.move] at h_toNat
      have h_mono : st.suggestedChunk.toNat < (st.recordFetch 0).suggestedChunk.toNat := by omega
      have h_next_min : (st.recordFetch 0).minChunk ≤ (st.recordFetch 0).suggestedChunk :=
        UInt32.le_iff_toNat_le.mpr (hmin.trans h_mono.le)
      obtain ⟨dts, dt, h_dts⟩ := ih _ (by omega) h_next_min
        (UInt32.le_iff_toNat_le.mpr (h_toNat.le.trans (min_le_left _ _)))
        (h_next.le.trans (by norm_num)) hwrap
        (fun _ => UInt32.lt_iff_toNat_lt.mpr (hmin.trans_lt h_mono)) rfl
      exact ⟨0 :: dts, dt, h_dts⟩

/-! ### The limits of pacing -/

section Create

variable {params : RequestParams} {expected : ℕ}

/-- Four fetches in a row are all neutral, however fast they are. -/
theorem fetched_create_four (hle : params.minChunkRows ≤ params.maxChunkRows) :
    ((create params expected : RequestState Node Row).fetched [0, 0, 0, 0]).ewmaFetchMs ≤ 28 ∧
    ((create params expected : RequestState Node Row).fetched [0, 0, 0, 0]).suggestedChunk.toNat =
      clamp params.minChunkRows.toNat params.maxChunkRows.toNat params.initialChunkRows.toNat := by
  have h_next : ∀ e : ℚ, nextEwma e 0 = 7 / 10 * e + 3 / 100 := by
    intro e
    unfold nextEwma
    norm_num
  have h_le := UInt32.le_iff_toNat_le.mp hle
  -- from 100 ms, four fetches at once bring the mean below 30 ms, but never below 20
  have h_step : ∀ st : RequestState Node Row, st.minChunk = params.minChunkRows →
      st.maxChunk = params.maxChunkRows → 30 ≤ st.ewmaFetchMs → st.ewmaFetchMs ≤ 100 →
      (st.recordFetch 0).suggestedChunk.toNat = clamp params.minChunkRows.toNat
        params.maxChunkRows.toNat st.suggestedChunk.toNat := by
    intro st h_min h_max h_low h_high
    have h_pace : st.pace 0 = .neutral := by
      rw [pace, h_next, Pace.ofEwma, if_neg (by linarith), if_neg (by linarith)]
    rw [st.recordFetch_toNat (by rw [h_min, h_max]; exact hle), h_pace, h_min, h_max]
    rfl
  have h_ewma : ∀ st : RequestState Node Row, (st.recordFetch 0).ewmaFetchMs =
      7 / 10 * st.ewmaFetchMs + 3 / 100 := fun st => h_next _
  have h_create : (create params expected : RequestState Node Row).ewmaFetchMs = 100 := rfl
  simp only [fetched, List.foldl_cons, List.foldl_nil]
  constructor
  · rw [h_ewma, h_ewma, h_ewma, h_ewma, h_create]
    norm_num
  · rw [h_step _ rfl rfl (by rw [h_ewma, h_ewma, h_ewma, h_create]; norm_num)
      (by rw [h_ewma, h_ewma, h_ewma, h_create]; norm_num),
      h_step _ rfl rfl (by rw [h_ewma, h_ewma, h_create]; norm_num)
      (by rw [h_ewma, h_ewma, h_create]; norm_num),
      h_step _ rfl rfl (by rw [h_ewma, h_create]; norm_num)
      (by rw [h_ewma, h_create]; norm_num),
      h_step _ rfl rfl (by rw [h_create]; norm_num) (by rw [h_create])]
    change clamp _ _ (clamp _ _ (clamp _ _ (clamp _ _ params.initialChunkRows.toNat))) = _
    unfold clamp
    omega

/-- A size that is paced down to zero asks for no rows. -/
theorem minChunk_ne_zero
    (h : ∀ dts dt, ((create params expected : RequestState Node Row).fetched dts).Paced dt) :
    params.minChunkRows ≠ 0 := by
  intro h_zero
  have h_pos : ∀ dts, (((create params expected : RequestState Node Row).recordFetch 100).fetched
      dts).suggestedChunk ≠ 0 := by
    intro dts h_dts
    have h_one : 1 ≤ (((create params expected : RequestState Node Row).recordFetch 100).fetched
        dts).suggestedChunk := by
      cases dts using List.reverseRecOn with
      | nil => exact (h [] 100).positive
      | append_singleton dts dt =>
        rw [fetched_append]
        exact (h (100 :: dts) dt).positive
    rw [h_dts] at h_one
    exact absurd h_one (by decide)
  have h_ewma :
      0 ≤ ((create params expected : RequestState Node Row).recordFetch 100).ewmaFetchMs := by
    change 0 ≤ nextEwma 100 100
    unfold nextEwma
    norm_num
  -- with no lower limit, slow fetches take the size to zero
  have h_stall : ∃ dts, (((create params expected : RequestState Node Row).recordFetch 100).fetched
      dts).suggestedChunk = 0 := exists_zero h_zero h_ewma
  obtain ⟨dts, h_dts⟩ := h_stall
  exact h_pos dts h_dts

/-- A step down from zero comes out at the upper limit. -/
theorem limits_eq_of_zero
    (h : ∀ dts dt, ((create params expected : RequestState Node Row).fetched dts).Paced dt)
    (hle : params.minChunkRows ≤ params.maxChunkRows) (hzero : params.initialChunkRows = 0) :
    params.minChunkRows = params.maxChunkRows := by
  let st : RequestState Node Row := create params expected
  -- a slow step from zero wraps
  have h_pace : st.pace 2000 = .slow := pace_pause (by change (0 : ℚ) ≤ 100; norm_num)
  have h_init : st.suggestedChunk.toNat = 0 := congrArg UInt32.toNat hzero
  have h_toNat := st.recordFetch_toNat hle 2000
  have h_slow : (st.recordFetch 2000).suggestedChunk.toNat ≤ _ := (h [] 2000).slow h_pace
  have h_le : st.minChunk.toNat ≤ st.maxChunk.toNat := UInt32.le_iff_toNat_le.mp hle
  have h_max := st.maxChunk.toNat_lt
  have h_nil : (create params expected : RequestState Node Row).fetched [] = st := rfl
  rw [h_toNat, h_pace, h_nil, h_init] at h_slow
  refine UInt32.toNat_inj.mp (le_antisymm h_le ?_)
  change st.maxChunk.toNat ≤ st.minChunk.toNat
  simp only [clamp, Pace.moveU32] at h_slow
  omega

/-- **When the chunk size neither runs away nor stalls**, over all runs of fetches. -/
theorem paced_iff (params : RequestParams) (expected : ℕ)
    (hle : params.minChunkRows ≤ params.maxChunkRows) :
    (∀ dts dt, ((create params expected : RequestState Node Row).fetched dts).Paced dt) ↔
      PaceSafe params.initialChunkRows params.minChunkRows params.maxChunkRows := by
  constructor
  · intro h
    have h_le := UInt32.le_iff_toNat_le.mp hle
    refine ⟨minChunk_ne_zero h, or_iff_not_imp_left.mpr fun h_ne => ⟨fun h_init => ?_, ?_⟩⟩
    · exact h_ne (limits_eq_of_zero h hle h_init)
    · by_contra h_wrap
      rw [not_or, not_lt, not_and', UInt32.le_iff_toNat_le] at h_wrap
      have h_ne : params.minChunkRows.toNat ≠ params.maxChunkRows.toNat := fun h =>
        h_ne (UInt32.toNat_inj.mp h)
      -- once the client counts as fast, the size goes up to the end of the 32 bits
      let st : RequestState Node Row := (create params expected).fetched [0, 0, 0, 0]
      obtain ⟨h_ewma, h_size⟩ : st.ewmaFetchMs ≤ 28 ∧ st.suggestedChunk.toNat = _ :=
        fetched_create_four hle
      have h_above : wrapChunk ≤ st.suggestedChunk.toNat →
          params.minChunkRows < st.suggestedChunk := by
        intro h_end
        rw [UInt32.lt_iff_toNat_lt, h_size]
        rw [h_size] at h_end
        unfold clamp at h_end ⊢
        omega
      have h_min : params.minChunkRows ≤ st.suggestedChunk := by
        rw [UInt32.le_iff_toNat_le, h_size]
        exact le_min h_le le_sup_left
      have h_max : st.suggestedChunk ≤ params.maxChunkRows := by
        rw [UInt32.le_iff_toNat_le, h_size]
        exact min_le_left _ _
      obtain ⟨dts, dt, h_dts⟩ := exists_unpaced h_min h_max h_ewma h_wrap.1 h_above
      have h_paced := h ([0, 0, 0, 0] ++ dts) dt
      rw [fetched_append] at h_paced
      exact h_dts h_paced
  · intro h dts dt
    cases dts with
    | nil => exact paced_create h hle dt
    | cons d dts => exact ((inv_create h hle d).fetched h.1 dts).paced h.1 dt

/-- The sizes of a configuration that sets none of them, after a fast and a slow fetch. -/
theorem paced_default :
    ((create .default 1 : RequestState Unit Unit).fetched [10, 2000]).Paced 2000 :=
  (paced_iff .default 1 (by decide)).mpr (by decide) [10, 2000] 2000

/-- With a lower limit of zero, one slow fetch can stall the client. -/
theorem stalls_at_zero : ¬ ∀ params : RequestParams,
    params.minChunkRows ≤ params.maxChunkRows → ∀ expected dts dt,
      ((create params expected : RequestState Unit Unit).fetched dts).Paced dt := by
  intro h
  have h_one := (h { RequestParams.default with initialChunkRows := 1, minChunkRows := 0 }
    (by decide) 1 [] 2000).positive
  revert h_one
  decide +kernel

end Create

end RequestState
end Mini2
