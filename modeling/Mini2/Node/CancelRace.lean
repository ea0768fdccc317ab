import Mini2.Node.Collected

/-!
# Cancellation and the cache

`FetchChunk` reads `isCanceled` and then `isFinal`, and puts the collected rows if the
result is final and was not canceled. `isFinal` is also true of a canceled buffer, so a
cancellation that falls between the two reads passes for the end of the result.

`put_after_end` says that this is the only way: where no cancellation cuts a result off
between the reads, whatever is put has been drained from a buffer that was not canceled
and was final. `put_after_cancel` is a run in which one does.
-/

namespace Mini2
namespace Request

open Framework

variable {Node Row : Type*}

/-! ### Cancellations between two reads -/

/-- The action cancels the buffer. -/
def cancels (s : State Node Row) : Label Node → Bool
  | .env .cancelFound => true
  | .env .janitorLoop => s.store.janitor = .collected
  | _ => false

/-- A result that is being collected for the cache is not cut off while a fetch is
between its reads of `isCanceled` and `isFinal`. -/
def CutsNoRead (s : State Node Row) (l : Label Node) : Prop :=
  cancels s l = true → s.store.st.cacheCollect = true →
    s.store.st.buffer.canceled = false → s.store.st.buffer.isFinal = false →
      ∀ f ∈ s.store.fetches, f.pc ≠ .canceledRead

instance [DecidableEq Node] (s : State Node Row) (l : Label Node) : Decidable (CutsNoRead s l) :=
  inferInstanceAs (Decidable (_ → _ → _ → _ → ∀ f ∈ s.store.fetches, f.pc ≠ .canceledRead))

/-! ### Where a put comes from -/

/-- The buffer is final without having been canceled: all expected producers are done
and the queue is drained. -/
def Ended (σ : Store Node Row) : Prop :=
  σ.st.buffer.canceled = false ∧ σ.st.buffer.isFinal = true

/-- The fetch has read that the buffer is not canceled, and will find it final. -/
def Fetch.puts (canceled : Bool) (f : Fetch Row) : Prop :=
  f.rsp.canceled = false ∧
    ((f.pc = .canceledRead ∧ canceled = true) ∨ (f.pc = .finalRead ∧ f.rsp.final = true))

/-- Some fetch is about to put what is collected. -/
def AboutToPut (σ : Store Node Row) : Prop :=
  σ.st.cacheCollect = true ∧ ∃ f ∈ σ.fetches, Fetch.puts σ.st.buffer.canceled f

section Step

variable [DecidableEq Node] {R : Request Node Row} {σ σ' : Store Node Row} {e : Event Node}
  {s s' : State Node Row} {l : Label Node}

/-- What a fetch has just read is what the buffer says. -/
structure Read (σ σ' : Store Node Row) (f : Fetch Row) : Prop where
  canceled : f.pc = .canceledRead → f.rsp.canceled = σ'.st.buffer.canceled
  final : f.pc = .finalRead → f.rsp.final = σ.st.buffer.isFinal ∧
    ∃ g ∈ σ.fetches, g.pc = .canceledRead ∧ g.rsp.canceled = f.rsp.canceled

/-- A fetch is where it was, or has just read. -/
theorem EnvStep.reads (h : R.EnvStep σ e σ') : ∀ f ∈ σ'.fetches, f ∈ σ.fetches ∨ Read σ σ' f := by
  have h_old : ∀ f ∈ σ.fetches, f ∈ σ.fetches ∨ Read σ σ' f := fun f hf => Or.inl hf
  -- a fetch that is elsewhere has read neither
  have h_else : ∀ {f : Fetch Row}, f.pc ≠ .canceledRead → f.pc ≠ .finalRead →
      f ∈ σ.fetches ∨ Read σ σ' f :=
    fun h h' => Or.inr ⟨fun hpc => absurd hpc h, fun hpc => absurd hpc h'⟩
  cases h with
  | fetchBegin _ => exact forall_mem_concat h_old (h_else (by simp) (by simp))
  | fetchGone _ => exact forall_mem_concat h_old (h_else (by simp) (by simp))
  | fetchPop _ _ _ _ => exact forall_mem_set h_old (h_else (by simp) (by simp))
  | fetchAccumulate _ _ _ => exact forall_mem_set h_old (h_else (by simp) (by simp))
  | fetchServed _ _ => exact forall_mem_set h_old (h_else (by simp) (by simp))
  | fetchCounted _ _ => exact forall_mem_set h_old (h_else (by simp) (by simp))
  | fetchCanceled _ _ => exact forall_mem_set h_old (Or.inr ⟨fun _ => rfl, by simp⟩)
  | @fetchFinal i dt f hf hpc =>
    refine forall_mem_set h_old (Or.inr ⟨by simp, fun _ => ⟨rfl, f, ?_, hpc, rfl⟩⟩)
    exact List.mem_of_getElem? hf
  | fetchPut _ _ _ _ _ => exact forall_mem_set h_old (h_else (by simp) (by simp))
  | fetchNoPut _ _ _ _ => exact forall_mem_set h_old (h_else (by simp) (by simp))
  | fetchMore _ _ _ => exact forall_mem_set h_old (h_else (by simp) (by simp))
  | fetchErase _ _ => exact forall_mem_set h_old (h_else (by simp) (by simp))
  | _ => exact h_old

theorem step_reads (h : R.cascade.Step s l s') :
    ∀ f ∈ s'.store.fetches, f ∈ s.store.fetches ∨ Read s.store s'.store f := by
  cases h with
  | env he => exact (env_cases he).reads
  | _ => exact fun f hf => Or.inl hf

/-- A buffer that becomes canceled is canceled by an action that does. -/
theorem step_cancels (h : R.cascade.Step s l s')
    (hcanceled : s'.store.st.buffer.canceled = true) :
    s.store.st.buffer.canceled = true ∨ cancels s l = true := by
  by_cases hl : uncanceled l = true
  · rw [step_live h hl] at hcanceled
    exact Or.inl hcanceled
  · cases h with
    | env he =>
      -- of the actions that are no part of an undisturbed run, two cancel the buffer
      cases env_cases he with
      | cancelQuery _ => exact Or.inl hcanceled
      | cancelGone _ => exact Or.inl hcanceled
      | cancelFound _ => exact Or.inr rfl
      | abort _ => exact Or.inl hcanceled
      | janitorCollect _ _ => exact Or.inl hcanceled
      | janitorCancel hcollected => exact Or.inr (decide_eq_true hcollected)
      | janitorErase _ => exact Or.inl hcanceled
      | _ => exact absurd rfl hl
    | _ => exact absurd rfl hl

/-- **Where a put comes from.** A fetch that is about to put was so before the action,
or the buffer was final before it, and not canceled. -/
theorem AboutToPut.origin (hcut : CutsNoRead s l) (h : R.cascade.Step s l s')
    (hput : AboutToPut s'.store) : AboutToPut s.store ∨ Ended s.store := by
  obtain ⟨h_collect, f, hf, h_live, h_at⟩ := hput
  have h_collect := step_collect h h_collect
  have h_read := step_reads h f hf
  rcases h_at with ⟨hpc, hcanceled⟩ | ⟨hpc, hfinal⟩
  · rcases h_read with hf | hread
    · by_cases h_was : s.store.st.buffer.canceled = true
      · exact Or.inl ⟨h_collect, f, hf, h_live, Or.inl ⟨hpc, h_was⟩⟩
      · -- this action has canceled the buffer, under the eyes of the fetch
        have h_cancels := (step_cancels h hcanceled).resolve_left h_was
        have h_was := Bool.eq_false_iff.mpr h_was
        refine Or.inr ⟨h_was, ?_⟩
        by_contra h_open
        exact hcut h_cancels h_collect h_was (Bool.eq_false_iff.mpr h_open) f hf hpc
    · -- the fetch has just read that the buffer is not canceled
      rw [hread.canceled hpc, hcanceled] at h_live
      exact absurd h_live (by simp)
  · rcases h_read with hf | hread
    · exact Or.inl ⟨h_collect, f, hf, h_live, Or.inr ⟨hpc, hfinal⟩⟩
    · -- the fetch has just read that the buffer is final
      obtain ⟨h_final, g, hg, hg_pc, hg_canceled⟩ := hread.final hpc
      rw [h_final] at hfinal
      by_cases h_was : s.store.st.buffer.canceled = true
      · exact Or.inl ⟨h_collect, g, hg, hg_canceled.trans h_live, Or.inl ⟨hg_pc, h_was⟩⟩
      · exact Or.inr ⟨Bool.eq_false_iff.mpr h_was, hfinal⟩

/-- An action that puts is one of a fetch that was about to. -/
theorem aboutToPut_of_puts (h : R.cascade.Step s l s') (hput : s'.store.puts ≠ s.store.puts) :
    AboutToPut s.store := by
  cases h with
  | env he =>
    cases env_cases he with
    | @fetchPut i dt f hf hpc hfinal hcollect hlive =>
      exact ⟨hcollect, f, List.mem_of_getElem? hf, hlive, Or.inr ⟨hpc, hfinal⟩⟩
    | _ => exact absurd rfl hput
  | _ => exact absurd rfl hput

/-- **A result that is cut off is not put**, in every run in which no cancellation cuts
it off between the two reads of a fetch: when a fetch calls `put`, the run has passed a
state in which the buffer was not canceled, all expected producers were done, and the
queue was drained. -/
theorem put_after_end (R : Request Node Row) {ls : List (Label Node)}
    (h : R.machine.Run CutsNoRead R.start ls s) (hstep : R.machine.step s l = some s')
    (hput : s'.store.puts ≠ s.store.puts) :
    ∃ ls₁ m ls₂, ls = ls₁ ++ ls₂ ∧ R.machine.Run CutsNoRead R.start ls₁ m ∧
      R.machine.Run CutsNoRead m ls₂ s ∧ m.store.st.buffer.canceled = false ∧
      m.store.st.buffer.expectedProducers ≤ m.store.st.buffer.done.card ∧
      m.store.st.buffer.q = [] := by
  have h_put := aboutToPut_of_puts (Cascade.step_iff.mp hstep) hput
  have h_origin := h.origin (fun s => AboutToPut s.store) (fun s => Ended s.store)
    (fun s l t hcut hst ht => ht.origin hcut (Cascade.step_iff.mp hst)) h_put
  rcases h_origin with ⟨-, f, hf, -⟩ | ⟨ls₁, m, ls₂, heq, h₁, h₂, hlive, hfinal⟩
  · -- a request starts without fetches
    exact absurd hf List.not_mem_nil
  · obtain ⟨hq, hdone⟩ := (m.store.st.buffer.isFinal_iff hlive).mp hfinal
    exact ⟨ls₁, m, ls₂, heq, h₁, h₂, hlive, hdone, hq⟩

/-- One fetch drains the rows of `b` and puts them. -/
theorem put_after_end_two : ∃ s, (twoRows 2).machine.Reachable CutsNoRead s ∧
    s.store.st.buffer.canceled = false ∧ s.store.st.buffer.q = [] ∧
    s.store.st.buffer.expectedProducers ≤ s.store.st.buffer.done.card := by
  obtain ⟨s, hrun, s', hstep, hput⟩ := Machine.exists_run_of_exec (M := (twoRows 2).machine)
    (P := CutsNoRead) (s := (twoRows 2).start)
    (l := pushTwoRows ++ depositLocal 1 ++ fetchOnce.take 7)
    (Φ := fun s => ∃ s' ∈ (twoRows 2).machine.step s (.env (.fetch 0 100)),
      s'.store.puts ≠ s.store.puts) (by decide +kernel)
  obtain ⟨ls₁, m, ls₂, -, h₁, -, hlive, hdone, hq⟩ := put_after_end (twoRows 2) hrun hstep hput
  exact ⟨m, ⟨_, h₁⟩, hlive, hq, hdone⟩

/-- `CancelQuery` cancels the buffer between the two reads of a fetch, before any node has
sent a row. What has been collected so far is put, and the buffer has never been final
before it was canceled. -/
theorem put_after_cancel : ∃ ls s l s',
    (twoRows 2).machine.Run (fun _ _ => True) (twoRows 2).start ls s ∧
    (twoRows 2).machine.step s l = some s' ∧ s'.store.puts ≠ s.store.puts ∧
    ¬ ∃ ls₁ m ls₂, ls = ls₁ ++ ls₂ ∧
      (twoRows 2).machine.Run (fun _ _ => True) (twoRows 2).start ls₁ m ∧
      (twoRows 2).machine.Run (fun _ _ => True) m ls₂ s ∧ m.store.st.buffer.canceled = false ∧
      m.store.st.buffer.expectedProducers ≤ m.store.st.buffer.done.card ∧
      m.store.st.buffer.q = [] := by
  obtain ⟨s, hrun, ⟨s', hstep, hput⟩, hdone⟩ :=
    Machine.exists_run_of_exec (M := (twoRows 2).machine)
    (P := fun _ _ => True) (s := (twoRows 2).start)
    (l := fetchOnce.take 6 ++ [.env .cancelQuery, .env .cancelFound, .env (.fetch 0 100)])
    (Φ := fun s => (∃ s' ∈ (twoRows 2).machine.step s (.env (.fetch 0 100)),
      s'.store.puts ≠ s.store.puts) ∧ s.store.st.buffer.done.card < 2) (by decide +kernel)
  refine ⟨_, s, _, s', hrun, hstep, hput, ?_⟩
  rintro ⟨ls₁, m, ls₂, -, h₁, h₂, -, hall, -⟩
  -- marks are not taken back, so there are no more of them earlier in the run
  have h_sub : m.store.st.buffer.done ⊆ s.store.st.buffer.done :=
    h₂.invariant (fun t => m.store.st.buffer.done ⊆ t.store.st.buffer.done)
      (fun t l t' ht _ hst => ht.trans (done_mono (Cascade.step_iff.mp hst))) (fun _ h => h)
  have h_expected : m.store.st.buffer.expectedProducers = 2 :=
    (NodesInv.reachable (R := twoRows 2) ⟨ls₁, h₁⟩).expected
  rw [h_expected] at hall
  exact absurd (hall.trans (Finset.card_le_card h_sub)) (not_le.mpr hdone)

end Step

end Request
end Mini2
