import Mini2.Framework.CascadeSerial
import Mini2.Node.Coverage
import Mini2.Node.Executions
import Mini2.Node.Upstream

/-!
# Exactly once

The two sections of `ForwardQuery` leave a gap in which a second forward can get past the dup
check. It takes a caller that gives up on a handler still running: without that the handlers
of a request run one at a time, so nobody comes between the sections. Nodes that are down from
the start do no harm, as nothing runs on them. Each node that live nodes join to the portal
then executes the request once, and no other does.
-/

namespace Mini2
namespace Request

open Framework

variable {Node Row : Type*} [DecidableEq Node] {R : Request Node Row} {dead : Node → Prop}
  {s s' : State Node Row} {l : Label Node}

/-- Whatever happens around the flood leaves the first sections alone. -/
theorem check_env {σ σ' : Store Node Row} {e : Event Node} (h : R.cascade.env σ e = some σ')
    (n : Node) (m : Task Node) : R.cascade.check σ' n m = R.cascade.check σ n m := by
  have h_routes : σ'.routes = σ.routes := (env_cases h).routes_eq
  show check σ' n m = check σ n m
  unfold check
  rw [h_routes]

/-- What holds of a request whose callers are patient. -/
structure PatientInv (R : Request Node Row) (dead : Node → Prop) (s : State Node Row) : Prop where
  flood : R.FloodInv s
  upstream : R.UpstreamInv s
  exec : ExecInv s
  serial : Cascade.Serial dead s.calls
  checked : Cascade.Checked R.cascade s

/-- The check of a handler that is about to insert its route still holds. -/
theorem PatientInv.fresh (hI : R.PatientInv dead s) (h : R.cascade.Step s l s') :
    FreshInsert s l := by
  cases h with
  | @commit i c hc hpc =>
    intro d hd
    obtain rfl := Option.some.inj (hc.symm.trans hd)
    have h_mem := List.mem_of_getElem? hc
    have h_check : check s.store c.dst c.msg = none := hI.checked c h_mem hpc
    obtain ⟨req, hm⟩ := (hI.flood.calls c h_mem).exists_forward (by rw [hpc]; rfl)
    rw [hm] at h_check
    exact (check_forward_eq_none.mp h_check).2
  | _ => exact trivial

theorem PatientInv.step (hI : R.PatientInv dead s) (hl : Cascade.Patient dead s l)
    (h : R.cascade.Step s l s') : R.PatientInv dead s' where
  flood := hI.flood.step h
  upstream := hI.upstream.step hI.flood h
  exec := hI.exec.step hI.flood (hI.fresh h) h
  serial := hI.serial.step hl h
  checked := hI.checked.step hI.serial hl (fun _ _ _ he => check_env he) h

theorem PatientInv.initial (R : Request Node Row) (hportal : ¬ dead R.overlay.portal) :
    R.PatientInv dead R.start where
  flood := .initial R
  upstream := .initial R
  exec := .initial R
  serial := .singleton (by simp) hportal
  checked c hc hpc := by
    obtain rfl := List.mem_singleton.mp hc
    exact absurd hpc (by simp)

theorem PatientInv.reachable (hportal : ¬ dead R.overlay.portal)
    (h : R.machine.Reachable (Cascade.Patient dead) s) : R.PatientInv dead s :=
  h.invariant (R.PatientInv dead) (.initial R hportal)
    fun _ _ _ hI hl hstep => hI.step hl (Cascade.step_iff.mp hstep)

/-- A node with a route is joined to the portal by live nodes. -/
theorem PatientInv.livePath (hI : R.PatientInv dead s) {n : Node}
    (hn : (s.store.routes n).isSome) : R.LivePath dead n := by
  have h_live : ∀ {m : Node}, (s.store.routes m).isSome → ¬ dead m := by
    intro m hm hdead
    obtain ⟨c, hc, rfl, hcomm⟩ := hI.flood.source m hm
    rw [hI.serial.lost c hc hdead] at hcomm
    exact absurd hcomm (by simp [Cascade.Pc.committed])
  -- the upstream pointers lead to the portal over nodes with routes
  have h_back := hI.upstream.reaches hn
  induction h_back using Relation.ReflTransGen.head_induction_on with
  | refl => exact .refl
  | @head a b hab _ ih =>
    obtain ⟨h_ne, r, hr, rfl⟩ := hab
    obtain ⟨h_adj, h_up⟩ := hI.upstream.upstream hr h_ne
    exact (ih h_up).tail ⟨R.overlay.nbrs_symm h_adj, h_live hn⟩

/-- A node that executes has a route. -/
theorem ExecInv.routed (hI : ExecInv s) {w : Worker Node Row} (hw : w ∈ s.store.workers) :
    (s.store.routes w.node).isSome := by
  by_contra h_none
  have h_le := hI w.node
  rw [if_neg h_none] at h_le
  have h_pos : 0 < (s.store.workers.map Worker.node).count w.node :=
    List.count_pos_iff.mpr (List.mem_map_of_mem hw)
  unfold executions at h_le
  omega

/-- **Every live node executes a request exactly once.** Let some nodes be down, and let no
caller give up on any other. Then, in every interleaving, whatever push calls fail and
whatever is canceled or expires, no node executes the request twice, and only nodes do that
live nodes join to the portal. Once the flood is at rest, each of these has. -/
theorem executes_exactly_once (R : Request Node Row) (dead : Node → Prop)
    (hportal : ¬ dead R.overlay.portal) (h : R.machine.Reachable (Cascade.Patient dead) s) :
    (s.store.workers.map Worker.node).Nodup ∧
      (∀ w ∈ s.store.workers, R.LivePath dead w.node) ∧
      (AtRest dead s → ∀ n, R.LivePath dead n → ∃ w ∈ s.store.workers, w.node = n) := by
  have hI := PatientInv.reachable hportal h
  refine ⟨?_, fun w hw => hI.livePath (hI.exec.routed hw),
    fun hrest n hn => (hI.flood.covers hrest hn).2⟩
  rw [List.nodup_iff_count_le_one]
  intro n
  have h_le := hI.exec n
  unfold executions at h_le
  split at h_le <;> omega

/-- The portal gives up on `c`, which is down, and so does `b`. -/
theorem executes_exactly_once_triangle : ∃ s : State Overlay.Id3 Unit,
    (quiet .triangle).machine.Reachable (Cascade.Patient (· = .c)) s ∧ AtRest (· = .c) s ∧
      (s.store.workers.map Worker.node).Nodup ∧ ∃ w ∈ s.store.workers, w.node = .b := by
  obtain ⟨s, hrun, hrest⟩ := Machine.exists_run_of_exec (M := (quiet .triangle).machine)
    (P := Cascade.Patient (· = .c)) (s := (quiet .triangle).start)
    (l := [.send 0, .check 1, .commit 1, .send 1, .expire 1, .finish 1, .collect 0, .send 0,
      .expire 0, .finish 0])
    (Φ := fun s => ∀ c ∈ s.calls, c.pc.answer.isSome ∨ (c.pc = .sent ∧ c.dst = .c)) (by decide)
  have h_once := executes_exactly_once (quiet .triangle) (· = .c) (by decide) ⟨_, hrun⟩
  have h_path : (quiet .triangle).LivePath (· = .c) .b :=
    .single ⟨show _ ∈ Overlay.triangle.nbrs _ by decide, by decide⟩
  exact ⟨s, ⟨_, hrun⟩, hrest, h_once.1, h_once.2.2 hrest _ h_path⟩

end Request
end Mini2
