import Mathlib.Logic.Function.Basic
import Mini2.Framework.Machine
import Mini2.Framework.Object

/-!
# Monitors

A monitor is an object that threads share. Its operations run under one mutex, and some of
them first wait, at most for some time, until a condition holds. A waiting thread has given
the mutex up. It goes on when it has been notified, when its time is up, or for no reason at
all, as condition variables allow; it then needs the mutex again, so that other threads may
have run in between. An action of the machine is what one thread does under the mutex.

* `Monitor.returned_sequential` — the calls that have returned are those of the object
  alone, in the order of their returns: waiting cannot be seen in the answers.
* `Monitor.calls_return_once` — every thread gets its calls answered in its own order, each
  once.
* `Monitor.nobody_waits` — no wakeup is lost: where the condition holds, nobody waits.
* `Monitor.resumes_when_ready` — a thread in a call then returns with its next action.
* `Monitor.ready_at_return` — a call that waits is performed when the condition holds, or
  its time is up.
-/

namespace Framework

/-- An object whose operations may wait, over the states `σ`, the operations `Op` and the
answers `Out`. -/
structure Monitor (σ Op Out : Type*) extends Object σ Op Out where
  /-- The condition that threads wait for. -/
  ready : σ → Bool
  /-- The operations that wait for it. -/
  waits : Op → Bool
  /-- The operations that, performed in this state, notify all threads that wait. -/
  notifies : σ → Op → Bool
  /-- A thread that has been woken looks at the condition again before it goes on. -/
  rechecks : Bool

namespace Monitor

/-- Where a thread is. -/
inductive Phase (Op : Type*)
  | idle
  | waiting (op : Op)
  /-- Woken before its time was up, without the mutex yet. -/
  | woken (op : Op)
  /-- Its time is up, without the mutex yet. -/
  | timedOut (op : Op)

namespace Phase

variable {Op : Type*}

/-- The call that has not returned yet. -/
def pending : Phase Op → List Op
  | .idle => []
  | .waiting op | .woken op | .timedOut op => [op]

/-- What a notification does. -/
def notified : Phase Op → Phase Op
  | .waiting op => .woken op
  | p => p

@[simp] theorem pending_idle : (idle : Phase Op).pending = [] := rfl

@[simp] theorem pending_notified (p : Phase Op) : p.notified.pending = p.pending := by
  cases p <;> rfl

theorem notified_ne_waiting (p : Phase Op) (op : Op) : p.notified ≠ .waiting op := by
  cases p <;> simp [notified]

end Phase

/-- A call that has returned. -/
structure Return (Thread Op Out : Type*) where
  thread : Thread
  op : Op
  out : Out
  /-- Its time was up when it was performed. -/
  late : Bool

/-- The object, its threads, and the calls that have returned so far. -/
structure State (σ Thread Op Out : Type*) where
  object : σ
  phase : Thread → Phase Op
  returned : List (Return Thread Op Out)

/-- What a thread does under the mutex. -/
inductive Action (Thread Op : Type*)
  | call (t : Thread) (op : Op)
  /-- Woken for no reason. -/
  | wake (t : Thread)
  | expire (t : Thread)
  /-- Go on with the mutex. -/
  | resume (t : Thread)

variable {σ Thread Op Out : Type*} [DecidableEq Thread]

namespace State

/-- The calls that have returned, each with its answer. -/
def history (s : State σ Thread Op Out) : List (Op × Out) :=
  s.returned.map fun r => (r.op, r.out)

/-- The calls that a thread has had answered, and then the one that it waits for. -/
def callsOf (s : State σ Thread Op Out) (t : Thread) : List Op :=
  ((s.returned.filter (·.thread = t)).map Return.op) ++ (s.phase t).pending

def setPhase (s : State σ Thread Op Out) (t : Thread) (p : Phase Op) : State σ Thread Op Out :=
  { s with phase := Function.update s.phase t p }

@[simp] theorem setPhase_phase_self (s : State σ Thread Op Out) (t : Thread) (p : Phase Op) :
    (s.setPhase t p).phase t = p :=
  Function.update_self ..

theorem setPhase_phase_of_ne (s : State σ Thread Op Out) (p : Phase Op) {u t : Thread}
    (h : u ≠ t) : (s.setPhase t p).phase u = s.phase u :=
  Function.update_of_ne h ..

end State

namespace Action

/-- The call that an action begins. -/
def calls (t : Thread) : Action Thread Op → List Op
  | .call u op => if u = t then [op] else []
  | _ => []

end Action

/-! ### Actions -/

section Step

variable (M : Monitor σ Op Out)

/-- Perform an operation: its thread returns, and the others may be notified. -/
def perform (s : State σ Thread Op Out) (t : Thread) (op : Op) (late : Bool) :
    State σ Thread Op Out where
  object := (M.step s.object op).1
  phase := Function.update
    (if M.notifies s.object op then fun u => (s.phase u).notified else s.phase) t .idle
  returned := s.returned ++ [⟨t, op, (M.step s.object op).2, late⟩]

def act (s : State σ Thread Op Out) : Action Thread Op → Option (State σ Thread Op Out)
  | .call t op =>
    match s.phase t with
    | .idle => some (if M.waits op && !M.ready s.object then s.setPhase t (.waiting op)
        else M.perform s t op false)
    | _ => none
  | .wake t =>
    match s.phase t with
    | .waiting op => some (s.setPhase t (.woken op))
    | _ => none
  | .expire t =>
    match s.phase t with
    | .waiting op => some (s.setPhase t (.timedOut op))
    | _ => none
  | .resume t =>
    match s.phase t with
    | .woken op => some (if M.rechecks && !M.ready s.object then s.setPhase t (.waiting op)
        else M.perform s t op false)
    | .timedOut op => some (M.perform s t op true)
    | _ => none

/-- The threads of a monitor. -/
def machine (Thread : Type*) [DecidableEq Thread] :
    Machine (State σ Thread Op Out) (Action Thread Op) where
  init := ⟨M.init, fun _ => .idle, []⟩
  step := M.act

/-- The states of a monitor that threads share. -/
def Reachable (s : State σ Thread Op Out) : Prop :=
  (M.machine Thread).Reachable (fun _ _ => True) s

end Step

variable {M : Monitor σ Op Out} {s s' : State σ Thread Op Out} {a : Action Thread Op}

/-- What an action does: it moves a thread about in its call, or performs the call. -/
inductive Acts (M : Monitor σ Op Out) (s : State σ Thread Op Out) (a : Action Thread Op) :
    State σ Thread Op Out → Prop
  | moves (t : Thread) (p : Phase Op) (hcall : p.pending = (s.phase t).pending ++ a.calls t)
      (hother : ∀ u, u ≠ t → a.calls u = [])
      (hwait : ∀ op, p = .waiting op → M.ready s.object = false) : Acts M s a (s.setPhase t p)
  | performs (t : Thread) (op : Op) (late : Bool)
      (hcall : (s.phase t).pending ++ a.calls t = [op]) (hother : ∀ u, u ≠ t → a.calls u = [])
      (hready : late = false → M.rechecks = true → M.waits op = true →
        M.ready s.object = true) : Acts M s a (M.perform s t op late)

/-- A thread that looks at the condition either waits, or has found it. -/
theorem Acts.look {t : Thread} {op : Op} {b : Bool}
    (hcall : (s.phase t).pending ++ a.calls t = [op]) (hother : ∀ u, u ≠ t → a.calls u = [])
    (hb : M.rechecks = true → M.waits op = true → b = true) :
    Acts M s a (if b && !M.ready s.object then s.setPhase t (.waiting op)
      else M.perform s t op false) := by
  by_cases hlook : (b && !M.ready s.object) = true
  · rw [if_pos hlook]
    rw [Bool.and_eq_true, Bool.not_eq_true'] at hlook
    exact .moves t (.waiting op) hcall.symm hother fun _ _ => hlook.2
  · rw [if_neg hlook]
    refine .performs t op false hcall hother fun _ hrechecks hwaits => ?_
    rw [hb hrechecks hwaits, Bool.true_and, Bool.not_eq_true', Bool.not_eq_false] at hlook
    exact hlook

/-- **Every action moves a thread or performs its call.** -/
theorem act_cases (h : M.act s a = some s') : Acts M s a s' := by
  cases a with
  | call t op =>
    -- a call begins, and looks at its condition
    have h_other : ∀ u, u ≠ t → Action.calls u (.call t op) = [] := fun u hu =>
      if_neg (Ne.symm hu)
    cases hp : s.phase t with
    | idle =>
      simp only [act, hp, Option.some.injEq] at h
      subst h
      refine .look ?_ h_other fun _ hwaits => hwaits
      rw [hp, Action.calls, if_pos rfl]
      rfl
    | waiting | woken | timedOut => simp [act, hp] at h
  | wake t =>
    cases hp : s.phase t with
    | waiting op =>
      simp only [act, hp, Option.some.injEq] at h
      subst h
      -- a thread that waits is woken for no reason
      refine .moves t _ ?_ (fun _ _ => rfl) fun _ h => absurd h (by simp)
      rw [hp]
      rfl
    | idle | woken | timedOut => simp [act, hp] at h
  | expire t =>
    cases hp : s.phase t with
    | waiting op =>
      simp only [act, hp, Option.some.injEq] at h
      subst h
      -- or its time is over
      refine .moves t _ ?_ (fun _ _ => rfl) fun _ h => absurd h (by simp)
      rw [hp]
      rfl
    | idle | woken | timedOut => simp [act, hp] at h
  | resume t =>
    cases hp : s.phase t with
    | woken op =>
      simp only [act, hp, Option.some.injEq] at h
      subst h
      -- a woken thread looks again
      refine .look ?_ (fun _ _ => rfl) fun hrechecks _ => hrechecks
      rw [hp]
      rfl
    | timedOut op =>
      simp only [act, hp, Option.some.injEq] at h
      subst h
      -- one whose time is over goes on without
      refine .performs t op true ?_ (fun _ _ => rfl) fun h => Bool.noConfusion h
      rw [hp]
      rfl
    | idle | waiting => simp [act, hp] at h

section Perform

variable (M s) (t : Thread) (op : Op) (late : Bool)

@[simp] theorem perform_phase_self : (M.perform s t op late).phase t = .idle :=
  Function.update_self ..

/-- The other threads may be notified, and stay in their calls. -/
theorem perform_phase_of_ne {u t : Thread} (h : u ≠ t) : (M.perform s t op late).phase u =
    if M.notifies s.object op then (s.phase u).notified else s.phase u := by
  show Function.update _ t _ u = _
  rw [Function.update_of_ne h]
  split <;> rfl

end Perform

/-! ### The sequential object -/

/-- The calls that have returned led to the state of the object. -/
structure Sequential (M : Monitor σ Op Out) (s : State σ Thread Op Out) : Prop where
  object : s.object = M.after (s.returned.map Return.op)
  history : s.history = M.history (s.returned.map Return.op)

theorem Sequential.step (h : Sequential M s) (hstep : Acts M s a s') : Sequential M s' := by
  cases hstep with
  | moves t p => exact ⟨h.object, h.history⟩
  | performs t op late =>
    constructor
    · show (M.step s.object op).1 = _
      rw [perform, List.map_append, List.map_singleton, M.after_concat, ← h.object]
    · show List.map _ (s.returned ++ [_]) = _
      rw [perform, List.map_append, List.map_append, List.map_singleton, List.map_singleton,
        M.history_concat, ← h.object, ← h.history]
      rfl

/-- **The calls return as those of the object alone**, one after the other in the order of
their returns. -/
theorem returned_sequential (h : M.Reachable s) : Sequential M s := by
  refine Machine.Reachable.invariant (Sequential M) ⟨rfl, rfl⟩ ?_ h
  intro s a s' hI _ hstep
  exact hI.step (act_cases hstep)

omit [DecidableEq Thread] in
/-- A call is answered in the state that the calls before it led to. -/
theorem Sequential.answer (h : Sequential M s) {l₁ l₂ : List (Return Thread Op Out)}
    {r : Return Thread Op Out} (hr : s.returned = l₁ ++ r :: l₂) :
    r.out = (M.step (M.after (l₁.map Return.op)) r.op).2 := by
  have h_split : M.history (s.returned.map Return.op) =
      l₁.map (fun r => (r.op, r.out)) ++ (r.op, r.out) :: l₂.map fun r => (r.op, r.out) := by
    rw [← h.history, State.history, hr, List.map_append, List.map_cons]
  rw [M.answer_of_history h_split, List.map_map]
  rfl

/-! ### Each call once -/

theorem callsOf_step (hstep : Acts M s a s') (u : Thread) :
    s'.callsOf u = s.callsOf u ++ a.calls u := by
  cases hstep with
  | moves t p hcall hother =>
    by_cases hu : u = t
    · subst hu
      rw [State.callsOf, State.setPhase_phase_self, hcall, ← List.append_assoc]
      rfl
    · rw [State.callsOf, State.setPhase_phase_of_ne s p hu, hother u hu, List.append_nil]
      rfl
  | performs t op late hcall hother =>
    by_cases hu : u = t
    · subst hu
      -- the call moves from those that wait to those that have returned
      rw [State.callsOf, State.callsOf, List.append_assoc, hcall, perform_phase_self]
      simp [perform]
    · have h_phase : ((M.perform s t op late).phase u).pending = (s.phase u).pending := by
        rw [perform_phase_of_ne M s op late hu]
        split
        · exact Phase.pending_notified _
        · rfl
      rw [State.callsOf, h_phase, hother u hu, List.append_nil]
      simp [State.callsOf, perform, Ne.symm hu]

/-- **Every call returns once**, in the order of its thread: what a thread has called is what
it has had answered, and then the call that it waits for. -/
theorem calls_return_once {as : List (Action Thread Op)}
    (h : (M.machine Thread).Run (fun _ _ => True) s as s') (u : Thread) :
    s'.callsOf u = s.callsOf u ++ as.flatMap (·.calls u) := by
  induction h with
  | nil s => simp
  | cons _ hstep _ ih =>
    rw [ih, callsOf_step (act_cases hstep), List.flatMap_cons, List.append_assoc]

/-! ### Waking up -/

/-- Whatever makes the condition hold notifies those who wait for it. -/
def Notifies (M : Monitor σ Op Out) : Prop :=
  ∀ s op, M.ready (M.step s op).1 = true → M.ready s = true ∨ M.notifies s op = true

/-- **No wakeup is lost**: where the condition holds, nobody waits for it. -/
theorem nobody_waits (hM : M.Notifies) (h : M.Reachable s) (hready : M.ready s.object = true) :
    ∀ t op, s.phase t ≠ .waiting op := by
  refine Machine.Reachable.invariant
    (fun s : State σ Thread Op Out => M.ready s.object = true → ∀ t op, s.phase t ≠ .waiting op)
    (fun _ _ _ h => absurd h (by simp [machine])) ?_ h hready
  intro s a s' hI _ hstep hready u op hu
  cases act_cases hstep with
  | moves t p _ _ hwait =>
    by_cases hut : u = t
    · subst hut
      -- nobody begins to wait for what holds
      rw [State.setPhase_phase_self] at hu
      exact absurd (hready.symm.trans (hwait op hu)) Bool.noConfusion
    · rw [State.setPhase_phase_of_ne s p hut] at hu
      exact hI hready u op hu
  | performs t op' late =>
    by_cases hut : u = t
    · subst hut
      rw [perform_phase_self] at hu
      exact absurd hu (by simp)
    · rw [perform_phase_of_ne M s op' late hut] at hu
      by_cases hnotify : M.notifies s.object op' = true
      · rw [if_pos hnotify] at hu
        exact Phase.notified_ne_waiting _ _ hu
      · rw [if_neg hnotify] at hu
        exact hI ((hM _ _ hready).resolve_right hnotify) u op hu

/-- A thread that is in a call when the condition holds returns with its next action. -/
theorem resumes_when_ready (hM : M.Notifies) (h : M.Reachable s)
    (hready : M.ready s.object = true) {t : Thread} {op : Op}
    (hpending : (s.phase t).pending = [op]) :
    ∃ late, M.act s (.resume t) = some (M.perform s t op late) := by
  cases hp : s.phase t with
  | idle =>
    rw [hp] at hpending
    exact absurd hpending (List.cons_ne_nil _ _).symm
  -- nobody is left to wait; a thread that has been woken rechecks
  | waiting op' => exact absurd hp (nobody_waits hM h hready t op')
  | woken op' =>
    rw [hp] at hpending
    obtain rfl := List.head_eq_of_cons_eq hpending
    refine ⟨false, ?_⟩
    simp [act, hp, hready]
  | timedOut op' =>
    rw [hp] at hpending
    obtain rfl := List.head_eq_of_cons_eq hpending
    refine ⟨true, ?_⟩
    simp [act, hp]

/-! ### The condition at a return -/

/-- **A call that waits is performed when the condition holds, or late.** The object is then
in the state that the calls before it lead to. -/
theorem ready_at_return (hM : M.rechecks = true) (h : M.Reachable s)
    {l₁ l₂ : List (Return Thread Op Out)} {r : Return Thread Op Out}
    (hr : s.returned = l₁ ++ r :: l₂) (hwaits : M.waits r.op = true) (hlate : r.late = false) :
    M.ready (M.after (l₁.map Return.op)) = true := by
  refine (Machine.Reachable.invariant (fun s => Sequential M s ∧
    ∀ l₁ r l₂, s.returned = l₁ ++ r :: l₂ → M.waits r.op = true → r.late = false →
      M.ready (M.after (l₁.map Return.op)) = true) ?_ ?_ h).2 l₁ r l₂ hr hwaits hlate
  · exact ⟨⟨rfl, rfl⟩, fun l₁ r l₂ h => absurd h (by simp [machine])⟩
  · rintro s a s' ⟨hseq, hI⟩ _ hstep
    have h_acts := act_cases hstep
    refine ⟨hseq.step h_acts, ?_⟩
    cases h_acts with
    | moves t p => exact hI
    | performs t op late _ _ hready =>
      intro l₁ r l₂ heq hwaits hlate
      -- the call that returns is the last one
      rcases List.eq_nil_or_concat l₂ with rfl | ⟨l₂', x, rfl⟩
      · obtain ⟨rfl, h_last⟩ := List.append_inj' heq rfl
        obtain rfl := List.head_eq_of_cons_eq h_last
        rw [← hseq.object]
        exact hready hlate hM hwaits
      · rw [List.concat_eq_append, ← List.cons_append, ← List.append_assoc] at heq
        exact hI l₁ r l₂' (List.append_inj' heq rfl).1 hwaits hlate

end Monitor
end Framework
