import Mathlib.Data.List.Induction
import Mathlib.Data.List.Zip
import Mathlib.Tactic.Common

/-!
# Sequential objects

An object has a state that its operations change and answer from. Every operation is
enabled in every state, so a finite sequence of operations has one outcome. Two objects
with the same operations are compared by their answers.

* `Object.after`, `Object.answers` — where a sequence of operations leads, and what is
  answered on the way.
* `Object.comap` — the object with other operations, each of which stands for one of its own.
* `Object.after_invariant` — a predicate that every operation preserves.
* `Object.Simulates.answers_eq` — objects whose states stay related give equal answers.
-/

namespace Framework

/-- An object over the states `σ`, the operations `Op` and the answers `Out`. -/
structure Object (σ Op Out : Type*) where
  /-- The state of a new object. -/
  init : σ
  /-- The state after an operation, and what it answers. -/
  step : σ → Op → σ × Out

namespace Object

variable {σ τ Op Out : Type*} (O : Object σ Op Out)

/-- The state after a sequence of operations from `s` on. -/
def afterFrom (s : σ) (ops : List Op) : σ := ops.foldl (fun s op => (O.step s op).1) s

/-- The state after a sequence of operations. -/
def after (ops : List Op) : σ := O.afterFrom O.init ops

/-- The answers to a sequence of operations from `s` on. -/
def answersFrom : σ → List Op → List Out
  | _, [] => []
  | s, op :: ops => (O.step s op).2 :: answersFrom (O.step s op).1 ops

/-- The answers to a sequence of operations. -/
def answers (ops : List Op) : List Out := O.answersFrom O.init ops

/-- The operations, each with its answer. -/
def history (ops : List Op) : List (Op × Out) := ops.zip (O.answers ops)

@[simp] theorem afterFrom_append (s : σ) (ops ops' : List Op) :
    O.afterFrom s (ops ++ ops') = O.afterFrom (O.afterFrom s ops) ops' :=
  List.foldl_append

theorem after_append (ops ops' : List Op) :
    O.after (ops ++ ops') = O.afterFrom (O.after ops) ops' :=
  O.afterFrom_append O.init ops ops'

theorem after_concat (ops : List Op) (op : Op) :
    O.after (ops ++ [op]) = (O.step (O.after ops) op).1 :=
  O.after_append ops [op]

@[simp] theorem length_answersFrom (s : σ) (ops : List Op) :
    (O.answersFrom s ops).length = ops.length := by
  -- the state changes with every operation
  induction ops generalizing s with
  | nil => rfl
  | cons op ops ih => exact congrArg (· + 1) (ih _)

theorem answersFrom_append (s : σ) (ops ops' : List Op) :
    O.answersFrom s (ops ++ ops') =
      O.answersFrom s ops ++ O.answersFrom (O.afterFrom s ops) ops' := by
  induction ops generalizing s with
  | nil => rfl
  | cons op ops ih => exact congrArg (_ :: ·) (ih _)

theorem answers_append (ops ops' : List Op) :
    O.answers (ops ++ ops') = O.answers ops ++ O.answersFrom (O.after ops) ops' :=
  O.answersFrom_append O.init ops ops'

/-- The history of a sequence grows at its end. -/
theorem history_concat (ops : List Op) (op : Op) :
    O.history (ops ++ [op]) = O.history ops ++ [(op, (O.step (O.after ops) op).2)] := by
  have h_length : ops.length = (O.answers ops).length := (O.length_answersFrom _ _).symm
  unfold history
  rw [answers_append, List.zip_append h_length]
  rfl

/-- An answer is that to its operation, after the operations before it. -/
theorem answer_of_history {ops : List Op} {t₁ t₂ : List (Op × Out)} {op : Op} {out : Out}
    (h : O.history ops = t₁ ++ (op, out) :: t₂) :
    out = (O.step (O.after (t₁.map Prod.fst)) op).2 := by
  have h_ops : ops = t₁.map Prod.fst ++ op :: t₂.map Prod.fst := by
    have h_fst : (O.history ops).map Prod.fst = ops :=
      List.map_fst_zip (Nat.le_of_eq (O.length_answersFrom _ _).symm)
    rw [← h_fst, h, List.map_append, List.map_cons]
  have h_length : (t₁.map Prod.fst).length = (O.answers (t₁.map Prod.fst)).length :=
    (O.length_answersFrom _ _).symm
  -- both are the history before the operation, and then the operation with its answer
  rw [h_ops, history, answers_append, List.zip_append h_length] at h
  have h_same : t₁.length = (List.zip (t₁.map Prod.fst) (O.answers (t₁.map Prod.fst))).length := by
    rw [List.length_zip, ← h_length, Nat.min_self, List.length_map]
  have h_last := (List.append_inj h h_same.symm).2
  exact congrArg Prod.snd (List.head_eq_of_cons_eq h_last).symm

/-! ### Other operations -/

section Comap

variable {Op' : Type*} (f : Op' → Op)

/-- The object with other operations, each of which is one of its own. -/
def comap : Object σ Op' Out where
  init := O.init
  step s op := O.step s (f op)

theorem after_comap (ops : List Op') : (O.comap f).after ops = O.after (ops.map f) := by
  unfold after afterFrom
  rw [List.foldl_map]
  rfl

theorem answersFrom_comap (s : σ) (ops : List Op') :
    (O.comap f).answersFrom s ops = O.answersFrom s (ops.map f) := by
  induction ops generalizing s with
  | nil => rfl
  | cons op ops ih => exact congrArg (_ :: ·) (ih _)

theorem history_comap (ops : List Op') :
    ((O.comap f).history ops).map (Prod.map f id) = O.history (ops.map f) := by
  have h_answers : (O.comap f).answers ops = O.answers (ops.map f) := O.answersFrom_comap f _ ops
  rw [history, history, h_answers, List.zip_map_left]

end Comap

/-! ### Rules -/

variable {O}

/-- **The invariant rule** for objects: what every operation preserves holds from `s` on
after every sequence of operations. -/
theorem afterFrom_invariant (I : σ → Prop) (hstep : ∀ s op, I s → I (O.step s op).1) {s : σ}
    (hs : I s) (ops : List Op) : I (O.afterFrom s ops) := by
  induction ops generalizing s with
  | nil => exact hs
  | cons op ops ih => exact ih (hstep _ _ hs)

theorem after_invariant (I : σ → Prop) (hinit : I O.init)
    (hstep : ∀ s op, I s → I (O.step s op).1) (ops : List Op) : I (O.after ops) :=
  afterFrom_invariant I hstep hinit ops

/-- **Induction on the history.** A predicate of the state and of what has happened so far
holds after every sequence of operations, if every operation preserves it. -/
theorem history_invariant (I : List (Op × Out) → σ → Prop) (hinit : I [] O.init)
    (hstep : ∀ t s op, I t s → I (t ++ [(op, (O.step s op).2)]) (O.step s op).1)
    (ops : List Op) : I (O.history ops) (O.after ops) := by
  induction ops using List.reverseRecOn with
  | nil => exact hinit
  | append_singleton ops op ih =>
    rw [history_concat, after_concat]
    exact hstep _ _ _ ih

/-- `R` relates the states of two objects so that operations answer alike and lead to
related states. -/
structure Simulates (O : Object σ Op Out) (P : Object τ Op Out) (R : σ → τ → Prop) : Prop where
  init : R O.init P.init
  step : ∀ s t op, R s t → R (O.step s op).1 (P.step t op).1 ∧ (O.step s op).2 = (P.step t op).2

variable {P : Object τ Op Out} {R : σ → τ → Prop}

/-- Related states stay related. -/
theorem Simulates.after (h : Simulates O P R) (ops : List Op) : R (O.after ops) (P.after ops) := by
  induction ops using List.reverseRecOn with
  | nil => exact h.init
  | append_singleton ops op ih =>
    rw [after_concat, after_concat]
    -- the last operation starts in related states
    exact (h.step _ _ op ih).1

/-- **Objects with related states give equal answers**, operation by operation. -/
theorem Simulates.answers_eq (h : Simulates O P R) (ops : List Op) :
    O.answers ops = P.answers ops := by
  -- answers are compared from any two related states on, for the induction
  have h_from : ∀ s t, R s t → O.answersFrom s ops = P.answersFrom t ops := by
    induction ops with
    | nil => exact fun _ _ _ => rfl
    | cons op ops ih =>
      intro s t hst
      obtain ⟨h_next, h_out⟩ := h.step s t op hst
      exact congrArg₂ List.cons h_out (ih _ _ h_next)
  exact h_from _ _ h.init

end Object
end Framework
