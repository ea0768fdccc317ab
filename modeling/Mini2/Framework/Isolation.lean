import Mathlib.Data.List.Basic

/-!
# Servers and isolation

A server answers calls, one after the other, from a state that all of them share. Some of
the calls belong together, as those about one object do. They are *isolated* if what they
see of the server is what they would see of a server of their own.

* `Server.Isolates` — the conditions on a single call: one's own calls see and change a
  view of the state only, and the other calls leave that view alone.
* `Isolates.trace` — from any state and for any calls, the replies to one's own are those
  of the server of one's own.
* `Isolates.trace_eq` — two sequences of calls that contain the same calls of one's own
  give the same replies to them, from any two states with the same view.
-/

namespace Framework

/-- A server with the states `σ`, which replies with a `ρ` to a call `ι`. -/
structure Server (σ ι ρ : Type*) where
  /-- Handle a call: the state after it, and the reply. -/
  handle : σ → ι → σ × ρ

namespace Server

variable {σ ν ι ρ : Type*}

/-- The state after a sequence of calls. -/
def run (S : Server σ ι ρ) : σ → List ι → σ
  | s, [] => s
  | s, i :: calls => S.run (S.handle s i).1 calls

/-- The calls of a sequence, each with its reply. -/
def trace (S : Server σ ι ρ) : σ → List ι → List (ι × ρ)
  | _, [] => []
  | s, i :: calls => (i, (S.handle s i).2) :: S.trace (S.handle s i).1 calls

/-- **The calls that are `mine` are isolated from the others**: a server `A` that is for
them alone handles them as `S` does. -/
structure Isolates (S : Server σ ι ρ) (A : Server ν ι ρ) (mine : ι → Prop) (view : σ → ν) :
    Prop where
  /-- My calls change my view as `A` does. -/
  state : ∀ s i, mine i → view (S.handle s i).1 = (A.handle (view s) i).1
  /-- My calls are answered as by `A`. -/
  reply : ∀ s i, mine i → (S.handle s i).2 = (A.handle (view s) i).2
  /-- Other calls leave my view alone. -/
  other : ∀ s i, ¬ mine i → view (S.handle s i).1 = view s

namespace Isolates

variable {S : Server σ ι ρ} {A : Server ν ι ρ} {mine : ι → Prop} [DecidablePred mine]
  {view : σ → ν}

/-- What is left of the state in my view. -/
theorem run (h : S.Isolates A mine view) (s : σ) (calls : List ι) :
    view (S.run s calls) = A.run (view s) (calls.filter (mine ·)) := by
  induction calls generalizing s with
  | nil => rfl
  | cons i calls ih =>
    rw [Server.run, ih]
    by_cases hi : mine i
    · rw [List.filter_cons, if_pos (decide_eq_true hi), Server.run, h.state s i hi]
    · rw [List.filter_cons, if_neg (by simpa using hi), h.other s i hi]

/-- **The replies to my calls** are those of `A` to them. -/
theorem trace (h : S.Isolates A mine view) (s : σ) (calls : List ι) :
    (S.trace s calls).filter (fun x => mine x.1) = A.trace (view s) (calls.filter (mine ·)) := by
  induction calls generalizing s with
  | nil => rfl
  | cons i calls ih =>
    rw [Server.trace, List.filter_cons, List.filter_cons]
    by_cases hi : mine i
    · rw [if_pos (decide_eq_true hi), if_pos (decide_eq_true hi), Server.trace, ih,
        h.reply s i hi, h.state s i hi]
    · rw [if_neg (by simpa using hi), if_neg (by simpa using hi), ih, h.other s i hi]

/-- **The calls of others make no difference** to the replies to mine, nor does what I do
not see of the state. -/
theorem trace_eq (h : S.Isolates A mine view) {s t : σ} (hview : view s = view t)
    {calls calls' : List ι} (hcalls : calls.filter (mine ·) = calls'.filter (mine ·)) :
    (S.trace s calls).filter (fun x => mine x.1) =
      (S.trace t calls').filter (fun x => mine x.1) := by
  rw [h.trace, h.trace, hview, hcalls]

/-- Nor to what I see of the state afterwards. -/
theorem run_eq (h : S.Isolates A mine view) {s t : σ} (hview : view s = view t)
    {calls calls' : List ι} (hcalls : calls.filter (mine ·) = calls'.filter (mine ·)) :
    view (S.run s calls) = view (S.run t calls') := by
  rw [h.run, h.run, hview, hcalls]

end Isolates

end Server
end Framework
