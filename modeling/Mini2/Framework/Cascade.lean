import Mini2.Framework.Machine

/-!
# Cascades of nested blocking calls

A party that receives a message runs two locked sections on a shared store,
issues calls to other parties one after another, waits for each, runs a last
section and answers its own caller. Every interleaving of the handlers is a
run of `Cascade.machine`, where each locked section is one atomic action:

* `check i` — call `i` reaches its callee, whose first section may answer at
  once (`refused`);
* `commit i` — the second section, which fixes the calls to make;
* `send i` — the next of these calls goes out, under a fresh index;
* `collect i` — the caller reads the answer of the call it waits for;
* `expire i` — the caller gives up on that call (its deadline passed, or the
  callee is unreachable). The callee's handler is not told: it may still be
  running, and its message may still be delivered later;
* `finish i` — the last section, after which the handler answers;
* `env e` — an action of the surroundings on the store.

Calls are never removed, so the index of a call identifies it. The call list
starts with the root calls, whose handlers are already past their sections.

`Cascade.Step` lists what one action can do (`step_iff`), and every invariant
is proved from it. `Shape` is the bookkeeping invariant of all cascades: each
outgoing message of a committed handler is still to be sent or is a call, and
conversely.
-/

namespace Framework

/-- What the handlers of a cascade do, one field for each section. -/
structure Cascade (Party Msg Reply Store Env : Type*) where
  /-- First section of the handler: `some r` answers the caller at once. -/
  check : Store → Party → Msg → Option Reply
  /-- Second section. -/
  commit : Store → Party → Msg → Store
  /-- The calls the handler makes after its second section, in order. -/
  outgoing : Party → Msg → List (Party × Msg)
  /-- What the handler of a message does with the outcome of a call it made to
  a party; `none` is a failed call. -/
  settle : Store → Party → Msg → Party → Option Reply → Store
  /-- Last section of the handler. -/
  finish : Store → Party → Msg → Store
  /-- The answer of a handler that ran to its end. -/
  reply : Party → Msg → Reply
  /-- An action of the surroundings. -/
  env : Store → Env → Option Store

namespace Cascade

variable {Party Msg Reply Store Env : Type*}

/-- How far a call is. -/
inductive Pc (Party Msg Reply : Type*)
  /-- In flight, not yet seen by the callee. -/
  | sent
  /-- Between the two sections of the callee's handler. -/
  | admitted
  /-- The callee is about to make the remaining calls `todo`. -/
  | calling (todo : List (Party × Msg))
  /-- The callee waits for call `id`, with `todo` to make afterwards. -/
  | waiting (id : ℕ) (todo : List (Party × Msg))
  /-- Answered by the first section. -/
  | refused (r : Reply)
  /-- Answered by the whole handler. -/
  | returned (r : Reply)
  deriving DecidableEq

/-- The calls still to be made. -/
def Pc.todo : Pc Party Msg Reply → List (Party × Msg)
  | .calling todo => todo
  | .waiting _ todo => todo
  | _ => []

/-- The second section has run. -/
def Pc.committed : Pc Party Msg Reply → Bool
  | .calling _ => true
  | .waiting _ _ => true
  | .returned _ => true
  | _ => false

/-- The first section has let the message through. -/
def Pc.passed : Pc Party Msg Reply → Bool
  | .admitted => true
  | pc => pc.committed

/-- The answer, once there is one. -/
def Pc.answer : Pc Party Msg Reply → Option Reply
  | .refused r => some r
  | .returned r => some r
  | _ => none

/-- One call: its callee, its message and how far it is. -/
structure Call (Party Msg Reply : Type*) where
  dst : Party
  msg : Msg
  pc : Pc Party Msg Reply
  deriving DecidableEq

/-- All calls made so far, and the shared store. -/
structure State (Party Msg Reply Store : Type*) where
  calls : List (Call Party Msg Reply)
  store : Store

/-- The atomic actions. -/
inductive Label (Env : Type*)
  | check (i : ℕ)
  | commit (i : ℕ)
  | send (i : ℕ)
  | collect (i : ℕ)
  | expire (i : ℕ)
  | finish (i : ℕ)
  | env (e : Env)
  deriving DecidableEq, Repr

/-- The actions of the handlers, as opposed to those of the surroundings. -/
def Label.isCall : Label Env → Bool
  | .env _ => false
  | _ => true

/-- The delivery of a message to its callee. -/
def Label.isCheck : Label Env → Bool
  | .check _ => true
  | _ => false

/-- Move call `i`, currently `c`, to `pc`. -/
def State.setPc (s : State Party Msg Reply Store) (i : ℕ) (c : Call Party Msg Reply)
    (pc : Pc Party Msg Reply) : State Party Msg Reply Store :=
  { s with calls := s.calls.set i { c with pc := pc } }

variable (P : Cascade Party Msg Reply Store Env)

/-- Where the first section leaves a call. -/
def checkPc (σ : Store) (c : Call Party Msg Reply) : Pc Party Msg Reply :=
  match P.check σ c.dst c.msg with
  | some r => .refused r
  | none => .admitted

/-- One atomic action. -/
def step (s : State Party Msg Reply Store) : Label Env → Option (State Party Msg Reply Store)
  | .check i =>
    match s.calls[i]? with
    | some ⟨dst, msg, .sent⟩ =>
      some (s.setPc i ⟨dst, msg, .sent⟩ (P.checkPc s.store ⟨dst, msg, .sent⟩))
    | _ => none
  | .commit i =>
    match s.calls[i]? with
    | some ⟨dst, msg, .admitted⟩ =>
      some { s.setPc i ⟨dst, msg, .admitted⟩ (.calling (P.outgoing dst msg)) with
        store := P.commit s.store dst msg }
    | _ => none
  | .send i =>
    match s.calls[i]? with
    | some ⟨dst, msg, .calling ((p, m) :: todo)⟩ =>
      some { s with
        calls := s.calls.set i ⟨dst, msg, .waiting s.calls.length todo⟩ ++ [⟨p, m, .sent⟩] }
    | _ => none
  | .collect i =>
    match s.calls[i]? with
    | some ⟨dst, msg, .waiting id todo⟩ =>
      match s.calls[id]? with
      | some d =>
        match d.pc.answer with
        | some r =>
          some { s.setPc i ⟨dst, msg, .waiting id todo⟩ (.calling todo) with
            store := P.settle s.store dst msg d.dst (some r) }
        | none => none
      | none => none
    | _ => none
  | .expire i =>
    match s.calls[i]? with
    | some ⟨dst, msg, .waiting id todo⟩ =>
      match s.calls[id]? with
      | some d =>
        some { s.setPc i ⟨dst, msg, .waiting id todo⟩ (.calling todo) with
          store := P.settle s.store dst msg d.dst none }
      | none => none
    | _ => none
  | .finish i =>
    match s.calls[i]? with
    | some ⟨dst, msg, .calling []⟩ =>
      some { s.setPc i ⟨dst, msg, .calling []⟩ (.returned (P.reply dst msg)) with
        store := P.finish s.store dst msg }
    | _ => none
  | .env e => (P.env s.store e).map fun σ => { s with store := σ }

/-- The machine of the cascade, from the root calls and a first store. -/
def machine (s₀ : State Party Msg Reply Store) :
    Machine (State Party Msg Reply Store) (Label Env) where
  init := s₀
  step := P.step

/-- What each action can do. -/
inductive Step (s : State Party Msg Reply Store) :
    Label Env → State Party Msg Reply Store → Prop
  | check {i : ℕ} {c : Call Party Msg Reply} (hc : s.calls[i]? = some c)
      (hpc : c.pc = .sent) :
      Step s (.check i) (s.setPc i c (P.checkPc s.store c))
  | commit {i : ℕ} {c : Call Party Msg Reply} (hc : s.calls[i]? = some c)
      (hpc : c.pc = .admitted) :
      Step s (.commit i) { s.setPc i c (.calling (P.outgoing c.dst c.msg)) with
        store := P.commit s.store c.dst c.msg }
  | send {i : ℕ} {c : Call Party Msg Reply} {p : Party} {m : Msg}
      {todo : List (Party × Msg)} (hc : s.calls[i]? = some c)
      (hpc : c.pc = .calling ((p, m) :: todo)) :
      Step s (.send i) { s with
        calls := s.calls.set i { c with pc := .waiting s.calls.length todo } ++ [⟨p, m, .sent⟩] }
  | collect {i id : ℕ} {c d : Call Party Msg Reply} {todo : List (Party × Msg)} {r : Reply}
      (hc : s.calls[i]? = some c) (hpc : c.pc = .waiting id todo)
      (hd : s.calls[id]? = some d) (hr : d.pc.answer = some r) :
      Step s (.collect i) { s.setPc i c (.calling todo) with
        store := P.settle s.store c.dst c.msg d.dst (some r) }
  | expire {i id : ℕ} {c d : Call Party Msg Reply} {todo : List (Party × Msg)}
      (hc : s.calls[i]? = some c) (hpc : c.pc = .waiting id todo)
      (hd : s.calls[id]? = some d) :
      Step s (.expire i) { s.setPc i c (.calling todo) with
        store := P.settle s.store c.dst c.msg d.dst none }
  | finish {i : ℕ} {c : Call Party Msg Reply} (hc : s.calls[i]? = some c)
      (hpc : c.pc = .calling []) :
      Step s (.finish i) { s.setPc i c (.returned (P.reply c.dst c.msg)) with
        store := P.finish s.store c.dst c.msg }
  | env {e : Env} {σ : Store} (he : P.env s.store e = some σ) :
      Step s (.env e) { s with store := σ }

variable {P} {s s' : State Party Msg Reply Store} {l : Label Env}

/-- `Step` is the inversion of `step`. -/
theorem step_iff : P.step s l = some s' ↔ P.Step s l s' := by
  constructor
  · intro h
    cases l with
    | check i =>
      simp only [step] at h
      split at h
      · next dst msg hc =>
        obtain rfl := Option.some.inj h
        exact .check hc rfl
      · exact absurd h (by simp)
    | commit i =>
      simp only [step] at h
      split at h
      · next dst msg hc =>
        obtain rfl := Option.some.inj h
        exact .commit hc rfl
      · exact absurd h (by simp)
    | send i =>
      simp only [step] at h
      split at h
      · next dst msg p m todo hc =>
        obtain rfl := Option.some.inj h
        -- the constructor reads the list off the call, so the call is given
        exact .send (c := ⟨dst, msg, .calling ((p, m) :: todo)⟩) hc rfl
      · exact absurd h (by simp)
    | collect i =>
      simp only [step] at h
      split at h
      · next dst msg id todo hc =>
        split at h
        · next d hd =>
          split at h
          · next r hr =>
            obtain rfl := Option.some.inj h
            exact .collect hc rfl hd hr
          · exact absurd h (by simp)
        · exact absurd h (by simp)
      · exact absurd h (by simp)
    | expire i =>
      simp only [step] at h
      split at h
      · next dst msg id todo hc =>
        split at h
        · next d hd =>
          obtain rfl := Option.some.inj h
          exact .expire hc rfl hd
        · exact absurd h (by simp)
      · exact absurd h (by simp)
    | finish i =>
      simp only [step] at h
      split at h
      · next dst msg hc =>
        obtain rfl := Option.some.inj h
        exact .finish hc rfl
      · exact absurd h (by simp)
    | env e =>
      -- the environment moves the store only
      obtain ⟨σ, hσ, rfl⟩ := Option.map_eq_some_iff.mp h
      exact .env hσ
  · intro h
    cases h with
    | @check i c hc hpc =>
      -- each rule asks for the counter of its call
      obtain ⟨dst, msg, pc⟩ := c
      obtain rfl : pc = .sent := hpc
      simp only [step, hc]
    | @commit i c hc hpc =>
      obtain ⟨dst, msg, pc⟩ := c
      obtain rfl : pc = .admitted := hpc
      simp only [step, hc]
    | @send i c p m todo hc hpc =>
      obtain ⟨dst, msg, pc⟩ := c
      obtain rfl : pc = .calling ((p, m) :: todo) := hpc
      simp only [step, hc]
    | @collect i id c d todo r hc hpc hd hr =>
      obtain ⟨dst, msg, pc⟩ := c
      obtain rfl : pc = .waiting id todo := hpc
      simp only [step, hc, hd, hr]
    | @expire i id c d todo hc hpc hd =>
      obtain ⟨dst, msg, pc⟩ := c
      obtain rfl : pc = .waiting id todo := hpc
      simp only [step, hc, hd]
    | @finish i c hc hpc =>
      obtain ⟨dst, msg, pc⟩ := c
      obtain rfl : pc = .calling [] := hpc
      simp only [step, hc]
    | env he => simp only [step, he, Option.map_some]

end Cascade
end Framework
