import Mathlib.Data.List.Perm.Basic
import Mathlib.Data.List.Nodup
import Mini2.Framework.Object

/-!
# Maps that forget the least recently used entry

`LruMap` says what such a map is, by clock readings: every use of an entry stamps it, and a
full map makes room by forgetting the entry whose stamp is the oldest. Items are found by a
key, which several items may share.

Implementations keep the entries in the order of their last use instead. `Recency` is that
list, and gives the same answers (`Recency.simulates`).
-/

namespace Framework

/-- Where keys are unique, a search for a key finds the one item that has it. -/
theorem find?_key_iff {α κ : Type*} [DecidableEq κ] {key : α → κ} {l : List α}
    (h : (l.map key).Nodup) {k : κ} {a : α} :
    l.find? (fun a => key a = k) = some a ↔ a ∈ l ∧ key a = k := by
  constructor
  · intro hfind
    exact ⟨List.mem_of_find?_eq_some hfind, by simpa using List.find?_some hfind⟩
  · rintro ⟨hmem, rfl⟩
    obtain ⟨b, hb⟩ := Option.isSome_iff_exists.mp
      (List.find?_isSome (p := fun b => key b = key a) |>.mpr ⟨a, hmem, decide_eq_true rfl⟩)
    have h_key : key b = key a := by simpa using List.find?_some hb
    rw [hb, List.inj_on_of_nodup_map h (List.mem_of_find?_eq_some hb) hmem h_key]

/-- Operations on a cache. -/
inductive CacheOp (α ν : Type*)
  | get (a : α)
  | put (a : α) (v : ν)

def CacheOp.isGet {α ν : Type*} : CacheOp α ν → Bool
  | .get _ => true
  | .put _ _ => false

/-- What a lookup has found, and how many entries there are. -/
structure CacheAnswer (ν : Type*) where
  found : Option ν
  size : ℕ
  deriving DecidableEq

/-- An entry, and when it has been used last. -/
structure LruEntry (κ ν : Type*) where
  key : κ
  value : ν
  lastUse : ℕ

/-- A map that forgets; its entries are in no particular order. -/
structure LruMap (κ ν : Type*) where
  clock : ℕ
  entries : List (LruEntry κ ν)

namespace LruMap

variable {α κ ν : Type*} [DecidableEq κ] (m : LruMap κ ν)

def lookup (k : κ) : Option ν := (m.entries.find? fun e => e.key = k).map LruEntry.value

/-- Set the entry of a key, which is now the one used last. -/
def use (k : κ) (v : ν) : LruMap κ ν where
  clock := m.clock + 1
  entries := ⟨k, v, m.clock⟩ :: m.entries.filter fun e => e.key ≠ k

/-- Forget the least recently used entry: every other one has been used after some entry. -/
def forget : LruMap κ ν :=
  { m with entries := m.entries.filter fun e => m.entries.any fun e' => e'.lastUse < e.lastUse }

/-- Look a key up, which is a use of its entry. -/
def get (k : κ) : LruMap κ ν × Option ν :=
  match m.lookup k with
  | some v => (m.use k v, some v)
  | none => (m, none)

/-- Set the entry of a key. A new entry into a full map takes the place of another one. -/
def put (capacity : ℕ) (k : κ) (v : ν) : LruMap κ ν :=
  if (m.lookup k).isNone && decide (m.entries.length ≥ capacity) then m.forget.use k v
  else m.use k v

/-- The map for items found by `key`, of which those that are not `fits` are not kept. -/
def object (key : α → κ) (fits : ν → Bool) (capacity : ℕ) :
    Object (LruMap κ ν) (CacheOp α ν) (CacheAnswer ν) where
  init := ⟨0, []⟩
  step m op :=
    match op with
    | .get a => ((m.get (key a)).1, ⟨(m.get (key a)).2, (m.get (key a)).1.entries.length⟩)
    | .put a v =>
      let m' := if capacity = 0 ∨ fits v = false then m else m.put capacity (key a) v
      (m', ⟨none, m'.entries.length⟩)

end LruMap

/-- Entries in the order of their last use, the latest first. -/
abbrev Recency (κ ν : Type*) := List (κ × ν)

namespace Recency

variable {α κ ν : Type*} [DecidableEq κ] (l : Recency κ ν)

def lookup (k : κ) : Option ν := (l.find? fun e => e.1 = k).map Prod.snd

def use (k : κ) (v : ν) : Recency κ ν := (k, v) :: l.filter fun e => e.1 ≠ k

def get (k : κ) : Recency κ ν × Option ν :=
  match lookup l k with
  | some v => (use l k v, some v)
  | none => (l, none)

def put (capacity : ℕ) (k : κ) (v : ν) : Recency κ ν :=
  if (lookup l k).isNone && decide (l.length ≥ capacity) then use l.dropLast k v else use l k v

def object (key : α → κ) (fits : ν → Bool) (capacity : ℕ) :
    Object (Recency κ ν) (CacheOp α ν) (CacheAnswer ν) where
  init := []
  step l op :=
    match op with
    | .get a => ((get l (key a)).1, ⟨(get l (key a)).2, (get l (key a)).1.length⟩)
    | .put a v =>
      let l' := if capacity = 0 ∨ fits v = false then l else put l capacity (key a) v
      (l', ⟨none, l'.length⟩)

/-- The list holds the entries of the map, sorted by their stamps. -/
def Sorts (l : Recency κ ν) (m : LruMap κ ν) : Prop :=
  ∃ es : List (LruEntry κ ν), es.Perm m.entries ∧ es.map (fun e => (e.key, e.value)) = l ∧
    es.Pairwise (fun e e' => e'.lastUse < e.lastUse) ∧ (∀ e ∈ es, e.lastUse < m.clock) ∧
      (es.map LruEntry.key).Nodup

variable {l} {m : LruMap κ ν}

omit [DecidableEq κ] in
theorem Sorts.length_eq (h : Sorts l m) : l.length = m.entries.length := by
  obtain ⟨es, h_perm, rfl, -⟩ := h
  rw [List.length_map, h_perm.length_eq]

/-- A key has one entry at most, so the order does not matter to a lookup. -/
theorem Sorts.lookup_eq (h : Sorts l m) (k : κ) : lookup l k = m.lookup k := by
  obtain ⟨es, h_perm, rfl, -, -, h_nodup⟩ := h
  -- both find the one entry with the key, if there is one
  have h_find : es.find? (fun e => e.key = k) = m.entries.find? fun e => e.key = k := by
    ext e
    rw [find?_key_iff h_nodup, find?_key_iff ((h_perm.map _).nodup_iff.mp h_nodup),
      h_perm.mem_iff]
  unfold lookup LruMap.lookup
  rw [← h_find, List.find?_map, Option.map_map]
  rfl

/-- Using an entry puts it first. -/
theorem Sorts.use (h : Sorts l m) (k : κ) (v : ν) : Sorts (use l k v) (m.use k v) := by
  obtain ⟨es, h_perm, rfl, h_sorted, h_clock, h_nodup⟩ := h
  refine ⟨⟨k, v, m.clock⟩ :: es.filter fun e => e.key ≠ k, (h_perm.filter _).cons _, ?_,
    List.pairwise_cons.mpr ⟨?_, h_sorted.filter _⟩, List.forall_mem_cons.mpr ⟨?_, ?_⟩, ?_⟩
  · rw [List.map_cons, Recency.use, List.filter_map]
    rfl
  · -- the new stamp is later than all others
    exact fun e he => h_clock e (List.mem_of_mem_filter he)
  · exact Nat.lt_succ_self _
  · exact fun e he => Nat.lt_succ_of_lt (h_clock e (List.mem_of_mem_filter he))
  · rw [List.map_cons, List.nodup_cons]
    -- the old entry of the key has been taken out
    refine ⟨fun hmem => ?_, h_nodup.sublist (List.filter_sublist.map _)⟩
    obtain ⟨e, he, h_key⟩ := List.mem_map.mp hmem
    exact absurd h_key (of_decide_eq_true (List.mem_filter.mp he).2)

omit [DecidableEq κ] in
/-- The last entry is the one with the oldest stamp. -/
theorem filter_eq_dropLast {es : List (LruEntry κ ν)}
    (h : es.Pairwise fun e e' => e'.lastUse < e.lastUse) :
    (es.filter fun e => es.any fun e' => e'.lastUse < e.lastUse) = es.dropLast := by
  rcases List.eq_nil_or_concat es with rfl | ⟨init, last, rfl⟩
  · rfl
  · rw [List.concat_eq_append] at h ⊢
    obtain ⟨-, -, h_last⟩ := List.pairwise_append.mp h
    -- all others have been used after the last entry, and it after none
    have h_old : ∀ e ∈ init, last.lastUse < e.lastUse := fun e he =>
      h_last e he last (List.mem_singleton_self last)
    have h_keep : ∀ e ∈ init, ((init ++ [last]).any fun e' => e'.lastUse < e.lastUse) = true := by
      intro e he
      exact List.any_eq_true.mpr ⟨last, by simp, decide_eq_true (h_old e he)⟩
    have h_drop : ((init ++ [last]).any fun e' => e'.lastUse < last.lastUse) = false := by
      refine List.any_eq_false.mpr fun e he => ?_
      rcases List.mem_append.mp he with he | he
      · simpa using Nat.le_of_lt (h_old e he)
      · simp [List.mem_singleton.mp he]
    rw [List.filter_append, List.filter_eq_self.mpr h_keep,
      List.filter_cons_of_neg (by simp [h_drop]), List.filter_nil, List.append_nil,
      List.dropLast_concat]

omit [DecidableEq κ] in
/-- Forgetting the least recently used entry takes the last one away. -/
theorem Sorts.forget (h : Sorts l m) : Sorts l.dropLast m.forget := by
  obtain ⟨es, h_perm, rfl, h_sorted, h_clock, h_nodup⟩ := h
  have h_sub : es.dropLast.Sublist es := List.dropLast_sublist es
  refine ⟨es.dropLast, ?_, List.map_dropLast, h_sorted.sublist h_sub,
    fun e he => h_clock e (h_sub.subset he), h_nodup.sublist (h_sub.map _)⟩
  -- which stamps are older does not depend on the order of the entries
  rw [← filter_eq_dropLast h_sorted]
  have h_any : (fun e : LruEntry κ ν => es.any fun e' => e'.lastUse < e.lastUse) =
      fun e => m.entries.any fun e' => e'.lastUse < e.lastUse :=
    funext fun e => h_perm.any_eq
  rw [h_any]
  exact h_perm.filter _

theorem Sorts.get (h : Sorts l m) (k : κ) :
    Sorts (get l k).1 (m.get k).1 ∧ (Recency.get l k).2 = (m.get k).2 := by
  unfold Recency.get LruMap.get
  rw [h.lookup_eq]
  cases m.lookup k with
  | none => exact ⟨h, rfl⟩
  | some v => exact ⟨h.use k v, rfl⟩

theorem Sorts.put (h : Sorts l m) (capacity : ℕ) (k : κ) (v : ν) :
    Sorts (put l capacity k v) (m.put capacity k v) := by
  unfold Recency.put LruMap.put
  rw [h.lookup_eq, h.length_eq]
  split
  · exact h.forget.use k v
  · exact h.use k v

/-- **Order of use is enough**: the list gives the answers of the map. -/
theorem simulates (key : α → κ) (fits : ν → Bool) (capacity : ℕ) :
    Object.Simulates (object key fits capacity) (LruMap.object key fits capacity) Sorts where
  init := ⟨[], List.Perm.refl _, rfl, List.Pairwise.nil, by simp, List.nodup_nil⟩
  step l m op h := by
    cases op with
    | get a =>
      obtain ⟨h_next, h_found⟩ := h.get (key a)
      exact ⟨h_next, congrArg₂ CacheAnswer.mk h_found h_next.length_eq⟩
    | put a v =>
      -- an entry that is not taken leaves both as they are
      have h_next : Sorts (if capacity = 0 ∨ fits v = false then l else put l capacity (key a) v)
          (if capacity = 0 ∨ fits v = false then m else m.put capacity (key a) v) := by
        split
        · exact h
        · exact h.put capacity (key a) v
      exact ⟨h_next, congrArg (CacheAnswer.mk none) h_next.length_eq⟩

end Recency
end Framework
