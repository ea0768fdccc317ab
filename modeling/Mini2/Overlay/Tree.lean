import Mathlib.Combinatorics.SimpleGraph.Acyclic
import Mini2.Overlay.Topology

/-!
# Overlays without cycles

`graph` is the overlay as an undirected graph, on which the edges of a node with itself do not
count. Without cycles, a duplicate-free walk is told by its ends (`eq_of_isChain`); and there
are none where every edge extends a path that belongs to one of its ends (`isAcyclic_of_paths`).
-/

namespace Mini2

/-- **In a forest there is one way from a vertex to another.** -/
theorem eq_of_isChain {V : Type*} {G : SimpleGraph V} (hG : G.IsAcyclic) {p q : List V}
    (hp : p.IsChain G.Adj) (hq : q.IsChain G.Adj) (hp' : p.Nodup) (hq' : q.Nodup)
    (hhead : p.head? = q.head?) (hlast : p.getLast? = q.getLast?) : p = q := by
  by_cases h_nil : p = []
  · subst h_nil
    exact (List.head?_eq_none_iff.mp hhead.symm).symm
  have h_nil' : q ≠ [] := fun h => h_nil (List.head?_eq_none_iff.mp (by rw [hhead, h]; rfl))
  rw [List.head?_eq_some_head h_nil, List.head?_eq_some_head h_nil'] at hhead
  rw [List.getLast?_eq_some_getLast h_nil, List.getLast?_eq_some_getLast h_nil'] at hlast
  -- both are the support of the one path
  let w := (SimpleGraph.Walk.ofSupport q h_nil' hq).copy (Option.some.inj hhead).symm
    (Option.some.inj hlast).symm
  have h_path : (SimpleGraph.Walk.ofSupport p h_nil hp).IsPath := by
    rw [SimpleGraph.Walk.isPath_def, SimpleGraph.Walk.support_ofSupport]
    exact hp'
  have h_path' : w.IsPath := by
    rw [SimpleGraph.Walk.isPath_def, SimpleGraph.Walk.support_copy,
      SimpleGraph.Walk.support_ofSupport]
    exact hq'
  have h_same := (hG.subsingleton_path _ _).elim ⟨_, h_path⟩ ⟨w, h_path'⟩
  calc p = (SimpleGraph.Walk.ofSupport p h_nil hp).support := by
        rw [SimpleGraph.Walk.support_ofSupport]
    _ = w.support := congrArg (fun x => SimpleGraph.Walk.support x.1) h_same
    _ = q := by rw [SimpleGraph.Walk.support_copy, SimpleGraph.Walk.support_ofSupport]

/-- **No cycles** where each vertex has a path and every edge extends one of its ends' by the
other end: the vertex with the longest path on a cycle would have one neighbour only. -/
theorem isAcyclic_of_paths {V : Type*} {G : SimpleGraph V} (path : V → List V)
    (hlast : ∀ n m, G.Adj n m → (path n).getLast? = some n)
    (hedge : ∀ n m, G.Adj n m → path m = path n ++ [m] ∨ path n = path m ++ [n]) :
    G.IsAcyclic := by
  classical
  intro v c hc
  obtain ⟨x, hx, hmax⟩ := c.support.toFinset.exists_max_image (fun u => (path u).length)
    ⟨v, List.mem_toFinset.mpr c.start_mem_support⟩
  have hx : x ∈ c.support := List.mem_toFinset.mp hx
  have h_cycle : (c.rotate x hx).IsCycle := hc.rotate hx
  -- the path of a neighbour on the cycle is not longer
  have h_short : ∀ y ∈ (c.rotate x hx).support, G.Adj x y → path x = path y ++ [x] := by
    intro y hy hadj
    have hy : y ∈ c.support := (SimpleGraph.Walk.mem_support_rotate_iff ..).mp hy
    have h_le := hmax y (List.mem_toFinset.mpr hy)
    rcases hedge x y hadj with h_longer | h_path
    · have h_len := congrArg List.length h_longer
      rw [List.length_append, List.length_singleton] at h_len
      omega
    · exact h_path
  have h_snd := (c.rotate x hx).adj_snd h_cycle.not_nil
  have h_pen := ((c.rotate x hx).adj_penultimate h_cycle.not_nil).symm
  -- both neighbours of the node on the cycle send it its path
  have h_first := h_short _ (SimpleGraph.Walk.getVert_mem_support _ _) h_snd
  have h_last := h_short _ (SimpleGraph.Walk.getVert_mem_support _ _) h_pen
  have h_same : path (c.rotate x hx).snd = path (c.rotate x hx).penultimate :=
    List.append_cancel_right (h_first.symm.trans h_last)
  refine h_cycle.snd_ne_penultimate (Option.some.inj ?_)
  rw [← hlast _ _ h_snd.symm, ← hlast _ _ h_pen.symm, h_same]

namespace Overlay

variable {Node : Type*} (O : Overlay Node)

/-- The overlay as an undirected graph. -/
def graph : SimpleGraph Node where
  Adj n m := n ≠ m ∧ O.Adj n m
  symm := ⟨fun _ _ h => ⟨h.1.symm, O.nbrs_symm h.2⟩⟩
  loopless := ⟨fun _ h => h.1 rfl⟩

/-- The overlay has no cycle, and the portal is not joined to itself. -/
structure IsTree : Prop where
  acyclic : O.graph.IsAcyclic
  portal : O.portal ∉ O.nbrs O.portal

/-- A row of nodes is a tree. -/
theorem chain_isTree : chain.IsTree where
  acyclic := by
    let path : Id3 → List Id3
      | .b => [.a, .b]
      | .c => [.a, .b, .c]
      | n => [n]
    have h_adj : ∀ n m, chain.graph.Adj n m ↔ n ≠ m ∧ m ∈ chain.nbrs n := fun _ _ => Iff.rfl
    refine isAcyclic_of_paths path (fun n _ _ => ?_) fun n m h => ?_
    · cases n <;> rfl
    · rw [h_adj] at h
      revert h
      cases n <;> cases m <;> decide
  portal := by decide

end Overlay
end Mini2
