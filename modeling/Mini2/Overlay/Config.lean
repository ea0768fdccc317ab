import Mini2.Data.Text
import Mini2.Overlay.Topology
import Mini2.Portal.RequestRegistry

/-!
# The topology file

`Config.load` parses the line-oriented configuration that every node reads. An
edge line enters each of its ends into the peers of the other (`load_symm`), so
a configuration whose edges name declared nodes is an overlay, for every order
in which the unordered containers of the code are iterated (`Config.overlay`).
-/

namespace Mini2

/-- `NodeEntry`. -/
structure NodeEntry where
  id : Str
  host : Str
  port : ℕ
  lang : Str
  isRoot : Bool
  deriving DecidableEq

/-- `Config`; its unordered maps are finite maps. -/
structure Config where
  nodes : AList fun _ : Str => NodeEntry
  peers : AList fun _ : Str => Finset Str
  partitions : AList fun _ : Str => Str
  params : AList fun _ : Str => Str

/-- What `Config::load` throws. -/
inductive ConfigError
  | cannotOpen (path : Str)
  | badNode (lineno : ℕ)
  | missingHostPort (id : Str)
  | badEdge (lineno : ℕ)
  | badPartition (lineno : ℕ)
  | badParam (lineno : ℕ)
  | unknownDirective (kw : Str) (lineno : ℕ)
  deriving DecidableEq

/-- The text of the exception. -/
def ConfigError.what : ConfigError → Str
  | .cannotOpen path => "Config: cannot open ".toList ++ path
  | .badNode lineno => "Config: bad node line ".toList ++ toDec lineno
  | .missingHostPort id => "Config: node ".toList ++ id ++ " missing host/port".toList
  | .badEdge lineno => "Config: bad edge line ".toList ++ toDec lineno
  | .badPartition lineno => "Config: bad partition line ".toList ++ toDec lineno
  | .badParam lineno => "Config: bad param line ".toList ++ toDec lineno
  | .unknownDirective kw lineno =>
    "Config: unknown directive '".toList ++ kw ++ "' on line ".toList ++ toDec lineno

/-- `key=value`; none without an equals sign. -/
def parseKv (tok : Str) : Option (Str × Str) :=
  if '=' ∈ tok then some (tok.takeWhile (· ≠ '='), (tok.dropWhile (· ≠ '=')).tail) else none

/-- One attribute of a node line. An unknown one is skipped. -/
def NodeEntry.setAttr (e : NodeEntry) (tok : Str) : NodeEntry :=
  match parseKv tok with
  | none => e
  | some (k, v) =>
    if k = "host".toList then { e with host := v }
    else if k = "port".toList then { e with port := (atoi v % 2 ^ 16).toNat }
    else if k = "lang".toList then { e with lang := v }
    else if k = "root".toList then
      { e with isRoot := v = "true".toList ∨ v = "1".toList ∨ v = "yes".toList }
    else e

namespace Config

/-- The entry that a node line declares. -/
def parseNode (id : Str) (attrs : List Str) : NodeEntry :=
  attrs.foldl NodeEntry.setAttr ⟨id, [], 0, [], false⟩

def empty : Config := ⟨∅, ∅, ∅, ∅⟩

/-- `cfg.peers[a].insert(b)` -/
def addPeer (peers : AList fun _ : Str => Finset Str) (a b : Str) :
    AList fun _ : Str => Finset Str :=
  peers.insert a (insert b ((peers.lookup a).getD ∅))

/-- `cfg.peers[id]`, for its effect: the key exists afterwards. -/
def touchPeer (peers : AList fun _ : Str => Finset Str) (id : Str) :
    AList fun _ : Str => Finset Str :=
  peers.insert id ((peers.lookup id).getD ∅)

/-- The words of a line, without its comment. -/
def tokens (raw : Str) : List Str := splitWhitespace (trim (raw.takeWhile (· ≠ '#')))

/-- One line of the file. -/
def loadLine (cfg : Config) (lineno : ℕ) (raw : Str) : Except ConfigError Config :=
  match tokens raw with
  | [] => .ok cfg
  | kw :: args =>
    if kw = "node".toList then
      match args with
      | [] => .error (.badNode lineno)
      | id :: attrs =>
        let e := parseNode id attrs
        if e.host = [] ∨ e.port = 0 then .error (.missingHostPort e.id)
        else .ok { cfg with nodes := cfg.nodes.insert e.id e, peers := touchPeer cfg.peers e.id }
    else if kw = "edge".toList then
      match args with
      | [a, b] => .ok { cfg with peers := addPeer (addPeer cfg.peers a b) b a }
      | _ => .error (.badEdge lineno)
    else if kw = "partition".toList then
      match args with
      | [id, path] => .ok { cfg with partitions := cfg.partitions.insert id path }
      | _ => .error (.badPartition lineno)
    else if kw = "param".toList then
      match args with
      | [key, val] => .ok { cfg with params := cfg.params.insert key val }
      | _ => .error (.badParam lineno)
    else .error (.unknownDirective kw lineno)

/-- The lines from line `lineno` on. -/
def loadLines (cfg : Config) (lineno : ℕ) : List Str → Except ConfigError Config
  | [] => .ok cfg
  | raw :: rest => do loadLines (← loadLine cfg lineno raw) (lineno + 1) rest

/-- `Config::load` of the file at `path`, none if it cannot be opened. -/
def load (path : Str) (file : Option Str) : Except ConfigError Config :=
  match file with
  | none => .error (.cannotOpen path)
  | some text => loadLines empty 1 (lines text)

/-! ### Accessors -/

/-- `Config::neighborsOf`. -/
def neighborsOf (cfg : Config) (id : Str) : Finset Str := (cfg.peers.lookup id).getD ∅

/-- `Config::allNodeIds`, in some order. -/
def allNodeIds (cfg : Config) : List Str := cfg.nodes.keys

/-- `Config::paramInt`. -/
def paramInt (cfg : Config) (key : String) (default : ℤ) : ℤ :=
  match cfg.params.lookup key.toList with
  | none => default
  | some s => atoi s

/-- The conversion of an `int` to `std::size_t`. -/
def toSize (i : ℤ) : ℕ := (i % 2 ^ 64).toNat

/-- The conversion of an `int` to `std::uint32_t`. -/
def toU32 (i : ℤ) : UInt32 := UInt32.ofNat (i % 2 ^ 32).toNat

/-- The values that the node servers read for a request. -/
def requestParams (cfg : Config) : RequestParams where
  chunkBufferCap := toSize (cfg.paramInt "chunk_buffer_cap" 65536)
  initialChunkRows := toU32 (cfg.paramInt "initial_chunk_rows" 512)
  minChunkRows := toU32 (cfg.paramInt "min_chunk_rows" 64)
  maxChunkRows := toU32 (cfg.paramInt "max_chunk_rows" 4096)
  cacheMaxRows := toSize (cfg.paramInt "cache_max_rows" 50000)
  pushBackoffMs := toU32 (cfg.paramInt "push_backoff_ms" 25)

/-! ### Symmetric adjacency -/

theorem mem_addPeer {peers : AList fun _ : Str => Finset Str} {a b n m : Str} :
    m ∈ ((addPeer peers a b).lookup n).getD ∅ ↔
      (n = a ∧ m = b) ∨ m ∈ (peers.lookup n).getD ∅ := by
  unfold addPeer
  by_cases hn : n = a
  · subst hn
    simp [AList.lookup_insert]
  · simp [AList.lookup_insert_ne hn, hn]

theorem lookup_touchPeer {peers : AList fun _ : Str => Finset Str} {id n : Str} :
    ((touchPeer peers id).lookup n).getD ∅ = (peers.lookup n).getD ∅ := by
  unfold touchPeer
  by_cases hn : n = id
  · subst hn
    simp [AList.lookup_insert]
  · simp [AList.lookup_insert_ne hn]

/-- Each end of an edge is a peer of the other. -/
def Symm (cfg : Config) : Prop := ∀ a b, b ∈ cfg.neighborsOf a → a ∈ cfg.neighborsOf b

theorem symm_empty : empty.Symm := by
  intro a b h
  exact absurd h (by simp [neighborsOf, empty])

/-- An edge line keeps the adjacency symmetric, and so does every other line. -/
theorem Symm.loadLine {cfg cfg' : Config} {lineno : ℕ} {raw : Str} (h : cfg.Symm)
    (hload : cfg.loadLine lineno raw = .ok cfg') : cfg'.Symm := by
  unfold Config.loadLine at hload
  split at hload
  · obtain rfl := Except.ok.inj hload
    exact h
  · split at hload
    · split at hload
      · exact absurd hload (by simp)
      · -- a node, which is left out of the adjacency if it has no edges
        next id attrs =>
        simp only at hload
        split at hload
        · exact absurd hload (by simp)
        · obtain rfl := Except.ok.inj hload
          intro a b hab
          simp only [neighborsOf, lookup_touchPeer] at hab ⊢
          exact h a b hab
    · split at hload
      · split at hload
        · -- an edge is put in at both ends
          next u v =>
          -- a line without words
          obtain rfl := Except.ok.inj hload
          intro a b hab
          simp only [neighborsOf, mem_addPeer] at hab ⊢
          rcases hab with ⟨rfl, rfl⟩ | ⟨rfl, rfl⟩ | hab
          · exact Or.inr (Or.inl ⟨rfl, rfl⟩)
          · exact Or.inl ⟨rfl, rfl⟩
          · exact Or.inr (Or.inr (h a b hab))
        · exact absurd hload (by simp)
      · split at hload
        · split at hload
          · obtain rfl := Except.ok.inj hload
            exact h
          · exact absurd hload (by simp)
        · split at hload
          · -- a partition or a parameter leaves the adjacency alone
            split at hload
            · obtain rfl := Except.ok.inj hload
              exact h
            · exact absurd hload (by simp)
          · exact absurd hload (by simp)

theorem Symm.loadLines {cfg cfg' : Config} {lineno : ℕ} {raws : List Str} (h : cfg.Symm)
    (hload : cfg.loadLines lineno raws = .ok cfg') : cfg'.Symm := by
  induction raws generalizing cfg lineno with
  | nil =>
    obtain rfl := Except.ok.inj hload
    exact h
  | cons raw rest ih =>
    unfold Config.loadLines at hload
    cases hline : cfg.loadLine lineno raw with
    | error e => rw [hline] at hload; exact absurd hload (by simp [bind, Except.bind])
    | ok cfg₁ =>
      rw [hline] at hload
      exact ih (h.loadLine hline) hload

/-- **The adjacency that `load` builds is symmetric.** -/
theorem load_symm {path : Str} {file : Option Str} {cfg : Config}
    (hload : load path file = .ok cfg) : cfg.Symm := by
  unfold load at hload
  split at hload
  · exact absurd hload (by simp)
  · exact symm_empty.loadLines hload

/-! ### The overlay of a configuration -/

/-- The edges name declared nodes. -/
def Declared (cfg : Config) : Prop := ∀ a b, b ∈ cfg.neighborsOf a → b ∈ cfg.nodes

/-- `root` is the one node whose entry is marked as root. -/
def IsOnlyRoot (cfg : Config) (root : Str) : Prop :=
  ∀ id, (∃ e, cfg.nodes.lookup id = some e ∧ e.isRoot = true) ↔ id = root

/-- `T` is how node servers that iterate the containers of `cfg` in some order
read it. -/
structure ReadAs (cfg : Config) (root : Str) (T : Topology Str) : Prop where
  nodes : T.nodes.Perm cfg.allNodeIds
  portal : T.portal = root
  nbrs_nodup : ∀ n, (T.nbrs n).Nodup
  nbrs : ∀ n m, m ∈ T.nbrs n ↔ m ∈ cfg.neighborsOf n
  selfRoute : T.selfRoute = "__self__".toList
  cacheProducer : T.cacheProducer = "__cache__".toList

/-- The overlay of a configuration whose edges name declared nodes. -/
def overlay {path : Str} {file : Option Str} {cfg : Config} {root : Str} {T : Topology Str}
    (hload : load path file = .ok cfg) (hdecl : cfg.Declared) (hroot : cfg.IsOnlyRoot root)
    (hT : cfg.ReadAs root T) : Overlay Str where
  toTopology := T
  nodes_nodup := hT.nodes.nodup_iff.mpr cfg.nodes.keys_nodup
  portal_mem := by
    obtain ⟨e, he, -⟩ := (hroot root).mpr rfl
    rw [hT.portal, hT.nodes.mem_iff]
    exact AList.mem_keys.mp (AList.lookup_isSome.mp (by rw [he]; rfl))
  nbrs_nodup := hT.nbrs_nodup
  nbrs_mem {n m} hm := by
    rw [hT.nodes.mem_iff]
    exact AList.mem_keys.mp (hdecl n m ((hT.nbrs n m).mp hm))
  nbrs_symm {n m} hm := (hT.nbrs m n).mpr (load_symm hload n m ((hT.nbrs n m).mp hm))

/-! ### A file for two nodes -/

/-- Two nodes and their edge. -/
def pairText : Str :=
  "node A host=h port=1 root=true\nnode B host=h port=2 # a leaf\nedge A B\n".toList

/-- What `pairText` declares. -/
def pairConfig : Config where
  nodes := AList.insert ['B'] ⟨['B'], ['h'], 2, [], false⟩
    (AList.insert ['A'] ⟨['A'], ['h'], 1, [], true⟩ ∅)
  peers := addPeer (addPeer (touchPeer (touchPeer ∅ ['A']) ['B'])
    ['A'] ['B']) ['B'] ['A']
  partitions := ∅
  params := ∅

theorem load_pairText : load "topology.conf".toList (some pairText) = .ok pairConfig := rfl

theorem mem_neighborsOf_pair {a b : Str} : b ∈ pairConfig.neighborsOf a ↔
    (a = ['B'] ∧ b = ['A']) ∨ (a = ['A'] ∧ b = ['B']) := by
  simp only [neighborsOf, pairConfig, mem_addPeer, lookup_touchPeer]
  simp

theorem pair_declared : pairConfig.Declared := by
  intro a b hb
  rcases mem_neighborsOf_pair.mp hb with ⟨-, rfl⟩ | ⟨-, rfl⟩
  · exact (AList.mem_insert _).mpr (Or.inr ((AList.mem_insert _).mpr (Or.inl rfl)))
  · exact (AList.mem_insert _).mpr (Or.inl rfl)

theorem pair_isOnlyRoot : pairConfig.IsOnlyRoot ['A'] := by
  intro id
  by_cases hB : id = ['B']
  · rw [hB, pairConfig, AList.lookup_insert]
    simp
  · rw [pairConfig, AList.lookup_insert_ne hB]
    by_cases hA : id = ['A']
    · rw [hA, AList.lookup_insert]
      simp
    · rw [AList.lookup_insert_ne hA, AList.lookup_empty]
      simp [hA]

/-- A reading of `pairConfig`. -/
def pairTopology : Topology Str where
  nodes := [['A'], ['B']]
  portal := ['A']
  nbrs n := if n = ['A'] then [['B']] else if n = ['B'] then [['A']] else []
  selfRoute := "__self__".toList
  cacheProducer := "__cache__".toList

theorem pair_readAs : pairConfig.ReadAs ['A'] pairTopology where
  nodes := List.Perm.swap _ _ _
  portal := rfl
  nbrs_nodup n := by
    unfold pairTopology
    dsimp only
    split
    · exact List.nodup_singleton _
    · split
      · exact List.nodup_singleton _
      · exact List.nodup_nil
  nbrs n m := by
    rw [mem_neighborsOf_pair]
    unfold pairTopology
    dsimp only
    split
    · next hA => subst hA; simp
    · next hA =>
      split
      · next hB => subst hB; simp
      · next hB =>
        -- another name has no edge in the file
        constructor
        · intro h
          exact absurd h List.not_mem_nil
        · rintro (⟨h, -⟩ | ⟨h, -⟩)
          · exact absurd h hB
          · exact absurd h hA
  selfRoute := rfl
  cacheProducer := rfl

end Config
end Mini2
