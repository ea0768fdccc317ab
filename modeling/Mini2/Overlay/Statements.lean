import Mini2.Data.Numeral
import Mini2.Overlay.Config

/-!
# Topology files as statements

A topology file is a sequence of statements, each the words of a line. Whatever reads it
refuses the file if it refuses a statement, and otherwise keeps what was declared last
of each node, partition and parameter, and all edges.

`Tables.declare` is this reading of one statement, for any way to read the attributes of a
node. `describes_declareAll` says what is left of all of them, and `load_tables` that
`Config::load` reads a file so.
-/

namespace Mini2

/-! ### Words -/

section Words

variable (p : Char → Bool)

/-- The words of a line without its comment, where `p` says what separates words. -/
def words (raw : Str) : List Str :=
  let line := raw.takeWhile (· ≠ '#')
  (((line.dropWhile p).reverse.dropWhile p).reverse.splitOnP p).filter (· ≠ [])

/-- A word consists of characters of its line. -/
theorem subset_of_mem_words {raw w : Str} (hw : w ∈ words p raw) : w ⊆ raw := by
  have h_split := mem_of_mem_splitOnP (List.mem_of_mem_filter hw)
  intro c hc
  have h_back := (List.dropWhile_subset p) (List.mem_reverse.mp (h_split hc))
  exact List.takeWhile_subset _ (List.dropWhile_subset p (List.mem_reverse.mp h_back))

variable {p} {q : Char → Bool}

/-- Only what separates the characters of a line matters. -/
theorem words_congr {raw : Str} (h : ∀ c ∈ raw, p c = q c) : words p raw = words q raw := by
  have h_line : ∀ c ∈ raw.takeWhile (· ≠ '#'), p c = q c :=
    fun c hc => h c (List.takeWhile_subset _ hc)
  have h_front : ∀ c ∈ ((raw.takeWhile (· ≠ '#')).dropWhile q).reverse, p c = q c :=
    fun c hc => h_line c (List.dropWhile_subset q (List.mem_reverse.mp hc))
  have h_back : ∀ c ∈ (((raw.takeWhile (· ≠ '#')).dropWhile q).reverse.dropWhile q).reverse,
      p c = q c :=
    fun c hc => h_front c (List.dropWhile_subset q (List.mem_reverse.mp hc))
  unfold words
  dsimp only
  rw [dropWhile_congr h_line, dropWhile_congr h_front, splitOnP_congr h_back]

end Words

/-! ### Attributes -/

/-- The last of some entries that has a value. -/
def lastSome {α β : Type*} (f : α → Option β) (l : List α) : Option β := l.reverse.findSome? f

@[simp] theorem lastSome_nil {α β : Type*} (f : α → Option β) : lastSome f [] = none := rfl

theorem exists_of_lastSome {α β : Type*} {f : α → Option β} {l : List α} {b : β}
    (h : lastSome f l = some b) : ∃ a ∈ l, f a = some b := by
  obtain ⟨a, ha, hab⟩ := List.exists_of_findSome?_eq_some h
  exact ⟨a, List.mem_reverse.mp ha, hab⟩

@[simp] theorem lastSome_concat {α β : Type*} (f : α → Option β) (l : List α) (a : α) :
    lastSome f (l ++ [a]) = (f a).or (lastSome f l) := by
  unfold lastSome
  rw [List.reverse_append, List.reverse_singleton, List.singleton_append, List.findSome?_cons]
  cases f a <;> rfl

/-- The value that a word gives to an attribute. -/
def attrValue (key : String) (tok : Str) : Option Str :=
  (parseKv tok).bind fun kv => if kv.1 = key.toList then some kv.2 else none

/-- The value that an attribute ends up with. -/
def attr (key : String) (attrs : List Str) : Option Str := lastSome (attrValue key) attrs

theorem attr_concat (key : String) (attrs : List Str) (tok : Str) :
    attr key (attrs ++ [tok]) = (attrValue key tok).or (attr key attrs) :=
  lastSome_concat _ _ _

theorem attrValue_none {tok : Str} (h : parseKv tok = none) (key : String) :
    attrValue key tok = none := by
  rw [attrValue, h]
  rfl

theorem attrValue_some {tok k v : Str} (h : parseKv tok = some (k, v)) (key : String) :
    attrValue key tok = if k = key.toList then some v else none := by
  rw [attrValue, h]
  rfl

/-! ### Statements -/

/-- What the statements of a file are read into. -/
structure Tables (Entry : Type) where
  nodes : AList fun _ : Str => Entry
  peers : AList fun _ : Str => Finset Str
  partitions : AList fun _ : Str => Str
  params : AList fun _ : Str => Str

namespace Tables

variable {Entry : Type} (ok : List Str → Prop) [DecidablePred ok]
  (entry : Str → List Str → Entry)

def empty : Tables Entry := ⟨∅, ∅, ∅, ∅⟩

/-- Read one statement; none where it is refused. -/
def declare (t : Tables Entry) : List Str → Option (Tables Entry)
  | [] => some t
  | kw :: args =>
    if kw = "node".toList then
      match args with
      | [] => none
      | id :: attrs =>
        if ok attrs then
          some { t with
            nodes := t.nodes.insert id (entry id attrs), peers := Config.touchPeer t.peers id }
        else none
    else if kw = "edge".toList then
      match args with
      | [a, b] => some { t with peers := Config.addPeer (Config.addPeer t.peers a b) b a }
      | _ => none
    else if kw = "partition".toList then
      match args with
      | [id, path] => some { t with partitions := t.partitions.insert id path }
      | _ => none
    else if kw = "param".toList then
      match args with
      | [key, val] => some { t with params := t.params.insert key val }
      | _ => none
    else none

/-- Read all statements. -/
def declareAll (S : List (List Str)) : Option (Tables Entry) := S.foldlM (declare ok entry) empty

/-- A statement that is not refused: nothing, a node with acceptable attributes, or two
names after one of the other words. -/
inductive Accepted (ok : List Str → Prop) : List Str → Prop
  | blank : Accepted ok []
  | node {id : Str} {attrs : List Str} (h : ok attrs) : Accepted ok ("node".toList :: id :: attrs)
  | edge (a b : Str) : Accepted ok ["edge".toList, a, b]
  | partition (id path : Str) : Accepted ok ["partition".toList, id, path]
  | param (key val : Str) : Accepted ok ["param".toList, key, val]

/-- What a statement does to the tables. -/
inductive Declares (ok : List Str → Prop) (entry : Str → List Str → Entry) (t : Tables Entry) :
    List Str → Tables Entry → Prop
  | blank : Declares ok entry t [] t
  | node {id : Str} {attrs : List Str} (h : ok attrs) :
      Declares ok entry t ("node".toList :: id :: attrs) { t with
        nodes := t.nodes.insert id (entry id attrs), peers := Config.touchPeer t.peers id }
  | edge (a b : Str) : Declares ok entry t ["edge".toList, a, b]
      { t with peers := Config.addPeer (Config.addPeer t.peers a b) b a }
  | partition (id path : Str) : Declares ok entry t ["partition".toList, id, path]
      { t with partitions := t.partitions.insert id path }
  | param (key val : Str) : Declares ok entry t ["param".toList, key, val]
      { t with params := t.params.insert key val }

variable {ok} {entry} {t t' : Tables Entry} {s : List Str}

/-- **One statement.** -/
theorem declares_of_declare (h : declare ok entry t s = some t') : Declares ok entry t s t' := by
  unfold declare at h
  split at h
  · obtain rfl := Option.some.inj h
    exact .blank
  -- the first word decides, and refuses every shape but that of its statement
  next kw args =>
  split at h
  · next hkw =>
    subst hkw
    split at h
    · exact absurd h (by simp)
    · split at h
      · next hok =>
        obtain rfl := Option.some.inj h
        exact .node hok
      · exact absurd h (by simp)
  split at h
  · next hkw =>
    subst hkw
    split at h
    · obtain rfl := Option.some.inj h
      exact .edge _ _
    · exact absurd h (by simp)
  split at h
  · next hkw =>
    subst hkw
    split at h
    · obtain rfl := Option.some.inj h
      exact .partition _ _
    · exact absurd h (by simp)
  split at h
  · next hkw =>
    subst hkw
    split at h
    · obtain rfl := Option.some.inj h
      exact .param _ _
    · exact absurd h (by simp)
  · exact absurd h (by simp)

omit [DecidablePred ok] in
theorem Declares.accepted (h : Declares ok entry t s t') : Accepted ok s := by
  cases h with
  | blank => exact .blank
  | node h => exact .node h
  | edge a b => exact .edge a b
  | partition id path => exact .partition id path
  | param key val => exact .param key val

/-- A statement is accepted or refused whatever the tables are. -/
theorem declare_isSome : (declare ok entry t s).isSome ↔ Accepted ok s := by
  constructor
  · intro h
    obtain ⟨t', h_some⟩ := Option.isSome_iff_exists.mp h
    exact (declares_of_declare h_some).accepted
  · intro h
    cases h with
    | blank => rfl
    | node h =>
      unfold declare
      dsimp only
      rw [if_pos rfl, if_pos h]
      rfl
    | edge a b => rfl
    | partition id path => rfl
    | param key val => rfl

/-- Whether a statement is accepted is seen by reading it into empty tables. -/
instance : DecidablePred (Accepted ok) := fun s =>
  have h_accepted : (declare ok (fun _ _ => ()) empty s).isSome ↔ Accepted ok s := declare_isSome
  decidable_of_iff _ h_accepted

omit [DecidablePred ok] in
theorem accepted_congr {ok' : List Str → Prop} (h : ∀ attrs, ok attrs ↔ ok' attrs) :
    Accepted ok s ↔ Accepted ok' s := by
  rw [show ok = ok' from funext fun attrs => propext (h attrs)]

/-! ### What is declared -/

/-- The attributes that a statement declares a node with. -/
def nodeAttrs (id : Str) : List Str → Option (List Str)
  | kw :: id' :: attrs => if kw = "node".toList ∧ id' = id then some attrs else none
  | _ => none

/-- The value that a statement gives to a partition or a parameter. -/
def pairValue (kw : String) (key : Str) : List Str → Option Str
  | [kw', key', val] => if kw' = kw.toList ∧ key' = key then some val else none
  | _ => none

/-- The statement joins two nodes. -/
def Joins (n m : Str) (s : List Str) : Prop :=
  s = ["edge".toList, n, m] ∨ s = ["edge".toList, m, n]

/-- The tables hold what a list of statements declares. -/
structure Describes (entry : Str → List Str → Entry) (t : Tables Entry) (S : List (List Str)) :
    Prop where
  nodes : ∀ id, t.nodes.lookup id = (lastSome (nodeAttrs id) S).map (entry id)
  peers : ∀ n m, m ∈ (t.peers.lookup n).getD ∅ ↔ ∃ s ∈ S, Joins n m s
  partitions : ∀ id, t.partitions.lookup id = lastSome (pairValue "partition" id) S
  params : ∀ key, t.params.lookup key = lastSome (pairValue "param" key) S

theorem eq_of_nodeAttrs {id : Str} {s attrs : List Str} (h : nodeAttrs id s = some attrs) :
    s = "node".toList :: id :: attrs := by
  unfold nodeAttrs at h
  split at h
  · split at h
    · next h_node =>
      obtain ⟨rfl, rfl⟩ := h_node
      rw [Option.some.inj h]
    · exact absurd h (by simp)
  · exact absurd h (by simp)

omit [DecidablePred ok] in
/-- A node that has been declared has been accepted. -/
theorem ok_of_nodeAttrs {S : List (List Str)} (hS : ∀ s ∈ S, Accepted ok s) {id : Str}
    {attrs : List Str} (h : attrs ∈ lastSome (nodeAttrs id) S) : ok attrs := by
  obtain ⟨s, hs, h_node⟩ := exists_of_lastSome h
  have h_accepted := hS s hs
  rw [eq_of_nodeAttrs h_node] at h_accepted
  cases h_accepted with
  | node h_ok => exact h_ok

theorem describes_empty : Describes entry empty [] where
  nodes id := by simp [empty]
  peers n m := by simp [empty]
  partitions id := by simp [empty]
  params key := by simp [empty]

section Others

variable {kw' : Str} {args : List Str}

theorem nodeAttrs_of_ne (hkw : kw' ≠ "node".toList) (id : Str) :
    nodeAttrs id (kw' :: args) = none := by
  unfold nodeAttrs
  split
  · next heq => exact if_neg fun h => hkw ((List.cons.inj heq).1.trans h.1)
  · rfl

theorem pairValue_of_ne {kw : String} (hkw : kw' ≠ kw.toList) (key : Str) :
    pairValue kw key (kw' :: args) = none := by
  unfold pairValue
  split
  · next heq => exact if_neg fun h => hkw ((List.cons.inj heq).1.trans h.1)
  · rfl

theorem not_joins_of_ne (hkw : kw' ≠ "edge".toList) (n m : Str) : ¬ Joins n m (kw' :: args) := by
  rintro (h | h)
  · exact hkw (List.cons.inj h).1
  · exact hkw (List.cons.inj h).1

end Others

theorem joins_edge {n m a b : Str} :
    Joins n m ["edge".toList, a, b] ↔ (n = a ∧ m = b) ∨ (n = b ∧ m = a) := by
  unfold Joins
  rw [List.cons_eq_cons, List.cons_eq_cons, List.cons_eq_cons, List.cons_eq_cons,
    List.cons_eq_cons, List.cons_eq_cons]
  grind

/-- One more statement joins what it joins. -/
theorem exists_joins_concat {n m : Str} {S : List (List Str)} {s : List Str} :
    (∃ s' ∈ S ++ [s], Joins n m s') ↔ (∃ s' ∈ S, Joins n m s') ∨ Joins n m s := by
  constructor
  · rintro ⟨s', hs', hj⟩
    rcases List.mem_append.mp hs' with hs' | hs'
    · exact Or.inl ⟨s', hs', hj⟩
    · exact Or.inr (List.mem_singleton.mp hs' ▸ hj)
  · rintro (⟨s', hs', hj⟩ | hj)
    · exact ⟨s', List.mem_append_left _ hs', hj⟩
    · exact ⟨s, List.mem_append_right _ (List.mem_singleton_self s), hj⟩

/-- A key that is set has the value set; the others keep theirs. -/
theorem lookup_insert_or {β : Type} (l : AList fun _ : Str => β) (id id' : Str) (b : β) :
    (l.insert id b).lookup id' = (if id = id' then some b else none).or (l.lookup id') := by
  split
  · next h =>
    subst h
    exact AList.lookup_insert _
  · next h => exact AList.lookup_insert_ne (Ne.symm h)

/-! ### What one statement does to each table -/

omit [DecidablePred ok] in
theorem Declares.nodes_lookup (hd : Declares ok entry t s t') (id : Str) :
    t'.nodes.lookup id = ((nodeAttrs id s).map (entry id)).or (t.nodes.lookup id) := by
  cases hd with
  | blank => rfl
  | @node id' attrs hok =>
    rw [lookup_insert_or]
    by_cases h_id : id' = id
    · subst h_id
      simp [nodeAttrs]
    · simp [nodeAttrs, h_id]
  | edge a b => rw [nodeAttrs_of_ne (by decide)]; rfl
  | partition id' path => rw [nodeAttrs_of_ne (by decide)]; rfl
  | param key val => rw [nodeAttrs_of_ne (by decide)]; rfl

omit [DecidablePred ok] in
theorem Declares.mem_peers (hd : Declares ok entry t s t') (n m : Str) :
    m ∈ (t'.peers.lookup n).getD ∅ ↔ m ∈ (t.peers.lookup n).getD ∅ ∨ Joins n m s := by
  cases hd with
  | blank => exact (or_iff_left (by rintro (h | h) <;> cases h)).symm
  | @node id attrs hok =>
    show m ∈ ((Config.touchPeer t.peers id).lookup n).getD ∅ ↔ _
    rw [Config.lookup_touchPeer, or_iff_left (not_joins_of_ne (by decide) n m)]
  | edge a b =>
    rw [Config.mem_addPeer, Config.mem_addPeer, joins_edge]
    -- the two ends are entered one after the other
    calc (n = b ∧ m = a) ∨ (n = a ∧ m = b) ∨ m ∈ (t.peers.lookup n).getD ∅
        ↔ (n = a ∧ m = b) ∨ (n = b ∧ m = a) ∨ m ∈ (t.peers.lookup n).getD ∅ := or_left_comm
      _ ↔ ((n = a ∧ m = b) ∨ (n = b ∧ m = a)) ∨ m ∈ (t.peers.lookup n).getD ∅ := or_assoc.symm
      _ ↔ m ∈ (t.peers.lookup n).getD ∅ ∨ (n = a ∧ m = b) ∨ (n = b ∧ m = a) := or_comm
  | partition id path => exact (or_iff_left (not_joins_of_ne (by decide) n m)).symm
  | param key val => exact (or_iff_left (not_joins_of_ne (by decide) n m)).symm

omit [DecidablePred ok] in
theorem Declares.partitions_lookup (hd : Declares ok entry t s t') (id : Str) :
    t'.partitions.lookup id = (pairValue "partition" id s).or (t.partitions.lookup id) := by
  cases hd with
  | blank => rfl
  | node hok => rw [pairValue_of_ne (by decide)]; rfl
  | edge a b => rw [pairValue_of_ne (by decide)]; rfl
  | partition id' path =>
    rw [lookup_insert_or]
    simp [pairValue]
  | param key val => rw [pairValue_of_ne (by decide)]; rfl

omit [DecidablePred ok] in
theorem Declares.params_lookup (hd : Declares ok entry t s t') (key : Str) :
    t'.params.lookup key = (pairValue "param" key s).or (t.params.lookup key) := by
  cases hd with
  | blank => rfl
  | node hok => rw [pairValue_of_ne (by decide)]; rfl
  | edge a b => rw [pairValue_of_ne (by decide)]; rfl
  | partition id path => rw [pairValue_of_ne (by decide)]; rfl
  | param key' val =>
    rw [lookup_insert_or]
    simp [pairValue]

section Step

variable {S : List (List Str)}

omit [DecidablePred ok] in
/-- **After one more statement, the tables hold what it declares too.** -/
theorem Declares.describes (hd : Declares ok entry t s t') (h : Describes entry t S) :
    Describes entry t' (S ++ [s]) where
  nodes id := by
    rw [hd.nodes_lookup, h.nodes, lastSome_concat, Option.map_or]
  peers n m := by
    rw [hd.mem_peers, h.peers, exists_joins_concat]
  partitions id := by
    rw [hd.partitions_lookup, h.partitions, lastSome_concat]
  params key := by
    rw [hd.params_lookup, h.params, lastSome_concat]

/-- Reading statements one after the other, each is declared. -/
theorem describes_foldlM {S' : List (List Str)} (h : Describes entry t S)
    (hrun : S'.foldlM (declare ok entry) t = some t') : Describes entry t' (S ++ S') := by
  induction S' generalizing t S with
  | nil =>
    obtain rfl := Option.some.inj hrun
    rwa [List.append_nil]
  | cons s S' ih =>
    rw [List.foldlM_cons] at hrun
    obtain ⟨t₁, h_declare, h_rest⟩ := Option.bind_eq_some_iff.mp hrun
    have h₁ := (declares_of_declare h_declare).describes h
    rw [List.append_cons]
    exact ih h₁ h_rest

/-- **The tables of a file describe its statements.** -/
theorem describes_declareAll (hrun : declareAll ok entry S = some t') : Describes entry t' S :=
  describes_foldlM describes_empty hrun

theorem foldlM_isSome : (S.foldlM (declare ok entry) t).isSome ↔ ∀ s ∈ S, Accepted ok s := by
  induction S generalizing t with
  | nil => exact iff_of_true rfl fun s hs => absurd hs List.not_mem_nil
  | cons s S ih =>
    have h_accepted : (declare ok entry t s).isSome ↔ Accepted ok s := declare_isSome
    rw [List.foldlM_cons, List.forall_mem_cons, ← h_accepted]
    cases declare ok entry t s with
    | none => exact iff_of_false (by simp) (by simp)
    | some t₁ => exact ih.trans (iff_and_self.mpr fun _ => rfl)

/-- **A file is read if no statement of it is refused.** -/
theorem declareAll_isSome : (declareAll ok entry S).isSome ↔ ∀ s ∈ S, Accepted ok s :=
  foldlM_isSome

end Step

/-! ### Two readers -/

/-- Tables with the same content, up to how a node is represented. -/
structure Alike {E₁ E₂ : Type} (R : E₁ → E₂ → Prop) (t₁ : Tables E₁) (t₂ : Tables E₂) :
    Prop where
  nodes : ∀ id, Option.Rel R (t₁.nodes.lookup id) (t₂.nodes.lookup id)
  neighbors : ∀ id, (t₁.peers.lookup id).getD ∅ = (t₂.peers.lookup id).getD ∅
  partitions : ∀ id, t₁.partitions.lookup id = t₂.partitions.lookup id
  params : ∀ key, t₁.params.lookup key = t₂.params.lookup key

/-- Statements that declare the same: node for node the same attributes, as far as `R`
sees, the same edges, and the same partitions and parameters. -/
structure DeclareAlike (R : List Str → List Str → Prop) (S₁ S₂ : List (List Str)) : Prop where
  nodes : ∀ id, Option.Rel R (lastSome (nodeAttrs id) S₁) (lastSome (nodeAttrs id) S₂)
  edges : ∀ n m, (∃ s ∈ S₁, Joins n m s) ↔ ∃ s ∈ S₂, Joins n m s
  partitions : ∀ id,
    lastSome (pairValue "partition" id) S₁ = lastSome (pairValue "partition" id) S₂
  params : ∀ key, lastSome (pairValue "param" key) S₁ = lastSome (pairValue "param" key) S₂

section Readers

variable {E₁ E₂ : Type} {R : E₁ → E₂ → Prop} {entry₁ : Str → List Str → E₁}
  {entry₂ : Str → List Str → E₂} {t₁ : Tables E₁} {t₂ : Tables E₂} {S₁ S₂ : List (List Str)}

/-- Tables are alike if the statements they describe are. -/
theorem alike_iff {R' : List Str → List Str → Prop} (h₁ : Describes entry₁ t₁ S₁)
    (h₂ : Describes entry₂ t₂ S₂)
    (hR : ∀ id, ∀ a ∈ lastSome (nodeAttrs id) S₁, ∀ b ∈ lastSome (nodeAttrs id) S₂,
      (R (entry₁ id a) (entry₂ id b) ↔ R' a b)) :
    Alike R t₁ t₂ ↔ DeclareAlike R' S₁ S₂ := by
  -- an entry is made of attributes, so to compare entries is to compare these
  have h_nodes : ∀ id, Option.Rel R (t₁.nodes.lookup id) (t₂.nodes.lookup id) ↔
      Option.Rel R' (lastSome (nodeAttrs id) S₁) (lastSome (nodeAttrs id) S₂) := by
    intro id
    have h_entry := hR id
    rw [h₁.nodes, h₂.nodes]
    cases h_a : lastSome (nodeAttrs id) S₁ with
    | none => cases lastSome (nodeAttrs id) S₂ <;> simp
    | some a =>
      cases h_b : lastSome (nodeAttrs id) S₂ with
      | none => simp
      | some b => simp [h_entry a h_a b h_b]
  constructor
  · intro h
    constructor
    · exact fun id => (h_nodes id).mp (h.nodes id)
    · intro n m
      rw [← h₁.peers, ← h₂.peers, h.neighbors]
    · intro id
      rw [← h₁.partitions, ← h₂.partitions, h.partitions]
    · intro key
      rw [← h₁.params, ← h₂.params, h.params]
  · intro h
    constructor
    · exact fun id => (h_nodes id).mpr (h.nodes id)
    · intro n
      ext m
      rw [h₁.peers, h₂.peers, h.edges]
    · intro id
      rw [h₁.partitions, h₂.partitions, h.partitions]
    · intro key
      rw [h₁.params, h₂.params, h.params]

end Readers

end Tables

/-! ### `Config::load` -/

namespace Config

theorem tokens_eq (raw : Str) : tokens raw = words isSpace raw := rfl

/-- The statements of a file. -/
def statements (text : Str) : List (List Str) := (lines text).map tokens

/-- The tables of a configuration. -/
def tables (cfg : Config) : Tables NodeEntry := ⟨cfg.nodes, cfg.peers, cfg.partitions, cfg.params⟩

/-- The values of `root` that mark the portal. -/
def truth (v : Str) : Bool := v = "true".toList ∨ v = "1".toList ∨ v = "yes".toList

/-- The port that the attributes of a node give. -/
def portOf (attrs : List Str) : ℕ :=
  ((attr "port" attrs).map fun v => (atoi v % 2 ^ 16).toNat).getD 0

/-- The attributes give a host and a port. -/
def HostPort (attrs : List Str) : Prop := (attr "host" attrs).getD [] ≠ [] ∧ portOf attrs ≠ 0

instance : DecidablePred HostPort := fun _ => inferInstanceAs (Decidable (_ ∧ _))

/-- The entry that the attributes give. -/
def entryOf (id : Str) (attrs : List Str) : NodeEntry where
  id := id
  host := (attr "host" attrs).getD []
  port := portOf attrs
  lang := (attr "lang" attrs).getD []
  isRoot := ((attr "root" attrs).map truth).getD false

theorem entryOf_setAttr (id : Str) (attrs : List Str) (tok : Str) :
    (entryOf id attrs).setAttr tok = entryOf id (attrs ++ [tok]) := by
  unfold NodeEntry.setAttr
  split
  · next h_kv => simp [entryOf, portOf, attr_concat, attrValue_none h_kv]
  next k v h_kv =>
  -- a word sets the attribute it names, if any, and no other one
  simp only [entryOf, portOf, attr_concat, attrValue_some h_kv]
  split
  · next hk => subst hk; simp
  split
  · next hk => subst hk; simp
  split
  · next hk => subst hk; simp
  split
  · next hk => subst hk; simp [truth]
  · simp

theorem parseNode_eq (id : Str) (attrs : List Str) : parseNode id attrs = entryOf id attrs := by
  induction attrs using List.reverseRecOn with
  | nil => rfl
  | append_singleton attrs tok ih =>
    rw [parseNode] at ih ⊢
    rw [List.foldl_append, ih]
    exact entryOf_setAttr id attrs tok

/-- A line is read as the statement it is. -/
theorem loadLine_tables (cfg : Config) (lineno : ℕ) (raw : Str) :
    (cfg.loadLine lineno raw).toOption.map tables =
      Tables.declare HostPort entryOf cfg.tables (tokens raw) := by
  unfold loadLine Tables.declare
  cases tokens raw with
  | nil => rfl
  | cons kw args =>
    dsimp only
    split
    · cases args with
      | nil => rfl
      | cons id attrs =>
        dsimp only
        rw [parseNode_eq]
        have h_refused : (entryOf id attrs).host = [] ∨ (entryOf id attrs).port = 0 ↔
            ¬ HostPort attrs := by
          rw [HostPort, not_and_or, not_not, not_not]
          rfl
        by_cases h : HostPort attrs
        · rw [if_pos h, if_neg (fun h' => h_refused.mp h' h)]
          rfl
        · rw [if_neg h, if_pos (h_refused.mpr h)]
          rfl
    -- the other statements have two words after the first, or are refused
    split
    · rcases args with _ | ⟨a, _ | ⟨b, _ | ⟨c, args⟩⟩⟩ <;> rfl
    split
    · rcases args with _ | ⟨a, _ | ⟨b, _ | ⟨c, args⟩⟩⟩ <;> rfl
    split
    · rcases args with _ | ⟨a, _ | ⟨b, _ | ⟨c, args⟩⟩⟩ <;> rfl
    · rfl

theorem loadLines_tables (cfg : Config) (lineno : ℕ) (raws : List Str) :
    (cfg.loadLines lineno raws).toOption.map tables =
      (raws.map tokens).foldlM (Tables.declare HostPort entryOf) cfg.tables := by
  induction raws generalizing cfg lineno with
  | nil => rfl
  | cons raw rest ih =>
    rw [List.map_cons, List.foldlM_cons, ← loadLine_tables cfg lineno raw, loadLines]
    cases cfg.loadLine lineno raw with
    | error e => rfl
    | ok cfg₁ => exact ih cfg₁ (lineno + 1)

/-- **`Config::load` reads a file statement for statement.** -/
theorem load_tables (path text : Str) :
    (load path (some text)).toOption.map tables =
      Tables.declareAll HostPort entryOf (statements text) :=
  loadLines_tables empty 1 (lines text)

/-! ### Attributes by their characters -/

/-- The word gives the port: the number that it starts with, cut to a `long` and to 16 bits. -/
def WordPort (v : Str) (p : ℕ) : Prop := ∃ z, StartsWith v z ∧ clampLong z % 2 ^ 16 = p

/-- The attributes give a host, and a port other than zero. -/
def GivesHostPort (attrs : List Str) : Prop :=
  (∃ host ∈ attr "host" attrs, host ≠ []) ∧ ∃ v ∈ attr "port" attrs, ∃ p ≠ 0, WordPort v p

/-- The attributes mark the portal. -/
def MarksRoot (attrs : List Str) : Prop :=
  ∃ v ∈ attr "root" attrs, v = "true".toList ∨ v = "1".toList ∨ v = "yes".toList

theorem wordPort_iff {v : Str} {p : ℕ} : WordPort v p ↔ (atoi v % 2 ^ 16).toNat = p := by
  -- the low 16 bits are among those that the conversion to `int` keeps
  have h_bits : atoi v % 2 ^ 16 = clampLong (leadingInt v) % 2 ^ 16 := by
    unfold atoi Int.bmod
    dsimp only
    split <;> omega
  unfold WordPort
  simp only [startsWith_iff, exists_eq_left']
  rw [h_bits]
  omega

theorem exists_host_iff {attrs : List Str} :
    (∃ host ∈ attr "host" attrs, host ≠ []) ↔ (attr "host" attrs).getD [] ≠ [] := by
  cases attr "host" attrs <;> simp

theorem hostPort_iff {attrs : List Str} : HostPort attrs ↔ GivesHostPort attrs := by
  have h_port : (∃ v ∈ attr "port" attrs, ∃ p ≠ 0, WordPort v p) ↔ portOf attrs ≠ 0 := by
    unfold portOf
    cases attr "port" attrs <;> simp [wordPort_iff]
  rw [HostPort, GivesHostPort, exists_host_iff, h_port]

instance : DecidablePred GivesHostPort := fun _ => decidable_of_iff _ hostPort_iff

theorem marksRoot_iff {attrs : List Str} :
    MarksRoot attrs ↔ ((attr "root" attrs).map truth).getD false = true := by
  unfold MarksRoot truth
  cases attr "root" attrs <;> simp

end Config
end Mini2
