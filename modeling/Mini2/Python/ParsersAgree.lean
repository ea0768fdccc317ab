import Mini2.Python.ConfigLoader

/-!
# The topology file on both parsers

The C++ parser and the Python parser read a file alike if both refuse a statement of it, or
if neither does and the statements declare the same: for every node the same host, the same
port, a language that is written out, and the same mark of the portal (`loads_agree_iff`).
What the parsers make of a port and of the mark is said of the characters of the words.
A line without a language has another one in Python than in C++ (`loads_differ`).

The statements themselves are the same unless the file has a carriage return or one of the
four separators of ASCII (`statements_plain`). A word is the same port to both parsers if it
is digits whose value has 16 bits, with a plus at most (`samePort_self`).
-/

namespace Mini2
namespace Python

open ConfigLoader

/-! ### The same configuration -/

/-- The same node. -/
structure SameEntry (e : Mini2.NodeEntry) (e' : ConfigLoader.NodeEntry) : Prop where
  id : e.id = e'.id
  host : e.host = e'.host
  port : (e.port : ℤ) = e'.port
  lang : e.lang = e'.lang
  isRoot : e.isRoot = e'.isRoot

/-- The same nodes, neighbour sets, partition paths and parameters. -/
structure SameConfig (cfg : Mini2.Config) (cfg' : ConfigLoader.Config) : Prop where
  nodes : ∀ id, Option.Rel SameEntry (cfg.nodes.lookup id) (cfg'.nodes.lookup id)
  neighbors : ∀ id, cfg.neighborsOf id = cfg'.neighbors id
  partitions : ∀ id, cfg.partitions.lookup id = cfg'.partitions.lookup id
  params : ∀ key, cfg.params.lookup key = cfg'.params.lookup key

/-- Both parsers succeed or none does, and what they yield is the same. -/
def LoadSame (r : Except Mini2.ConfigError Mini2.Config)
    (r' : Except ConfigLoader.ConfigError ConfigLoader.Config) : Prop :=
  (r.isOk ↔ r'.isOk) ∧ ∀ cfg cfg', r = .ok cfg → r' = .ok cfg' → SameConfig cfg cfg'

theorem sameConfig_iff {cfg : Mini2.Config} {cfg' : ConfigLoader.Config} :
    SameConfig cfg cfg' ↔ Tables.Alike SameEntry cfg.tables cfg'.tables :=
  ⟨fun h => ⟨h.nodes, h.neighbors, h.partitions, h.params⟩,
    fun h => ⟨h.nodes, h.neighbors, h.partitions, h.params⟩⟩

/-! ### The condition -/

/-- Words that give the same port, other than zero. -/
def SamePort (v v' : Str) : Prop := ∃ p : ℕ, p ≠ 0 ∧ Config.WordPort v p ∧ WholeNumber v' p

/-- Attributes that declare the same node to both parsers. -/
structure AttrsAlike (attrs attrs' : List Str) : Prop where
  host : (attr "host" attrs).getD [] = (attr "host" attrs').getD []
  port : ∃ v ∈ attr "port" attrs, ∃ v' ∈ attr "port" attrs', SamePort v v'
  lang : (attr "lang" attrs).getD [] = (attr "lang" attrs').getD "cpp".toList
  root : Config.MarksRoot attrs ↔ MarksRoot attrs'

/-- Each parser refuses a statement, or none does and the statements declare the same. -/
def ReadAlike (text : Str) : Prop :=
  ((∃ s ∈ Config.statements text, ¬ Tables.Accepted Config.GivesHostPort s) ∧
    ∃ s ∈ statements .ascii text, ¬ Tables.Accepted (GivesHostPort .ascii) s) ∨
  ((∀ s ∈ Config.statements text, Tables.Accepted Config.GivesHostPort s) ∧
    (∀ s ∈ statements .ascii text, Tables.Accepted (GivesHostPort .ascii) s) ∧
    Tables.DeclareAlike AttrsAlike (Config.statements text) (statements .ascii text))

section Attrs

variable {attrs attrs' : List Str}

/-- Where both parsers have a port, it is the same if the words say so. -/
theorem samePort_iff (h : Config.portOf attrs ≠ 0) (h' : portOf .ascii attrs' ≠ 0) :
    (Config.portOf attrs : ℤ) = portOf .ascii attrs' ↔
      ∃ v ∈ attr "port" attrs, ∃ v' ∈ attr "port" attrs', SamePort v v' := by
  unfold Config.portOf portOf at *
  unfold SamePort
  cases h_v : attr "port" attrs with
  | none => simp [h_v] at h
  | some v =>
    cases h_v' : attr "port" attrs' with
    | none => simp [h_v'] at h'
    | some v' =>
      simp only [h_v, h_v', Option.map_some, Option.getD_some, Option.bind_some] at h h' ⊢
      simp only [Config.wordPort_iff, ← int_ascii_eq_some, Option.mem_some_iff, exists_eq_left']
      -- the word of the Python parser is a number, as its port is not zero
      cases h_int : int .ascii v' with
      | none => simp [h_int] at h'
      | some z =>
        rw [Option.getD_some]
        constructor
        · rintro rfl
          exact ⟨_, h, rfl, rfl⟩
        · rintro ⟨p, -, rfl, h_eq⟩
          exact (Option.some.inj h_eq).symm

theorem attrsAlike_iff (h : Config.HostPort attrs) (h' : HostPort .ascii attrs') :
    AttrsAlike attrs attrs' ↔ (attr "host" attrs).getD [] = (attr "host" attrs').getD [] ∧
      (Config.portOf attrs : ℤ) = portOf .ascii attrs' ∧
        (attr "lang" attrs).getD [] = (attr "lang" attrs').getD "cpp".toList ∧
          ((attr "root" attrs).map Config.truth).getD false =
            ((attr "root" attrs').map truth).getD false := by
  rw [samePort_iff h.2 h'.2.2, Bool.eq_iff_iff, ← Config.marksRoot_iff, ← marksRoot_iff]
  exact ⟨fun h => ⟨h.host, h.port, h.lang, h.root⟩, fun h => ⟨h.1, h.2.1, h.2.2.1, h.2.2.2⟩⟩

theorem sameEntry_iff (id : Str) (h : Config.HostPort attrs) (h' : HostPort .ascii attrs') :
    SameEntry (Config.entryOf id attrs) (entryOf .ascii id attrs') ↔ AttrsAlike attrs attrs' := by
  rw [attrsAlike_iff h h']
  exact ⟨fun h => ⟨h.host, h.port, h.lang, h.isRoot⟩, fun h => ⟨rfl, h.1, h.2.1, h.2.2.1, h.2.2.2⟩⟩

end Attrs

/-! ### Plain files -/

/-- No carriage return, and none of the separators of ASCII. -/
def PlainText (text : Str) : Prop := ∀ c ∈ text, c ≠ '\r' ∧ ¬ (28 ≤ c.toNat ∧ c.toNat ≤ 31)

instance (text : Str) : Decidable (PlainText text) := List.decidableBAll _ text

section Plain

variable {text : Str}

theorem universalNewlines_plain (h : PlainText text) : universalNewlines text = text := by
  induction text using universalNewlines.induct with
  | case1 => rfl
  | case2 s ih => exact absurd rfl (h '\r' List.mem_cons_self).1
  | case3 s h_next ih => exact absurd rfl (h '\r' List.mem_cons_self).1
  | case4 c s h_pair h_cr ih =>
    rw [universalNewlines, ih fun d hd => h d (List.mem_cons_of_mem c hd)]
    · exact h_pair
    · exact h_cr

/-- **The parsers take a plain file apart in the same way.** -/
theorem statements_plain (h : PlainText text) :
    statements .ascii text = Config.statements text := by
  rw [statements, Config.statements, universalNewlines_plain h]
  refine List.map_congr_left fun raw hraw => words_congr fun c hc => ?_
  have h_sep := (h c (subset_of_mem_lines hraw hc)).2
  have h_and : (28 ≤ c.toNat && c.toNat ≤ 31) = false := by
    rw [← Bool.not_eq_true, Bool.and_eq_true, decide_eq_true_eq, decide_eq_true_eq]
    exact h_sep
  rw [show Unicode.ascii.isSpace c = (Mini2.isSpace c || (28 ≤ c.toNat && c.toNat ≤ 31)) from rfl,
    h_and, Bool.or_false]

/-- **When a word is the same port to both parsers.** -/
theorem samePort_self {v : Str} : SamePort v v ↔ PlainNumber (2 ^ 16) v := by
  have h_bits : ∀ n : ℕ, n < 2 ^ 16 → clampLong n % 2 ^ 16 = n := by
    intro n hn
    unfold clampLong
    omega
  have h_lt : ∀ p : ℕ, Config.WordPort v p → p < 2 ^ 16 := by
    rintro p ⟨z, -, h_clamp⟩
    omega
  rw [← plainNumber_iff (f := fun z => clampLong z % 2 ^ 16) h_bits]
  constructor
  · rintro ⟨p, h_ne, h_port, h_whole⟩
    exact ⟨p, ⟨h_ne, h_lt p h_port⟩, h_port, h_whole⟩
  · rintro ⟨p, ⟨h_ne, -⟩, h_port, h_whole⟩
    exact ⟨p, h_ne, h_port, h_whole⟩

/-- The same attributes declare the same node if the port is a plain one, the language is
there, and the parsers agree on the mark of the portal. -/
theorem attrsAlike_self {attrs : List Str} :
    AttrsAlike attrs attrs ↔ (∃ v ∈ attr "port" attrs, PlainNumber (2 ^ 16) v) ∧
      (attr "lang" attrs).isSome ∧ (Config.MarksRoot attrs ↔ MarksRoot attrs) := by
  have h_lang : (attr "lang" attrs).getD [] = (attr "lang" attrs).getD "cpp".toList ↔
      (attr "lang" attrs).isSome := by
    cases attr "lang" attrs <;> simp
  have h_port : (∃ v ∈ attr "port" attrs, ∃ v' ∈ attr "port" attrs, SamePort v v') ↔
      ∃ v ∈ attr "port" attrs, PlainNumber (2 ^ 16) v := by
    simp only [← samePort_self]
    cases attr "port" attrs <;> simp
  rw [← h_lang, ← h_port]
  exact ⟨fun h => ⟨h.port, h.lang, h.root⟩, fun h => ⟨rfl, h.1, h.2.1, h.2.2⟩⟩

/-- **A plain file without refused statements is read alike if the parsers agree on the
attributes of each node.** -/
theorem readAlike_plain (h : PlainText text)
    (hok : ∀ s ∈ Config.statements text,
      Tables.Accepted Config.GivesHostPort s ∧ Tables.Accepted (GivesHostPort .ascii) s) :
    ReadAlike text ↔ ∀ id, ∀ attrs ∈ lastSome (Tables.nodeAttrs id) (Config.statements text),
      AttrsAlike attrs attrs := by
  rw [ReadAlike, statements_plain h]
  constructor
  · rintro (⟨⟨s, hs, h_not⟩, -⟩ | ⟨-, -, h_alike⟩) id attrs hattrs
    · exact absurd (hok s hs).1 h_not
    · have h_node := h_alike.nodes id
      rw [hattrs] at h_node
      cases h_node with
      | some h => exact h
  · intro h_nodes
    refine Or.inr ⟨fun s hs => (hok s hs).1, fun s hs => (hok s hs).2, ?_⟩
    -- the statements are the same, and with them all that is not about nodes
    refine ⟨fun id => ?_, fun n m => Iff.rfl, fun id => rfl, fun key => rfl⟩
    cases h_last : lastSome (Tables.nodeAttrs id) (Config.statements text) with
    | none => exact .none
    | some attrs => exact .some (h_nodes id attrs h_last)

end Plain

/-! ### The parsers -/

section Results

variable {path text : Str}

theorem exists_of_isOk {ε α : Type} {x : Except ε α} (h : x.isOk) : ∃ a, x = .ok a := by
  cases x with
  | error e => exact absurd h (by simp [Except.isOk, Except.toBool])
  | ok a => exact ⟨a, rfl⟩

variable (path) in
theorem isOk_load : (Config.load path (some text)).isOk ↔
    ∀ s ∈ Config.statements text, Tables.Accepted Config.GivesHostPort s := by
  have h_all : (Tables.declareAll Config.HostPort Config.entryOf (Config.statements text)).isSome ↔
      ∀ s ∈ Config.statements text, Tables.Accepted Config.HostPort s :=
    Tables.declareAll_isSome
  simp only [Tables.accepted_congr fun _ => Config.hostPort_iff] at h_all
  rw [← h_all, ← Config.load_tables path]
  cases Config.load path (some text) <;> simp [Except.isOk, Except.toBool, Except.toOption]

variable (path) in
theorem isOk_load_ascii : (load .ascii path (some text)).isOk ↔
    ∀ s ∈ statements .ascii text, Tables.Accepted (GivesHostPort .ascii) s := by
  have h_all : (Tables.declareAll (HostPort .ascii) (entryOf .ascii)
      (statements .ascii text)).isSome ↔
      ∀ s ∈ statements .ascii text, Tables.Accepted (HostPort .ascii) s :=
    Tables.declareAll_isSome
  simp only [Tables.accepted_congr fun _ => hostPort_iff .ascii] at h_all
  rw [← h_all, ← load_tables .ascii path]
  cases load .ascii path (some text) <;> simp [Except.isOk, Except.toBool, Except.toOption]

theorem describes_load {cfg : Mini2.Config} (h : Config.load path (some text) = .ok cfg) :
    Tables.Describes Config.entryOf cfg.tables (Config.statements text) := by
  have h_tables := Config.load_tables path text
  rw [h] at h_tables
  exact Tables.describes_declareAll h_tables.symm

theorem describes_load_ascii {cfg' : ConfigLoader.Config}
    (h : load .ascii path (some text) = .ok cfg') :
    Tables.Describes (entryOf .ascii) cfg'.tables (statements .ascii text) := by
  have h_tables := load_tables .ascii path text
  rw [h] at h_tables
  exact Tables.describes_declareAll h_tables.symm

/-- What is loaded is the same if the statements declare the same. -/
theorem sameConfig_load {cfg : Mini2.Config} {cfg' : ConfigLoader.Config}
    (h : Config.load path (some text) = .ok cfg) (h' : load .ascii path (some text) = .ok cfg') :
    SameConfig cfg cfg' ↔
      Tables.DeclareAlike AttrsAlike (Config.statements text) (statements .ascii text) := by
  have h_accepted := (isOk_load path).mp (by rw [h]; rfl)
  have h_accepted' := (isOk_load_ascii path).mp (by rw [h']; rfl)
  rw [sameConfig_iff]
  refine Tables.alike_iff (describes_load h) (describes_load_ascii h') fun id a ha b hb => ?_
  -- what has been accepted has a host and a port
  exact sameEntry_iff id (Config.hostPort_iff.mpr (Tables.ok_of_nodeAttrs h_accepted ha))
    ((hostPort_iff .ascii).mpr (Tables.ok_of_nodeAttrs h_accepted' hb))

/-- **Both parsers read an ASCII file alike exactly if it is refused on both sides, or on
neither and declares the same.** -/
theorem loads_agree_iff (U : Unicode) (path text : Str) (hascii : Ascii text) :
    LoadSame (Config.load path (some text)) (load U path (some text)) ↔ ReadAlike text := by
  rw [load_ascii U path hascii, LoadSame, isOk_load path, isOk_load_ascii path]
  constructor
  · rintro ⟨h_ok, h_same⟩
    by_cases h_accepted : ∀ s ∈ Config.statements text, Tables.Accepted Config.GivesHostPort s
    · have h_accepted' := h_ok.mp h_accepted
      obtain ⟨cfg, h⟩ := exists_of_isOk ((isOk_load path).mpr h_accepted)
      obtain ⟨cfg', h'⟩ := exists_of_isOk ((isOk_load_ascii path).mpr h_accepted')
      exact Or.inr ⟨h_accepted, h_accepted', (sameConfig_load h h').mp (h_same cfg cfg' h h')⟩
    · have h_accepted' : ¬ ∀ s ∈ statements .ascii text, Tables.Accepted (GivesHostPort .ascii) s :=
        fun h => h_accepted (h_ok.mpr h)
      simp only [not_forall, exists_prop] at h_accepted h_accepted'
      exact Or.inl ⟨h_accepted, h_accepted'⟩
  · rintro (⟨⟨s, hs, h_not⟩, ⟨s', hs', h_not'⟩⟩ | ⟨h_accepted, h_accepted', h_alike⟩)
    · -- nothing is loaded that could differ
      have h_refused : ¬ ∀ s ∈ Config.statements text, Tables.Accepted Config.GivesHostPort s :=
        fun h => h_not (h s hs)
      refine ⟨iff_of_false h_refused fun h => h_not' (h s' hs'), fun cfg cfg' h _ => ?_⟩
      exact absurd ((isOk_load path).mp (by rw [h]; rfl)) h_refused
    · refine ⟨iff_of_true h_accepted h_accepted', fun cfg cfg' h h' => ?_⟩
      exact (sameConfig_load h h').mpr h_alike

end Results

/-- The file of a test: two nodes. -/
def twoNodes : Str :=
  ["", "node A host=127.0.0.1 port=50051 lang=cpp root=true",
    "node B host=127.0.0.1 port=50052 lang=python", "edge A B",
    "partition A data/part_A.csv", "partition B data/part_B.csv",
    "param initial_chunk_rows 256"].flatMap fun line => line.toList ++ ['\n']

theorem statements_twoNodes : Config.statements twoNodes =
    [[], ["node", "A", "host=127.0.0.1", "port=50051", "lang=cpp", "root=true"],
      ["node", "B", "host=127.0.0.1", "port=50052", "lang=python"], ["edge", "A", "B"],
      ["partition", "A", "data/part_A.csv"], ["partition", "B", "data/part_B.csv"],
      ["param", "initial_chunk_rows", "256"]].map (List.map String.toList) := by
  decide +kernel

theorem accepted_twoNodes : ∀ s ∈ Config.statements twoNodes,
    Tables.Accepted Config.GivesHostPort s ∧ Tables.Accepted (GivesHostPort .ascii) s := by
  rw [statements_twoNodes]
  decide +kernel

theorem alike_twoNodes : ∀ id, ∀ attrs ∈ lastSome (Tables.nodeAttrs id)
    (Config.statements twoNodes), AttrsAlike attrs attrs := by
  intro id attrs hattrs
  obtain ⟨s, hs, h_node⟩ := exists_of_lastSome hattrs
  obtain rfl := Tables.eq_of_nodeAttrs h_node
  -- every statement on a node, without the names in front
  have h_all : ∀ s ∈ Config.statements twoNodes, s.head? = some "node".toList →
      AttrsAlike (s.drop 2) (s.drop 2) := by
    intro s hs h_head
    have h_ok : Config.HostPort (s.drop 2) ∧ HostPort .ascii (s.drop 2) := by
      revert s
      rw [statements_twoNodes]
      decide +kernel
    rw [attrsAlike_iff h_ok.1 h_ok.2]
    revert s
    rw [statements_twoNodes]
    decide +kernel
  exact h_all _ hs rfl

theorem loads_agree_twoNodes :
    LoadSame (Config.load "topology.conf".toList (some twoNodes))
      (load .ascii "topology.conf".toList (some twoNodes)) :=
  (loads_agree_iff .ascii "topology.conf".toList twoNodes (by decide +kernel)).mpr
    ((readAlike_plain (by decide +kernel) accepted_twoNodes).mpr alike_twoNodes)

/-- A node without a language. -/
def noLanguage : Str := "node A host=127.0.0.1 port=50051 root=true\n".toList

/-- **The node has no language in C++, and the language `cpp` in Python.** -/
theorem loads_differ : ¬ LoadSame (Config.load "topology.conf".toList (some noLanguage))
    (load .ascii "topology.conf".toList (some noLanguage)) := by
  intro h
  have h_nodes := (h.2 _ _ rfl rfl).nodes ['A']
  cases h_nodes with
  | some h_entry => exact absurd h_entry.lang (by decide)

end Python
end Mini2
