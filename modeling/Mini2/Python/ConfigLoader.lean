import Mini2.Overlay.Statements
import Mini2.Python.Text

/-!
# The topology file in Python

`ConfigLoader.load` is the parser of the Python nodes. It takes a file apart as Python does:
a carriage return ends a line, more characters separate words, and a port has to be a number.
`load_tables` says that beyond this it reads a file statement for statement, as `Config.load`
does, and `load_ascii` that the Unicode database plays no part in an ASCII file.
-/

namespace Mini2
namespace Python
namespace ConfigLoader

/-- `NodeEntry`. -/
structure NodeEntry where
  id : Str
  host : Str
  port : ℤ
  lang : Str
  isRoot : Bool
  deriving DecidableEq

/-- `Config`. -/
structure Config where
  nodes : AList fun _ : Str => NodeEntry
  peers : AList fun _ : Str => Finset Str
  partitions : AList fun _ : Str => Str
  params : AList fun _ : Str => Str

/-- What `load` raises. -/
inductive ConfigError
  | cannotOpen (path : Str)
  | badNode (lineno : ℕ)
  | notInt (v : Str)
  | missingHostPort (id : Str)
  | badEdge (lineno : ℕ)
  | badPartition (lineno : ℕ)
  | badParam (lineno : ℕ)
  | unknownDirective (kw : Str) (lineno : ℕ)
  deriving DecidableEq

/-- The text of a `ValueError`; none where the text is not the loader's own. -/
def ConfigError.args : ConfigError → Option Str
  | .cannotOpen _ => none
  | .badNode lineno => some ("bad node line ".toList ++ toDec lineno)
  | .notInt _ => none
  | .missingHostPort id => some ("node ".toList ++ id ++ " missing host/port".toList)
  | .badEdge lineno => some ("bad edge line ".toList ++ toDec lineno)
  | .badPartition lineno => some ("bad partition line ".toList ++ toDec lineno)
  | .badParam lineno => some ("bad param line ".toList ++ toDec lineno)
  | .unknownDirective kw lineno =>
    some ("unknown directive '".toList ++ kw ++ "' on line ".toList ++ toDec lineno)

/-- A text file is read with `\n` for every end of a line. -/
def universalNewlines : Str → Str
  | [] => []
  | '\r' :: '\n' :: s => '\n' :: universalNewlines s
  | '\r' :: s => '\n' :: universalNewlines s
  | c :: s => c :: universalNewlines s

/-- `s.lower()`, for letters of ASCII. -/
def lower (s : Str) : Str := s.map Char.toLower

variable (U : Unicode)

/-- `s.split()` -/
def split (s : Str) : List Str := (s.splitOnP U.isSpace).filter (· ≠ [])

/-- The words of a line, without its comment. The newline that ends the line is stripped. -/
def tokens (raw : Str) : List Str := split U (strip U (raw.takeWhile (· ≠ '#')))

/-- `v.lower() in ("true", "1", "yes")`; no character outside ASCII becomes one of these. -/
def truth (v : Str) : Bool :=
  lower v = "true".toList ∨ lower v = "1".toList ∨ lower v = "yes".toList

/-- One attribute of a node line. An unknown one is skipped. -/
def NodeEntry.setAttr (e : NodeEntry) (tok : Str) : Except ConfigError NodeEntry :=
  match parseKv tok with
  | none => .ok e
  | some (k, v) =>
    if k = "host".toList then .ok { e with host := v }
    else if k = "port".toList then
      match int U v with
      | none => .error (.notInt v)
      | some port => .ok { e with port := port }
    else if k = "lang".toList then .ok { e with lang := v }
    else if k = "root".toList then .ok { e with isRoot := truth v }
    else .ok e

/-- The entry that a node line declares, before it is checked. -/
def parseNode (id : Str) (attrs : List Str) : Except ConfigError NodeEntry :=
  attrs.foldlM (NodeEntry.setAttr U) ⟨id, [], 0, "cpp".toList, false⟩

def empty : Config := ⟨∅, ∅, ∅, ∅⟩

/-- One line of the file. -/
def loadLine (cfg : Config) (lineno : ℕ) (raw : Str) : Except ConfigError Config :=
  match tokens U raw with
  | [] => .ok cfg
  | kw :: args =>
    if kw = "node".toList then
      match args with
      | [] => .error (.badNode lineno)
      | id :: attrs => do
        let e ← parseNode U id attrs
        if e.host = [] ∨ e.port = 0 then .error (.missingHostPort e.id)
        else .ok { cfg with
          nodes := cfg.nodes.insert e.id e, peers := Config.touchPeer cfg.peers e.id }
    else if kw = "edge".toList then
      match args with
      | [a, b] => .ok { cfg with peers := Config.addPeer (Config.addPeer cfg.peers a b) b a }
      | _ => .error (.badEdge lineno)
    else if kw = "partition".toList then
      match args with
      | [id, path] => .ok { cfg with partitions := cfg.partitions.insert id path }
      | _ => .error (.badPartition lineno)
    else if kw = "param".toList then
      match args with
      | [key, val] => .ok { cfg with params := cfg.params.insert key val }
      | _ => .error (.badParam lineno)
    else .error (.unknownDirective kw lineno)

/-- The lines from line `lineno` on. -/
def loadLines (cfg : Config) (lineno : ℕ) : List Str → Except ConfigError Config
  | [] => .ok cfg
  | raw :: rest => do loadLines (← loadLine U cfg lineno raw) (lineno + 1) rest

/-- `load` of the file at `path`, none if it cannot be opened. -/
def load (path : Str) (file : Option Str) : Except ConfigError Config :=
  match file with
  | none => .error (.cannotOpen path)
  | some text => loadLines U empty 1 (lines (universalNewlines text))

/-- `cfg.neighbors(node_id)` -/
def Config.neighbors (cfg : Config) (id : Str) : Finset Str := (cfg.peers.lookup id).getD ∅

/-! ### Statement for statement -/

theorem tokens_eq (raw : Str) : tokens U raw = words U.isSpace raw := rfl

/-- The statements of a file. -/
def statements (text : Str) : List (List Str) := (lines (universalNewlines text)).map (tokens U)

/-- The tables of a configuration. -/
def Config.tables (cfg : Config) : Tables NodeEntry :=
  ⟨cfg.nodes, cfg.peers, cfg.partitions, cfg.params⟩

/-- The port that the attributes of a node give. -/
def portOf (attrs : List Str) : ℤ := ((attr "port" attrs).bind (int U)).getD 0

/-- A word that is no port, or one that is a number. -/
def PortIsInt (tok : Str) : Prop := ∀ v ∈ attrValue "port" tok, (int U v).isSome

instance : DecidablePred (PortIsInt U) := fun _ => inferInstanceAs (Decidable (∀ _ ∈ _, _))

/-- The attributes give a host and a port, and every port they give is a number. -/
def HostPort (attrs : List Str) : Prop :=
  (∀ tok ∈ attrs, PortIsInt U tok) ∧ (attr "host" attrs).getD [] ≠ [] ∧ portOf U attrs ≠ 0

instance : DecidablePred (HostPort U) := fun _ => inferInstanceAs (Decidable (_ ∧ _ ∧ _))

/-- The entry that the attributes give. -/
def entryOf (id : Str) (attrs : List Str) : NodeEntry where
  id := id
  host := (attr "host" attrs).getD []
  port := portOf U attrs
  lang := (attr "lang" attrs).getD "cpp".toList
  isRoot := ((attr "root" attrs).map truth).getD false

section Except

variable {ε α β : Type} {x : Except ε α} {f : α → Except ε β}

theorem toOption_bind_some {a : α} (h : x.toOption = some a) :
    (x >>= f).toOption = (f a).toOption := by
  cases x with
  | error e => exact absurd h (by simp [Except.toOption])
  | ok a' =>
    obtain rfl := Option.some.inj h
    rfl

theorem toOption_bind_none (h : x.toOption = none) : (x >>= f).toOption = none := by
  cases x with
  | error e => rfl
  | ok a => exact absurd h (by simp [Except.toOption])

end Except

theorem entryOf_setAttr (id : Str) (attrs : List Str) (tok : Str) :
    ((entryOf U id attrs).setAttr U tok).toOption =
      if PortIsInt U tok then some (entryOf U id (attrs ++ [tok])) else none := by
  unfold NodeEntry.setAttr
  split
  · next h_kv =>
    simp [PortIsInt, entryOf, portOf, attr_concat, attrValue_none h_kv, Except.toOption]
  next k v h_kv =>
  simp only [PortIsInt, entryOf, portOf, attr_concat, attrValue_some h_kv]
  split
  · next hk => subst hk; simp [Except.toOption]
  split
  · next hk =>
    subst hk
    -- the one attribute that can be refused
    cases h_int : int U v with
    | none => simp [Except.toOption, h_int]
    | some port => simp [Except.toOption, h_int]
  split
  · next hk => subst hk; simp [Except.toOption]
  split
  · next hk => subst hk; simp [Except.toOption]
  · simp [Except.toOption]

theorem parseNode_eq (id : Str) (attrs : List Str) :
    (parseNode U id attrs).toOption =
      if ∀ tok ∈ attrs, PortIsInt U tok then some (entryOf U id attrs) else none := by
  induction attrs using List.reverseRecOn with
  | nil => rfl
  | append_singleton attrs tok ih =>
    rw [parseNode] at ih ⊢
    rw [List.foldlM_append]
    simp only [List.foldlM_cons, List.foldlM_nil, bind_pure, List.forall_mem_append,
      List.forall_mem_singleton]
    -- a port that is no number ends the fold
    by_cases h_all : ∀ tok ∈ attrs, PortIsInt U tok
    · rw [if_pos h_all] at ih
      rw [toOption_bind_some ih, entryOf_setAttr]
      simp only [and_iff_right h_all]
    · rw [if_neg h_all] at ih
      rw [toOption_bind_none ih, if_neg fun h => h_all h.1]

/-- A line is read as the statement it is. -/
theorem loadLine_tables (cfg : Config) (lineno : ℕ) (raw : Str) :
    (loadLine U cfg lineno raw).toOption.map Config.tables =
      Tables.declare (HostPort U) (entryOf U) cfg.tables (tokens U raw) := by
  unfold loadLine Tables.declare
  cases tokens U raw with
  | nil => rfl
  | cons kw args =>
    dsimp only
    split
    · cases args with
      | nil => rfl
      | cons id attrs =>
        dsimp only
        have h_node := parseNode_eq U id attrs
        by_cases h_ports : ∀ tok ∈ attrs, PortIsInt U tok
        · rw [if_pos h_ports] at h_node
          rw [toOption_bind_some h_node]
          have h_refused : (entryOf U id attrs).host = [] ∨ (entryOf U id attrs).port = 0 ↔
              ¬ HostPort U attrs := by
            rw [HostPort, and_iff_right h_ports, not_and_or, not_not, not_not]
            rfl
          by_cases h : HostPort U attrs
          · rw [if_pos h, if_neg (fun h' => h_refused.mp h' h)]
            rfl
          · rw [if_neg h, if_pos (h_refused.mpr h)]
            rfl
        · rw [if_neg h_ports] at h_node
          rw [toOption_bind_none h_node, if_neg fun h => h_ports h.1]
          rfl
    -- the other statements have two words after the first, or are refused
    split
    · rcases args with _ | ⟨a, _ | ⟨b, _ | ⟨c, args⟩⟩⟩ <;> rfl
    split
    · rcases args with _ | ⟨a, _ | ⟨b, _ | ⟨c, args⟩⟩⟩ <;> rfl
    split
    · rcases args with _ | ⟨a, _ | ⟨b, _ | ⟨c, args⟩⟩⟩ <;> rfl
    · rfl

theorem loadLines_tables (cfg : Config) (lineno : ℕ) (raws : List Str) :
    (loadLines U cfg lineno raws).toOption.map Config.tables =
      (raws.map (tokens U)).foldlM (Tables.declare (HostPort U) (entryOf U)) cfg.tables := by
  induction raws generalizing cfg lineno with
  | nil => rfl
  | cons raw rest ih =>
    rw [List.map_cons, List.foldlM_cons, ← loadLine_tables U cfg lineno raw, loadLines]
    cases loadLine U cfg lineno raw with
    | error e => rfl
    | ok cfg₁ => exact ih cfg₁ (lineno + 1)

/-- **`load` reads a file statement for statement.** -/
theorem load_tables (path text : Str) :
    (load U path (some text)).toOption.map Config.tables =
      Tables.declareAll (HostPort U) (entryOf U) (statements U text) :=
  loadLines_tables U empty 1 (lines (universalNewlines text))

/-! ### Attributes by their characters -/

/-- The attributes give a host, a port other than zero, and no port that is not a number. -/
def GivesHostPort (attrs : List Str) : Prop :=
  (∀ tok ∈ attrs, ∀ v ∈ attrValue "port" tok, ∃ z, WholeNumber (v.map U.toAscii) z) ∧
    (∃ host ∈ attr "host" attrs, host ≠ []) ∧
      ∃ v ∈ attr "port" attrs, ∃ z ≠ 0, WholeNumber (v.map U.toAscii) z

/-- The letters of a word, or their capitals. -/
def UpToCase (v w : Str) : Prop := List.Forall₂ (fun c d => c = d ∨ c = d.toUpper) v w

/-- The attributes mark the portal. -/
def MarksRoot (attrs : List Str) : Prop :=
  ∃ v ∈ attr "root" attrs,
    UpToCase v "true".toList ∨ UpToCase v "1".toList ∨ UpToCase v "yes".toList

theorem portIsInt_iff {tok : Str} : PortIsInt U tok ↔
    ∀ v ∈ attrValue "port" tok, ∃ z, WholeNumber (v.map U.toAscii) z := by
  simp only [PortIsInt, ← int_eq_some, Option.isSome_iff_exists]

theorem hostPort_iff {attrs : List Str} : HostPort U attrs ↔ GivesHostPort U attrs := by
  have h_port : (∃ v ∈ attr "port" attrs, ∃ z ≠ 0, WholeNumber (v.map U.toAscii) z) ↔
      portOf U attrs ≠ 0 := by
    unfold portOf
    simp only [← int_eq_some]
    cases attr "port" attrs with
    | none => simp
    | some v => cases h_int : int U v <;> simp [h_int]
  simp only [HostPort, GivesHostPort, portIsInt_iff, Config.exists_host_iff, h_port]

instance : DecidablePred (GivesHostPort U) := fun _ => decidable_of_iff _ (hostPort_iff U)

theorem toLower_eq_iff {c d : Char} (hd : d.isUpper = false) :
    c.toLower = d ↔ c = d ∨ c = d.toUpper := by
  have h_small : d.toLower = d := Char.toLower_eq_of_not_isUpper (by simp [hd])
  constructor
  · rintro rfl
    by_cases h_upper : c.isUpper
    · refine Or.inr ?_
      rw [Char.toUpper_toLower_eq_toUpper,
        Char.toUpper_eq_of_not_isLower (Char.not_isLower_of_isUpper h_upper)]
    · exact Or.inl (Char.toLower_eq_of_not_isUpper h_upper).symm
  · rintro (rfl | rfl)
    · exact h_small
    · rw [Char.toLower_toUpper_eq_toLower, h_small]

theorem lower_eq_iff {v w : Str} (hw : w.all fun d => !d.isUpper) :
    lower v = w ↔ UpToCase v w := by
  unfold lower UpToCase
  induction v generalizing w with
  | nil => cases w <;> simp
  | cons c v ih =>
    cases w with
    | nil => simp
    | cons d w =>
      rw [List.all_cons, Bool.and_eq_true, Bool.not_eq_true'] at hw
      rw [List.map_cons, List.cons_eq_cons, List.forall₂_cons, toLower_eq_iff hw.1, ih hw.2]

theorem truth_iff {v : Str} : truth v = true ↔
    UpToCase v "true".toList ∨ UpToCase v "1".toList ∨ UpToCase v "yes".toList := by
  rw [truth, decide_eq_true_eq]
  exact or_congr (lower_eq_iff (by decide)) (or_congr (lower_eq_iff (by decide))
    (lower_eq_iff (by decide)))

theorem marksRoot_iff {attrs : List Str} :
    MarksRoot attrs ↔ ((attr "root" attrs).map truth).getD false = true := by
  unfold MarksRoot
  simp only [← truth_iff]
  cases attr "root" attrs <;> simp

/-! ### ASCII -/

section Ascii

/-- Characters that are in the file, or newlines. -/
theorem mem_universalNewlines {text : Str} {c : Char} (hc : c ∈ universalNewlines text) :
    c = '\n' ∨ c ∈ text := by
  -- both characters of an end of line, a return alone, and any other character
  induction text using universalNewlines.induct with
  | case1 => exact absurd hc List.not_mem_nil
  | case2 s ih =>
    rw [universalNewlines] at hc
    rcases List.mem_cons.mp hc with rfl | hc
    · exact Or.inl rfl
    · exact (ih hc).imp_right fun h => List.mem_cons_of_mem _ (List.mem_cons_of_mem _ h)
  | case3 s h_next ih =>
    rw [universalNewlines] at hc
    · rcases List.mem_cons.mp hc with rfl | hc
      · exact Or.inl rfl
      · exact (ih hc).imp_right (List.mem_cons_of_mem _)
    · exact h_next
  | case4 c' s h_pair h_cr ih =>
    rw [universalNewlines] at hc
    · rcases List.mem_cons.mp hc with rfl | hc
      · exact Or.inr List.mem_cons_self
      · exact (ih hc).imp_right (List.mem_cons_of_mem _)
    · exact h_pair
    · exact h_cr

theorem ascii_universalNewlines {text : Str} (h : Ascii text) : Ascii (universalNewlines text) := by
  intro c hc
  rcases mem_universalNewlines hc with rfl | hc
  · decide
  · exact h c hc

theorem parseKv_ascii {tok k v : Str} (h : Ascii tok) (hkv : parseKv tok = some (k, v)) :
    Ascii v := by
  unfold parseKv at hkv
  split at hkv
  · obtain ⟨-, rfl⟩ := Prod.mk.inj (Option.some.inj hkv)
    exact fun c hc => h c (List.dropWhile_subset _ (List.mem_of_mem_tail hc))
  · exact absurd hkv (by simp)

theorem setAttr_ascii (e : NodeEntry) {tok : Str} (h : Ascii tok) :
    e.setAttr U tok = e.setAttr .ascii tok := by
  unfold NodeEntry.setAttr
  cases h_kv : parseKv tok with
  | none => rfl
  | some kv =>
    dsimp only
    rw [int_ascii U (parseKv_ascii h h_kv)]

theorem parseNode_ascii (id : Str) {attrs : List Str} (h : ∀ tok ∈ attrs, Ascii tok) :
    parseNode U id attrs = parseNode .ascii id attrs := by
  induction attrs using List.reverseRecOn with
  | nil => rfl
  | append_singleton attrs tok ih =>
    have h_attrs := ih fun tok htok => h tok (List.mem_append_left _ htok)
    have h_tok := h tok (List.mem_append_right _ (List.mem_singleton_self tok))
    rw [parseNode] at h_attrs ⊢
    rw [parseNode, List.foldlM_append, List.foldlM_append, h_attrs, parseNode]
    simp only [List.foldlM_cons, List.foldlM_nil, bind_pure, setAttr_ascii U _ h_tok]

theorem tokens_ascii {raw : Str} (h : Ascii raw) : tokens U raw = tokens .ascii raw :=
  words_congr fun c hc =>
    (U.isSpace_of_ascii c (h c hc)).trans (Unicode.ascii.isSpace_of_ascii c (h c hc)).symm

theorem loadLine_ascii (cfg : Config) (lineno : ℕ) {raw : Str} (h : Ascii raw) :
    loadLine U cfg lineno raw = loadLine .ascii cfg lineno raw := by
  -- the words of an ASCII line are ASCII
  have h_tokens : ∀ tok ∈ tokens .ascii raw, Ascii tok :=
    fun tok htok c hc => h c (subset_of_mem_words _ htok hc)
  unfold loadLine
  rw [tokens_ascii U h]
  cases h_toks : tokens .ascii raw with
  | nil => rfl
  | cons kw args =>
    rw [h_toks] at h_tokens
    cases args with
    | nil => rfl
    | cons id attrs =>
      have h_attrs : ∀ tok ∈ attrs, Ascii tok := fun tok htok =>
        h_tokens tok (List.mem_cons_of_mem _ (List.mem_cons_of_mem _ htok))
      dsimp only
      rw [parseNode_ascii U id h_attrs]

theorem loadLines_ascii (cfg : Config) (lineno : ℕ) {raws : List Str}
    (h : ∀ raw ∈ raws, Ascii raw) :
    loadLines U cfg lineno raws = loadLines .ascii cfg lineno raws := by
  induction raws generalizing cfg lineno with
  | nil => rfl
  | cons raw rest ih =>
    obtain ⟨h_raw, h_rest⟩ := List.forall_mem_cons.mp h
    rw [loadLines, loadLines, loadLine_ascii U cfg lineno h_raw]
    simp only [ih _ _ h_rest]

/-- **The characters outside ASCII play no part in an ASCII file.** -/
theorem load_ascii (path : Str) {text : Str} (h : Ascii text) :
    load U path (some text) = load .ascii path (some text) := by
  refine loadLines_ascii U empty 1 fun raw hraw c hc => ?_
  exact ascii_universalNewlines h c (subset_of_mem_lines hraw hc)

end Ascii

end ConfigLoader
end Python
end Mini2
