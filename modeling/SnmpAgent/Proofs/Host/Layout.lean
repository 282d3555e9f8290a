import SnmpAgent.Host.Proc
import SnmpAgent.Proofs.Text.Lines
import Mathlib.Data.List.Pairwise
import Mathlib.Logic.Relation

/-!
# Layouts of the files of the kernel

What is read from the files of the kernel does not depend on how they are laid
out.

* The counters of a protocol are in the first two lines that begin with its
  name. Other lines may be put anywhere, the columns may come in any order, and
  there may be columns that nothing asks for: these are the steps from one
  layout to another (`Relaid`), and no number of them changes what is read.
* The memory figures are in lines of their own, each under its key. The lines
  may come in any order (`memory_of_perm`).
-/

namespace SnmpAgent.Proc

open Text (rawLines words dropReturn)

variable {protocol name : String} {names : List String} {line rest text text' : List Char}

/-! ## The lines of a protocol -/

/-- What a line of a protocol begins with. -/
def mark (protocol : String) : List Char := protocol.toList ++ [':']

theorem protocolLine?_eq_some_iff :
    protocolLine? protocol line = some rest ↔ line = mark protocol ++ rest := by
  simp [protocolLine?, mark, Option.bind_eq_some_iff, Text.stripLead?_eq_some_iff]

theorem protocolLine?_eq_none (h : ¬mark protocol <+: line) :
    protocolLine? protocol line = none := by
  rw [Option.eq_none_iff_forall_ne_some]
  intro rest hrest
  exact h ⟨rest, (protocolLine?_eq_some_iff.1 hrest).symm⟩

/-- A carriage return at the end is not part of the beginning of a line. -/
theorem mark_isPrefix_concat : mark protocol <+: line ++ ['\r'] ↔ mark protocol <+: line := by
  rw [List.prefix_concat_iff, or_iff_right]
  intro heq
  have hlast := (List.append_inj' heq rfl).2
  revert hlast
  decide

/-- The words of a line of a protocol, after its beginning. -/
def wordsAfterMark? (protocol : String) (line : List Char) : Option (List (List Char)) :=
  (protocolLine? protocol line).map words

theorem wordsAfterMark?_append (protocol : String) (rest : List Char) :
    wordsAfterMark? protocol (mark protocol ++ rest) = some (words rest) := by
  rw [wordsAfterMark?, protocolLine?_eq_some_iff.2 rfl, Option.map_some]

theorem wordsAfterMark?_eq_none (h : ¬mark protocol <+: line) :
    wordsAfterMark? protocol line = none := by
  rw [wordsAfterMark?, protocolLine?_eq_none h, Option.map_none]

theorem wordsAfterMark?_dropReturn (protocol : String) (line : List Char) :
    wordsAfterMark? protocol (dropReturn line) = wordsAfterMark? protocol line := by
  rcases Text.dropReturn_cases line with ⟨short, rfl⟩ | h
  · rw [Text.dropReturn_append]
    by_cases hmark : mark protocol <+: short
    · obtain ⟨rest, rfl⟩ := hmark
      rw [List.append_assoc, wordsAfterMark?_append, wordsAfterMark?_append,
        Text.words_append_of_isBlank (by decide)]
    · rw [wordsAfterMark?_eq_none hmark, wordsAfterMark?_eq_none (mt mark_isPrefix_concat.1 hmark)]
  · rw [h]

/-- The words of the lines of a protocol. -/
def protocolWords (protocol : String) (text : List Char) : List (List (List Char)) :=
  (rawLines text).filterMap (wordsAfterMark? protocol)

theorem map_words_filterMap (protocol : String) (text : List Char) :
    ((Text.lines text).filterMap (protocolLine? protocol)).map words =
      protocolWords protocol text := by
  rw [List.map_filterMap]
  change (Text.lines text).filterMap (id ∘ wordsAfterMark? protocol) =
    (rawLines text).filterMap (id ∘ wordsAfterMark? protocol)
  rw [← List.filterMap_map, Text.map_lines (wordsAfterMark?_dropReturn protocol),
    List.filterMap_map]

/-- The counters of a protocol are made of the words of its first two lines. -/
theorem row_eq (protocol : String) (text : List Char) : row protocol text =
    match protocolWords protocol text with
    | header :: values :: _ => header.zip (values.map fun v => (number64? v).getD 0)
    | _ => [] := by
  rw [row, ← map_words_filterMap]
  match (Text.lines text).filterMap (protocolLine? protocol) with
  | [] | [_] | _ :: _ :: _ => rfl

/-! ## Columns -/

/-- A column: a name and what is written under it. -/
abbrev Column := List Char × List Char

/-- A text shows columns of a protocol: their names and their values are the
    words of its first two lines of the protocol. -/
def Shows (protocol : String) (columns : List Column) (text : List Char) : Prop :=
  [columns.map Prod.fst, columns.map Prod.snd] <+: protocolWords protocol text

instance (protocol : String) (columns : List Column) (text : List Char) :
    Decidable (Shows protocol columns text) :=
  inferInstanceAs (Decidable (_ <+: _))

/-- The counter in a column. -/
def counterOf (c : Column) : List Char × Int := (c.1, (number64? c.2).getD 0)

theorem Shows.row_eq {columns : List Column} (h : Shows protocol columns text) :
    row protocol text = columns.map counterOf := by
  obtain ⟨rest, hrest⟩ := h
  rw [Proc.row_eq, ← hrest]
  simp only [List.cons_append, List.map_map]
  exact List.zip_map'

/-- What is read under a name is in the first column of that name. -/
theorem Shows.column_eq {columns : List Column} (h : Shows protocol columns text)
    (name : String) : column (row protocol text) name =
      ((columns.find? (·.1 = name.toList)).map fun c => (number64? c.2).getD 0).getD 0 := by
  rw [column, h.row_eq, List.find?_map, Option.map_map]
  rfl

/-- Among columns with distinct names, the one that is found does not depend on
    their order. -/
theorem find?_of_perm {columns columns' : List Column} (hnames : (columns.map Prod.fst).Nodup)
    (hperm : columns.Perm columns') (name : List Char) :
    columns.find? (·.1 = name) = columns'.find? (·.1 = name) := by
  induction hperm with
  | nil => rfl
  | cons c _ ih =>
    rw [List.find?_cons, List.find?_cons, ih (List.nodup_cons.1 hnames).2]
  | swap c c' _ =>
    have hne : c'.1 ≠ c.1 := (List.pairwise_cons.1 hnames).1 c.1 List.mem_cons_self
    by_cases hc : c.1 = name
    · simp [hc, hc ▸ hne]
    · simp [hc, List.find?_cons]
  | trans hperm _ ih ih' => rw [ih hnames, ih' ((hperm.map Prod.fst).nodup_iff.1 hnames)]

/-! ## Layouts of counters -/

/-- A step from one layout of the counters of a protocol to another, when they
    are asked for under some names. -/
inductive Relaid (protocol : String) (names : List String) (text text' : List Char) : Prop
  -- A line of something else is put somewhere.
  | otherLine {before after : List (List Char)} {line : List Char} :
    rawLines text = before ++ after → ¬mark protocol <+: line →
      rawLines text' = before ++ line :: after → Relaid protocol names text text'
  -- The columns, with distinct names, are put in another order.
  | otherOrder {columns columns' : List Column} :
    Shows protocol columns text → (columns.map Prod.fst).Nodup → columns.Perm columns' →
      Shows protocol columns' text' → Relaid protocol names text text'
  -- A column that is not asked for is put somewhere.
  | otherColumn {left right : List Column} {c : Column} :
    Shows protocol (left ++ right) text → (∀ name ∈ names, c.1 ≠ name.toList) →
      Shows protocol (left ++ c :: right) text' → Relaid protocol names text text'

/-- A line of something else can be put anywhere in any text. -/
theorem Relaid.exists_otherLine (names : List String) {before after : List (List Char)}
    (htext : rawLines text = before ++ after) (hline : '\n' ∉ line)
    (hmark : ¬mark protocol <+: line) :
    ∃ text', rawLines text' = before ++ line :: after ∧ Relaid protocol names text text' := by
  have hlines : ∀ l ∈ before ++ line :: after, '\n' ∉ l := by
    intro l hl
    rcases List.mem_cons.1 (List.perm_middle.mem_iff.1 hl) with rfl | hl
    · exact hline
    · exact Text.notMem_of_mem_rawLines (htext ▸ hl)
  have htext' := Text.rawLines_flatMap hlines
  exact ⟨_, htext', .otherLine htext hmark htext'⟩

/-- A step to another layout changes nothing that is asked for. -/
theorem Relaid.column_eq (h : Relaid protocol names text text') (hname : name ∈ names) :
    column (row protocol text) name = column (row protocol text') name := by
  cases h with
  | @otherLine before after line htext hline htext' =>
    have hwords : protocolWords protocol text' = protocolWords protocol text := by
      rw [protocolWords, protocolWords, htext, htext', List.filterMap_append,
        List.filterMap_append, List.filterMap_cons_none (wordsAfterMark?_eq_none hline)]
    rw [row_eq, row_eq, hwords]
  | otherOrder htext hnames hperm htext' =>
    rw [htext.column_eq, htext'.column_eq, find?_of_perm hnames hperm]
  | @otherColumn left right c htext hc htext' =>
    have hskip : decide (c.1 = name.toList) = false := decide_eq_false (hc name hname)
    rw [htext.column_eq, htext'.column_eq, List.find?_append, List.find?_append, List.find?_cons,
      hskip]

/-- No number of steps to other layouts, and back, changes anything that is
    asked for. -/
theorem column_eq_of_eqvGen (h : Relation.EqvGen (Relaid protocol names) text text')
    (hname : name ∈ names) :
    column (row protocol text) name = column (row protocol text') name := by
  induction h with
  | rel _ _ hstep => exact hstep.column_eq hname
  | refl _ => rfl
  | symm _ _ _ ih => exact ih.symm
  | trans _ _ _ _ _ ih ih' => exact ih.trans ih'

/-- The names that the ip group is asked for under. -/
def ipNames : List String := ["Forwarding", "DefaultTTL", "ReasmTimeout"]

/-- The names that the tcp group is asked for under. -/
def tcpNames : List String :=
  ["RtoAlgorithm", "RtoMin", "RtoMax", "MaxConn", "ActiveOpens", "PassiveOpens", "AttemptFails",
    "EstabResets", "CurrEstab", "InSegs", "OutSegs", "RetransSegs", "InErrs", "OutRsts"]

/-- The names that the udp group is asked for under. -/
def udpNames : List String := ["InDatagrams", "NoPorts", "InErrors", "OutDatagrams"]

theorem ip_congr (h : ∀ name ∈ ipNames, column (row "Ip" text) name = column (row "Ip" text') name) :
    ip text = ip text' := by
  simp only [ipNames, List.forall_mem_cons] at h
  simp only [ip, h]

theorem tcp_congr
    (h : ∀ name ∈ tcpNames, column (row "Tcp" text) name = column (row "Tcp" text') name) :
    tcp text = tcp text' := by
  simp only [tcpNames, List.forall_mem_cons] at h
  simp only [tcp, h]

theorem udp_congr
    (h : ∀ name ∈ udpNames, column (row "Udp" text) name = column (row "Udp" text') name) :
    udp text = udp text' := by
  simp only [udpNames, List.forall_mem_cons] at h
  simp only [udp, h]

/-! ## Memory figures -/

/-- The key of a line of memory figures. -/
def memoryKey? (line : List Char) : Option (List Char) := (Text.splitOnce ':' line).map Prod.fst

/-- The keys of memory figures. -/
def memoryKeys (text : List Char) : List (List Char) := (rawLines text).filterMap memoryKey?

/-- Takes a memory figure under its key. -/
def put (key : List Char) (kilobytes : UInt32) (m : MemoryLines) : MemoryLines :=
  match String.ofList key with
  | "MemTotal" => { m with memory.total := kilobytes }
  | "MemFree" => { m with memory.free := kilobytes }
  | "MemShared" => { m with memory.shared := kilobytes }
  | "Shmem" => { m with shmem := kilobytes }
  | "Buffers" => { m with memory.buffers := kilobytes }
  | "Cached" => { m with memory.cached := kilobytes }
  | _ => m

theorem memoryLine_eq (m : MemoryLines) (line : List Char) : memoryLine m line =
    match Text.splitOnce ':' line with
    | none => m
    | some (key, rest) => put key (level32 (((words rest).head?.map count64).getD 0)) m := rfl

/-- Figures under different keys may be taken in any order. -/
theorem put_comm {key key' : List Char} (h : key ≠ key') (n n' : UInt32) (m : MemoryLines) :
    put key n (put key' n' m) = put key' n' (put key n m) := by
  have hne : String.ofList key ≠ String.ofList key' := fun heq => h (String.ofList_injective heq)
  generalize hkey : String.ofList key = k at hne
  generalize hkey' : String.ofList key' = k' at hne
  simp only [put, hkey, hkey']
  split <;> split <;> first | rfl | exact absurd rfl hne

theorem splitOnce_concat {separator c : Char} (h : c ≠ separator) (text : List Char) :
    Text.splitOnce separator (text ++ [c]) =
      (Text.splitOnce separator text).map fun (before, after) => (before, after ++ [c]) := by
  induction text with
  | nil => simp [Text.splitOnce, h]
  | cons d text ih =>
    rw [List.cons_append, Text.splitOnce, Text.splitOnce, ih]
    split_ifs
    · rfl
    · rw [Option.map_map, Option.map_map]
      rfl

theorem memoryLine_dropReturn (m : MemoryLines) (line : List Char) :
    memoryLine m (dropReturn line) = memoryLine m line := by
  rcases Text.dropReturn_cases line with ⟨short, rfl⟩ | h
  · rw [Text.dropReturn_append, memoryLine_eq, memoryLine_eq, splitOnce_concat (by decide)]
    cases Text.splitOnce ':' short with
    | none => rfl
    | some entry => simp only [Option.map_some, Text.words_append_of_isBlank (c := '\r') (by decide)]
  · rw [h]

/-- Two lines may be taken in either order. -/
def Exchangeable (line line' : List Char) : Prop :=
  ∀ m, memoryLine (memoryLine m line) line' = memoryLine (memoryLine m line') line

instance : Std.Symm Exchangeable := ⟨fun _ _ h m => (h m).symm⟩

/-- Lines with different keys may be taken in either order. -/
theorem exchangeable_of_ne {line line' : List Char}
    (h : ∀ key, memoryKey? line = some key → ∀ key', memoryKey? line' = some key' → key ≠ key') :
    Exchangeable line line' := by
  intro m
  simp only [memoryLine_eq]
  cases hline : Text.splitOnce ':' line with
  | none => rfl
  | some entry =>
    cases hline' : Text.splitOnce ':' line' with
    | none => rfl
    | some entry' =>
      have hkey : memoryKey? line = some entry.1 := by rw [memoryKey?, hline, Option.map_some]
      have hkey' : memoryKey? line' = some entry'.1 := by rw [memoryKey?, hline', Option.map_some]
      exact put_comm (h _ hkey _ hkey').symm _ _ m

/-- What lines add up to does not depend on their order, if no key is repeated. -/
theorem foldl_memoryLine_of_perm {lines lines' : List (List Char)} (hperm : lines.Perm lines')
    (hkeys : (lines.filterMap memoryKey?).Nodup) (m : MemoryLines) :
    lines.foldl memoryLine m = lines'.foldl memoryLine m := by
  -- Lines with different keys put different figures.
  have hpairwise : lines.Pairwise Exchangeable :=
    (List.pairwise_filterMap.1 hkeys).imp exchangeable_of_ne
  have hall := hpairwise.forall_of_forall fun _ _ _ => rfl
  exact hperm.foldl_eq' (fun line hline line' hline' => hall hline hline') m

theorem foldl_memoryLine_lines (text : List Char) (m : MemoryLines) :
    (Text.lines text).foldl memoryLine m = (rawLines text).foldl memoryLine m := by
  have hsteps (lines : List (List Char)) : lines.foldl memoryLine m =
      (lines.map fun line m => memoryLine m line).foldl (fun m step => step m) m := by
    rw [List.foldl_map]
  rw [hsteps, hsteps, Text.map_lines fun line => funext fun m => memoryLine_dropReturn m line]

/-- The memory figures do not depend on the order of their lines. -/
theorem memory_of_perm (hperm : (rawLines text).Perm (rawLines text'))
    (hkeys : (memoryKeys text).Nodup) : memory text = memory text' := by
  rw [memory, memory, foldl_memoryLine_lines, foldl_memoryLine_lines,
    foldl_memoryLine_of_perm hperm hkeys]

/-! ## Layouts of files -/

/-- No layout of a file changes what is read from it: neither other lines nor
    the order of columns nor columns that are not asked for change the counters
    of a protocol, and no order of lines changes the memory figures. -/
theorem reads_any_layout :
    (∀ text text', Relation.EqvGen (Relaid "Ip" ipNames) text text' → ip text = ip text') ∧
    (∀ text text', Relation.EqvGen (Relaid "Tcp" tcpNames) text text' → tcp text = tcp text') ∧
    (∀ text text', Relation.EqvGen (Relaid "Udp" udpNames) text text' → udp text = udp text') ∧
    ∀ text text', (rawLines text).Perm (rawLines text') → (memoryKeys text).Nodup →
      memory text = memory text' :=
  ⟨fun _ _ h => ip_congr fun _ => column_eq_of_eqvGen h,
    fun _ _ h => tcp_congr fun _ => column_eq_of_eqvGen h,
    fun _ _ h => udp_congr fun _ => column_eq_of_eqvGen h,
    fun _ _ => memory_of_perm⟩

/-- The counters of a host with UDP-Lite, in another order and with one more
    column; and memory figures the other way round. -/
theorem reads_any_layout_udpLite :
    Relation.EqvGen (Relaid "Udp" udpNames) "Udp: InDatagrams NoPorts\nUdp: 100 2\n".toList
      "UdpLite: NoPorts\nUdp: NoPorts IgnoredMulti InDatagrams\r\nUdp: 2 0 100".toList ∧
    udp "Udp: InDatagrams NoPorts\nUdp: 100 2\n".toList = { inDatagrams := 100, noPorts := 2 } ∧
    udp "UdpLite: NoPorts\nUdp: NoPorts IgnoredMulti InDatagrams\r\nUdp: 2 0 100".toList =
      { inDatagrams := 100, noPorts := 2 } ∧
    (rawLines "MemTotal: 16 kB\nShmem: 4 kB".toList).Perm
      (rawLines "Shmem: 4 kB\nMemTotal: 16 kB\n".toList) ∧
    (memoryKeys "MemTotal: 16 kB\nShmem: 4 kB".toList).Nodup ∧
    memory "MemTotal: 16 kB\nShmem: 4 kB".toList = { total := 16, shared := 4 } ∧
    memory "Shmem: 4 kB\nMemTotal: 16 kB\n".toList = { total := 16, shared := 4 } := by
  have hline : Relaid "Udp" udpNames "Udp: InDatagrams NoPorts\nUdp: 100 2\n".toList
      "UdpLite: NoPorts\nUdp: InDatagrams NoPorts\nUdp: 100 2\n".toList :=
    @Relaid.otherLine _ _ _ _ [] ["Udp: InDatagrams NoPorts".toList, "Udp: 100 2".toList]
      "UdpLite: NoPorts".toList (by decide +kernel) (by decide +kernel) (by decide +kernel)
  have horder : Relaid "Udp" udpNames
      "UdpLite: NoPorts\nUdp: InDatagrams NoPorts\nUdp: 100 2\n".toList
      "UdpLite: NoPorts\nUdp: NoPorts InDatagrams\nUdp: 2 100\n".toList :=
    @Relaid.otherOrder _ _ _ _
      [("InDatagrams".toList, "100".toList), ("NoPorts".toList, "2".toList)]
      [("NoPorts".toList, "2".toList), ("InDatagrams".toList, "100".toList)]
      (by decide +kernel) (by decide +kernel) (List.Perm.swap _ _ _) (by decide +kernel)
  have hcolumn : Relaid "Udp" udpNames
      "UdpLite: NoPorts\nUdp: NoPorts InDatagrams\nUdp: 2 100\n".toList
      "UdpLite: NoPorts\nUdp: NoPorts IgnoredMulti InDatagrams\r\nUdp: 2 0 100".toList :=
    @Relaid.otherColumn _ _ _ _ [("NoPorts".toList, "2".toList)]
      [("InDatagrams".toList, "100".toList)] ("IgnoredMulti".toList, "0".toList)
      (by decide +kernel) (by decide +kernel) (by decide +kernel)
  have hlayout := ((Relation.EqvGen.rel _ _ hline).trans _ _ _ (.rel _ _ horder)).trans _ _ _
    (.rel _ _ hcolumn)
  have hperm : (rawLines "MemTotal: 16 kB\nShmem: 4 kB".toList).Perm
      (rawLines "Shmem: 4 kB\nMemTotal: 16 kB\n".toList) := by decide +kernel
  have hkeys : (memoryKeys "MemTotal: 16 kB\nShmem: 4 kB".toList).Nodup := by decide +kernel
  have hudp : udp "Udp: InDatagrams NoPorts\nUdp: 100 2\n".toList =
      { inDatagrams := 100, noPorts := 2 } := by decide +kernel
  have hmemory : memory "MemTotal: 16 kB\nShmem: 4 kB".toList = { total := 16, shared := 4 } := by
    decide +kernel
  obtain ⟨-, -, hudpLayout, hmemoryLayout⟩ := reads_any_layout
  exact ⟨hlayout, hudp, (hudpLayout _ _ hlayout).symm.trans hudp, hperm, hkeys, hmemory,
    (hmemoryLayout _ _ hperm hkeys).symm.trans hmemory⟩

end SnmpAgent.Proc
