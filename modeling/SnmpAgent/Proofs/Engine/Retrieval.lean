import SnmpAgent.Proofs.Engine.Admission
import SnmpAgent.Proofs.Mib.Subtrees

/-!
# Requests for single variables

A name stands for the variable of that name, or else for the only one beneath
it. A request of the second version is answered with one binding for each name,
a marker where a name stands for nothing. A request of the first version is
answered with the variables of all names, or else fails at the first name that
stands for nothing.

* `MibStore.retrieved?`: what a name stands for, told by a look at all
  variables; `MibStore.lookup?_eq_retrieved?`: that is what the agent finds;
* `Engine.Retrieves`: the reply to a request for single variables;
* `Engine.retrieves_reply`: the reply of the agent is this one;
* `Engine.get_retrieves`: lookups, replies and what is sent, from every store
  that was built, whatever happened to it.
-/

namespace SnmpAgent

namespace MibStore

/-- The binding of the variable that a name stands for, as of a snapshot. -/
def retrieved? (m : MibStore) (s : Snapshot) (oid : Oid) : Option Binding :=
  (m.table.subject? oid).map fun p => ⟨p.1, p.2.octetsAt s⟩

variable {m store : MibStore}

/-- A search for a name finds the variable that it stands for. -/
theorem lookup?_eq_retrieved? (h : m.table.Ascending) (s : Snapshot) (oid : Oid) :
    m.lookup? s oid = m.retrieved? s oid := by
  have hfirst : m.candidate oid 0 = m.table.lowerBound oid := Nat.zero_max _
  have hnext : m.candidate oid (m.table.lowerBound oid + 1) = m.table.lowerBound oid + 1 :=
    Nat.max_eq_left (Nat.le_succ _)
  have hsubject : m.table.subject? oid =
      (m.get? (m.table.lowerBound oid)).filter fun p => p.1 = oid ∨ p.1.startsWith oid ∧
        ¬(m.get? (m.table.lowerBound oid + 1)).any (·.1.startsWith oid) := h.subject?_eq oid
  rw [retrieved?, hsubject, lookup?, findAtOrBelow?, hfirst]
  cases hget : m.get? (m.table.lowerBound oid) with
  | none => rfl
  | some p =>
    rw [Option.filter_some, Option.any_some]
    by_cases hbeneath : p.1.startsWith oid
    · rw [if_pos hbeneath]
      dsimp only
      rw [findAtOrBelow?, hnext, bindingAt, hget, Option.any_some]
      by_cases hname : p.1 = oid
      · simp [hname]
      · -- The neighbour decides whether there is more beneath the name.
        by_cases hmore : (m.get? (m.table.lowerBound oid + 1)).any (·.1.startsWith oid)
        · simp [hname, hmore]
        · simp [hname, hbeneath, hmore]
    · have hname : p.1 ≠ oid := by
        rintro rfl
        exact hbeneath (Oid.startsWith_self _)
      simp [hbeneath, hname]

/-- What a name stands for is not changed by anything that happens to a store. -/
theorem lookup?_of_reaches {definitions : List Definition} {s₀ : Snapshot} {capacity : Nat}
    (hbuild : build definitions s₀ capacity = .ok m) (hreach : Reaches m store) (s : Snapshot) :
    store.blank.lookup? s = m.retrieved? s := by
  funext oid
  rw [hreach.blank, lookup?_blank, lookup?_eq_retrieved? (ascending_of_build hbuild)]

end MibStore

namespace Engine

/-- The reply to a request for single variables, given what is found for each
    name. -/
inductive Retrieves (found : Oid → Option Binding) (p : Pdu) : Version → Response → Prop where
  -- In the second version there is a binding for each name, a marker where
  -- nothing is found.
  | marked : Retrieves found p .v2c (Response.success p.requestId
      ((names p).map fun oid => (found oid).getD (Binding.marker oid .noSuchObject)))
  -- In the first version the reply has what is found for the names, if that is
  -- so for all.
  | complete {bs : List Binding} (h : (names p).map found = bs.map some) :
      Retrieves found p .v1 (Response.success p.requestId bs)
  -- Else it names the position of the first one, counted from one, for which
  -- nothing is found.
  | missing {before after : List Oid} {oid : Oid} (h : names p = before ++ oid :: after)
      (hbefore : ∀ o ∈ before, (found o).isSome) (hoid : found oid = none) :
      Retrieves found p .v1 (Response.failure p .noSuchName (before.length + 1))

variable {found : Oid → Option Binding} {definitions : List Definition} {s₀ : Snapshot}
  {capacity : Nat} {m store : MibStore}

/-- The answers to the names of a request make up its reply. -/
theorem retrieves_reply (found : Oid → Option Binding) (p : Pdu) (version : Version) :
    Retrieves found p version
      (reply p (answers found (missing version .noSuchObject) 1 (names p))) := by
  cases version with
  | v2c =>
    rw [missing, answers_some]
    exact .marked
  | v1 =>
    rw [missing]
    rcases answers_none found 1 (names p) with
      ⟨bs, hbs, hanswers⟩ | ⟨before, oid, after, hnames, hbefore, hoid, hanswers⟩
    · rw [hanswers]
      exact .complete hbs
    · rw [hanswers]
      exact .missing hnames hbefore hoid

/-- In every store that was built, whatever happened to it, a name stands for
    the variable of that name, or else for the only one beneath it, and that is
    what is looked up. A request for single variables is answered accordingly,
    and if it comes in a packet, this reply is what is sent. -/
theorem get_retrieves (hbuild : MibStore.build definitions s₀ capacity = .ok m)
    (hreach : Reaches m store) :
    (∀ (source : Nat → Snapshot) (l : Lookup), l.store = store →
      (∀ oid, ∃ l' : Lookup,
        Lookup.exact source oid l = .ok (m.retrieved? (l.figures source) oid) l') ∧
      ∀ (p : Pdu) (version : Version), ∃ (r : Response) (l' : Lookup),
        get source p version l = .ok r l' ∧
        Retrieves (m.retrieved? (l.figures source)) p version r) ∧
    ∀ (config : AgentConfig) (host : Host) (packet : List UInt8) (peer : SocketAddr)
      (request : Message), Message.decode packet maxRequestVarbinds = .ok request →
      admits config request → request.pdu.type = .getRequest → ∃ r : Response,
        Retrieves (m.retrieved? (host 0 config.interfaces config.disks)) request.pdu
          request.version r ∧
        (process config host store packet peer).result =
          sent (r.encode request maxPacketSize) := by
  -- What the store finds is what was built, with metrics as of the snapshot.
  have hfound := MibStore.lookup?_of_reaches hbuild hreach
  constructor
  · rintro source l rfl
    have hkeeps : l.Keeps source l.store.blank (l.figures source) := ⟨rfl, rfl⟩
    constructor
    · intro oid
      obtain ⟨l', hexact, -⟩ := Lookup.gives_exact oid l hkeeps
      rw [hfound] at hexact
      exact ⟨l', hexact⟩
    · intro p version
      obtain ⟨l', hget, -⟩ := gives_get p version l hkeeps
      rw [hfound] at hget
      exact ⟨_, l', hget, retrieves_reply _ p version⟩
  · intro config host packet peer request hdecode hadmits htype
    refine ⟨_, retrieves_reply _ request.pdu request.version, ?_⟩
    have hbulk : request.pdu.type ≠ .getBulkRequest := by
      rw [htype]
      decide
    rw [result_eq_answerTo config host store packet peer hdecode hadmits, answerTo, responseTo,
      htype, hfound]
    dsimp only
    rw [encodeReply, if_neg hbulk]

/-- A request for the uptime of the agent, which is the only variable beneath
    1.3.6.1.2.1.1.3, and for one of all variables. -/
def ambiguousRequest : Pdu :=
  ⟨.getRequest, 1, 0, 0, [⟨⟨[1, 3, 6, 1, 2, 1, 1, 3]⟩, .null⟩, ⟨⟨[1, 3, 6, 1, 2, 1]⟩, .null⟩]⟩

/-- The standard variables, refreshed before, are asked for in the first
    version. The first name stands for a variable, and the second one for none. -/
theorem get_retrieves_ambiguousRequest : ∃ m : MibStore,
    MibStore.build (standardDefinitions {} {}) {} maxValues = .ok m ∧
    (names ambiguousRequest).map (fun oid => (m.table.subject? oid).map (·.1)) =
      [some ⟨[1, 3, 6, 1, 2, 1, 1, 3, 0]⟩, none] ∧
    ∃ (r : Response) (l : Lookup),
      get (fun _ => { agentUptime := 300 }) ambiguousRequest .v1
        (Lookup.start (m.refreshAll { agentUptime := 7 }).1) = .ok r l ∧
      Retrieves (m.retrieved? { agentUptime := 300 }) ambiguousRequest .v1 r := by
  have hnames : (MibStore.build (standardDefinitions {} {}) {} maxValues >>= fun m =>
      .ok ((names ambiguousRequest).map fun oid => (m.table.subject? oid).map (·.1))) =
        .ok [some ⟨[1, 3, 6, 1, 2, 1, 1, 3, 0]⟩, none] := by
    decide +kernel
  obtain ⟨m, hm, hnames⟩ := except_bind_eq_ok.1 hnames
  obtain ⟨hlookups, -⟩ := get_retrieves hm (.single (.refresh m { agentUptime := 7 }))
  obtain ⟨-, hget⟩ := hlookups (fun _ => { agentUptime := 300 }) (Lookup.start _) rfl
  exact ⟨m, hm, Except.ok.inj hnames, hget ambiguousRequest .v1⟩

end Engine

end SnmpAgent
