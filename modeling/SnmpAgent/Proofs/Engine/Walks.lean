import SnmpAgent.Proofs.Engine.Queries
import SnmpAgent.Proofs.Mib.Names

/-!
# Walks

A manager *walks* through the variables of an agent: it asks for what comes
after a name, then for what comes after the name in the reply, and so on until
it is told that there is nothing more. Each reply names the entry behind the
one that was asked from, since names survive the wire and searches follow
their order. So a walk from below all variables visits every entry once, in
ascending order, and ends.

* `Manager.walk`: the varbinds that a manager reads on its way;
* `MibStore.Reports`: what a varbind says of an entry;
* `Manager.walk_eq`: a walk from any position of a store;
* `Manager.walk_complete`: a walk through the standard variables.
-/

namespace SnmpAgent

/-- A varbind names the entry at a position, and gives its value as of a
    snapshot. -/
structure MibStore.Reports (m : MibStore) (s : Snapshot) (i : Nat) (v : VarBind) : Prop where
  entry : ∃ e, m.get? i = some (v.oid, e) ∧
    Value.read (Cursor.ofMessage (e.octetsAt s)) = .ok v.value ⟨(e.octetsAt s).length, []⟩
  /-- The value does not stand in for a missing one. -/
  found : ¬v.value.isException

/-- There is only one report of an entry. -/
theorem MibStore.Reports.unique {m : MibStore} {s : Snapshot} {i : Nat} {v v' : VarBind}
    (h : m.Reports s i v) (h' : m.Reports s i v') : v = v' := by
  obtain ⟨e, hentry, hread⟩ := h.entry
  obtain ⟨e', hentry', hread'⟩ := h'.entry
  obtain ⟨hoid, rfl⟩ := Prod.mk.inj (Option.some.inj (hentry.symm.trans hentry'))
  cases v
  cases v'
  cases hoid
  cases hread.symm.trans hread'
  rfl

/-- Every entry of a legible store under a canonical name is reported by what it
    denotes. -/
theorem MibStore.Legible.exists_reports {m : MibStore} (h : m.Legible) {s : Snapshot} {i : Nat}
    {oid : Oid} {e : Entry} (hentry : m.get? i = some (oid, e)) (hoid : oid.Canonical) :
    ∃ v : VarBind, v.oid = oid ∧ (⟨oid, e.octetsAt s⟩ : Binding).Denotes v ∧ m.Reports s i v := by
  have hbinding : m.bindingAt s i = some ⟨oid, e.octetsAt s⟩ := by
    rw [bindingAt, hentry]
    rfl
  obtain ⟨⟨oid', w⟩, hdenotes, hfound⟩ := h.denotes_bindingAt hbinding
  obtain rfl : oid = oid' := hoid.repacked_eq.symm.trans hdenotes.name
  refine ⟨⟨oid, w⟩, rfl, hdenotes, ⟨e, hentry, ?_⟩, hfound⟩
  obtain ⟨w', hw', htlv, rfl⟩ := hdenotes.value
  have hread := Value.takes_read hw' htlv 0 []
  rwa [List.append_nil, Nat.zero_add] at hread

namespace Manager

/-- The varbinds that are read on a walk of at most `limit` requests from a name
    on. The host of the agent is `hosts turn` while it processes the request of
    that number. -/
def walk (config : AgentConfig) (peer : SocketAddr) (hosts : Nat → Host) (community : List UInt8)
    (id : Int32) : (limit turn : Nat) → Oid → MibStore → List VarBind
  | 0, _, _, _ => []
  | limit + 1, turn, oid, store =>
    match ask config peer (hosts turn) store (request community id .getNextRequest oid) with
    | (none, _) => []
    | (some v, store') =>
      v :: if v.value = .endOfMibView then []
        else walk config peer hosts community id limit (turn + 1) v.oid store'

/-- The snapshot that the request of a number is answered from. -/
def figures (config : AgentConfig) (hosts : Nat → Host) (turn : Nat) : Snapshot :=
  hosts turn 0 config.interfaces config.disks

variable {config : AgentConfig} {peer : SocketAddr} {host : Host} {hosts : Nat → Host}
  {community : List UInt8} {id : Int32} {m store : MibStore} {s : Snapshot} {oid : Oid}

/-- A request for what comes after a name is answered with the entry behind
    those not above it. -/
theorem responseTo_getNext (hstore : store.blank = m.blank) (s : Snapshot)
    (community : List UInt8) (id : Int32) (oid : Oid) :
    Engine.responseTo store.blank s (request community id .getNextRequest oid) =
      some (Response.success id [(m.bindingAt s (m.table.upperBound oid)).getD
        (Binding.marker oid .endOfMibView)]) := by
  rw [hstore, ← m.upperBound_blank, ← m.bindingAt_blank, ← m.blank.next?_eq s oid]
  change some (Engine.reply _ (Engine.answers (m.blank.next? s) (some .endOfMibView) 1 [oid])) = _
  rw [Engine.answers_some]
  rfl

/-- A request for a name of the store is answered with its entry. -/
theorem responseTo_get (hstore : store.blank = m.blank) (h : m.table.Ascending) {i : Nat}
    {e : Entry} (hentry : m.get? i = some (oid, e)) (s : Snapshot) (community : List UInt8)
    (id : Int32) : Engine.responseTo store.blank s (request community id .getRequest oid) =
      some (Response.success id [⟨oid, e.octetsAt s⟩]) := by
  rw [hstore]
  change some (Engine.reply _ (Engine.answers (m.blank.lookup? s) (some .noSuchObject) 1 [oid])) = _
  rw [Engine.answers_some, List.map_singleton, m.lookup?_blank, MibStore.lookup?_eq h hentry s,
    MibStore.bindingAt, hentry]
  rfl

/-- What a walk through a store rests on. -/
structure Walkable (config : AgentConfig) (hosts : Nat → Host) (community : List UInt8)
    (id : Int32) (m : MibStore) : Prop where
  legible : m.Legible
  ascending : m.table.Ascending
  /-- The names come back as they are. -/
  names : ∀ i oid e, m.get? i = some (oid, e) → oid.Canonical
  sendable : Message.CommunityFits community
  admits : ∀ type oid, Engine.admits config (request community id type oid)
  /-- Every entry fits into a reply. -/
  fits : ∀ i oid e, m.get? i = some (oid, e) → (Response.success id
    [⟨oid, e.octetsAt (figures config hosts i)⟩]).Fits (request community id .getNextRequest oid)
      maxPacketSize

namespace Walkable

/-- At the end of the store the manager is told so. -/
theorem ask_end (h : Walkable config hosts community id m) (hstore : store.blank = m.blank)
    (hoid : oid.Canonical) (hposition : m.table.upperBound oid = m.length) (peer : SocketAddr)
    (host : Host) :
    (ask config peer host store (request community id .getNextRequest oid)).1 =
      some ⟨oid, .endOfMibView⟩ := by
  have hnone : m.get? m.length = none := List.getElem?_eq_none (Nat.le_refl _)
  have hresponse := responseTo_getNext hstore (host 0 config.interfaces config.disks) community id
    oid
  rw [hposition, MibStore.bindingAt, hnone] at hresponse
  have hdenotes := Binding.denotes_marker hoid.validate (w := .endOfMibView) rfl
  rw [hoid.repacked_eq] at hdenotes
  have hsize := encodedLength_le hoid [Tag.endOfMibView, 0] (Nat.le_refl 2)
  exact ask_eq h.sendable hoid (h.admits _ oid) (by decide) hresponse
    (fits_of_encodedLength_le h.sendable id _ oid (Nat.le_trans hsize (by decide))) hdenotes

/-- Before the end the manager reads the next entry, from which it goes on. -/
theorem ask_next (h : Walkable config hosts community id m) (hstore : store.blank = m.blank)
    (hoid : oid.Canonical) {turn : Nat} (hposition : m.table.upperBound oid = turn)
    (hturn : turn < m.length) (peer : SocketAddr) : ∃ v : VarBind,
      (ask config peer (hosts turn) store (request community id .getNextRequest oid)).1 = some v ∧
      m.Reports (figures config hosts turn) turn v ∧ v.oid.Canonical ∧
      m.table.upperBound v.oid = turn + 1 := by
  obtain ⟨⟨oid', e⟩, hentry⟩ : ∃ p, m.get? turn = some p := ⟨_, List.getElem?_eq_getElem hturn⟩
  have hoid' := h.names turn oid' e hentry
  obtain ⟨v, rfl, hdenotes, hreports⟩ :=
    h.legible.exists_reports (s := figures config hosts turn) hentry hoid'
  have hresponse := responseTo_getNext hstore (figures config hosts turn) community id oid
  rw [hposition, MibStore.bindingAt, hentry] at hresponse
  exact ⟨v, ask_eq h.sendable hoid (h.admits _ oid) (by decide) hresponse
    (h.fits turn v.oid e hentry) hdenotes, hreports, hoid', h.ascending.upperBound_eq hentry⟩

/-- A walk from a name on visits the entries behind those not above it, if it is
    long enough. -/
theorem walk_eq (h : Walkable config hosts community id m) {limit turn : Nat}
    (hlimit : m.length - turn < limit) (hturn : turn ≤ m.length) (hstore : store.blank = m.blank)
    (hoid : oid.Canonical) (hposition : m.table.upperBound oid = turn)
    (peer : SocketAddr) : ∃ vs : List VarBind,
      walk config peer hosts community id limit turn oid store =
        vs ++ [⟨((vs.map (·.oid)).getLast?).getD oid, .endOfMibView⟩] ∧
      vs.length = m.length - turn ∧
      ∀ i v, vs[i]? = some v → m.Reports (figures config hosts (turn + i)) (turn + i) v := by
  -- Every turn keeps the name at the entry before the one that is next, and the
  -- limit above the entries that are left.
  induction limit generalizing turn oid store with
  | zero => exact absurd hlimit (Nat.not_lt_zero _)
  | succ limit ih =>
    rw [walk]
    cases hask : ask config peer (hosts turn) store
      (request community id .getNextRequest oid) with
    | mk v? store' =>
    rcases Nat.eq_or_lt_of_le hturn with rfl | hmore
    · -- Nothing is left, and the marker ends the walk.
      have hend := h.ask_end hstore hoid hposition peer (hosts m.length)
      rw [hask] at hend
      cases hend
      exact ⟨[], rfl, by rw [Nat.sub_self, List.length_nil], fun i v hv => by cases hv⟩
    · obtain ⟨v, hnext, hreports, hoid', hposition'⟩ :=
        h.ask_next hstore hoid hposition hmore peer
      rw [hask] at hnext
      cases hnext
      have hstore' : store'.blank = m.blank := by
        have hblank := (reaches_ask config peer (hosts turn) store
          (request community id .getNextRequest oid)).blank
        rw [hask] at hblank
        exact hblank.trans hstore
      obtain ⟨vs, hwalk, hlength, hvs⟩ := ih (by omega) hmore hstore' hoid' hposition'
      -- What reports an entry is no marker.
      have hgoes : ¬v.value = .endOfMibView := by
        intro hend
        exact hreports.found (hend ▸ rfl)
      refine ⟨v :: vs, ?_, ?_, ?_⟩
      · dsimp only
        rw [if_neg hgoes, hwalk, List.map_cons, List.getLast?_cons, Option.getD_some,
          List.cons_append]
      · rw [List.length_cons, hlength]
        omega
      · rintro (_ | i) w hw
        · cases hw
          exact hreports
        · rw [Nat.add_succ, ← Nat.succ_add]
          exact hvs i w hw

/-- Any entry of the store is read again when it is asked for by its name, if
    the host reports the same figures. -/
theorem ask_get (h : Walkable config hosts community id m) (hstore : store.blank = m.blank) {i : Nat}
    {v : VarBind} (hv : m.Reports (figures config hosts i) i v)
    (hhost : host 0 config.interfaces config.disks = figures config hosts i) :
    (ask config peer host store (request community id .getRequest v.oid)).1 = some v := by
  obtain ⟨e, hentry, -⟩ := hv.entry
  have hoid := h.names i v.oid e hentry
  obtain ⟨v', -, hdenotes, hv'⟩ :=
    h.legible.exists_reports (s := figures config hosts i) hentry hoid
  obtain rfl := hv.unique hv'
  have hresponse := responseTo_get hstore h.ascending hentry (figures config hosts i) community id
  rw [← hhost] at hresponse
  refine ask_eq h.sendable hoid (h.admits _ v.oid) (by decide) hresponse ?_ (hhost ▸ hdenotes)
  rw [hhost]
  exact h.fits i v.oid e hentry

end Walkable

/-- Below all names of a store stand no entries. -/
theorem upperBound_eq_zero (hbelow : ∀ oid' e, m.get? 0 = some (oid', e) → oid < oid') :
    m.table.upperBound oid = 0 := by
  rw [OidTable.upperBound]
  cases hentries : m.table.entries with
  | nil => rfl
  | cons p entries =>
    have hp : ¬p.1 ≤ oid := by
      refine not_le_of_gt (hbelow p.1 p.2 ?_)
      rw [MibStore.get?, OidTable.get?, hentries]
      rfl
    rw [List.takeWhile_cons_of_neg (by simpa using hp), List.length_nil]

/-- Reports of all entries have their names. -/
theorem map_oid_eq {vs : List VarBind} {figures : Nat → Snapshot} (hcount : vs.length = m.length)
    (hvs : ∀ i v, vs[i]? = some v → m.Reports (figures i) i v) :
    vs.map (·.oid) = m.table.entries.map (·.1) := by
  refine List.ext_getElem? fun i => ?_
  rw [List.getElem?_map, List.getElem?_map]
  cases hv : vs[i]? with
  | none =>
    have hnone : m.table.entries[i]? = none := by
      rw [List.getElem?_eq_none_iff] at hv ⊢
      exact (hcount ▸ hv : m.length ≤ i)
    rw [hnone]
    rfl
  | some v =>
    obtain ⟨e, hentry, -⟩ := (hvs i v hv).entry
    have hsome : m.table.entries[i]? = some (v.oid, e) := hentry
    rw [hsome]
    rfl

/-- A walk over the wire is complete and ends. From below all standard
    variables, whatever happened to them before, it reads every entry once, in
    ascending order, with its value as of the snapshot at that time, and then
    the end of the variables, so that one request more than there are entries is
    enough. Each entry is read again when it is asked for by its name under the
    same snapshot. -/
theorem walk_complete {config : AgentConfig} (hconfig : config.validate = .ok ())
    {s₁ s₂ : Snapshot} {capacity : Nat} {m store : MibStore}
    (hbuild : MibStore.build (standardDefinitions config s₁) s₂ capacity = .ok m)
    (hreach : Reaches m store) {community : List UInt8}
    (hcommunity : Message.CommunityFits community) {first second : UInt32} {rest : List UInt32}
    (hlength : rest.length + 2 ≤ Oid.maxSubids) (hfirst : first.toNat ≤ 1)
    (hsecond : second.toNat < 40)
    (hbelow : ∀ oid e, m.get? 0 = some (oid, e) → ⟨first :: second :: rest⟩ < oid) {id : Int32}
    (hadmits : Engine.admits config
      (request community id .getNextRequest ⟨first :: second :: rest⟩)) {hosts : Nat → Host}
    (hfits : ∀ i oid e, m.get? i = some (oid, e) → (Response.success id
      [⟨oid, e.octetsAt (figures config hosts i)⟩]).Fits
        (request community id .getNextRequest oid) maxPacketSize)
    (peer : SocketAddr) {limit : Nat} (hlimit : m.length < limit) : ∃ vs : List VarBind,
      walk config peer hosts community id limit 0 ⟨first :: second :: rest⟩ store =
        vs ++ [⟨((vs.map (·.oid)).getLast?).getD ⟨first :: second :: rest⟩, .endOfMibView⟩] ∧
      vs.map (·.oid) = m.table.entries.map (·.1) ∧ (vs.map (·.oid)).Pairwise (· < ·) ∧
      ∀ i v, vs[i]? = some v → m.Reports (figures config hosts i) i v ∧
        ∀ (host : Host) (store' : MibStore), Reaches m store' →
          host 0 config.interfaces config.disks = figures config hosts i →
          (ask config peer host store' (request community id .getRequest v.oid)).1 = some v := by
  have hwalkable : Walkable config hosts community id m := {
    legible := MibStore.legible_of_build hbuild (legible_standardDefinitions hconfig s₁)
    ascending := MibStore.ascending_of_build hbuild
    names := fun _ _ _ hentry => MibStore.canonical_of_build hbuild hentry
    sendable := hcommunity
    admits := fun _ _ => hadmits
    fits := hfits }
  have hstart : Oid.Canonical ⟨first :: second :: rest⟩ :=
    ⟨first, second, rest, rfl, hlength, .inl ⟨hfirst, hsecond⟩⟩
  obtain ⟨vs, hwalk, hcount, hvs⟩ := hwalkable.walk_eq (Nat.lt_of_le_of_lt (Nat.sub_le _ 0) hlimit)
    (Nat.zero_le _) hreach.blank hstart (upperBound_eq_zero hbelow) peer
  simp only [Nat.zero_add] at hvs
  have hnames := map_oid_eq hcount fun i v hv => hvs i v hv
  refine ⟨vs, hwalk, hnames, ?_, fun i v hv => ⟨hvs i v hv, fun host store' hreach' hhost => ?_⟩⟩
  · rw [hnames, List.pairwise_map]
    exact hwalkable.ascending
  · exact hwalkable.ask_get hreach'.blank (hvs i v hv) hhost

/-- A walk from 1.3 through the standard variables of an agent without
    interfaces. -/
theorem walk_standardDefinitions : ∃ m : MibStore,
    MibStore.build (standardDefinitions {} {}) {} maxValues = .ok m ∧ ∃ vs : List VarBind,
      walk {} (.v4 ⟨127, 0, 0, 1⟩ 40000) (fun _ => Host.static {})
          [0x70, 0x75, 0x62, 0x6C, 0x69, 0x63] 1 (m.length + 1) 0 ⟨[1, 3]⟩ m =
        vs ++ [⟨((vs.map (·.oid)).getLast?).getD ⟨[1, 3]⟩, .endOfMibView⟩] ∧
      vs.map (·.oid) = m.table.entries.map (·.1) ∧ (vs.map (·.oid)).Pairwise (· < ·) ∧
      ∀ i v, vs[i]? = some v →
        m.Reports (figures {} (fun _ => Host.static {}) i) i v ∧
        ∀ (host : Host) (store' : MibStore), Reaches m store' →
          host 0 [] ["/"] = figures {} (fun _ => Host.static {}) i →
          (ask {} (.v4 ⟨127, 0, 0, 1⟩ 40000) host store' (request
            [0x70, 0x75, 0x62, 0x6C, 0x69, 0x63] 1 .getRequest v.oid)).1 = some v := by
  -- All elements are small, and the first name is known.
  have hsizes : (do
      let m : MibStore ← MibStore.build (standardDefinitions {} {}) {} maxValues
      return ((m.get? 0).map Prod.fst, m.table.entries.all fun p =>
        (⟨p.1, p.2.octetsAt (figures {} (fun _ => Host.static {}) 0)⟩ : Binding).encodedLength ≤
          1947)) = .ok (some (⟨[1, 3, 6, 1, 2, 1, 1, 1, 0]⟩ : Oid), true) := by
    decide +kernel
  obtain ⟨m, hbuild, hsizes⟩ := except_bind_eq_ok.1 hsizes
  obtain ⟨hfirst, hsizes⟩ := Prod.mk.inj (Except.ok.inj hsizes)
  have hcommunity : Message.CommunityFits [0x70, 0x75, 0x62, 0x6C, 0x69, 0x63] :=
    ⟨by decide, by decide⟩
  refine ⟨m, hbuild, walk_complete (by decide) hbuild .refl hcommunity (by decide) (by decide)
    (by decide) (fun oid e hentry => ?_) (by decide) (fun i oid e hentry => ?_) _
    (Nat.lt_succ_self m.length)⟩
  · rw [hentry] at hfirst
    cases hfirst
    decide
  · have hsize := List.all_eq_true.1 hsizes (oid, e) (List.mem_of_getElem? hentry)
    exact fits_of_encodedLength_le hcommunity 1 _ oid (of_decide_eq_true hsize)

end Manager

end SnmpAgent
