import SnmpAgent.Proofs.Server.Turns

/-!
# Places in the table of clients

A client is served at its position in the table, and positions shift: a client
that makes place for a new one, and clients that are done with, leave no gap.
Apart from that, a step of the loop does nothing to a client that it does not
serve.

* `Server.Continues`: what no step of the loop changes, the variables included
  but for the values of metrics;
* `ClientTable.get?_insert`, `ClientTable.get?_reap`: where a client is found
  when another one has come, and when others have left;
* `Server.get?_step`: where a client is found after a step that neither serves
  nor evicts it;
* `Server.get?_step_connection`: where a new client is found.
-/

namespace SnmpAgent

/-! ## What a step leaves alone -/

/-- A server has become another one, with the same configuration and room for as
    many clients, by packets that were processed and refreshes of its
    variables. -/
structure Server.Continues (s s' : Server) : Prop where
  config : s'.config = s.config
  /-- The variables are the same, but for the values of metrics. -/
  store : Reaches s.store s'.store
  capacity : s'.clients.capacity = s.clients.capacity

namespace Server

variable {s s' s'' : Server} {i : Nat} {c : Client}

namespace Continues

theorem refl (s : Server) : s.Continues s := ⟨rfl, .refl, rfl⟩

theorem trans (h : s.Continues s') (h' : s'.Continues s'') : s.Continues s'' :=
  ⟨h'.config.trans h.config, h.store.trans h'.store, h'.capacity.trans h.capacity⟩

theorem setClient (h : s.Continues s') (i : Nat) (c : Client) : s.Continues (s'.setClient i c) :=
  ⟨h.config, h.store, h.capacity⟩

end Continues

theorem continues_process (s : Server) (host : Host) (packet : List UInt8) (peer : SocketAddr) :
    s.Continues (s.process host packet peer).1 :=
  ⟨rfl, .single (.process s.config _ s.store packet peer), rfl⟩

/-- What is read from a client concerns no other one. -/
theorem receive_frame (s : Server) (host : Host) (now i : Nat) (c : Client) (octets : List UInt8) :
    s.Continues (s.receive host now i c octets) ∧
      ∃ d : Client, (s.receive host now i c octets).clients = s.clients.set i d := by
  rw [receive]
  split
  · exact ⟨(Continues.refl s).setClient i _, _, rfl⟩
  · exact ⟨(s.continues_process host _ _).setClient i _, _, rfl⟩

/-- A transfer with a client concerns no other one. -/
theorem transfer_frame (host : Host) (now : Nat) (t : Transfer) (hget : s.clients.get? i = some c) :
    s.Continues (s.transfer host now i c t).1 ∧
      ∃ d : Client, (s.transfer host now i c t).1.clients = s.clients.set i d := by
  unfold transfer
  split
  · split_ifs
    · exact ⟨(Continues.refl s).setClient i _, _, rfl⟩
    · exact s.receive_frame host now i c _
  · exact ⟨(Continues.refl s).setClient i _, _, rfl⟩
  · exact ⟨.refl s, c, congrArg (·.clients) (setClient_self hget).symm⟩
  · exact ⟨(Continues.refl s).setClient i _, _, rfl⟩

/-- The turn of a client concerns no other one. -/
theorem serve_frame (host : Host) (now : Nat) (t : Transfer) (hget : s.clients.get? i = some c) :
    s.Continues (s.serve host now i t).1 ∧
      ∃ d : Client, (s.serve host now i t).1.clients = (s.clients.served i).set i d := by
  rw [serve, hget]
  have hserved : s.Continues { s with clients := s.clients.served i } := ⟨rfl, .refl, rfl⟩
  obtain ⟨hcontinues, hclients⟩ :=
    transfer_frame (s := { s with clients := s.clients.served i }) host now t hget
  exact ⟨hserved.trans hcontinues, hclients⟩

theorem continues_handle (s : Server) (host : Host) (now : Nat) (e : Event) :
    s.Continues (s.handle host now e).1 := by
  cases e with
  | tick => exact ⟨rfl, .single (.refresh s.store _), rfl⟩
  | datagram packet peer =>
    have hprocess := s.continues_process host packet peer
    rw [handle, handleDatagram]
    split_ifs
    · exact .refl s
    · split <;> rename_i heq <;> exact congrArg Prod.fst heq ▸ hprocess
  | connection peer => exact ⟨rfl, .refl, rfl⟩
  | service i t =>
    cases hget : s.clients.get? i with
    | none =>
      rw [handle, serve, hget]
      exact .refl s
    | some c => exact (serve_frame host now t hget).1

theorem continues_step (s : Server) (host : Host) (now : Nat) (e : Event) :
    s.Continues (s.step host now e).1 :=
  (s.continues_handle host now e).trans ⟨rfl, .refl, rfl⟩

end Server

/-! ## Positions -/

namespace ClientTable

variable {t : ClientTable} {i : Nat} {c : Client}

/-- The position of the client that makes place for a new one, if one has to. -/
def evictedAt? (t : ClientTable) : Option Nat := t.evicted?.map fun c => t.clients.idxOf c

/-- The position to which the client at `i` comes, if it stays when a new one
    comes. -/
def stayingAt (t : ClientTable) (i : Nat) : Nat :=
  if t.evictedAt?.any (· < i) then i - 1 else i

/-- The position to which the client at `i` comes, if it stays when the clients
    that are done with leave. -/
def reapedAt (t : ClientTable) (i : Nat) : Nat := (t.clients.take i).countP fun c => !c.closed

/-- A client that does not make place for a new one stays. -/
theorem get?_staying (hget : t.get? i = some c) (hspared : t.evictedAt? ≠ some i) :
    t.staying[t.stayingAt i]? = some c := by
  rw [stayingAt, staying]
  rw [evictedAt?] at hspared ⊢
  cases hevicted : t.evicted? with
  | none => exact hget
  | some d =>
    rw [hevicted, Option.map_some] at hspared
    have hne : t.clients.idxOf d ≠ i := fun h => hspared (congrArg some h)
    dsimp only
    rw [← List.eraseIdx_idxOf_eq_erase, Option.map_some, Option.any_some]
    split_ifs with hlt
    · -- What stands behind a gap moves up.
      have hlt := of_decide_eq_true hlt
      rw [List.getElem?_eraseIdx_of_ge (Nat.le_sub_one_of_lt hlt), Nat.sub_add_cancel (by omega)]
      exact hget
    · have hlt : ¬t.clients.idxOf d < i := by simpa using hlt
      rw [List.getElem?_eraseIdx_of_lt (by omega)]
      exact hget

/-- It is found at its place when the new one has come. -/
theorem get?_insert (hget : t.get? i = some c) (hspared : t.evictedAt? ≠ some i) (d : Client) :
    (t.insert d).get? (t.stayingAt i) = some c := by
  have hstays := get?_staying hget hspared
  rw [insert, get?]
  dsimp only
  split_ifs
  · exact hstays
  · rw [List.getElem?_append_left (List.getElem?_eq_some_iff.1 hstays).1]
    exact hstays

/-- An open client stays when those that are done with leave. -/
theorem get?_reap (hget : t.get? i = some c) (hopen : c.closed = false) :
    t.reap.get? (t.reapedAt i) = some c := by
  obtain ⟨hi, rfl⟩ := List.getElem?_eq_some_iff.1 hget
  have hsplit : t.reap.clients = (t.clients.take i).filter (!·.closed) ++
      t.clients[i] :: (t.clients.drop (i + 1)).filter (!·.closed) := by
    calc t.clients.filter (!·.closed)
        = (t.clients.take i ++ t.clients[i] :: t.clients.drop (i + 1)).filter (!·.closed) := by
          rw [List.getElem_cons_drop, List.take_append_drop]
      _ = _ := by
          rw [List.filter_append, List.filter_cons_of_pos (by rw [hopen]; rfl)]
  rw [get?, hsplit, reapedAt, List.countP_eq_length_filter, List.getElem?_append_right le_rfl,
    Nat.sub_self, List.getElem?_cons_zero]

end ClientTable

namespace Server

variable {s : Server} {host : Host} {now i : Nat} {c : Client} {e : Event}

/-- The position of the client that an event evicts, if it does. -/
def evictedAt? (s : Server) : Event → Option Nat
  | .connection _ => s.clients.evictedAt?
  | .tick | .datagram _ _ | .service _ _ => none

/-- The position to which the client at `i` comes when an event is handled, if
    it is not evicted. -/
def handledAt (s : Server) (i : Nat) : Event → Nat
  | .connection _ => s.clients.stayingAt i
  | .tick | .datagram _ _ | .service _ _ => i

/-- The position to which the client at `i` comes in a step, if it stays. -/
def movedTo (s : Server) (host : Host) (now : Nat) (e : Event) (i : Nat) : Nat :=
  (s.handle host now e).1.clients.reapedAt (s.handledAt i e)

/-- An event that neither serves nor evicts a client does nothing to it. -/
theorem get?_handle (host : Host) (now : Nat) (hget : s.clients.get? i = some c)
    (hother : ∀ t, e ≠ .service i t) (hspared : s.evictedAt? e ≠ some i) :
    (s.handle host now e).1.clients.get? (s.handledAt i e) = some c := by
  cases e with
  | tick => exact hget
  | datagram packet peer =>
    rw [handle, clients_handleDatagram]
    exact hget
  | connection peer =>
    rw [handle, accept, handledAt]
    exact ClientTable.get?_insert hget hspared _
  | service j t =>
    have hne : j ≠ i := by
      rintro rfl
      exact hother t rfl
    rw [handle, handledAt]
    cases hserved : s.clients.get? j with
    | none =>
      rw [serve, hserved]
      exact hget
    | some d =>
      obtain ⟨-, d', hd'⟩ := serve_frame host now t hserved
      rw [hd', ClientTable.get?, ClientTable.set, List.getElem?_set_ne hne]
      exact hget

/-- A client that is open when an event has been handled stays. -/
theorem get?_step_of_handle
    (hget : (s.handle host now e).1.clients.get? (s.handledAt i e) = some c)
    (hopen : c.closed = false) :
    (s.step host now e).1.clients.get? (s.movedTo host now e i) = some c :=
  ClientTable.get?_reap hget hopen

/-- A step that neither serves nor evicts an open client does nothing to it. -/
theorem get?_step (hget : s.clients.get? i = some c) (hopen : c.closed = false)
    (hother : ∀ t, e ≠ .service i t) (hspared : s.evictedAt? e ≠ some i) :
    (s.step host now e).1.clients.get? (s.movedTo host now e i) = some c :=
  get?_step_of_handle (get?_handle host now hget hother hspared) hopen

/-- A new client is the last one. -/
theorem get?_step_connection (hcapacity : 0 < s.clients.capacity) (host : Host) (now : Nat)
    (peer : SocketAddr) :
    (s.step host now (.connection peer)).1.clients.get?
        ((s.step host now (.connection peer)).1.clients.length - 1) =
      some (Client.accepted peer now) := by
  have hclients : (s.step host now (.connection peer)).1.clients.clients =
      s.clients.staying.filter (!·.closed) ++ [Client.accepted peer now] := by
    change (s.clients.insert (Client.accepted peer now)).clients.filter (!·.closed) = _
    rw [ClientTable.insert, if_neg (Nat.ne_of_gt hcapacity), List.filter_append]
    rfl
  rw [ClientTable.length, ClientTable.get?, hclients, List.length_append, List.length_singleton,
    Nat.add_sub_cancel, List.getElem?_concat_length]

end Server

end SnmpAgent
