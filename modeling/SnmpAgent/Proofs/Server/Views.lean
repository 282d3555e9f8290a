import SnmpAgent.Proofs.Server.Places

/-!
# Views of a client

A run of the server is followed with the eyes of one client: where it is, and
which turns it has had. It connects, and stands behind all others; then every
event leaves it alone, or moves it to another position, or is one of its turns,
until one of these closes it.

* `View`: a run of a server, seen from one client;
* `Server.Follows`: the runs in which the client is not evicted;
* `View.Sound`: the client is where the view has it, as its turns made it;
* `View.Sound.next`, `Server.Follows.sound`: so it is after every event, and in
  every run;
* `Server.Follows.advanceAll`: runs computed from what waits, time after time.
-/

namespace SnmpAgent

/-! ## Following a client -/

/-- Where a client is: not connected yet, at a position of the table, or
    disconnected after it was done with. -/
inductive Place where
  | outside
  | inside (i : Nat)
  | gone
  deriving DecidableEq

/-- A run of a server, seen from one client. -/
structure View where
  /-- The server at last. -/
  server : Server
  place : Place
  /-- The turns that the client had. -/
  turns : List Turn

namespace View

/-- Where the client is when an event has been handled that does not evict it. -/
def placeAfter (v : View) (host : Host) (now : Nat) (e : Event) : Place :=
  match v.place with
  | .inside i =>
    if ((v.server.handle host now e).1.clients.get? (v.server.handledAt i e)).any (!·.closed) then
      .inside (v.server.movedTo host now e i)
    else .gone
  | .outside => .outside
  | .gone => .gone

/-- The turn of the client that an event is, if it is one. -/
def turn? (v : View) (host : Host) (now : Nat) (w : Waiting) : Event → Option Turn
  | .service i t => if v.place = .inside i then some ⟨v.server, host, now, w, i, t⟩ else none
  | .tick | .datagram _ _ | .connection _ => none

/-- The run with one more event. -/
def next (v : View) (host : Host) (now : Nat) (w : Waiting) (e : Event) : View where
  server := (v.server.step host now e).1
  place := v.placeAfter host now e
  turns := v.turns ++ (v.turn? host now w e).toList

/-- The run in which the client is the one that connects now. -/
def connected (v : View) (host : Host) (now : Nat) (peer : SocketAddr) : View where
  server := (v.server.step host now (.connection peer)).1
  place := .inside ((v.server.step host now (.connection peer)).1.clients.length - 1)
  turns := v.turns

end View

/-- Whether an event reads no more octets than there is space for. -/
def Server.fits (s : Server) : Event → Bool
  | .service i (.read octets) => (s.clients.get? i).all fun c => octets.length ≤ c.frame.spare
  | .service _ .written | .service _ .pending | .service _ .failed => true
  | .tick | .datagram _ _ | .connection _ => true

/-- The runs of a server, seen from a client of a peer, which may connect and is
    not evicted by any event that is handled. -/
inductive Server.Follows (host : Host) (peer : SocketAddr) (s : Server) : View → Prop where
  | refl : Follows host peer s ⟨s, .outside, []⟩
  | step {v : View} {w : Waiting} {e : Event} (h : Follows host peer s v) (now : Nat)
      (hchosen : v.server.MayHandle w e) (hfits : v.server.fits e)
      (hspared : (v.server.evictedAt? e).map .inside ≠ some v.place) :
      Follows host peer s (v.next host now w e)
  | connects {v : View} {w : Waiting} (h : Follows host peer s v) (now : Nat)
      (houtside : v.place = .outside) (hchosen : v.server.MayHandle w (.connection peer)) :
      Follows host peer s (v.connected host now peer)

/-- The client is where the view has it, as its turns made it: outside it has
    had none, inside it is open, and it is gone only if they closed it. -/
inductive View.Sound (peer : SocketAddr) : View → Prop where
  | outside (s : Server) : Sound peer ⟨s, .outside, []⟩
  | inside {s : Server} {i start : Nat} {turns : List Turn} {c : Client}
      (hget : s.clients.get? i = some c) (hopen : c.closed = false)
      (hserved : Served (Client.accepted peer start) turns c) : Sound peer ⟨s, .inside i, turns⟩
  | gone {start : Nat} {turns : List Turn} {c : Client} (s : Server) (hclosed : c.closed = true)
      (hserved : Served (Client.accepted peer start) turns c) : Sound peer ⟨s, .gone, turns⟩

namespace View

variable {v : View} {host : Host} {peer : SocketAddr} {now i : Nat} {w : Waiting} {e : Event}

/-- An event that is the turn of the client is seen as this turn. -/
theorem turn?_service (hplace : v.place = .inside i) (t : Transfer) :
    v.turn? host now w (.service i t) = some ⟨v.server, host, now, w, i, t⟩ := if_pos hplace

/-- Any other event is no turn of the client. -/
theorem turn?_eq_none (hother : ∀ i t, v.place = .inside i → e ≠ .service i t) :
    v.turn? host now w e = none := by
  cases e with
  | service i t => exact if_neg fun hplace => hother i t hplace rfl
  | tick | datagram | connection => rfl

theorem of_turn?_eq_some {t : Turn} (h : v.turn? host now w e = some t) :
    t.server = v.server ∧ t.host = host := by
  cases e with
  | service i t =>
    rw [turn?, Option.ite_none_right_eq_some] at h
    obtain ⟨-, ⟨⟩⟩ := h
    exact ⟨rfl, rfl⟩
  | tick | datagram | connection => cases h

/-- A client that is open when the event has been handled stays inside, and no
    other does. -/
theorem placeAfter_inside {s : Server} {turns : List Turn} {c : Client}
    (hget : (s.handle host now e).1.clients.get? (s.handledAt i e) = some c) :
    (View.mk s (.inside i) turns).placeAfter host now e =
      if c.closed then .gone else .inside (s.movedTo host now e i) := by
  rw [placeAfter]
  dsimp only
  rw [hget, Option.any_some]
  cases c.closed <;> rfl

/-- An event that neither is a turn of the client nor evicts it leaves it as it
    was. -/
theorem next_sound_of_ne {s : Server} {turns : List Turn} {start : Nat} {c : Client}
    (hget : s.clients.get? i = some c) (hopen : c.closed = false)
    (hserved : Served (Client.accepted peer start) turns c) (hother : ∀ t, e ≠ .service i t)
    (hspared : s.evictedAt? e ≠ some i) :
    ((View.mk s (.inside i) turns).next host now w e).Sound peer := by
  have hafter := Server.get?_handle host now hget hother hspared
  rw [next, turn?_eq_none fun j t hj => (by cases hj; exact hother t), placeAfter_inside hafter,
    hopen, Option.toList_none, List.append_nil]
  exact .inside (Server.get?_step hget hopen hother hspared) hopen hserved

/-- A turn of the client makes of it what it makes, and closes it or not. -/
theorem next_sound_of_service {s : Server} {turns : List Turn} {start : Nat} {c : Client}
    (hget : s.clients.get? i = some c) (hserved : Served (Client.accepted peer start) turns c)
    {t : Transfer} (hchosen : s.MayHandle w (.service i t))
    (hfits : s.fits (.service i t)) :
    ((View.mk s (.inside i) turns).next host now w (.service i t)).Sound peer := by
  have hserves : (Turn.mk s host now w i t).Serves c := by
    refine ⟨hget, hchosen, ?_⟩
    rintro octets rfl
    rw [Server.fits, hget] at hfits
    exact of_decide_eq_true hfits
  obtain ⟨d, -, -, houtcome⟩ :=
    Turn.outcome_eq (hserved.follows (Client.accepted_stands peer start)).1 hserves
  have hafter : (Turn.mk s host now w i t).outcome.1.clients.get? i = some d := by
    rw [houtcome]
    exact ClientTable.get?_set hget
  rw [next, turn?_service rfl, placeAfter_inside (e := .service i t) hafter, Option.toList_some]
  cases hdone : d.closed with
  | true => exact .gone _ hdone (hserved.concat hserves hafter)
  | false =>
    exact .inside (Server.get?_step_of_handle hafter hdone) hdone (hserved.concat hserves hafter)

/-- So any event that does not evict the client leaves it where the view has
    it. -/
theorem Sound.next (h : v.Sound peer) (hchosen : v.server.MayHandle w e)
    (hfits : v.server.fits e) (hspared : (v.server.evictedAt? e).map .inside ≠ some v.place) :
    (v.next host now w e).Sound peer := by
  cases h with
  | outside s =>
    rw [View.next, turn?_eq_none fun i t hi => (by cases hi)]
    exact .outside _
  | gone s hclosed hserved =>
    rw [View.next, turn?_eq_none fun i t hi => (by cases hi), Option.toList_none, List.append_nil]
    exact .gone _ hclosed hserved
  | @inside s i start turns c hget hopen hserved =>
    by_cases hother : ∀ t, e ≠ .service i t
    · exact next_sound_of_ne hget hopen hserved hother fun hevicted =>
        hspared (congrArg (Option.map Place.inside) hevicted)
    · push Not at hother
      obtain ⟨t, rfl⟩ := hother
      exact next_sound_of_service hget hserved hchosen hfits

/-- A client that connects is inside. -/
theorem Sound.connected (h : v.Sound peer) (houtside : v.place = .outside)
    (hcapacity : 0 < v.server.clients.capacity) (host : Host) (now : Nat) :
    (v.connected host now peer).Sound peer := by
  cases h with
  | outside s => exact .inside (Server.get?_step_connection hcapacity host now peer) rfl (.nil _)
  | inside | gone => cases houtside

end View

namespace Server.Follows

variable {host : Host} {peer : SocketAddr} {s : Server} {v : View}

theorem continues (h : s.Follows host peer v) : s.Continues v.server := by
  induction h with
  | refl => exact .refl s
  | step _ now _ _ _ ih => exact ih.trans (continues_step _ host now _)
  | connects _ now _ _ ih => exact ih.trans (continues_step _ host now (.connection peer))

/-- The turns are those of servers that the server has become. -/
theorem continues_of_mem (h : s.Follows host peer v) :
    ∀ t ∈ v.turns, s.Continues t.server ∧ t.host = host := by
  induction h with
  | refl => exact fun t ht => nomatch ht
  | connects _ _ _ _ ih => exact ih
  | step h _ _ _ _ ih =>
    intro t ht
    rcases List.mem_append.1 ht with hbefore | hlast
    · exact ih t hbefore
    · obtain ⟨hserver, hhost⟩ := View.of_turn?_eq_some (Option.mem_toList.1 hlast)
      exact ⟨hserver ▸ h.continues, hhost⟩

/-- At any time, the client is where the view has it. -/
theorem sound (h : s.Follows host peer v) (hcapacity : 0 < s.clients.capacity) : v.Sound peer := by
  induction h with
  | refl => exact .outside s
  | step _ _ hchosen hfits hspared ih => exact ih.next hchosen hfits hspared
  | connects h now houtside _ ih =>
    exact ih.connected houtside (h.continues.capacity.symm ▸ hcapacity) host now

end Server.Follows

/-! ## Runs from what waits -/

/-- The run with one more of the events that wait, unless it is none of those in
    which the client is followed. The client is the first of its peer to
    connect. -/
def View.advance? (host : Host) (peer : SocketAddr) (v : View) (input : Nat × Waiting) :
    Option View := do
  let e ← v.server.choose input.2
  if v.place = .outside ∧ e = .connection peer then return v.connected host input.1 peer
  else if v.server.fits e ∧ (v.server.evictedAt? e).map .inside ≠ some v.place then
    return v.next host input.1 input.2 e
  else none

/-- The run with all that waits, time after time. -/
def View.advanceAll? (host : Host) (peer : SocketAddr) : View → List (Nat × Waiting) → Option View
  | v, [] => some v
  | v, input :: inputs => do advanceAll? host peer (← v.advance? host peer input) inputs

namespace Server.Follows

variable {host : Host} {peer : SocketAddr} {s : Server} {v v' : View}

theorem advance (h : s.Follows host peer v) {input : Nat × Waiting}
    (hadvance : v.advance? host peer input = some v') : s.Follows host peer v' := by
  obtain ⟨e, hchosen, hadvance⟩ := Option.bind_eq_some_iff.1 hadvance
  split_ifs at hadvance with hconnects hstays
  · obtain ⟨houtside, rfl⟩ := hconnects
    cases hadvance
    exact h.connects input.1 houtside (mayHandle_of_choose hchosen)
  · cases hadvance
    exact h.step input.1 (mayHandle_of_choose hchosen) hstays.1 hstays.2

/-- A run may be computed from what waits, time after time. -/
theorem advanceAll (h : s.Follows host peer v) {inputs : List (Nat × Waiting)}
    (hadvance : v.advanceAll? host peer inputs = some v') : s.Follows host peer v' := by
  induction inputs generalizing v with
  | nil =>
    cases hadvance
    exact h
  | cons input inputs ih =>
    obtain ⟨v'', hfirst, hothers⟩ := Option.bind_eq_some_iff.1 hadvance
    exact ih (h.advance hfirst) hothers

end Server.Follows

end SnmpAgent
