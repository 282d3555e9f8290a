import SnmpAgent.Proofs.Engine.Lookups
import SnmpAgent.Engine
import Mathlib.Data.List.Forall2
import Mathlib.Data.List.TakeWhile

/-!
# Answers to names

A request for single variables is answered name by name, until a name of a
first-version request has no variable. Each answer is a function of the blank
store and the snapshot, so the reply is the list of the answers, or the
position of the first name that has none.

* `Engine.answers`: the answers to some names, given what is found for each;
* `Engine.resolves_get`, `Engine.resolves_getNext`: the replies of the agent, and
  the variables that it comes to on the way;
* `Engine.answers_eq_ok`: what answers consist of;
* `Engine.answers_some`, `Engine.answers_none`: with a marker, every name has
  an answer; without one, the first name without a variable is at fault.
-/

namespace SnmpAgent.Engine

/-- The answer to one name: what is found for it, else a marker, else its
    position as a failure. -/
def answer? (find : Oid → Option Binding) (marker : Option ValueType) (position : Nat) (oid : Oid) :
    Except Nat Binding :=
  match find oid, marker with
  | some b, _ => .ok b
  | none, some type => .ok (Binding.marker oid type)
  | none, none => .error position

/-- The answers to some names, the first of which has a given position. -/
def answers (find : Oid → Option Binding) (marker : Option ValueType) (position : Nat)
    (oids : List Oid) : Except Nat (List Binding) :=
  (oids.zipIdx position).mapM fun (oid, i) => answer? find marker i oid

variable {find : Oid → Option Binding} {marker : Option ValueType} {position : Nat}
  {oids : List Oid}

theorem answers_cons (find : Oid → Option Binding) (marker : Option ValueType) (position : Nat)
    (oid : Oid) (oids : List Oid) : answers find marker position (oid :: oids) = do
      let b ← answer? find marker position oid
      let bs ← answers find marker (position + 1) oids
      return b :: bs := by
  rw [answers, List.zipIdx_cons, List.mapM_cons]
  rfl

/-- The names that are searched for one after another: all of them, if there is
    a marker, and otherwise those before the first one that is not found. -/
def asked (position? : Oid → Option Nat) : Option ValueType → List Oid → List Oid
  | some _, oids => oids
  | none, oids => oids.takeWhile fun oid => (position? oid).isSome

/-- The search goes on behind a name that is answered with a marker or found. -/
theorem asked_cons {position? : Oid → Option Nat} (marker : Option ValueType) {oid : Oid}
    (h : marker.isSome ∨ (position? oid).isSome) (oids : List Oid) :
    asked position? marker (oid :: oids) = oid :: asked position? marker oids := by
  cases marker with
  | none =>
    have hoid : (position? oid).isSome := h.resolve_left Bool.false_ne_true
    rw [asked, List.takeWhile_cons, if_pos hoid]
    rfl
  | some type => rfl

/-- Collecting bindings gives the answers to the names, and comes to the
    variables of those that are searched for. -/
theorem resolves_collect {source : Nat → Snapshot} {m : MibStore} {s : Snapshot}
    {lookup : Oid → Answering (Option Binding)} {position? : Oid → Option Nat}
    (h : ∀ oid, Resolves source m s (lookup oid) (find oid) (position? oid).toList)
    (hfind : ∀ oid, (find oid).isSome = (position? oid).isSome) (marker : Option ValueType)
    (position : Nat) (oids : List Oid) :
    Resolves source m s (collect lookup marker position oids) (answers find marker position oids)
      ((asked position? marker oids).filterMap position?) := by
  induction oids generalizing position with
  | nil => cases marker <;> exact resolves_pure _
  | cons oid oids ih =>
    have hlookup := h oid
    have hsome := hfind oid
    rw [answers_cons, collect]
    unfold answer?
    -- Unless the search ends here, the answers to the other names come behind this one.
    cases hoid : find oid with
    | none =>
      rw [hoid] at hlookup hsome
      have hnone : position? oid = none := Option.isNone_iff_eq_none.1 (by simpa using hsome)
      rw [hnone] at hlookup
      cases marker with
      | none =>
        rw [asked, List.takeWhile_cons_of_neg (by simp [hnone])]
        exact hlookup.bind (resolves_pure _)
      | some type =>
        rw [asked_cons (some type) (.inl rfl), List.filterMap_cons_none hnone]
        refine hlookup.bind ?_
        convert (ih (position + 1)).map (·.map (Binding.marker oid type :: ·)) using 1
        cases answers find (some type) (position + 1) oids <;> rfl
    | some b =>
      rw [hoid] at hlookup hsome
      obtain ⟨i, hi⟩ := Option.isSome_iff_exists.1 hsome.symm
      rw [hi] at hlookup
      rw [asked_cons marker (.inr hsome.symm), List.filterMap_cons_some hi]
      refine hlookup.bind ?_
      convert (ih (position + 1)).map (·.map (b :: ·)) using 1
      cases answers find marker (position + 1) oids <;> rfl

theorem resolves_get {source : Nat → Snapshot} {m : MibStore} {s : Snapshot} (p : Pdu)
    (version : Version) : Resolves source m s (get source p version)
      (reply p (answers (m.lookup? s) (missing version .noSuchObject) 1 (names p)))
      ((asked m.locate? (missing version .noSuchObject) (names p)).filterMap m.locate?) :=
  (resolves_collect Lookup.resolves_exact (m.isSome_lookup? s) _ _ _).map (reply p)

theorem resolves_getNext {source : Nat → Snapshot} {m : MibStore} {s : Snapshot} (p : Pdu)
    (version : Version) : Resolves source m s (getNext source p version)
      (reply p (answers (m.next? s) (missing version .endOfMibView) 1 (names p)))
      ((asked m.findNext? (missing version .endOfMibView) (names p)).filterMap m.findNext?) :=
  (resolves_collect Lookup.resolves_next (m.isSome_next? s) _ _ _).map (reply p)

theorem gives_get {source : Nat → Snapshot} {m : MibStore} {s : Snapshot} (p : Pdu)
    (version : Version) : Gives source m s (get source p version)
      (reply p (answers (m.lookup? s) (missing version .noSuchObject) 1 (names p))) :=
  (resolves_get p version).gives

/-! ## What answers are -/

/-- With a marker, every name has an answer. -/
theorem answers_some (find : Oid → Option Binding) (type : ValueType) (position : Nat)
    (oids : List Oid) : answers find (some type) position oids =
      .ok (oids.map fun oid => (find oid).getD (Binding.marker oid type)) := by
  induction oids generalizing position with
  | nil => rfl
  | cons oid oids ih =>
    rw [answers_cons, ih, List.map_cons]
    unfold answer?
    cases find oid <;> rfl

/-- Without a marker, either something is found for all names, or the position
    at fault is that of the first name for which nothing is found. -/
theorem answers_none (find : Oid → Option Binding) (position : Nat) (oids : List Oid) :
    (∃ bs : List Binding, oids.map find = bs.map some ∧
      answers find none position oids = .ok bs) ∨
    ∃ before oid after, oids = before ++ oid :: after ∧ (∀ o ∈ before, (find o).isSome) ∧
      find oid = none ∧
      answers find none position oids = .error (before.length + position) := by
  -- The position counts the names that were answered before.
  induction oids generalizing position with
  | nil => exact .inl ⟨[], rfl, rfl⟩
  | cons oid oids ih =>
    rw [answers_cons]
    unfold answer?
    cases hfound : find oid with
    | none =>
      refine .inr ⟨[], oid, oids, rfl, List.forall_mem_nil _, hfound, ?_⟩
      rw [List.length_nil, Nat.zero_add]
      rfl
    | some b =>
      rcases ih (position + 1) with
        ⟨bs, hbs, hanswers⟩ | ⟨before, oid', after, rfl, hbefore, hoid', hanswers⟩
      · refine .inl ⟨b :: bs, ?_, ?_⟩
        · rw [List.map_cons, List.map_cons, hfound, hbs]
        · rw [hanswers]
          rfl
      · refine .inr ⟨oid :: before, oid', after, rfl, ?_, hoid', ?_⟩
        · exact List.forall_mem_cons.2 ⟨by rw [hfound]; rfl, hbefore⟩
        · rw [hanswers, List.length_cons, Nat.succ_add_eq_add_succ]
          rfl

/-- Every answer is what was found for its name, or the marker where nothing was
    found. -/
theorem answers_eq_ok {bs : List Binding} (h : answers find marker position oids = .ok bs) :
    List.Forall₂ (fun oid b => find oid = some b ∨
      find oid = none ∧ ∃ type, marker = some type ∧ b = Binding.marker oid type) oids bs := by
  cases marker with
  | some type =>
    rw [answers_some] at h
    cases h
    refine List.forall₂_map_right_iff.2 (List.forall₂_same.2 fun oid _ => ?_)
    cases find oid with
    | none => exact .inr ⟨rfl, type, rfl, rfl⟩
    | some b => exact .inl rfl
  | none =>
    rcases answers_none find position oids with ⟨bs', hbs, hok⟩ | ⟨_, _, _, _, _, _, herror⟩
    · cases hok.symm.trans h
      have hall : List.Forall₂ (· = ·) (oids.map find) (bs.map some) :=
        List.forall₂_eq_eq_eq ▸ hbs
      rw [List.forall₂_map_left_iff, List.forall₂_map_right_iff] at hall
      exact hall.imp fun _ _ => .inl
    · cases herror.symm.trans h

/-- Where every name has an answer without a marker, something was found for
    each. -/
theorem isSome_of_answers {bs : List Binding} (h : answers find none position oids = .ok bs) :
    ∀ oid ∈ oids, (find oid).isSome := by
  intro oid hoid
  rcases answers_none find position oids with ⟨bs', hbs, -⟩ | ⟨_, _, _, _, _, _, herror⟩
  · have hfound : find oid ∈ bs'.map some := hbs ▸ List.mem_map_of_mem hoid
    obtain ⟨b, -, hb⟩ := List.mem_map.1 hfound
    rw [← hb]
    rfl
  · cases herror.symm.trans h

/-- Where every name has an answer, all of them are searched for. -/
theorem asked_of_answers {position? : Oid → Option Nat}
    (hfind : ∀ oid, (find oid).isSome = (position? oid).isSome) {bs : List Binding}
    (h : answers find marker position oids = .ok bs) : asked position? marker oids = oids := by
  cases marker with
  | some type => rfl
  | none =>
    refine List.takeWhile_eq_self_iff.2 fun oid hoid => ?_
    rw [← hfind]
    exact isSome_of_answers h oid hoid

/-- The position at fault is the position of a name. -/
theorem answers_eq_error {i : Nat} (h : answers find marker position oids = .error i) :
    position ≤ i ∧ i < position + oids.length := by
  cases marker with
  | some type =>
    rw [answers_some] at h
    cases h
  | none =>
    rcases answers_none find position oids with
      ⟨bs, -, hok⟩ | ⟨before, oid, after, rfl, -, -, herror⟩
    · cases hok.symm.trans h
    · cases herror.symm.trans h
      rw [List.length_append, List.length_cons]
      omega

end SnmpAgent.Engine
