import SnmpAgent.Proofs.Ber.Integers
import SnmpAgent.Oid.Content

/-!
# Identifiers on the wire

The content of an identifier lists numbers in base 128, and reading the list
gives the numbers back. Only the first of them stands for two
sub-identifiers: a valid identifier comes back with its first pair *repacked*
into the arc that the packed number falls into. An identifier that was read
has such a pair already, and comes back unchanged.

* `length_base128`, `length_content`: the predicted sizes are exact;
* `ofContent_content`: what is read from the content of a valid identifier;
* `Canonical`: the identifiers that are read back as they are, with
  `canonical_of_ofContent`: every identifier that is read is one of them.
-/

namespace SnmpAgent.Oid

/-! ## Base 128 -/

/-- A number without groups before it has no leading groups. -/
theorem leadingGroups_zero : leadingGroups 0 = [] := by
  rw [leadingGroups, if_pos rfl]

/-- The groups before the last one are those of the quotient. -/
theorem leadingGroups_of_pos {n : Nat} (h : 0 < n) :
    leadingGroups n = leadingGroups (n / 128) ++ [UInt8.ofNat (128 + n % 128)] := by
  rw [leadingGroups, if_neg (Nat.pos_iff_ne_zero.1 h)]

/-- Reading on behind leading groups is reading on with the number that they
    stand for. -/
theorem decodeSubidFrom_leadingGroups (base used n : Nat) (h : n < 2 ^ 32) (rest : List UInt8) :
    decodeSubidFrom base 0 used (leadingGroups n ++ rest) =
      decodeSubidFrom base n (used + (leadingGroups n).length) rest := by
  induction n using Nat.strongRecOn generalizing rest with
  | ind n ih =>
    rcases Nat.eq_zero_or_pos n with rfl | hn
    · rw [leadingGroups_zero]
      rfl
    · have hgroup : (UInt8.ofNat (128 + n % 128)).toNat = 128 + n % 128 :=
        UInt8.toNat_ofNat_of_lt' (by simp [UInt8.size]; omega)
      have hmore : ¬UInt8.ofNat (128 + n % 128) < 0x80 := by
        rw [UInt8.lt_iff_toNat_lt, hgroup]
        simp
      have hvalue : n / 128 * 128 + (128 + n % 128) % 128 = n := by omega
      -- The last of the leading groups is read behind those of the quotient.
      rw [leadingGroups_of_pos hn, List.append_assoc, ih (n / 128) (by omega) (by omega)]
      rw [List.singleton_append, decodeSubidFrom, if_neg (by omega), hgroup, if_neg hmore, hvalue,
        List.length_append, List.length_singleton, Nat.add_assoc]

/-- A number of 32 bits is read back from its groups. -/
theorem decodeSubid_base128 (base n : Nat) (h : n < 2 ^ 32) (rest : List UInt8) :
    decodeSubid base (base128 n ++ rest) = .ok (UInt32.ofNat n, (base128 n).length) := by
  have hlast : (UInt8.ofNat (n % 128)).toNat = n % 128 :=
    UInt8.toNat_ofNat_of_lt' (by simp [UInt8.size]; omega)
  have hdone : UInt8.ofNat (n % 128) < 0x80 := by
    rw [UInt8.lt_iff_toNat_lt, hlast]
    simp; omega
  have hvalue : n / 128 * 128 + n % 128 % 128 = n := by omega
  rw [decodeSubid, base128, List.append_assoc, decodeSubidFrom_leadingGroups _ _ _ (by omega),
    List.singleton_append, decodeSubidFrom, if_neg (by omega), hlast, if_pos hdone, hvalue,
    List.length_append, List.length_singleton, Nat.zero_add]

/-- A number of `k + 1` digits in base 128 has as many leading groups. -/
theorem length_leadingGroups {k n : Nat} (hl : 128 ^ k ≤ n) (hu : n < 128 ^ (k + 1)) :
    (leadingGroups n).length = k + 1 := by
  have hpos : 0 < n := Nat.lt_of_lt_of_le (Nat.pow_pos (by decide)) hl
  rw [leadingGroups_of_pos hpos, List.length_append, List.length_singleton]
  induction k generalizing n with
  | zero => rw [Nat.div_eq_of_lt (by omega), leadingGroups_zero]; rfl
  | succ k ih =>
    rw [Nat.pow_succ] at hl
    rw [Nat.pow_succ] at hu
    have hl' : 128 ^ k ≤ n / 128 := (Nat.le_div_iff_mul_le (by decide)).2 hl
    have hu' : n / 128 < 128 ^ (k + 1) := (Nat.div_lt_iff_lt_mul (by decide)).2 hu
    have hpos' : 0 < n / 128 := Nat.lt_of_lt_of_le (Nat.pow_pos (by decide)) hl'
    rw [leadingGroups_of_pos hpos', List.length_append, List.length_singleton, ih hl' hu' hpos']

/-- The predicted number of groups is exact. -/
theorem length_base128 {n : Nat} (h : n < 2 ^ 32) : (base128 n).length = base128Length n := by
  rw [base128, List.length_append, List.length_singleton, base128Length]
  split_ifs with h₁ h₂ h₃ h₄
  · rw [Nat.div_eq_of_lt h₁, leadingGroups_zero]
    rfl
  · rw [length_leadingGroups (k := 0) (by omega) (by omega)]
  · rw [length_leadingGroups (k := 1) (by omega) (by omega)]
  · rw [length_leadingGroups (k := 2) (by omega) (by omega)]
  · rw [length_leadingGroups (k := 3) (by omega) (by omega)]

theorem base128_ne_nil (n : Nat) : base128 n ≠ [] := by
  simp [base128]

/-! ## Contents -/

/-- The packed first number is a number of 32 bits. -/
theorem saturate_lt (n : Nat) : saturate n < 2 ^ 32 := by
  rw [saturate]
  omega

/-- All numbers in the content of an identifier are numbers of 32 bits. -/
theorem lt_of_mem_packed {o : Oid} {n : Nat} (h : n ∈ o.packed) : n < 2 ^ 32 := by
  rw [packed] at h
  split at h
  · cases h
  · rw [List.mem_singleton.1 h]
    exact saturate_lt _
  · rcases List.mem_cons.1 h with rfl | h
    · exact saturate_lt _
    · obtain ⟨subid, -, rfl⟩ := List.mem_map.1 h
      exact subid.toNat_lt

/-- The predicted size of a content is exact, whatever the identifier. -/
theorem length_content (o : Oid) : o.content.length = o.contentLength := by
  rw [content, List.length_flatMap,
    List.map_congr_left fun n hn => length_base128 (lt_of_mem_packed hn)]
  exact List.foldr_map

/-- Numbers of 32 bits are read back from their groups, as many as there is room
    for. -/
theorem decodeSubids_flatMap (ns : List Nat) (h : ∀ n ∈ ns, n < 2 ^ 32) {room : Nat}
    (hroom : ns.length ≤ room) (base : Nat) :
    decodeSubids base room (ns.flatMap base128) = .ok (ns.map UInt32.ofNat) := by
  induction ns generalizing base room with
  | nil =>
    rw [decodeSubids]
    rfl
  | cons n ns ih =>
    obtain ⟨room, rfl⟩ : ∃ r, room = r + 1 := ⟨room - 1, by rw [List.length_cons] at hroom; omega⟩
    have hsome : ¬((n :: ns).flatMap base128).isEmpty := by
      simp [base128_ne_nil]
    have hread := decodeSubid_base128 base n (h n List.mem_cons_self) (ns.flatMap base128)
    have hrest := ih (fun m hm => h m (List.mem_cons_of_mem n hm)) (Nat.le_of_succ_le_succ hroom)
      (base + (base128 n).length)
    rw [decodeSubids, if_neg hsome, List.flatMap_cons, hread]
    simp only [bind, Except.bind, List.drop_left, hrest]
    rfl

/-! ## Valid identifiers -/

/-- Valid are the identifiers of 2 to `maxSubids` sub-identifiers whose first
    pair packs. -/
theorem validate_eq_ok {o : Oid} : o.validate = .ok () ↔
    ∃ first second rest, o = ⟨first :: second :: rest⟩ ∧ rest.length + 2 ≤ maxSubids ∧
      first.toNat * 40 + second.toNat ≤ maxFirstOctet := by
  obtain ⟨subids⟩ := o
  rw [validate]
  split
  · rename_i first second rest hs
    cases hs
    constructor
    · intro h
      split_ifs at h with h₁ h₂
      exact ⟨first, second, rest, rfl, Nat.le_of_not_lt h₁, h₂⟩
    · rintro ⟨first, second, rest, he, hlen, hpack⟩
      cases he
      exact (if_neg (Nat.not_lt.2 hlen)).trans (if_pos hpack)
  · rename_i hne
    simp only [reduceCtorEq, false_iff]
    rintro ⟨first, second, rest, he, -⟩
    exact hne first second rest (Oid.mk.inj he)

/-- The identifier with its first pair moved to the arc that the packed number
    falls into. -/
def repacked (o : Oid) : Oid :=
  match o.subids with
  | first :: second :: rest => ⟨unpackFirst (UInt32.ofNat (packFirst first second)) ++ rest⟩
  | _ => o

theorem packFirst_lt (first second : UInt32) : packFirst first second < 2 ^ 32 := saturate_lt _

theorem repacked_mk (first second : UInt32) (rest : List UInt32) :
    repacked ⟨first :: second :: rest⟩ =
      ⟨unpackFirst (UInt32.ofNat (packFirst first second)) ++ rest⟩ := rfl

/-- A valid identifier has some content. -/
theorem content_ne_nil {o : Oid} (h : o.validate = .ok ()) : o.content ≠ [] := by
  obtain ⟨first, second, rest, rfl, -, -⟩ := validate_eq_ok.1 h
  simp [content, packed, base128_ne_nil]

/-- A pair that packs into one octet packs without saturation. -/
theorem packFirst_eq {first second : UInt32}
    (h : first.toNat * 40 + second.toNat ≤ maxFirstOctet) :
    packFirst first second = first.toNat * 40 + second.toNat := by
  rw [maxFirstOctet] at h
  simp only [packFirst, saturate]
  omega

/-- The packed pair of a valid identifier keeps its number. -/
theorem toNat_packFirst {first second : UInt32}
    (h : first.toNat * 40 + second.toNat ≤ maxFirstOctet) :
    (UInt32.ofNat (packFirst first second)).toNat = first.toNat * 40 + second.toNat := by
  rw [UInt32.toNat_ofNat_of_lt' (packFirst_lt first second), packFirst_eq h]

/-- The content of a valid identifier is read as that identifier, repacked. -/
theorem ofContent_content {o : Oid} (h : o.validate = .ok ()) (base : Nat) :
    ofContent o.content base = .ok o.repacked := by
  obtain ⟨first, second, rest, rfl, hlen, hpack⟩ := validate_eq_ok.1 h
  have hlt := packFirst_lt first second
  have hsmall : ¬maxFirstOctet < (UInt32.ofNat (packFirst first second)).toNat := by
    rw [toNat_packFirst hpack]
    exact Nat.not_lt.2 hpack
  have hsome : ¬(content ⟨first :: second :: rest⟩).isEmpty := by
    simpa using content_ne_nil h
  have hread := decodeSubid_base128 base _ hlt ((rest.map UInt32.toNat).flatMap base128)
  have hrest := decodeSubids_flatMap (rest.map UInt32.toNat) (fun n hn => by
    obtain ⟨subid, -, rfl⟩ := List.mem_map.1 hn
    exact subid.toNat_lt) (show _ ≤ maxSubids - 2 by rw [List.length_map]; omega)
    (base + (base128 (packFirst first second)).length)
  have hback : (rest.map UInt32.toNat).map UInt32.ofNat = rest := by
    rw [List.map_map]
    exact List.map_id'' (fun subid => UInt32.ofNat_toNat) rest
  rw [hback] at hrest
  rw [ofContent, if_neg hsome, content, packed, List.flatMap_cons, hread]
  simp only [bind, Except.bind, if_neg hsmall, List.drop_left, hrest]
  rfl

/-! ## Identifiers that come back unchanged -/

/-- The first pairs that name an arc: two arcs of 40 nodes, and what is left of
    the octet. -/
def InArc (first second : UInt32) : Prop :=
  first.toNat ≤ 1 ∧ second.toNat < 40 ∨ first.toNat = 2 ∧ second.toNat ≤ 175

/-- A packed number stands for one pair in an arc. -/
theorem InArc.unique {a b c d : UInt32} (h : InArc a b) (h' : InArc c d)
    (he : a.toNat * 40 + b.toNat = c.toNat * 40 + d.toNat) : a = c ∧ b = d := by
  -- The three arcs pack into intervals that do not meet.
  rw [InArc] at h h'
  exact ⟨UInt32.toNat_inj.1 (by omega), UInt32.toNat_inj.1 (by omega)⟩

/-- An octet is unpacked to the pair in an arc that it stands for. -/
theorem unpackFirst_eq {n : UInt32} (h : n.toNat ≤ maxFirstOctet) :
    ∃ first second, unpackFirst n = [first, second] ∧ InArc first second ∧
      first.toNat * 40 + second.toNat = n.toNat := by
  rw [maxFirstOctet] at h
  have h40 : n < 40 ↔ n.toNat < 40 := UInt32.lt_iff_toNat_lt
  have h80 : n < 80 ↔ n.toNat < 80 := UInt32.lt_iff_toNat_lt
  simp only [unpackFirst, h40, h80, InArc]
  split_ifs with h₁ h₂
  · exact ⟨0, n, rfl, .inl ⟨by decide, h₁⟩, by simp⟩
  · have hsub : (n - 40).toNat = n.toNat - 40 :=
      UInt32.toNat_sub_of_le _ _ (UInt32.le_iff_toNat_le.2 (Nat.le_of_not_lt h₁))
    exact ⟨1, n - 40, rfl, .inl ⟨by decide, by omega⟩, by simp; omega⟩
  · have hsub : (n - 80).toNat = n.toNat - 80 :=
      UInt32.toNat_sub_of_le _ _ (UInt32.le_iff_toNat_le.2 (Nat.le_of_not_lt h₂))
    exact ⟨2, n - 80, rfl, .inr ⟨by decide, by omega⟩, by simp; omega⟩

/-- The number that a pair in an arc packs to is unpacked to that pair. -/
theorem unpackFirst_of_inArc {n first second : UInt32} (harc : InArc first second)
    (hn : n.toNat = first.toNat * 40 + second.toNat) : unpackFirst n = [first, second] := by
  have hoctet : n.toNat ≤ maxFirstOctet := by
    rw [InArc] at harc
    rw [maxFirstOctet]
    omega
  obtain ⟨a, b, hunpack, harc', hsum⟩ := unpackFirst_eq hoctet
  obtain ⟨rfl, rfl⟩ := harc'.unique harc (hsum.trans hn)
  exact hunpack

/-- The identifiers that are read back as they are: those with 2 to `maxSubids`
    sub-identifiers whose first pair lies in an arc. -/
def Canonical (o : Oid) : Prop :=
  ∃ first second rest, o = ⟨first :: second :: rest⟩ ∧ rest.length + 2 ≤ maxSubids ∧
    InArc first second

theorem Canonical.validate {o : Oid} (h : o.Canonical) : o.validate = .ok () := by
  obtain ⟨first, second, rest, rfl, hlen, harc⟩ := h
  rw [InArc] at harc
  exact validate_eq_ok.2 ⟨first, second, rest, rfl, hlen, by rw [maxFirstOctet]; omega⟩

/-- Repacking a valid identifier replaces its first pair by the one in an arc
    with the same packed number, and nothing else. -/
theorem exists_repacked_eq {o : Oid} (h : o.validate = .ok ()) : ∃ first second rest a b,
    o = ⟨first :: second :: rest⟩ ∧ o.repacked = ⟨a :: b :: rest⟩ ∧ rest.length + 2 ≤ maxSubids ∧
      InArc a b ∧ a.toNat * 40 + b.toNat = first.toNat * 40 + second.toNat := by
  obtain ⟨first, second, rest, rfl, hlen, hpack⟩ := validate_eq_ok.1 h
  have hoctet := toNat_packFirst hpack
  obtain ⟨a, b, hab, harc, hsum⟩ := unpackFirst_eq (Nat.le_trans (Nat.le_of_eq hoctet) hpack)
  refine ⟨first, second, rest, a, b, rfl, ?_, hlen, harc, hsum.trans hoctet⟩
  rw [repacked_mk, hab]
  rfl

/-- Repacking leaves a canonical identifier alone. -/
theorem Canonical.repacked_eq {o : Oid} (h : o.Canonical) : o.repacked = o := by
  obtain ⟨first, second, rest, he, -, hpack⟩ := validate_eq_ok.1 h.validate
  obtain ⟨first, second, rest, rfl, -, harc⟩ := h
  cases he
  rw [repacked_mk, unpackFirst_of_inArc harc (toNat_packFirst hpack)]
  rfl

/-- At most as many numbers are read as there is room for. -/
theorem length_of_decodeSubids {base room : Nat} {data : List UInt8} {subids : List UInt32}
    (h : decodeSubids base room data = .ok subids) : subids.length ≤ room := by
  induction room generalizing base data subids with
  | zero =>
    rw [decodeSubids] at h
    split_ifs at h
    · cases h
      exact Nat.le_refl 0
    · obtain ⟨read, -, hnone⟩ := except_bind_eq_ok.1 h
      cases hnone
  | succ room ih =>
    rw [decodeSubids] at h
    split_ifs at h
    · cases h
      exact Nat.zero_le _
    · obtain ⟨read, -, hmore⟩ := except_bind_eq_ok.1 h
      obtain ⟨rest, hrest, hsubids⟩ := except_bind_eq_ok.1 hmore
      cases hsubids
      exact Nat.succ_le_succ (ih hrest)

/-- Every identifier that is read is canonical. -/
theorem canonical_of_ofContent {data : List UInt8} {base : Nat} {o : Oid}
    (h : ofContent data base = .ok o) : o.Canonical := by
  rw [ofContent] at h
  split_ifs at h
  obtain ⟨⟨first, used⟩, -, hmore⟩ := except_bind_eq_ok.1 h
  dsimp only at hmore
  split_ifs at hmore with hsmall
  obtain ⟨rest, hrest, ho⟩ := except_bind_eq_ok.1 hmore
  cases ho
  obtain ⟨a, b, hab, harc, -⟩ := unpackFirst_eq (Nat.le_of_not_lt hsmall)
  have hlen := length_of_decodeSubids hrest
  exact ⟨a, b, rest, by rw [hab]; rfl, by rw [maxSubids] at hlen ⊢; omega, harc⟩

end SnmpAgent.Oid
