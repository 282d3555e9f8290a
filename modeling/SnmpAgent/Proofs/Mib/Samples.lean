import SnmpAgent.Proofs.Message.Values
import SnmpAgent.Mib.Metric

/-!
# The octets of a sample

The value of a metric always has an encoded element: the only samples of
variable size are the texts of load averages, which are short. So no refresh
can fail, and the element is a function of the metric and the snapshot.

* `Metric.tlv_sample`: the element of a sample, in every snapshot;
* `Metric.canonical_sample`, `Metric.legible_sample`: every sample can be read
  back, as it is.
-/

namespace SnmpAgent

/-! ## The size of a text -/

/-- The list of the octets of an array is as long as the array. -/
theorem length_toList (octets : ByteArray) : octets.toList.length = octets.size := by
  have hloop : ∀ i r, (ByteArray.toList.loop octets i r).length = r.length + (octets.size - i) := by
    intro i r
    induction i, r using ByteArray.toList.loop.induct octets with
    | case1 i r h ih =>
      rw [ByteArray.toList.loop, if_pos h, ih, List.length_cons]
      omega
    | case2 i r h =>
      rw [ByteArray.toList.loop, if_neg h, List.length_reverse]
      omega
  rw [ByteArray.toList, hloop, List.length_nil, Nat.zero_add, Nat.sub_zero]

/-- The size of a text is the number of its octets. -/
theorem length_toUTF8 (text : String) : text.toUTF8.toList.length = text.utf8ByteSize :=
  length_toList _

/-- A number below `10 ^ (k + 1)` is written in at most `k + 1` octets. -/
theorem utf8ByteSize_repr_le {n k : Nat} (h : n < 10 ^ (k + 1)) :
    n.repr.utf8ByteSize ≤ k + 1 := by
  have hdigit : ∀ d < 10, d.repr.utf8ByteSize ≤ 1 := by decide
  induction k generalizing n with
  | zero => exact hdigit n h
  | succ k ih =>
    rcases Nat.lt_or_ge n 10 with hn | hn
    · exact Nat.le_trans (hdigit n hn) (by omega)
    · -- The last digit stands behind the digits of the quotient.
      rw [Nat.repr_eq_repr_append_repr hn, String.utf8ByteSize_append]
      have hquotient := ih (n := n / 10) (by rw [Nat.pow_succ] at h; omega)
      have hlast := hdigit (n % 10) (Nat.mod_lt _ (by decide))
      omega

/-- The text of hundredths is short. -/
theorem utf8ByteSize_hundredthsText (v : UInt32) : (hundredthsText v).utf8ByteSize ≤ 20 := by
  have hv : v.toNat < 2 ^ 32 := v.toNat_lt
  have hwhole := utf8ByteSize_repr_le (n := v.toNat / 100) (k := 9) (by omega)
  have htens := utf8ByteSize_repr_le (n := v.toNat % 100 / 10) (k := 0) (by omega)
  have hones := utf8ByteSize_repr_le (n := v.toNat % 100 % 10) (k := 0) (by omega)
  have hpoint : ".".utf8ByteSize = 1 := rfl
  simp only [hundredthsText, toString, String.utf8ByteSize_append]
  omega

namespace Metric

/-- No metric has names as its values. -/
theorem type_ne_objectIdentifier (m : Metric) : m.type ≠ .objectIdentifier := by
  intro h
  cases m with
  | interface row field => cases field <;> cases h
  | load slot field => cases field <;> cases h
  | tcp field => cases field <;> cases h
  | agentUptime | systemUptime | memory _ | disk _ _ | ip _ | udp _ | cpu _ => cases h

/-- Only the texts of load averages are strings of octets. -/
theorem eq_load_of_type {m : Metric} (h : m.type = .octetString) :
    ∃ slot, m = .load slot .text := by
  cases m with
  | interface row field => cases field <;> cases h
  | load slot field =>
    cases field with
    | text => exact ⟨slot, rfl⟩
    | integer => cases h
  | tcp field => cases field <;> cases h
  | agentUptime | systemUptime | memory _ | disk _ _ | ip _ | udp _ | cpu _ => cases h

/-- No sample is a name, so every one comes back as it is. -/
theorem canonical_sample (m : Metric) (s : Snapshot) : (m.sample s).Canonical := by
  have htype := m.type_sample s
  cases h : m.sample s with
  | objectIdentifier oid =>
    rw [h] at htype
    exact absurd htype.symm m.type_ne_objectIdentifier
  | _ => trivial

/-- Every sample can be read back. -/
theorem legible_sample (m : Metric) (s : Snapshot) : (m.sample s).Legible :=
  (m.canonical_sample s).legible

/-- The content of a sample is short. -/
theorem length_content_sample (m : Metric) (s : Snapshot) : (m.sample s).content.length ≤ 20 := by
  by_cases hs : m.type = .octetString
  · obtain ⟨slot, rfl⟩ := eq_load_of_type hs
    exact (length_toUTF8 _).trans_le (utf8ByteSize_hundredthsText _)
  · rw [← m.type_sample s] at hs
    have hn := m.type_ne_objectIdentifier
    rw [← m.type_sample s] at hn
    exact Nat.le_trans (Value.length_content_le hs hn) (by decide)

/-- The element of a metric in a snapshot. -/
def octets (m : Metric) (s : Snapshot) : List UInt8 := (m.sample s).tlv.toOption.getD []

/-- Every sample has an element. -/
theorem tlv_sample (m : Metric) (s : Snapshot) : (m.sample s).tlv = .ok (m.octets s) := by
  obtain ⟨o, ho⟩ := Value.exists_tlv_iff.2
    (Nat.le_trans (m.length_content_sample s) (by decide : 20 ≤ Length.max))
  rw [octets, ho]
  rfl

end Metric

end SnmpAgent
