import SnmpAgent.Proofs.Server.Frames
import SnmpAgent.Proofs.Message.Positions

/-!
# Reassembly

A stream may deliver a frame in any pieces. However it is cut, also inside the
header, the buffer says that octets are missing after every piece but the last
one, and then holds the frame and nothing else. Since the frame was judged by
the header that a reader of messages sees first, nothing but the body of the
message can still be refused.

* `FrameBuffer.Sound.feed`: a piece that has room is appended;
* `FrameBuffer.Sound.verdicts_eq`: what is said after each piece;
* `FrameBuffer.reassembles`: the frame that comes out, and how it is read.
-/

namespace SnmpAgent

namespace FrameBuffer

/-- Copies a piece of a stream into the spare space and takes it into use. -/
def feed (f : FrameBuffer) (piece : List UInt8) : FrameBuffer :=
  (f.store f.used piece).advance piece.length

/-- Feeds some pieces, one after the other. -/
def feedAll (f : FrameBuffer) (pieces : List (List UInt8)) : FrameBuffer := pieces.foldl feed f

/-- What is said of the octets in use after each of some pieces. -/
def verdicts (f : FrameBuffer) : List (List UInt8) → List (Except DecodeError Frame.Status)
  | [] => []
  | piece :: pieces => (f.feed piece).status :: verdicts (f.feed piece) pieces

variable {f : FrameBuffer} {p : List UInt8}

/-- A piece that has room is appended to the octets in use. -/
theorem Sound.feed (h : f.Sound) {piece : List UInt8} (hfits : piece.length ≤ f.spare) :
    (f.feed piece).Sound ∧ (f.feed piece).filled = f.filled ++ piece := by
  have hextend : f.feed piece = f.extend piece := by
    rw [FrameBuffer.feed, FrameBuffer.extend, List.take_of_length_le hfits]
  rw [hextend]
  exact h.extend hfits

/-- The next piece of a complete frame has room. -/
theorem Sound.length_le_spare (h : f.Sound) (hp : Frame.status p = .ok .complete)
    {piece rest : List UInt8} (hall : f.filled ++ (piece ++ rest) = p) :
    piece.length ≤ f.spare := by
  obtain ⟨-, hmax, -⟩ := Frame.status_eq_complete_iff.1 hp
  rw [h.spare_eq]
  rw [← hall, List.length_append, List.length_append] at hmax
  omega

/-- What lacks a piece of a complete frame is incomplete, and with the last
    piece the frame is complete. The octets in use before may be any beginning
    of the frame. -/
theorem Sound.verdicts_eq (h : f.Sound) (hp : Frame.status p = .ok .complete)
    {pieces : List (List UInt8)} (hpieces : ∀ piece ∈ pieces, piece ≠ [])
    (hall : f.filled ++ pieces.flatten = p) (hne : pieces ≠ []) :
    f.verdicts pieces =
      List.replicate (pieces.length - 1) (.ok .incomplete) ++ [.ok .complete] := by
  induction pieces generalizing f with
  | nil => exact absurd rfl hne
  | cons piece rest ih =>
    rw [List.flatten_cons] at hall
    obtain ⟨hsound, hfilled⟩ := h.feed (h.length_le_spare hp hall)
    rw [← List.append_assoc, ← hfilled] at hall
    have hrest := fun piece hmem => hpieces piece (List.mem_cons_of_mem _ hmem)
    rw [verdicts, status]
    cases rest with
    | nil =>
      rw [List.flatten_nil, List.append_nil] at hall
      rw [hall, hp]
      rfl
    | cons next others =>
      -- The next piece is not empty, so the octets in use are not yet the whole frame.
      have hmore : (f.feed piece).filled ≠ p := by
        intro heq
        rw [← heq] at hall
        have hnil := List.append_right_eq_self.1 hall
        rw [List.flatten_cons, List.append_eq_nil_iff] at hnil
        exact hrest next List.mem_cons_self hnil.1
      rw [Frame.status_of_isPrefix hp ⟨_, hall⟩ hmore,
        ih hsound hrest hall (List.cons_ne_nil _ _)]
      rfl

/-- The pieces of a complete frame are put together again. -/
theorem Sound.feedAll (h : f.Sound) (hp : Frame.status p = .ok .complete)
    {pieces : List (List UInt8)} (hall : f.filled ++ pieces.flatten = p) :
    (f.feedAll pieces).Sound ∧ (f.feedAll pieces).filled = p := by
  induction pieces generalizing f with
  | nil => exact ⟨h, by rwa [List.flatten_nil, List.append_nil] at hall⟩
  | cons piece rest ih =>
    rw [List.flatten_cons] at hall
    obtain ⟨hsound, hfilled⟩ := h.feed (h.length_le_spare hp hall)
    rw [← List.append_assoc, ← hfilled] at hall
    exact ih hsound hall

/-- Whatever pieces a complete frame is cut into, the buffer says that octets
    are missing after every piece but the last and that the frame is complete
    after the last one. The octets in use are then the frame, and none is in use
    once it is taken. The frame passes for a message on the outside: if it is
    refused, something in its body is. -/
theorem reassembles (hp : Frame.status p = .ok .complete) :
    (∀ (f : FrameBuffer) (pieces : List (List UInt8)), f.Sound → f.isEmpty →
      (∀ piece ∈ pieces, piece ≠ []) → pieces.flatten = p →
      f.verdicts pieces =
          List.replicate (pieces.length - 1) (.ok .incomplete) ++ [.ok .complete] ∧
        (f.feedAll pieces).filled = p ∧ (f.feedAll pieces).clear.isEmpty) ∧
    ∃ header content, Message.Opens p header content ∧
      ∀ max e, Message.decode p max = .error e →
        (∃ c, Message.readBody max ⟨header.length, content⟩ = .error e c) ∧
          header.length ≤ e.offset ∧ e.offset ≤ p.length := by
  obtain ⟨hmin, -, l, content, hl, hframe⟩ := Frame.status_eq_complete_iff.1 hp
  constructor
  · intro f pieces hsound hempty hpieces hflatten
    have hnone : f.filled = [] := by
      rw [FrameBuffer.filled, of_decide_eq_true hempty, List.take_zero]
    have hall : f.filled ++ pieces.flatten = p := by rw [hnone, List.nil_append, hflatten]
    have hne : pieces ≠ [] := by
      rintro rfl
      rw [← hflatten] at hmin
      exact absurd hmin (by decide)
    exact ⟨hsound.verdicts_eq hp hpieces hall hne, (hsound.feedAll hp hall).2, rfl⟩
  · have hopens := Message.opens_of_form hl
    rw [← hframe] at hopens
    exact ⟨_, content, hopens, fun max e he => hopens.refused_inside he⟩

/-- A frame without a message in it, in three pieces: it is cut inside its
    length and before its last octet. -/
def zeros : List (List UInt8) := [[0x30, 0x81], 0x17 :: List.replicate 22 0, [0]]

/-- The three pieces make a complete frame, which is refused behind its header
    of three octets. -/
theorem reassembles_zeros : Frame.status zeros.flatten = .ok .complete ∧
    empty.verdicts zeros = [.ok .incomplete, .ok .incomplete, .ok .complete] ∧
    (empty.feedAll zeros).filled = zeros.flatten ∧
    ∃ e, Message.decode zeros.flatten maxRequestVarbinds = .error e ∧ e.offset = 3 := by
  have hp : Frame.status zeros.flatten = .ok .complete := by decide
  obtain ⟨hverdicts, hfilled, -⟩ :=
    (reassembles hp).1 empty zeros sound_empty rfl (by decide) rfl
  exact ⟨hp, hverdicts, hfilled, _, rfl, rfl⟩

end FrameBuffer

end SnmpAgent
