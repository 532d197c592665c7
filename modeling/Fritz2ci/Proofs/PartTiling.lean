import Fritz2ci.Proofs.Reassembly
import Mathlib.Algebra.Order.Floor.Div
import Mathlib.Data.List.Chain

/-! The parts that `cidbmsg_transmission_start` and `cidbmsg_transmission_continue` prepare,
as the packets they are: as many as needed, one behind the other, over the whole data. -/

namespace Fritz2ci

open LittleEndian Stores Reading

def preparedPart (buffer : ℕ → UInt8) (part : List (Store UInt8) × ℕ) : List UInt8 :=
  (List.range part.2).map (applyAll buffer part.1)

/-- The packets are the parts of the message. -/
structure PartsOf (msg : CIDBMsg) (packets : List (List UInt8)) : Prop where
  /-- at least one, and as many as the data needs -/
  count : packets.length = max 1 (msg.header.dataSize.toNat ⌈/⌉ 2026)
  size : ∀ p ∈ packets, p.length = 22 + (headerOf p).partSize.toNat ∧ p.length ≤ 2048
  header : ∀ p ∈ packets, headerOf p =
    { msg.header with partSize := (headerOf p).partSize, offset := (headerOf p).offset }
  first : ∀ p ∈ packets.head?, (headerOf p).offset = 0
  next : packets.IsChain fun p q =>
    (headerOf q).offset.toNat = (headerOf p).offset.toNat + (headerOf p).partSize.toNat
  last : ∀ p ∈ packets.getLast?, (headerOf p).offset.toNat + (headerOf p).partSize.toNat =
    msg.header.dataSize.toNat
  data : ∀ p ∈ packets, p.drop 22 =
    msg.slice (headerOf p).offset.toNat (headerOf p).partSize.toNat

theorem partsFrom_length (t : CIDBMsgTransmission) :
    (partsFrom t).length =
      (t.completeMsg.header.dataSize.toNat - t.offset.toNat + 2025) / 2026 := by
  fun_induction partsFrom t with
  | case1 t hnone =>
    have hle := transmissionContinue_none hnone
    rw [List.length_nil]
    omega
  | case2 t stores bytes next hsome _ ih =>
    obtain ⟨hle, hpart⟩ := transmissionContinue_some hsome
    obtain rfl := congrArg (·.2.2) hpart
    have hoff := nextOffset_toNat hle
    have hdata : CIDBMSG_DATA_SIZE = 2026 := rfl
    rw [UInt32.le_iff_toNat_le, Nat.not_le] at hle
    rw [List.length_cons, ih]
    change (t.completeMsg.header.dataSize.toNat - (t.offset + nextPartSize _ _).toNat + 2025) /
      2026 + 1 = _
    omega

theorem start_offset (t : CIDBMsgTransmission) :
    (cidbmsgTransmissionStart t).2.2.offset.toNat =
      min CIDBMSG_DATA_SIZE t.completeMsg.header.dataSize.toNat := by
  rw [← firstPartSize_toNat]
  exact congrArg UInt32.toNat (UInt32.zero_add _)

theorem start_dataSize (t : CIDBMsgTransmission) :
    (cidbmsgTransmissionStart t).2.2.completeMsg.header.dataSize =
      t.completeMsg.header.dataSize := rfl

theorem transmissionParts_length (msg : CIDBMsg) :
    (transmissionParts msg).length = max 1 (msg.header.dataSize.toNat ⌈/⌉ 2026) := by
  have hdata : CIDBMSG_DATA_SIZE = 2026 := rfl
  rw [transmissionParts, List.length_cons, partsFrom_length, start_offset, start_dataSize,
    Nat.ceilDiv_eq_add_pred_div]
  dsimp only
  omega

/-- Each call leaves its packet in the buffer, whatever was there before. -/
theorem preparedParts_eq (msg : CIDBMsg) :
    ∃ spans, PartSpans msg spans ∧ ∀ buffer,
      (transmissionParts msg).map (preparedPart buffer) = spans.map (wirePart msg) := by
  obtain ⟨spans, hspans, hmap, htiles⟩ := transmissionParts_spans msg
  refine ⟨spans, hspans, fun buffer => ?_⟩
  rw [← hmap]
  exact List.map_congr_left fun part hpart => sent_of_tiles (htiles part hpart) buffer

/-- The parts of a message tile its data. -/
theorem transmission_partsOf (msg : CIDBMsg) (buffer : ℕ → UInt8) :
    PartsOf msg ((transmissionParts msg).map (preparedPart buffer)) := by
  obtain ⟨spans, hspans, hparts⟩ := preparedParts_eq msg
  have hlength := congrArg List.length (hparts buffer)
  rw [List.length_map, transmissionParts_length] at hlength
  rw [hparts buffer]
  have hspan : ∀ p ∈ spans.map (wirePart msg), ∃ span ∈ spans, p = wirePart msg span := by
    simp [eq_comm]
  refine ⟨hlength.symm, fun p hp => ?_, fun p hp => ?_, ?_, ?_, ?_, fun p hp => ?_⟩
  · obtain ⟨span, hs, rfl⟩ := hspan p hp
    have hsize := hspans.size span hs
    have hdata : CIDBMSG_DATA_SIZE = 2026 := rfl
    rw [headerOf_wirePart, wirePart_length]
    exact ⟨rfl, by omega⟩
  · obtain ⟨span, -, rfl⟩ := hspan p hp
    rw [headerOf_wirePart]
  · rw [List.head?_map]
    intro p hp
    obtain ⟨span, hs, rfl⟩ := Option.mem_map.1 hp
    have hhead := head_of_tiles hspans.tiles (dataStore msg span)
      (by rw [List.head?_map]; exact Option.mem_map_of_mem _ hs)
    rw [headerOf_wirePart]
    exact UInt32.toNat_inj.1 hhead
  · have hchain := chain_of_tiles hspans.tiles
    rw [List.isChain_map] at hchain ⊢
    refine hchain.imp fun span span' h => ?_
    rw [headerOf_wirePart, headerOf_wirePart]
    rw [dataStore, dataStore, slice_length] at h
    exact h
  · rw [List.getLast?_map]
    intro p hp
    obtain ⟨span, hs, rfl⟩ := Option.mem_map.1 hp
    have hlast := last_of_tiles hspans.tiles (dataStore msg span)
      (by rw [List.getLast?_map]; exact Option.mem_map_of_mem _ hs)
    rw [dataStore, slice_length] at hlast
    rw [headerOf_wirePart]
    exact hlast
  · obtain ⟨span, -, rfl⟩ := hspan p hp
    rw [headerOf_wirePart, wirePart]
    exact List.drop_left' (headerBytes_length _)

end Fritz2ci
