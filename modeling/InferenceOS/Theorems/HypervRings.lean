import InferenceOS.Lib.Ring
import InferenceOS.Drivers.HypervRing

/-! The ring buffer as a queue of packets. The bytes between the indices are the frames of the packets that were written and
    not read yet, one behind the other; a read looks at these bytes alone, whatever they are. -/

namespace InferenceOS
open Program

namespace HvPacketDescriptor
variable {d : HvPacketDescriptor}

def ofHead (head : List UInt8) : HvPacketDescriptor := ofBytes (Bytes.ofList hvDescriptorSize head)

theorem ofBytes_bytes : ofBytes d.bytes = d := by
  have hword : ∀ v : UInt16, v.toNat % 256 ^ 2 = v.toNat := fun v => by
    have := v.toNat_lt
    omega
  have hlong : ∀ v : UInt64, v.toNat % 256 ^ 8 = v.toNat := fun v => by
    have := v.toNat_lt
    omega
  have htype : d.bytes.toNat 0 2 = d.type.toNat := by
    unfold bytes
    rw [Bytes.toNat_put_of_disjoint (by omega), Bytes.toNat_put_of_disjoint (by omega), Bytes.toNat_put_of_disjoint (by omega),
      Bytes.toNat_put_of_disjoint (by omega), Bytes.toNat_put (by decide), hword d.type]
  have hoffset : d.bytes.toNat 2 2 = d.dataOffset8.toNat := by
    unfold bytes
    rw [Bytes.toNat_put_of_disjoint (by omega), Bytes.toNat_put_of_disjoint (by omega), Bytes.toNat_put_of_disjoint (by omega),
      Bytes.toNat_put (by decide), hword d.dataOffset8]
  have hlength : d.bytes.toNat 4 2 = d.length8.toNat := by
    unfold bytes
    rw [Bytes.toNat_put_of_disjoint (by omega), Bytes.toNat_put_of_disjoint (by omega), Bytes.toNat_put (by decide),
      hword d.length8]
  have hflags : d.bytes.toNat 6 2 = d.flags.toNat := by
    unfold bytes
    rw [Bytes.toNat_put_of_disjoint (by omega), Bytes.toNat_put (by decide), hword d.flags]
  have hid : d.bytes.toNat 8 8 = d.transactionId.toNat := by
    unfold bytes
    rw [Bytes.toNat_put (by decide), hlong d.transactionId]
  unfold ofBytes
  rw [htype, hoffset, hlength, hflags, hid]
  simp only [UInt16.ofNat_toNat, UInt64.ofNat_toNat]

theorem ofHead_bytes : ofHead d.bytes.toList = d := by
  have hlist : Bytes.ofList hvDescriptorSize d.bytes.toList = d.bytes := by
    funext i
    unfold Bytes.ofList Bytes.toList
    rw [List.getD_eq_getElem _ _ (by rw [List.length_ofFn]; exact i.2), List.getElem_ofFn]
  unfold ofHead
  rw [hlist, ofBytes_bytes]

end HvPacketDescriptor

theorem ringUsed_spec {w r size : Nat} (hw : w < size) (hr : r < size) : ringUsed w r size < size ∧ (r + ringUsed w r size) % size = w := by
  unfold ringUsed
  split
  · rename_i hle
    refine ⟨by omega, ?_⟩
    rw [Nat.add_sub_cancel' hle, Nat.mod_eq_of_lt hw]
  · refine ⟨by omega, ?_⟩
    have hsum : r + (size - (r - w)) = w + size := by omega
    rw [hsum, Nat.add_mod_right, Nat.mod_eq_of_lt hw]

theorem ringUsed_eq {r n size : Nat} (hr : r < size) (hn : n < size) : ringUsed ((r + n) % size) r size = n := by
  have hsum := ringUsed_spec (Nat.mod_lt (r + n) (Nat.zero_lt_of_lt hr)) hr
  exact Ring.slot_inj hsum.1 hn hsum.2

namespace HvRing
variable {s u ring : HvRing} {index readIndex : Nat} {l source frame : List UInt8}

/-- The indices are in range, and so are their sums with the size of a packet. -/
structure InRange (s : HvRing) : Prop where
  size : s.dataSize ≤ 2 ^ 31
  writeIndex : s.header.writeIndex < s.dataSize
  readIndex : s.header.readIndex < s.dataSize

def used (s : HvRing) : Nat := ringUsed s.header.writeIndex s.header.readIndex s.dataSize

/-- The bytes that are written and not read. -/
def unread (s : HvRing) : List UInt8 := Circular.span s.dataSize s.data s.header.readIndex s.used

@[simp] theorem length_unread : s.unread.length = s.used := Circular.length_span

theorem ringAdvance_eq {amount : Nat} (hs : s.dataSize ≤ 2 ^ 31) (hi : index < s.dataSize) (ha : amount < 2 ^ 31) :
    s.ringAdvance index amount = (index + amount) % s.dataSize := by
  have hsum : index + amount < 2 ^ 32 := by omega
  unfold ringAdvance
  rw [Nat.mod_eq_of_lt hsum]

structure Behind (s ring : HvRing) (index : Nat) (l : List UInt8) : Prop where
  header : ring.header = s.header
  dataSize : ring.dataSize = s.dataSize
  index : index = (s.header.readIndex + (s.used + l.length)) % s.dataSize
  span : Circular.span s.dataSize ring.data s.header.readIndex (s.used + l.length) = s.unread ++ l

theorem InRange.behind (h : InRange s) : Behind s s s.header.writeIndex [] where
  header := rfl
  dataSize := rfl
  index := (ringUsed_spec h.writeIndex h.readIndex).2.symm
  span := (List.append_nil _).symm

theorem Behind.copyIn (hb : Behind s ring index l) (h : InRange s) (hroom : s.used + (l ++ source).length < s.dataSize) :
    Behind s (ring.ringCopyIn index source) (s.ringAdvance index source.length) (l ++ source) := by
  have hpos := Nat.zero_lt_of_lt h.readIndex
  rw [List.length_append] at hroom
  refine ⟨hb.header, hb.dataSize, ?_, ?_⟩
  · have hsize := h.size
    rw [ringAdvance_eq h.size (by rw [hb.index]; exact Nat.mod_lt _ hpos) (by omega), hb.index, Nat.mod_add_mod, List.length_append]
    congr 1
    omega
  · have hspan := @Circular.span_copyIn _ s.dataSize s.header.readIndex (s.used + l.length) ring.data source h.readIndex (by omega)
    have hlength : s.used + (l ++ source).length = s.used + l.length + source.length := by
      rw [List.length_append, Nat.add_assoc]
    unfold ringCopyIn
    rw [hb.dataSize, hb.index, hlength]
    dsimp only
    rw [hspan, hb.span, List.append_assoc]

theorem Behind.copyIn_if {c : Prop} [Decidable c] (hb : Behind s ring index l) (h : InRange s) (hc : ¬c → source = [])
    (hroom : s.used + (l ++ source).length < s.dataSize) :
    Behind s (if c then ring.ringCopyIn index source else ring) (if c then s.ringAdvance index source.length else index) (l ++ source) := by
  split
  · exact hb.copyIn h hroom
  · rename_i hno
    rw [hc hno, List.append_nil]
    exact hb

/-- A frame was put behind the bytes of `s`. -/
structure Extended (s u : HvRing) (frame : List UInt8) : Prop where
  inRange : InRange u
  unread : u.unread = s.unread ++ frame

theorem Behind.extended (hb : Behind s ring index l) (h : InRange s) (hroom : s.used + l.length < s.dataSize) :
    Extended s { ring with header := { ring.header with writeIndex := index } } l := by
  have hpos := Nat.zero_lt_of_lt h.readIndex
  have hused : ringUsed index s.header.readIndex s.dataSize = s.used + l.length := by
    rw [hb.index, ringUsed_eq h.readIndex hroom]
  refine ⟨⟨?_, ?_, ?_⟩, ?_⟩
  · exact hb.dataSize ▸ h.size
  · show index < ring.dataSize
    rw [hb.dataSize, hb.index]
    exact Nat.mod_lt _ hpos
  · show ring.header.readIndex < ring.dataSize
    rw [hb.dataSize, hb.header]
    exact h.readIndex
  · show Circular.span ring.dataSize ring.data ring.header.readIndex (ringUsed index ring.header.readIndex ring.dataSize) = _
    rw [hb.dataSize, hb.header, hused, hb.span]

structure Unmoved (s u : HvRing) : Prop where
  writeIndex : u.header.writeIndex = s.header.writeIndex
  readIndex : u.header.readIndex = s.header.readIndex
  dataSize : u.dataSize = s.dataSize
  data : u.data = s.data

theorem Unmoved.refl : Unmoved s s := ⟨rfl, rfl, rfl, rfl⟩

end HvRing

namespace HvPacket
open HvPacketDescriptor
variable {p : HvPacket} {frame head gap rest trailer l : List UInt8} {cap : Nat}

def padding (payload : List UInt8) : List UInt8 := List.replicate (alignPacket payload.length - payload.length) 0

def padded (p : HvPacket) : HvPacket := { p with payload := p.payload ++ padding p.payload }

/-- The bytes of a packet in the ring: the descriptor, what comes before the payload, the payload, a trailer. -/
def Framed (p : HvPacket) (frame : List UInt8) : Prop :=
  ∃ head gap trailer, frame = head ++ (gap ++ (p.payload ++ trailer)) ∧ head.length = hvDescriptorSize ∧
    trailer.length = hvPacketTrailerSize ∧ (ofHead head).type = p.type ∧ (ofHead head).transactionId = p.transactionId ∧
    (ofHead head).dataOffset8.toNat * hvPacketAlignment = hvDescriptorSize + gap.length ∧
    (ofHead head).length8.toNat * hvPacketAlignment = hvDescriptorSize + gap.length + p.payload.length

def interpret (cap : Nat) (l : List UInt8) : Except (IosError × Option Nat) (HvPacket × Nat) :=
  let descriptor := ofHead (l.take hvDescriptorSize)
  let dataOffset := descriptor.dataOffset8.toNat * hvPacketAlignment
  let packetSize := descriptor.length8.toNat * hvPacketAlignment
  if l.length = 0 then .error (.wouldBlock, none)
  else if l.length < hvDescriptorSize + hvPacketTrailerSize then .error (.corrupt, none)
  else if dataOffset < hvDescriptorSize ∨ packetSize < dataOffset ∨ l.length - hvPacketTrailerSize < packetSize ∨
      packetSize % hvPacketAlignment ≠ 0 then .error (.protocol, none)
  else if cap < packetSize - dataOffset then .error (.noSpace, some (packetSize - dataOffset))
  else .ok ({
    type := descriptor.type
    transactionId := descriptor.transactionId
    payload := (l.drop dataOffset).take (packetSize - dataOffset) }, packetSize + hvPacketTrailerSize)

theorem interpret_ok {n : Nat} (h : interpret cap l = .ok (p, n)) : n ≤ l.length ∧ Framed p (l.take n) := by
  unfold interpret at h
  dsimp only at h
  split_ifs at h with hempty hshort hbad hcap
  obtain ⟨rfl, rfl⟩ := Prod.mk.inj (Except.ok.inj h)
  generalize hhead : l.take hvDescriptorSize = head at *
  generalize hoffset : (ofHead head).dataOffset8.toNat * hvPacketAlignment = offset at *
  generalize hsize : (ofHead head).length8.toNat * hvPacketAlignment = size at *
  unfold hvDescriptorSize hvPacketTrailerSize at *
  have hlength : head.length = 16 := by
    rw [← hhead, List.length_take]
    omega
  refine ⟨by omega, head, (l.drop 16).take (offset - 16), (l.drop size).take 8, ?_, hlength, ?_, rfl, rfl, ?_, ?_⟩
  · have hpart : ∀ {a b c : Nat}, a ≤ b → b ≤ c → (l.drop a).take (c - a) = (l.drop a).take (b - a) ++ (l.drop b).take (c - b) := by
      intro a b c hab hbc
      have hsum : c - a = (b - a) + (c - b) := by omega
      rw [hsum, List.take_add, List.drop_drop, Nat.add_sub_cancel' hab]
    have hfirst := @hpart 0 16 (size + 8) (by omega) (by omega)
    have hsecond := @hpart 16 offset (size + 8) (by omega) (by omega)
    have hthird := @hpart offset size (size + 8) (by omega) (by omega)
    rw [Nat.add_sub_cancel_left] at hthird
    rw [List.drop_zero, Nat.sub_zero, Nat.sub_zero, hhead] at hfirst
    rw [hfirst, hsecond, hthird]
  · unfold hvPacketTrailerSize
    rw [List.length_take, List.length_drop]
    omega
  · unfold hvDescriptorSize
    rw [hoffset, List.length_take, List.length_drop]
    omega
  · unfold hvDescriptorSize
    rw [hsize, List.length_take, List.length_drop, List.length_take, List.length_drop]
    omega

theorem Framed.interpret (h : Framed p frame) : interpret cap (frame ++ rest) =
    if cap < p.payload.length then .error (.noSpace, some p.payload.length) else .ok (p, frame.length) := by
  obtain ⟨head, gap, trailer, rfl, hhead, htrailer, htype, hid, hoffset, hsize⟩ := h
  have htake : (head ++ (gap ++ (p.payload ++ trailer)) ++ rest).take hvDescriptorSize = head := by
    rw [List.append_assoc, List.take_left' hhead]
  have hpayload : ((head ++ (gap ++ (p.payload ++ trailer)) ++ rest).drop (hvDescriptorSize + gap.length)).take p.payload.length =
      p.payload := by
    have hsplit : head ++ (gap ++ (p.payload ++ trailer)) ++ rest = (head ++ gap) ++ (p.payload ++ (trailer ++ rest)) := by
      simp only [List.append_assoc]
    rw [hsplit, List.drop_left' (by rw [List.length_append, hhead]), List.take_left' rfl]
  have hlength : (head ++ (gap ++ (p.payload ++ trailer)) ++ rest).length =
      hvDescriptorSize + gap.length + p.payload.length + hvPacketTrailerSize + rest.length := by
    simp only [List.length_append, hhead, htrailer]
    omega
  have hmod : (hvDescriptorSize + gap.length + p.payload.length) % hvPacketAlignment = 0 := by
    rw [← hsize]
    exact Nat.mul_mod_left _ _
  unfold HvPacket.interpret
  rw [htake]
  dsimp only
  rw [hoffset, hsize, hlength, Nat.add_sub_cancel_left, hpayload, htype, hid, hmod]
  have hframe : (head ++ (gap ++ (p.payload ++ trailer))).length = hvDescriptorSize + gap.length + p.payload.length + hvPacketTrailerSize := by
    simp only [List.length_append, hhead, htrailer]
    omega
  rw [hframe]
  unfold hvDescriptorSize hvPacketTrailerSize
  rw [if_neg (by omega), if_neg (by omega), if_neg (by omega)]

end HvPacket

theorem alignPacket_spec (n : Nat) : n ≤ alignPacket n ∧ alignPacket n < n + 8 ∧ alignPacket n % 8 = 0 := by
  unfold alignPacket hvPacketAlignment
  omega

theorem alignPacket_add {m n : Nat} (hm : m % 8 = 0) : alignPacket (m + n) = m + alignPacket n := by
  unfold alignPacket hvPacketAlignment
  omega

namespace HvRing
open HvPacket HvPacketDescriptor
variable {s u : HvRing} {payload : List UInt8} {type flags : UInt16} {transactionId : UInt64} {cap n : Nat}

def consumed (s : HvRing) (n : Nat) : HvRing :=
  { s with header := { s.header with readIndex := (s.header.readIndex + n) % s.dataSize } }

theorem InRange.consumed (h : InRange s) (hn : n ≤ s.used) : InRange (s.consumed n) ∧ (s.consumed n).unread = s.unread.drop n := by
  have hpos := Nat.zero_lt_of_lt h.readIndex
  obtain ⟨hlt, hwrite⟩ := ringUsed_spec h.writeIndex h.readIndex
  change s.used < s.dataSize at hlt
  change (s.header.readIndex + s.used) % s.dataSize = s.header.writeIndex at hwrite
  have hused : (s.consumed n).used = s.used - n := by
    have hindex : s.header.writeIndex = ((s.header.readIndex + n) % s.dataSize + (s.used - n)) % s.dataSize := by
      rw [Nat.mod_add_mod, Nat.add_assoc, Nat.add_sub_cancel' hn, hwrite]
    show ringUsed s.header.writeIndex ((s.header.readIndex + n) % s.dataSize) s.dataSize = s.used - n
    rw [hindex, ringUsed_eq (Nat.mod_lt _ hpos) (by omega)]
  refine ⟨⟨h.size, h.writeIndex, Nat.mod_lt _ hpos⟩, ?_⟩
  unfold unread
  rw [hused, Circular.drop_span hn]
  rfl

theorem read_spec (h : InRange s) : wp (hypervRingRead cap)
    (fun p u => ∃ n, interpret cap s.unread = .ok (p, n) ∧ u = s.consumed n)
    (fun e u => interpret cap s.unread = .error e ∧ u = s) s := by
  have hlt := (ringUsed_spec h.writeIndex h.readIndex).1
  have hlength := @length_unread s
  have hsize := h.size
  unfold hypervRingRead interpret
  simp only [wp_bind, wp_get, wp_failIf, wp_modify, wp_pure]
  rw [hlength]
  unfold used at *
  refine ⟨fun hbad => absurd hbad (not_or.mpr ⟨Nat.not_le.mpr h.writeIndex, Nat.not_le.mpr h.readIndex⟩), fun _ => ?_⟩
  refine ⟨fun hempty => ⟨if_pos hempty, trivial⟩, fun hempty => ?_⟩
  rw [if_neg hempty]
  refine ⟨fun hshort => ⟨if_pos hshort, trivial⟩, fun hshort => ?_⟩
  rw [if_neg hshort]
  have hhead : s.ringCopyOut s.header.readIndex hvDescriptorSize = s.unread.take hvDescriptorSize := by
    have hfits : hvDescriptorSize ≤ ringUsed s.header.writeIndex s.header.readIndex s.dataSize := by omega
    unfold ringCopyOut unread used
    rw [Circular.copyOut_eq_span h.readIndex (by omega), Circular.take_span hfits]
  have hdescriptor : HvPacketDescriptor.ofBytes (Bytes.ofList hvDescriptorSize (s.ringCopyOut s.header.readIndex hvDescriptorSize)) =
      ofHead (s.unread.take hvDescriptorSize) := by rw [hhead]; rfl
  rw [hdescriptor]
  have hoffset := (ofHead (s.unread.take hvDescriptorSize)).dataOffset8.toNat_lt
  have hpacket := (ofHead (s.unread.take hvDescriptorSize)).length8.toNat_lt
  generalize (ofHead (s.unread.take hvDescriptorSize)).dataOffset8.toNat = offset8 at *
  generalize (ofHead (s.unread.take hvDescriptorSize)).length8.toNat = length8 at *
  refine ⟨fun hbad => ⟨if_pos hbad, trivial⟩, fun hgood => ?_⟩
  rw [if_neg hgood]
  refine ⟨fun hcap => ⟨if_pos hcap, trivial⟩, fun hcap => ?_⟩
  rw [if_neg hcap]
  unfold hvDescriptorSize hvPacketAlignment hvPacketTrailerSize at *
  rw [not_or, not_or, not_or] at hgood
  refine ⟨_, congrArg _ (Prod.ext ?_ rfl), ?_⟩
  · dsimp only
    congr 1
    split
    · unfold ringCopyOut unread used
      rw [ringAdvance_eq h.size h.readIndex (by omega),
        Circular.copyOut_eq_span (Nat.mod_lt _ (Nat.zero_lt_of_lt h.readIndex)) (by omega), Circular.drop_span (by omega),
        Circular.take_span (by omega)]
    · rename_i hzero
      rw [not_not] at hzero
      rw [hzero, List.take_zero]
  · rw [ringAdvance_eq h.size h.readIndex (by omega)]
    rfl

theorem units_toNat {n : Nat} (hn : n % 8 = 0) (hle : n ≤ 65535 * 8) : (UInt16.ofNat (n / hvPacketAlignment)).toNat * 8 = n := by
  have hlt : n / hvPacketAlignment < UInt16.size := by
    unfold hvPacketAlignment UInt16.size
    omega
  rw [UInt16.toNat_ofNat', Nat.mod_eq_of_lt hlt]
  unfold hvPacketAlignment
  omega

theorem framed_bytes {d : HvPacketDescriptor} {gap trailer : List UInt8} (ht : trailer.length = hvPacketTrailerSize)
    (hgap : gap.length % 8 = 0) (ho : d.dataOffset8.toNat * 8 = 16 + gap.length)
    (hl : d.length8.toNat * 8 = alignPacket (16 + gap.length + payload.length)) :
    Framed (padded ⟨d.type, d.transactionId, payload⟩) (d.bytes.toList ++ gap ++ payload ++ padding payload ++ trailer) := by
  have hle := (alignPacket_spec payload.length).1
  refine ⟨d.bytes.toList, gap, trailer, ?_, List.length_ofFn, ht, ?_, ?_, ?_, ?_⟩
  · show _ = d.bytes.toList ++ (gap ++ (payload ++ padding payload ++ trailer))
    simp only [List.append_assoc]
  · rw [ofHead_bytes]
    rfl
  · rw [ofHead_bytes]
    rfl
  · rw [ofHead_bytes]
    exact ho
  · have hlength : (padded ⟨d.type, d.transactionId, payload⟩).payload.length = alignPacket payload.length := by
      show (payload ++ padding payload).length = _
      unfold padding
      rw [List.length_append, List.length_replicate]
      omega
    rw [ofHead_bytes, hlength]
    rw [alignPacket_add (by omega)] at hl
    exact hl

theorem length_trailer {readIndex : Nat} : (s.trailer readIndex).length = hvPacketTrailerSize := List.length_ofFn

theorem write_spec (h : InRange s) : wp (hypervRingWrite type flags transactionId payload)
    (fun _ u => ∃ frame, Framed (padded ⟨type, transactionId, payload⟩) frame ∧ Extended s u frame) (fun _ u => Unmoved s u) s := by
  have hlt := (ringUsed_spec h.writeIndex h.readIndex).1
  obtain ⟨hle, hltAligned, haligned⟩ := alignPacket_spec (hvDescriptorSize + payload.length)
  unfold hypervRingWrite
  simp only [wp_bind, wp_get, wp_failIf, wp_modify, wp_pure, wp_ite, wp_fail]
  refine ⟨fun _ => .refl, fun hpayload => ⟨fun _ => .refl, fun _ => ⟨fun _ => .refl, fun _ => ⟨fun _ => .refl, fun _ => ?_⟩⟩⟩⟩
  refine ⟨fun _ => ⟨rfl, rfl, rfl, rfl⟩, fun hroom => ?_⟩
  have hpadding : alignPacket (hvDescriptorSize + payload.length) - (hvDescriptorSize + payload.length) =
      alignPacket payload.length - payload.length := by
    unfold hvDescriptorSize
    rw [alignPacket_add (by omega)]
    omega
  rw [hpadding]
  generalize hd : ({
    type, dataOffset8 := UInt16.ofNat (hvDescriptorSize / hvPacketAlignment)
    length8 := UInt16.ofNat (alignPacket (hvDescriptorSize + payload.length) / hvPacketAlignment)
    flags, transactionId } : HvPacketDescriptor) = d
  have hoffset : d.dataOffset8.toNat * 8 = 16 := by
    rw [← hd]
    rfl
  have hlength : d.length8.toNat * 8 = alignPacket (16 + payload.length) := by
    rw [← hd]
    refine units_toNat haligned ?_
    unfold hvDescriptorSize hvPacketAlignment at *
    omega
  have hframed := @framed_bytes payload d [] _ (@length_trailer s s.header.readIndex) rfl hoffset hlength
  have htypes : d.type = type ∧ d.transactionId = transactionId := by
    rw [← hd]
    exact ⟨rfl, rfl⟩
  rw [htypes.1, htypes.2, List.append_nil] at hframed
  refine ⟨_, hframed, ?_⟩
  have hheadlength : d.bytes.toList.length = hvDescriptorSize := List.length_ofFn
  have htrailerlength := @length_trailer s s.header.readIndex
  have hpaddinglength : (padding payload).length = alignPacket payload.length - payload.length := List.length_replicate
  have htotal : s.used + (d.bytes.toList ++ payload ++ padding payload ++ s.trailer s.header.readIndex).length < s.dataSize := by
    simp only [List.length_append, hheadlength, htrailerlength, hpaddinglength]
    unfold used
    unfold hvDescriptorSize at *
    rw [alignPacket_add (by omega)] at *
    omega
  have hparts := htotal
  simp only [List.length_append] at hparts
  have hstart := @Behind.copyIn _ _ _ _ d.bytes.toList h.behind h (by rw [List.nil_append]; omega)
  have hbody := @Behind.copyIn_if _ _ _ _ payload (payload.length ≠ 0) _ hstart h
    (fun hempty => List.eq_nil_of_length_eq_zero (not_not.mp hempty)) (by simp only [List.nil_append, List.length_append]; omega)
  have hfilled := @Behind.copyIn_if _ _ _ _ (padding payload)
    (hvDescriptorSize + payload.length < alignPacket (hvDescriptorSize + payload.length)) _ hbody h (fun hfull => List.eq_nil_of_length_eq_zero (by omega))
    (by simp only [List.nil_append, List.length_append]; omega)
  have hend := @Behind.copyIn _ _ _ _ (s.trailer s.header.readIndex) hfilled h (by simp only [List.nil_append, List.length_append]; omega)
  rw [List.nil_append, hheadlength, htrailerlength, hpaddinglength] at hend
  exact hend.extended h htotal

theorem length_gpaRange {dataPhysical dataSize pageCount : Nat} : (gpaRange dataPhysical dataSize pageCount).length = 16 + pageCount * 8 := by
  unfold gpaRange
  rw [List.length_append, List.length_flatMap, List.length_flatMap]
  simp only [Bytes.toList, List.length_ofFn, List.map_cons, List.map_nil, List.map_const', List.length_range,
    List.sum_replicate_nat, List.sum_cons, List.sum_nil]
  omega

theorem writeGpaDirect_spec {dataPhysical dataSize : Nat} (h : InRange s) :
    wp (hypervRingWriteGpaDirect flags transactionId payload dataPhysical dataSize)
      (fun _ u => ∃ frame, Framed (padded ⟨hvPacketTypeDataUsingGpaDirect, transactionId, payload⟩) frame ∧ Extended s u frame)
      (fun _ u => Unmoved s u) s := by
  have hlt := (ringUsed_spec h.writeIndex h.readIndex).1
  unfold hypervRingWriteGpaDirect
  simp only [wp_bind, wp_get, wp_failIf, wp_modify, wp_pure, wp_ite, wp_fail]
  refine ⟨fun _ => .refl, fun hpayload => ⟨fun _ => .refl, fun hpages => ⟨fun _ => .refl, fun _ => ⟨fun _ => .refl, fun _ => ?_⟩⟩⟩⟩
  refine ⟨fun _ => ⟨rfl, rfl, rfl, rfl⟩, fun hroom => ?_⟩
  generalize (dataPhysical % hvPageSize + dataSize + hvPageSize - 1) / hvPageSize = pageCount at *
  rw [not_or] at hpages hpayload
  have hfew : pageCount ≤ 64 := Nat.not_lt.mp hpages.2
  have hinline : payload.length ≤ 240 := Nat.not_lt.mp (not_or.mp hpayload.2).1
  have hgap := @length_gpaRange dataPhysical dataSize pageCount
  generalize gpaRange dataPhysical dataSize pageCount = gap at *
  have hsize : hvDescriptorSize + 16 + pageCount * 8 = 16 + gap.length := by
    rw [hgap]
    unfold hvDescriptorSize
    omega
  rw [hsize] at hroom ⊢
  obtain ⟨hle, hltAligned, haligned⟩ := alignPacket_spec (16 + gap.length + payload.length)
  have hpadding : alignPacket (16 + gap.length + payload.length) - (16 + gap.length + payload.length) =
      alignPacket payload.length - payload.length := by
    rw [alignPacket_add (by omega)]
    omega
  rw [hpadding]
  generalize hd : ({
    type := hvPacketTypeDataUsingGpaDirect, dataOffset8 := UInt16.ofNat ((16 + gap.length) / hvPacketAlignment)
    length8 := UInt16.ofNat (alignPacket (16 + gap.length + payload.length) / hvPacketAlignment)
    flags, transactionId } : HvPacketDescriptor) = d
  have hoffset : d.dataOffset8.toNat * 8 = 16 + gap.length := by
    rw [← hd]
    exact units_toNat (by omega) (by omega)
  have hlength : d.length8.toNat * 8 = alignPacket (16 + gap.length + payload.length) := by
    rw [← hd]
    exact units_toNat haligned (by omega)
  have hframed := @framed_bytes payload d gap _ (@length_trailer s s.header.readIndex) (by omega) hoffset hlength
  have htypes : d.type = hvPacketTypeDataUsingGpaDirect ∧ d.transactionId = transactionId := by
    rw [← hd]
    exact ⟨rfl, rfl⟩
  rw [htypes.1, htypes.2] at hframed
  refine ⟨_, hframed, ?_⟩
  have hpacket : (d.bytes.toList ++ gap ++ payload ++ padding payload).length = alignPacket (16 + gap.length + payload.length) := by
    have hhead : d.bytes.toList.length = 16 := List.length_ofFn
    simp only [List.length_append, hhead, padding, List.length_replicate]
    omega
  have htrailerlength := @length_trailer s s.header.readIndex
  have htotal : s.used + (d.bytes.toList ++ gap ++ payload ++ padding payload ++ s.trailer s.header.readIndex).length < s.dataSize := by
    rw [List.length_append, hpacket, htrailerlength]
    unfold used
    omega
  have hparts := htotal
  rw [List.length_append] at hparts
  have hstart := @Behind.copyIn _ _ _ _ (d.bytes.toList ++ gap ++ payload ++ padding payload) h.behind h (by rw [List.nil_append]; omega)
  rw [List.nil_append] at hstart
  have hend := hstart.copyIn h htotal
  rw [hpacket, htrailerlength] at hend
  exact hend.extended h htotal

end HvRing

/-- A call on a ring. -/
inductive HvRingCall where
  | write (type flags : UInt16) (transactionId : UInt64) (payload : List UInt8)
  | writeGpaDirect (flags : UInt16) (transactionId : UInt64) (payload : List UInt8) (dataPhysical dataSize : Nat)
  | read (payloadCapacity : Nat)

namespace HvRingCall
open HvRing

/-- The ring after a call. -/
def run (ring : HvRing) : HvRingCall → HvRing
  | .write type flags transactionId payload => (hypervRingWrite type flags transactionId payload ring).2
  | .writeGpaDirect flags transactionId payload dataPhysical dataSize =>
    (hypervRingWriteGpaDirect flags transactionId payload dataPhysical dataSize ring).2
  | .read payloadCapacity => (hypervRingRead payloadCapacity ring).2

/-- A call returns an error. -/
def Fails (ring : HvRing) : HvRingCall → Prop
  | .write type flags transactionId payload => ∃ e, (hypervRingWrite type flags transactionId payload ring).1 = .error e
  | .writeGpaDirect flags transactionId payload dataPhysical dataSize =>
    ∃ e, (hypervRingWriteGpaDirect flags transactionId payload dataPhysical dataSize ring).1 = .error e
  | .read payloadCapacity => ∃ e, (hypervRingRead payloadCapacity ring).1 = .error e

/-- The packet that a call writes, if it does. -/
def written (ring : HvRing) : HvRingCall → List HvPacket
  | .write type flags transactionId payload =>
    match (hypervRingWrite type flags transactionId payload ring).1 with
    | .ok _ => [⟨type, transactionId, payload⟩]
    | .error _ => []
  | .writeGpaDirect flags transactionId payload dataPhysical dataSize =>
    match (hypervRingWriteGpaDirect flags transactionId payload dataPhysical dataSize ring).1 with
    | .ok _ => [⟨hvPacketTypeDataUsingGpaDirect, transactionId, payload⟩]
    | .error _ => []
  | .read _ => []

/-- The packet that a call returns, if it does. -/
def received (ring : HvRing) : HvRingCall → List HvPacket
  | .read payloadCapacity =>
    match (hypervRingRead payloadCapacity ring).1 with
    | .ok p => [p]
    | .error _ => []
  | _ => []

end HvRingCall

/-- The rings that runs reach, with the packets that were written and those that were read. -/
inductive HvRingRun : HvRing → List HvPacket → List HvPacket → Prop where
  | initialized {address byteCount : Nat} {header : HvRingHeader} {data : Nat → UInt8} {ring : HvRing} :
      HvRing.hypervRingInitialize address header data byteCount = .ok ring → header.writeIndex = header.readIndex →
      header.writeIndex % hvPacketAlignment = 0 → ring.dataSize ≤ 2 ^ 31 → HvRingRun ring [] []
  | called {ring : HvRing} {written received : List HvPacket} {call : HvRingCall} : HvRingRun ring written received →
      HvRingRun (call.run ring) (written ++ call.written ring) (received ++ call.received ring)

namespace HvRing
open HvPacket
variable {s u ring : HvRing} {written received pending : List HvPacket} {cap : Nat} {p : HvPacket}

/-- The unread bytes are the frames of the packets. -/
def Holds (s : HvRing) (pending : List HvPacket) : Prop := InRange s ∧ ∃ frames, List.Forall₂ Framed pending frames ∧ s.unread = frames.flatten

theorem Holds.extended (h : Holds s pending) {frame : List UInt8} (hf : Framed p frame) (hu : Extended s u frame) :
    Holds u (pending ++ [p]) := by
  obtain ⟨-, frames, hframes, hunread⟩ := h
  refine ⟨hu.inRange, frames ++ [frame], List.rel_append hframes (.cons hf .nil), ?_⟩
  rw [hu.unread, hunread, List.flatten_append, List.flatten_singleton]

theorem Holds.unmoved (h : Holds s pending) (hu : Unmoved s u) : Holds u pending := by
  obtain ⟨⟨hsize, hwrite, hread⟩, frames, hframes, hunread⟩ := h
  refine ⟨⟨?_, ?_, ?_⟩, frames, hframes, ?_⟩
  · rw [hu.dataSize]
    exact hsize
  · rw [hu.dataSize, hu.writeIndex]
    exact hwrite
  · rw [hu.dataSize, hu.readIndex]
    exact hread
  · unfold unread used at hunread ⊢
    rw [hu.dataSize, hu.data, hu.writeIndex, hu.readIndex, hunread]

theorem Holds.read (h : Holds s pending) : pending = [] ∧ hypervRingRead cap s = (.error (.wouldBlock, none), s) ∨
    ∃ p rest, pending = p :: rest ∧
      (cap < p.payload.length ∧ hypervRingRead cap s = (.error (.noSpace, some p.payload.length), s) ∨
        ¬cap < p.payload.length ∧ ∃ u, hypervRingRead cap s = (.ok p, u) ∧ Holds u rest) := by
  obtain ⟨hrange, frames, hframes, hunread⟩ := h
  have hspec := @read_spec s cap hrange
  unfold wp at hspec
  cases hframes with
  | nil =>
    have hnone : interpret cap s.unread = .error (.wouldBlock, none) := by
      rw [hunread]
      rfl
    rw [hnone] at hspec
    refine Or.inl ⟨rfl, ?_⟩
    split at hspec
    · obtain ⟨n, hn, -⟩ := hspec
      cases hn
    · rename_i hr
      obtain ⟨he, hu⟩ := hspec
      rw [hr, hu, ← Except.error.inj he]
  | @cons p frame rest frames hframe hframes =>
    refine Or.inr ⟨p, rest, rfl, ?_⟩
    rw [List.flatten_cons] at hunread
    have hinterpret := @Framed.interpret p frame frames.flatten cap hframe
    rw [← hunread] at hinterpret
    rw [hinterpret] at hspec
    rcases Nat.lt_or_ge cap p.payload.length with hcap | hcap
    · rw [if_pos hcap] at hspec
      refine Or.inl ⟨hcap, ?_⟩
      split at hspec
      · obtain ⟨n, hn, -⟩ := hspec
        cases hn
      · rename_i hr
        obtain ⟨he, hu⟩ := hspec
        rw [hr, hu, ← Except.error.inj he]
    · rw [if_neg (Nat.not_lt.mpr hcap)] at hspec
      refine Or.inr ⟨Nat.not_lt.mpr hcap, ?_⟩
      split at hspec
      · rename_i hr
        obtain ⟨n, hn, hu⟩ := hspec
        obtain ⟨hp, hn⟩ := Prod.mk.inj (Except.ok.inj hn)
        have hle : frame.length ≤ s.used := by
          rw [← length_unread, hunread, List.length_append]
          exact Nat.le_add_right _ _
        obtain ⟨hrange', hunread'⟩ := hrange.consumed hle
        refine ⟨_, by rw [hr, hp, hu, ← hn], hrange', frames, hframes, ?_⟩
        rw [hunread', hunread, List.drop_left' rfl]
      · cases hspec.1

theorem Holds.run (h : Holds s pending) (call : HvRingCall) : ∃ pending', Holds (call.run s) pending' ∧
    pending ++ (call.written s).map padded = call.received s ++ pending' := by
  cases call with
  | write type flags transactionId payload =>
    dsimp only [HvRingCall.run, HvRingCall.written, HvRingCall.received]
    rcases wp_cases (@write_spec s payload type flags transactionId h.1) with ⟨_, _, hr, frame, hframe, hu⟩ | ⟨_, _, hr, hspec⟩
    all_goals rw [hr]
    · exact ⟨_, h.extended hframe hu, rfl⟩
    · exact ⟨pending, h.unmoved hspec, List.append_nil _⟩
  | writeGpaDirect flags transactionId payload dataPhysical dataSize =>
    dsimp only [HvRingCall.run, HvRingCall.written, HvRingCall.received]
    rcases wp_cases (@writeGpaDirect_spec s payload flags transactionId dataPhysical dataSize h.1) with ⟨_, _, hr, frame, hframe, hu⟩ | ⟨_, _, hr, hspec⟩
    all_goals rw [hr]
    · exact ⟨_, h.extended hframe hu, rfl⟩
    · exact ⟨pending, h.unmoved hspec, List.append_nil _⟩
  | read cap =>
    dsimp only [HvRingCall.run, HvRingCall.written, HvRingCall.received]
    rw [List.map_nil, List.append_nil]
    rcases @Holds.read s pending cap h with ⟨-, hr⟩ | ⟨p, rest, hpending, ⟨-, hr⟩ | ⟨-, u, hr, hu⟩⟩
    all_goals rw [hr]
    · exact ⟨pending, h, rfl⟩
    · exact ⟨pending, h, rfl⟩
    · exact ⟨rest, hu, hpending⟩

theorem holds_of_run (h : HvRingRun ring written received) :
    ∃ pending, Holds ring pending ∧ written.map padded = received ++ pending := by
  induction h with
  | @initialized address byteCount header data ring hinit hsame halign hsize =>
    refine ⟨[], ⟨?_, [], .nil, ?_⟩, rfl⟩
    all_goals
      unfold hypervRingInitialize at hinit
      split_ifs at hinit with hbad hcorrupt
      obtain rfl := Except.ok.inj hinit
      rw [not_or, Nat.not_le, Nat.not_le] at hcorrupt
    · exact ⟨hsize, hcorrupt.1, hcorrupt.2⟩
    · refine List.eq_nil_of_length_eq_zero ?_
      rw [length_unread]
      unfold used ringUsed
      dsimp only
      rw [hsame, if_pos (Nat.le_refl _), Nat.sub_self]
  | @called ring written received call _ ih =>
    obtain ⟨pending, hholds, hqueue⟩ := ih
    obtain ⟨pending', hholds', hcall⟩ := hholds.run call
    refine ⟨pending', hholds', ?_⟩
    rw [List.map_append, hqueue, List.append_assoc, hcall, List.append_assoc]

theorem InRange.unmoved_of_fails (h : InRange s) {call : HvRingCall} (hf : call.Fails s) : Unmoved s (call.run s) := by
  cases call with
  | write type flags transactionId payload =>
    obtain ⟨e, he⟩ := hf
    have hu := wp_error (@write_spec s payload type flags transactionId h) (run_eq he)
    exact hu
  | writeGpaDirect flags transactionId payload dataPhysical dataSize =>
    obtain ⟨e, he⟩ := hf
    have hu := wp_error (@writeGpaDirect_spec s payload flags transactionId dataPhysical dataSize h) (run_eq he)
    exact hu
  | read cap =>
    obtain ⟨e, he⟩ := hf
    have hsame := (wp_error (@read_spec s cap h) (run_eq he)).2
    show Unmoved s (hypervRingRead cap s).2
    rw [hsame]
    exact .refl

/-- Reads return the packets that were written, in order and each once; a call that fails changes neither the indices nor an
    unread byte; and whatever a ring holds, a read looks at the bytes between the indices alone and takes no others. -/
theorem ring_fifo (h : HvRingRun ring written received) :
    (∃ pending, written.map padded = received ++ pending ∧ ∀ cap, (hypervRingRead cap ring).1 = match pending with
      | [] => .error (.wouldBlock, none)
      | p :: _ => if cap < p.payload.length then .error (.noSpace, some p.payload.length) else .ok p) ∧
    (∀ s, InRange s → ∀ call : HvRingCall, call.Fails s → (call.run s).header.writeIndex = s.header.writeIndex ∧
      (call.run s).header.readIndex = s.header.readIndex ∧ (call.run s).unread = s.unread) ∧
    ∀ s, InRange s → ∀ cap,
      (∀ s', InRange s' → s'.unread = s.unread → (hypervRingRead cap s').1 = (hypervRingRead cap s).1) ∧
      ∀ p u, hypervRingRead cap s = (.ok p, u) → ∃ n ≤ s.unread.length, u = s.consumed n ∧ u.unread = s.unread.drop n := by
  refine ⟨?_, fun s hs call hf => ?_, fun s hs cap => ⟨fun s' hs' hunread => ?_, fun p u hr => ?_⟩⟩
  · obtain ⟨pending, hholds, hqueue⟩ := holds_of_run h
    refine ⟨pending, hqueue, fun cap => ?_⟩
    rcases @Holds.read ring pending cap hholds with ⟨rfl, hr⟩ | ⟨p, rest, rfl, ⟨hcap, hr⟩ | ⟨hcap, u, hr, -⟩⟩
    · rw [hr]
    · rw [hr]
      dsimp only
      rw [if_pos hcap]
    · rw [hr]
      dsimp only
      rw [if_neg hcap]
  · have hu := hs.unmoved_of_fails hf
    refine ⟨hu.writeIndex, hu.readIndex, ?_⟩
    unfold unread used
    rw [hu.dataSize, hu.data, hu.writeIndex, hu.readIndex]
  · have houtcome : ∀ {s : HvRing}, InRange s → (hypervRingRead cap s).1 = (interpret cap s.unread).map Prod.fst := by
      intro s hs
      rcases wp_cases (@read_spec s cap hs) with ⟨_, _, hr, n, hn, -⟩ | ⟨_, _, hr, hspec⟩
      all_goals rw [hr]
      · rw [hn]
        rfl
      · rw [hspec.1]
        rfl
    rw [houtcome hs', houtcome hs, hunread]
  · obtain ⟨n, hn, rfl⟩ := wp_ok (@read_spec s cap hs) hr
    have hle := (interpret_ok hn).1
    refine ⟨n, hle, rfl, ?_⟩
    rw [length_unread] at hle
    exact (hs.consumed hle).2

def smallRing : HvRing := ⟨⟨40, 40, 0, 0⟩, fun _ => 0, 64⟩

theorem ring_fifo_small : ∃ ring, HvRingRun ring [⟨6, 7, [1, 2, 3]⟩] [⟨6, 7, [1, 2, 3, 0, 0, 0, 0, 0]⟩] ∧
    (hypervRingRead 0 ring).1 = .error (.wouldBlock, none) := by
  have hinit : hypervRingInitialize 0 smallRing.header smallRing.data 4160 = .ok smallRing := rfl
  have hstart := HvRingRun.initialized hinit rfl rfl (by decide)
  have hwritten := @HvRingRun.called _ _ _ (.write 6 1 7 [1, 2, 3]) hstart
  have hread := @HvRingRun.called _ _ _ (.read 8) hwritten
  have hin : HvRingCall.written smallRing (.write 6 1 7 [1, 2, 3]) = [⟨6, 7, [1, 2, 3]⟩] := by decide +kernel
  have hout : HvRingCall.received (HvRingCall.run smallRing (.write 6 1 7 [1, 2, 3])) (.read 8) = [⟨6, 7, [1, 2, 3, 0, 0, 0, 0, 0]⟩] := by
    decide +kernel
  rw [hin, hout] at hread
  refine ⟨_, hread, ?_⟩
  obtain ⟨pending, hqueue, hnext⟩ := (ring_fifo hread).1
  have hall : [⟨6, 7, [1, 2, 3, 0, 0, 0, 0, 0]⟩] ++ [] = [⟨6, 7, [1, 2, 3, 0, 0, 0, 0, 0]⟩] ++ pending := hqueue
  obtain rfl := (List.append_cancel_left hall).symm
  exact hnext 0

end HvRing
end InferenceOS
