import InferenceOS.Theorems.StorageCommands

/-! The sectors that a transfer of the storage driver asks for. Its commands cover the range in order, up to the last sector
    that a command can name; a range that reaches beyond it is refused, also on a disk that has been published with it. -/

namespace InferenceOS
open Program

/-- A command that was issued, with its outcome and the machine before and after it. -/
structure IssuedCommand where
  cdb : ScsiCdb
  transferSize : Nat
  before : StorvscMachine
  result : Except IosError Unit
  after : StorvscMachine

namespace IssuedCommand

/-- The sector that the command names. -/
def firstSector (c : IssuedCommand) : Nat := StorvscProgram.readBe32 c.cdb.byte 2

def sectorCount (c : IssuedCommand) : Nat := (c.cdb.byte 7).toNat * 2 ^ 8 + (c.cdb.byte 8).toNat

def writes (c : IssuedCommand) : Bool := c.cdb.byte 0 = 0x2a

end IssuedCommand

namespace StorvscProgram
variable {host : StorvscHost} {s : StorvscMachine} {write : Bool} {n firstSector remaining offset batch : Nat}

def filled (write : Bool) (offset batch : Nat) (s : StorvscMachine) : StorvscMachine :=
  if write then { s with bounce := copyBytes s.bounce 0 s.buffer offset (batch * 512) } else s

def drained (write : Bool) (offset batch : Nat) (s : StorvscMachine) : StorvscMachine :=
  if write then s else { s with buffer := copyBytes s.buffer offset s.bounce 0 (batch * 512) }

def nextBatch (s : StorvscMachine) (remaining : Nat) : Nat := min (min (s.driver.bounceSize / 512) (2 ^ 16 - 1)) remaining

/-- The commands that the loop of a transfer issues; the first one that fails is the last. -/
def transferCommands (host : StorvscHost) (write : Bool) : Nat → Nat → Nat → Nat → StorvscMachine → List IssuedCommand
  | 0, _, _, _, _ => []
  | rounds + 1, firstSector, remaining, offset, s =>
    let batch := nextBatch s remaining
    if remaining = 0 ∨ 2 ^ 32 - 1 < firstSector ∨ 2 ^ 32 - 1 - firstSector + 1 < batch then []
    else
      match buildRw10Cdb write firstSector batch with
      | .error _ => []
      | .ok cdb =>
        let run := executeScsi host cdb 10 (if write then .write else .read) (batch * 512) (filled write offset batch s)
        ⟨cdb, batch * 512, filled write offset batch s, run.1, run.2⟩ ::
          match run.1 with
          | .error _ => []
          | .ok _ =>
            transferCommands host write rounds (firstSector + batch) (remaining - batch) (offset + batch * 512)
              (drained write offset batch run.2)

/-- The commands of `storage_transfer`. -/
def storageCommands (host : StorvscHost) (write : Bool) (firstSector sectorCount : Nat) (s : StorvscMachine) : List IssuedCommand :=
  if s.driver.ready = false then [] else transferCommands host write sectorCount firstSector sectorCount 0 s

/-- Commands name the sectors from `first` up to `last`, each where the one before ended, and each moves its own bytes of the
    buffer from `offset` on: a write takes them from `start`, and a read leaves them in `final`. -/
inductive Covers (write : Bool) (start final : Nat → UInt8) : List IssuedCommand → Nat → Nat → Nat → Prop where
  | done {last offset : Nat} : Covers write start final [] last last offset
  | command {c : IssuedCommand} {commands : List IssuedCommand} {last offset : Nat} :
    c.writes = write → 0 < c.sectorCount → c.transferSize = c.sectorCount * 512 →
    (∀ j < c.transferSize, if write then c.before.bounce j = start (offset + j) else final (offset + j) = c.after.bounce j) →
    Covers write start final commands (c.firstSector + c.sectorCount) last (offset + c.transferSize) →
    Covers write start final (c :: commands) c.firstSector last offset

theorem byte_bigEndian {k value i : Nat} (hi : i < k) : (bigEndian k value).byte i = Bytes.digit value (k - 1 - i) := by
  rw [Bytes.byte_of_lt hi]
  rfl

theorem buildRw10Cdb_spec (hfirst : firstSector ≤ 2 ^ 32 - 1) (hpos : 0 < batch) (hbatch : batch ≤ 2 ^ 16 - 1) :
    ∃ cdb : ScsiCdb, buildRw10Cdb write firstSector batch = .ok cdb ∧ readBe32 cdb.byte 2 = firstSector ∧
      (cdb.byte 7).toNat * 2 ^ 8 + (cdb.byte 8).toNat = batch ∧ (cdb.byte 0 = 0x2a ↔ write = true) := by
  refine ⟨_, by rw [buildRw10Cdb, if_neg (by omega)], ?_, ?_, ?_⟩
  · have hbyte (i : Nat) (hi : i < 4) : ((((Bytes.zero : ScsiCdb).put 0 (Bytes.ofNat 1 (if write then 0x2a else 0x28))).put 2
        (bigEndian 4 firstSector)).put 7 (bigEndian 2 batch)).byte (2 + i) = Bytes.digit firstSector (3 - i) := by
      rw [Bytes.byte_put_of_not_mem (by omega), Bytes.byte_put_of_mem (by omega) hi, byte_bigEndian hi]
    have h0 := hbyte 0 (by omega)
    have h1 := hbyte 1 (by omega)
    have h2 := hbyte 2 (by omega)
    have h3 := hbyte 3 (by omega)
    rw [readBe32, h0, h1, h2, h3]
    simp only [Bytes.toNat_digit]
    omega
  · have hbyte (i : Nat) (hi : i < 2) : ((((Bytes.zero : ScsiCdb).put 0 (Bytes.ofNat 1 (if write then 0x2a else 0x28))).put 2
        (bigEndian 4 firstSector)).put 7 (bigEndian 2 batch)).byte (7 + i) = Bytes.digit batch (1 - i) := by
      rw [Bytes.byte_put_of_mem (by omega) hi, byte_bigEndian hi]
    have h0 := hbyte 0 (by omega)
    have h1 := hbyte 1 (by omega)
    rw [h0, h1]
    simp only [Bytes.toNat_digit]
    omega
  · rw [Bytes.byte_put_of_not_mem (by omega), Bytes.byte_put_of_not_mem (by omega)]
    cases write with
    | true => exact ⟨fun _ => rfl, fun _ => by decide⟩
    | false => exact ⟨fun h => absurd h (by decide), fun h => nomatch h⟩

structure SameBuffer (s t : StorvscMachine) : Prop where
  buffer : t.buffer = s.buffer
  bounceSize : t.driver.bounceSize = s.driver.bounceSize

instance : Std.Refl SameBuffer := ⟨fun _ => ⟨rfl, rfl⟩⟩

instance : IsTrans StorvscMachine SameBuffer := ⟨fun _ _ _ h h' => ⟨h'.buffer.trans h.buffer, h'.bounceSize.trans h.bounceSize⟩⟩

theorem vmbusChannelWrite_sameBuffer {transaction : UInt64} {usesBounce : Bool} {ring : Program IosError HvRing Bool} :
    Keeps SameBuffer (vmbusChannelWrite host transaction usesBounce ring) := by
  refine keeps_get_bind fun s => (keeps_failIf.bind fun _ => ?_) s
  refine Keeps.bind (keeps_modify fun s => ⟨rfl, rfl⟩) fun _ => ?_
  refine Keeps.bind (fun s => ⟨rfl, rfl⟩) fun signalHost => ?_
  exact Keeps.bind (keeps_modify fun s => ⟨rfl, rfl⟩) fun _ => keeps_failIf

theorem vmbusChannelRead_sameBuffer : Keeps SameBuffer (vmbusChannelRead host) := by
  refine keeps_get_bind fun s => (keeps_failIf.bind fun _ => ?_) s
  refine Keeps.bind (keeps_modify fun s => ⟨rfl, rfl⟩) fun _ => keeps_get_bind fun t => ?_
  refine Keeps.bind (keeps_modify fun s => ⟨rfl, rfl⟩) (fun _ => ?_) t
  split
  · exact keeps_pure
  · exact keeps_fail

theorem waitFrom_sameBuffer {transaction : UInt64} : ∀ {n : Nat}, Keeps SameBuffer (waitFrom host transaction n)
  | 0 => Keeps.bind (keeps_modify fun s => ⟨rfl, rfl⟩) fun _ => keeps_fail
  | n + 1 => by
    rw [waitFrom]
    refine Keeps.bind vmbusChannelRead_sameBuffer.attempt fun status => ?_
    split
    · exact waitFrom_sameBuffer
    · exact keeps_fail
    · exact keeps_failIf.bind fun _ => keeps_failIf.bind fun _ => keeps_pure

theorem executeScsi_sameBuffer {cdb : ScsiCdb} {cdbLength transferSize : Nat} {direction : StorvscDirection} :
    Keeps SameBuffer (executeScsi host cdb cdbLength direction transferSize) := by
  refine keeps_get_bind fun s => Keeps.bind (keeps_modify fun s => ⟨rfl, rfl⟩) (fun _ => ?_) s
  refine keeps_failIf.bind fun _ => Keeps.bind ?_ fun _ => Keeps.bind ?_ fun response => keeps_failIf
  · unfold submitScsi
    split
    · exact vmbusChannelWrite_sameBuffer
    · exact vmbusChannelWrite_sameBuffer
  · exact keeps_get_bind fun s => waitFrom_sameBuffer s

theorem filled_sameBuffer : SameBuffer s (filled write offset batch s) := by
  unfold filled
  split <;> exact ⟨rfl, rfl⟩

theorem drained_bounceSize : (drained write offset batch s).driver.bounceSize = s.driver.bounceSize := by
  unfold drained
  split <;> rfl

theorem nextBatch_pos (hsize : 512 ≤ s.driver.bounceSize) (hne : remaining ≠ 0) : 0 < nextBatch s remaining := by
  unfold nextBatch
  omega

theorem nextBatch_le : nextBatch s remaining ≤ remaining ∧ nextBatch s remaining ≤ 2 ^ 16 - 1 := by
  unfold nextBatch
  omega

theorem transferFrom_refused (hsize : 512 ≤ s.driver.bounceSize) (hne : remaining ≠ 0)
    (hhigh : 2 ^ 32 < firstSector + nextBatch s remaining) :
    transferFrom host write (n + 1) firstSector remaining offset s = (.error .outOfRange, s) ∧
      transferCommands host write (n + 1) firstSector remaining offset s = [] := by
  have hpos := nextBatch_pos hsize hne
  have hbad : 2 ^ 32 - 1 < firstSector ∨ 2 ^ 32 - 1 - firstSector + 1 < nextBatch s remaining := by omega
  constructor
  · rw [transferFrom, if_neg hne, get_bind]
    exact congrFun (failIf_bind hbad) s
  · rw [transferCommands]
    exact if_pos (.inr hbad)

theorem transferFrom_round {cdb : ScsiCdb} (hne : remaining ≠ 0) (hlow : firstSector + nextBatch s remaining ≤ 2 ^ 32)
    (hpos : 0 < nextBatch s remaining) (hcdb : buildRw10Cdb write firstSector (nextBatch s remaining) = .ok cdb) :
    let batch := nextBatch s remaining
    let command := executeScsi host cdb 10 (if write then .write else .read) (batch * 512)
    transferFrom host write (n + 1) firstSector remaining offset s =
      (command >>= fun _ => modify (drained write offset batch) >>= fun _ =>
        transferFrom host write n (firstSector + batch) (remaining - batch) (offset + batch * 512)) (filled write offset batch s) ∧
    transferCommands host write (n + 1) firstSector remaining offset s =
      ⟨cdb, batch * 512, filled write offset batch s, (command (filled write offset batch s)).1, (command (filled write offset batch s)).2⟩ ::
        match (command (filled write offset batch s)).1 with
        | .error _ => []
        | .ok _ =>
          transferCommands host write n (firstSector + batch) (remaining - batch) (offset + batch * 512)
            (drained write offset batch (command (filled write offset batch s)).2) := by
  intro batch command
  have hgood : ¬(2 ^ 32 - 1 < firstSector ∨ 2 ^ 32 - 1 - firstSector + 1 < nextBatch s remaining) := by omega
  constructor
  · rw [transferFrom, if_neg hne, get_bind]
    show (failIf (2 ^ 32 - 1 < firstSector ∨ 2 ^ 32 - 1 - firstSector + 1 < nextBatch s remaining) _ >>= fun _ =>
      ofExcept (buildRw10Cdb write firstSector (nextBatch s remaining)) >>= _) s = _
    rw [failIf_pass hgood, hcdb]
    rfl
  · rw [transferCommands]
    dsimp only
    rw [if_neg (not_or.mpr ⟨hne, hgood⟩), hcdb]

theorem transferFrom_issued (hsize : 512 ≤ s.driver.bounceSize) (hne : remaining ≠ 0)
    (hlow : firstSector + nextBatch s remaining ≤ 2 ^ 32) :
    ∃ c : IssuedCommand, c.firstSector = firstSector ∧ c.sectorCount = nextBatch s remaining ∧ c.writes = write ∧
      c.transferSize = nextBatch s remaining * 512 ∧ c.before = filled write offset (nextBatch s remaining) s ∧
      SameBuffer c.before c.after ∧
      (∀ e, c.result = .error e →
        (transferFrom host write (n + 1) firstSector remaining offset s).1 = .error e ∧
          transferCommands host write (n + 1) firstSector remaining offset s = [c]) ∧
      (c.result = .ok () →
        transferFrom host write (n + 1) firstSector remaining offset s =
          transferFrom host write n (firstSector + nextBatch s remaining) (remaining - nextBatch s remaining)
            (offset + nextBatch s remaining * 512) (drained write offset (nextBatch s remaining) c.after) ∧
        transferCommands host write (n + 1) firstSector remaining offset s =
          c :: transferCommands host write n (firstSector + nextBatch s remaining) (remaining - nextBatch s remaining)
            (offset + nextBatch s remaining * 512) (drained write offset (nextBatch s remaining) c.after)) := by
  have hpos := nextBatch_pos hsize hne
  obtain ⟨cdb, hcdb, hfirst, hcount, hwrite⟩ := @buildRw10Cdb_spec write firstSector _ (by omega) hpos
    (@nextBatch_le s remaining).2
  have hround := @transferFrom_round host s write n firstSector remaining offset cdb hne hlow hpos hcdb
  obtain ⟨htransfer, hcommands⟩ := hround
  generalize nextBatch s remaining = batch at *
  rcases hrun : executeScsi host cdb 10 (if write then .write else .read) (batch * 512) (filled write offset batch s) with ⟨r, t⟩
  refine ⟨⟨cdb, batch * 512, filled write offset batch s, r, t⟩, hfirst, hcount, ?_, rfl, rfl, executeScsi_sameBuffer.run hrun, ?_, ?_⟩
  · exact Bool.eq_iff_iff.mpr (decide_eq_true_iff.trans hwrite)
  · rintro e rfl
    rw [htransfer, hcommands, bind_error hrun, hrun]
    exact ⟨rfl, rfl⟩
  · rintro rfl
    rw [htransfer, hcommands, bind_ok hrun, hrun, modify_bind]
    exact ⟨rfl, rfl⟩

theorem Covers.start {start start' final : Nat → UInt8} {commands : List IssuedCommand} {first last : Nat}
    (h : Covers write start final commands first last offset) (hstart : write = true → start = start') :
    Covers write start' final commands first last offset := by
  induction h with
  | done => exact .done
  | command hwrites hcount hsize hmoved _ ih =>
    refine .command hwrites hcount hsize (fun j hj => ?_) ih
    have hmoved := hmoved j hj
    cases write with
    | true => rwa [← hstart rfl]
    | false => exact hmoved

structure Transferred (write : Bool) (firstSector remaining offset : Nat) (s : StorvscMachine) (commands : List IssuedCommand)
    (run : Except IosError Unit × StorvscMachine) : Prop where
  ok : run.1 = .ok ()
  covers : Covers write s.buffer run.2.buffer commands firstSector (firstSector + remaining) offset
  elsewhere : ∀ i, write = true ∨ i < offset ∨ offset + remaining * 512 ≤ i → run.2.buffer i = s.buffer i

theorem Transferred.command {c : IssuedCommand} {commands : List IssuedCommand} {run : Except IosError Unit × StorvscMachine}
    (h : Transferred write (firstSector + batch) (remaining - batch) (offset + batch * 512) (drained write offset batch c.after)
      commands run)
    (hfirst : c.firstSector = firstSector) (hcount : c.sectorCount = batch) (hwrites : c.writes = write)
    (hsize : c.transferSize = batch * 512) (hbefore : c.before = filled write offset batch s) (hsame : SameBuffer c.before c.after)
    (hpos : 0 < batch) (hle : batch ≤ remaining) : Transferred write firstSector remaining offset s (c :: commands) run := by
  subst hcount hfirst
  obtain ⟨hok, hcovers, helsewhere⟩ := h
  have hbuffer : c.after.buffer = s.buffer := by rw [hsame.buffer, hbefore, (filled_sameBuffer (s := s)).buffer]
  cases write with
  | true =>
    refine ⟨hok, ?_, fun i _ => (helsewhere i (.inl rfl)).trans (congrFun hbuffer i)⟩
    refine .command hwrites hpos hsize (fun j hj => ?_) ?_
    · rw [if_pos rfl, hbefore, filled, if_pos rfl]
      show copyBytes s.bounce 0 s.buffer offset (c.sectorCount * 512) j = _
      rw [copyBytes, if_pos (by omega), Nat.sub_zero]
    · rw [hsize, show c.firstSector + remaining = c.firstSector + c.sectorCount + (remaining - c.sectorCount) by omega]
      exact hcovers.start fun _ => hbuffer
  | false =>
    refine ⟨hok, ?_, fun i hi => ?_⟩
    · refine .command hwrites hpos hsize (fun j hj => ?_) ?_
      · rw [if_neg Bool.false_ne_true, helsewhere _ (.inr (.inl (by omega)))]
        show copyBytes c.after.buffer offset c.after.bounce 0 (c.sectorCount * 512) (offset + j) = _
        rw [copyBytes, if_pos (by omega), Nat.zero_add, Nat.add_sub_cancel_left]
      · rw [hsize, show c.firstSector + remaining = c.firstSector + c.sectorCount + (remaining - c.sectorCount) by omega]
        exact hcovers.start fun h => nomatch h
    · have hi := hi.resolve_left Bool.false_ne_true
      rw [helsewhere i (.inr (by omega))]
      show copyBytes c.after.buffer offset c.after.bounce 0 (c.sectorCount * 512) i = _
      rw [copyBytes, if_neg (by omega), hbuffer]

theorem transferFrom_transferred : ∀ {n firstSector remaining offset : Nat} {s : StorvscMachine}, remaining ≤ n →
    512 ≤ s.driver.bounceSize → (∀ c ∈ transferCommands host write n firstSector remaining offset s, c.result = .ok ()) →
    (remaining = 0 ∨ firstSector + remaining ≤ 2 ^ 32 →
      Transferred write firstSector remaining offset s (transferCommands host write n firstSector remaining offset s)
        (transferFrom host write n firstSector remaining offset s)) ∧
      (remaining ≠ 0 → 2 ^ 32 < firstSector + remaining →
        (transferFrom host write n firstSector remaining offset s).1 = .error .outOfRange)
  | 0, _, remaining, _, s, hn, _, _ => by
    obtain rfl := Nat.le_zero.mp hn
    exact ⟨fun _ => ⟨rfl, .done, fun _ _ => rfl⟩, fun hne => absurd rfl hne⟩
  | n + 1, firstSector, remaining, offset, s, hn, hsize, hok => by
    by_cases hzero : remaining = 0
    · subst hzero
      exact ⟨fun _ => ⟨rfl, .done, fun _ _ => rfl⟩, fun hne => absurd rfl hne⟩
    have hpos := nextBatch_pos hsize hzero
    have hle := (@nextBatch_le s remaining).1
    obtain hlow | hhigh := le_or_gt (firstSector + nextBatch s remaining) (2 ^ 32)
    · obtain ⟨c, hfirst, hcount, hwrites, htransferSize, hbefore, hsame, hfailed, hissued⟩ :=
        @transferFrom_issued host s write n firstSector remaining offset hsize hzero hlow
      have hresult : c.result = .ok () := by
        rcases hr : c.result with e | _
        · have hc := hok c (by rw [(hfailed e hr).2]; exact List.mem_singleton.mpr rfl)
          rw [hr] at hc
          cases hc
        · rfl
      obtain ⟨htransfer, hcommands⟩ := hissued hresult
      rw [htransfer, hcommands]
      have hsize' : 512 ≤ (drained write offset (nextBatch s remaining) c.after).driver.bounceSize := by
        rw [drained_bounceSize, hsame.bounceSize, hbefore, (filled_sameBuffer (s := s)).bounceSize]
        exact hsize
      obtain ⟨hrest, hbeyond⟩ := @transferFrom_transferred n _ (remaining - nextBatch s remaining) _ _ (by omega) hsize' fun d hd =>
        hok d (by rw [hcommands]; exact List.mem_cons_of_mem c hd)
      constructor
      · intro hrange
        exact (hrest (by omega)).command hfirst hcount hwrites htransferSize hbefore hsame hpos hle
      · intro _ hrange
        exact hbeyond (by omega) (by omega)
    · obtain ⟨hrefused, -⟩ := @transferFrom_refused host s write n firstSector remaining offset hsize hzero hhigh
      refine ⟨fun hrange => absurd hrange (by omega), fun _ _ => ?_⟩
      rw [hrefused]

/-- A transfer of a published disk whose commands succeed covers its sectors and moves its bytes where the range ends with the
    last sector that a command can name; a range that reaches beyond it is refused. -/
theorem storage_transfer_covers (host : StorvscHost) (s : StorvscMachine) (write : Bool) (firstSector sectorCount : Nat)
    (disk : PublishedDisk) (hbounce : BounceAccepted s.driver.bounceSize) (hpublished : storvscPublish s.driver = .ok disk)
    (hok : ∀ c ∈ storageCommands host write firstSector sectorCount s, c.result = .ok ()) :
    let run := storageTransfer host write firstSector sectorCount s
    (sectorCount = 0 ∨ firstSector + sectorCount ≤ 2 ^ 32 →
      run.1 = .ok () ∧
      Covers write s.buffer run.2.buffer (storageCommands host write firstSector sectorCount s) firstSector (firstSector + sectorCount) 0 ∧
      ∀ i, write = true ∨ sectorCount * 512 ≤ i → run.2.buffer i = s.buffer i) ∧
    (sectorCount ≠ 0 → 2 ^ 32 < firstSector + sectorCount → run.1 = .error .outOfRange) := by
  have hready : s.driver.ready ≠ false := by
    intro hready
    rw [storvscPublish, if_pos hready] at hpublished
    cases hpublished
  have hrun : storageTransfer host write firstSector sectorCount s = transferFrom host write sectorCount firstSector sectorCount 0 s := by
    rw [storageTransfer, get_bind, failIf_pass hready]
  rw [storageCommands, if_neg hready] at hok ⊢
  rw [hrun]
  obtain ⟨hbelow, hbeyond⟩ := transferFrom_transferred le_rfl hbounce.1 hok
  refine ⟨fun hlow => ?_, hbeyond⟩
  obtain ⟨hresult, hcovers, helsewhere⟩ := hbelow hlow
  exact ⟨hresult, hcovers, fun i hi => helsewhere i (hi.imp_right fun h => .inr (by omega))⟩

def completionOf (transferSize : Nat) : List UInt8 :=
  let srb : Bytes vstorSrbSize := Bytes.zero.put 2 (Bytes.ofNat 1 1) |>.put 12 (Bytes.ofNat 4 transferSize)
  wire32 vstorOperationCompleteIo ++ wire32 0 ++ wire32 0 ++ srb.toList

def answeringHost (answers : List (Nat × List UInt8)) : StorvscHost := fun clock =>
  match answers[clock / 2]? with
  | none => .idle
  | some (size, bytes) =>
    if clock % 2 = 0 then .idle
    else
      let transaction := UInt64.ofNat (5 + clock / 2)
      { outbound := id
        inbound := fun ring => (HvRing.hypervRingWrite hvPacketTypeCompletion 0 transaction (completionOf size) ring).2
        bounce := fun _ i => bytes.getD i 0
        completes := fun id => id = transaction
        signalled := true }

/-- Two sectors go through a bounce buffer of one. -/
theorem storage_transfer_covers_two :
    let host := answeringHost [(512, [1]), (512, [2])]
    let run := storageTransfer host false 7 2 readyMachine
    run.1 = .ok () ∧ Covers false readyMachine.buffer run.2.buffer (storageCommands host false 7 2 readyMachine) 7 9 0 := by
  have hok : ∀ c ∈ storageCommands (answeringHost [(512, [1]), (512, [2])]) false 7 2 readyMachine, c.result = .ok () := by
    decide +kernel
  obtain ⟨hbelow, -⟩ := storage_transfer_covers _ readyMachine false 7 2 ⟨64, 512, .ready⟩ ⟨by decide, by decide⟩ rfl hok
  obtain ⟨hresult, hcovers, -⟩ := hbelow (.inr (by decide))
  exact ⟨hresult, hcovers⟩

/-- A disk of more sectors than a command can name is selected and published, and its last sector cannot be read. -/
theorem storage_transfer_stops :
    let host := answeringHost [(36, []), (8, [255, 255, 255, 255, 0, 0, 2, 0]), (32, [0, 0, 0, 1, 0, 0, 0, 0, 0, 0, 2, 0])]
    let selected := storvscSelectLun host 0 readyMachine
    selected.1 = .ok () ∧ BounceAccepted selected.2.driver.bounceSize ∧
      storvscPublish selected.2.driver = .ok ⟨2 ^ 32 + 1, 512, .ready⟩ ∧
      (∀ c ∈ storageCommands host false (2 ^ 32) 1 selected.2, c.result = .ok ()) ∧
      (storageTransfer host false (2 ^ 32) 1 selected.2).1 = .error .outOfRange := by
  refine ⟨by decide +kernel, ⟨by decide +kernel, by decide +kernel⟩, by decide +kernel, ?_, by decide +kernel⟩
  decide +kernel

end StorvscProgram
end InferenceOS
