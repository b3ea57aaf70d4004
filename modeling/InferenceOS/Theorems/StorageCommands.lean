import InferenceOS.Drivers.Storvsc

/-! The users of the bounce buffer of the storage driver. A command that succeeds has been completed by the host; one that the
    driver gives up stays with the host, and only the timeout keeps later transfers from the bounce buffer. -/

namespace InferenceOS
open Program StorvscCall

/-- The bounce buffer is never given away under a transfer that the host may still carry out. -/
def StorvscMachine.Exclusive (s : StorvscMachine) : Prop := ∀ p ∈ s.published, p.usesBounce = true → p.outstanding = []

/-- A driver that is ready has no command left at the host. -/
def StorvscCall.Safe (s : StorvscMachine) : StorvscCall → Prop
  | .read _ _ | .write _ _ => s.driver.ready = true → s.outstanding = []
  | .flush => True
  | .selectLun _ => s.driver.protocolVersion ≠ 0 → s.outstanding = []

/-- Runs of calls that meet a condition, with turns of the host between them. -/
inductive StorvscRun (host : StorvscHost) (P : StorvscMachine → StorvscCall → Prop) (s : StorvscMachine) : StorvscMachine → Prop where
  | start : StorvscRun host P s s
  | turn {t : StorvscMachine} : StorvscRun host P s t → StorvscRun host P s (StorvscProgram.hostTurn host t)
  | call {t : StorvscMachine} {c : StorvscCall} : StorvscRun host P s t → P t c → StorvscRun host P s (c.run host t).2

namespace StorvscProgram
open StorvscMachine
variable {transferSize : Nat}

variable {host : StorvscHost} {s : StorvscMachine} {transaction : UInt64}

theorem hostTurn_exclusive (h : s.Exclusive) : (hostTurn host s).Exclusive := h

theorem hostTurn_outstanding : ∀ id ∈ (hostTurn host s).outstanding, id ∈ s.outstanding := fun _ hid => (List.mem_filter.mp hid).1

theorem hostTurn_found {id : UInt64} (h : completionFound (hostTurn host s).inbound = some id) : id ∉ (hostTurn host s).outstanding := by
  intro hid
  have hkept := (List.mem_filter.mp hid).2
  rw [show completionFound ((host s.clock).inbound s.inbound) = some id from h] at hkept
  simp at hkept

theorem ringRead_not_timeout {n : Nat} {ring : HvRing} :
    wp (HvRing.hypervRingRead n) (fun _ _ => True) (fun e _ => e.1 ≠ .timeout) ring := by
  unfold HvRing.hypervRingRead
  simp

theorem ringWrite_not_timeout {type flags : UInt16} {payload : List UInt8} {ring : HvRing} :
    wp (HvRing.hypervRingWrite type flags transaction payload) (fun _ _ => True) (fun e _ => e ≠ .timeout) ring := by
  unfold HvRing.hypervRingWrite
  simp [wp_ite]

theorem ringWriteGpaDirect_not_timeout {flags : UInt16} {payload : List UInt8} {dataPhysical dataSize : Nat} {ring : HvRing} :
    wp (HvRing.hypervRingWriteGpaDirect flags transaction payload dataPhysical dataSize) (fun _ _ => True) (fun e _ => e ≠ .timeout)
      ring := by
  unfold HvRing.hypervRingWriteGpaDirect
  simp [wp_ite]

theorem vmbusChannelWrite_spec {usesBounce : Bool} {write : Program IosError HvRing Bool}
    (hwrite : ∀ ring, wp write (fun _ _ => True) (fun e _ => e ≠ .timeout) ring) (h : s.Exclusive)
    (hfree : usesBounce = true → s.outstanding = []) :
    wp (vmbusChannelWrite host transaction usesBounce write)
      (fun _ t => t.Exclusive ∧ t.driver = s.driver ∧ ∀ id ∈ t.outstanding, id ∈ s.outstanding ∨ id = transaction)
      (fun e t => t.Exclusive ∧ e ≠ .timeout) s := by
  unfold vmbusChannelWrite onOutbound publish
  simp only [wp_bind, wp_get, wp_failIf, wp_modify, wp_zoom]
  refine ⟨fun _ => ⟨h, by decide⟩, fun _ => ?_⟩
  refine wp_mono (hwrite _) (fun signalHost ring _ => ?_) fun e ring he => ⟨h, he⟩
  have hpublished : ∀ p ∈ s.published ++ [⟨transaction, usesBounce, (hostTurn host s).outstanding⟩], p.usesBounce = true →
      p.outstanding = [] := by
    intro p hp hbounce
    obtain hp | hp := List.mem_append.mp hp
    · exact h p hp hbounce
    · rw [List.mem_singleton.mp hp] at hbounce ⊢
      refine List.eq_nil_iff_forall_not_mem.mpr fun id hid => ?_
      have hmem := hostTurn_outstanding id hid
      rw [hfree hbounce] at hmem
      cases hmem
  refine ⟨fun _ => ⟨hpublished, by decide⟩, fun _ => ⟨hpublished, rfl, fun id hid => ?_⟩⟩
  obtain hid | hid := List.mem_append.mp hid
  · exact .inl (hostTurn_outstanding id hid)
  · exact .inr (List.mem_singleton.mp hid)

theorem vmbusChannelRead_spec (h : s.Exclusive) :
    wp (vmbusChannelRead host)
      (fun packet t => t.Exclusive ∧ t.driver = s.driver ∧ (∀ id ∈ t.outstanding, id ∈ s.outstanding) ∧
        (IsCompletion packet → packet.transactionId ∉ t.outstanding))
      (fun e t => t.Exclusive ∧ t.driver = s.driver ∧ (∀ id ∈ t.outstanding, id ∈ s.outstanding) ∧ e ≠ .timeout) s := by
  unfold vmbusChannelRead
  simp only [wp_bind, wp_get, wp_failIf, wp_modify]
  refine ⟨fun _ => ⟨h, trivial, fun id hid => hid, by decide⟩, fun _ => ?_⟩
  have hnot := @ringRead_not_timeout vstorPacketSize (hostTurn host s).inbound
  rcases hr : HvRing.hypervRingRead vstorPacketSize (hostTurn host s).inbound with ⟨e | packet, ring⟩
  · have hne := wp_error hnot hr
    exact ⟨h, rfl, hostTurn_outstanding, hne⟩
  · refine ⟨h, rfl, hostTurn_outstanding, fun hcompletion => hostTurn_found ?_⟩
    unfold completionFound
    rw [hr]
    exact if_pos hcompletion

theorem waitFrom_spec : ∀ {n : Nat} {s : StorvscMachine}, s.Exclusive →
    wp (waitFrom host transaction n)
      (fun _ t => t.Exclusive ∧ t.driver = s.driver ∧ ∀ id ∈ t.outstanding, id ∈ s.outstanding ∧ id ≠ transaction)
      (fun e t => t.Exclusive ∧ (e = .timeout → t.driver.ready = false)) s
  | 0, _, h => ⟨h, fun _ => rfl⟩
  | n + 1, s, h => by
    rw [waitFrom, wp_bind, wp_attempt]
    refine wp_mono (vmbusChannelRead_spec h) (fun packet t ht => ?_) fun e t ht => ?_
    · obtain ⟨hexclusive, hdriver, hkept, hcompleted⟩ := ht
      rw [wp_bind, wp_failIf]
      refine ⟨fun _ => ⟨hexclusive, fun hno => (nomatch hno)⟩, fun hgood => ?_⟩
      rw [wp_bind, wp_failIf]
      refine ⟨fun _ => ⟨hexclusive, fun hno => (nomatch hno)⟩, fun _ => ⟨hexclusive, hdriver, fun id hid => ⟨hkept id hid, ?_⟩⟩⟩
      simp only [not_or, not_not] at hgood
      rintro rfl
      exact hcompleted ⟨hgood.1, hgood.2.2.1, hgood.2.2.2⟩ (hgood.2.1 ▸ hid)
    · obtain ⟨hexclusive, hdriver, hkept, hne⟩ := ht
      have hagain : wp (waitFrom host transaction n)
          (fun _ u => u.Exclusive ∧ u.driver = s.driver ∧ ∀ id ∈ u.outstanding, id ∈ s.outstanding ∧ id ≠ transaction)
          (fun e u => u.Exclusive ∧ (e = .timeout → u.driver.ready = false)) t :=
        wp_mono (waitFrom_spec hexclusive)
          (fun _ u hu => ⟨hu.1, hu.2.1.trans hdriver, fun id hid => ⟨hkept id (hu.2.2 id hid).1, (hu.2.2 id hid).2⟩⟩) fun _ _ hu => hu
      cases e
      all_goals first | exact hagain | exact ⟨hexclusive, fun hno => absurd hno hne⟩

theorem submitScsi_spec {packet : List UInt8} {bouncePhysical : Nat} (h : s.Exclusive)
    (hfree : transferSize ≠ 0 → s.outstanding = []) :
    wp (submitScsi host transaction packet bouncePhysical transferSize)
      (fun _ t => t.Exclusive ∧ t.driver = s.driver ∧ ∀ id ∈ t.outstanding, id ∈ s.outstanding ∨ id = transaction)
      (fun e t => t.Exclusive ∧ e ≠ .timeout) s := by
  unfold submitScsi
  split
  · exact vmbusChannelWrite_spec (fun _ => ringWrite_not_timeout) h fun hno => (nomatch hno)
  · exact vmbusChannelWrite_spec (fun _ => ringWriteGpaDirect_not_timeout) h fun _ => hfree ‹_›

theorem executeScsi_spec {cdb : ScsiCdb} {cdbLength : Nat} {direction : StorvscDirection} (h : s.Exclusive)
    (hfree : transferSize ≠ 0 → s.outstanding = []) :
    wp (executeScsi host cdb cdbLength direction transferSize)
      (fun _ t => t.Exclusive ∧ t.driver.ready = s.driver.ready ∧ ∀ id ∈ t.outstanding, id ∈ s.outstanding)
      (fun e t => t.Exclusive ∧ (e = .timeout → t.driver.ready = false)) s := by
  unfold executeScsi onDriver
  rw [wp_bind, wp_get, wp_bind, wp_modify, wp_bind, wp_failIf]
  refine ⟨fun _ => ⟨h, fun hno => (nomatch hno)⟩, fun _ => ?_⟩
  rw [wp_bind]
  refine wp_mono (submitScsi_spec h hfree) (fun _ t ht => ?_) fun e t ht => ⟨ht.1, fun hno => absurd hno ht.2⟩
  obtain ⟨hexclusive, hdriver, hkept⟩ := ht
  unfold waitCompletion
  rw [wp_bind, wp_bind, wp_get]
  refine wp_mono (waitFrom_spec hexclusive) (fun response u hu => ?_) fun _ _ hu => hu
  rw [wp_failIf]
  refine ⟨fun _ => ⟨hu.1, fun hno => (nomatch hno)⟩, fun _ => ⟨hu.1, ?_, fun id hid => ?_⟩⟩
  · rw [hu.2.1, hdriver]
  · obtain ⟨hmem, hne⟩ := hu.2.2 id hid
    exact (hkept id hmem).resolve_right hne

theorem executeScsi_free {cdb : ScsiCdb} {cdbLength : Nat} {direction : StorvscDirection} (h : s.Exclusive)
    (hfree : s.outstanding = []) :
    wp (executeScsi host cdb cdbLength direction transferSize)
      (fun _ t => t.Exclusive ∧ t.outstanding = [] ∧ t.driver.ready = s.driver.ready)
      (fun e t => t.Exclusive ∧ (e = .timeout → t.driver.ready = false)) s := by
  refine wp_mono (executeScsi_spec h fun _ => hfree) (fun _ t ht => ⟨ht.1, ?_, ht.2.1⟩) fun _ _ ht => ht
  refine List.eq_nil_iff_forall_not_mem.mpr fun id hid => ?_
  have hmem := ht.2.2 id hid
  rw [hfree] at hmem
  cases hmem

theorem transferFrom_spec {write : Bool} : ∀ {n firstSector remaining offset : Nat} {s : StorvscMachine}, s.Exclusive →
    s.outstanding = [] →
    wp (transferFrom host write n firstSector remaining offset) (fun _ t => t.Exclusive ∧ t.outstanding = [])
      (fun e t => t.Exclusive ∧ (e = .timeout → t.driver.ready = false)) s
  | 0, _, _, _, _, h, hfree => ⟨h, hfree⟩
  | n + 1, firstSector, remaining, offset, s, h, hfree => by
    rw [transferFrom, wp_ite]
    refine ⟨fun _ => ⟨h, hfree⟩, fun _ => ?_⟩
    rw [wp_bind, wp_get, wp_bind, wp_failIf]
    refine ⟨fun _ => ⟨h, fun hno => (nomatch hno)⟩, fun _ => ?_⟩
    rw [wp_bind, wp_ofExcept]
    refine ⟨fun cdb _ => ?_, fun e he => ⟨h, fun hno => ?_⟩⟩
    · rw [wp_bind, wp_modify, wp_bind]
      have hbefore : (if write = true then
          { s with bounce := copyBytes s.bounce 0 s.buffer offset (min (min (s.driver.bounceSize / 512) (2 ^ 16 - 1)) remaining * 512) }
            else s).Exclusive ∧
          (if write = true then
          { s with bounce := copyBytes s.bounce 0 s.buffer offset (min (min (s.driver.bounceSize / 512) (2 ^ 16 - 1)) remaining * 512) }
            else s).outstanding = [] := by
        split
        · exact ⟨h, hfree⟩
        · exact ⟨h, hfree⟩
      refine wp_mono (executeScsi_free hbefore.1 hbefore.2) (fun _ t ht => ?_) fun _ _ ht => ht
      rw [wp_bind, wp_modify]
      split
      · exact transferFrom_spec ht.1 ht.2.1
      · exact transferFrom_spec ht.1 ht.2.1
    · rw [hno] at he
      unfold buildRw10Cdb at he
      split at he
      · cases he
      · cases he

theorem storageTransfer_spec {write : Bool} {firstSector sectorCount : Nat} (h : s.Exclusive)
    (hfree : s.driver.ready = true → s.outstanding = []) :
    wp (storageTransfer host write firstSector sectorCount) (fun _ t => t.Exclusive ∧ t.outstanding = [])
      (fun e t => t.Exclusive ∧ (e = .timeout → t.driver.ready = false)) s := by
  unfold storageTransfer
  rw [wp_bind, wp_get, wp_bind, wp_failIf]
  exact ⟨fun hready => ⟨h, fun _ => hready⟩, fun hready => transferFrom_spec h (hfree (by simpa using hready))⟩

theorem storvscFlush_spec (h : s.Exclusive) :
    wp (storvscFlush host)
      (fun _ t => t.Exclusive ∧ s.driver.ready = true ∧ ∀ id ∈ t.outstanding, id ∈ s.outstanding)
      (fun e t => t.Exclusive ∧ (e = .timeout → t.driver.ready = false)) s := by
  unfold storvscFlush
  rw [wp_bind, wp_get, wp_bind, wp_failIf]
  refine ⟨fun hready => ⟨h, fun _ => hready⟩, fun hready => ?_⟩
  exact wp_mono (executeScsi_spec h fun hno => absurd rfl hno) (fun _ t ht => ⟨ht.1, by simpa using hready, ht.2.2⟩) fun _ _ ht => ht

theorem parseCapacity10_not_timeout {response : Nat → UInt8} : parseCapacity10 response ≠ .error .timeout := by
  unfold parseCapacity10
  intro h
  split at h
  · cases h
  · split at h
    · cases h
    · cases h

theorem probeCapacity_spec (h : s.Exclusive) (hfree : s.outstanding = []) :
    wp (probeCapacity host) (fun _ t => t.Exclusive ∧ t.outstanding = [])
      (fun e t => t.Exclusive ∧ (e = .timeout → t.driver.ready = false)) s := by
  unfold probeCapacity
  rw [wp_bind]
  refine wp_mono (executeScsi_free h hfree) (fun _ t ht => ?_) fun _ _ ht => ht
  obtain ⟨hexclusive, hfree₁, -⟩ := ht
  rw [wp_bind, wp_get]
  have hnot := @parseCapacity10_not_timeout t.bounce
  generalize parseCapacity10 t.bounce = r at hnot ⊢
  cases r with
  | ok capacity => exact ⟨hexclusive, hfree₁⟩
  | error e =>
    cases e with
    | outOfRange =>
      dsimp only
      rw [wp_bind]
      refine wp_mono (executeScsi_free hexclusive hfree₁) (fun _ u hu => ?_) fun _ _ hu => hu
      rw [wp_bind, wp_get, wp_bind, wp_failIf]
      exact ⟨fun _ => ⟨hu.1, fun hno => (nomatch hno)⟩, fun _ => ⟨hu.1, hu.2.1⟩⟩
    | timeout => exact absurd rfl hnot
    | _ => exact ⟨hexclusive, fun hno => (nomatch hno)⟩

theorem probeDisk_spec (h : s.Exclusive) (hfree : s.outstanding = []) :
    wp (probeDisk host) (fun _ t => t.Exclusive ∧ t.outstanding = [])
      (fun e t => t.Exclusive ∧ (e = .timeout → t.driver.ready = false)) s := by
  unfold probeDisk onDriver
  rw [wp_bind, wp_modify, wp_bind]
  refine wp_mono (executeScsi_free h hfree) (fun _ t ht => ?_) fun _ _ ht => ht
  rw [wp_bind, wp_get, wp_bind, wp_failIf]
  refine ⟨fun _ => ⟨ht.1, fun hno => (nomatch hno)⟩, fun _ => ?_⟩
  rw [wp_bind]
  refine wp_mono (probeCapacity_spec ht.1 ht.2.1) (fun capacity u hu => ?_) fun _ _ hu => hu
  rw [wp_bind, wp_failIf, wp_modify]
  exact ⟨fun _ => ⟨hu.1, fun hno => (nomatch hno)⟩, fun _ => hu⟩

theorem storvscSelectLun_spec {lun : UInt8} (h : s.Exclusive) (hfree : s.driver.protocolVersion ≠ 0 → s.outstanding = []) :
    wp (storvscSelectLun host lun) (fun _ t => t.Exclusive ∧ t.outstanding = [])
      (fun e t => t.Exclusive ∧ (e = .timeout → t.driver.ready = false)) s := by
  unfold storvscSelectLun onDriver
  rw [wp_bind, wp_get, wp_bind, wp_failIf]
  refine ⟨fun _ => ⟨h, fun hno => (nomatch hno)⟩, fun hversion => ?_⟩
  rw [wp_bind, wp_modify, wp_bind]
  refine wp_mono (probeDisk_spec (show StorvscMachine.Exclusive _ from h) (hfree hversion)) (fun _ t ht => ?_) fun _ _ ht => ht
  rw [wp_modify]
  exact ht

end StorvscProgram

open StorvscProgram

variable {host : StorvscHost} {s t : StorvscMachine} {c : StorvscCall}

theorem StorvscCall.run_spec (h : s.Exclusive) (hsafe : c.Safe s) :
    wp (c.run host) (fun _ t => t.Exclusive ∧ (s.outstanding = [] ∨ s.driver.ready = false → t.outstanding = []))
      (fun e t => t.Exclusive ∧ (e = .timeout → t.driver.ready = false)) s := by
  cases c with
  | read firstSector sectorCount => exact wp_mono (storageTransfer_spec h hsafe) (fun _ t ht => ⟨ht.1, fun _ => ht.2⟩) fun _ _ ht => ht
  | write firstSector sectorCount => exact wp_mono (storageTransfer_spec h hsafe) (fun _ t ht => ⟨ht.1, fun _ => ht.2⟩) fun _ _ ht => ht
  | selectLun lun => exact wp_mono (storvscSelectLun_spec h hsafe) (fun _ t ht => ⟨ht.1, fun _ => ht.2⟩) fun _ _ ht => ht
  | flush =>
    refine wp_mono (storvscFlush_spec h) (fun _ t ht => ⟨ht.1, fun hs => ?_⟩) fun _ _ ht => ht
    obtain ⟨-, hready, hkept⟩ := ht
    obtain hfree | hclosed := hs
    · refine List.eq_nil_iff_forall_not_mem.mpr fun id hid => ?_
      have hmem := hkept id hid
      rw [hfree] at hmem
      cases hmem
    · rw [hready] at hclosed
      cases hclosed

theorem StorvscRun.exclusive (hrun : StorvscRun host (fun s c => c.Safe s) s t) (h : s.Exclusive) : t.Exclusive := by
  induction hrun with
  | start => exact h
  | turn _ ih => exact hostTurn_exclusive ih
  | call _ hsafe ih => exact of_wp (wp_mono (run_spec ih hsafe) (fun _ _ ht => ht.1) fun _ _ ht => ht.1)

/-- The bounce buffer has one user at a time in every run of safe calls. The driver itself keeps reads, writes and flushes safe
    while its calls succeed or run out of time. -/
theorem bounce_exclusive (host : StorvscHost) (s : StorvscMachine) :
    (∀ t, StorvscRun host (fun s c => c.Safe s) s t → s.Exclusive → t.Exclusive) ∧
      ∀ c : StorvscCall, s.Exclusive → c.Safe s → s.outstanding = [] ∨ s.driver.ready = false →
        (c.run host s).1 = .ok () ∨ (c.run host s).1 = .error .timeout →
          ∀ d : StorvscCall, (∀ lun, d ≠ .selectLun lun) → d.Safe (c.run host s).2 := by
  refine ⟨fun t hrun h => hrun.exclusive h, fun c h hsafe hstart hend d hd => ?_⟩
  have hspec := @run_spec host s c h hsafe
  have hsettled : (c.run host s).2.driver.ready = true → (c.run host s).2.outstanding = [] := by
    obtain hok | htimeout := hend
    · have hok' := (wp_ok hspec (run_eq hok)).2 hstart
      exact fun _ => hok'
    · have hclosed := (wp_error hspec (run_eq htimeout)).2 rfl
      exact fun hready => absurd (hready.symm.trans hclosed) Bool.noConfusion
  cases d with
  | read firstSector sectorCount => exact hsettled
  | write firstSector sectorCount => exact hsettled
  | flush => trivial
  | selectLun lun => exact absurd rfl (hd lun)

def StorvscHostTurn.idle : StorvscHostTurn := ⟨id, id, id, fun _ => false, true⟩

def emptyRing : HvRing := ⟨⟨0, 0, 0, 0⟩, fun _ => 0, 4096⟩

def readyMachine : StorvscMachine where
  driver := ⟨8192, 512, 64, 5, 2, 0x0602, 0, true, "ready"⟩
  channelOpen := true
  outbound := emptyRing
  inbound := emptyRing
  bounce := fun _ => 0
  buffer := fun _ => 0
  clock := 0
  outstanding := []
  published := []

/-- A read that the host never answers closes the driver. -/
theorem bounce_exclusive_idle :
    let r := (read 0 1).run (fun _ => .idle) readyMachine
    r.2.Exclusive ∧ (write 0 1).Safe r.2 := by
  have h : readyMachine.Exclusive := fun p hp => (nomatch hp)
  have hsafe : (read 0 1).Safe readyMachine := fun _ => rfl
  obtain ⟨hrun, hsettled⟩ := bounce_exclusive (fun _ => .idle) readyMachine
  exact ⟨hrun _ (.call .start hsafe) h,
    hsettled _ h hsafe (.inl rfl) (.inr (by decide +kernel)) (.write 0 1) fun lun hno => (nomatch hno)⟩

def chattyHost : StorvscHost := fun clock =>
  if clock = 1 then
    { StorvscHostTurn.idle with inbound := fun ring => (HvRing.hypervRingWrite hvPacketTypeDataInband 0 0 (List.replicate 64 0) ring).2 }
  else StorvscHostTurn.idle

/-- The driver gives up a read for an unexpected packet, and the next read publishes a command for the same buffer. -/
theorem bounce_shared :
    let first := (read 0 1).run chattyHost readyMachine
    let second := (read 8 1).run chattyHost first.2
    readyMachine.Exclusive ∧ first.1 = .error .protocol ∧
      StorvscRun chattyHost (fun _ _ => True) readyMachine second.2 ∧ ¬second.2.Exclusive := by
  refine ⟨fun p hp => (nomatch hp), by decide +kernel, .call (.call .start trivial) trivial, fun h => ?_⟩
  have hpublished : ((read 8 1).run chattyHost ((read 0 1).run chattyHost readyMachine).2).2.published =
      [⟨5, true, []⟩, ⟨6, true, [5]⟩] := by decide +kernel
  have hlast := h ⟨6, true, [5]⟩ (by rw [hpublished]; decide) rfl
  cases hlast

end InferenceOS
