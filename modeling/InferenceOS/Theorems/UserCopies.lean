import InferenceOS.Syscall.UserCopy
import Mathlib.Data.Option.Basic

/-! User copies. The tables of the process decide at each page whether the copy goes on, and what was copied before stays
    copied. -/

namespace InferenceOS
open Program

namespace VirtualMemory
variable {memory : VirtualMemory} {addressSpace : AddressSpace} {address byteCount k : Nat} {entry : BitVec 64} {write : Bool}
  {source : Nat → UInt8}

def nextTable (entry : BitVec 64) : Option Nat :=
  if entry &&& ptePresent = 0 ∨ entry &&& pteLarge ≠ 0 then none else some (tableFromEntry entry)

/-- The entry that maps the page of an address, four levels down. -/
def leafOf (memory : VirtualMemory) (addressSpace : AddressSpace) (address : Nat) : Option (BitVec 64) :=
  if addressSpace.rootAddress = 0 then none
  else
    (nextTable (memory.words addressSpace.rootAddress (pml4Index address))).bind fun pdpt =>
    (nextTable (memory.words pdpt (pdptIndex address))).bind fun pd =>
    (nextTable (memory.words pd (pdIndex address))).bind fun pt =>
      if memory.words pt (ptIndex address) &&& ptePresent = 0 then none else some (memory.words pt (ptIndex address))

/-- The physical address of a byte whose page is mapped for the user, and writable where `write` asks for it. -/
def userByte (memory : VirtualMemory) (addressSpace : AddressSpace) (write : Bool) (address : Nat) : Option Nat :=
  (memory.leafOf addressSpace address).bind fun leaf =>
    if leaf &&& pteUser = 0 ∨ write ∧ leaf &&& pteWritable = 0 then none else some (tableFromEntry leaf + address % pageSize)

/-- The tables in which the processor looks up an address. -/
inductive LookedUp (memory : VirtualMemory) (addressSpace : AddressSpace) (address : Nat) : Nat → Prop
  | pml4 : LookedUp memory addressSpace address addressSpace.rootAddress
  | pdpt {pdpt : Nat} (hpdpt : nextTable (memory.words addressSpace.rootAddress (pml4Index address)) = some pdpt) :
    LookedUp memory addressSpace address pdpt
  | pd {pdpt pd : Nat} (hpdpt : nextTable (memory.words addressSpace.rootAddress (pml4Index address)) = some pdpt)
    (hpd : nextTable (memory.words pdpt (pdptIndex address)) = some pd) : LookedUp memory addressSpace address pd
  | pt {pdpt pd pt : Nat} (hpdpt : nextTable (memory.words addressSpace.rootAddress (pml4Index address)) = some pdpt)
    (hpd : nextTable (memory.words pdpt (pdptIndex address)) = some pd)
    (hpt : nextTable (memory.words pd (pdIndex address)) = some pt) : LookedUp memory addressSpace address pt

/-- No user page that may be written holds a page table of the address space. -/
def TablesProtected (memory : VirtualMemory) (addressSpace : AddressSpace) : Prop :=
  ∀ address other physicalAddress table, userVirtualStart ≤ address → address < userVirtualEnd → userVirtualStart ≤ other →
    other < userVirtualEnd → memory.userByte addressSpace true address = some physicalAddress →
    memory.LookedUp addressSpace other table → physicalAddress / pageSize * pageSize ≠ table

theorem nextTable_none (h : entry &&& ptePresent = 0 ∨ entry &&& pteLarge ≠ 0) : nextTable entry = none := if_pos h

theorem nextTable_some (h : ¬(entry &&& ptePresent = 0 ∨ entry &&& pteLarge ≠ 0)) : nextTable entry = some (tableFromEntry entry) :=
  if_neg h

theorem virtualQuery_eq (hcanonical : virtualAddressIsCanonical address = true) :
    (memory.virtualQuery (some addressSpace) address true true).toOption =
      (memory.leafOf addressSpace address).map fun leaf => (tableFromEntry leaf + address % pageSize, queryFlags leaf) := by
  unfold virtualQuery virtualTranslate leafOf locateLeaf
  dsimp only
  rw [if_neg Bool.noConfusion]
  by_cases hroot : addressSpace.rootAddress = 0
  · rw [if_pos (Or.inr (Or.inl hroot)), if_pos hroot]
    rfl
  rw [if_neg (fun h => h.elim Bool.noConfusion fun h => h.elim hroot fun h => nomatch h.symm.trans hcanonical), if_neg hroot]
  generalize memory.words addressSpace.rootAddress (pml4Index address) = pml4e
  by_cases h4 : pml4e &&& ptePresent = 0 ∨ pml4e &&& pteLarge ≠ 0
  · rw [nextTable_none h4, if_pos h4]
    rfl
  rw [nextTable_some h4, Option.bind_some]
  simp only [if_neg h4]
  generalize memory.words (tableFromEntry pml4e) (pdptIndex address) = pdpte
  by_cases h3 : pdpte &&& ptePresent = 0 ∨ pdpte &&& pteLarge ≠ 0
  · rw [nextTable_none h3]
    simp only [if_pos h3]
    split <;> [rfl; (split <;> [rfl; (rcases h3 with h3 | h3 <;> contradiction)])]
  rw [nextTable_some h3, Option.bind_some]
  obtain ⟨hpresent, hlarge⟩ := not_or.mp h3
  simp only [if_neg h3, if_neg hpresent, if_neg hlarge]
  generalize memory.words (tableFromEntry pdpte) (pdIndex address) = pde
  by_cases h2 : pde &&& ptePresent = 0 ∨ pde &&& pteLarge ≠ 0
  · rw [nextTable_none h2]
    simp only [if_pos h2]
    split <;> [rfl; (split <;> [rfl; (rcases h2 with h2 | h2 <;> contradiction)])]
  rw [nextTable_some h2, Option.bind_some]
  obtain ⟨hpresent, hlarge⟩ := not_or.mp h2
  simp only [if_neg h2, if_neg hpresent, if_neg hlarge]
  by_cases h1 : memory.words (tableFromEntry pde) (ptIndex address) &&& ptePresent = 0
  · rw [if_pos h1, if_pos h1]
    rfl
  · rw [if_neg h1, if_neg h1]
    rfl

theorem permits_queryFlags {leaf : BitVec 64} :
    UserCopy.Permits (queryFlags leaf) write ↔ ¬(leaf &&& pteUser = 0 ∨ write ∧ leaf &&& pteWritable = 0) := by
  have huser : queryFlags leaf &&& vmUser = 0 ↔ leaf &&& pteUser = 0 := by
    unfold queryFlags
    split_ifs <;> simp_all [vmWrite, vmExecute, vmUser, vmGlobal, vmOwned]
  have hwrite : queryFlags leaf &&& vmWrite = 0 ↔ leaf &&& pteWritable = 0 := by
    unfold queryFlags
    split_ifs <;> simp_all [vmWrite, vmExecute, vmUser, vmGlobal, vmOwned]
  unfold UserCopy.Permits
  rw [huser, hwrite]

theorem query_userByte (hcanonical : virtualAddressIsCanonical address = true) :
    memory.userByte addressSpace write address =
      (memory.virtualQuery (some addressSpace) address true true).toOption.bind fun found =>
        if UserCopy.Permits found.2 write then some found.1 else none := by
  rw [virtualQuery_eq hcanonical, userByte]
  cases memory.leafOf addressSpace address with
  | none => rfl
  | some leaf =>
    rw [Option.map_some, Option.bind_some, Option.bind_some]
    by_cases hdenied : leaf &&& pteUser = 0 ∨ write ∧ leaf &&& pteWritable = 0
    · rw [if_pos hdenied, if_neg fun h => permits_queryFlags.mp h hdenied]
    · rw [if_neg hdenied, if_pos (permits_queryFlags.mpr hdenied)]

theorem canonical_of_user (h : address < userVirtualEnd) : virtualAddressIsCanonical address = true := by
  unfold virtualAddressIsCanonical
  unfold userVirtualEnd at h
  rw [decide_eq_true_eq]
  exact Or.inl (by omega)

theorem userByte_add (h : address % pageSize + k < pageSize) :
    memory.userByte addressSpace write (address + k) = (memory.userByte addressSpace write address).map (· + k) := by
  have hpage : (address + k) / 2 ^ 12 = address / 2 ^ 12 := by
    unfold pageSize at h
    omega
  have hindex : ∀ level, (address + k) / 2 ^ (12 + level) = address / 2 ^ (12 + level) := by
    intro level
    rw [pow_add, ← Nat.div_div_eq_div_mul, ← Nat.div_div_eq_div_mul, hpage]
  have hleaf : memory.leafOf addressSpace (address + k) = memory.leafOf addressSpace address := by
    unfold leafOf pml4Index pdptIndex pdIndex ptIndex
    simp only [hindex 27, hindex 18, hindex 9, hpage]
  unfold userByte
  rw [hleaf]
  cases memory.leafOf addressSpace address with
  | none => rfl
  | some leaf =>
    rw [Option.bind_some, Option.bind_some]
    split
    · rfl
    · rw [Option.map_some]
      refine congrArg some ?_
      rw [Nat.add_mod, Nat.mod_eq_of_lt (a := k) (by omega), Nat.mod_eq_of_lt h, Nat.add_assoc]

theorem userByte_congr {other : VirtualMemory}
    (h : ∀ table, memory.LookedUp addressSpace address table → other.words table = memory.words table) :
    other.userByte addressSpace write address = memory.userByte addressSpace write address := by
  have hleaf : other.leafOf addressSpace address = memory.leafOf addressSpace address := by
    unfold leafOf
    split
    · rfl
    rw [h _ .pml4]
    refine Option.bind_congr fun pdpt hpdpt => ?_
    rw [h _ (.pdpt hpdpt)]
    refine Option.bind_congr fun pd hpd => ?_
    rw [h _ (.pd hpdpt hpd)]
    refine Option.bind_congr fun pt hpt => ?_
    rw [h _ (.pt hpdpt hpd hpt)]
  unfold userByte
  rw [hleaf]

theorem digit_word {b : Bytes 8} {i : Nat} (h : i < 8) : Bytes.digit (BitVec.ofNat 64 (b.toNat 0 8)).toNat i = b.byte i := by
  rw [BitVec.toNat_ofNat, Nat.mod_eq_of_lt (lt_of_lt_of_eq Bytes.toNat_lt (by norm_num))]
  have hsame : (Bytes.ofNat 8 (b.toNat 0 8)).toNat 0 8 = b.toNat 0 8 := by
    rw [@Bytes.toNat_of_digits _ _ (b.toNat 0 8) 8 0 0 fun i hi => ?_]
    · rw [pow_zero, Nat.div_one, Nat.mod_eq_of_lt Bytes.toNat_lt]
    · rw [Nat.zero_add, Bytes.byte_of_lt hi]
      rfl
  have hbyte := Bytes.byte_of_toNat hsame i h
  rwa [Nat.zero_add, Bytes.byte_of_lt h] at hbyte

theorem readByte_writeBytes (h : address % pageSize + byteCount ≤ pageSize) {target : Nat} :
    (writeBytes address byteCount source memory).readByte target =
      if address ≤ target ∧ target < address + byteCount then source (target - address) else memory.readByte target := by
  unfold pageSize at h
  by_cases hpage : target / pageSize * pageSize = address / pageSize * pageSize
  · have htarget : address / pageSize * pageSize + 8 * (target % pageSize / 8) + target % 8 = target := by
      rw [← hpage]
      unfold pageSize
      omega
    unfold readByte writeBytes
    dsimp only
    rw [hpage, Function.update_self, digit_word (Nat.mod_lt _ (by decide)), Bytes.byte_of_lt (Nat.mod_lt _ (by decide)), htarget]
    split
    · rfl
    · unfold readByte
      rw [hpage]
  · have hout : ¬(address ≤ target ∧ target < address + byteCount) := by
      unfold pageSize at hpage
      omega
    rw [if_neg hout]
    unfold readByte writeBytes
    dsimp only
    rw [Function.update_of_ne hpage]

theorem writeBytes_words {page : Nat} (h : address / pageSize * pageSize ≠ page) :
    (writeBytes address byteCount source memory).words page = memory.words page := Function.update_of_ne h.symm _ _

theorem tableFromEntry_aligned : tableFromEntry entry % pageSize = 0 := by
  unfold tableFromEntry
  rw [BitVec.toNat_and, show pageSize = 2 ^ 12 from rfl, ← Nat.and_two_pow_sub_one_eq_mod, Nat.and_assoc,
    show pteAddressMask.toNat &&& 2 ^ 12 - 1 = 0 from rfl, Nat.and_zero]

theorem userByte_mod {p : Nat} (h : memory.userByte addressSpace write address = some p) : p % pageSize = address % pageSize := by
  obtain ⟨leaf, -, hp⟩ := Option.bind_eq_some_iff.mp h
  split at hp
  · cases hp
  · cases hp
    rw [Nat.add_mod, tableFromEntry_aligned, Nat.zero_add, Nat.mod_mod, Nat.mod_mod]

theorem userRange_iff (hpos : byteCount ≠ 0) :
    virtualUserRangeIsValid address byteCount = true ↔ userVirtualStart ≤ address ∧ address + byteCount ≤ userVirtualEnd := by
  unfold virtualUserRangeIsValid userVirtualStart userVirtualEnd
  split
  · simp only [Bool.false_eq_true, false_iff]
    omega
  · rw [decide_eq_true_eq]
    omega

end VirtualMemory

namespace UserCopy
open VirtualMemory
variable {addressSpace : AddressSpace} {userAddress byteCount rounds copied chunk moved p : Nat} {copyToUser clearUser : Bool}
  {physical : Nat → Option Nat} {source : Nat → UInt8} {s t : CopyState} {call : CopyCall}

/-- The first bytes of a range of the user are in the buffer of the kernel. -/
structure Read (physical : Nat → Option Nat) (moved : Nat) (s t : CopyState) : Prop where
  memory : t.memory = s.memory
  bytes : ∀ i < moved, ∃ p, physical i = some p ∧ t.buffer i = s.memory.readByte p
  rest : ∀ i, moved ≤ i → t.buffer i = s.buffer i

/-- The first bytes of a range of the user are those of `source`, the last one of them where several are at one place. -/
structure Written (physical : Nat → Option Nat) (source : Nat → UInt8) (moved : Nat) (s t : CopyState) : Prop where
  buffer : t.buffer = s.buffer
  words : t.memory = { s.memory with words := t.memory.words }
  mapped : ∀ i < moved, (physical i).isSome
  bytes : ∀ i < moved, ∀ p, physical i = some p → (∀ j, i < j → j < moved → physical j ≠ some p) →
    t.memory.readByte p = source i
  rest : ∀ p, (∀ i < moved, physical i ≠ some p) → t.memory.readByte p = s.memory.readByte p
  pages : ∀ page, (∀ i < moved, ∀ p, physical i = some p → p / pageSize * pageSize ≠ page) →
    t.memory.words page = s.memory.words page

/-- What the call did to its first `moved` bytes. -/
def Copied : CopyCall → (Nat → Option Nat) → Nat → CopyState → CopyState → Prop
  | .copyFrom, physical, moved, s, t => Read physical moved s t
  | .copyTo, physical, moved, s, t => Written physical s.buffer moved s t
  | .clear, physical, moved, s, t => Written physical (fun _ => 0) moved s t

theorem Copied.start : Copied call physical 0 s s := by
  have hwritten : ∀ source, Written physical source 0 s s := fun source =>
    ⟨rfl, rfl, fun _ hi => absurd hi (Nat.not_lt_zero _), fun _ hi => absurd hi (Nat.not_lt_zero _), fun _ _ => rfl, fun _ _ => rfl⟩
  cases call with
  | copyFrom => exact ⟨rfl, fun _ hi => absurd hi (Nat.not_lt_zero _), fun _ _ => rfl⟩
  | copyTo => exact hwritten _
  | clear => exact hwritten _

theorem Read.move (h : Read physical copied s t) (hp : ∀ k < chunk, physical (copied + k) = some (p + k)) :
    Read physical (copied + chunk) s (moveChunk p copied chunk false false t) := by
  have hbuffer : ∀ i, (moveChunk p copied chunk false false t).buffer i =
      if copied ≤ i ∧ i < copied + chunk then t.memory.readByte (p + (i - copied)) else t.buffer i := fun _ => rfl
  refine ⟨h.memory, fun i hi => ?_, fun i hi => ?_⟩
  · by_cases hold : i < copied
    · obtain ⟨q, hq, hbyte⟩ := h.bytes i hold
      rw [hbuffer, if_neg (by omega)]
      exact ⟨q, hq, hbyte⟩
    · have hi' := hp (i - copied) (by omega)
      rw [Nat.add_sub_cancel' (Nat.le_of_not_lt hold)] at hi'
      rw [hbuffer, if_pos ⟨Nat.le_of_not_lt hold, hi⟩, h.memory]
      exact ⟨_, hi', rfl⟩
  · rw [hbuffer, if_neg (by omega)]
    exact h.rest i (by omega)

theorem Written.move (h : Written physical source copied s t) (hp : ∀ k < chunk, physical (copied + k) = some (p + k))
    (hpos : 0 < chunk) (hpage : p % pageSize + chunk ≤ pageSize) :
    Written physical source (copied + chunk) s
      { t with memory := writeBytes p chunk (fun i => source (copied + i)) t.memory } := by
  have hchunk : ∀ i, copied ≤ i → i < copied + chunk → physical i = some (p + (i - copied)) := by
    intro i hle hlt
    have hi := hp (i - copied) (by omega)
    rwa [Nat.add_sub_cancel' hle] at hi
  refine ⟨h.buffer, ?_, fun i hi => ?_, fun i hi q hq hlast => ?_, fun q hq => ?_, fun page hpages => ?_⟩
  · exact (congrArg (fun memory => writeBytes p chunk (fun i => source (copied + i)) memory) h.words).trans rfl
  · by_cases hold : i < copied
    · exact h.mapped i hold
    · rw [hchunk i (Nat.le_of_not_lt hold) hi]
      rfl
  · dsimp only
    rw [readByte_writeBytes hpage]
    by_cases hold : i < copied
    · -- A later byte at the same place would be the last one.
      have hout : ¬(p ≤ q ∧ q < p + chunk) := by
        rintro ⟨hle, hlt⟩
        refine hlast (copied + (q - p)) (by omega) (by omega) ?_
        rw [hp (q - p) (by omega), Nat.add_sub_cancel' hle]
      rw [if_neg hout]
      exact h.bytes i hold q hq fun j hij hj => hlast j hij (by omega)
    · rw [hchunk i (Nat.le_of_not_lt hold) hi] at hq
      cases hq
      rw [if_pos ⟨by omega, by omega⟩]
      exact congrArg source (by omega)
  · dsimp only
    have hout : ¬(p ≤ q ∧ q < p + chunk) := by
      rintro ⟨hle, hlt⟩
      refine hq (copied + (q - p)) (by omega) ?_
      rw [hp (q - p) (by omega), Nat.add_sub_cancel' hle]
    rw [readByte_writeBytes hpage, if_neg hout]
    exact h.rest q fun i hi => hq i (by omega)
  · have hout : p / pageSize * pageSize ≠ page := hpages copied (by omega) p (hp 0 hpos)
    dsimp only
    rw [writeBytes_words hout]
    exact h.pages page fun i hi => hpages i (by omega)

theorem Copied.move (h : Copied call physical copied s t) (hp : ∀ k < chunk, physical (copied + k) = some (p + k))
    (hpos : 0 < chunk) (hpage : p % pageSize + chunk ≤ pageSize) :
    Copied call physical (copied + chunk) s (moveChunk p copied chunk call.copyToUser call.clearUser t) := by
  cases call with
  | copyFrom => exact Read.move h hp
  | copyTo =>
    have hmoved := Written.move h hp hpos hpage
    have hsource : (fun i => s.buffer (copied + i)) = fun i => t.buffer (copied + i) := by rw [h.buffer]
    rw [hsource] at hmoved
    exact hmoved
  | clear => exact Written.move h hp hpos hpage

theorem copyFrom_round (hmore : copied < byteCount) (hrange : userAddress + byteCount ≤ userVirtualEnd) :
    copyFrom addressSpace userAddress byteCount copyToUser clearUser (rounds + 1) copied s =
      match s.memory.userByte addressSpace copyToUser (userAddress + copied) with
      | none => (.error .badAddress, s)
      | some p => copyFrom addressSpace userAddress byteCount copyToUser clearUser rounds
          (copied + chunkSize userAddress byteCount copied)
          (moveChunk p copied (chunkSize userAddress byteCount copied) copyToUser clearUser s) := by
  rw [copyFrom, if_pos hmore, query_userByte (canonical_of_user (by omega))]
  rw [get_bind]
  cases s.memory.virtualQuery (some addressSpace) (userAddress + copied) true true with
  | error status => rfl
  | ok found =>
    obtain ⟨p, flags⟩ := found
    dsimp only [Except.toOption, Option.bind_some]
    by_cases hpermits : Permits flags copyToUser
    · rw [failIf_pass (not_not.mpr hpermits), if_pos hpermits]
      rfl
    · rw [failIf_bind hpermits, if_neg hpermits]
      rfl

theorem Copied.userByte (h : Copied call (fun i => s.memory.userByte addressSpace call.copyToUser (userAddress + i)) copied s t)
    (hprotected : call.copyToUser = true → s.memory.TablesProtected addressSpace) (hstart : userVirtualStart ≤ userAddress)
    (hend : userAddress + byteCount ≤ userVirtualEnd) (hle : copied ≤ byteCount) {i : Nat} (hi : i < byteCount) :
    t.memory.userByte addressSpace call.copyToUser (userAddress + i) =
      s.memory.userByte addressSpace call.copyToUser (userAddress + i) := by
  have hwritten : ∀ source, call.copyToUser = true →
      Written (fun i => s.memory.userByte addressSpace call.copyToUser (userAddress + i)) source copied s t →
      t.memory.userByte addressSpace call.copyToUser (userAddress + i) =
        s.memory.userByte addressSpace call.copyToUser (userAddress + i) := by
    intro source hwrite hw
    refine userByte_congr fun table htable => hw.pages table fun j hj p hp => ?_
    rw [hwrite] at hp
    exact hprotected hwrite _ _ p table (by omega) (by omega) (by omega) (by omega) hp htable
  cases call with
  | copyFrom => rw [h.memory]
  | copyTo => exact hwritten _ rfl h
  | clear => exact hwritten _ rfl h

theorem chunkSize_spec (hmore : copied < byteCount) :
    0 < chunkSize userAddress byteCount copied ∧ copied + chunkSize userAddress byteCount copied ≤ byteCount ∧
      (userAddress + copied) % pageSize + chunkSize userAddress byteCount copied ≤ pageSize ∧
      (copied + chunkSize userAddress byteCount copied = byteCount ∨
        (userAddress + (copied + chunkSize userAddress byteCount copied)) % pageSize = 0) := by
  unfold chunkSize pageSize
  dsimp only
  split <;> omega

theorem copyFrom_copied (hprotected : call.copyToUser = true → s.memory.TablesProtected addressSpace)
    (hstart : userVirtualStart ≤ userAddress) (hend : userAddress + byteCount ≤ userVirtualEnd) :
    ∀ {rounds copied : Nat} {t : CopyState}, copied ≤ byteCount → byteCount - copied ≤ rounds →
      copied = 0 ∨ copied = byteCount ∨ (userAddress + copied) % pageSize = 0 →
      Copied call (fun i => s.memory.userByte addressSpace call.copyToUser (userAddress + i)) copied s t →
      wp (copyFrom addressSpace userAddress byteCount call.copyToUser call.clearUser rounds copied)
        (fun _ u => Copied call (fun i => s.memory.userByte addressSpace call.copyToUser (userAddress + i)) byteCount s u)
        (fun _ u => ∃ moved < byteCount, (moved = 0 ∨ (userAddress + moved) % pageSize = 0) ∧
          s.memory.userByte addressSpace call.copyToUser (userAddress + moved) = none ∧
          Copied call (fun i => s.memory.userByte addressSpace call.copyToUser (userAddress + i)) moved s u) t
  | 0, copied, t, hle, hrounds, _, hcopied => by
    rwa [show copied = byteCount by omega] at hcopied
  | rounds + 1, copied, t, hle, hrounds, hboundary, hcopied => by
    by_cases hmore : copied < byteCount
    · obtain ⟨hpos, hle', hpage, hnext⟩ := @chunkSize_spec userAddress byteCount copied hmore
      have hbyte := hcopied.userByte hprotected hstart hend hle hmore
      unfold wp
      rw [copyFrom_round hmore hend, hbyte]
      cases hp : s.memory.userByte addressSpace call.copyToUser (userAddress + copied) with
      | none => exact ⟨copied, hmore, hboundary.imp_right fun h => h.resolve_left (Nat.ne_of_lt hmore), hp, hcopied⟩
      | some p =>
        refine copyFrom_copied hprotected hstart hend hle' (by omega) (Or.inr hnext) (hcopied.move (fun k hk => ?_) hpos ?_)
        · rw [← Nat.add_assoc, userByte_add (by omega), hp]
          rfl
        · rw [userByte_mod hp]
          exact hpage
    · rw [copyFrom, if_neg hmore]
      rwa [show copied = byteCount by omega] at hcopied

theorem Copied.mapped (h : Copied call physical moved s t) : ∀ i < moved, (physical i).isSome := by
  intro i hi
  cases call with
  | copyFrom =>
    obtain ⟨p, hp, -⟩ := h.bytes i hi
    rw [hp]
    rfl
  | copyTo => exact Written.mapped h i hi
  | clear => exact Written.mapped h i hi

theorem run_spec (hpos : byteCount ≠ 0) (hprotected : call.copyToUser = true → s.memory.TablesProtected addressSpace) :
    wp (call.run addressSpace userAddress byteCount)
      (fun _ t => (userVirtualStart ≤ userAddress ∧ userAddress + byteCount ≤ userVirtualEnd) ∧
        Copied call (fun i => s.memory.userByte addressSpace call.copyToUser (userAddress + i)) byteCount s t)
      (fun _ t => ∃ moved < byteCount, (moved = 0 ∨ (userAddress + moved) % pageSize = 0) ∧
        ((userVirtualStart ≤ userAddress ∧ userAddress + byteCount ≤ userVirtualEnd) →
          s.memory.userByte addressSpace call.copyToUser (userAddress + moved) = none) ∧
        Copied call (fun i => s.memory.userByte addressSpace call.copyToUser (userAddress + i)) moved s t) s := by
  unfold CopyCall.run copyUserPages
  rw [if_neg hpos, wp_bind, wp_failIf]
  refine ⟨fun hrange => ?_, fun hrange => ?_⟩
  · refine ⟨0, Nat.pos_of_ne_zero hpos, Or.inl rfl, fun hin => ?_, .start⟩
    rw [(userRange_iff hpos).mpr hin] at hrange
    cases hrange
  · rw [Bool.not_eq_false] at hrange
    obtain ⟨hstart, hend⟩ := (userRange_iff hpos).mp hrange
    refine wp_mono (copyFrom_copied hprotected hstart hend (Nat.zero_le _) (Nat.sub_le _ _) (Or.inl rfl) .start)
      (fun _ t ht => ⟨⟨hstart, hend⟩, ht⟩) fun _ t ⟨moved, hlt, hboundary, hnone, ht⟩ => ?_
    exact ⟨moved, hlt, hboundary, fun _ => hnone, ht⟩

/-- A call succeeds exactly when its range lies in the half of the user and each page of it is mapped for the user, and
    writable if the call writes. Then each byte is copied; otherwise those before the first page that is not mapped are. -/
theorem calls_respect_pages (hpos : byteCount ≠ 0) (hprotected : call.copyToUser = true → s.memory.TablesProtected addressSpace) :
    ((call.run addressSpace userAddress byteCount s).1 = .ok () ↔
      (userVirtualStart ≤ userAddress ∧ userAddress + byteCount ≤ userVirtualEnd) ∧
      ∀ i < byteCount, (s.memory.userByte addressSpace call.copyToUser (userAddress + i)).isSome) ∧
    ((call.run addressSpace userAddress byteCount s).1 = .ok () →
      Copied call (fun i => s.memory.userByte addressSpace call.copyToUser (userAddress + i)) byteCount s
        (call.run addressSpace userAddress byteCount s).2) ∧
    ((call.run addressSpace userAddress byteCount s).1 ≠ .ok () →
      ∃ moved < byteCount, (moved = 0 ∨ (userAddress + moved) % pageSize = 0) ∧
        ((userVirtualStart ≤ userAddress ∧ userAddress + byteCount ≤ userVirtualEnd) →
          s.memory.userByte addressSpace call.copyToUser (userAddress + moved) = none) ∧
        Copied call (fun i => s.memory.userByte addressSpace call.copyToUser (userAddress + i)) moved s
          (call.run addressSpace userAddress byteCount s).2) := by
  have hspec := @run_spec addressSpace userAddress byteCount s call hpos hprotected
  unfold wp at hspec
  rcases hrun : call.run addressSpace userAddress byteCount s with ⟨status | ⟨⟩, t⟩
  · rw [hrun] at hspec
    obtain ⟨moved, hlt, hboundary, hnone, ht⟩ := hspec
    refine ⟨⟨fun hok => (nomatch hok), fun ⟨hrange, hmapped⟩ => ?_⟩, fun hok => (nomatch hok), fun _ => ⟨moved, hlt, hboundary, hnone, ht⟩⟩
    have hsome := hmapped moved hlt
    rw [hnone hrange] at hsome
    cases hsome
  · rw [hrun] at hspec
    obtain ⟨hrange, ht⟩ := hspec
    exact ⟨⟨fun _ => ⟨hrange, ht.mapped⟩, fun _ => rfl⟩, fun _ => ht, fun hne => absurd rfl hne⟩

def twoPages : VirtualMemory where
  physical := PhysicalMemory.unset
  words table index :=
    if table = 0x1000 ∧ index.1 = 2 then 0x2007
    else if table = 0x2000 ∧ index.1 = 0 then 0x3007
    else if table = 0x3000 ∧ index.1 = 0 then 0x4007
    else if table = 0x4000 ∧ index.1 = 0 then 0x7007
    else if table = 0x4000 ∧ index.1 = 1 then 0x5007
    else 0
  executeDisableEnabled := true
  kernelRootAddress := 0x1000
  pagingRoot := 0x1000
  halted := false

theorem twoPages_next {table : Nat} {index : Fin pageTableEntryCount} {next : Nat} (htable : table ≠ 0x4000)
    (h : nextTable (twoPages.words table index) = some next) : next = table + 0x1000 := by
  unfold twoPages at h
  dsimp only at h
  split_ifs at h with h4 h3 h2 h1 h0
  · cases h
    rw [h4.1]
    rfl
  · cases h
    rw [h3.1]
    rfl
  · cases h
    rw [h2.1]
    rfl
  · exact absurd h1.1 htable
  · exact absurd h0.1 htable
  · cases h

theorem twoPages_leaf {index : Fin pageTableEntryCount} (h : twoPages.words 0x4000 index &&& ptePresent ≠ 0) :
    0x5000 ≤ tableFromEntry (twoPages.words 0x4000 index) := by
  unfold twoPages at h ⊢
  dsimp only at h ⊢
  split_ifs at h ⊢ with h4 h3 h2 h1 h0
  · cases h4.1
  · cases h3.1
  · cases h2.1
  · decide
  · decide
  · exact absurd rfl h

theorem twoPages_protected : twoPages.TablesProtected ⟨0x1000⟩ := by
  intro address other p table _ _ _ _ hp htable
  have hwalk : ∀ {a pdpt pd pt : Nat}, nextTable (twoPages.words 0x1000 (pml4Index a)) = some pdpt →
      nextTable (twoPages.words pdpt (pdptIndex a)) = some pd → nextTable (twoPages.words pd (pdIndex a)) = some pt →
      pdpt = 0x2000 ∧ pd = 0x3000 ∧ pt = 0x4000 := by
    intro a pdpt pd pt hpdpt hpd hpt
    cases twoPages_next (by decide) hpdpt
    cases twoPages_next (by decide) hpd
    cases twoPages_next (by decide) hpt
    exact ⟨rfl, rfl, rfl⟩
  have hlow : table ≤ 0x4000 := by
    cases htable with
    | pml4 => decide
    | pdpt hpdpt =>
      cases twoPages_next (by decide) hpdpt
      decide
    | pd hpdpt hpd =>
      cases twoPages_next (by decide) hpdpt
      cases twoPages_next (by decide) hpd
      decide
    | pt hpdpt hpd hpt =>
      rw [(hwalk hpdpt hpd hpt).2.2]
  obtain ⟨leaf, hleaf, hbyte⟩ := Option.bind_eq_some_iff.mp hp
  obtain ⟨pdpt, hpdpt, hleaf⟩ := Option.bind_eq_some_iff.mp hleaf
  obtain ⟨pd, hpd, hleaf⟩ := Option.bind_eq_some_iff.mp hleaf
  obtain ⟨pt, hpt, hleaf⟩ := Option.bind_eq_some_iff.mp hleaf
  obtain ⟨-, -, rfl⟩ := hwalk hpdpt hpd hpt
  split at hleaf
  · cases hleaf
  · rename_i hpresent
    cases hleaf
    have hhigh := twoPages_leaf hpresent
    have haligned := @tableFromEntry_aligned (twoPages.words 0x4000 (ptIndex address))
    split at hbyte
    · cases hbyte
    · cases hbyte
      unfold pageSize at haligned ⊢
      omega

def twoPagesCopy : CopyState := ⟨twoPages, fun i => UInt8.ofNat i⟩

/-- A copy across the boundary of two pages. -/
theorem calls_respect_pages_across :
    (CopyCall.run .copyTo ⟨0x1000⟩ (userVirtualStart + 4090) 12 twoPagesCopy).1 = .ok () ∧
    Copied .copyTo (fun i => twoPages.userByte ⟨0x1000⟩ true (userVirtualStart + 4090 + i)) 12 twoPagesCopy
      (CopyCall.run .copyTo ⟨0x1000⟩ (userVirtualStart + 4090) 12 twoPagesCopy).2 := by
  obtain ⟨hiff, hcopied, -⟩ := @calls_respect_pages ⟨0x1000⟩ (userVirtualStart + 4090) 12 twoPagesCopy .copyTo (by decide)
    fun _ => twoPages_protected
  have hok := hiff.mpr ⟨by decide, by decide +kernel⟩
  exact ⟨hok, hcopied hok⟩

end UserCopy
end InferenceOS
