import Mathlib.Tactic.IntervalCases
import InferenceOS.Kernel.Virtual
import InferenceOS.Lib.RadixTree

/-! The entries of page tables and the paths of user addresses through the four levels. -/

namespace InferenceOS

def vmFlags : BitVec 32 := vmWrite ||| vmExecute ||| vmUser ||| vmGlobal ||| vmOwned

/-- A physical page with the flags of a mapping for user addresses, as `virtual_map_pages` accepts them. -/
@[ext] structure UserMapping where
  page : Nat
  flags : BitVec 32
  inside : page < 2 ^ 40
  known : flags &&& ~~~vmFlags = 0
  user : flags &&& vmUser ≠ 0
  exclusive : flags &&& (vmWrite ||| vmExecute) ≠ vmWrite ||| vmExecute

namespace UserMapping

def Owned (mapping : UserMapping) : Prop := mapping.flags &&& vmOwned ≠ 0

instance {mapping : UserMapping} : Decidable mapping.Owned := inferInstanceAs (Decidable (_ ≠ _))

/-- The leaf that `map_one` writes. -/
def leaf (mapping : UserMapping) : BitVec 64 := BitVec.ofNat 64 (mapping.page * pageSize) ||| leafFlags mapping.flags

end UserMapping

def tableEntry (page : Nat) : BitVec 64 := BitVec.ofNat 64 (page * pageSize) ||| ptePresent ||| pteWritable ||| pteUser

namespace PageEntry
variable {page : Nat} {mapping : UserMapping} {flags : BitVec 32} {mask : BitVec 64}

theorem address_masked (h : page < 2 ^ 40) : BitVec.ofNat 64 (page * pageSize) &&& pteAddressMask = BitVec.ofNat 64 (page * pageSize) := by
  have hsmall : page * 4096 < 2 ^ 64 := by omega
  apply BitVec.eq_of_toNat_eq
  rw [BitVec.toNat_and, BitVec.toNat_ofNat, show pageSize = 4096 from rfl, Nat.mod_eq_of_lt hsmall]
  have hmask : pteAddressMask.toNat = (2 ^ 40 - 1) * 2 ^ 12 := rfl
  rw [hmask, show page * 4096 = page * 2 ^ 12 from rfl]
  apply Nat.eq_of_testBit_eq
  intro i
  rw [Nat.testBit_and, Nat.testBit_mul_two_pow, Nat.testBit_mul_two_pow, Nat.testBit_two_pow_sub_one]
  by_cases hi : i - 12 < 40
  · rw [decide_eq_true hi, Bool.and_true, Bool.and_assoc, Bool.and_comm (page.testBit _), ← Bool.and_assoc, Bool.and_self]
  · have hhigh : page.testBit (i - 12) = false :=
      Nat.testBit_lt_two_pow (lt_of_lt_of_le h (Nat.pow_le_pow_right (by decide) (by omega)))
    rw [hhigh, Bool.and_false, Bool.false_and]

theorem address_and (h : page < 2 ^ 40) (hmask : pteAddressMask &&& mask = 0) : BitVec.ofNat 64 (page * pageSize) &&& mask = 0 := by
  rw [← address_masked h, BitVec.and_assoc, hmask]
  exact BitVec.and_zero

theorem or_and_of_outside {bits : BitVec 64} (h : page < 2 ^ 40) (hmask : pteAddressMask &&& mask = 0) :
    (BitVec.ofNat 64 (page * pageSize) ||| bits) &&& mask = bits &&& mask := by
  rw [BitVec.and_comm, BitVec.and_or_distrib_left, BitVec.and_comm, address_and h hmask, BitVec.and_comm]
  exact BitVec.zero_or

theorem tableFromEntry_or {bits : BitVec 64} (h : page < 2 ^ 40) (hbits : bits &&& pteAddressMask = 0) :
    tableFromEntry (BitVec.ofNat 64 (page * pageSize) ||| bits) = page * pageSize := by
  unfold tableFromEntry
  rw [BitVec.and_comm, BitVec.and_or_distrib_left, BitVec.and_comm, address_masked h, BitVec.and_comm, hbits]
  have hzero : BitVec.ofNat 64 (page * pageSize) ||| 0 = BitVec.ofNat 64 (page * pageSize) := BitVec.or_zero
  rw [hzero, BitVec.toNat_ofNat]
  unfold pageSize
  exact Nat.mod_eq_of_lt (by omega)

theorem tableEntry_eq : tableEntry page = BitVec.ofNat 64 (page * pageSize) ||| (ptePresent ||| pteWritable ||| pteUser) := by
  unfold tableEntry
  rw [BitVec.or_assoc, BitVec.or_assoc, BitVec.or_assoc]

theorem tableEntry_present (h : page < 2 ^ 40) : tableEntry page &&& ptePresent ≠ 0 := by
  rw [tableEntry_eq, or_and_of_outside h (by decide)]
  decide

theorem tableEntry_small (h : page < 2 ^ 40) : tableEntry page &&& pteLarge = 0 := by
  rw [tableEntry_eq, or_and_of_outside h (by decide)]
  decide

theorem tableEntry_user : tableEntry page ||| (pteUser ||| pteWritable) = tableEntry page := by
  rw [tableEntry_eq, BitVec.or_assoc]
  congr 1

theorem tableFromEntry_tableEntry (h : page < 2 ^ 40) : tableFromEntry (tableEntry page) = page * pageSize := by
  rw [tableEntry_eq]
  exact tableFromEntry_or h (by decide)

theorem leafFlags_spec : leafFlags flags &&& pteAddressMask = 0 ∧ leafFlags flags &&& ptePresent ≠ 0 ∧
    leafFlags flags &&& pteLarge = 0 ∧ (leafFlags flags &&& pteOwned ≠ 0 ↔ flags &&& vmOwned ≠ 0) := by
  unfold leafFlags
  split_ifs <;> simp_all [ptePresent, pteWritable, pteUser, pteGlobal, pteOwned, pteNoExecute, pteAddressMask, pteLarge]

theorem flags_small (h : flags &&& ~~~vmFlags = 0) : flags.toNat < 32 := by
  have hsplit : flags = flags &&& vmFlags := by
    calc flags = flags &&& (vmFlags ||| ~~~vmFlags) := by
          rw [show vmFlags ||| ~~~vmFlags = BitVec.allOnes 32 from by decide, BitVec.and_allOnes]
      _ = (flags &&& vmFlags) ||| (flags &&& ~~~vmFlags) := BitVec.and_or_distrib_left
      _ = flags &&& vmFlags := by
          rw [h]
          exact BitVec.or_zero
  have hle : (flags &&& vmFlags).toNat ≤ vmFlags.toNat := by
    rw [BitVec.toNat_and]
    exact Nat.and_le_right
  rw [← hsplit] at hle
  exact lt_of_le_of_lt hle (by decide)

theorem queryFlags_leafFlags (h : flags &&& ~~~vmFlags = 0) : queryFlags (leafFlags flags) = flags := by
  have hall : ∀ n : Fin 32, queryFlags (leafFlags (BitVec.ofNat 32 n.1)) = BitVec.ofNat 32 n.1 := by decide
  have hflags := hall ⟨flags.toNat, flags_small h⟩
  rwa [BitVec.ofNat_toNat, BitVec.setWidth_eq] at hflags

theorem leaf_present : mapping.leaf &&& ptePresent ≠ 0 := by
  unfold UserMapping.leaf
  rw [or_and_of_outside mapping.inside (by decide)]
  exact leafFlags_spec.2.1

theorem leaf_ne_zero : mapping.leaf ≠ 0 := by
  intro h
  have hpresent := @leaf_present mapping
  rw [h] at hpresent
  exact hpresent (by decide)

theorem tableEntry_ne_zero (h : page < 2 ^ 40) : tableEntry page ≠ 0 := by
  intro hx
  have hpresent := tableEntry_present h
  rw [hx] at hpresent
  exact hpresent (by decide)

theorem tableFromEntry_leaf : tableFromEntry mapping.leaf = mapping.page * pageSize :=
  tableFromEntry_or mapping.inside leafFlags_spec.1

theorem leaf_owned : mapping.leaf &&& pteOwned ≠ 0 ↔ mapping.Owned := by
  unfold UserMapping.leaf
  rw [or_and_of_outside mapping.inside (by decide)]
  exact leafFlags_spec.2.2.2

theorem queryFlags_leaf : queryFlags mapping.leaf = mapping.flags := by
  have hread : queryFlags mapping.leaf = queryFlags (leafFlags mapping.flags) := by
    unfold queryFlags UserMapping.leaf
    rw [or_and_of_outside mapping.inside (by decide), or_and_of_outside mapping.inside (by decide),
      or_and_of_outside mapping.inside (by decide), or_and_of_outside mapping.inside (by decide),
      or_and_of_outside mapping.inside (by decide)]
  rw [hread, queryFlags_leafFlags mapping.known]

end PageEntry

def tablePath (address : Nat) : List (Fin pageTableEntryCount) :=
  [pml4Index address, pdptIndex address, pdIndex address, ptIndex address]

def IsUser (i : Fin pageTableEntryCount) : Prop := 2 ≤ i.1 ∧ i.1 < 256

def IsUserAddress (address : Nat) : Prop := userVirtualStart ≤ address ∧ address < userVirtualEnd

variable {address other : Nat}

theorem isUser_pml4Index (h : IsUserAddress address) : IsUser (pml4Index address) := by
  unfold IsUserAddress userVirtualStart userVirtualEnd at h
  unfold IsUser pml4Index
  dsimp only
  omega

theorem tablePath_eq_iff (h : address < userVirtualEnd) (h' : other < userVirtualEnd) :
    tablePath address = tablePath other ↔ address / pageSize = other / pageSize := by
  unfold userVirtualEnd at h h'
  unfold tablePath pml4Index pdptIndex pdIndex ptIndex pageSize
  simp only [List.cons.injEq, Fin.mk.injEq, and_true]
  omega

end InferenceOS
