/-
  File:      Wirebone/IpAlloc/Prefix.lean
  Subject:   WHAT THE ADDRESS POOL DOES WITH ITS TWO PREFIX LENGTHS.

  The IPv4 length decides the mask, the base and the number of hosts, by shifts of `32 - p`. The mask
  is guarded against `p = 0`, the number of hosts is not. The IPv6 length is checked, kept and used
  nowhere: the index goes into the last four bytes of the base, whatever the prefix:

  * `ipv4Setup` -- the IPv4 half of the constructor with every shift checked;
  * `SoundIpv4` -- what the pool promises of its IPv4 addresses;
  * **`ipv4_sound_iff`** -- it keeps this for every prefix but the one of length 0;
  * `Agrees6` -- an address and the base agree on the prefix, bit by bit;
  * **`ipv6_inside_iff`** -- for which prefixes and bases every address is inside.
-/
import Wirebone.IpAlloc

namespace Wirebone

open ByteString

/-! ## 1. The constructor -/

/-- `x << k` on `unsigned`, which is undefined from 32 on. -/
def shl32 (x : UInt32) (k : Nat) : Option UInt32 :=
  if k < 32 then some (x <<< UInt32.ofNat k) else none

/-- **The IPv4 half of the constructor with its shifts checked**: the base and the number of hosts;
    `none` where a shift by 32 or more is evaluated. -/
def ipv4Setup (a4 : UInt32) (p : Nat) : Option (UInt32 × UInt32) := do
  let mask ← if p = 0 then some 0 else shl32 (~~~(0 : UInt32)) (32 - p)
  let hosts ← if p ≥ 32 then some 0 else (shl32 1 (32 - p)).map (· - 1)
  return (a4 &&& mask, hosts)

theorem parseCidr_le {α : Type} {pton : Bytes → Option α} (width : Nat) {cidr : Bytes}
    {x : α × Nat} (h : parseCidr pton width cidr = .ok (some x)) : x.2 ≤ width := by
  unfold parseCidr at h
  cases hd : cidr.dropWhile (· ≠ 47) with
  | nil =>
    simp only [hd, pure, Except.pure, Except.ok.injEq] at h
    cases h
  | cons c rest =>
    cases hs : stoi rest with
    | error e =>
      simp only [hd, hs, bind, Except.bind] at h
      cases h
    | ok v =>
      by_cases hv : v < 0 ∨ (width : Int) < v
      · simp only [hd, hs, bind, Except.bind, if_pos hv, pure, Except.pure, Except.ok.injEq] at h
        cases h
      · simp only [hd, hs, bind, Except.bind, if_neg hv, pure, Except.pure, Except.ok.injEq,
          Option.map_eq_some_iff] at h
        obtain ⟨addr, _, rfl⟩ := h
        show v.toNat ≤ width
        omega

/-- Where no shift goes wrong, the checked values are those of the constructor. -/
theorem ipv4Setup_eq (a4 : UInt32) (p : Nat) (hp : p ≠ 0) :
    ipv4Setup a4 p =
      some (a4 &&& (if p = 0 then 0 else (~~~(0 : UInt32)) <<< UInt32.ofNat (32 - p)),
        ipv4HostsFor p) := by
  have hlt : 32 - p < 32 := by omega
  unfold ipv4Setup ipv4HostsFor shl32
  by_cases h32 : p ≥ 32
  · simp [hp, h32]
  · simp [hp, hlt, h32]

/-- A prefix of length 0: the number of hosts is taken from `1u << 32`. -/
theorem ipv4Setup_zero (a4 : UInt32) : ipv4Setup a4 0 = none := rfl

/-! ## 2. IPv4 -/

section Ipv4

/-- The hosts of a prefix. -/
theorem ipv4HostsFor_toNat {p : Nat} (hp : p ≠ 0) : (ipv4HostsFor p).toNat = 2 ^ (32 - p) - 1 := by
  unfold ipv4HostsFor
  by_cases h : p ≥ 32
  · rw [if_pos h, Nat.sub_eq_zero_of_le h]
    rfl
  · rw [if_neg h]
    interval_cases p
    · exact absurd rfl hp
    all_goals decide

/-- The mask clears the host bits. -/
theorem masked_toNat (a4 : UInt32) {p : Nat} (hp : p ≠ 0) (hp32 : p ≤ 32) :
    (a4 &&& (if p = 0 then 0 else (~~~(0 : UInt32)) <<< UInt32.ofNat (32 - p))).toNat =
      a4.toNat / 2 ^ (32 - p) * 2 ^ (32 - p) := by
  have hmask : ((~~~(0 : UInt32)) <<< UInt32.ofNat (32 - p)).toNat =
      (2 ^ p - 1) * 2 ^ (32 - p) := by
    interval_cases p
    · exact absurd rfl hp
    all_goals decide
  have ha := a4.toNat_lt
  rw [if_neg hp, UInt32.toNat_and, hmask]
  refine Nat.eq_of_testBit_eq fun i => ?_
  rw [Nat.testBit_and, Nat.testBit_mul_two_pow, Nat.testBit_mul_two_pow, Nat.testBit_two_pow_sub_one,
    Nat.testBit_div_two_pow]
  by_cases hi : 32 - p ≤ i
  · have hback : i - (32 - p) + (32 - p) = i := by omega
    by_cases hhigh : i < 32
    · have hlow : i - (32 - p) < p := by omega
      simp [hi, hback, hlow]
    · have hzero : a4.toNat.testBit i = false :=
        Nat.testBit_lt_two_pow (lt_of_lt_of_le ha (Nat.pow_le_pow_right (by decide) (by omega)))
      simp [hi, hback, hzero]
  · simp [hi]

/-- **What the pool promises of its IPv4 addresses**, for the address and the length of its CIDR. -/
structure SoundIpv4 (I : Inet) (a4 : UInt32) (p : Nat) (a : IpAllocator) : Prop where
  /-- The fields are what the checked shifts give. -/
  defined : ipv4Setup a4 p = some (a.ipv4Base, a.ipv4Hosts)
  hosts : a.ipv4Hosts.toNat = 2 ^ (32 - p) - 1
  accepted : ∀ i, (∃ r, addressFor I a i = .ok r) ↔ 1 ≤ i.toNat ∧ i.toNat ≤ 2 ^ (32 - p) - 1
  /-- An address that is handed out: the sum does not wrap, its first `p` bits are those of the
      CIDR's address, and the others are not all 0. -/
  inside : ∀ i r, addressFor I a i = .ok r → ∃ addr : UInt32, r.1 = ipv4ToString addr ∧
    addr.toNat = a.ipv4Base.toNat + i.toNat ∧
    addr.toNat / 2 ^ (32 - p) = a4.toNat / 2 ^ (32 - p) ∧ addr.toNat % 2 ^ (32 - p) ≠ 0
  distinct : ∀ i j r s, addressFor I a i = .ok r → addressFor I a j = .ok s → r.1 = s.1 → i = j

theorem le_iff_toNat_le {i h : UInt32} {n : Nat} (hn : h.toNat = n) :
    (i ≠ 0 ∧ i ≤ h) ↔ 1 ≤ i.toNat ∧ i.toNat ≤ n := by
  have hzero : i ≠ 0 ↔ 1 ≤ i.toNat := by
    rw [← UInt32.toNat_inj.ne]
    exact Nat.one_le_iff_ne_zero.symm
  rw [hzero, UInt32.le_iff_toNat_le, hn]

/-- The address of an index: a number of the CIDR's block, behind its first. -/
theorem block_add {n k i : Nat} (hn : n < 2 ^ 32) (hk : k ≤ 32) (hi : 1 ≤ i) (hi' : i ≤ 2 ^ k - 1) :
    n / 2 ^ k * 2 ^ k + i < 2 ^ 32 ∧ (n / 2 ^ k * 2 ^ k + i) / 2 ^ k = n / 2 ^ k ∧
      (n / 2 ^ k * 2 ^ k + i) % 2 ^ k ≠ 0 := by
  have hpos : 0 < 2 ^ k := Nat.two_pow_pos k
  have hlt : i < 2 ^ k := by omega
  have hblocks : n / 2 ^ k + 1 ≤ 2 ^ (32 - k) := by
    refine Nat.div_lt_of_lt_mul ?_
    rw [← Nat.pow_add, Nat.add_sub_cancel' hk]
    exact hn
  have hend : (n / 2 ^ k + 1) * 2 ^ k ≤ 2 ^ 32 := by
    calc (n / 2 ^ k + 1) * 2 ^ k ≤ 2 ^ (32 - k) * 2 ^ k := Nat.mul_le_mul_right _ hblocks
      _ = 2 ^ 32 := by rw [← Nat.pow_add, Nat.sub_add_cancel hk]
  rw [Nat.succ_mul] at hend
  refine ⟨by omega, ?_, ?_⟩
  · rw [Nat.add_comm, Nat.add_mul_div_right _ _ hpos, Nat.div_eq_of_lt hlt, Nat.zero_add]
  · rw [Nat.add_comm, Nat.add_mul_mod_self_right, Nat.mod_eq_of_lt hlt]
    omega

/-- A pool whose prefix is not empty keeps its promise. -/
theorem soundIpv4_of_prefix {I : Inet} {c4 c6 : Bytes} {a : IpAllocator} {a4 : UInt32} {p : Nat}
    (h4 : parseCidr I.pton4 32 c4 = .ok (some (a4, p))) (h : ipAllocator I c4 c6 = .ok a)
    (hp : p ≠ 0) : SoundIpv4 I a4 p a := by
  obtain ⟨b4, q, a6, p6, h4', _, rfl⟩ := ipAllocator_ok h
  rw [h4, Except.ok.injEq, Option.some.injEq, Prod.mk.injEq] at h4'
  obtain ⟨rfl, rfl⟩ := h4'
  have hp32 : p ≤ 32 := parseCidr_le 32 h4
  have hhosts := ipv4HostsFor_toNat hp
  have hbase := masked_toNat a4 hp hp32
  refine ⟨ipv4Setup_eq a4 p hp, hhosts, fun i => ?_, fun i r hr => ?_, fun i j r s hi hj hrs => ?_⟩
  · rw [← le_iff_toNat_le hhosts]
    exact ⟨fun hr => (addressFor_ok.mp hr.choose_spec).1, fun hi => ⟨_, addressFor_ok.mpr ⟨hi, rfl⟩⟩⟩
  · obtain ⟨hi, rfl⟩ := addressFor_ok.mp hr
    obtain ⟨hi1, hi2⟩ := (le_iff_toNat_le hhosts).mp hi
    obtain ⟨hwrap, hnet, hhost⟩ := block_add a4.toNat_lt (Nat.sub_le 32 p) hi1 hi2
    have hsum : ∀ base : UInt32, base.toNat = a4.toNat / 2 ^ (32 - p) * 2 ^ (32 - p) →
        (base + i).toNat = base.toNat + i.toNat := by
      intro base hb
      rw [UInt32.toNat_add, hb, Nat.mod_eq_of_lt hwrap]
    refine ⟨_, rfl, hsum _ hbase, ?_, ?_⟩
    · rw [hsum _ hbase, hbase, hnet]
    · rw [hsum _ hbase, hbase]
      exact hhost
  · obtain ⟨_, rfl⟩ := addressFor_ok.mp hi
    obtain ⟨_, rfl⟩ := addressFor_ok.mp hj
    exact (UInt32.add_right_inj _).mp (ipv4ToString_injective hrs)

/-- **IPv4 allocation is sound exactly for a prefix that is not empty**: for every CIDR that
    `parse_cidr` accepts, no shift is by 32 or more and every pool made of it keeps its promise, iff
    the length is not 0. -/
theorem ipv4_sound_iff (I : Inet) (c4 : Bytes) (a4 : UInt32) (p : Nat)
    (h4 : parseCidr I.pton4 32 c4 = .ok (some (a4, p))) :
    ((ipv4Setup a4 p).isSome = true ∧
      ∀ c6 a, ipAllocator I c4 c6 = .ok a → SoundIpv4 I a4 p a) ↔ p ≠ 0 := by
  constructor
  · intro hsound hp
    obtain ⟨hdef, _⟩ := hsound
    rw [hp, ipv4Setup_zero] at hdef
    cases hdef
  · intro hp
    refine ⟨?_, fun c6 a ha => soundIpv4_of_prefix h4 ha hp⟩
    rw [ipv4Setup_eq a4 p hp]
    rfl

/-- The default prefix of the server. -/
theorem ipv4_sound_default :
    parseCidr Inet.sample.pton4 32 (ascii "100.64.0.0/10") = .ok (some (0x64400000, 10)) ∧
      (ipv4Setup 0x64400000 10).isSome = true ∧
      ∀ c6 a, ipAllocator Inet.sample (ascii "100.64.0.0/10") c6 = .ok a →
        SoundIpv4 Inet.sample 0x64400000 10 a := by
  have h4 : parseCidr Inet.sample.pton4 32 (ascii "100.64.0.0/10") = .ok (some (0x64400000, 10)) := by rfl
  exact ⟨h4, (ipv4_sound_iff Inet.sample _ _ _ h4).mpr (by decide)⟩

/-- A length of 0 is accepted, and the number of hosts is undefined. -/
theorem ipv4_unsound_zero :
    parseCidr Inet.sample.pton4 32 (ascii "100.64.0.0/0") = .ok (some (0x64400000, 0)) ∧
      ipv4Setup 0x64400000 0 = none ∧ ∀ a, ¬ SoundIpv4 Inet.sample 0x64400000 0 a := by
  refine ⟨rfl, rfl, fun a h => ?_⟩
  have hdef := h.defined
  rw [ipv4Setup_zero] at hdef
  cases hdef

end Ipv4

/-! ## 3. IPv6 -/

section Ipv6

/-- The bit `k` of an address, the first one is 0. -/
def addrBit (a : In6Addr) (k : Nat) : Bool := (a.val.getD (k / 8) 0).toNat.testBit (7 - k % 8)

/-- The two addresses agree on the first `p` bits. -/
def Agrees6 (p : Nat) (base v6 : In6Addr) : Prop := ∀ k < p, addrBit v6 k = addrBit base k

/-- **The condition**: no index is accepted (also for `p4 = 0`, by the shift of the processor); or
    the prefix ends in front of the last four bytes; or what it has of them is 0 and the indices
    leave it so; or the one index of a `/31` is the one address of a `/128`. -/
def Fits6 (p4 p6 : Nat) (base : In6Addr) : Prop :=
  p4 = 0 ∨ p4 = 32 ∨ p6 ≤ 96 ∨
    (p6 - 96 ≤ p4 ∧ ∀ k, 96 ≤ k → k < p6 → addrBit base k = false) ∨
    (p4 = 31 ∧ p6 = 128 ∧ ∀ k, 96 ≤ k → k < 128 → addrBit base k = decide (k = 127))

/-- The first twelve bytes are those of the base. -/
theorem addrBit_ipv6Host_low (base : In6Addr) (i : UInt32) {k : Nat} (hk : k < 96) :
    addrBit (ipv6Host base i) k = addrBit base k := by
  have hbyte : k / 8 < 12 := by omega
  have hlen : (base.val.take 12).length = 12 := by
    rw [List.length_take, base.2]
    rfl
  unfold addrBit ipv6Host
  rw [List.getD_eq_getElem?_getD, List.getD_eq_getElem?_getD, List.getElem?_append_left (by rwa [hlen]),
    List.getElem?_take, if_pos hbyte]

/-- The last four are the index. -/
theorem addrBit_ipv6Host_high (base : In6Addr) (i : UInt32) {k : Nat} (hk : 96 ≤ k) (hk' : k < 128) :
    addrBit (ipv6Host base i) k = i.toNat.testBit (127 - k) := by
  have hlen : (base.val.take 12).length = 12 := by
    rw [List.length_take, base.2]
    rfl
  have hbit : ∀ n j : Nat, j < 8 → (UInt8.ofNat n).toNat.testBit j = n.testBit j := by
    intro n j hj
    rw [UInt8.toNat_ofNat', Nat.testBit_mod_two_pow, decide_eq_true hj, Bool.true_and]
  have hbyte : (bigEndian 4 i.toNat).getD (k / 8 - 12) 0 =
      UInt8.ofNat (i.toNat / 2 ^ (8 * (15 - k / 8))) := by
    have hcases : k / 8 = 12 ∨ k / 8 = 13 ∨ k / 8 = 14 ∨ k / 8 = 15 := by omega
    rcases hcases with h | h | h | h
    all_goals
      rw [h]
      simp [bigEndian, Nat.div_div_eq_div_mul]
  have hpos : 7 - k % 8 + 8 * (15 - k / 8) = 127 - k := by omega
  have hside : (ipv6Host base i).val.getD (k / 8) 0 = (bigEndian 4 i.toNat).getD (k / 8 - 12) 0 := by
    unfold ipv6Host
    rw [List.getD_eq_getElem?_getD, List.getElem?_append_right (by rw [hlen]; omega), hlen,
      ← List.getD_eq_getElem?_getD]
  unfold addrBit
  rw [hside, hbyte, hbit _ _ (by omega), Nat.testBit_div_two_pow, hpos]

/-- Where the address of an index agrees with the base. -/
theorem agrees6_iff (base : In6Addr) (i : UInt32) {p : Nat} (hp : p ≤ 128) :
    Agrees6 p base (ipv6Host base i) ↔
      ∀ k, 96 ≤ k → k < p → i.toNat.testBit (127 - k) = addrBit base k := by
  constructor
  · intro h k hk hkp
    rw [← addrBit_ipv6Host_high base i hk (by omega)]
    exact h k hkp
  · intro h k hkp
    by_cases hk : k < 96
    · exact addrBit_ipv6Host_low base i hk
    · rw [addrBit_ipv6Host_high base i (by omega) (by omega)]
      exact h k (by omega) hkp

/-- An index below the number of hosts, given as a number. -/
theorem index_accepted {p4 n : Nat} (h0 : p4 ≠ 0) (hn : 1 ≤ n) (hn' : n ≤ 2 ^ (32 - p4) - 1) :
    (UInt32.ofNat n).toNat = n ∧ UInt32.ofNat n ≠ 0 ∧ UInt32.ofNat n ≤ ipv4HostsFor p4 := by
  have hhosts := ipv4HostsFor_toNat h0
  have hlt := (ipv4HostsFor p4).toNat_lt
  have hnat : (UInt32.ofNat n).toNat = n := UInt32.toNat_ofNat_of_lt' (by simp only [UInt32.size]; omega)
  refine ⟨hnat, (le_iff_toNat_le hhosts).mpr ?_⟩
  rw [hnat]
  exact ⟨hn, hn'⟩

theorem testBit_one_eq (j : Nat) : (1 : Nat).testBit j = decide (0 = j) := Nat.testBit_two_pow (n := 0)

/-- **Every address inside gives the condition.** The indices 1, 2 and `2 ^ (128 - p6)` decide. -/
theorem fits6_of_agrees {p4 p6 : Nat} {base : In6Addr} (h6 : p6 ≤ 128) (h4 : p4 ≤ 32)
    (h : ∀ i : UInt32, i ≠ 0 ∧ i ≤ ipv4HostsFor p4 → Agrees6 p6 base (ipv6Host base i)) :
    Fits6 p4 p6 base := by
  by_cases h0 : p4 = 0
  · exact .inl h0
  by_cases h32 : p4 = 32
  · exact .inr (.inl h32)
  by_cases h96 : p6 ≤ 96
  · exact .inr (.inr (.inl h96))
  have hbits : ∀ n, 1 ≤ n → n ≤ 2 ^ (32 - p4) - 1 → ∀ k, 96 ≤ k → k < p6 →
      n.testBit (127 - k) = addrBit base k := by
    intro n hn hn' k hk hkp
    obtain ⟨hnat, hacc⟩ := index_accepted h0 hn hn'
    have hk' := (agrees6_iff base _ h6).mp (h _ hacc) k hk hkp
    rwa [hnat] at hk'
  have htwo : 2 ^ 1 ≤ 2 ^ (32 - p4) := Nat.pow_le_pow_right (by decide) (by omega)
  have hone := hbits 1 (by omega) (by omega)
  by_cases h128 : p6 = 128
  · -- one address in the prefix, so one index
    have h31 : p4 = 31 := by
      by_contra hne
      have hfour : 2 ^ 2 ≤ 2 ^ (32 - p4) := Nat.pow_le_pow_right (by decide) (by omega)
      have h1 := hone 127 (by omega) (by omega)
      have h2 := hbits 2 (by omega) (by omega) 127 (by omega) (by omega)
      rw [← h1] at h2
      exact absurd h2 (by decide)
    refine .inr (.inr (.inr (.inr ⟨h31, h128, fun k hk hk' => ?_⟩)))
    rw [← hone k hk (by omega), testBit_one_eq]
    exact decide_eq_decide.mpr (by omega)
  · have hzero : ∀ k, 96 ≤ k → k < p6 → addrBit base k = false := by
      intro k hk hkp
      rw [← hone k hk hkp, testBit_one_eq]
      exact decide_eq_false (by omega)
    refine .inr (.inr (.inr (.inl ⟨?_, hzero⟩)))
    -- otherwise an index reaches the last bit of the prefix
    by_contra hroom
    have hpow : 2 ^ (128 - p6 + 1) ≤ 2 ^ (32 - p4) := Nat.pow_le_pow_right (by decide) (by omega)
    have hpos : 1 ≤ 2 ^ (128 - p6) := Nat.one_le_two_pow
    rw [Nat.pow_succ] at hpow
    have hlast := hbits (2 ^ (128 - p6)) hpos (by omega) (p6 - 1) (by omega) (by omega)
    rw [hzero _ (by omega) (by omega), show 127 - (p6 - 1) = 128 - p6 by omega,
      Nat.testBit_two_pow_self] at hlast
    cases hlast

/-- **The condition keeps every address inside.** -/
theorem agrees6_of_fits {p4 p6 : Nat} {base : In6Addr} (h6 : p6 ≤ 128) (h : Fits6 p4 p6 base) {i : UInt32}
    (hi : i ≠ 0 ∧ i ≤ ipv4HostsFor p4) : Agrees6 p6 base (ipv6Host base i) := by
  have hempty : ipv4HostsFor p4 = 0 → False := fun hz =>
    hi.1 (UInt32.le_zero_iff.mp (hz ▸ hi.2))
  by_cases h0 : p4 = 0
  · exact (hempty (by rw [h0]; rfl)).elim
  obtain ⟨hi1, hi2⟩ := (le_iff_toNat_le (ipv4HostsFor_toNat h0)).mp hi
  refine (agrees6_iff base i h6).mpr fun k hk hkp => ?_
  rcases h with h | h | h | ⟨hroom, hzero⟩ | ⟨h31, h128, hbase⟩
  · exact absurd h h0
  · exact (hempty (by rw [h]; rfl)).elim
  · omega
  · have hpow : 2 ^ (32 - p4) ≤ 2 ^ (127 - k) := Nat.pow_le_pow_right (by decide) (by omega)
    have hpos : 1 ≤ 2 ^ (32 - p4) := Nat.one_le_two_pow
    rw [hzero k hk hkp]
    exact Nat.testBit_lt_two_pow (by omega)
  · have hi' : i.toNat = 1 := by
      rw [h31] at hi2
      omega
    rw [hi', testBit_one_eq, hbase k hk (by omega)]
    exact decide_eq_decide.mpr (by omega)

/-- **Every IPv6 address is inside the prefix exactly where the prefix leaves the index room**, and
    different indices get different addresses. -/
theorem ipv6_inside_iff (I : Inet) (hI : Function.Injective I.ntop6) (c4 c6 : Bytes) (a : IpAllocator)
    (h : ipAllocator I c4 c6 = .ok a) :
    ((∀ i r, addressFor I a i = .ok r →
        ∃ v6, r.2 = I.ntop6 v6 ∧ Agrees6 a.ipv6Prefix a.ipv6Base v6) ∧
      ∀ i j r s, addressFor I a i = .ok r → addressFor I a j = .ok s → r.2 = s.2 → i = j) ↔
    Fits6 a.ipv4Prefix a.ipv6Prefix a.ipv6Base := by
  obtain ⟨a4, p4, a6, p6, h4, h6, rfl⟩ := ipAllocator_ok h
  have hp4 : p4 ≤ 32 := parseCidr_le 32 h4
  have hp6 : p6 ≤ 128 := parseCidr_le 128 h6
  constructor
  · intro hall
    refine fits6_of_agrees hp6 hp4 fun i hi => ?_
    obtain ⟨v6, hv6, hagree⟩ := hall.1 i _ (addressFor_ok.mpr ⟨hi, rfl⟩)
    rw [← hI hv6] at hagree
    exact hagree
  · intro hfits
    refine ⟨fun i r hr => ?_, fun i j r s hi hj hrs => addressFor_inj hI hi hj (.inr hrs)⟩
    obtain ⟨hi, rfl⟩ := addressFor_ok.mp hr
    exact ⟨_, rfl, agrees6_of_fits hp6 hfits hi⟩

/-- The default prefixes. -/
theorem ipv6_inside_default :
    ∃ a, ipAllocator Inet.sample (ascii "100.64.0.0/10") (ascii "fd7a:115c:a1e0::/48") = .ok a ∧
      (∃ r, addressFor Inet.sample a 1 = .ok r) ∧
      ∀ i r, addressFor Inet.sample a i = .ok r →
        ∃ v6, r.2 = Inet.sample.ntop6 v6 ∧ Agrees6 a.ipv6Prefix a.ipv6Base v6 := by
  have halloc : ∃ a, ipAllocator Inet.sample (ascii "100.64.0.0/10") (ascii "fd7a:115c:a1e0::/48") = .ok a ∧
      a.ipv6Prefix ≤ 96 ∧ a.ipv4Hosts = 0x3fffff := ⟨_, rfl, by decide, by decide⟩
  obtain ⟨a, ha, h96, hhosts⟩ := halloc
  have hiff := ipv6_inside_iff Inet.sample sampleNtop6_injective _ _ a ha
  refine ⟨a, ha, ⟨_, addressFor_ok.mpr ⟨⟨by decide, ?_⟩, rfl⟩⟩, (hiff.mpr (.inr (.inr (.inl h96)))).1⟩
  rw [hhosts]
  decide

/-- The prefix `/128` holds one address, and index 1 gets another. -/
theorem ipv6_outside :
    ∃ a r v6, ipAllocator Inet.sample (ascii "100.64.0.0/10") (ascii "fd7a:115c:a1e0::/128") = .ok a ∧
      addressFor Inet.sample a 1 = .ok r ∧ r.2 = Inet.sample.ntop6 v6 ∧
      ¬ Agrees6 a.ipv6Prefix a.ipv6Base v6 := by
  refine ⟨_, _, ipv6Host sampleBase6 1, rfl, rfl, rfl, fun hagree => ?_⟩
  exact absurd (hagree 127 (by decide)) (by decide)

end Ipv6

end Wirebone
