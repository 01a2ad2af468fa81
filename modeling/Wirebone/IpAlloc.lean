/-
  File:      Wirebone/IpAlloc.lean
  Subject:   ip_alloc.cpp: the address pool.

  * `Inet` -- `inet_pton` and the IPv6 half of `inet_ntop`, from the C library;
  * `parseCidr`, `ipAllocator` -- the constructor with its two prefixes;
  * `addressFor` -- the two addresses of an index;
  * **`addressFor_inj`** -- different indices get different IPv4 and different IPv6 addresses;
  * `ipAllocator_ok`, `ipAllocator_hosts` -- what a pool holds, and how many indices a pool has;
  * `Inet.sample` -- executable address functions, for concrete runs.
-/
import Mathlib.Tactic.IntervalCases
import Wirebone.Crypto
import Wirebone.Json

namespace Wirebone

open ByteString

/-- `in6_addr`. -/
abbrev In6Addr := { b : Bytes // b.length = 16 }

/-- The address functions of the C library. An IPv4 address is the number `ntohl` gives. -/
structure Inet where
  pton4 : Bytes → Option UInt32
  pton6 : Bytes → Option In6Addr
  ntop6 : In6Addr → Bytes

/-! ## 1. The constructor -/

/-- The digits at the front of a string, as `strtol` reads them. -/
def digitsValue (s : Bytes) : Nat :=
  (s.takeWhile fun c => 48 ≤ c ∧ c ≤ 57).foldl (fun n c => n * 10 + (c.toNat - 48)) 0

/-- `std::stoi`: white space, a sign, digits; whatever follows is ignored. -/
def stoi (s : Bytes) : Except Exn Int :=
  let s := s.dropWhile fun c => c = 32 ∨ (9 ≤ c ∧ c ≤ 13)
  let (neg, digits) : Bool × Bytes := match s with
    | 45 :: rest => (true, rest)
    | 43 :: rest => (false, rest)
    | rest => (false, rest)
  match digits with
  | c :: _ =>
    if 48 ≤ c ∧ c ≤ 57 then
      let v : Int := if neg then -(digitsValue digits : Int) else digitsValue digits
      if -2 ^ 31 ≤ v ∧ v < 2 ^ 31 then .ok v else .error .outOfRange
    else .error .invalidArgument
  | [] => .error .invalidArgument

/-- `parse_cidr` and `parse_cidr6`: the address and the prefix length, at most `width`; `none`
    where they return `false`. -/
def parseCidr {α : Type} (pton : Bytes → Option α) (width : Int) (cidr : Bytes) :
    Except Exn (Option (α × Nat)) := do
  let ip := cidr.takeWhile (· ≠ 47)
  match cidr.dropWhile (· ≠ 47) with
  | [] => return none
  | _ :: rest =>
    let prefixLen ← stoi rest
    if prefixLen < 0 ∨ width < prefixLen then
      return none
    return (pton ip).map fun addr => (addr, prefixLen.toNat)

structure IpAllocator where
  ipv4Base : UInt32
  ipv4Prefix : Nat
  ipv4Hosts : UInt32
  ipv6Base : In6Addr
  ipv6Prefix : Nat

/-- `ipv4_hosts_` for a prefix length. (`1u << 32` is undefined; the processor takes the shift
    modulo 32, and so does `<<<`.) -/
def ipv4HostsFor (prefixLen : Nat) : UInt32 :=
  if prefixLen ≥ 32 then 0 else ((1 : UInt32) <<< UInt32.ofNat (32 - prefixLen)) - 1

def ipAllocator (I : Inet) (ipv4Cidr ipv6Cidr : Bytes) : Except Exn IpAllocator := do
  match ← parseCidr I.pton4 32 ipv4Cidr with
  | none => throw (.runtimeError (ascii "invalid ipv4 prefix: " ++ ipv4Cidr))
  | some (a4, p4) =>
    let mask : UInt32 := if p4 = 0 then 0 else (~~~(0 : UInt32)) <<< UInt32.ofNat (32 - p4)
    match ← parseCidr I.pton6 128 ipv6Cidr with
    | none => throw (.runtimeError (ascii "invalid ipv6 prefix: " ++ ipv6Cidr))
    | some (a6, p6) =>
      return { ipv4Base := a4 &&& mask, ipv4Prefix := p4, ipv4Hosts := ipv4HostsFor p4,
               ipv6Base := a6, ipv6Prefix := p6 }

/-! ## 2. The addresses of an index -/

/-- `ipv4_to_string`: `inet_ntop` writes an IPv4 address as four decimal numbers. -/
def ipv4ToString (hostOrder : UInt32) : Bytes :=
  let n := hostOrder.toNat
  decimal (n / 2 ^ 24) ++ 46 :: (decimal (n / 2 ^ 16 % 256) ++
    46 :: (decimal (n / 2 ^ 8 % 256) ++ 46 :: decimal (n % 256)))

/-- The IPv6 address of an index: the index in the last four bytes. -/
def ipv6Host (base : In6Addr) (index : UInt32) : In6Addr :=
  ⟨base.val.take 12 ++ bigEndian 4 index.toNat, by simp [base.2]⟩

def addressFor (I : Inet) (a : IpAllocator) (index : UInt32) : Except Exn (Bytes × Bytes) :=
  if index = 0 ∨ index > a.ipv4Hosts then .error (.runtimeError (ascii "ip index out of range"))
  else .ok (ipv4ToString (a.ipv4Base + index), I.ntop6 (ipv6Host a.ipv6Base index))

/-! ## 3. Different indices, different addresses -/

theorem dot_notMem_decimal (n : Nat) : (46 : UInt8) ∉ decimal n := by
  intro h
  have hd := (decimal_digit h).1
  have h46 : (46 : UInt8).toNat = 46 := rfl
  omega

theorem ipv4ToString_injective : Function.Injective ipv4ToString := by
  intro a b h
  have ha := a.toNat_lt
  have hb := b.toNat_lt
  obtain ⟨h1, h⟩ := append_sep_inj (dot_notMem_decimal _) (dot_notMem_decimal _) h
  obtain ⟨h2, h⟩ := append_sep_inj (dot_notMem_decimal _) (dot_notMem_decimal _) h
  obtain ⟨h3, h4⟩ := append_sep_inj (dot_notMem_decimal _) (dot_notMem_decimal _) h
  have e1 := decimal_injective h1
  have e2 := decimal_injective h2
  have e3 := decimal_injective h3
  have e4 := decimal_injective h4
  refine UInt32.toNat_inj.mp ?_
  omega

theorem ipv6Host_injective (base : In6Addr) : Function.Injective (ipv6Host base) := by
  intro i j h
  have hb := List.append_cancel_left (congrArg Subtype.val h)
  have hi := i.toNat_lt
  have hj := j.toNat_lt
  exact UInt32.toNat_inj.mp (bigEndian_inj (w := 4) (by omega) (by omega) hb)

theorem addressFor_ok {I : Inet} {a : IpAllocator} {i : UInt32} {r : Bytes × Bytes} :
    addressFor I a i = .ok r ↔ (i ≠ 0 ∧ i ≤ a.ipv4Hosts) ∧
      r = (ipv4ToString (a.ipv4Base + i), I.ntop6 (ipv6Host a.ipv6Base i)) := by
  unfold addressFor
  by_cases h : i = 0 ∨ i > a.ipv4Hosts
  · rw [if_pos h]
    refine ⟨fun hr => (nomatch hr), fun hr => ?_⟩
    rcases h with h | h
    · exact absurd h hr.1.1
    · exact absurd hr.1.2 (UInt32.not_le.mpr h)
  · rw [if_neg h, Except.ok.injEq]
    rw [not_or] at h
    refine ⟨fun hr => ⟨⟨h.1, UInt32.not_lt.mp h.2⟩, hr.symm⟩, fun hr => hr.2.symm⟩

/-- **Different indices get different addresses**, of either kind. -/
theorem addressFor_inj {I : Inet} (hI : Function.Injective I.ntop6) {a : IpAllocator} {i j : UInt32}
    {r s : Bytes × Bytes} (hi : addressFor I a i = .ok r) (hj : addressFor I a j = .ok s)
    (h : r.1 = s.1 ∨ r.2 = s.2) : i = j := by
  obtain ⟨_, rfl⟩ := addressFor_ok.mp hi
  obtain ⟨_, rfl⟩ := addressFor_ok.mp hj
  rcases h with h | h
  · have hs := ipv4ToString_injective h
    exact UInt32.add_right_inj a.ipv4Base |>.mp hs
  · exact ipv6Host_injective a.ipv6Base (hI h)

/-- A pool with a prefix of at least one bit has less than half of the 32-bit indices. -/
theorem ipv4HostsFor_lt {p : Nat} (hp : 1 ≤ p) : (ipv4HostsFor p).toNat < 2 ^ 31 := by
  unfold ipv4HostsFor
  by_cases h : p ≥ 32
  · rw [if_pos h]
    decide
  · rw [if_neg h]
    interval_cases p <;> decide

/-- What a constructed pool holds. -/
theorem ipAllocator_ok {I : Inet} {c4 c6 : Bytes} {a : IpAllocator} (h : ipAllocator I c4 c6 = .ok a) :
    ∃ a4 p4 a6 p6, parseCidr I.pton4 32 c4 = .ok (some (a4, p4)) ∧
      parseCidr I.pton6 128 c6 = .ok (some (a6, p6)) ∧
      a = { ipv4Base := a4 &&& (if p4 = 0 then 0 else (~~~(0 : UInt32)) <<< UInt32.ofNat (32 - p4))
            ipv4Prefix := p4, ipv4Hosts := ipv4HostsFor p4, ipv6Base := a6, ipv6Prefix := p6 } := by
  unfold ipAllocator at h
  cases h4 : parseCidr I.pton4 32 c4 with
  | error e =>
    rw [h4] at h
    cases h
  | ok r4 =>
    rw [h4] at h
    cases r4 with
    | none => cases h
    | some p =>
      cases h6 : parseCidr I.pton6 128 c6 with
      | error e =>
        simp only [h6, bind, Except.bind] at h
        cases h
      | ok r6 =>
        simp only [h6, bind, Except.bind] at h
        cases r6 with
        | none => cases h
        | some q =>
          cases h
          exact ⟨p.1, p.2, q.1, q.2, rfl, rfl, rfl⟩

theorem ipAllocator_hosts {I : Inet} {c4 c6 : Bytes} {a : IpAllocator}
    (h : ipAllocator I c4 c6 = .ok a) : a.ipv4Hosts = ipv4HostsFor a.ipv4Prefix := by
  obtain ⟨_, _, _, _, _, _, rfl⟩ := ipAllocator_ok h
  rfl

/-! ## 4. Concrete address functions

`Inet.sample` knows the two default prefixes and writes the first two addresses of the IPv6 pool as
`inet_ntop` does; it stays injective on the others by writing all their digits. -/

/-- `fd7a:115c:a1e0::`. -/
def sampleBase6 : In6Addr :=
  ⟨[0xfd, 0x7a, 0x11, 0x5c, 0xa1, 0xe0] ++ List.replicate 10 0, by decide⟩

def sampleNtop6 (a : In6Addr) : Bytes :=
  if a = ipv6Host sampleBase6 1 then ascii "fd7a:115c:a1e0::1"
  else if a = ipv6Host sampleBase6 2 then ascii "fd7a:115c:a1e0::2"
  else hexEncode a

def Inet.sample : Inet where
  pton4 t := if t = ascii "100.64.0.0" then some 0x64400000 else none
  pton6 t := if t = ascii "fd7a:115c:a1e0::" then some sampleBase6 else none
  ntop6 := sampleNtop6

theorem sampleNtop6_cases (a : In6Addr) :
    (a = ipv6Host sampleBase6 1 ∧ sampleNtop6 a = ascii "fd7a:115c:a1e0::1") ∨
      (a = ipv6Host sampleBase6 2 ∧ sampleNtop6 a = ascii "fd7a:115c:a1e0::2") ∨
      sampleNtop6 a = hexEncode a := by
  unfold sampleNtop6
  by_cases h1 : a = ipv6Host sampleBase6 1
  · exact .inl ⟨h1, if_pos h1⟩
  · by_cases h2 : a = ipv6Host sampleBase6 2
    · exact .inr (.inl ⟨h2, by rw [if_neg h1, if_pos h2]⟩)
    · exact .inr (.inr (by rw [if_neg h1, if_neg h2]))

theorem sampleNtop6_injective : Function.Injective sampleNtop6 := by
  intro a b h
  -- an address written in full has 32 digits, the two short ones 17 characters
  have hlen : ∀ c : In6Addr, (hexEncode c).length = 32 := by
    intro c
    rw [hexEncode_length, c.2]
  have hshort : ∀ t : Bytes, t.length = 17 → ∀ c : In6Addr, t ≠ hexEncode c := by
    intro t ht c heq
    have hc := hlen c
    rw [← heq, ht] at hc
    cases hc
  rcases sampleNtop6_cases a with ⟨ha, h1⟩ | ⟨ha, h1⟩ | h1 <;>
    rcases sampleNtop6_cases b with ⟨hb, h2⟩ | ⟨hb, h2⟩ | h2 <;> rw [h1, h2] at h
  · rw [ha, hb]
  · exact absurd h (by decide)
  · exact absurd h (hshort _ rfl b)
  · exact absurd h (by decide)
  · rw [ha, hb]
  · exact absurd h (hshort _ rfl b)
  · exact absurd h.symm (hshort _ rfl a)
  · exact absurd h.symm (hshort _ rfl a)
  · have hdec := hexPairs_hexEncode a.val
    rw [h, hexPairs_hexEncode] at hdec
    exact Subtype.ext (Option.some.inj hdec).symm

end Wirebone
