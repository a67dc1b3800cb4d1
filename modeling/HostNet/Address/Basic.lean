/-
IP networks: an address of one of the two families together with a prefix
length.

`Network f` is a network of the family `f`; `IpNet` is one of either family.
The bits of the address past the prefix are its host bits, which `truncated`
clears.  `IpNet.rank` numbers all networks in their order: IPv4 before IPv6,
then by address, then by prefix length.
-/

import HostNet.Error

namespace HostNet

/-- The two families of addresses. -/
inductive Family where
  | v4
  | v6
  deriving DecidableEq, Repr

/-- The number of bits in an address. -/
def Family.width : Family → Nat
  | v4 => 32
  | v6 => 128

/-- An address of a family. -/
abbrev Address (f : Family) := BitVec f.width

/-- An address with a prefix length. -/
structure Network (f : Family) where
  address : Address f
  length : Nat
  length_le : length ≤ f.width
  deriving DecidableEq

namespace Network

variable {f : Family}

/-- The number of host bits. -/
def hostBits (n : Network f) : Nat := f.width - n.length

/-- The network with all host bits cleared. -/
def truncated (n : Network f) : Network f :=
  { n with address := (n.address >>> n.hostBits) <<< n.hostBits }

/-- Whether an address agrees with the network on all bits of the prefix. -/
def contains (n : Network f) (a : Address f) : Bool :=
  a >>> n.hostBits == n.address >>> n.hostBits

/-- An address with a prefix length, if the family has prefixes of that length. -/
def ofAddress? (a : Address f) (length : Nat) : Option (Network f) :=
  if h : length ≤ f.width then some ⟨a, length, h⟩ else none

/-- The place of a network in the order of its family. -/
def rank (n : Network f) : Nat := n.address.toNat * 256 + n.length

@[simp] theorem hostBits_truncated (n : Network f) : n.truncated.hostBits = n.hostBits := rfl

/-- Clearing host bits shifts them out and zeros in. -/
theorem toNat_address_truncated (n : Network f) :
    n.truncated.address.toNat = n.address.toNat >>> n.hostBits <<< n.hostBits := by
  have h : n.address.toNat / 2 ^ n.hostBits * 2 ^ n.hostBits < 2 ^ f.width :=
    Nat.lt_of_le_of_lt (Nat.div_mul_le_self ..) n.address.isLt
  simp [truncated, Nat.shiftLeft_eq, Nat.shiftRight_eq_div_pow, Nat.mod_eq_of_lt h]

/-- Clearing host bits twice is clearing them once. -/
theorem truncated_truncated (n : Network f) : n.truncated.truncated = n.truncated := by
  have h : n.truncated.truncated.address = n.truncated.address := by
    apply BitVec.eq_of_toNat_eq
    rw [toNat_address_truncated, toNat_address_truncated, hostBits_truncated,
      Nat.shiftLeft_shiftRight]
  calc n.truncated.truncated
      = ⟨n.truncated.truncated.address, n.length, n.length_le⟩ := rfl
    _ = n.truncated := by rw [h]; rfl

end Network

/-- An IPv4 network. -/
abbrev Ipv4Net := Network .v4

/-- An IPv4 address with a prefix length of 24. -/
def Network.ofAddress24 (a : Address .v4) : Ipv4Net := ⟨a, 24, by decide⟩

/-- A network of either family. -/
inductive IpNet where
  | v4 (net : Network .v4)
  | v6 (net : Network .v6)
  deriving DecidableEq

namespace IpNet

/-- The network with all host bits cleared. -/
def truncated : IpNet → IpNet
  | v4 n => v4 n.truncated
  | v6 n => v6 n.truncated

/-- Whether the network is one of IPv4. -/
def isV4 : IpNet → Bool
  | v4 _ => true
  | v6 _ => false

/-- The place of a network in the order of all networks. -/
def rank : IpNet → Nat
  | v4 n => n.rank
  | v6 n => 0x10000000000 + n.rank

/-- The order of networks. -/
def le (a b : IpNet) : Bool := a.rank ≤ b.rank

@[simp] theorem truncated_truncated (n : IpNet) : n.truncated.truncated = n.truncated := by
  cases n <;> simp [truncated, Network.truncated_truncated]

end IpNet

namespace Network

/-- Two networks of one place are equal. -/
theorem rank_inj {f : Family} {a b : Network f} (h : a.rank = b.rank) : a = b := by
  obtain ⟨x, m, hm⟩ := a
  obtain ⟨y, n, hn⟩ := b
  have hw : f.width ≤ 128 := by cases f <;> decide
  simp only [rank] at h
  have hx : x.toNat = y.toNat := by omega
  have hl : m = n := by omega
  cases BitVec.eq_of_toNat_eq hx
  cases hl
  rfl

theorem rank_lt_of_v4 (n : Ipv4Net) : n.rank < 0x10000000000 := by
  have h : n.address.toNat < 2 ^ 32 := n.address.isLt
  have hl : n.length ≤ 32 := n.length_le
  simp only [rank]
  omega

end Network

/-- The order tells all networks apart. -/
theorem IpNet.rank_inj {a b : IpNet} (h : a.rank = b.rank) : a = b := by
  cases a with
  | v4 m =>
    cases b with
    | v4 n => exact congrArg v4 (Network.rank_inj h)
    | v6 n =>
      have := m.rank_lt_of_v4
      simp only [rank] at h
      omega
  | v6 m =>
    cases b with
    | v4 n =>
      have := n.rank_lt_of_v4
      simp only [rank] at h
      omega
    | v6 n =>
      have : m.rank = n.rank := by
        simp only [rank] at h
        omega
      exact congrArg v6 (Network.rank_inj this)

end HostNet
