import Sponge.NetParser

/-!
# Sponge.Address

Addresses (`address.hh`, `address.cc`).  Those of this development are IPv4
addresses with a port, so `ipv4_numeric` does not throw.

An address is made from a dotted quad by the C library.  `Resolver` stands for
the two functions that are used, with what they promise about numeric
addresses.
-/

namespace Sponge

/-- An IPv4 address and a port. -/
structure Address where
  ip : UInt32
  port : UInt16 := 0
  deriving DecidableEq, Repr

namespace Address

def ipv4Numeric (a : Address) : UInt32 := a.ip

end Address

/-- `inetNtoa ip` is `inet_ntoa({htobe32(ip)})`, and `getaddrinfo` the constructor of an
address from a dotted quad and a port. -/
structure Resolver where
  inetNtoa : UInt32 → String
  getaddrinfo : String → UInt16 → Except Exception Address
  getaddrinfo_inetNtoa : ∀ ip port, getaddrinfo (inetNtoa ip) port = .ok ⟨ip, port⟩

namespace Resolver

/-- The bytes of a string come back from its characters. -/
theorem ofNat_toNat_char (byte : UInt8) : UInt8.ofNat (Char.ofNat byte.toNat).toNat = byte := by
  have hvalid : byte.toNat.isValidChar := .inl (Nat.lt_trans byte.toNat_lt (by decide))
  have hchar : (Char.ofNat byte.toNat).toNat = byte.toNat := by
    rw [Char.ofNat, dif_pos hvalid]
    rfl
  rw [hchar, UInt8.ofNat_toNat]

/-- A resolver that writes an address as its four bytes. -/
def bytewise : Resolver where
  inetNtoa ip := String.ofList ((beBytes 4 ip.toNat).map fun byte => Char.ofNat byte.toNat)
  getaddrinfo node port :=
    .ok ⟨UInt32.ofNat (beValue (node.toList.map fun c => UInt8.ofNat c.toNat)), port⟩
  getaddrinfo_inetNtoa ip port := by
    have hip : ip.toNat < 256 ^ 4 := ip.toNat_lt
    have hbytes : ((fun c : Char => UInt8.ofNat c.toNat) ∘
        fun byte : UInt8 => Char.ofNat byte.toNat) = id := funext ofNat_toNat_char
    rw [String.toList_ofList, List.map_map, hbytes, List.map_id, beValue_beBytes,
      Nat.mod_eq_of_lt hip, UInt32.ofNat_toNat]

end Resolver

end Sponge
