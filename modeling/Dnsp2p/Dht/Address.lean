import Dnsp2p.Library.Bytes

/-!
# Socket addresses

The two address families of the DHT.  A `struct sockaddr_storage` and its length
are one value of `Sockaddr`; a slot whose family is zero is an absent value.
-/

namespace Dnsp2p.Dht

/-- `AF_INET` or `AF_INET6`. -/
inductive Family where
  | inet
  | inet6
  deriving DecidableEq, Repr

/-- The other address family. -/
def Family.other : Family → Family
  | inet => inet6
  | inet6 => inet

/-- `struct sockaddr_in`, port and address in network order. -/
structure SockaddrIn where
  port : Field 2
  addr : Field 4
  deriving DecidableEq

/-- `struct sockaddr_in6`, port and address in network order. -/
structure SockaddrIn6 where
  port : Field 2
  flowinfo : Field 4
  addr : Field 16
  scopeId : Field 4
  deriving DecidableEq

/-- A `struct sockaddr` of one of the two families. -/
inductive Sockaddr where
  | inet (sin : SockaddrIn)
  | inet6 (sin6 : SockaddrIn6)
  deriving DecidableEq

/-- `sa->sa_family`. -/
def Sockaddr.family : Sockaddr → Family
  | inet _ => .inet
  | inet6 _ => .inet6

/-- A byte of an address. -/
def octet {width : Nat} (address : Field width) (index : Nat) : UInt8 :=
  address.bytes.getD index 0

/-- `v4prefix`, as far as it is compared. -/
def v4prefix : Bytes :=
  [0, 0, 0, 0, 0, 0, 0, 0, 0, 0, 0xFF, 0xFF]

/-- `is_martian`. -/
def isMartian : Sockaddr → Bool
  | .inet sin =>
      sin.port = Field.zero 2 || octet sin.addr 0 = 0 || octet sin.addr 0 &&& 0xE0 = 0xE0
  | .inet6 sin6 =>
      sin6.port = Field.zero 2 || octet sin6.addr 0 = 0xFF ||
        (octet sin6.addr 0 = 0xFE && octet sin6.addr 1 &&& 0xC0 = 0x80) ||
        (sin6.addr.bytes.take 15 = List.replicate 15 0 &&
          (octet sin6.addr 15 = 0 || octet sin6.addr 15 = 1)) ||
        sin6.addr.bytes.take 12 = v4prefix

end Dnsp2p.Dht
