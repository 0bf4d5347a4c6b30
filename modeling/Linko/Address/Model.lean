import Linko.Lib.Words
/-!
# Internet addresses

`IPv4Address` and `IPv6Address` of `address.h`, with the fields of their socket
addresses that the functions read. `LINKO_BYTE_ORDER` of `endian.h` is the
parameter `host`, the byte order of the machine.
-/

namespace Linko

open Words

/-- `sockaddr_in`. The words are as the machine loads them. -/
structure SockaddrIn where
  family : UInt16
  port : UInt16
  addr : UInt32
  deriving DecidableEq, Repr

/-- `sockaddr_in6` -/
structure SockaddrIn6 where
  family : UInt16
  port : UInt16
  addr : Vector UInt8 16
  deriving DecidableEq, Repr

structure IPv4Address where
  addr : SockaddrIn
  deriving DecidableEq, Repr

structure IPv6Address where
  addr : SockaddrIn6
  deriving DecidableEq, Repr

def afInet : UInt16 := 2

def afInet6 : UInt16 := 10

def byteswapOnLittleEndian (host : Order) {w : Nat} (t : BitVec (8 * w)) : BitVec (8 * w) :=
  match host with
  | .little => swap t
  | .big => t

/-- The bytes of the swapped word are those of the word on a big-endian machine. -/
theorem bytesOf_byteswapOnLittleEndian (host : Order) {w : Nat} (t : BitVec (8 * w)) :
    bytesOf host (byteswapOnLittleEndian host t) = bytesOf .big t := by
  cases host with
  | little => exact leBytes_swap t
  | big => rfl

theorem byteswapOnLittleEndian_involutive (host : Order) {w : Nat} (t : BitVec (8 * w)) :
    byteswapOnLittleEndian host (byteswapOnLittleEndian host t) = t := by
  cases host with
  | little => exact swap_swap t
  | big => rfl

end Linko
