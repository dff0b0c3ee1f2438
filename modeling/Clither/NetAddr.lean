import Clither.Hm

/-!
# Network addresses as hash map keys

`server_client_hm` and `net_addr_hm` are keyed by socket addresses.  The hash
reads all bytes of the stored address, last byte first.  The comparison calls
`memcmp` on the two structures with the length of the *address*, so that the
four bytes of the `len` field in front take part in it and the last four bytes
of the address do not.
-/

namespace Clither

/-- `struct net_addr`: at most `NET_MAX_ADDRLEN` bytes of socket address. -/
structure NetAddr where
  sockaddrStorage : List UInt8
  len_le : sockaddrStorage.length ≤ 32
  deriving DecidableEq

def NetAddr.len (a : NetAddr) : Nat :=
  a.sockaddrStorage.length

/-- One turn of the loop of `hash32_jenkins_oaat`. -/
def jenkinsByte (hash : UInt32) (byte : UInt8) : UInt32 :=
  let hash := hash + byte.toUInt32
  let hash := hash + (hash <<< 10)
  hash ^^^ (hash >>> 6)

def hash32JenkinsOaat (key : List UInt8) : UInt32 :=
  let hash := key.reverse.foldl jenkinsByte 0
  let hash := hash + (hash <<< 3)
  let hash := hash ^^^ (hash >>> 1)
  hash + (hash <<< 15)

/-- The bytes that `kvs_keys_equal` compares. -/
def NetAddr.compared (a : NetAddr) : Nat × List UInt8 :=
  (a.len, a.sockaddrStorage.take (a.len - 4))

def netAddrKeysEqual (k1 k2 : NetAddr) : Bool :=
  decide (k1.compared = k2.compared)

theorem netAddrKeysEqual_equiv : Equivalence fun a b => netAddrKeysEqual a b = true := by
  simp only [netAddrKeysEqual, decide_eq_true_eq]
  exact ⟨fun _ => rfl, Eq.symm, Eq.trans⟩

/-- The instance behind `server->clients`. -/
def serverClientHm : HmInstance NetAddr where
  bits := 16
  header := 20
  sizeofKey := 36
  sizeofValue := 104
  logMinCapacity := 4
  hashFunc := fun a => hash32JenkinsOaat a.sockaddrStorage
  keysEqual := netAddrKeysEqual
  sizeofKey_pos := by decide
  fits := by decide
  keysEqual_equiv := netAddrKeysEqual_equiv

/-- The instance behind `server->malicious_clients` and `server->banned_clients`. -/
def netAddrHm : HmInstance NetAddr where
  bits := 16
  header := 20
  sizeofKey := 36
  sizeofValue := 104
  logMinCapacity := 7
  hashFunc := fun a => hash32JenkinsOaat a.sockaddrStorage
  keysEqual := netAddrKeysEqual
  sizeofKey_pos := by decide
  fits := by decide
  keysEqual_equiv := netAddrKeysEqual_equiv

/-- The `sockaddr_in` of a port on the loopback interface. -/
def loopback (port : Nat) : NetAddr where
  sockaddrStorage :=
    [2, 0, UInt8.ofNat (port / 256), UInt8.ofNat port, 127, 0, 0, 1, 0, 0, 0, 0, 0, 0, 0, 0]
  len_le := by simp

end Clither
