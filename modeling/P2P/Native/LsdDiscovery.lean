import Mathlib.Data.Finset.Insert
import P2P.Native.Base32
import P2P.Native.RouteTable
import P2P.Native.TorrentSession

/-!
# Local discovery (`LsdDiscovery.hpp`)

A session announces its info hash and its port to a multicast group, and takes peers from the
announcements that it receives. The addresses are those of IPv4.
-/

namespace P2P

open Bytes

namespace LsdDiscovery

def buildAnnounceMessage (infoHash : Bytes) (listeningPort : UInt16) : Bytes :=
  ascii "BT-SEARCH * HTTP/1.1\r\nHost: 239.192.152.143:6771\r\nPort: " ++
    Decimal.printNat listeningPort.toNat ++ ascii "\r\nInfohash: " ++
    LsdCrypto.base32Encode infoHash ++ ascii "\r\n\r\n"

def field (name announcement : Bytes) : Option Bytes := do
  let pos ← search name announcement
  let rest := announcement.drop (pos + name.length)
  let len ← search (ascii "\r\n") rest
  return rest.take len

def parseAnnouncement (announcement : Bytes) : Option (Bytes × UInt16) := do
  let _ ← search (ascii "BT-SEARCH") announcement
  let infohashB32 ← field (ascii "Infohash: ") announcement
  let portStr ← field (ascii "Port: ") announcement
  let port ← TorrentSession.stoul portStr
  return (infohashB32, UInt16.ofNat port)

/-- `parse_and_add_peer`: the discovered peers afterwards. -/
def parseAndAddPeer (ourInfoHash : Bytes) (listeningPort : UInt16) (announcement : Bytes)
    (senderAddr : AddressV4) (discovered : Finset Endpoint) : Finset Endpoint :=
  match parseAnnouncement announcement with
  | none => discovered
  | some (infohashB32, port) =>
    if ourInfoHash = [] then discovered
    else if infohashB32 ≠ LsdCrypto.base32Encode ourInfoHash then discovered
    else if port = listeningPort then discovered
    else if port = 0 then discovered
    else insert ⟨senderAddr, port⟩ discovered

end LsdDiscovery

end P2P
