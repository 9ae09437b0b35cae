import P2P.Native.DhtNode
import P2P.Native.Hex

/-!
# The saved state of a DHT node (`Kademlia.hpp`)

`save_persisted_state` writes the id of the node and its routing table to a file, and
`load_persisted_state` fills the table of a new node.
-/

namespace P2P

open Bencode

def octet? (text : Bytes) : Option UInt8 :=
  if Decimal.canonNat text && Decimal.digitsVal text < 256 then
    some (.ofNat (Decimal.digitsVal text))
  else none

/-- `asio::ip::make_address` when the result is an IPv4 address. -/
def makeAddressV4? (text : Bytes) : Option AddressV4 :=
  match (text.takeWhile (· ≠ 0)).splitOn 46 with
  | [a, b, c, d] =>
    match octet? a, octet? b, octet? c, octet? d with
    | some b0, some b1, some b2, some b3 => some ⟨b0, b1, b2, b3⟩
    | _, _, _, _ => none
  | _ => none

def savedNode (e : BucketEntry) : Value :=
  dictOf [(.ascii "i", .str (bytesToHex e.id.val)), (.ascii "ip", .str e.endpoint.address.text),
    (.ascii "p", .int e.endpoint.port.toUInt64.toInt64)]

def savedRoot (isV4 : BucketEntry → Bool) (n : DhtNode) : Value :=
  dictOf [(.ascii "i", .str (bytesToHex n.myNodeId.val)),
    (.ascii "n", .list ((n.routingTable.allEntries.filter isV4).map savedNode))]

def savePersistedState (isV4 : BucketEntry → Bool) (n : DhtNode) : Bytes :=
  encode (savedRoot isV4 n)

/-- The entry with the three fields of an element; `none` when the element is skipped. -/
def loadedEntry (id ip : Bytes) (p : Int64) (now : Int) : Except HexError (Option BucketEntry) :=
  match hexToBytes id with
  | .error e => .error e
  | .ok idBytes =>
    if h : idBytes.length = 20 then
      .ok ((makeAddressV4? ip).map fun addr =>
        ⟨⟨idBytes, h⟩, ⟨addr, p.toUInt64.toUInt16⟩, .good, now, now⟩)
    else .ok none

def loadedNode (nv : Value) (now : Int) : Except HexError (Option BucketEntry) :=
  match nv with
  | .dict nd =>
    match Assoc.find? nd (.ascii "i"), Assoc.find? nd (.ascii "ip"),
      Assoc.find? nd (.ascii "p") with
    | some (.str id), some (.str ip), some (.int p) => loadedEntry id ip p now
    | _, _, _ => .ok none
  | _ => .ok none

/-- The loop over the nodes. An exception ends it; the nodes before are in the table. -/
def loadNodes (now : Int) : RouteTable → List Value → RouteTable
  | rt, [] => rt
  | rt, nv :: rest =>
    match loadedNode nv now with
    | .ok (some entry) => loadNodes now (rt.insert entry now) rest
    | .ok none => loadNodes now rt rest
    | .error _ => rt

/-- `DHTNode::load_persisted_state`; `file` is the content of the file, if there is one. -/
def loadPersistedState (file : Option Bytes) (n : DhtNode) : DhtNode :=
  match file with
  | none => n
  | some data =>
    if data.isEmpty then n
    else
      match decode data with
      | .ok (.dict root) =>
        match Assoc.find? root (.ascii "n") with
        | some (.list nodes) => { n with routingTable := loadNodes n.now n.routingTable nodes }
        | _ => n
      | _ => n

end P2P
