import P2P.Native.Base32
import P2P.Native.Hex

/-!
# Magnet links (`MagnetUri.hpp`)

`parse_magnet_uri` splits the query at `&` and a parameter at the first `=`, and decodes the value.
`to_magnet_uri` writes the fields as they are. An exception is `none`.
-/

namespace P2P

open Bytes

structure MagnetLink where
  infoHash : Bytes := List.replicate 20 0
  displayName : Bytes := []
  trackerUrls : List Bytes := []
  sourceUrls : List Bytes := []
  parsed : Bool := false
  deriving DecidableEq, Repr

namespace MagnetLink

def plusToSpace (c : UInt8) : UInt8 := if c = 43 then 32 else c

def urlDecode : Bytes → Bytes
  | c :: a :: b :: rest =>
    if c = 37 then
      match hexDigit? a, hexDigit? b with
      | some high, some low => (16 * high + low) :: urlDecode rest
      | _, _ => c :: urlDecode (a :: b :: rest)
    else plusToSpace c :: urlDecode (a :: b :: rest)
  | [c, a] => [plusToSpace c, plusToSpace a]
  | [c] => [plusToSpace c]
  | [] => []

def decodeHexInfoHash (hex : Bytes) : Option Bytes :=
  if hex.length ≠ 40 then none else (hexPairs hex).toOption

def setParam (link : MagnetLink) (key value : Bytes) : Option MagnetLink :=
  if key = ascii "xt" then
    if value.take 9 = ascii "urn:btih:" then
      let hashStr := value.drop 9
      if hashStr.length = 40 then
        (decodeHexInfoHash hashStr).map fun hash => { link with infoHash := hash, parsed := true }
      else if hashStr.length = 32 then
        (decodeBase32InfoHash hashStr).map fun hash =>
          { link with infoHash := hash, parsed := true }
      else some link
    else some link
  else if key = ascii "dn" then some { link with displayName := value }
  else if key = ascii "tr" then
    some (if value ≠ [] then { link with trackerUrls := link.trackerUrls ++ [value] } else link)
  else if key = ascii "xs" then
    some (if value ≠ [] then { link with sourceUrls := link.sourceUrls ++ [value] } else link)
  else some link

def readParam (link : MagnetLink) (param : Bytes) : Option MagnetLink :=
  if !param.contains 61 then some link
  else
    let key := param.takeWhile (· != 61)
    setParam link key (urlDecode (param.drop (key.length + 1)))

def parseMagnetUri (uri : Bytes) : Option MagnetLink :=
  if uri.take 8 ≠ ascii "magnet:?" then none
  else do
    let link ← ((uri.drop 8).splitOn 38).foldlM readParam {}
    if link.parsed then some link else none

def toMagnetUri (link : MagnetLink) : Bytes :=
  ascii "magnet:?xt=urn:btih:" ++ bytesToHex link.infoHash ++
    (if link.displayName ≠ [] then ascii "&dn=" ++ link.displayName else []) ++
    (link.trackerUrls.flatMap fun tr => ascii "&tr=" ++ tr) ++
    link.sourceUrls.flatMap fun xs => ascii "&xs=" ++ xs

end MagnetLink

end P2P
