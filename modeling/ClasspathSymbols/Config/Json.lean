import ClasspathSymbols.Config
import ClasspathSymbols.Json.Decode

/-!
# Configuration in JSON

Each field may be missing; the default stands for it. A configuration may be an array of its
fields in order.
-/
namespace ClasspathSymbols.Config

open Json (Problem Decoder Reading Items)

structure Draft where
  queryTimeout : Option Nat
  guestExtensions : Option (List String)
  parallelIndex : Option Bool

def Draft.empty : Draft := ⟨none, none, none⟩

def Draft.finish (d : Draft) : Config where
  queryTimeout := d.queryTimeout.getD default.queryTimeout
  guestExtensions := d.guestExtensions.getD default.guestExtensions
  parallelIndex := d.parallelIndex.getD default.parallelIndex

def timeoutDecoder : Decoder Nat := .naturalBelow wordBound

def extensionsDecoder : Decoder (List String) := .list .string

def Draft.read (depth : Nat) (d : Draft) (key : String) (r : Reading) : Except Problem Draft := do
  if key = "query_timeout_ms" then
    return { d with queryTimeout := ← Json.once d.queryTimeout (timeoutDecoder depth r) }
  else if key = "guest_extensions" then
    return { d with guestExtensions := ← Json.once d.guestExtensions (extensionsDecoder depth r) }
  else if key = "parallel_index" then
    return { d with parallelIndex := ← Json.once d.parallelIndex (Decoder.bool depth r) }
  else
    r.skip
    return d

def fromItems (depth : Nat) (xs : Items) : Except Problem (Config × Items) := do
  let (queryTimeout, xs) ← xs.next timeoutDecoder depth
  let (guestExtensions, xs) ← xs.next extensionsDecoder depth
  let (parallelIndex, xs) ← xs.next .bool depth
  return (Draft.finish ⟨queryTimeout, guestExtensions, parallelIndex⟩, xs)

def decoder : Decoder Config :=
  .record .empty Draft.read (fun d => .ok d.finish) fromItems

def ofText (text : String) : Except Problem Config := Json.decode decoder text

end ClasspathSymbols.Config
