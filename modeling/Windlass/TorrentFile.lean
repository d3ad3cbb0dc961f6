import Windlass.Values
import Windlass.Decimal
import Windlass.Scan

/-!
# Torrent files

Read a torrent file far enough to name and size it: the SHA-1 of its bencoded
info dictionary, and the length of all its files.
-/

namespace Windlass

abbrev Bytes := List UInt8

def ascii (c : Char) : UInt8 := c.toUInt8

def text (s : String) : Bytes := s.toList.map ascii

abbrev I64 := { n : Int // -2 ^ 63 ≤ n ∧ n < 2 ^ 63 }

def I64.parse (digits : Bytes) : Option I64 :=
  (Decimal.signed digits).bind fun n => if h : -2 ^ 63 ≤ n ∧ n < 2 ^ 63 then some ⟨n, h⟩ else none

def I64.toU64 (n : I64) : Option Nat := if 0 ≤ n.1 then some n.1.toNat else none

def parseUsize (digits : Bytes) : Option Nat := (Decimal.unsigned digits).filter (· ≤ u64Max)

def checkedAdd (a b : Nat) : Option Nat := if a + b ≤ u64Max then some (a + b) else none

structure TorrentFile where
  hash : TorrentHash
  size : ByteSize
deriving DecidableEq

namespace TorrentFile

open Scan

/-- Nesting deeper than this is not a torrent file. -/
def maxDepth : Nat := 32

/-- A bencoded value; a dictionary keeps the bytes of its values. -/
inductive Value
  | integer (n : I64)
  | bytes (bytes : Bytes)
  | list (items : List Value)
  | dictionary (entries : List (Bytes × Value × Bytes))

/-! ## Parsing -/

def parseInteger : Scanner UInt8 Value := fun input =>
  (input.finIdxOf? (ascii 'e')).bind fun end' =>
    (I64.parse ((input.take end').drop 1)).map fun n =>
      (.integer n, Rest.drop (end' + 1) (Nat.succ_pos _) end'.isLt)

def parseBytes : Scanner UInt8 Value := fun input =>
  (input.finIdxOf? (ascii ':')).bind fun colon =>
    (parseUsize (input.take colon)).bind fun length =>
      let start := colon.1 + 1
      let end' := start + length
      if h : end' ≤ u64Max ∧ end' ≤ input.length then
        some (.bytes ((input.take end').drop start), Rest.drop end' (by omega) h.2)
      else none

def parseEntry (value : Scanner UInt8 Value) : Scanner UInt8 (Bytes × Value × Bytes) := fun input =>
  match value input with
  | some (.bytes key, after) =>
    (value after.1).map fun (value, afterValue) =>
      ((key, value, after.1.take (after.1.length - afterValue.1.length)), after.trans afterValue)
  | _ => none

/-- Parse one value, nested in so many levels at most. -/
def parseWithin : Nat → Scanner UInt8 Value
  | 0 => fun _ => none
  | levels + 1 => fun input =>
    match input with
    | [] => none
    | first :: rest =>
      if first = ascii 'i' then parseInteger (first :: rest)
      else if first = ascii 'l' then
        (many (ascii 'e') (parseWithin levels) rest).map fun (items, after) =>
          (.list items, (Rest.tail first rest).trans after)
      else if first = ascii 'd' then
        (many (ascii 'e') (parseEntry (parseWithin levels)) rest).map fun (entries, after) =>
          (.dictionary entries, (Rest.tail first rest).trans after)
      else if ascii '0' ≤ first ∧ first ≤ ascii '9' then parseBytes (first :: rest)
      else none

/-- Parse one value at this depth; the rest of the input follows it. -/
def parse (input : Bytes) (depth : Nat) : Option (Value × Bytes) :=
  (parseWithin (maxDepth + 1 - depth)).run input

/-! ## Reading -/

def field (name : String) (entries : List (Bytes × Value × Bytes)) : Option Value :=
  (entries.find? fun (key, _, _) => key = text name).map fun (_, value, _) => value

/-- The first length among a file's entries. -/
def fileLength : Value → Option Nat
  | .dictionary file =>
    file.findSome? fun (key, value, _) =>
      match value with
      | .integer length => if key = text "length" then length.toU64 else none
      | _ => none
  | _ => none

def infoSize (info : List (Bytes × Value × Bytes)) : Option Nat :=
  match field "length" info, field "files" info with
  | some (.integer length), none => length.toU64
  | none, some (.list files) =>
    files.foldlM (fun total file => (fileLength file).bind fun length => checkedAdd total length) 0
  | _, _ => none

def hexDigits (byte : UInt8) : List (Fin 16) :=
  [⟨byte.toNat / 16, Nat.div_lt_of_lt_mul byte.toNat_lt⟩, ⟨byte.toNat % 16, Nat.mod_lt _ (by decide)⟩]

/-- A SHA-1 digest in hexadecimal. -/
def hexHash (digest : Vector UInt8 20) : TorrentHash where
  digits := digest.toList.flatMap hexDigits
  valid := by
    left
    simp [List.length_flatMap, hexDigits]

/-- Read a version 1 torrent file; anything else is none. -/
def read (sha1 : Bytes → Vector UInt8 20) (bytes : Bytes) : Option TorrentFile :=
  match parse bytes 0 with
  | some (.dictionary entries, []) =>
    (entries.find? fun (key, _, _) => key = text "info").bind fun (_, info, encoded) =>
      match info with
      | .dictionary info => (infoSize info).map fun size =>
        { hash := hexHash (sha1 encoded), size := size }
      | _ => none
  | _ => none

end TorrentFile

end Windlass
