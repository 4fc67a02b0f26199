/-
# Firmware manifests

`golioth_fw_desired_parse` of `fw.c`. A manifest is a map with a sequence number
and a list of components, of which the client takes one: a map with a version
and a URI, which are copied into buffers of the caller.
-/
import Golioth.Zcbor.Utils

namespace Golioth.Fw

open Golioth.Zcbor

variable {S : Type}

/-! ## Keys -/

def manifestKeySequenceNumber : UInt32 := 1
def manifestKeyComponents : UInt32 := 3

def componentKeyVersion : UInt32 := 2
def componentKeyUri : UInt32 := 5

/-- `struct component_tstr_value`: a buffer of the caller, and the length at `value_len`, which
is the room in the buffer before the call and the length of the text after it. -/
structure ComponentTstrValue where
  value : List UInt8
  valueLen : ℕ
  decoded : Bool := false
  deriving DecidableEq, Repr

/-- The variables the tables decode into, and the lookups that decoding the components has
made. -/
structure FwVars (S : Type) where
  sequenceNumber : Local ℤ
  version : ComponentTstrValue
  uri : ComponentTstrValue
  visits : List (List (Visit S)) := []

/-- A text copied into a buffer. -/
def ComponentTstrValue.copy (buffer : ComponentTstrValue) (text : List UInt8) :
    ComponentTstrValue where
  value := text ++ buffer.value.drop text.length
  valueLen := text.length
  decoded := true

/-- `component_entry_decode_value` into the buffer that `get` and `set` are about. -/
def componentEntryDecodeValue (lib : ZcborDecode S) (get : FwVars S → ComponentTstrValue)
    (set : ComponentTstrValue → FwVars S → FwVars S) (w : Cursor S (FwVars S)) :
    Walked S (FwVars S) :=
  match lib.tstrDecode w.zsd with
  | (none, zsd) => (some (-Errno.ebadmsg), { w with zsd := zsd })
  | (some str, zsd) =>
    if (get w.out).valueLen < str.len then (some (-Errno.enomem), { w with zsd := zsd })
    else
      (some 0, { w with zsd := zsd, out := set ((get w.out).copy (lib.text zsd str)) w.out })

/-- The table of `components_decode`. -/
def componentEntries (lib : ZcborDecode S) : List (ZcborMapEntry S (FwVars S)) :=
  [{ key := .u32 componentKeyVersion
     decode := componentEntryDecodeValue lib FwVars.version fun buffer vars =>
      { vars with version := buffer } },
    { key := .u32 componentKeyUri
      decode := componentEntryDecodeValue lib FwVars.uri fun buffer vars =>
        { vars with uri := buffer } }]

/-- The map of a component, whose lookups are recorded. -/
def componentDecode (lib : ZcborDecode S) (fuel : ℕ) (w : Cursor S (FwVars S)) :
    Walked S (FwVars S) :=
  let (visits, ret, w) := zcborMapDecodeVisits lib fuel (componentEntries lib) w
  (ret, { w with out := { w.out with visits := w.out.visits ++ [visits] } })

/-- `components_decode`. -/
def componentsDecode (lib : ZcborDecode S) (fuel : ℕ) (w : Cursor S (FwVars S)) :
    Walked S (FwVars S) :=
  okOrReturn (-Errno.ebadmsg) w (lib.listStartDecode w.zsd) fun w =>
    orReturn (componentDecode lib fuel w) fun w =>
      okOrReturn (-Errno.ebadmsg) w (lib.listEndDecode w.zsd) fun w => (some 0, w)

/-- The table of `golioth_fw_desired_parse`. -/
def manifestEntries (lib : ZcborDecode S) (fuel : ℕ) : List (ZcborMapEntry S (FwVars S)) :=
  [{ key := .u32 manifestKeySequenceNumber
     decode := zcborMapInt64Decode lib fun value vars =>
      { vars with sequenceNumber := { value := value, decoded := true } } },
    { key := .u32 manifestKeyComponents, decode := componentsDecode lib fuel }]

/-- `golioth_fw_desired_parse` with the lookups it makes. What it returns is what
`zcbor_map_decode` returns. -/
def goliothFwDesiredParseVisits (lib : ZcborDecode S) (fuel : ℕ) (payload : List UInt8)
    (vars : FwVars S) : List (Visit S) × Walked S (FwVars S) :=
  zcborMapDecodeVisits lib fuel (manifestEntries lib fuel)
    { zsd := lib.newDecodeState payload 1 3, out := vars }

/-- `golioth_fw_desired_parse`. -/
def goliothFwDesiredParse (lib : ZcborDecode S) (fuel : ℕ) (payload : List UInt8)
    (vars : FwVars S) : Walked S (FwVars S) :=
  (goliothFwDesiredParseVisits lib fuel payload vars).2

end Golioth.Fw
