import Emsd.Ocp.Data

/-!
# The table that drives the formatter and the parser (`asn.h`, `asn.c`)

A compile tree says where in a C structure the values of a PDU are. An optional element has a flag
in the structure, a choice a selector.
-/

namespace Asn

open Ocp

/-- The bit of a tag that says that the contents are elements. -/
def constructor : UInt8 := 0x20

/-- `ASN_EXPLICIT`: the tag of a choice comes in addition to the one of its element. -/
def asnExplicit : UInt8 := 0x20

/-- A tag without the bit that the parser ignores. -/
def bare (tag : UInt8) : UInt8 := tag &&& ~~~constructor

/-- What every `ASN_TableEntry` has. No `existsOffset` is `ASN_MANDATORY`. -/
structure Info where
  tag : UInt8
  existsOffset : Option Nat := none
  dataOffset : Nat := 0
  maxDataLength : Nat := 0xffffffff
  deriving DecidableEq, Repr

/-- `ASN_TableEntry` with its `tableList`. -/
inductive Entry
  | integer (i : Info)
  | bcdString (i : Info)
  | octetString (i : Info)
  | sequence (i : Info) (tableList : List Entry)
  | choice (i : Info) (tableList : List Entry)

def Entry.info : Entry → Info
  | .integer i | .bcdString i | .octetString i | .sequence i _ | .choice i _ => i

/-- A structure: what is at each offset, by the type that is read there. A string is its octets. -/
structure CStruct where
  uint32 : Nat → UInt32 := fun _ => 0
  string : Nat → Octets := fun _ => []
  selector : Nat → UInt8 := fun _ => 0
  boolean : Nat → Bool := fun _ => false

namespace CStruct

def setUint32 (c : CStruct) (o : Nat) (v : UInt32) : CStruct :=
  { c with uint32 := Function.update c.uint32 o v }

def setString (c : CStruct) (o : Nat) (v : Octets) : CStruct :=
  { c with string := Function.update c.string o v }

def setSelector (c : CStruct) (o : Nat) (v : UInt8) : CStruct :=
  { c with selector := Function.update c.selector o v }

def setBoolean (c : CStruct) (o : Nat) (v : Bool) : CStruct :=
  { c with boolean := Function.update c.boolean o v }

/-- The flag of an element, when it has one. -/
def setExists (c : CStruct) (i : Info) (v : Bool) : CStruct :=
  match i.existsOffset with
  | none => c
  | some o => c.setBoolean o v

end CStruct

/-- The element is to be in the PDU. -/
def Info.present (i : Info) (s : CStruct) : Bool :=
  match i.existsOffset with
  | none => true
  | some o => s.boolean o

/-! ## What the compile functions promise -/

/-- The tags that an element can begin with. -/
def Entry.tags : Entry → List UInt8
  | .choice i es => if i.tag = 0 then tagsAll es else [bare i.tag]
  | .integer i | .bcdString i | .octetString i | .sequence i _ => [bare i.tag]
where
  tagsAll : List Entry → List UInt8
    | [] => []
    | e :: es => e.tags ++ tagsAll es

/-- A tag of its own, without the bit for constructed contents. -/
def PlainTag (tag : UInt8) : Prop := tag ≠ 0 ∧ tag &&& constructor = 0

instance (tag : UInt8) : Decidable (PlainTag tag) := by unfold PlainTag; infer_instance

mutual

/-- What a compile function builds: tagged elements, choices without a tag or with an explicit one, distinct
tags among siblings. As in ASN.1, only components of sequences are optional: the alternatives of a
choice are not. -/
def Entry.WellFormed : Entry → Prop
  | .integer i | .bcdString i | .octetString i => PlainTag i.tag
  | .sequence i es => PlainTag i.tag ∧ (Entry.tags.tagsAll es).Nodup ∧ WellFormedAll es
  | .choice i es => (i.tag = 0 ∨ i.tag &&& asnExplicit ≠ 0) ∧ (Entry.tags.tagsAll es).Nodup ∧
      es ≠ [] ∧ (∀ e ∈ es, e.info.existsOffset = none) ∧ WellFormedAll es

def WellFormedAll : List Entry → Prop
  | [] => True
  | e :: es => e.WellFormed ∧ WellFormedAll es

end

end Asn
