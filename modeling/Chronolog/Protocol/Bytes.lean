import Mathlib.Data.List.Basic

/-!
# Byte strings

The byte strings of the protocol and their order: `compareBytes` compares them
byte by byte, a proper beginning coming first. Keys of maps are byte strings
rendered as hexadecimal or base64url text in the source; both renderings are
injective, so the maps of the model are keyed by the bytes themselves.
-/

namespace Chronolog

/-- A `Uint8Array`. -/
abbrev Bytes := List UInt8

instance : LawfulBEq Bytes := inferInstance

/-- The order of byte strings: by the first byte that differs, a proper
    beginning of a byte string coming before it. -/
def compareBytes (left right : Bytes) : Ordering := compare left right

instance : Std.TransCmp compareBytes :=
  inferInstanceAs (Std.TransCmp (compare : Bytes → Bytes → Ordering))

instance : Std.LawfulEqCmp compareBytes :=
  inferInstanceAs (Std.LawfulEqCmp (compare : Bytes → Bytes → Ordering))

/-- The relation a sort by `compareBytes` sorts by. -/
abbrev BytesLe (left right : Bytes) : Prop := (compareBytes left right).isLE

instance : Std.Total BytesLe where
  total left right := by
    have h : compareBytes right left = (compareBytes left right).swap := Std.OrientedCmp.eq_swap
    rw [BytesLe, BytesLe, h]
    cases compareBytes left right <;> simp

instance : IsTrans Bytes BytesLe where
  trans _ _ _ := Std.TransCmp.isLE_trans

instance : Std.Antisymm BytesLe where
  antisymm _ _ h h' := Std.LawfulEqCmp.eq_of_compare (Std.OrientedCmp.isLE_antisymm h h')

/-- The hexadecimal text of a byte string. -/
def bytesToHex (value : Bytes) : String :=
  String.ofList <| value.flatMap fun byte =>
    [Nat.digitChar (byte.toNat / 16), Nat.digitChar (byte.toNat % 16)]

/-- The canonical encoding of a text: UTF-8. (A text of the model has no
    unpaired surrogates, on which the source's `utf8` throws.) -/
def utf8 (value : String) : Bytes := value.toByteArray.data.toList

theorem utf8_injective : Function.Injective utf8 := fun _ _ h =>
  String.toByteArray_inj.1 (ByteArray.ext (Array.toList_inj.1 h))

end Chronolog
