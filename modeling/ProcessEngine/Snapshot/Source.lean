import ProcessEngine.Codec.Base64
import ProcessEngine.Codec.StoredBlocks

/-!
# Packed sources

The source of a stored definition is a raw DEFLATE stream of its bytes, written
in Base64.  Unpacking a packed source gives it back.
-/

namespace ProcessEngine.PackedSource

/-- Why a source cannot be unpacked. -/
inductive Fault where
  | notBase64
  | notInflatable
deriving Repr, DecidableEq

/-- A source in packed form. -/
def pack (source : String) : String :=
  String.ofList (Base64.encode (Deflate.store source.toUTF8.data.toList))

/-- The source of a packed form; it has to be a text. -/
def unpack (packed : String) : Except Fault String :=
  match Base64.decode? packed.toList with
  | none => .error .notBase64
  | some bytes =>
    match (Deflate.inflate? bytes).bind String.fromUTF8? with
    | none => .error .notInflatable
    | some source => .ok source

theorem fromUTF8?_toUTF8 (s : String) : String.fromUTF8? s.toUTF8 = some s := by
  unfold String.fromUTF8?
  exact dif_pos s.isValidUTF8

theorem unpack_pack (source : String) : unpack (pack source) = .ok source := by
  have hbytes : (⟨source.toUTF8.data.toList.toArray⟩ : ByteArray) = source.toUTF8 := rfl
  rw [unpack, pack, String.toList_ofList, Base64.decode?_encode]
  simp only [Deflate.inflate?_store, hbytes, Option.bind_some, fromUTF8?_toUTF8]

end ProcessEngine.PackedSource
