import ImageAssembly.Manifest
import ImageAssembly.Proofs.Json.Slots

/-! Manifests that come back as they were written. Digests and media types always do, numbers if they fit into the
bits that they are read into. -/

namespace ImageAssembly

open Json
open Text.Integer (bound)

/-- A written media type is read back. -/
theorem MediaType.decode_tree (m : MediaType) : decode m.encode.tree = .ok m := rfl

namespace Descriptor

/-- Whether the size of a blob fits into 64 bits. -/
def Fits (d : Descriptor) : Prop := d.size < bound 64

def mediaTypeSlot : Slot Fields where
  decode := MediaType.decode
  get := Fields.mediaType
  put s o := { s with mediaType := o }

def digestSlot : Slot Fields where
  decode := Tree.digest
  get := Fields.digest
  put s o := { s with digest := o }

def sizeSlot : Slot Fields where
  decode := Tree.natural64
  get := Fields.size
  put s o := { s with size := o }

def annotationsSlot : Slot Fields where
  decode := Tree.dictionaryOfText
  get := Fields.annotations
  put s o := { s with annotations := o }

/-- A descriptor comes back as it was written. -/
theorem decode_tree {d : Descriptor} (hd : d.Fits) : decode d.encode.tree = .ok d := by
  have hmediaType : Reads Fields.read (member "mediaType" d.mediaType.encode) {} _ :=
    .field mediaTypeSlot "mediaType" rfl rfl d.mediaType.decode_tree
  have hdigest : digestSlot.decode (Value.string d.digest.toText).tree = .ok d.digest := digest_tree d.digest
  have hsize : sizeSlot.decode (naturalValue d.size).tree = .ok d.size := natural64_tree hd
  have hannotations : annotationsSlot.decode (dictionaryValue .string d.annotations).tree = .ok d.annotations :=
    dictionary_tree fun _ _ => rfl
  have hreads := ((hmediaType.append (.field digestSlot "digest" rfl rfl hdigest)).append
    (.field sizeSlot "size" rfl rfl hsize)).append
    (.fieldUnless annotationsSlot "annotations" rfl rfl hannotations d.annotations.isEmpty)
  rw [encode, dictionaryMember, Value.tree, decode, hreads]
  exact congrArg (fun annotations => Except.ok { d with annotations }) (getD_dictionary d.annotations)

end Descriptor

namespace Manifest

/-- Whether the numbers of a manifest fit into the bits that they are read into. -/
structure Fits (m : Manifest) : Prop where
  schemaVersion : m.schemaVersion < bound 32
  config : m.config.Fits
  layers : ∀ d ∈ m.layers, d.Fits

def schemaVersionSlot : Slot Fields where
  decode := Tree.natural32
  get := Fields.schemaVersion
  put s o := { s with schemaVersion := o }

def mediaTypeSlot : Slot Fields where
  decode := Tree.optional MediaType.decode
  get := Fields.mediaType
  put s o := { s with mediaType := o }

def configSlot : Slot Fields where
  decode := Descriptor.decode
  get := Fields.config
  put s o := { s with config := o }

def layersSlot : Slot Fields where
  decode := Tree.list Descriptor.decode
  get := Fields.layers
  put s o := { s with layers := o }

def annotationsSlot : Slot Fields where
  decode := Tree.dictionaryOfText
  get := Fields.annotations
  put s o := { s with annotations := o }

/-- A manifest comes back as it was written. -/
theorem ofBytes_toBytes {m : Manifest} (hm : m.Fits) : ofBytes m.toBytes = .ok m := by
  have hversion : schemaVersionSlot.decode (naturalValue m.schemaVersion).tree = .ok m.schemaVersion :=
    natural32_tree hm.schemaVersion
  have hmediaType : ∀ t ∈ m.mediaType, mediaTypeSlot.decode t.encode.tree = .ok (some t) := fun _ _ => rfl
  have hconfig : configSlot.decode m.config.encode.tree = .ok m.config := Descriptor.decode_tree hm.config
  have hlayers : layersSlot.decode (listValue Descriptor.encode m.layers).tree = .ok m.layers :=
    list_tree fun d hd => Descriptor.decode_tree (hm.layers d hd)
  have hannotations : annotationsSlot.decode (dictionaryValue .string m.annotations).tree = .ok m.annotations :=
    dictionary_tree fun _ _ => rfl
  have hfirst : Reads Fields.read (member "schemaVersion" (naturalValue m.schemaVersion)) {} _ :=
    .field schemaVersionSlot "schemaVersion" rfl rfl hversion
  have hreads := (((hfirst.append (.fieldOf mediaTypeSlot "mediaType" (fun _ => rfl) rfl hmediaType)).append
    (.field configSlot "config" rfl rfl hconfig)).append
    (.field layersSlot "layers" rfl rfl hlayers)).append
    (.fieldUnless annotationsSlot "annotations" rfl rfl hannotations m.annotations.isEmpty)
  have htype : (m.mediaType.map some).getD none = m.mediaType := by cases m.mediaType <;> rfl
  have hcomplete : (Except.ok { m with
      mediaType := (m.mediaType.map some).getD none
      annotations := (valueUnless m.annotations.isEmpty m.annotations).getD .empty } : Decoded Manifest) = .ok m := by
    rw [htype, getD_dictionary]
  rw [ofBytes, toBytes, decodeBytes_toBytes, encode, dictionaryMember, Value.tree, decode, hreads]
  exact hcomplete

end Manifest

end ImageAssembly
