import ImageAssembly.Index
import ImageAssembly.Proofs.Manifest

/-! An index is read as the digests of the descriptors that it lists, if their sizes fit into the bits that are looked
at. -/

namespace ImageAssembly.Index

open Json
open Text.Integer (bound)

theorem check_eq_ok {α : Type} {decode : Tree → Decoded α} {t : Tree} {a : α} (h : decode t = .ok a) :
    check decode t = .ok () := by
  rw [check, h]
  rfl

def mediaTypeSlot : Slot DescriptorFields where
  decode := checkText
  get := DescriptorFields.mediaType
  put s o := { s with mediaType := o }

def digestSlot : Slot DescriptorFields where
  decode := Tree.text
  get := DescriptorFields.digest
  put s o := { s with digest := o }

def sizeSlot : Slot DescriptorFields where
  decode := check Tree.integer64
  get := DescriptorFields.size
  put s o := { s with size := o }

def annotationsSlot : Slot DescriptorFields where
  decode := checkOptionalDictionary
  get := DescriptorFields.annotations
  put s o := { s with annotations := o }

def schemaVersionSlot : Slot Fields where
  decode := check Tree.natural32
  get := Fields.schemaVersion
  put s o := { s with schemaVersion := o }

def manifestsSlot : Slot Fields where
  decode := Tree.list decodeDescriptor
  get := Fields.manifests
  put s o := { s with manifests := o }

/-- A written descriptor is read as its digest. -/
theorem decodeDescriptor_tree {d : Descriptor} (hd : d.size < bound 63) :
    decodeDescriptor d.encode.tree = .ok d.digest.toText := by
  have hmediaType : mediaTypeSlot.decode d.mediaType.encode.tree = .ok () := rfl
  have hdigest : digestSlot.decode (Value.string d.digest.toText).tree = .ok d.digest.toText := rfl
  have hmax : bound 63 ≤ maxNatural := by decide
  have hreadable : (Number.integer d.size).IsReadable := by
    rw [Number.IsReadable]
    omega
  have hsize : sizeSlot.decode (naturalValue d.size).tree = .ok () :=
    check_eq_ok (integer_tree "i64" hreadable (by omega))
  have hannotations : annotationsSlot.decode (dictionaryValue .string d.annotations).tree = .ok () := by
    have hread : Tree.dictionaryOfText (dictionaryValue .string d.annotations).tree = .ok d.annotations :=
      dictionary_tree fun _ _ => rfl
    exact check_eq_ok (congrArg (Except.map some) hread)
  have hfirst : Reads DescriptorFields.read (member "mediaType" d.mediaType.encode) {} _ :=
    .field mediaTypeSlot "mediaType" rfl rfl hmediaType
  have hreads := ((hfirst.append (.field digestSlot "digest" rfl rfl hdigest)).append
    (.field sizeSlot "size" rfl rfl hsize)).append
    (.fieldUnless annotationsSlot "annotations" rfl rfl hannotations d.annotations.isEmpty)
  rw [Descriptor.encode, dictionaryMember, Value.tree, decodeDescriptor, hreads]
  rfl

/-- An index that lists descriptors. -/
def valueOf (manifests : List Descriptor) : Value :=
  .object (member "schemaVersion" (naturalValue 2) ++ member "manifests" (listValue Descriptor.encode manifests))

theorem decode_valueOf {manifests : List Descriptor} (h : ∀ d ∈ manifests, d.size < bound 63) :
    decodeBytes decode (valueOf manifests).toBytes = .ok (manifests.map (·.digest.toText)) := by
  have hversion : schemaVersionSlot.decode (naturalValue 2).tree = .ok () := check_eq_ok (natural32_tree (by decide))
  have hmanifests : manifestsSlot.decode (listValue Descriptor.encode manifests).tree =
      .ok (manifests.map (·.digest.toText)) := list_tree_map fun d hd => decodeDescriptor_tree (h d hd)
  have hfirst : Reads Fields.read (member "schemaVersion" (naturalValue 2)) {} _ :=
    .field schemaVersionSlot "schemaVersion" rfl rfl hversion
  have hreads := hfirst.append (.field manifestsSlot "manifests" rfl rfl hmanifests)
  rw [decodeBytes_toBytes, valueOf, Value.tree, decode, hreads]
  rfl

end ImageAssembly.Index
