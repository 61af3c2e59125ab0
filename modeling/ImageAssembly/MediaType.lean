import ImageAssembly.Json.Decode

/-! Media types, by name: the kinds of the blobs that an image is made of. -/

namespace ImageAssembly

/-- A media type. It is its name and nothing else: a known type and any other type that bears the name of it are one
value. -/
structure MediaType where
  name : String
  deriving DecidableEq, Repr, Inhabited

namespace MediaType

/-- The manifest of an image. -/
def imageManifest : MediaType := ⟨"application/vnd.oci.image.manifest.v1+json"⟩

/-- The configuration of an image. -/
def imageConfig : MediaType := ⟨"application/vnd.oci.image.config.v1+json"⟩

/-- A layer that is a plain tar archive. -/
def layer : MediaType := ⟨"application/vnd.oci.image.layer.v1.tar"⟩

/-- A layer that is a compressed tar archive. -/
def layerGzip : MediaType := ⟨"application/vnd.oci.image.layer.v1.tar+gzip"⟩

/-- The manifest of an image before it is built on. -/
def initialManifest : MediaType := ⟨"application/vnd.docker.distribution.manifest.v2+json"⟩

/-- The configuration of an image before it is built on. -/
def initialConfig : MediaType := ⟨"application/vnd.docker.container.image.v1+json"⟩

def decode (t : Json.Tree) : Json.Decoded MediaType := t.text.map fun name => ⟨name⟩

def encode (m : MediaType) : Json.Value := .string m.name

end MediaType

end ImageAssembly
