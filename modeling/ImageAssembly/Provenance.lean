import ImageAssembly.Configuration.Basic
import ImageAssembly.Time.Rfc3339

/-! The annotations of an image: the configured ones, with the source and the revision that its
version control address names and the time of the build laid over them. -/

namespace ImageAssembly.Provenance

def sourceKey : String := "org.opencontainers.image.source"

def revisionKey : String := "org.opencontainers.image.revision"

def createdKey : String := "org.opencontainers.image.created"

/-- The annotations of an image that is built from `c` at `created`. -/
def annotations (c : Configuration) (created : Time.Instant) : Dictionary String :=
  let sourced := match Configuration.splitVcsUrl c.vcsUrl with
    | some (source, revision) => (c.annotations.insert sourceKey source).insert revisionKey revision
    | none => c.annotations
  sourced.insert createdKey created.toSecondText

end ImageAssembly.Provenance
