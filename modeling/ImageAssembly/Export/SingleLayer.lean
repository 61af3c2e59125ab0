import ImageAssembly.Error

/-! Images of one layer, built on nothing and written at once. -/

namespace ImageAssembly.Export

/-- Builds the image of one layer and writes it as an archive under the name that `reference` gives. The
reference is looked at last, but before the file is created. -/
def buildFromLayer (reference : String) (l : Layer) (path : String) (description : Configuration)
    (created : Time.Instant) (arch : Architecture) : Action Error Unit := do
  let image ← (Build.build .empty [l] description created arch).mapFault .build
  if image.layers.isEmpty then throw .noImage
  let tag ← Action.ofExcept ((Tag.parse reference).mapError .tag)
  (writeFile path tag image).mapFault .write

end ImageAssembly.Export
