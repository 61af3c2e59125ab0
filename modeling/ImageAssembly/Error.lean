import ImageAssembly.Architecture
import ImageAssembly.Configuration.File
import ImageAssembly.Export.Tarball
import ImageAssembly.Image.Layout
import ImageAssembly.Time.SourceDate

/-! Errors: what stops any part of the work, with its kind and its text. Nothing is tried again; the
outcome is a whole image or one of these. -/

namespace ImageAssembly

/-- What stopped the work. -/
inductive Error
  | load (fault : Configuration.LoadFault)
  | merge (fault : Configuration.Fault)
  | architecture (fault : Architecture.Fault)
  | sourceDate (fault : Time.SourceDate.Fault)
  | tag (fault : Tag.Fault)
  | digest (fault : Digest.Fault)
  | layer (fault : Layer.Fault)
  | layout (fault : Layout.Fault)
  | append (fault : Image.AppendFault)
  | config (fault : Image.ConfigFault)
  | commit (fault : Image.CommitFault)
  | build (fault : Build.Fault)
  | noImage
  | write (fault : Export.Fault)

namespace Error

def kind : Error → ErrorKind
  | .load fault => fault.kind
  | .merge _ => .configMerge
  | .architecture _ | .sourceDate _ => .config
  | .tag fault => .invalidTag fault.reference
  | .digest _ | .layout _ => .ociImage
  | .layer fault => fault.kind
  | .append _ => .layerAppend
  | .config _ => .configFile
  | .commit _ => .configCommit
  | .build fault => fault.kind
  | .noImage => .noImage
  | .write fault => fault.kind

def cause : Error → String
  | .load fault => fault.cause
  | .merge fault => fault.message
  | .architecture fault => fault.message
  | .sourceDate fault => fault.message
  | .tag fault => fault.cause.message
  | .digest fault => fault.message
  | .layer fault => fault.cause
  | .layout fault => fault.message
  | .append fault => fault.message
  | .config fault => fault.message
  | .commit fault => fault.message
  | .build fault => fault.cause
  | .noImage => ""
  | .write fault => fault.cause

/-- The text of an error. -/
def message (e : Error) : String := e.kind.describe e.cause

end Error

end ImageAssembly
