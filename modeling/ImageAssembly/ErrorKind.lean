/-! The kinds of errors. Each names the part of the work that failed, and its label opens the error's
text. -/

namespace ImageAssembly

/-- What failed. -/
inductive ErrorKind
  | configMerge
  | layerDigest
  | layerDiffId
  | layerAppend
  | configFile
  | entrypointParse
  | cmdParse
  | configCommit
  | noImage
  | invalidTag (reference : String)
  | tarballWrite
  | ociImage
  | config
  | io
  | serialization
  deriving DecidableEq, Repr

/-- The text of an error of a kind, from the text of its cause. -/
def ErrorKind.describe (kind : ErrorKind) (cause : String) : String :=
  match kind with
  | .configMerge => "Config merge failed: " ++ cause
  | .layerDigest => "Could not calculate layer digest: " ++ cause
  | .layerDiffId => "Could not calculate layer diff id: " ++ cause
  | .layerAppend => "Unable to append OCI layer to base image: " ++ cause
  | .configFile => "Unable to get OCI config file: " ++ cause
  | .entrypointParse => "Unable to parse entrypoint command: " ++ cause
  | .cmdParse => "Unable to parse cmd: " ++ cause
  | .configCommit => "Unable to update OCI config file: " ++ cause
  | .noImage => "Image build from layer returned no image"
  | .invalidTag reference =>
    "Unable to validate image reference tag '" ++ reference ++ "': " ++ cause
  | .tarballWrite => "Unable to write image to disk: " ++ cause
  | .ociImage => "OCI image error: " ++ cause
  | .config => "Configuration error: " ++ cause
  | .io => "I/O error: " ++ cause
  | .serialization => "Serialization error: " ++ cause

end ImageAssembly
