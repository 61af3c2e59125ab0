import ImageAssembly.Configuration.Yaml
import ImageAssembly.Workspace

/-! Image descriptions in files. -/

namespace ImageAssembly.Configuration

/-- Why a file gives no description. -/
inductive LoadFault
  | file (path : String) (fault : FileFault)
  | yaml (fault : Yaml.Fault)

def LoadFault.kind : LoadFault → ErrorKind
  | .file _ _ => .config
  | .yaml _ => .serialization

def LoadFault.cause : LoadFault → String
  | .file path fault => "Failed to read image configuration " ++ path ++ ": " ++ fault.message
  | .yaml fault => fault.message

/-- The description that a file holds. -/
def load (path : String) : Action LoadFault Configuration := do
  let text ← Action.ofFiles fun fs => (fs.readText path).mapError (.file path)
  Action.ofExcept ((ofYaml text).mapError .yaml)

end ImageAssembly.Configuration
