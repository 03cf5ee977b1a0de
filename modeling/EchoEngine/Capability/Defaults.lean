import EchoEngine.Capability.DataAnalysis
import EchoEngine.Capability.FindFiles
import EchoEngine.Capability.ReadFile
import EchoEngine.Capability.Registry
import EchoEngine.Capability.TextProcessing
import EchoEngine.Capability.TextTools

/-!
# Default handlers

The handlers that come with the library: four tools, two of them confined to a workspace, and two
plugins.
-/

namespace EchoEngine.Defaults

def tools (ws : Workspace) : List Handler :=
  [TextTools.statsTool, TextTools.transformTool, ReadFile.tool ws, FindFiles.tool ws]

def plugins : List Handler :=
  [DataAnalysis.plugin, TextProcessing.plugin]

def registerTools (r : Registry) (ws : Workspace) : Registry × Option Error :=
  r.registerAll (tools ws)

def registerPlugins (r : Registry) : Registry × Option Error :=
  r.registerAll plugins

end EchoEngine.Defaults
