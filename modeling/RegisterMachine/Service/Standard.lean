import RegisterMachine.Service.Allocation
import RegisterMachine.Service.Core
import RegisterMachine.Service.Variables

/-!
# The standard services

The plugins that the command line loads. No two of their services have one number, so loading them
succeeds (`Registry.ofPlugins_standardPlugins`).
-/

namespace RegisterMachine

/-- The plugins of the command line, in load order. -/
def standardPlugins : List Plugin :=
  [corePlugin, memoryPlugin, variablesPlugin]

/-- The registry of the standard plugins. -/
def Registry.standard : Registry where
  plugins := standardPlugins.map (·.name)
  registrations := standardPlugins.flatMap fun p => p.services.map (⟨p.name, ·⟩)

theorem Registry.ofPlugins_standardPlugins :
    Registry.ofPlugins standardPlugins = .ok Registry.standard := by
  rfl

end RegisterMachine
