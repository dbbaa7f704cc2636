import Spacegate.Foundation.DiskProgram
import Spacegate.Foundation.SortedMap
import Spacegate.Model.PluginId

/-!
# The file backend

A configuration is kept in a directory: a main file, one file for every plugin, and for
every gateway a directory with its own file and one file for every route.

    config.json
    plugin/<code>.<name>.json
    gateway/<gateway>/config.json
    gateway/<gateway>/route/<route>.json

The backend keeps nothing in memory.  A change reads the whole directory, clears it and
writes all of it again.
-/

set_option linter.dupNamespace false

namespace Spacegate.Config

open Foundation
open Foundation.Disk (Location)
open Foundation.DiskM (ask orFail)
open Foundation.FileStem
open Foundation.Text
open Model

namespace Fs

/-! ## Configurations -/

/-- `ConfigItem`, for any type of gateway configurations. -/
structure ConfigItem (G : Type) where
  gateway : G
  routes : SortedMap String SgRoute

/-- `Config`, for any type of observability configurations. -/
structure Config (G O : Type) where
  gateways : SortedMap String (ConfigItem G)
  plugins : SortedMap PluginInstanceId Json
  apiPort : Option UInt16
  observability : O

/-- `ConfigFormat`: a format writes and reads values of four types. -/
structure ConfigFormat (G O : Type) where
  extension : String
  isExtension : IsExtension extension
  serConfig : Config G O → Except String (List UInt8)
  deConfig : List UInt8 → Except String (Config G O)
  serItem : ConfigItem G → Except String (List UInt8)
  deItem : List UInt8 → Except String (ConfigItem G)
  serRoute : SgRoute → Except String (List UInt8)
  deRoute : List UInt8 → Except String SgRoute
  serValue : Json → Except String (List UInt8)
  deValue : List UInt8 → Except String Json

inductive FsError where
  | io (error : IoError)
  | format (message : String)
  /-- A change was refused. -/
  | refused (message : String)
  deriving DecidableEq, Repr

abbrev FsM := DiskM FsError

end Fs

/-- The backend: a format, and the order in which hash maps are iterated. -/
structure Fs (G O : Type) where
  format : Fs.ConfigFormat G O
  hashOrder : IterOrder

namespace Fs

/-! ## Operations -/

variable (l : Location)

def readFile : FsM (List UInt8) := do
  let result ← ask (.read l)
  orFail .io result

def writeFile (content : List UInt8) : FsM Unit :=
  DiskM.write .io l content

def createDirAll : FsM Unit :=
  DiskM.createDirAll .io l

def removeFile : FsM Unit :=
  DiskM.removeFile .io l

def removeDirAll : FsM Unit :=
  DiskM.removeDirAll .io l

/-- `read_dir`, whose error the caller looks at. -/
def tryReadDir : FsM (Except IoError Unit) :=
  ask (.readDir l)

def readDir : FsM Unit := do
  let result ← tryReadDir l
  orFail .io result

/-- The `next_entry` loop. -/
def nextEntries : FsM (List String) := do
  let result ← ask (.entries l)
  orFail .io result

def fileTypeIsDir : FsM Bool := do
  let result ← ask (.fileType l)
  orFail .io result

def pathExists : FsM Bool :=
  ask (.pathExists l)

def isFile : FsM Bool :=
  ask (.isFile l)

def isDir : FsM Bool :=
  ask (.isDir l)

/-- A result of the format. -/
def formatted {α : Type} (result : Except String α) : FsM α :=
  DiskM.ofExcept (result.mapError .format)

/-- A computation whose error is only logged. -/
def attempt {α : Type} (p : FsM α) : FsM (Except FsError α) :=
  ExceptT.mk (do
    let result ← ExceptT.run p
    pure (.ok result))

/-! ## Paths -/

/-- One step of a path. -/
def pathStep (segment : String) : Location :=
  if segment = "." then l else if segment = ".." then l.dropLast else l ++ [segment]

/-- `Path::join`. -/
def joinName (name : String) : Location :=
  (segments '/' name).foldl pathStep (if startsWith '/' name then [] else l)

/-- `Path::with_extension`. -/
def withExtension (ext : String) (l : Location) : Location :=
  match l.getLast? with
  | none => l
  | some name => l.dropLast ++ [fileStem name ++ "." ++ ext]

def gatewayDir : Location := ["gateway"]

def pluginDir : Location := ["plugin"]

variable {G O : Type} (fs : Fs G O)

def entranceConfigPath : Location :=
  withExtension fs.format.extension ["config"]

def gatewayMainConfigPath (gatewayName : String) : Location :=
  withExtension fs.format.extension (joinName gatewayDir gatewayName ++ ["config"])

def routesDir (gatewayName : String) : Location :=
  joinName gatewayDir gatewayName ++ ["route"]

def routePath (gatewayName routeName : String) : Location :=
  withExtension fs.format.extension (joinName (routesDir gatewayName) routeName)

/-- A stem with the extension. -/
def fileName (stem : String) : String :=
  stem ++ "." ++ fs.format.extension

def pluginPath (id : PluginInstanceId) : Location :=
  joinName pluginDir (fileName fs id.asFileStem)

/-! ## Collecting -/

/-- The loop over the entries of the plugin directory. -/
def collectPlugins : List String → List PluginConfig → FsM (List PluginConfig)
  | [], plugins => pure plugins
  | name :: names, plugins => do
      let file ← isFile (pluginDir ++ [name])
      if file = false ∨ extension name ≠ some fs.format.extension then
        collectPlugins names plugins
      else do
        let bytes ← readFile (pluginDir ++ [name])
        let value ← formatted (fs.format.deValue bytes)
        let plugin ← formatted
          (decodeStoredPluginConfig (PluginInstanceId.fromFileStem (fileStem name)) value)
        collectPlugins names (plugins ++ [plugin])

def collectPluginConfigs : FsM (List PluginConfig) := do
  let opened ← tryReadDir pluginDir
  match opened with
  | .error _ => pure []
  | .ok _ => do
      let names ← nextEntries pluginDir
      collectPlugins fs names []

/-- The loop over the entries of a route directory.  A file that cannot be parsed is
passed over. -/
def collectRoutes (dir : Location) : List String → SortedMap String SgRoute →
    FsM (SortedMap String SgRoute)
  | [], routes => pure routes
  | name :: names, routes => do
      let file ← isFile (dir ++ [name])
      if file = false ∨ extension name ≠ some fs.format.extension then
        collectRoutes dir names routes
      else do
        let bytes ← readFile (dir ++ [name])
        match fs.format.deRoute bytes with
        | .ok route => collectRoutes dir names (routes.insert (fileStem name) route)
        | .error _ => collectRoutes dir names routes

/-- The routes of a gateway, if it has a route directory. -/
def collectRouteDir (dir : Location) (routes : SortedMap String SgRoute) :
    FsM (SortedMap String SgRoute) := do
  let found ← pathExists dir
  if found = false then pure routes
  else do
    readDir dir
    let names ← nextEntries dir
    collectRoutes fs dir names routes

/-- The file of a gateway: `<gateway>/config.<ext>`, or else `<gateway>.<ext>`. -/
def findMainConfigPath (gatewayName : String) : FsM Location := do
  let found ← pathExists (gatewayMainConfigPath fs gatewayName)
  if found then pure (gatewayMainConfigPath fs gatewayName)
  else pure (withExtension fs.format.extension (joinName gatewayDir gatewayName))

def collectGatewayItemConfig (gatewayName : String) : FsM (Option (ConfigItem G)) := do
  let path ← findMainConfigPath fs gatewayName
  let found ← pathExists path
  if found = false then pure none
  else do
    let bytes ← readFile path
    let item ← formatted (fs.format.deItem bytes)
    let routes ← collectRouteDir fs (routesDir gatewayName) item.routes
    pure (some { item with routes := routes })

/-- The loop over the entries of the gateway directory. -/
def collectGatewayNames : List String → List String → FsM (List String)
  | [], found => pure found
  | name :: names, found => do
      let file ← isFile (gatewayDir ++ [name])
      if file = true ∧ extension name = some fs.format.extension then
        collectGatewayNames names (found ++ [fileStem name])
      else do
        let dir ← isDir (gatewayDir ++ [name])
        if dir then collectGatewayNames names (found ++ [fileStem name])
        else collectGatewayNames names found

/-- The loop over the names that were found.  A gateway that cannot be read is passed
over. -/
def collectGateways : List String → SortedMap String (ConfigItem G) →
    FsM (SortedMap String (ConfigItem G))
  | [], gateways => pure gateways
  | name :: names, gateways => do
      let collected ← attempt (collectGatewayItemConfig fs name)
      match collected with
      | .ok (some item) => collectGateways names (gateways.insert name item)
      | _ => collectGateways names gateways

/-- The gateways, if there is a gateway directory. -/
def collectGatewayDir (gateways : SortedMap String (ConfigItem G)) :
    FsM (SortedMap String (ConfigItem G)) := do
  let opened ← tryReadDir gatewayDir
  match opened with
  | .error _ => pure gateways
  | .ok _ => do
      let names ← nextEntries gatewayDir
      let found ← collectGatewayNames fs names []
      collectGateways fs (fs.hashOrder.iter found.dedup) gateways

/-- `collect_config`. -/
def collectConfig : FsM (Config G O) := do
  let bytes ← readFile (entranceConfigPath fs)
  let main ← formatted (fs.format.deConfig bytes)
  let plugins ← collectPluginConfigs fs
  let gateways ← collectGatewayDir fs main.gateways
  pure { main with
    gateways := gateways
    plugins := main.plugins.insertAll (plugins.map fun plugin => (plugin.id, plugin.spec)) }

/-! ## Saving -/

/-- `ser` followed by `write`. -/
def saveFile (result : Except String (List UInt8)) : FsM Unit := do
  let bytes ← formatted result
  writeFile l bytes

def savePlugin (plugin : PluginInstanceId × Json) : FsM Unit :=
  saveFile (pluginPath fs plugin.1) (fs.format.serValue plugin.2)

/-- The plugin directory is made only for a plugin. -/
def savePlugins (plugins : List (PluginInstanceId × Json)) : FsM Unit :=
  if plugins = [] then pure ()
  else do
    createDirAll pluginDir
    plugins.forM (savePlugin fs)

def saveRoute (gatewayName : String) (route : String × SgRoute) : FsM Unit :=
  saveFile (routePath fs gatewayName route.1) (fs.format.serRoute route.2)

def saveGateway (gateway : String × ConfigItem G) : FsM Unit := do
  createDirAll (joinName gatewayDir gateway.1)
  saveFile (gatewayMainConfigPath fs gateway.1)
    (fs.format.serItem { gateway := gateway.2.gateway, routes := ∅ })
  createDirAll (routesDir gateway.1)
  gateway.2.routes.entries.forM (saveRoute fs gateway.1)

/-- `save_config`. -/
def saveConfig (config : Config G O) : FsM Unit := do
  saveFile (entranceConfigPath fs)
    (fs.format.serConfig { config with gateways := ∅, plugins := ∅ })
  savePlugins fs (fs.hashOrder.iter config.plugins.entries)
  config.gateways.entries.forM (saveGateway fs)

/-- `save_plugin_configs`: the envelopes replace what `save_config` has written. -/
def savePluginConfigs (plugins : List PluginConfig) : FsM Unit :=
  savePlugins fs (plugins.map fun plugin => (plugin.id, encodeStoredPluginConfig plugin))

/-! ## Changing -/

def clearEntry (name : String) : FsM Unit := do
  let dir ← fileTypeIsDir [name]
  if dir then removeDirAll [name] else removeFile [name]

def clearConfigDir : FsM Unit := do
  createDirAll []
  readDir []
  let names ← nextEntries []
  names.forM clearEntry

/-- The display names that were stored. -/
def displayNames (stored : List PluginConfig) : SortedMap PluginInstanceId (Option String) :=
  (∅ : SortedMap PluginInstanceId (Option String)).insertAll
    (stored.map fun plugin => (plugin.id, plugin.displayName))

/-- The plugins of a changed configuration with the display names that were stored. -/
def withDisplayNames (stored : List PluginConfig) (config : Config G O) : List PluginConfig :=
  (fs.hashOrder.iter config.plugins.entries).map fun entry =>
    { id := entry.1
      displayName := ((displayNames stored).get entry.1).join
      spec := entry.2 }

/-- The first half of `modify_cached`: what was read, and what is to be written. -/
def prepare (change : Config G O → Except FsError (Config G O)) :
    FsM (Config G O × Config G O × List PluginConfig) := do
  let stored ← collectPluginConfigs fs
  let config ← collectConfig fs
  let changed ← DiskM.ofExcept (change config)
  pure (config, changed, withDisplayNames fs stored changed)

/-- The second half of `modify_cached`. -/
def commit (config : Config G O) (plugins : List PluginConfig) : FsM Unit := do
  clearConfigDir
  saveConfig fs config
  savePluginConfigs fs plugins

/-- `modify_cached`; the configuration that it has read is returned. -/
def modifyCached (change : Config G O → Except FsError (Config G O)) : FsM (Config G O) := do
  let prepared ← prepare fs change
  commit fs prepared.2.1 prepared.2.2
  pure prepared.1

/-! ## Calls

The calls of `Create`, `Update` and `Delete` that go through `modify_cached`, with what they
do to the configuration. -/

inductive Call (G O : Type) where
  | createConfigItem (gatewayName : String) (item : ConfigItem G)
  | createConfigItemRoute (gatewayName routeName : String) (route : SgRoute)
  | updateConfigItemGateway (gatewayName : String) (gateway : G)
  | updateConfigItemRoute (gatewayName routeName : String) (route : SgRoute)
  | updateConfigItem (gatewayName : String) (item : ConfigItem G)
  | updateConfig (config : Config G O)
  | deleteConfigItemGateway (gatewayName : String)
  | deleteConfigItemRoute (gatewayName routeName : String)
  | deleteConfigItem (gatewayName : String)
  | deleteConfigItemAllRoutes (gatewayName : String)

/-- `create_config_item_gateway`. -/
def Call.createConfigItemGateway (gatewayName : String) (gateway : G) : Call G O :=
  .createConfigItem gatewayName { gateway := gateway, routes := ∅ }

namespace Config

variable (config : Config G O)

def setItem (gatewayName : String) (item : ConfigItem G) : Config G O :=
  { config with gateways := config.gateways.insert gatewayName item }

def removeItem (gatewayName : String) : Config G O :=
  { config with gateways := config.gateways.erase gatewayName }

/-- `get_mut` with the error for a missing item. -/
def modifyItem (gatewayName message : String)
    (f : ConfigItem G → Except FsError (ConfigItem G)) : Except FsError (Config G O) :=
  match config.gateways.get gatewayName with
  | none => .error (.refused message)
  | some item => (f item).map (config.setItem gatewayName)

end Config

def Call.change (call : Call G O) (config : Config G O) : Except FsError (Config G O) :=
  match call with
  | .createConfigItem gatewayName item =>
    if (config.gateways.get gatewayName).isSome then .error (.refused "item existed")
    else .ok (config.setItem gatewayName item)
  | .createConfigItemRoute gatewayName routeName route =>
    config.modifyItem gatewayName "gateway not exists" fun item =>
      -- the name of the gateway is looked up among the routes
      if (item.routes.get gatewayName).isSome then .error (.refused "route existed")
      else .ok { item with routes := item.routes.insert routeName route }
  | .updateConfigItemGateway gatewayName gateway =>
    config.modifyItem gatewayName "item not exists" fun item =>
      .ok { item with gateway := gateway }
  | .updateConfigItemRoute gatewayName routeName route =>
    config.modifyItem gatewayName "item not exists" fun item =>
      if (item.routes.get routeName).isSome then
        .ok { item with routes := item.routes.insert routeName route }
      else .error (.refused "route not exists")
  | .updateConfigItem gatewayName item =>
    config.modifyItem gatewayName "item not exists" fun _ => .ok item
  | .updateConfig config' => .ok config'
  | .deleteConfigItemGateway gatewayName | .deleteConfigItem gatewayName =>
    .ok (config.removeItem gatewayName)
  | .deleteConfigItemRoute gatewayName routeName =>
    match config.gateways.get gatewayName with
    | none => .ok config
    | some item =>
      .ok (config.setItem gatewayName { item with routes := item.routes.erase routeName })
  | .deleteConfigItemAllRoutes gatewayName =>
    match config.gateways.get gatewayName with
    | none => .ok config
    | some item => .ok (config.setItem gatewayName { item with routes := ∅ })

/-- The gateway of a call. -/
def Call.gatewayName : Call G O → Option String
  | .createConfigItem gatewayName _ | .createConfigItemRoute gatewayName _ _
  | .updateConfigItemGateway gatewayName _ | .updateConfigItemRoute gatewayName _ _
  | .updateConfigItem gatewayName _ | .deleteConfigItemGateway gatewayName
  | .deleteConfigItemRoute gatewayName _ | .deleteConfigItem gatewayName
  | .deleteConfigItemAllRoutes gatewayName => some gatewayName
  | .updateConfig _ => none

end Fs
end Spacegate.Config
