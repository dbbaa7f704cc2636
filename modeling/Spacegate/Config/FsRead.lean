import Mathlib.Data.List.ReduceOption
import Spacegate.Config.FsConfig

/-!
# What a configuration directory says

Collecting changes nothing, and while no operation fails its result is a function of the
directory.  That function is given here, first file by file and then for gateways and
routes name by name: the order in which a directory is listed plays no role for them.
-/

namespace Spacegate.Config

open Foundation Disk SortedMap List
open Foundation.Disk (Location)
open Foundation.DiskM
open Foundation.FileStem
open Foundation.WriteHistory
open Model

namespace Fs

section Operations

variable {α : Type} {order : IterOrder} (d : Disk) (l : Location)

theorem exec_readFile : (readFile l).exec order d = ((d.read l).mapError .io, d) := rfl

theorem exec_tryReadDir : (tryReadDir l).exec order d =
    (.ok (if d.get l = some .dir then .ok () else .error .notFound), d) := rfl

theorem exec_nextEntries :
    (nextEntries l).exec order d = (.ok (order.iter (d.children l)), d) := rfl

theorem exec_pathExists : (pathExists l).exec order d = (.ok (d.get l).isSome, d) := rfl

theorem exec_isFile : (isFile l).exec order d = (.ok (d.fileAt l).isSome, d) := by
  rw [← isFileNode_get]
  rfl

theorem exec_isDir : (isDir l).exec order d = (.ok (decide (d.get l = some .dir)), d) := rfl

theorem exec_formatted (result : Except String α) :
    (formatted result).exec order d = (result.mapError .format, d) := rfl

theorem exec_attempt (p : FsM α) :
    (attempt p).exec order d = (.ok (p.exec order d).1, (p.exec order d).2) := by
  rw [DiskM.exec, attempt, ExceptT.run_mk, Prog.run_bind]
  rfl

end Operations

variable {G O : Type} (fs : Fs G O) (order : IterOrder) (d : Disk)

/-! ## Plugins -/

/-- What is read from an entry of the plugin directory. -/
def readPlugin (name : String) : Except FsError (Option PluginConfig) :=
  match d.fileAt (pluginDir ++ [name]) with
  | none => .ok none
  | some bytes =>
    if extension name ≠ some fs.format.extension then .ok none
    else do
      let value ← (fs.format.deValue bytes).mapError .format
      let plugin ← (decodeStoredPluginConfig
        (PluginInstanceId.fromFileStem (fileStem name)) value).mapError .format
      .ok (some plugin)

def readPlugins : Except FsError (List PluginConfig) :=
  if d.get pluginDir = some .dir then
    ((order.iter (d.children pluginDir)).mapM (readPlugin fs d)).map reduceOption
  else .ok []

theorem exec_collectPlugins (names : List String) (plugins : List PluginConfig) :
    (collectPlugins fs names plugins).exec order d =
      ((names.mapM (readPlugin fs d)).map (fun found => plugins ++ found.reduceOption), d) := by
  induction names generalizing plugins with
  | nil =>
    rw [collectPlugins, exec_pure]
    simp [pure, Except.pure, Except.map, reduceOption_nil]
  | cons name names ih =>
    rw [collectPlugins, exec_bind, exec_isFile, mapM_cons, readPlugin]
    cases hf : d.fileAt (pluginDir ++ [name]) with
    | none =>
      simp only [Option.isSome_none, true_or, if_true]
      rw [ih]
      cases names.mapM (readPlugin fs d) <;> rfl
    | some bytes =>
      by_cases hExt : extension name ≠ some fs.format.extension
      · simp only [hExt, or_true, if_true, ne_eq, not_false_eq_true]
        rw [ih]
        cases names.mapM (readPlugin fs d) <;> rfl
      · have he' : extension name = some fs.format.extension := not_not.mp hExt
        simp only [Option.isSome_some, he', Bool.true_eq_false, ne_eq, not_true_eq_false,
          or_self, if_false, exec_bind, exec_readFile, exec_formatted,
          read_of_fileAt d hf, Except.mapError]
        cases fs.format.deValue bytes with
        | error e => rfl
        | ok value =>
          simp only
          cases hp : decodeStoredPluginConfig
            (PluginInstanceId.fromFileStem (fileStem name)) value with
          | error e => simp [hp, Except.map, bind, Except.bind]
          | ok plugin =>
            simp only [ih]
            cases names.mapM (readPlugin fs d) with
            | error e => simp [hp, Except.map, bind, Except.bind]
            | ok found =>
              simp [hp, Except.map, bind, Except.bind, pure, Except.pure,
                reduceOption_cons_of_some]

theorem exec_collectPluginConfigs :
    (collectPluginConfigs fs).exec order d = (readPlugins fs order d, d) := by
  rw [collectPluginConfigs, exec_bind, exec_tryReadDir, readPlugins]
  by_cases hDir : d.get pluginDir = some .dir
  · simp only [hDir, if_true, exec_bind, exec_nextEntries, exec_collectPlugins]
    simp
  · simp [hDir, exec_pure]

theorem mem_children_of_readPlugin {name : String} {plugin : PluginConfig}
    (h : readPlugin fs d name = .ok (some plugin)) :
    d.get pluginDir = some .dir ∧ name ∈ d.children pluginDir := by
  have hc : d.get (pluginDir ++ [name]) ≠ none := by
    unfold readPlugin fileAt at h
    intro hn
    rw [hn] at h
    cases h
  exact ⟨d.get_parent hc, d.mem_children.mpr hc⟩

/-- The plugins that are read are those of the single files. -/
theorem mem_of_readPlugins {plugins : List PluginConfig} (h : readPlugins fs order d = .ok plugins)
    (plugin : PluginConfig) :
    plugin ∈ plugins ↔ ∃ name, readPlugin fs d name = .ok (some plugin) := by
  unfold readPlugins at h
  split_ifs at h with hDir
  · obtain ⟨found, hFound, rfl⟩ := exists_of_map_eq_ok h
    have hf := forall₂_of_mapM_ok hFound
    rw [reduceOption_mem_iff]
    constructor
    · intro hMem
      obtain ⟨name, -, hn⟩ := exists_mem_of_forall₂ hf.flip hMem
      exact ⟨name, hn⟩
    · rintro ⟨name, hn⟩
      have hc := (mem_children_of_readPlugin fs d hn).2
      obtain ⟨y, hy, hr⟩ := exists_mem_of_forall₂ hf ((order.perm _).mem_iff.mpr hc)
      rw [hn] at hr
      rwa [Except.ok.inj hr]
  · cases h
    constructor
    · intro hMem
      cases hMem
    · rintro ⟨name, hn⟩
      exact absurd (mem_children_of_readPlugin fs d hn).1 hDir

theorem exists_readPlugins (h : ∀ name, ∃ plugin, readPlugin fs d name = .ok plugin) :
    ∃ plugins, readPlugins fs order d = .ok plugins := by
  unfold readPlugins
  split_ifs with hDir
  · obtain ⟨found, hf⟩ := exists_mapM_eq_ok fun name _ => h name
    exact ⟨_, by rw [hf]; rfl⟩
  · exact ⟨[], rfl⟩

/-! ## Routes -/

variable (dir : Location)

/-- The route in an entry of a route directory, under the name that it has. -/
def readRoute (name : String) : Option (String × SgRoute) :=
  if extension name = some fs.format.extension then
    (d.fileAt (dir ++ [name])).bind fun bytes =>
      (fs.format.deRoute bytes).toOption.map fun route => (fileStem name, route)
  else none

def readRouteDir (routes : SortedMap String SgRoute) : SortedMap String SgRoute :=
  routes.insertAll ((order.iter (d.children dir)).filterMap (readRoute fs d dir))

theorem exec_collectRoutes (dir : Location) (names : List String)
    (routes : SortedMap String SgRoute) : (collectRoutes fs dir names routes).exec order d =
      (.ok (routes.insertAll (names.filterMap (readRoute fs d dir))), d) := by
  induction names generalizing routes with
  | nil => rfl
  | cons name names ih =>
    rw [collectRoutes, exec_bind, exec_isFile, filterMap_cons, readRoute]
    by_cases hExt : extension name = some fs.format.extension
    · cases hf : d.fileAt (dir ++ [name]) with
      | none => simp [ih]
      | some bytes =>
        simp only [Option.isSome_some, hExt, Bool.true_eq_false, ne_eq, not_true_eq_false,
          or_self, if_false, if_true, exec_bind, exec_readFile,
          read_of_fileAt d hf, Except.mapError, Option.bind_some]
        cases fs.format.deRoute bytes with
        | error e => simp [ih, Except.toOption]
        | ok route => simp [ih, Except.toOption, insertAll]
    · simp [hExt, ih]

/-- The routes of a gateway. -/
def readRoutes (routes : SortedMap String SgRoute) : Except FsError (SortedMap String SgRoute) :=
  match d.get dir with
  | none => .ok routes
  | some .dir => .ok (readRouteDir fs order d dir routes)
  | some (.file _) => .error (.io .notFound)

theorem exec_collectRouteDir (dir : Location) (routes : SortedMap String SgRoute) :
    (collectRouteDir fs dir routes).exec order d = (readRoutes fs order d dir routes, d) := by
  rw [collectRouteDir, exec_bind, exec_pathExists, readRoutes]
  cases hDir : d.get dir with
  | none => rfl
  | some node =>
    cases node with
    | file content =>
      simp [readDir, exec_bind, exec_tryReadDir, exec_orFail, hDir, Except.mapError]
    | dir =>
      simp [readDir, exec_bind, exec_tryReadDir, exec_orFail, hDir, Except.mapError,
        exec_nextEntries, exec_collectRoutes, readRouteDir]

section Stem

variable {fs} {stem : String}

theorem fileStem_fileName (h : stem ≠ "") : fileStem (fileName fs stem) = stem :=
  fileStem_of_extension fs.format.isExtension h

theorem extension_fileName (h : stem ≠ "") :
    extension (fileName fs stem) = some fs.format.extension :=
  extension_of_extension fs.format.isExtension h

end Stem

/-- The route with a name. -/
def namedRoute (routeName : String) : Option SgRoute :=
  if routeName = "" then none
  else (d.fileAt (dir ++ [fileName fs routeName])).bind fun bytes =>
    (fs.format.deRoute bytes).toOption

theorem readRoute_eq_some_iff {dir : Location} {name routeName : String} {route : SgRoute} :
    readRoute fs d dir name = some (routeName, route) ↔
      name = fileName fs routeName ∧ namedRoute fs d dir routeName = some route := by
  unfold readRoute namedRoute
  constructor
  · intro h
    split_ifs at h with hExt
    obtain ⟨bytes, hb, h⟩ := Option.bind_eq_some_iff.mp h
    obtain ⟨route', hr, hEq⟩ := Option.map_eq_some_iff.mp h
    obtain ⟨hn, hs⟩ := eq_of_extension_eq_some hExt
    cases hEq
    have hf : name = fileName fs (fileStem name) := hn
    refine ⟨hf, ?_⟩
    rw [if_neg hs, ← hf, hb]
    exact hr
  · rintro ⟨rfl, h⟩
    split_ifs at h with he
    obtain ⟨bytes, hb, hr⟩ := Option.bind_eq_some_iff.mp h
    rw [if_pos (extension_fileName he), hb, fileStem_fileName he]
    simp [hr]

theorem get_readRouteDir (dir : Location) (routes : SortedMap String SgRoute) (routeName : String) :
    (readRouteDir fs order d dir routes).get routeName =
      (namedRoute fs d dir routeName).or (routes.get routeName) := by
  have hMem : ∀ route, (routeName, route) ∈
      (order.iter (d.children dir)).filterMap (readRoute fs d dir) ↔
        namedRoute fs d dir routeName = some route := by
    intro route
    rw [mem_filterMap]
    constructor
    · rintro ⟨name, -, hName⟩
      exact ((readRoute_eq_some_iff fs d).mp hName).2
    · intro hn
      refine ⟨fileName fs routeName, ?_, (readRoute_eq_some_iff fs d).mpr ⟨rfl, hn⟩⟩
      rw [(order.perm _).mem_iff, d.mem_children]
      intro hNone
      simp [namedRoute, fileAt, hNone] at hn
  have hu : ∀ route route',
      (routeName, route) ∈ (order.iter (d.children dir)).filterMap (readRoute fs d dir) →
      (routeName, route') ∈ (order.iter (d.children dir)).filterMap (readRoute fs d dir) →
      route = route' := by
    intro route route' hr hr'
    rw [hMem] at hr hr'
    rw [hr] at hr'
    exact Option.some.inj hr'
  have hl : latest ((order.iter (d.children dir)).filterMap (readRoute fs d dir)) routeName =
      namedRoute fs d dir routeName := by
    apply Option.ext
    intro route
    rw [latest_eq_some_iff_of_unique hu, hMem]
  rw [readRouteDir, get_insertAll, hl]

/-! ## Gateways -/

/-- The file of a gateway. -/
def mainConfigPath (gatewayName : String) : Location :=
  if (d.get (gatewayMainConfigPath fs gatewayName)).isSome then
    gatewayMainConfigPath fs gatewayName
  else withExtension fs.format.extension (joinName gatewayDir gatewayName)

def readItem (gatewayName : String) : Except FsError (Option (ConfigItem G)) :=
  if d.get (mainConfigPath fs d gatewayName) = none then .ok none
  else do
    let bytes ← (d.read (mainConfigPath fs d gatewayName)).mapError .io
    let item ← (fs.format.deItem bytes).mapError .format
    let routes ← readRoutes fs order d (routesDir gatewayName) item.routes
    .ok (some { item with routes := routes })

theorem exec_collectGatewayItemConfig (gatewayName : String) :
    (collectGatewayItemConfig fs gatewayName).exec order d =
      (readItem fs order d gatewayName, d) := by
  have hp : (findMainConfigPath fs gatewayName).exec order d =
      (.ok (mainConfigPath fs d gatewayName), d) := by
    rw [findMainConfigPath, exec_bind, exec_pathExists, mainConfigPath]
    cases (d.get (gatewayMainConfigPath fs gatewayName)).isSome <;> rfl
  rw [collectGatewayItemConfig, exec_bind, hp, readItem]
  simp only [exec_bind, exec_pathExists]
  cases hn : d.get (mainConfigPath fs d gatewayName) with
  | none => rfl
  | some node =>
    simp only [Option.isSome_some, Bool.true_eq_false, if_false, exec_bind, exec_readFile,
      exec_formatted, reduceCtorEq]
    cases d.read (mainConfigPath fs d gatewayName) with
    | error e => rfl
    | ok bytes =>
      simp only [Except.mapError]
      cases hi : fs.format.deItem bytes with
      | error e => simp [hi, bind, Except.bind]
      | ok item =>
        simp only [exec_collectRouteDir]
        cases hr : readRoutes fs order d (routesDir gatewayName) item.routes with
        | error e => simp [hi, hr, bind, Except.bind]
        | ok routes => simp [hi, hr, bind, Except.bind, exec_pure]

/-- The gateway that an entry of the gateway directory stands for. -/
def readGatewayName (name : String) : Option String :=
  if ((d.fileAt (gatewayDir ++ [name])).isSome ∧ extension name = some fs.format.extension) ∨
      d.get (gatewayDir ++ [name]) = some .dir then
    some (fileStem name)
  else none

theorem exec_collectGatewayNames (names found : List String) :
    (collectGatewayNames fs names found).exec order d =
      (.ok (found ++ names.filterMap (readGatewayName fs d)), d) := by
  induction names generalizing found with
  | nil => simp [collectGatewayNames, exec_pure]
  | cons name names ih =>
    rw [collectGatewayNames, exec_bind, exec_isFile, filterMap_cons, readGatewayName]
    by_cases hf : (d.fileAt (gatewayDir ++ [name])).isSome ∧
        extension name = some fs.format.extension
    · simp [hf, ih]
    · by_cases hDir : d.get (gatewayDir ++ [name]) = some .dir
      · simp [hf, hDir, ih, exec_bind, exec_isDir]
      · simp [hf, hDir, ih, exec_bind, exec_isDir]

/-- The gateway with a name, if it can be read. -/
def readNamedItem (gatewayName : String) : Option (ConfigItem G) :=
  (readItem fs order d gatewayName).toOption.join

theorem exec_collectGateways (names : List String) (gateways : SortedMap String (ConfigItem G)) :
    (collectGateways fs names gateways).exec order d =
      (.ok (gateways.insertAll (names.filterMap fun name =>
        (readNamedItem fs order d name).map fun item => (name, item))), d) := by
  induction names generalizing gateways with
  | nil => rfl
  | cons name names ih =>
    rw [collectGateways, exec_bind, exec_attempt, exec_collectGatewayItemConfig,
      filterMap_cons, readNamedItem]
    rcases readItem fs order d name with e | (_ | item)
    · simp [ih, Except.toOption]
    · simp [ih, Except.toOption]
    · simp [ih, Except.toOption, insertAll]

/-- The names of the gateways, as they are found. -/
def readGatewayNames : List String :=
  (order.iter (d.children gatewayDir)).filterMap (readGatewayName fs d)

def readGatewayDir (gateways : SortedMap String (ConfigItem G)) : SortedMap String (ConfigItem G) :=
  if d.get gatewayDir = some .dir then
    gateways.insertAll ((fs.hashOrder.iter (readGatewayNames fs order d).dedup).filterMap
      fun name => (readNamedItem fs order d name).map fun item => (name, item))
  else gateways

variable (gateways : SortedMap String (ConfigItem G))

theorem exec_collectGatewayDir : (collectGatewayDir fs gateways).exec order d =
      (.ok (readGatewayDir fs order d gateways), d) := by
  rw [collectGatewayDir, exec_bind, exec_tryReadDir, readGatewayDir]
  by_cases hDir : d.get gatewayDir = some .dir
  · simp [hDir, exec_bind, exec_nextEntries, exec_collectGatewayNames, exec_collectGateways,
      readGatewayNames]
  · simp [hDir, exec_pure]

theorem mem_readGatewayNames {gatewayName : String} : gatewayName ∈ readGatewayNames fs order d ↔
      ∃ name, readGatewayName fs d name = some gatewayName := by
  rw [readGatewayNames, mem_filterMap]
  constructor
  · rintro ⟨name, -, hn⟩
    exact ⟨name, hn⟩
  · rintro ⟨name, hn⟩
    refine ⟨name, ?_, hn⟩
    rw [(order.perm _).mem_iff, d.mem_children]
    intro hNone
    simp [readGatewayName, fileAt, hNone] at hn

theorem get_readGatewayDir (gatewayName : String) :
    (readGatewayDir fs order d gateways).get gatewayName =
      if gatewayName ∈ readGatewayNames fs order d then
        (readNamedItem fs order d gatewayName).or (gateways.get gatewayName)
      else gateways.get gatewayName := by
  unfold readGatewayDir
  by_cases hDir : d.get gatewayDir = some .dir
  · rw [if_pos hDir, get_insertAll, latest_found]
    have hn : gatewayName ∈ fs.hashOrder.iter (readGatewayNames fs order d).dedup ↔
        gatewayName ∈ readGatewayNames fs order d := by
      rw [(fs.hashOrder.perm _).mem_iff, mem_dedup]
    simp only [hn]
    split_ifs
    · rfl
    · exact Option.none_or
  · rw [if_neg hDir, if_neg]
    intro hn
    obtain ⟨name, hn⟩ := (mem_readGatewayNames fs order d).mp hn
    have hc : d.get (gatewayDir ++ [name]) ≠ none := by
      intro hNone
      simp [readGatewayName, fileAt, hNone] at hn
    exact hDir (d.get_parent hc)

/-! ## The whole configuration -/

/-- The plugins of a configuration. -/
def pluginSpecs (plugins : List PluginConfig) : List (PluginInstanceId × Json) :=
  plugins.map fun plugin => (plugin.id, plugin.spec)

def readMain : Except FsError (Config G O) := do
  let bytes ← (d.read (entranceConfigPath fs)).mapError .io
  (fs.format.deConfig bytes).mapError .format

def readConfig : Except FsError (Config G O) := do
  let main ← readMain fs d
  let plugins ← readPlugins fs order d
  .ok { main with
    gateways := readGatewayDir fs order d main.gateways
    plugins := main.plugins.insertAll (pluginSpecs plugins) }

theorem exec_collectConfig : (collectConfig fs).exec order d = (readConfig fs order d, d) := by
  rw [collectConfig, exec_bind, exec_readFile, readConfig, readMain]
  cases d.read (entranceConfigPath fs) with
  | error e => rfl
  | ok bytes =>
    simp only [Except.mapError, exec_bind, exec_formatted]
    cases hm : fs.format.deConfig bytes with
    | error e => simp [hm, bind, Except.bind]
    | ok main =>
      simp only [exec_collectPluginConfigs]
      cases readPlugins fs order d with
      | error e => simp [hm, bind, Except.bind]
      | ok plugins =>
        simp [hm, bind, Except.bind, exec_collectGatewayDir, exec_pure, pluginSpecs]

end Fs
end Spacegate.Config
