import Spacegate.Config.FsRead
import Spacegate.Config.FsWrite

/-!
# Saving a configuration and collecting it

A name that goes through `with_extension` and `file_stem` loses what follows its last dot,
and the file stem of a plugin does not tell an anonymous instance from a named one.  So
not every configuration comes back.  Those that do are told here by their names and
values alone.
-/

namespace Spacegate.Config

open Foundation SortedMap Option
open Foundation.Disk (Location)
open Foundation.FilePath (IsName)
open Foundation.FileStem
open Foundation.WriteHistory
open Model

namespace Fs

/-! ## The format -/

/-- A route as it is read after it was written.  The two kinds of routes are told apart by
their fields only, and an mcp route without backends is written without a field that
reading it requires. -/
def reread : SgRoute → SgRoute
  | .http route => .http route
  | .mcp route =>
    if route.backends = [] then
      .http
        { routeName := route.routeName
          hostnames := route.hostnames
          plugins := route.plugins
          rules := []
          priority := 1 }
    else .mcp route

theorem reread_eq_self_iff {route : SgRoute} :
    reread route = route ↔ ∀ mcp, route = .mcp mcp → mcp.backends ≠ [] := by
  cases route with
  | http route => simp [reread]
  | mcp route =>
    by_cases he : route.backends = []
    · simp [reread, he]
    · simp [reread, he]

/-- What is written for `value` is read as `value'`. -/
def Gives {α β : Type} (ser : α → Except String (List UInt8))
    (de : List UInt8 → Except String β) (value : α) (value' : β) : Prop :=
  ∃ bytes, ser value = .ok bytes ∧ de bytes = .ok value'

variable {G O : Type} (fs : Fs G O)

/-- The format carries the values of a configuration, as far as their types allow. -/
structure Carries (config : Config G O) : Prop where
  main : Gives fs.format.serConfig fs.format.deConfig (mainPart config) (mainPart config)
  gateway : ∀ gateway ∈ config.gateways.entries,
    Gives fs.format.serItem fs.format.deItem (itemPart gateway.2) (itemPart gateway.2)
  route : ∀ gateway ∈ config.gateways.entries, ∀ route ∈ gateway.2.routes.entries,
    Gives fs.format.serRoute fs.format.deRoute route.2 (reread route.2)
  plugin : ∀ plugin ∈ config.plugins.entries,
    Gives fs.format.serValue fs.format.deValue plugin.2 plugin.2

variable {fs}

section Gives

variable {α β : Type} {ser : α → Except String (List UInt8)}
  {de : List UInt8 → Except String β} {value : α} {value' : β} (h : Gives ser de value value')
include h

theorem Gives.written : ∃ bytes, ser value = .ok bytes := by
  obtain ⟨bytes, hSer, -⟩ := h
  exact ⟨bytes, hSer⟩

theorem Gives.fileAt {d : Disk} {l : Location} (hn : d.get l = some (Fs.written (ser value))) :
    ∃ bytes, d.fileAt l = some bytes ∧ de bytes = .ok value' := by
  obtain ⟨bytes, hSer, hDe⟩ := h
  refine ⟨bytes, ?_, hDe⟩
  rw [Disk.fileAt_eq_some_iff, hn, hSer]
  rfl

end Gives

theorem Carries.writable {config : Config G O} (h : Carries fs config) : Writable fs config where
  main := h.main.written
  gateway := fun gateway hMem => (h.gateway gateway hMem).written
  route := fun gateway hMem route hr => (h.route gateway hMem route hr).written
  plugin := fun plugin hMem => (h.plugin plugin hMem).written

/-! ## Gateways and routes -/

/-- The routes as they are found under the stems of their names. -/
def restoredRoutes (routes : SortedMap String SgRoute) : SortedMap String SgRoute :=
  (∅ : SortedMap String SgRoute).insertAll
    (routes.entries.map fun route => (fileStem route.1, reread route.2))

theorem get_restoredRoutes (routes : SortedMap String SgRoute) (routeName : String) :
    (restoredRoutes routes).get routeName =
      (latest (routes.entries.map fun route => (fileStem route.1, route.2)) routeName).map
        reread := by
  rw [restoredRoutes, get_insertAll_empty, ← latest_map_value, List.map_map]
  rfl

theorem restoredRoutes_eq_iff {routes : SortedMap String SgRoute} : restoredRoutes routes = routes ↔
      ∀ route ∈ routes.entries, fileStem route.1 = route.1 ∧ reread route.2 = route.2 := by
  have hStable : (∀ route ∈ routes.entries, fileStem route.1 = route.1) → ∀ routeName,
      (restoredRoutes routes).get routeName = (routes.get routeName).map reread := by
    intro hs routeName
    have he : (routes.entries.map fun route => (fileStem route.1, route.2)) = routes.entries := by
      conv_rhs => rw [← List.map_id routes.entries]
      apply List.map_congr_left
      intro route hr
      rw [hs route hr]
      rfl
    rw [get_restoredRoutes, he, latest_entries]
  constructor
  · intro h
    have hs : ∀ route ∈ routes.entries, fileStem route.1 = route.1 := by
      have ho : ∀ name ∈ routes.entries.map Prod.fst,
          ∃ name' ∈ routes.entries.map Prod.fst, fileStem name' = name := by
        intro name hn
        obtain ⟨route, hr, rfl⟩ := List.mem_map.mp hn
        have hGet : (restoredRoutes routes).get route.1 = some route.2 := by
          rw [h]
          exact get_eq_some_iff.mpr hr
        rw [get_restoredRoutes] at hGet
        obtain ⟨value, hv, -⟩ := map_eq_some_iff.mp hGet
        obtain ⟨entry, hEntry, hKey⟩ := (latest_ne_none_iff _ _).mp
          (ne_none_iff_exists'.mpr ⟨value, hv⟩)
        obtain ⟨route', hr', rfl⟩ := List.mem_map.mp hEntry
        exact ⟨route'.1, List.mem_map_of_mem hr', hKey⟩
      exact fun route hr => fileStem_eq_of_onto ho route.1 (List.mem_map_of_mem hr)
    intro route hr
    refine ⟨hs route hr, ?_⟩
    have hGet := get_eq_some_iff.mpr hr
    have hRestored := hStable hs route.1
    rw [h, hGet] at hRestored
    exact (some.inj hRestored).symm
  · intro h
    apply ext_get
    intro routeName
    rw [hStable fun route hr => (h route hr).1]
    cases hGet : routes.get routeName with
    | none => rfl
    | some route =>
      have hr := (h _ (get_eq_some_iff.mp hGet)).2
      rw [map_some, hr]

section Reading

variable {order : IterOrder} {d : Disk} {config : Config G O}
  {stored : List (PluginInstanceId × Json)}

variable (hSaved : Saved fs config stored d)
include hSaved

theorem readMain_of_saved (hc : Carries fs config) : readMain fs d = .ok (mainPart config) := by
  obtain ⟨bytes, hb, hm⟩ := hc.main.fileAt hSaved.main
  rw [readMain, entranceConfigPath_eq, d.read_of_fileAt hb]
  simp [Except.mapError, bind, Except.bind, hm]

theorem readGatewayName_of_saved (name : String) :
    readGatewayName fs d name = (config.gateways.get name).map fun _ => fileStem name := by
  have hn : d.get (gatewayDir ++ [name]) = (config.gateways.get name).map fun _ => .dir :=
    hSaved.gateway name
  unfold readGatewayName Disk.fileAt
  rw [hn]
  cases config.gateways.get name with
  | none => simp
  | some item => simp

theorem mem_readGatewayNames_of_saved {g : String} : g ∈ readGatewayNames fs order d ↔
      ∃ gateway ∈ config.gateways.entries, fileStem gateway.1 = g := by
  rw [mem_readGatewayNames]
  constructor
  · rintro ⟨name, hn⟩
    rw [readGatewayName_of_saved hSaved] at hn
    obtain ⟨item, hi, hs⟩ := map_eq_some_iff.mp hn
    exact ⟨(name, item), get_eq_some_iff.mp hi, hs⟩
  · rintro ⟨gateway, hMem, hs⟩
    refine ⟨gateway.1, ?_⟩
    rw [readGatewayName_of_saved hSaved, get_eq_some_iff.mpr hMem, ← hs]
    rfl

variable {gateway : String × ConfigItem G} (hu : Usable config) (hc : Carries fs config)
  (hMem : gateway ∈ config.gateways.entries)
include hu hc hMem

theorem namedRoute_of_saved (routeName : String) :
    namedRoute fs d ["gateway", gateway.1, "route"] routeName =
      (restoredRoutes gateway.2.routes).get routeName := by
  rw [namedRoute, get_restoredRoutes]
  split_ifs with he
  · rw [latest_eq_none, map_none]
    intro entry hEntry hKey
    obtain ⟨route, hr, rfl⟩ := List.mem_map.mp hEntry
    have hName := hu.route gateway hMem route hr
    exact fileStem_ne_empty hName.1.1 (hKey.trans he)
  · have hn := hSaved.route gateway hMem (fileName fs routeName)
    have hFiles : latest (gateway.2.routes.entries.map fun route =>
        (fileName fs (fileStem route.1), route.2)) (fileName fs routeName) =
        latest (gateway.2.routes.entries.map fun route => (fileStem route.1, route.2))
          routeName := by
      have hk := latest_map_key_of_injective (fileName_injective fs)
        (gateway.2.routes.entries.map fun route => (fileStem route.1, route.2)) routeName
      rw [List.map_map] at hk
      exact hk
    rw [hFiles] at hn
    cases hl : latest (gateway.2.routes.entries.map fun route =>
        (fileStem route.1, route.2)) routeName with
    | none =>
      rw [hl] at hn
      simp [Disk.fileAt, hn]
    | some value =>
      obtain ⟨route, hr, hEq⟩ := List.mem_map.mp (mem_of_latest hl)
      cases hEq
      rw [hl] at hn
      obtain ⟨bytes, hb, hDe⟩ := (hc.route gateway hMem route hr).fileAt hn
      simp only [List.cons_append, List.nil_append, hb, bind_some, hDe, map_some]
      rfl

theorem readItem_of_saved :
    readItem fs order d gateway.1 =
      .ok (some { gateway.2 with routes := restoredRoutes gateway.2.routes }) := by
  have hName := hu.gateway gateway hMem
  have hn := hSaved.item gateway hMem
  obtain ⟨bytes, hb, hi⟩ := (hc.gateway gateway hMem).fileAt hn
  have hp : mainConfigPath fs d gateway.1 = ["gateway", gateway.1, fileName fs "config"] := by
    rw [mainConfigPath, gatewayMainConfigPath_eq fs hName, hn]
    rfl
  have hr : readRouteDir fs order d ["gateway", gateway.1, "route"] ∅ =
      restoredRoutes gateway.2.routes := by
    apply ext_get
    intro routeName
    rw [get_readRouteDir, namedRoute_of_saved hSaved hu hc hMem]
    simp
  have hrd : readRoutes fs order d (routesDir gateway.1) ∅ =
      .ok (restoredRoutes gateway.2.routes) := by
    rw [readRoutes, routesDir_eq hName, hSaved.routeDir gateway hMem]
    simp only [hr]
  rw [readItem, hp, if_neg (by simp [hn]), d.read_of_fileAt hb]
  simp only [Except.mapError, bind, Except.bind, hi, itemPart, hrd]

theorem readNamedItem_of_saved :
    readNamedItem fs order d gateway.1 =
      some { gateway.2 with routes := restoredRoutes gateway.2.routes } := by
  rw [readNamedItem, readItem_of_saved hSaved hu hc hMem]
  rfl

omit hMem in
theorem readGatewayDir_eq_iff :
    readGatewayDir fs order d ∅ = config.gateways ↔
      ∀ gateway ∈ config.gateways.entries, fileStem gateway.1 = gateway.1 ∧
        restoredRoutes gateway.2.routes = gateway.2.routes := by
  constructor
  · intro h
    -- a gateway comes back under a name that is a stem
    have hf : ∀ gateway ∈ config.gateways.entries,
        gateway.1 ∈ readGatewayNames fs order d ∧
          readNamedItem fs order d gateway.1 = some gateway.2 := by
      intro gateway hMem
      have hGet : (readGatewayDir fs order d ∅).get gateway.1 = some gateway.2 := by
        rw [h]
        exact get_eq_some_iff.mpr hMem
      rw [get_readGatewayDir] at hGet
      split_ifs at hGet with hn
      · exact ⟨hn, by simpa using hGet⟩
      · cases hGet
    have ho : ∀ name ∈ config.gateways.entries.map Prod.fst,
        ∃ name' ∈ config.gateways.entries.map Prod.fst, fileStem name' = name := by
      intro name hn
      obtain ⟨gateway, hMem, rfl⟩ := List.mem_map.mp hn
      obtain ⟨gateway', hm', hs⟩ := (mem_readGatewayNames_of_saved hSaved).mp (hf gateway hMem).1
      exact ⟨gateway'.1, List.mem_map_of_mem hm', hs⟩
    intro gateway hMem
    refine ⟨fileStem_eq_of_onto ho gateway.1 (List.mem_map_of_mem hMem), ?_⟩
    have hi := (hf gateway hMem).2
    rw [readNamedItem_of_saved hSaved hu hc hMem] at hi
    exact congrArg ConfigItem.routes (some.inj hi)
  · intro h
    apply ext_get
    intro g
    rw [get_readGatewayDir]
    cases hGet : config.gateways.get g with
    | none =>
      rw [if_neg]
      · rfl
      · intro hn
        obtain ⟨gateway, hMem, hs⟩ := (mem_readGatewayNames_of_saved hSaved).mp hn
        have hg' := get_eq_some_iff.mpr hMem
        rw [(h gateway hMem).1] at hs
        rw [hs, hGet] at hg'
        cases hg'
    | some item =>
      have hMem : (g, item) ∈ config.gateways.entries := get_eq_some_iff.mp hGet
      have hn : g ∈ readGatewayNames fs order d :=
        (mem_readGatewayNames_of_saved hSaved).mpr ⟨(g, item), hMem, (h _ hMem).1⟩
      have hi : readNamedItem fs order d g = some item := by
        rw [readNamedItem_of_saved hSaved hu hc hMem, (h _ hMem).2]
      rw [if_pos hn, hi]
      rfl

omit hSaved hu hc hMem

/-! ## Plugins -/

/-- The values in the plugin files, by the names of the files. -/
def storedValue (fs : Fs G O) (stored : List (PluginInstanceId × Json)) (name : String) :
    Option Json :=
  latest (stored.map fun plugin => (fileName fs plugin.1.asFileStem, plugin.2)) name

/-- The values in the plugin files can be read. -/
def Readable (fs : Fs G O) (stored : List (PluginInstanceId × Json)) : Prop :=
  ∀ plugin ∈ stored, Gives fs.format.serValue fs.format.deValue plugin.2 plugin.2

/-- The specifications that are read, by their ids. -/
def specMap (plugins : List PluginConfig) : SortedMap PluginInstanceId Json :=
  (∅ : SortedMap PluginInstanceId Json).insertAll (pluginSpecs plugins)

theorem exists_of_storedValue {name : String} {value : Json}
    (h : storedValue fs stored name = some value) :
    ∃ id, (id, value) ∈ stored ∧ name = fileName fs id.asFileStem := by
  obtain ⟨plugin, hp, hEq⟩ := List.mem_map.mp (mem_of_latest h)
  cases hEq
  exact ⟨plugin.1, hp, rfl⟩

theorem readPlugin_of_saved (hSaved : Saved fs config stored d) (hReadable : Readable fs stored)
    (name : String) : readPlugin fs d name =
      match storedValue fs stored name with
      | none => .ok none
      | some value =>
        if extension name ≠ some fs.format.extension then .ok none
        else ((decodeStoredPluginConfig (PluginInstanceId.fromFileStem (fileStem name))
          value).mapError .format).map some := by
  have hn : d.get (pluginDir ++ [name]) = (storedValue fs stored name).map
      fun value => written (fs.format.serValue value) := hSaved.plugin name
  cases hv : storedValue fs stored name with
  | none =>
    rw [hv, map_none] at hn
    simp [readPlugin, Disk.fileAt, hn]
  | some value =>
    rw [hv, map_some] at hn
    obtain ⟨id, hMem, -⟩ := exists_of_storedValue hv
    obtain ⟨bytes, hb, hDe⟩ := (hReadable _ hMem).fileAt hn
    simp only [readPlugin, hb, hDe]
    split_ifs with hExt
    · cases decodeStoredPluginConfig (PluginInstanceId.fromFileStem (fileStem name)) value <;> rfl
    · rfl

/-- The ids that are read back from the names of their files. -/
def HasFile (id : PluginInstanceId) : Prop :=
  id.HasStem ∧ id.asFileStem ≠ ""

theorem asFileStem_inj {id id' : PluginInstanceId} (h : HasFile id) (h' : HasFile id')
    (hEq : id.asFileStem = id'.asFileStem) : id = id' := by
  rw [← PluginInstanceId.fromFileStem_asFileStem h.1, hEq,
    PluginInstanceId.fromFileStem_asFileStem h'.1]

theorem hasFile_fromFileStem {stem : String} (h : stem ≠ "") :
    HasFile (PluginInstanceId.fromFileStem stem) := by
  have hs := PluginInstanceId.hasStem_fromFileStem stem
  refine ⟨hs, ?_⟩
  intro he
  have hb := PluginInstanceId.fromFileStem_asFileStem hs
  rw [he] at hb
  have hm : PluginInstanceId.fromFileStem "" = { code := "", name := .mono } := by decide
  exact h (PluginInstanceId.fromFileStem_mono_empty (hb.symm.trans hm))

theorem hasFile_of_readPlugin (hSaved : Saved fs config stored d) (hReadable : Readable fs stored)
    {name : String} {plugin : PluginConfig} (h : readPlugin fs d name = .ok (some plugin)) :
    HasFile plugin.id := by
  rw [readPlugin_of_saved hSaved hReadable] at h
  split at h
  · cases h
  · split_ifs at h with hExt
    · cases h
    · obtain ⟨plugin', hd, hEq⟩ := exists_of_map_eq_ok h
      obtain rfl := some.inj hEq
      rw [decodeStoredPluginConfig_id (eq_ok_of_mapError_eq_ok hd)]
      exact hasFile_fromFileStem (eq_of_extension_eq_some (not_not.mp hExt)).2

section HasFiles

variable (hSaved : Saved fs config stored d) (hReadable : Readable fs stored)
  (hFiles : ∀ plugin ∈ stored, HasFile plugin.1)

variable {id : PluginInstanceId}

include hFiles in
theorem storedValue_fileName (hId : HasFile id) :
    storedValue fs stored (fileName fs id.asFileStem) = latest stored id := by
  have hk : ∀ entry ∈ stored,
      fileName fs entry.1.asFileStem = fileName fs id.asFileStem → entry.1 = id :=
    fun entry he hEq =>
      asFileStem_inj (hFiles entry he) hId (fileName_injective fs hEq)
  exact latest_map_key (f := fun other : PluginInstanceId => fileName fs other.asFileStem) hk

include hFiles in
theorem hasFile_of_latest {value : Json} (h : latest stored id = some value) : HasFile id :=
  hFiles (id, value) (mem_of_latest h)

include hSaved hReadable hFiles in
theorem readPlugin_fileName (hId : HasFile id) : readPlugin fs d (fileName fs id.asFileStem) =
      match latest stored id with
      | none => .ok none
      | some value => ((decodeStoredPluginConfig id value).mapError .format).map some := by
  rw [readPlugin_of_saved hSaved hReadable, storedValue_fileName hFiles hId]
  simp only [extension_fileName hId.2, fileStem_fileName hId.2, ne_eq, not_true_eq_false, if_false,
    PluginInstanceId.fromFileStem_asFileStem hId.1]

include hSaved hReadable hFiles in
theorem readPlugin_eq_some_iff {plugin : PluginConfig} :
    (∃ name, readPlugin fs d name = .ok (some plugin)) ↔
      ∃ value, latest stored plugin.id = some value ∧
        decodeStoredPluginConfig plugin.id value = .ok plugin := by
  constructor
  · rintro ⟨name, h⟩
    have hv := h
    rw [readPlugin_of_saved hSaved hReadable] at hv
    split at hv
    · cases hv
    · rename_i value hs
      obtain ⟨id, hMem, rfl⟩ := exists_of_storedValue hs
      have hId := hFiles _ hMem
      rw [storedValue_fileName hFiles hId] at hs
      rw [readPlugin_fileName hSaved hReadable hFiles hId, hs] at h
      obtain ⟨plugin', hd, hEq⟩ := exists_of_map_eq_ok h
      obtain rfl := some.inj hEq
      have hd' := eq_ok_of_mapError_eq_ok hd
      have hSame := decodeStoredPluginConfig_id hd'
      exact ⟨value, by rw [hSame, hs], by rw [hSame, hd']⟩
  · rintro ⟨value, hl, hd⟩
    refine ⟨fileName fs plugin.id.asFileStem, ?_⟩
    rw [readPlugin_fileName hSaved hReadable hFiles (hasFile_of_latest hFiles hl), hl]
    simp only [hd]
    rfl

include hSaved hReadable hFiles in
/-- The specifications that come back are those of the last values. -/
theorem latest_pluginSpecs_iff {plugins : List PluginConfig}
    (hp : readPlugins fs order d = .ok plugins) {spec : Json} :
    latest (pluginSpecs plugins) id = some spec ↔
      ∃ value plugin, latest stored id = some value ∧
        decodeStoredPluginConfig id value = .ok plugin ∧ plugin.spec = spec := by
  have hMem : ∀ spec, (id, spec) ∈ pluginSpecs plugins ↔
      ∃ value plugin, latest stored id = some value ∧
        decodeStoredPluginConfig id value = .ok plugin ∧ plugin.spec = spec := by
    intro spec
    rw [pluginSpecs, List.mem_map]
    constructor
    · rintro ⟨plugin, hPlugin, hEq⟩
      cases hEq
      rw [mem_of_readPlugins fs order d hp,
        readPlugin_eq_some_iff hSaved hReadable hFiles] at hPlugin
      obtain ⟨value, hl, hd⟩ := hPlugin
      exact ⟨value, plugin, hl, hd, rfl⟩
    · rintro ⟨value, plugin, hl, hd, rfl⟩
      have hId := decodeStoredPluginConfig_id hd
      refine ⟨plugin, ?_, by rw [hId]⟩
      rw [mem_of_readPlugins fs order d hp, readPlugin_eq_some_iff hSaved hReadable hFiles, hId]
      exact ⟨value, hl, hd⟩
  rw [latest_eq_some_iff_of_unique, hMem]
  intro spec spec' hs hs'
  rw [hMem] at hs hs'
  obtain ⟨value, plugin, hl, hd, rfl⟩ := hs
  obtain ⟨value', plugin', hl', hd', rfl⟩ := hs'
  rw [hl] at hl'
  cases hl'
  rw [hd] at hd'
  cases hd'
  rfl

include hSaved hReadable hFiles in
theorem exists_readPlugins_of_saved (hd : ∀ id value, latest stored id = some value →
      ∃ plugin, decodeStoredPluginConfig id value = .ok plugin) :
    ∃ plugins, readPlugins fs order d = .ok plugins := by
  apply exists_readPlugins
  intro name
  rw [readPlugin_of_saved hSaved hReadable]
  split
  · exact ⟨none, rfl⟩
  · rename_i value hs
    obtain ⟨id, hMem, rfl⟩ := exists_of_storedValue hs
    have hId := hFiles _ hMem
    rw [storedValue_fileName hFiles hId] at hs
    obtain ⟨plugin, hp⟩ := hd id value hs
    rw [if_neg (by simp [extension_fileName hId.2]), fileStem_fileName hId.2,
      PluginInstanceId.fromFileStem_asFileStem hId.1, hp]
    exact ⟨some plugin, rfl⟩

end HasFiles

end Reading

/-! ## The round trip -/

/-- Gateways, routes and plugins are found under the names that they have. -/
structure StableNames (config : Config G O) : Prop where
  gateway : ∀ gateway ∈ config.gateways.entries, fileStem gateway.1 = gateway.1
  route : ∀ gateway ∈ config.gateways.entries, ∀ route ∈ gateway.2.routes.entries,
    fileStem route.1 = route.1
  mcp : ∀ gateway ∈ config.gateways.entries, ∀ route ∈ gateway.2.routes.entries,
    ∀ mcp, route.2 = .mcp mcp → mcp.backends ≠ []
  id : ∀ plugin ∈ config.plugins.entries, HasFile plugin.1

/-- The configurations that come back as they were. -/
structure Stable (config : Config G O) : Prop extends StableNames config where
  spec : ∀ plugin ∈ config.plugins.entries, isEnvelope plugin.2 = false

/-- What `save_config` writes into an empty directory `collect_config` reads as the same
configuration. -/
def RoundTrips (fs : Fs G O) (order : IterOrder) (config : Config G O) : Prop :=
  ∃ d, (saveConfig fs config).exec order .empty = (.ok (), d) ∧
    ((collectConfig fs).exec order d).1 = .ok config

theorem gateways_iff_stable {config : Config G O} :
    (∀ gateway ∈ config.gateways.entries, fileStem gateway.1 = gateway.1 ∧
      restoredRoutes gateway.2.routes = gateway.2.routes) ↔
    (∀ gateway ∈ config.gateways.entries, fileStem gateway.1 = gateway.1) ∧
    (∀ gateway ∈ config.gateways.entries, ∀ route ∈ gateway.2.routes.entries,
      fileStem route.1 = route.1) ∧
    ∀ gateway ∈ config.gateways.entries, ∀ route ∈ gateway.2.routes.entries,
      ∀ mcp, route.2 = .mcp mcp → mcp.backends ≠ [] := by
  simp only [restoredRoutes_eq_iff, reread_eq_self_iff, forall_and]

section

variable {order : IterOrder} {d : Disk} {config : Config G O}
  {stored : List (PluginInstanceId × Json)}

theorem latest_hashOrder (id : PluginInstanceId) :
    latest (fs.hashOrder.iter config.plugins.entries) id = config.plugins.get id :=
  latest_of_mem_iff (fun _ => (fs.hashOrder.perm _).mem_iff) id

variable {plugins : List PluginConfig} {plugin : PluginInstanceId × Json}

variable (hEq : specMap plugins = config.plugins) (hMem : plugin ∈ config.plugins.entries)
include hEq hMem

theorem latest_of_restored : latest (pluginSpecs plugins) plugin.1 = some plugin.2 := by
  rw [← get_insertAll_empty, ← specMap, hEq]
  exact get_eq_some_iff.mpr hMem

theorem hasFile_of_restored (hSaved : Saved fs config stored d) (hReadable : Readable fs stored)
    (hp : readPlugins fs order d = .ok plugins) : HasFile plugin.1 := by
  have he : (plugin.1, plugin.2) ∈ pluginSpecs plugins :=
    mem_of_latest (latest_of_restored hEq hMem)
  obtain ⟨read, hr, hPair⟩ := List.mem_map.mp he
  obtain ⟨name, hn⟩ := (mem_of_readPlugins fs order d hp read).mp hr
  have hId : read.id = plugin.1 := congrArg Prod.fst hPair
  rw [← hId]
  exact hasFile_of_readPlugin hSaved hReadable hn

omit hEq hMem

theorem plugins_eq_iff (hSaved : Saved fs config (fs.hashOrder.iter config.plugins.entries) d)
    (hc : Carries fs config) : (∃ plugins, readPlugins fs order d = .ok plugins ∧
      specMap plugins = config.plugins) ↔
    (∀ plugin ∈ config.plugins.entries, HasFile plugin.1) ∧
      ∀ plugin ∈ config.plugins.entries, isEnvelope plugin.2 = false := by
  have hPerm := fs.hashOrder.perm config.plugins.entries
  have hReadable : Readable fs (fs.hashOrder.iter config.plugins.entries) :=
    fun plugin hMem => hc.plugin plugin (hPerm.mem_iff.mp hMem)
  have hFiles (hIds : ∀ plugin ∈ config.plugins.entries, HasFile plugin.1) :
      ∀ plugin ∈ fs.hashOrder.iter config.plugins.entries, HasFile plugin.1 :=
    fun plugin hMem => hIds plugin (hPerm.mem_iff.mp hMem)
  constructor
  · rintro ⟨plugins, hp, hEq⟩
    have hIds : ∀ plugin ∈ config.plugins.entries, HasFile plugin.1 :=
      fun plugin hMem => hasFile_of_restored hEq hMem hSaved hReadable hp
    refine ⟨hIds, ?_⟩
    intro plugin hMem
    obtain ⟨value, read, hv, hd, hs⟩ :=
      (latest_pluginSpecs_iff hSaved hReadable (hFiles hIds) hp).mp (latest_of_restored hEq hMem)
    rw [latest_hashOrder, get_eq_some_iff.mpr hMem] at hv
    cases hv
    by_contra he
    exact spec_ne_of_isEnvelope (Bool.not_eq_false _ ▸ he) hd hs
  · rintro ⟨hIds, hSpecs⟩
    specialize hFiles hIds
    have hb : ∀ id value, config.plugins.get id = some value →
        decodeStoredPluginConfig id value = .ok { id := id, displayName := none, spec := value } :=
      fun id value hv =>
        decodeStoredPluginConfig_bare (hSpecs _ (get_eq_some_iff.mp hv))
    obtain ⟨plugins, hp⟩ := exists_readPlugins_of_saved hSaved hReadable hFiles
      (fun id value hv => ⟨_, hb id value (by rwa [latest_hashOrder] at hv)⟩)
    refine ⟨plugins, hp, ?_⟩
    apply ext_get
    intro id
    apply ext
    intro spec
    rw [specMap, get_insertAll_empty, latest_pluginSpecs_iff hSaved hReadable hFiles hp,
      latest_hashOrder]
    constructor
    · rintro ⟨value, read, hv, hd, rfl⟩
      rw [hb id value hv] at hd
      cases hd
      exact hv
    · intro hs
      exact ⟨spec, _, hs, hb id spec hs, rfl⟩

theorem exists_saved (hu : Usable config) (hw : Writable fs config) :
    ∃ d, (saveConfig fs config).exec order .empty = (.ok (), d) ∧
      Saved fs config (fs.hashOrder.iter config.plugins.entries) d := by
  have he : (layout fs).Follows .empty := Disk.Layout.follows_empty
  obtain ⟨d, hExec, hp, -⟩ := adds_saveConfig hu hw he
  have hp' : Disk.Puts .empty (configPuts fs config ++ pluginPuts fs []) d := by
    have hnm : pluginPuts fs [] = [] := rfl
    rw [hnm, List.append_nil]
    exact hp
  exact ⟨d, hExec, by simpa using saved_of_puts hp'⟩

theorem readConfig_eq_ok_iff (hSaved : Saved fs config stored d) (hc : Carries fs config) :
    readConfig fs order d = .ok config ↔
      (∃ plugins, readPlugins fs order d = .ok plugins ∧ specMap plugins = config.plugins) ∧
      readGatewayDir fs order d ∅ = config.gateways := by
  rw [readConfig, readMain_of_saved hSaved hc]
  cases readPlugins fs order d with
  | error e => simp [bind, Except.bind]
  | ok plugins =>
    obtain ⟨gateways, configPlugins, apiPort, observability⟩ := config
    simp [bind, Except.bind, mainPart, specMap, and_comm]

theorem readConfig_eq_iff_stable
    (hSaved : Saved fs config (fs.hashOrder.iter config.plugins.entries) d)
    (hu : Usable config) (hc : Carries fs config) :
    readConfig fs order d = .ok config ↔ Stable config := by
  rw [readConfig_eq_ok_iff hSaved hc, plugins_eq_iff hSaved hc,
    readGatewayDir_eq_iff hSaved hu hc, gateways_iff_stable]
  constructor
  · rintro ⟨⟨hId, hs⟩, hg, hr, hMcp⟩
    exact ⟨⟨hg, hr, hMcp, hId⟩, hs⟩
  · intro h
    exact ⟨⟨h.id, h.spec⟩, h.gateway, h.route, h.mcp⟩

end

/-- A configuration with usable names comes back exactly when no name has an extension to
lose, no mcp route is without backends, and every plugin is read from its file under its
own id. -/
theorem roundTrips_iff_stable (fs : Fs G O) (order : IterOrder) (config : Config G O)
    (hUsable : Usable config) (hCarries : Carries fs config) :
    RoundTrips fs order config ↔ Stable config := by
  obtain ⟨d, he, hSaved⟩ := exists_saved hUsable hCarries.writable
  rw [← readConfig_eq_iff_stable hSaved hUsable hCarries]
  constructor
  · rintro ⟨d', he', hc⟩
    rw [he] at he'
    cases he'
    rw [exec_collectConfig] at hc
    exact hc
  · intro hr
    exact ⟨d, he, by rw [exec_collectConfig]; exact hr⟩

/-! ## Two configurations -/

def braces : List UInt8 := [123, 125]

/-- A format that only knows the empty object: the gateway with the default values, the
main file with the default values, and the empty specification. -/
def bracesFormat : ConfigFormat Unit Unit where
  extension := "json"
  isExtension := ⟨by decide, by decide, by decide⟩
  serConfig := fun config =>
    if config.gateways.entries = [] ∧ config.plugins.entries = [] ∧ config.apiPort = none then
      .ok braces
    else .error "unsupported"
  deConfig := fun bytes =>
    if bytes = braces then
      .ok { gateways := ∅, plugins := ∅, apiPort := none, observability := () }
    else .error "unsupported"
  serItem := fun item => if item.routes.entries = [] then .ok braces else .error "unsupported"
  deItem := fun bytes =>
    if bytes = braces then .ok { gateway := (), routes := ∅ } else .error "unsupported"
  serRoute := fun _ => .error "unsupported"
  deRoute := fun _ => .error "unsupported"
  serValue
    | .object [] => .ok braces
    | _ => .error "unsupported"
  deValue := fun bytes => if bytes = braces then .ok (.object []) else .error "unsupported"

def bracesFs : Fs Unit Unit where
  format := bracesFormat
  hashOrder := .unchanged

/-- One gateway without routes and one plugin. -/
def onePlugin (gatewayName : String) (id : PluginInstanceId) : Config Unit Unit where
  gateways := (∅ : SortedMap String (ConfigItem Unit)).insert gatewayName
    { gateway := (), routes := ∅ }
  plugins := (∅ : SortedMap PluginInstanceId Json).insert id (.object [])
  apiPort := none
  observability := ()

section

variable {gatewayName : String} {id : PluginInstanceId}

theorem usable_onePlugin (hg : IsName gatewayName) (hId : '/' ∉ id.asFileStem.toList) :
    Usable (onePlugin gatewayName id) where
  gateway := List.forall_mem_singleton.mpr hg
  route := List.forall_mem_singleton.mpr (List.forall_mem_nil _)
  plugin := List.forall_mem_singleton.mpr hId

theorem carries_onePlugin : Carries bracesFs (onePlugin gatewayName id) where
  main := ⟨braces, rfl, rfl⟩
  gateway := List.forall_mem_singleton.mpr ⟨braces, rfl, rfl⟩
  route := List.forall_mem_singleton.mpr (List.forall_mem_nil _)
  plugin := List.forall_mem_singleton.mpr ⟨braces, rfl, rfl⟩

end

theorem edge_wasm_roundTrips :
    RoundTrips bracesFs .unchanged
      (onePlugin "edge" { code := "wasm", name := .named "third-party-authn" }) := by
  refine (roundTrips_iff_stable bracesFs .unchanged _ (usable_onePlugin (by decide) (by decide))
    carries_onePlugin).mpr ?_
  exact
    { gateway := List.forall_mem_singleton.mpr (by decide)
      route := List.forall_mem_singleton.mpr (List.forall_mem_nil _)
      mcp := List.forall_mem_singleton.mpr (List.forall_mem_nil _)
      id := List.forall_mem_singleton.mpr ⟨⟨by decide, by decide⟩, by decide⟩
      spec := List.forall_mem_singleton.mpr (by decide) }

/-- The gateway is read under the name `shop`, where there is none, and the anonymous
plugin as a named one. -/
theorem shop_v2_not_roundTrips :
    ¬ RoundTrips bracesFs .unchanged
      (onePlugin "shop.v2" { code := "wasm", name := .anon "7f" }) := by
  have hu : Usable (onePlugin "shop.v2" { code := "wasm", name := .anon "7f" }) :=
    usable_onePlugin (by decide) (by decide)
  obtain ⟨d, he, hSaved⟩ := exists_saved hu carries_onePlugin.writable
  rintro ⟨d', he', hc⟩
  rw [he] at he'
  cases he'
  rw [exec_collectConfig] at hc
  have hs := (readConfig_eq_iff_stable hSaved hu carries_onePlugin).mp hc
  have hStem : fileStem "shop.v2" = "shop.v2" := hs.gateway _ List.mem_cons_self
  exact absurd hStem (by decide)

end Fs
end Spacegate.Config
