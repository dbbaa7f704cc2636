import Spacegate.Config.FsRoundTrip
import Spacegate.Foundation.PathCalls

/-!
# Where the file backend writes

`save_config` and `save_plugin_configs` join the names of gateways, routes and plugins to the
configured directory.  Joining keeps the dots of a name, and an absolute name replaces the
directory altogether, so a name can lead anywhere.  Here the calls are modelled with the paths
as they are handed to the operating system.
-/

set_option linter.dupNamespace false

namespace Spacegate.Config

open Foundation List
open Foundation.FilePath (IsName Location)
open Foundation.FileStem
open Foundation.PathCalls
open Foundation.Text
open Model

namespace FsPaths

/-- The configured directory. -/
structure ConfigDir where
  location : Location
  isName : ∀ name ∈ location, IsName name

variable {G O : Type} (fs : Fs G O) (dir : ConfigDir)

def entranceConfigPath : RawPath :=
  PathCalls.withExtension fs.format.extension (join dir.location "config")

def gatewayDir : RawPath :=
  join dir.location "gateway"

def gatewayMainConfigPath (gatewayName : String) : RawPath :=
  PathCalls.withExtension fs.format.extension (join (join (gatewayDir dir) gatewayName) "config")

def routesDir (gatewayName : String) : RawPath :=
  join (join (gatewayDir dir) gatewayName) "route"

def routePath (gatewayName routeName : String) : RawPath :=
  PathCalls.withExtension fs.format.extension (join (routesDir dir gatewayName) routeName)

def pluginDir : RawPath :=
  join dir.location "plugin"

def pluginPath (id : PluginInstanceId) : RawPath :=
  join (pluginDir dir) (Fs.fileName fs id.asFileStem)

/-- `ser` followed by `write`, which is not called if the format refuses the value. -/
def saveFile (path : RawPath) (result : Except String (List UInt8)) : Option PathCall :=
  match result with
  | .ok _ => some (.write path)
  | .error _ => none

/-- The plugin directory is made only for a plugin. -/
def savePlugins (plugins : List (PluginInstanceId × Json)) : List (Option PathCall) :=
  if plugins = [] then []
  else
    some (.createDirAll (pluginDir dir)) ::
      plugins.map fun plugin => saveFile (pluginPath fs dir plugin.1) (fs.format.serValue plugin.2)

def saveGateway (gateway : String × Fs.ConfigItem G) : List (Option PathCall) :=
  [some (.createDirAll (join (gatewayDir dir) gateway.1)),
    saveFile (gatewayMainConfigPath fs dir gateway.1)
      (fs.format.serItem { gateway := gateway.2.gateway, routes := ∅ }),
    some (.createDirAll (routesDir dir gateway.1))] ++
    gateway.2.routes.entries.map fun route =>
      saveFile (routePath fs dir gateway.1 route.1) (fs.format.serRoute route.2)

/-- The calls before the first value that the format refuses. -/
def untilRefused (calls : List (Option PathCall)) : List PathCall :=
  (calls.takeWhile Option.isSome).filterMap id

/-- `save_config`. -/
def saveConfig (config : Fs.Config G O) : List PathCall :=
  untilRefused
    (saveFile (entranceConfigPath fs dir)
        (fs.format.serConfig { config with gateways := ∅, plugins := ∅ }) ::
      (savePlugins fs dir (fs.hashOrder.iter config.plugins.entries) ++
        config.gateways.entries.flatMap (saveGateway fs dir)))

/-- `save_plugin_configs`. -/
def savePluginConfigs (plugins : List PluginConfig) : List PathCall :=
  untilRefused (savePlugins fs dir
    (plugins.map fun plugin => (plugin.id, encodeStoredPluginConfig plugin)))

variable {call : PathCall}

theorem eq_write_of_saveFile {path : RawPath} {result : Except String (List UInt8)}
    (h : saveFile path result = some call) : call = .write path := by
  cases result with
  | ok bytes => exact (Option.some.inj h).symm
  | error message => cases h

theorem mem_of_mem_untilRefused {calls : List (Option PathCall)}
    (h : call ∈ untilRefused calls) : some call ∈ calls := by
  obtain ⟨call', hc, rfl⟩ := mem_filterMap.mp h
  exact (takeWhile_sublist _).subset hc

/-! ## Names that stay inside -/

/-- The name is relative, and none of its steps leads out of the configured directory from the
place below it that the name is joined to. -/
def KeepsInside (below : List String) (name : String) : Prop :=
  startsWith '/' name = false ∧ StepsInside dir.location (below ++ segments '/' name)

/-- The steps to the directory of a gateway. -/
def gatewaySteps (gatewayName : String) : List String :=
  "gateway" :: segments '/' gatewayName

/-- No name of a gateway, a route or a plugin leads out of the directory. -/
structure NamesInside (config : Fs.Config G O) : Prop where
  gateway : ∀ gateway ∈ config.gateways.entries, KeepsInside dir ["gateway"] gateway.1
  route : ∀ gateway ∈ config.gateways.entries, ∀ route ∈ gateway.2.routes.entries,
    KeepsInside dir (gatewaySteps gateway.1 ++ ["route"]) route.1
  plugin : ∀ plugin ∈ config.plugins.entries,
    KeepsInside dir ["plugin"] (Fs.fileName fs plugin.1.asFileStem)

section Plain

variable {fs dir}

theorem join_of_relative (path : RawPath) {s : String} (h : startsWith '/' s = false) :
    join path s = path ++ segments '/' s := by
  rw [join, h, if_neg (by simp)]

theorem stepsInside_name {name : String} (h : IsName name) : StepsInside dir.location [name] :=
  StepsInside.nil.concat fun hUp => absurd hUp h.2.2

variable (dir)

theorem gatewayDir_eq : gatewayDir dir = dir.location ++ ["gateway"] :=
  join_of_relative dir.location (by decide)

theorem pluginDir_eq : pluginDir dir = dir.location ++ ["plugin"] :=
  join_of_relative dir.location (by decide)

variable {gatewayName routeName : String} (hGateway : KeepsInside dir ["gateway"] gatewayName)
include hGateway

theorem join_gatewayDir :
    join (gatewayDir dir) gatewayName = dir.location ++ gatewaySteps gatewayName := by
  rw [join_of_relative _ hGateway.1, gatewayDir_eq, append_assoc]
  rfl

theorem routesDir_eq :
    routesDir dir gatewayName = dir.location ++ (gatewaySteps gatewayName ++ ["route"]) := by
  rw [routesDir, join_gatewayDir dir hGateway, join_of_relative _ (by decide), append_assoc]
  rfl

theorem stepsInside_file {name : String} (hUp : name ≠ "..") :
    StepsInside dir.location (gatewaySteps gatewayName ++ [name]) :=
  hGateway.2.concat fun h => absurd h hUp

theorem gatewayMainConfigPath_inside :
    dir.location <+: resolve (gatewayMainConfigPath fs dir gatewayName) := by
  have hj : join (join (gatewayDir dir) gatewayName) "config" =
      dir.location ++ gatewaySteps gatewayName ++ ["config"] := by
    rw [join_gatewayDir dir hGateway]
    rfl
  rw [gatewayMainConfigPath, hj, withExtension_concat (by decide) (by decide), append_assoc]
  exact (stepsInside_file dir hGateway (Fs.fileName_ne_up fs _)).resolve dir.isName

theorem routePath_inside
    (hr : KeepsInside dir (gatewaySteps gatewayName ++ ["route"]) routeName) :
    dir.location <+: resolve (routePath fs dir gatewayName routeName) := by
  obtain ⟨below, hPath, hBelow⟩ := hr.2.withExtension ⟨"route", by simp, by decide⟩
    (Fs.fileName_ne_up fs)
  rw [routePath, join_of_relative _ hr.1, routesDir_eq dir hGateway, append_assoc, hPath]
  exact hBelow.resolve dir.isName

omit hGateway in
theorem pluginPath_inside {id : PluginInstanceId}
    (h : KeepsInside dir ["plugin"] (Fs.fileName fs id.asFileStem)) :
    dir.location <+: resolve (pluginPath fs dir id) := by
  rw [pluginPath, join_of_relative _ h.1, pluginDir_eq, append_assoc]
  exact h.2.resolve dir.isName

omit hGateway in
theorem entranceConfigPath_inside : dir.location <+: resolve (entranceConfigPath fs dir) := by
  have hj : join dir.location "config" = dir.location ++ ["config"] :=
    join_of_relative dir.location (by decide)
  rw [entranceConfigPath, hj, withExtension_concat (by decide) (by decide)]
  exact (stepsInside_name (Fs.isName_fileName fs (by decide))).resolve dir.isName

end Plain

/-- A name without a slash stays inside, also if it is empty or consists of dots. -/
theorem keepsInside_of_notMem {below : List String} {last name : String}
    (h : StepsInside dir.location below) (hl : IsName last) (hn : '/' ∉ name.toList) :
    KeepsInside dir (below ++ [last]) name := by
  have hBelow : StepsInside dir.location (below ++ [last]) :=
    h.concat fun hUp => absurd hUp hl.2.2
  by_cases he : name = ""
  · subst he
    exact ⟨rfl, by rwa [show segments '/' "" = [] from rfl, append_nil]⟩
  · refine ⟨?_, ?_⟩
    · rw [startsWith]
      cases hc : name.toList with
      | nil => rfl
      | cons c rest =>
        rw [hc, mem_cons, not_or] at hn
        simpa using Ne.symm hn.1
    · rw [segments_of_isSegment ⟨he, hn⟩]
      exact hBelow.concat fun _ => h.ne_base hl

/-! ## Confinement -/

section Confinement

theorem staysInside_savePlugins {plugins : List (PluginInstanceId × Json)}
    (h : ∀ plugin ∈ plugins, KeepsInside dir ["plugin"] (Fs.fileName fs plugin.1.asFileStem))
    (hc : some call ∈ savePlugins fs dir plugins) : call.StaysInside dir.location := by
  unfold savePlugins at hc
  split_ifs at hc
  · cases hc
  · rcases mem_cons.mp hc with hDir | hw
    · rw [Option.some.inj hDir, pluginDir_eq]
      exact (stepsInside_name (by decide)).createDirAll dir.isName
    · obtain ⟨plugin, hp, hs⟩ := mem_map.mp hw
      rw [eq_write_of_saveFile hs]
      exact pluginPath_inside dir (h plugin hp)

theorem staysInside_saveGateway {gateway : String × Fs.ConfigItem G}
    (hGateway : KeepsInside dir ["gateway"] gateway.1)
    (hr : ∀ route ∈ gateway.2.routes.entries,
      KeepsInside dir (gatewaySteps gateway.1 ++ ["route"]) route.1)
    (hc : some call ∈ saveGateway fs dir gateway) : call.StaysInside dir.location := by
  rcases mem_append.mp hc with hf | hw
  · simp only [mem_cons, not_mem_nil, or_false] at hf
    rcases hf with hDir | hm | hDir
    · rw [Option.some.inj hDir, join_gatewayDir dir hGateway]
      exact hGateway.2.createDirAll dir.isName
    · rw [eq_write_of_saveFile hm.symm]
      exact gatewayMainConfigPath_inside dir hGateway
    · rw [Option.some.inj hDir, routesDir_eq dir hGateway]
      exact (stepsInside_file dir hGateway (by decide)).createDirAll dir.isName
  · obtain ⟨route, hRoute, hs⟩ := mem_map.mp hw
    rw [eq_write_of_saveFile hs]
    exact routePath_inside dir hGateway (hr route hRoute)

theorem staysInside_saveConfig {config : Fs.Config G O} (h : NamesInside fs dir config)
    (hc : call ∈ saveConfig fs dir config) : call.StaysInside dir.location := by
  rcases mem_cons.mp (mem_of_mem_untilRefused hc) with hm | hb
  · rw [eq_write_of_saveFile hm.symm]
    exact entranceConfigPath_inside dir
  · rcases mem_append.mp hb with hp | hGateway
    · refine staysInside_savePlugins fs dir ?_ hp
      intro plugin hMem
      exact h.plugin plugin ((fs.hashOrder.perm _).mem_iff.mp hMem)
    · obtain ⟨gateway, hMem, hs⟩ := mem_flatMap.mp hGateway
      exact staysInside_saveGateway fs dir (h.gateway gateway hMem) (h.route gateway hMem) hs

end Confinement

/-! ## Names that lead out -/

section Examples

def etcSpacegate : ConfigDir where
  location := ["etc", "spacegate"]
  isName := List.forall_iff_forall_mem.mp (by decide)

/-- A format that writes every plugin specification. -/
def anyPluginFs : Fs Unit Unit :=
  { Fs.bracesFs with format := { Fs.bracesFormat with serValue := fun _ => .ok Fs.braces } }

end Examples

end FsPaths
end Spacegate.Config
