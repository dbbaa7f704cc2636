import Spacegate.Config.FsRoundTrip

/-!
# Changing a configuration

`modify_cached` reads the whole directory, clears it, and writes all of it again.  Whatever
it has not read is gone then, and so is everything when an operation fails in between.
-/

namespace Spacegate.Config

open Foundation Disk SortedMap ExceptT Option Except
open Foundation.Disk (Location Puts)
open Foundation.DiskM
open Foundation.FilePath (IsName)
open Foundation.FileStem
open Foundation.WriteHistory
open Model

namespace Fs

/-! ## Clearing -/

section Clearing

variable {order : IterOrder} {d : Disk}

theorem exec_fileTypeIsDir {l : Location} {node : Disk.Node} (h : d.get l = some node) :
    (fileTypeIsDir l).exec order d = (.ok (node == .dir), d) := by
  change ((((d.get l).elim (.error .notFound) fun node => .ok (node == .dir) :
    Except IoError Bool)).mapError FsError.io, d) = _
  rw [h]
  rfl

theorem exec_clearEntry {name : String} (h : d.get [name] ≠ none) :
    ∃ d', (clearEntry name).exec order d = (.ok (), d') ∧
      ∀ l, d'.get l = if l.head? = some name then none else d.get l := by
  obtain ⟨node, hn⟩ := ne_none_iff_exists'.mp h
  rw [clearEntry, exec_bind, exec_fileTypeIsDir hn]
  cases node with
  | dir =>
    obtain ⟨d', hOk, hGet⟩ := d.removeDirAll_eq_ok hn
    refine ⟨d', exec_removeDirAll_ok hOk, ?_⟩
    intro l
    have hIff : l ≠ [] ∧ [name] <+: l ↔ l.head? = some name := by
      cases l with
      | nil => simp
      | cons first rest => simp [eq_comm]
    simp [hGet l, hIff]
  | file content =>
    obtain ⟨d', hOk, hGet⟩ := d.removeFile_eq_ok hn
    refine ⟨d', exec_removeFile_ok hOk, ?_⟩
    intro l
    rw [hGet l]
    by_cases hh : l.head? = some name
    · obtain ⟨rest, rfl⟩ : ∃ rest, l = name :: rest := List.head?_eq_some_iff.mp hh
      -- nothing is below a file
      by_cases hr : rest = []
      · simp [hr]
      · have hNone : d.get (name :: rest) = none := by
          by_contra hs
          have hDir := d.get_of_below (l := [name]) hr hs
          rw [hn] at hDir
          cases hDir
        simp [hNone]
    · have hNe : l ≠ [name] := by
        rintro rfl
        exact hh rfl
      rw [if_neg hNe, if_neg hh]

theorem exec_clearEntries {names : List String} (hn : names.Nodup)
    (h : ∀ name ∈ names, d.get [name] ≠ none) :
    ∃ d', (names.forM clearEntry).exec order d = (.ok (), d') ∧
      ∀ l, d'.get l = if ∃ name ∈ names, l.head? = some name then none else d.get l := by
  induction names generalizing d with
  | nil => exact ⟨d, rfl, by simp⟩
  | cons name names ih =>
    obtain ⟨hnm, hn⟩ := List.nodup_cons.mp hn
    obtain ⟨d₁, he, hGet⟩ := exec_clearEntry (h name List.mem_cons_self)
    have hr : ∀ name' ∈ names, d₁.get [name'] ≠ none := by
      intro name' hn'
      have hNe : name ≠ name' := fun hEq => hnm (hEq ▸ hn')
      rw [hGet, if_neg (by simpa using hNe.symm)]
      exact h name' (List.mem_cons_of_mem _ hn')
    obtain ⟨d₂, he', hg'⟩ := ih hn hr
    refine ⟨d₂, (exec_bind_ok he).trans he', ?_⟩
    intro l
    rw [hg', hGet]
    by_cases hf : l.head? = some name
    · simp [hf]
    · simp [hf]

theorem exec_clearConfigDir :
    ∃ d', clearConfigDir.exec order d = (.ok (), d') ∧ ∀ l ≠ [], d'.get l = none := by
  obtain ⟨d₁, hOk, hg₁⟩ := d.createDirAll_eq_ok (l := [])
    (fun p hp => by rw [List.prefix_nil.mp hp]; simp [isFileNode])
  have hn : ∀ name ∈ order.iter (d₁.children []), d₁.get [name] ≠ none :=
    fun name hName => d₁.mem_children.mp ((order.perm _).mem_iff.mp hName)
  have hNodup : (order.iter (d₁.children [])).Nodup :=
    (order.perm _).nodup_iff.mpr (d₁.nodup_children [])
  obtain ⟨d₂, he, hg₂⟩ :
      ∃ d₂, ((order.iter (d₁.children [])).forM clearEntry).exec order d₁ = (.ok (), d₂) ∧
        ∀ l, d₂.get l =
          if ∃ name ∈ order.iter (d₁.children []), l.head? = some name then none else d₁.get l :=
    exec_clearEntries hNodup hn
  refine ⟨d₂, ?_, ?_⟩
  · have hm : (createDirAll []).exec order d = (.ok (), d₁) := exec_createDirAll_ok hOk
    rw [clearConfigDir, exec_bind_ok hm]
    exact he
  · rintro (_ | ⟨name, rest⟩) hl
    · exact absurd rfl hl
    · rw [hg₂]
      split_ifs with hc
      · rfl
      · by_contra hs
        apply hc
        refine ⟨name, ?_, rfl⟩
        rw [(order.perm _).mem_iff, d₁.mem_children]
        by_cases hr : rest = []
        · rw [hr] at hs
          exact hs
        · simp [d₁.get_of_below (l := [name]) hr hs]

end Clearing

/-! ## Preparing -/

section Preparing

variable {G O : Type} (fs : Fs G O) (order : IterOrder)
  (change : Config G O → Except FsError (Config G O)) (d : Disk)

/-- What `prepare` finds out from the directory. -/
def planned : Except FsError (Config G O × Config G O × List PluginConfig) := do
  let stored ← readPlugins fs order d
  let config ← readConfig fs order d
  let changed ← change config
  .ok (config, changed, withDisplayNames fs stored changed)

theorem exec_prepare : (prepare fs change).exec order d = (planned fs order change d, d) := by
  rw [prepare, exec_bind, exec_collectPluginConfigs, planned]
  cases readPlugins fs order d with
  | error e => rfl
  | ok stored =>
    simp only [exec_bind, exec_collectConfig]
    cases readConfig fs order d with
    | error e => rfl
    | ok config =>
      simp only [exec_ofExcept]
      cases hc : change config with
      | error e => simp [hc, bind, Except.bind]
      | ok changed => simp [hc, bind, Except.bind, exec_pure]

theorem reads_readFile (l : Location) : (readFile l).Reads :=
  (reads_ask rfl).bind fun _ => trivial

theorem reads_nextEntries (l : Location) : (nextEntries l).Reads :=
  (reads_ask rfl).bind fun _ => trivial

theorem reads_collectPlugins (names : List String) (plugins : List PluginConfig) :
    (collectPlugins fs names plugins).Reads := by
  induction names generalizing plugins with
  | nil => exact reads_pure _
  | cons name names ih =>
    refine (reads_ask rfl).bind fun file => ?_
    split_ifs
    · exact ih _
    · exact (reads_readFile _).bind fun _ => (reads_ofExcept _).bind fun _ =>
        (reads_ofExcept _).bind fun _ => ih _

theorem reads_collectPluginConfigs : (collectPluginConfigs fs).Reads := by
  refine (reads_ask rfl).bind fun opened => ?_
  cases opened with
  | error _ => exact reads_pure _
  | ok _ => exact (reads_nextEntries _).bind fun _ => reads_collectPlugins fs _ _

theorem reads_collectRoutes (dir : Location) (names : List String)
    (routes : SortedMap String SgRoute) : (collectRoutes fs dir names routes).Reads := by
  induction names generalizing routes with
  | nil => exact reads_pure _
  | cons name names ih =>
    refine (reads_ask rfl).bind fun file => ?_
    split_ifs
    · exact ih _
    · refine (reads_readFile _).bind fun bytes => ?_
      cases fs.format.deRoute bytes with
      | ok _ => exact ih _
      | error _ => exact ih _

theorem reads_collectGatewayItemConfig (name : String) :
    (collectGatewayItemConfig fs name).Reads := by
  have hPath : (findMainConfigPath fs name).Reads :=
    (reads_ask rfl).bind fun found => by cases found <;> exact reads_pure _
  have hRoutes : ∀ routes, (collectRouteDir fs (routesDir name) routes).Reads := by
    intro routes
    refine (reads_ask rfl).bind fun found => ?_
    split_ifs
    · exact reads_pure _
    · have hOpen : (readDir (routesDir name)).Reads := (reads_ask rfl).bind fun _ => trivial
      exact hOpen.bind fun _ => (reads_nextEntries _).bind fun _ => reads_collectRoutes fs _ _ _
  refine hPath.bind fun path => (reads_ask rfl).bind fun found => ?_
  split_ifs
  · exact reads_pure _
  · exact (reads_readFile _).bind fun _ => (reads_ofExcept _).bind fun _ =>
      (hRoutes _).bind fun _ => reads_pure _

theorem reads_collectGatewayDir (gateways : SortedMap String (ConfigItem G)) :
    (collectGatewayDir fs gateways).Reads := by
  have hNames : ∀ names found, (collectGatewayNames fs names found).Reads := by
    intro names
    induction names with
    | nil => exact fun found => reads_pure _
    | cons name names ih =>
      intro found
      refine (reads_ask rfl).bind fun file => ?_
      split_ifs
      · exact ih _
      · exact (reads_ask rfl).bind fun dir => by cases dir <;> exact ih _
  have hItems : ∀ names gateways, (collectGateways fs names gateways).Reads := by
    intro names
    induction names with
    | nil => exact fun gateways => reads_pure _
    | cons name names ih =>
      intro gateways
      have hTry : (attempt (collectGatewayItemConfig fs name)).Reads :=
        Prog.Reads.bind (reads_collectGatewayItemConfig fs name) fun _ => trivial
      refine hTry.bind fun collected => ?_
      rcases collected with _ | _ | _ <;> exact ih _
  refine (reads_ask rfl).bind fun opened => ?_
  cases opened with
  | error _ => exact reads_pure _
  | ok _ => exact (reads_nextEntries _).bind fun _ => (hNames _ _).bind fun _ => hItems _ _

theorem reads_prepare : (prepare fs change).Reads := by
  have hConfig : (collectConfig fs).Reads :=
    (reads_readFile _).bind fun _ => (reads_ofExcept _).bind fun _ =>
      (reads_collectPluginConfigs fs).bind fun _ => (reads_collectGatewayDir fs _).bind fun _ =>
        reads_pure _
  exact (reads_collectPluginConfigs fs).bind fun _ => hConfig.bind fun _ =>
    (reads_ofExcept _).bind fun _ => reads_pure _

end Preparing

/-! ## Committing -/

/-- The configuration can be stored with any display names, whether or not it is read back from
there under the same names. -/
structure Savable {G O : Type} (fs : Fs G O) (config : Config G O) : Prop where
  usable : Usable config
  carries : Carries fs config
  envelope : ∀ plugin ∈ config.plugins.entries, ∀ displayName,
    Gives fs.format.serValue fs.format.deValue
      (encodeStoredPluginConfig { id := plugin.1, displayName, spec := plugin.2 })
      (encodeStoredPluginConfig { id := plugin.1, displayName, spec := plugin.2 })

/-- The configuration can be stored with any display names and is read back from there. -/
structure Storable {G O : Type} (fs : Fs G O) (config : Config G O) : Prop
    extends StableNames config, Savable fs config

section Committing

variable {G O : Type} {fs : Fs G O} {order : IterOrder} {d : Disk} {config : Config G O}
  {stored : List PluginConfig}

/-- The values that `save_config` and then `save_plugin_configs` write for the plugins. -/
def writtenPlugins (fs : Fs G O) (stored : List PluginConfig) (config : Config G O) :
    List (PluginInstanceId × Json) :=
  fs.hashOrder.iter config.plugins.entries ++
    (withDisplayNames fs stored config).map fun plugin =>
      (plugin.id, encodeStoredPluginConfig plugin)

/-- The plugin as it is stored at the end. -/
def storedPlugin (stored : List PluginConfig) (id : PluginInstanceId) (spec : Json) :
    PluginConfig where
  id := id
  displayName := ((displayNames stored).get id).join
  spec := spec

theorem envelopes_eq : ((withDisplayNames fs stored config).map fun plugin =>
      (plugin.id, encodeStoredPluginConfig plugin)) =
    (fs.hashOrder.iter config.plugins.entries).map fun entry =>
      (entry.1, encodeStoredPluginConfig (storedPlugin stored entry.1 entry.2)) := by
  rw [withDisplayNames, List.map_map]
  rfl

/-- The directory holds the configuration with its display names. -/
abbrev Committed (fs : Fs G O) (stored : List PluginConfig) (config : Config G O)
    (d : Disk) : Prop :=
  Saved fs config (writtenPlugins fs stored config) d

variable (id : PluginInstanceId)

theorem latest_writtenPlugins :
    latest (writtenPlugins fs stored config) id = (config.plugins.get id).map fun spec =>
        encodeStoredPluginConfig (storedPlugin stored id spec) := by
  rw [writtenPlugins, latest_append, envelopes_eq,
    latest_map_entry (fun id spec => encodeStoredPluginConfig (storedPlugin stored id spec)),
    latest_hashOrder]
  cases config.plugins.get id <;> rfl

theorem mem_writtenPlugins {plugin : PluginInstanceId × Json}
    (h : plugin ∈ writtenPlugins fs stored config) :
    ∃ entry ∈ config.plugins.entries, plugin.1 = entry.1 ∧
      (plugin.2 = entry.2 ∨
        plugin.2 = encodeStoredPluginConfig (storedPlugin stored entry.1 entry.2)) := by
  have hp := fs.hashOrder.perm config.plugins.entries
  rw [writtenPlugins, envelopes_eq] at h
  rcases List.mem_append.mp h with hb | he
  · exact ⟨plugin, hp.mem_iff.mp hb, rfl, .inl rfl⟩
  · obtain ⟨entry, hEntry, rfl⟩ := List.mem_map.mp he
    exact ⟨entry, hp.mem_iff.mp hEntry, rfl, .inr rfl⟩

theorem Savable.readable (h : Savable fs config) :
    Readable fs (writtenPlugins fs stored config) := by
  intro plugin hMem
  obtain ⟨entry, he, -, hv | hv⟩ := mem_writtenPlugins hMem
  · rw [hv]
    exact h.carries.plugin entry he
  · rw [hv]
    exact h.envelope entry he _

theorem hasFiles_writtenPlugins (h : ∀ plugin ∈ config.plugins.entries, HasFile plugin.1) :
    ∀ plugin ∈ writtenPlugins fs stored config, HasFile plugin.1 := by
  intro plugin hMem
  obtain ⟨entry, he, hId, -⟩ := mem_writtenPlugins hMem
  rw [hId]
  exact h entry he

theorem exec_commit (h : Savable fs config) :
    ∃ d', (commit fs config (withDisplayNames fs stored config)).exec order d = (.ok (), d') ∧
      Committed fs stored config d' := by
  obtain ⟨d₀, hc, hEmpty⟩ :
      ∃ d₀, clearConfigDir.exec order d = (.ok (), d₀) ∧ ∀ l ≠ [], d₀.get l = none :=
    exec_clearConfigDir
  have hGet : ∀ l, d₀.get l = empty.get l := by
    intro l
    by_cases hl : l = []
    · rw [hl, get_root, get_root]
    · rw [hEmpty l hl, get_empty hl]
  have hf : (layout fs).Follows d₀ := by
    intro l node hn
    rw [hGet] at hn
    exact Disk.Layout.follows_empty l node hn
  have he : ∀ plugin ∈ (withDisplayNames fs stored config).map fun plugin =>
      (plugin.id, encodeStoredPluginConfig plugin),
      plugin ∈ writtenPlugins fs stored config :=
    fun plugin hMem => List.mem_append_right _ hMem
  have ha : Adds order (layout fs) (saveConfig fs config >>= fun _ =>
        savePluginConfigs fs (withDisplayNames fs stored config)) d₀
      (configPuts fs config ++ pluginPuts fs ((withDisplayNames fs stored config).map
        fun plugin => (plugin.id, encodeStoredPluginConfig plugin))) := by
    refine (adds_saveConfig h.usable h.carries.writable hf).bind ?_
    intro d₁ _ hf₁
    refine adds_savePlugins ?_ ?_ hf₁
    · intro plugin hMem
      obtain ⟨entry, hEntry, hId, -⟩ := mem_writtenPlugins (he plugin hMem)
      rw [hId]
      exact h.usable.plugin entry hEntry
    · exact fun plugin hMem => (h.readable plugin (he plugin hMem)).written
  obtain ⟨d', hExec, hp, -⟩ := ha
  refine ⟨d', ?_, ?_⟩
  · rw [commit, exec_bind_ok hc]
    exact hExec
  · apply saved_of_puts
    intro l
    rw [hp l, hGet l]

/-- When an operation fails before the first removal, nothing is removed. -/
theorem execFaulty_commit (plugins : List PluginConfig) {faults : List Bool}
    (h : true ∈ faults.take 4) :
    ∃ e, (commit fs config plugins).execFaulty order faults d = (.error e, d) := by
  match faults, h with
  | true :: _, _ => exact ⟨_, rfl⟩
  | false :: true :: _, _ => exact ⟨_, rfl⟩
  | false :: false :: true :: _, _ => exact ⟨_, rfl⟩
  | false :: false :: false :: true :: faults, _ =>
    have hClear : (commit fs config plugins).execFaulty order
        (false :: false :: false :: true :: faults) d =
          ((order.iter (d.children [])).forM clearEntry >>= fun _ => saveConfig fs config >>=
            fun _ => savePluginConfigs fs plugins).execFaulty order (true :: faults) d := rfl
    rw [hClear]
    cases order.iter (d.children []) with
    | cons name names => exact ⟨_, rfl⟩
    | nil =>
      change ∃ e, (saveConfig fs config >>= fun _ =>
        savePluginConfigs fs plugins).execFaulty order (true :: faults) d = (.error e, d)
      rw [saveConfig, saveFile]
      cases fs.format.serConfig { config with gateways := ∅, plugins := ∅ } with
      | error e => exact ⟨_, rfl⟩
      | ok bytes => exact ⟨_, rfl⟩

/-- The plugin as it is read after that. -/
def rereadPlugin (stored : List PluginConfig) (id : PluginInstanceId) (spec : Json) :
    PluginConfig :=
  { storedPlugin stored id spec with
    displayName := normalizePluginDisplayName (storedPlugin stored id spec).displayName }

theorem decode_storedPlugin (spec : Json) :
    decodeStoredPluginConfig id (encodeStoredPluginConfig (storedPlugin stored id spec)) =
      .ok (rereadPlugin stored id spec) :=
  decodeStoredPluginConfig_encodeStoredPluginConfig (storedPlugin stored id spec)

theorem exists_item_of_below {values : List (PluginInstanceId × Json)}
    (hSaved : Saved fs config values d) {g first : String} {rest : Location}
    (h : d.get ("gateway" :: g :: first :: rest) ≠ none) :
    ∃ item, config.gateways.get g = some item := by
  have hDir : d.get ["gateway", g] = some .dir := d.get_of_below (List.cons_ne_nil first rest) h
  rw [hSaved.gateway g] at hDir
  obtain ⟨item, hi, -⟩ := map_eq_some_iff.mp hDir
  exact ⟨item, hi⟩

section Plugins

variable (h : Savable fs config) (hSaved : Committed fs stored config d)
  (hFiles : ∀ plugin ∈ config.plugins.entries, HasFile plugin.1)

include h hSaved hFiles

theorem exists_readPlugins_of_commit : ∃ plugins, readPlugins fs order d = .ok plugins := by
  apply exists_readPlugins_of_saved hSaved h.readable (hasFiles_writtenPlugins hFiles)
  intro id value hv
  rw [latest_writtenPlugins] at hv
  obtain ⟨spec, -, rfl⟩ := map_eq_some_iff.mp hv
  exact ⟨_, decode_storedPlugin id spec⟩

theorem readPlugins_of_commit : ∃ plugins, readPlugins fs order d = .ok plugins ∧
      ∀ plugin, plugin ∈ plugins ↔ ∃ spec, config.plugins.get plugin.id = some spec ∧
        plugin = rereadPlugin stored plugin.id spec := by
  obtain ⟨plugins, hPlugins⟩ := exists_readPlugins_of_commit h hSaved hFiles
  refine ⟨plugins, hPlugins, ?_⟩
  intro plugin
  rw [mem_of_readPlugins fs order d hPlugins,
    readPlugin_eq_some_iff hSaved h.readable (hasFiles_writtenPlugins hFiles)]
  constructor
  · rintro ⟨value, hv, hp⟩
    rw [latest_writtenPlugins] at hv
    obtain ⟨spec, hs, rfl⟩ := map_eq_some_iff.mp hv
    rw [decode_storedPlugin] at hp
    exact ⟨spec, hs, (ok.inj hp).symm⟩
  · rintro ⟨spec, hs, hp⟩
    refine ⟨_, by rw [latest_writtenPlugins, hs]; rfl, ?_⟩
    rw [decode_storedPlugin, ← hp]

theorem pluginSpecs_of_commit {plugins : List PluginConfig}
    (hPlugins : readPlugins fs order d = .ok plugins) : specMap plugins = config.plugins := by
  apply ext_get
  intro id
  apply Option.ext
  intro spec
  rw [specMap, get_insertAll_empty,
    latest_pluginSpecs_iff hSaved h.readable (hasFiles_writtenPlugins hFiles) hPlugins,
    latest_writtenPlugins]
  constructor
  · rintro ⟨value, plugin, hv, hp, rfl⟩
    obtain ⟨spec, hs, rfl⟩ := map_eq_some_iff.mp hv
    rw [decode_storedPlugin] at hp
    cases hp
    exact hs
  · intro hs
    exact ⟨_, _, by rw [hs]; rfl, decode_storedPlugin id spec, rfl⟩

end Plugins

theorem readConfig_of_commit_iff (h : Savable fs config)
    (hSaved : Committed fs stored config d) :
    readConfig fs order d = .ok config ↔ StableNames config := by
  rw [readConfig_eq_ok_iff hSaved h.carries, readGatewayDir_eq_iff hSaved h.usable h.carries,
    gateways_iff_stable]
  constructor
  · rintro ⟨⟨plugins, hp, hEq⟩, hg, hr, hMcp⟩
    exact ⟨hg, hr, hMcp, fun plugin hMem => hasFile_of_restored hEq hMem hSaved h.readable hp⟩
  · intro hs
    obtain ⟨plugins, hp⟩ := exists_readPlugins_of_commit h hSaved hs.id
    exact ⟨⟨plugins, hp, pluginSpecs_of_commit h hSaved hs.id hp⟩, hs.gateway, hs.route, hs.mcp⟩

section Reading

variable (h : Storable fs config) (hSaved : Committed fs stored config d)

include h hSaved

theorem namedRoute_of_commit {g r : String} {route : SgRoute} :
    namedRoute fs d ["gateway", g, "route"] r = some route ↔
      ∃ item, config.gateways.get g = some item ∧ item.routes.get r = some route := by
  cases hi : config.gateways.get g with
  | none =>
    have hn : d.get ["gateway", g, "route", fileName fs r] = none := by
      by_contra hs
      obtain ⟨item, hi'⟩ := exists_item_of_below hSaved hs
      rw [hi] at hi'
      cases hi'
    simp [namedRoute, fileAt, hn]
  | some item =>
    have hMem : (g, item) ∈ config.gateways.entries := get_eq_some_iff.mp hi
    have hr : restoredRoutes item.routes = item.routes :=
      (gateways_iff_stable.mpr ⟨h.gateway, h.route, h.mcp⟩ _ hMem).2
    rw [namedRoute_of_saved hSaved h.usable h.carries hMem, hr]
    simp

end Reading

end Committing

/-! ## What a change keeps -/

section Keeping

variable {G O : Type} (fs : Fs G O) (order : IterOrder) (g : String)

/-- Other gateways and the plugins are the same. -/
structure SameBut (config changed : Config G O) : Prop where
  gateway : ∀ g' ≠ g, changed.gateways.get g' = config.gateways.get g'
  plugin : changed.plugins = config.plugins

/-- The change only touches one gateway. -/
def Touches (change : Config G O → Except FsError (Config G O)) : Prop :=
  ∀ config changed, change config = .ok changed → SameBut g config changed

theorem sameBut_setItem {config changed : Config G O} {item : ConfigItem G}
    (h : changed = config.setItem g item) : SameBut g config changed := by
  subst h
  exact ⟨fun g' hNe => get_insert_ne config.gateways hNe.symm item, rfl⟩

/-- Every call but the one for the whole configuration touches only its gateway. -/
theorem Call.touches {call : Call G O} (h : call.gatewayName = some g) :
    Touches g (call.change : Config G O → Except FsError (Config G O)) := by
  intro config changed hc
  have hModify : ∀ (message : String) (f : ConfigItem G → Except FsError (ConfigItem G)),
      config.modifyItem g message f = .ok changed → SameBut g config changed := by
    intro message f hm
    unfold Config.modifyItem at hm
    split at hm
    · cases hm
    · obtain ⟨item, -, hSet⟩ := exists_of_map_eq_ok hm
      exact sameBut_setItem g hSet
  have hr : changed = config.removeItem g → SameBut g config changed := by
    rintro rfl
    exact ⟨fun g' hNe => by simp [Config.removeItem, get_erase, hNe.symm], rfl⟩
  have hs : changed = config → SameBut g config changed := by
    rintro rfl
    exact ⟨fun _ _ => rfl, rfl⟩
  cases call with
  | createConfigItem gatewayName item =>
    cases h
    simp only [Call.change] at hc
    split_ifs at hc with he
    exact sameBut_setItem _ (ok.inj hc).symm
  | createConfigItemRoute _ _ _ | updateConfigItemGateway _ _ | updateConfigItemRoute _ _ _
  | updateConfigItem _ _ =>
    cases h
    exact hModify _ _ hc
  | updateConfig config => cases h
  | deleteConfigItemGateway _ | deleteConfigItem _ =>
    cases h
    exact hr (ok.inj hc).symm
  | deleteConfigItemRoute _ _ | deleteConfigItemAllRoutes _ =>
    cases h
    simp only [Call.change] at hc
    split at hc
    · exact hs (ok.inj hc).symm
    · exact sameBut_setItem _ (ok.inj hc).symm

/-- A gateway or route file of another gateway that cannot be parsed. -/
def Broken (l : Location) (bytes : List UInt8) : Prop :=
  (∃ g' ≠ g, (l = ["gateway", g', fileName fs "config"] ∨ l = ["gateway", fileName fs g']) ∧
    ∃ e, fs.format.deItem bytes = .error e) ∨
  ∃ g' ≠ g, ∃ r, l = ["gateway", g', "route", fileName fs r] ∧
    ∃ e, fs.format.deRoute bytes = .error e

/-- Other gateways, routes and plugins are in force as before, and files of other gateways
that cannot be parsed are as before. -/
structure Kept (d d' : Disk) : Prop where
  config : ∀ config, readConfig fs order d = .ok config →
    ∃ config', readConfig fs order d' = .ok config' ∧ SameBut g config config'
  plugin : ∀ plugins, readPlugins fs order d = .ok plugins →
    ∃ plugins', readPlugins fs order d' = .ok plugins' ∧
      ∀ id plugin, latest (plugins.map fun plugin => (plugin.id, plugin)) id = some plugin →
        plugin ∈ plugins'
  route : ∀ g' ≠ g, ∀ r route, namedRoute fs d ["gateway", g', "route"] r = some route →
    namedRoute fs d' ["gateway", g', "route"] r = some route
  broken : ∀ l bytes, d.fileAt l = some bytes → Broken fs g l bytes → d'.fileAt l = some bytes

/-- Every gateway and route file of another gateway is part of the configuration that is
read. -/
structure AllRead (d : Disk) (config : Config G O) : Prop where
  parses : ∀ l bytes, d.fileAt l = some bytes → ¬ Broken fs g l bytes
  route : ∀ g' ≠ g, ∀ r route, namedRoute fs d ["gateway", g', "route"] r = some route →
    ∃ item, config.gateways.get g' = some item ∧ item.routes.get r = some route

variable {fs order g} {d d' : Disk} {config changed : Config G O} {stored : List PluginConfig}

/-- After a change all files can be parsed. -/
theorem not_broken_of_commit (h : Storable fs changed)
    (hSaved : Committed fs stored changed d') {l : Location}
    {bytes : List UInt8} (hf : d'.fileAt l = some bytes) : ¬ Broken fs g l bytes := by
  have hn := (d'.fileAt_eq_some_iff).mp hf
  have hs : d'.get l ≠ none := by simp [hn]
  rintro (⟨g', -, rfl | rfl, e, he⟩ | ⟨g', -, r, rfl, e, he⟩)
  · obtain ⟨item, hi⟩ := exists_item_of_below hSaved hs
    have hMem : (g', item) ∈ changed.gateways.entries := get_eq_some_iff.mp hi
    obtain ⟨bytes', hf', hp⟩ := (h.carries.gateway _ hMem).fileAt (hSaved.item _ hMem)
    rw [hf] at hf'
    cases hf'
    rw [he] at hp
    cases hp
  · -- only directories are directly in the gateway directory
    rw [hSaved.gateway] at hn
    obtain ⟨item, -, hDir⟩ := map_eq_some_iff.mp hn
    cases hDir
  · obtain ⟨item, hi⟩ := exists_item_of_below hSaved hs
    have hMem : (g', item) ∈ changed.gateways.entries := get_eq_some_iff.mp hi
    have hr := hSaved.route _ hMem (fileName fs r)
    rw [hn] at hr
    obtain ⟨route, hl, hw⟩ := map_eq_some_iff.mp hr.symm
    obtain ⟨entry, hEntry, hEq⟩ := List.mem_map.mp (mem_of_latest hl)
    have hv : entry.2 = route := congrArg Prod.snd hEq
    have hn' : d'.get ["gateway", g', "route", fileName fs r] =
        some (written (fs.format.serRoute entry.2)) := by
      rw [hn, hv, hw]
    obtain ⟨bytes', hf', hp⟩ := (h.carries.route _ hMem entry hEntry).fileAt hn'
    rw [hf] at hf'
    cases hf'
    rw [he] at hp
    cases hp

theorem latest_pluginSpecs_of_latest {id : PluginInstanceId} {plugin : PluginConfig}
    (h : latest (stored.map fun plugin => (plugin.id, plugin)) id = some plugin) :
    plugin ∈ stored ∧ plugin.id = id ∧ latest (pluginSpecs stored) id = some plugin.spec ∧
      (displayNames stored).get id = some plugin.displayName := by
  obtain ⟨plugin', hMem, hEq⟩ := List.mem_map.mp (mem_of_latest h)
  cases hEq
  refine ⟨hMem, rfl, ?_, ?_⟩
  · have hs := latest_map_value PluginConfig.spec
      (stored.map fun plugin => (plugin.id, plugin)) plugin.id
    rw [h, List.map_map] at hs
    exact hs
  · have hn := latest_map_value PluginConfig.displayName
      (stored.map fun plugin => (plugin.id, plugin)) plugin.id
    rw [h, List.map_map] at hn
    rw [displayNames, get_insertAll_empty]
    exact hn

theorem displayName_of_readPlugins (hp : readPlugins fs order d = .ok stored)
    {plugin : PluginConfig} (hMem : plugin ∈ stored) :
    normalizePluginDisplayName plugin.displayName = plugin.displayName := by
  obtain ⟨name, hn⟩ := (mem_of_readPlugins fs order d hp plugin).mp hMem
  unfold readPlugin at hn
  split at hn
  · cases hn
  · split_ifs at hn with hExt
    · cases hn
    · obtain ⟨value, -, hn⟩ := exists_of_bind_eq_ok hn
      obtain ⟨plugin', hd, hEq⟩ := exists_of_bind_eq_ok hn
      cases hEq
      exact displayName_of_decodeStoredPluginConfig (eq_ok_of_mapError_eq_ok hd)

theorem get_plugins_of_readConfig (hp : readPlugins fs order d = .ok stored)
    (hc : readConfig fs order d = .ok config) {id : PluginInstanceId} {spec : Json}
    (h : latest (pluginSpecs stored) id = some spec) : config.plugins.get id = some spec := by
  obtain ⟨main, -, hc⟩ := exists_of_bind_eq_ok hc
  rw [hp] at hc
  cases hc
  rw [get_insertAll, h]
  rfl

variable {change : Config G O → Except FsError (Config G O)}

/-- What a completed change keeps: everything that was read, and nothing else. -/
theorem kept_iff_allRead (ht : Touches g change) (hp : readPlugins fs order d = .ok stored)
    (hc : readConfig fs order d = .ok config) (hChange : change config = .ok changed)
    (h : Storable fs changed) (hSaved : Committed fs stored changed d') :
    Kept fs order g d d' ↔ AllRead fs g d config := by
  have hSame := ht config changed hChange
  constructor
  · intro hk
    refine ⟨?_, ?_⟩
    · intro l bytes hf hb
      exact not_broken_of_commit h hSaved (hk.broken l bytes hf hb) hb
    · intro g' hNe r route hr
      obtain ⟨item, hi, hGet⟩ := (namedRoute_of_commit h hSaved).mp (hk.route g' hNe r route hr)
      exact ⟨item, by rw [← hSame.gateway g' hNe, hi], hGet⟩
  · intro hAll
    refine ⟨?_, ?_, ?_, ?_⟩
    · intro config' hc'
      rw [hc] at hc'
      cases hc'
      exact ⟨changed, (readConfig_of_commit_iff h.toSavable hSaved).mpr h.toStableNames, hSame⟩
    · intro plugins hp'
      rw [hp] at hp'
      cases hp'
      obtain ⟨plugins', hRead, hMem⟩ := readPlugins_of_commit h.toSavable hSaved h.id
      refine ⟨plugins', hRead, ?_⟩
      intro id plugin hl
      obtain ⟨hs, rfl, hSpec, hn⟩ := latest_pluginSpecs_of_latest hl
      rw [hMem]
      refine ⟨plugin.spec, ?_, ?_⟩
      · rw [hSame.plugin]
        exact get_plugins_of_readConfig hp hc hSpec
      · simp [rereadPlugin, storedPlugin, hn, displayName_of_readPlugins hp hs]
    · intro g' hNe r route hr
      obtain ⟨item, hi, hGet⟩ := hAll.route g' hNe r route hr
      exact (namedRoute_of_commit h hSaved).mpr ⟨item, by rw [hSame.gateway g' hNe, hi], hGet⟩
    · intro l bytes hf hb
      exact absurd hb (hAll.parses l bytes hf)

/-- A call of `modify_cached` in which some operations fail: on success the rest is kept,
and an error leaves the directory as it was. -/
def Keeps (fs : Fs G O) (order : IterOrder) (faults : List Bool) (g : String)
    (change : Config G O → Except FsError (Config G O)) (d : Disk) : Prop :=
  match (modifyCached fs change).execFaulty order faults d with
  | (.ok _, d') => Kept fs order g d d'
  | (.error _, d') => ∀ l, d'.get l = d.get l

theorem exec_modifyCached_error {e : FsError} (h : planned fs order change d = .error e) :
    (modifyCached fs change).exec order d = (.error e, d) := by
  rw [modifyCached, exec_bind, exec_prepare, h]

theorem exec_modifyCached_ok (hp : readPlugins fs order d = .ok stored)
    (hc : readConfig fs order d = .ok config) (hChange : change config = .ok changed)
    (h : Savable fs changed) : ∃ d', (modifyCached fs change).exec order d = (.ok config, d') ∧
      Committed fs stored changed d' := by
  have hPlanned : planned fs order change d =
      .ok (config, changed, withDisplayNames fs stored changed) := by
    simp [planned, hp, hc, hChange, bind, Except.bind]
  obtain ⟨d', he, hSaved⟩ :
      ∃ d', (commit fs changed (withDisplayNames fs stored changed)).exec order d =
        (.ok (), d') ∧ Committed fs stored changed d' :=
    exec_commit h
  refine ⟨d', ?_, hSaved⟩
  rw [modifyCached, exec_bind, exec_prepare, hPlanned]
  simp only
  rw [exec_bind_ok he, exec_pure]

theorem exists_of_planned {plan : Config G O × Config G O × List PluginConfig}
    (h : planned fs order change d = .ok plan) :
    ∃ stored config changed, readPlugins fs order d = .ok stored ∧
      readConfig fs order d = .ok config ∧ change config = .ok changed := by
  obtain ⟨stored, hp, h⟩ := exists_of_bind_eq_ok h
  obtain ⟨config, hc, h⟩ := exists_of_bind_eq_ok h
  obtain ⟨changed, hChange, -⟩ := exists_of_bind_eq_ok h
  exact ⟨stored, config, changed, hp, hc, hChange⟩

theorem exists_readPlugins_of_readConfig (h : readConfig fs order d = .ok config) :
    ∃ plugins, readPlugins fs order d = .ok plugins := by
  obtain ⟨main, -, h⟩ := exists_of_bind_eq_ok h
  obtain ⟨plugins, hp, -⟩ := exists_of_bind_eq_ok h
  exact ⟨plugins, hp⟩

/-! ## When operations fail -/

variable (fs order change d) (faults : List Bool)

/-- The call fails before anything is removed: while it reads, or at one of the four operations
that come before the first removal, `create_dir_all`, `read_dir`, `next_entry` and `file_type`. -/
def StopsInTime : Prop :=
  (∃ e, ((prepare fs change).execFaulty order faults d).1 = .error e) ∨
    true ∈ ((prepare fs change).faultsLeft order faults d).take 4

/-- The call reads what it reads without failures, and no operation fails after that. -/
def Undisturbed : Prop :=
  ((prepare fs change).execFaulty order faults d).1 = planned fs order change d ∧
    ∀ fault ∈ (prepare fs change).faultsLeft order faults d, fault = false

theorem execFaulty_modifyCached : (modifyCached fs change).execFaulty order faults d =
      match ((prepare fs change).execFaulty order faults d).1 with
      | .ok prepared => (commit fs prepared.2.1 prepared.2.2 >>= fun _ =>
          pure prepared.1).execFaulty order ((prepare fs change).faultsLeft order faults d) d
      | .error e => (.error e, d) := by
  have hd : ((prepare fs change).execFaulty order faults d).2 = d :=
    (reads_prepare fs change).runFaulty faults d
  rw [modifyCached, execFaulty_bind]
  rcases he : (prepare fs change).execFaulty order faults d with ⟨_ | prepared, d'⟩
  · rw [he] at hd
    rw [← hd]
  · rw [he] at hd
    rw [← hd]

variable {fs order d change faults}

theorem StopsInTime.execFaulty (h : StopsInTime fs order d change faults) :
    ∃ e, (modifyCached fs change).execFaulty order faults d = (.error e, d) := by
  rw [execFaulty_modifyCached]
  rcases hr : ((prepare fs change).execFaulty order faults d).1 with e | prepared
  · exact ⟨e, rfl⟩
  · rcases h with ⟨e, he⟩ | h
    · rw [hr] at he
      cases he
    · obtain ⟨e, he⟩ : ∃ e, (commit fs prepared.2.1 prepared.2.2).execFaulty order
          ((prepare fs change).faultsLeft order faults d) d = (.error e, d) :=
        execFaulty_commit prepared.2.2 h
      refine ⟨e, ?_⟩
      dsimp only
      rw [execFaulty_bind, he]

theorem Undisturbed.execFaulty (h : Undisturbed fs order d change faults) :
    (modifyCached fs change).execFaulty order faults d =
      (modifyCached fs change).exec order d := by
  rw [execFaulty_modifyCached, h.1, modifyCached, exec_bind, exec_prepare]
  rcases planned fs order change d with e | prepared
  · rfl
  · exact Prog.runFaulty_of_no_fault h.2 _ _

end Keeping

/-- What can be stored in braces. -/
theorem storable_braces {config : Config Unit Unit} (hPort : config.apiPort = none)
    (hp : config.plugins.entries = [])
    (hRoutes : ∀ gateway ∈ config.gateways.entries, gateway.2.routes.entries = [])
    (hn : ∀ gateway ∈ config.gateways.entries, IsName gateway.1 ∧ fileStem gateway.1 = gateway.1) :
    Storable bracesFs config := by
  have hnr : ∀ gateway ∈ config.gateways.entries, ∀ route, route ∉ gateway.2.routes.entries :=
    fun gateway hMem route => hRoutes gateway hMem ▸ List.not_mem_nil
  have hnp : ∀ plugin, plugin ∉ config.plugins.entries := fun plugin => hp ▸ List.not_mem_nil
  have hm : mainPart config =
      { gateways := ∅, plugins := ∅, apiPort := none, observability := () } := by
    rw [mainPart, hPort]
  refine
    { gateway := fun gateway hMem => (hn gateway hMem).2
      route := fun gateway hMem route hr => absurd hr (hnr gateway hMem route)
      mcp := fun gateway hMem route hr => absurd hr (hnr gateway hMem route)
      id := fun plugin hMem => absurd hMem (hnp plugin)
      usable :=
        { gateway := fun gateway hMem => (hn gateway hMem).1
          route := fun gateway hMem route hr => absurd hr (hnr gateway hMem route)
          plugin := fun plugin hMem => absurd hMem (hnp plugin) }
      carries :=
        { main := ?_
          gateway := fun _ _ => ⟨braces, rfl, rfl⟩
          route := fun gateway hMem route hr => absurd hr (hnr gateway hMem route)
          plugin := fun plugin hMem => absurd hMem (hnp plugin) }
      envelope := fun plugin hMem => absurd hMem (hnp plugin) }
  rw [hm]
  exact ⟨braces, rfl, rfl⟩

/-- The gateways with these names, without routes. -/
def bareConfig (names : List String) : Config Unit Unit where
  gateways := (∅ : SortedMap String (ConfigItem Unit)).insertAll
    (names.map fun name => (name, { gateway := (), routes := ∅ }))
  plugins := ∅
  apiPort := none
  observability := ()

theorem storable_bareConfig {names : List String}
    (h : ∀ name ∈ names, IsName name ∧ fileStem name = name) :
    Storable bracesFs (bareConfig names) := by
  have he : ∀ gateway ∈ (bareConfig names).gateways.entries,
      gateway.1 ∈ names ∧ gateway.2.routes.entries = [] := by
    rintro ⟨name, item⟩ hMem
    have hGet := get_eq_some_iff.mpr hMem
    rw [bareConfig, get_insertAll_empty, latest_map_const (fun name => name)] at hGet
    split_ifs at hGet with hn
    cases hGet
    exact ⟨by simpa using hn, rfl⟩
  exact storable_braces rfl rfl (fun gateway hMem => (he gateway hMem).2)
    fun gateway hMem => h gateway.1 (he gateway hMem).1

/-- A directory with these files. -/
def dirOf (files : List (Location × List UInt8)) : Disk :=
  let make : FsM Unit := files.forM fun file => do
    createDirAll file.1.dropLast
    writeFile file.1 file.2
  (make.exec .unchanged .empty).2

/-- The gateway `edge` without routes. -/
def edgeDir : Disk :=
  dirOf [(["config.json"], braces), (["gateway", "edge", "config.json"], braces)]

/-- The same with a route file that cannot be parsed. -/
def edgeBrokenDir : Disk :=
  dirOf
    [(["config.json"], braces), (["gateway", "edge", "config.json"], braces),
      (["gateway", "edge", "route", "api.json"], [33])]

def createShop : Call Unit Unit :=
  .createConfigItemGateway "shop" ()

end Fs
end Spacegate.Config
