import Spacegate.Config.FsConfig
import Spacegate.Foundation.DiskWrites
import Spacegate.Foundation.FilePath

/-!
# What saving leaves in an empty directory

Every file and every directory that saving makes has its own place, so nothing stands in
the way of anything else.  `Saved` says where the parts of a configuration are then
found.  Several plugins, and several routes of a gateway, may share a file; the last one
stays.
-/

namespace Spacegate.Config

open Foundation Disk SortedMap List
open Foundation.Disk (Location Layout Puts makeDirs)
open Foundation.DiskM (Adds)
open Foundation.FilePath (IsName)
open Foundation.FileStem
open Foundation.Text
open Foundation.WriteHistory
open Model

namespace Fs

variable {G O : Type} (fs : Fs G O)

/-! ## Places -/

theorem fileName_injective : Function.Injective (fileName fs) := by
  intro stem stem' h
  apply String.toList_inj.mp
  have hl := congrArg String.toList h
  simpa [fileName] using hl

theorem fileName_ne {stem name : String} (h : '.' ∉ name.toList) : fileName fs stem ≠ name := by
  rintro rfl
  simp [fileName] at h

theorem fileName_ne_up (stem : String) : fileName fs stem ≠ ".." := by
  intro hEq
  have hExt := fs.format.isExtension
  obtain ⟨c, hc⟩ := exists_mem_of_ne_nil _
    (fun hNil => hExt.ne_empty (String.toList_eq_nil_iff.mp hNil))
  have hMem : c ∈ "..".toList := by
    rw [← hEq]
    simp [fileName, hc]
  obtain rfl : c = '.' := by simpa using hMem
  exact hExt.no_dot hc

theorem isName_fileName {stem : String} (h : '/' ∉ stem.toList) : IsName (fileName fs stem) := by
  have hExt := fs.format.isExtension
  have hs : '/' ∉ (fileName fs stem).toList := by
    simp [fileName, h, hExt.no_slash]
  obtain ⟨c, rest, hc⟩ := exists_cons_of_ne_nil
    (fun hNil => hExt.ne_empty (String.toList_eq_nil_iff.mp hNil))
  have hl : (fileName fs stem).toList = stem.toList ++ '.' :: c :: rest := by
    simp [fileName, hc]
  refine ⟨⟨?_, hs⟩, ?_, ?_⟩
  · intro hEq
    rw [hEq] at hl
    simp at hl
  · intro hEq
    have hLength := congrArg length hl
    rw [hEq] at hLength
    simp at hLength
    omega
  · exact fileName_ne_up fs stem

theorem joinName_of_isName {name : String} (h : IsName name) (l : Location) :
    joinName l name = l ++ [name] := by
  obtain ⟨hs, hDot, hUp⟩ := h
  have hr : startsWith '/' name = false := by
    rw [startsWith, beq_eq_false_iff_ne]
    intro hh
    exact hs.2 (mem_of_head? hh)
  rw [joinName, segments_of_isSegment hs, hr]
  simp [pathStep, hDot, hUp]

theorem entranceConfigPath_eq : entranceConfigPath fs = [fileName fs "config"] := by
  have hs : fileStem "config" = "config" := by decide
  simp [entranceConfigPath, withExtension, fileName, hs]

section Names

variable {g r : String}

theorem gatewayMainConfigPath_eq (hg : IsName g) :
    gatewayMainConfigPath fs g = ["gateway", g, fileName fs "config"] := by
  have hs : fileStem "config" = "config" := by decide
  simp [gatewayMainConfigPath, joinName_of_isName hg, gatewayDir, withExtension, fileName, hs]

theorem routesDir_eq (hg : IsName g) : routesDir g = ["gateway", g, "route"] := by
  simp [routesDir, joinName_of_isName hg, gatewayDir]

theorem routePath_eq (hg : IsName g) (hr : IsName r) :
    routePath fs g r = ["gateway", g, "route", fileName fs (fileStem r)] := by
  simp [routePath, routesDir_eq hg, joinName_of_isName hr, withExtension, fileName]

end Names

theorem pluginPath_eq {id : PluginInstanceId} (h : '/' ∉ id.asFileStem.toList) :
    pluginPath fs id = ["plugin", fileName fs id.asFileStem] := by
  have hn := joinName_of_isName (isName_fileName fs h) pluginDir
  exact hn

/-- The places of a configuration directory. -/
def layout : Layout where
  IsDir
    | [] => True
    | [a] => a = "plugin" ∨ a = "gateway"
    | [a, _] => a = "gateway"
    | [a, _, b] => a = "gateway" ∧ b = "route"
    | _ => False
  IsFile
    | [a] => a = fileName fs "config"
    | [a, _] => a = "plugin"
    | [a, _, b] => a = "gateway" ∧ b = fileName fs "config"
    | [a, _, b, _] => a = "gateway" ∧ b = "route"
    | _ => False
  disjoint := by
    have hMain : ∀ name : String, '.' ∉ name.toList → name ≠ fileName fs "config" :=
      fun name h => (fileName_ne fs h).symm
    rintro (_ | ⟨a, _ | ⟨b, _ | ⟨c, _ | ⟨e, _ | ⟨f, rest⟩⟩⟩⟩⟩) hDir hFile
    · exact hFile
    · rcases hDir with rfl | rfl
      · exact hMain "plugin" (by decide) hFile
      · exact hMain "gateway" (by decide) hFile
    · have hBoth : "gateway" = "plugin" := Eq.trans (Eq.symm hDir) hFile
      exact absurd hBoth (by decide)
    · exact hMain "route" (by decide) (hDir.2.symm.trans hFile.2)
    · exact hDir
    · exact hDir
  root := trivial
  above := by
    rintro _ p ⟨more, rfl⟩ hDir
    rcases p with _ | ⟨a, _ | ⟨b, _ | ⟨c, _ | ⟨e, rest⟩⟩⟩⟩
    · trivial
    · rcases more with _ | ⟨b, _ | ⟨c, _ | ⟨e, rest⟩⟩⟩
      · exact hDir
      · exact .inr hDir
      · exact .inr hDir.1
      · exact hDir.elim
    · rcases more with _ | ⟨c, _ | ⟨e, rest⟩⟩
      · exact hDir
      · exact hDir.1
      · exact hDir.elim
    · rcases more with _ | ⟨e, rest⟩
      · exact hDir
      · exact hDir.elim
    · exact hDir.elim

/-! ## Usable configurations -/

/-- All names of the configuration can be names of files. -/
structure Usable (config : Config G O) : Prop where
  gateway : ∀ gateway ∈ config.gateways.entries, IsName gateway.1
  route : ∀ gateway ∈ config.gateways.entries, ∀ route ∈ gateway.2.routes.entries,
    IsName route.1
  plugin : ∀ plugin ∈ config.plugins.entries, '/' ∉ plugin.1.asFileStem.toList

/-- The part of a configuration that is in the main file. -/
def mainPart (config : Config G O) : Config G O :=
  { config with gateways := ∅, plugins := ∅ }

/-- The part of a gateway that is in its own file. -/
def itemPart (item : ConfigItem G) : ConfigItem G :=
  { gateway := item.gateway, routes := ∅ }

/-- All parts of the configuration can be written. -/
structure Writable (config : Config G O) : Prop where
  main : ∃ bytes, fs.format.serConfig (mainPart config) = .ok bytes
  gateway : ∀ gateway ∈ config.gateways.entries,
    ∃ bytes, fs.format.serItem (itemPart gateway.2) = .ok bytes
  route : ∀ gateway ∈ config.gateways.entries, ∀ route ∈ gateway.2.routes.entries,
    ∃ bytes, fs.format.serRoute route.2 = .ok bytes
  plugin : ∀ plugin ∈ config.plugins.entries,
    ∃ bytes, fs.format.serValue plugin.2 = .ok bytes

/-! ## Puts -/

/-- The file for what the format has written. -/
def written (result : Except String (List UInt8)) : Disk.Node :=
  .file (result.toOption.getD [])

def pluginPut (plugin : PluginInstanceId × Json) : Location × Disk.Node :=
  (["plugin", fileName fs plugin.1.asFileStem], written (fs.format.serValue plugin.2))

def pluginPuts (plugins : List (PluginInstanceId × Json)) : List (Location × Disk.Node) :=
  if plugins = [] then [] else makeDirs ["plugin"] ++ plugins.map (pluginPut fs)

def routePut (g : String) (route : String × SgRoute) : Location × Disk.Node :=
  (["gateway", g, "route", fileName fs (fileStem route.1)], written (fs.format.serRoute route.2))

def itemPuts (gateway : String × ConfigItem G) : List (Location × Disk.Node) :=
  makeDirs ["gateway", gateway.1] ++
    ([(["gateway", gateway.1, fileName fs "config"],
      written (fs.format.serItem (itemPart gateway.2)))] ++
    (makeDirs ["gateway", gateway.1, "route"] ++
      gateway.2.routes.entries.map (routePut fs gateway.1)))

def configPuts (config : Config G O) : List (Location × Disk.Node) :=
  [([fileName fs "config"], written (fs.format.serConfig (mainPart config)))] ++
    (pluginPuts fs (fs.hashOrder.iter config.plugins.entries) ++
      config.gateways.entries.flatMap (itemPuts fs))

section Saving

variable {fs} {order : IterOrder} {d : Disk} {l : Location}

theorem adds_createDirAll (hd : (layout fs).Follows d) (hl : (layout fs).IsDir l) :
    Adds order (layout fs) (createDirAll l) d (makeDirs l) :=
  DiskM.adds_createDirAll FsError.io hd hl

theorem adds_saveFile {result : Except String (List UInt8)} (hr : ∃ bytes, result = .ok bytes)
    (hd : (layout fs).Follows d) (hl : (layout fs).IsFile l) (hp : d.get l.dropLast = some .dir) :
    Adds order (layout fs) (saveFile l result) d [(l, written result)] := by
  obtain ⟨bytes, rfl⟩ := hr
  exact DiskM.adds_write FsError.io bytes hd hl hp

theorem adds_loop {α : Type} {xs : List α} {f : α → FsM Unit} {put : α → Location × Disk.Node}
    (hl : (layout fs).IsDir l)
    (hb : ∀ x ∈ xs, ∀ d : Disk, d.get l = some .dir → (layout fs).Follows d →
      Adds order (layout fs) (f x) d [put x])
    (hd : (layout fs).Follows d) (hDir : d.get l = some .dir) :
    Adds order (layout fs) (xs.forM f) d (xs.map put) := by
  rw [map_eq_flatMap]
  exact DiskM.adds_forM (fun _ _ _ hp hd' => hd'.dir_stays hp hl) hb hd hDir

theorem get_of_makeDirs {d' : Disk} (hl : l ≠ []) (h : Puts d (makeDirs l) d') :
    d'.get l = some .dir := by
  rw [h l, latest_makeDirs, if_pos ⟨hl, prefix_refl l⟩]
  rfl

theorem adds_savePlugins {plugins : List (PluginInstanceId × Json)}
    (hn : ∀ plugin ∈ plugins, '/' ∉ plugin.1.asFileStem.toList)
    (hw : ∀ plugin ∈ plugins, ∃ bytes, fs.format.serValue plugin.2 = .ok bytes)
    (hd : (layout fs).Follows d) :
    Adds order (layout fs) (savePlugins fs plugins) d (pluginPuts fs plugins) := by
  have hid : (layout fs).IsDir ["plugin"] := .inl rfl
  rw [savePlugins, pluginPuts]
  split_ifs with he
  · exact DiskM.adds_pure hd
  · refine (adds_createDirAll hd hid).bind ?_
    intro d' hp hd'
    refine adds_loop hid ?_ hd' (get_of_makeDirs (by simp) hp)
    intro plugin hMem d hDir hd
    rw [savePlugin, pluginPath_eq fs (hn plugin hMem)]
    exact adds_saveFile (hw plugin hMem) hd rfl hDir

theorem adds_saveGateway {gateway : String × ConfigItem G} (hg : IsName gateway.1)
    (hn : ∀ route ∈ gateway.2.routes.entries, IsName route.1)
    (hm : ∃ bytes, fs.format.serItem (itemPart gateway.2) = .ok bytes)
    (hr : ∀ route ∈ gateway.2.routes.entries, ∃ bytes, fs.format.serRoute route.2 = .ok bytes)
    (hd : (layout fs).Follows d) :
    Adds order (layout fs) (saveGateway fs gateway) d (itemPuts fs gateway) := by
  have hgd : (layout fs).IsDir ["gateway", gateway.1] := rfl
  have hrd : (layout fs).IsDir ["gateway", gateway.1, "route"] := ⟨rfl, rfl⟩
  rw [saveGateway, joinName_of_isName hg, gatewayMainConfigPath_eq fs hg, routesDir_eq hg]
  refine (adds_createDirAll hd hgd).bind ?_
  intro d₁ hp₁ hd₁
  have hDir₁ : d₁.get ["gateway", gateway.1] = some .dir := get_of_makeDirs (by simp) hp₁
  have hmf : (layout fs).IsFile ["gateway", gateway.1, fileName fs "config"] := ⟨rfl, rfl⟩
  refine (adds_saveFile hm hd₁ hmf hDir₁).bind ?_
  intro d₂ hp₂ hd₂
  refine (adds_createDirAll hd₂ hrd).bind ?_
  intro d₃ hp₃ hd₃
  refine adds_loop hrd ?_ hd₃ (get_of_makeDirs (by simp) hp₃)
  intro route hMem d hDir hd
  rw [saveRoute, routePath_eq fs hg (hn route hMem)]
  exact adds_saveFile (hr route hMem) hd ⟨rfl, rfl⟩ hDir

theorem adds_saveConfig {config : Config G O} (hu : Usable config)
    (hw : Writable fs config) (hd : (layout fs).Follows d) :
    Adds order (layout fs) (saveConfig fs config) d (configPuts fs config) := by
  have hPerm := fs.hashOrder.perm config.plugins.entries
  have he : (layout fs).IsFile [fileName fs "config"] := rfl
  refine (adds_saveFile hw.main hd he d.get_root).bind ?_
  intro d₁ _ hd₁
  have hp : Adds order (layout fs) (savePlugins fs (fs.hashOrder.iter config.plugins.entries))
      d₁ (pluginPuts fs (fs.hashOrder.iter config.plugins.entries)) :=
    adds_savePlugins (fun plugin hMem => hu.plugin plugin (hPerm.mem_iff.mp hMem))
      (fun plugin hMem => hw.plugin plugin (hPerm.mem_iff.mp hMem)) hd₁
  refine hp.bind ?_
  intro d₂ _ hd₂
  refine DiskM.adds_forM (fun _ _ _ _ _ _ => trivial) ?_ hd₂ trivial
  intro gateway hMem d _ hd
  exact adds_saveGateway (hu.gateway gateway hMem) (hu.route gateway hMem)
    (hw.gateway gateway hMem) (hw.route gateway hMem) hd

end Saving

/-! ## Where everything is found -/

/-- The directory holds the configuration; `stored` are the values in the plugin files, in
the order in which they were written. -/
structure Saved (config : Config G O) (stored : List (PluginInstanceId × Json)) (d : Disk) :
    Prop where
  main : d.get [fileName fs "config"] = some (written (fs.format.serConfig (mainPart config)))
  pluginDir : d.get ["plugin"] = if stored = [] then none else some .dir
  plugin : ∀ name, d.get ["plugin", name] =
    (latest (stored.map fun plugin => (fileName fs plugin.1.asFileStem, plugin.2)) name).map
      fun value => written (fs.format.serValue value)
  gateway : ∀ g, d.get ["gateway", g] = (config.gateways.get g).map fun _ => .dir
  item : ∀ gateway ∈ config.gateways.entries,
    d.get ["gateway", gateway.1, fileName fs "config"] =
      some (written (fs.format.serItem (itemPart gateway.2)))
  routeDir : ∀ gateway ∈ config.gateways.entries,
    d.get ["gateway", gateway.1, "route"] = some .dir
  route : ∀ gateway ∈ config.gateways.entries, ∀ name,
    d.get ["gateway", gateway.1, "route", name] =
      (latest (gateway.2.routes.entries.map fun route =>
        (fileName fs (fileStem route.1), route.2)) name).map
          fun route => written (fs.format.serRoute route)

variable {plugins : List (PluginInstanceId × Json)} {put : Location × Disk.Node}

theorem head_of_mem_pluginPuts (h : put ∈ pluginPuts fs plugins) : put.1.head? = some "plugin" := by
  unfold pluginPuts at h
  split_ifs at h with he
  · cases h
  · rcases mem_append.mp h with hDir | hf
    · obtain ⟨p, hp, rfl⟩ := mem_map.mp hDir
      obtain ⟨hNe, hPrefix⟩ := mem_ancestors.mp hp
      rcases prefix_cons_iff.mp hPrefix with rfl | ⟨q, rfl, hq⟩
      · exact absurd rfl hNe
      · rfl
    · obtain ⟨plugin, -, rfl⟩ := mem_map.mp hf
      rfl

variable {gateway : String × ConfigItem G}

/-- The puts for a gateway are the gateway directory and what is below its own. -/
theorem shape_of_mem_itemPuts (h : put ∈ itemPuts fs gateway) :
    put.1 = ["gateway"] ∨ ∃ rest, put.1 = "gateway" :: gateway.1 :: rest := by
  have hd : ∀ rest, put ∈ makeDirs ("gateway" :: gateway.1 :: rest) →
      put.1 = ["gateway"] ∨ ∃ rest, put.1 = "gateway" :: gateway.1 :: rest := by
    intro rest hPut
    obtain ⟨p, hp, rfl⟩ := mem_map.mp hPut
    obtain ⟨hNe, hPrefix⟩ := mem_ancestors.mp hp
    rcases prefix_cons_iff.mp hPrefix with rfl | ⟨q, rfl, hq⟩
    · exact absurd rfl hNe
    · rcases prefix_cons_iff.mp hq with rfl | ⟨q', rfl, -⟩
      · exact .inl rfl
      · exact .inr ⟨q', rfl⟩
  simp only [itemPuts, mem_append, mem_singleton] at h
  rcases h with h | rfl | h | h
  · exact hd [] h
  · exact .inr ⟨_, rfl⟩
  · exact hd ["route"] h
  · obtain ⟨route, -, rfl⟩ := mem_map.mp h
    exact .inr ⟨_, rfl⟩

theorem latest_itemPuts_eq_none {gateways : List (String × ConfigItem G)} {l : Location}
    (hDir : l ≠ ["gateway"])
    (hBelow : ∀ gateway ∈ gateways, ∀ rest, l ≠ "gateway" :: gateway.1 :: rest) :
    latest (gateways.flatMap (itemPuts fs)) l = none := by
  apply latest_eq_none
  rintro put hPut rfl
  obtain ⟨gateway, hMem, hItem⟩ := mem_flatMap.mp hPut
  rcases shape_of_mem_itemPuts fs hItem with hs | ⟨rest, hs⟩
  · exact hDir hs
  · exact hBelow gateway hMem rest hs

theorem latest_pluginPuts_of_head {l : Location}
    (hl : l.head? ≠ some "plugin") : latest (pluginPuts fs plugins) l = none := by
  apply latest_eq_none
  rintro put hPut rfl
  exact hl (head_of_mem_pluginPuts fs hPut)

variable (plugins : List (PluginInstanceId × Json))

theorem latest_pluginPuts_dir :
    latest (pluginPuts fs plugins) ["plugin"] = if plugins = [] then none else some .dir := by
  unfold pluginPuts
  split_ifs with he
  · rfl
  · have hf : latest (plugins.map (pluginPut fs)) ["plugin"] = none := by
      apply latest_eq_none
      intro put hPut
      obtain ⟨plugin, -, rfl⟩ := mem_map.mp hPut
      simp [pluginPut]
    rw [latest_append, hf, latest_makeDirs]
    simp

theorem latest_pluginPuts_file (name : String) : latest (pluginPuts fs plugins) ["plugin", name] =
      (latest (plugins.map fun plugin => (fileName fs plugin.1.asFileStem, plugin.2)) name).map
        fun value => written (fs.format.serValue value) := by
  unfold pluginPuts
  split_ifs with he
  · rw [he]
    rfl
  · have hi : Function.Injective fun name : String => ["plugin", name] := by
      intro name name' hEq
      simpa using hEq
    rw [latest_append, latest_makeDirs, if_neg (by simp), Option.or_none,
      ← latest_map_value, ← latest_map_key_of_injective hi, map_map, map_map]
    rfl

theorem latest_routePuts_of_length (g : String) (routes : List (String × SgRoute)) {l : Location}
    (hl : l.length < 4) : latest (routes.map (routePut fs g)) l = none := by
  apply latest_eq_none
  rintro put hPut rfl
  obtain ⟨route, -, rfl⟩ := mem_map.mp hPut
  exact absurd hl (by simp [routePut])

section Find

variable {fs} {config : Config G O} {extra : List (PluginInstanceId × Json)} {d : Disk}
  {l : Location}

variable (h : Puts .empty (configPuts fs config ++ pluginPuts fs extra) d)
include h

theorem get_of_head_plugin (hl : l.head? = some "plugin") :
    d.get l = (latest (pluginPuts fs extra) l).or
      (latest (pluginPuts fs (fs.hashOrder.iter config.plugins.entries)) l) := by
  have hNe : l ≠ [] := by
    rintro rfl
    cases hl
  have hg : latest (config.gateways.entries.flatMap (itemPuts fs)) l = none := by
    refine latest_itemPuts_eq_none fs ?_ ?_
    · rintro rfl
      exact absurd hl (by decide)
    · rintro gateway - rest rfl
      exact absurd (Option.some.inj hl) (by decide)
  have hm : latest [([fileName fs "config"],
      written (fs.format.serConfig (mainPart config)))] l = none := by
    apply latest_eq_none
    rintro put hPut rfl
    rw [mem_singleton.mp hPut] at hl
    exact fileName_ne fs (by decide) (Option.some.inj hl)
  rw [h l, get_empty hNe, Option.or_none, configPuts, latest_append, latest_append,
    latest_append, hg, hm, Option.none_or, Option.or_none]

theorem get_of_head_ne (hNe : l ≠ []) (hl : l.head? ≠ some "plugin") :
    d.get l = (latest (config.gateways.entries.flatMap (itemPuts fs)) l).or
      (latest [([fileName fs "config"], written (fs.format.serConfig (mainPart config)))] l) := by
  rw [h l, get_empty hNe, Option.or_none, configPuts, latest_append, latest_append,
    latest_append, latest_pluginPuts_of_head fs hl, latest_pluginPuts_of_head fs hl,
    Option.none_or, Option.or_none]

/-- Below the directory of a gateway there are only its own puts. -/
theorem get_of_gateway (hMem : gateway ∈ config.gateways.entries) (rest : Location) :
    d.get ("gateway" :: gateway.1 :: rest) =
      latest (itemPuts fs gateway) ("gateway" :: gateway.1 :: rest) := by
  have ho : ∀ other ∈ config.gateways.entries, other = gateway ∨
      latest (itemPuts fs other) ("gateway" :: gateway.1 :: rest) = none := by
    intro other ho
    by_cases hn : other.1 = gateway.1
    · left
      have hGet : config.gateways.get gateway.1 = some gateway.2 :=
        get_eq_some_iff.mpr hMem
      have hg' : config.gateways.get other.1 = some other.2 := get_eq_some_iff.mpr ho
      rw [hn, hGet] at hg'
      exact Prod.ext hn (Option.some.inj hg').symm
    · right
      rw [← flatMap_singleton (itemPuts fs) other]
      refine latest_itemPuts_eq_none fs (by simp) (forall_mem_singleton.mpr fun rest' hs => ?_)
      simp only [cons.injEq, true_and] at hs
      exact hn hs.1.symm
  rw [get_of_head_ne h (by simp) (by simp), latest_flatMap_of_mem hMem ho]
  simp [latest_cons]

theorem saved_of_puts : Saved fs config (fs.hashOrder.iter config.plugins.entries ++ extra) d where
  main := by
    have hg : latest (config.gateways.entries.flatMap (itemPuts fs))
        [fileName fs "config"] = none := by
      refine latest_itemPuts_eq_none fs ?_ (by simp)
      exact fun hs => fileName_ne fs (by decide) (head_eq_of_cons_eq hs)
    have hh : [fileName fs "config"].head? ≠ some "plugin" := fun hh =>
      fileName_ne fs (by decide) (Option.some.inj hh)
    rw [get_of_head_ne h (by simp) hh, hg]
    simp [latest_cons]
  pluginDir := by
    rw [get_of_head_plugin h rfl, latest_pluginPuts_dir, latest_pluginPuts_dir]
    by_cases he : extra = []
    · simp [he]
    · simp [he]
  plugin := by
    intro name
    rw [get_of_head_plugin h rfl, latest_pluginPuts_file, latest_pluginPuts_file,
      map_append, latest_append, Option.map_or]
  gateway := by
    intro g
    cases hItem : config.gateways.get g with
    | none =>
      have hn : latest (config.gateways.entries.flatMap (itemPuts fs)) ["gateway", g] = none := by
        refine latest_itemPuts_eq_none fs (by simp) fun gateway hMem rest hs => ?_
        simp only [cons.injEq, true_and] at hs
        have hGet := get_eq_some_iff.mpr hMem
        rw [← hs.1, hItem] at hGet
        cases hGet
      rw [get_of_head_ne h (by simp) (by simp), hn]
      simp [latest_cons]
    | some item =>
      have hMem : (g, item) ∈ config.gateways.entries := get_eq_some_iff.mp hItem
      rw [get_of_gateway h hMem []]
      simp [itemPuts, latest_append, latest_routePuts_of_length, latest_makeDirs, latest_cons]
  item := by
    intro gateway hMem
    have hr : fileName fs "config" ≠ "route" := fileName_ne fs (by decide)
    rw [get_of_gateway h hMem]
    simp [itemPuts, latest_append, latest_routePuts_of_length, latest_makeDirs, latest_cons, hr]
  routeDir := by
    intro gateway hMem
    rw [get_of_gateway h hMem]
    simp [itemPuts, latest_append, latest_routePuts_of_length, latest_makeDirs, latest_cons]
  route := by
    intro gateway hMem name
    have hi : Function.Injective fun name : String =>
        ["gateway", gateway.1, "route", name] := by
      intro name name' hEq
      simpa using hEq
    rw [get_of_gateway h hMem, ← latest_map_value, ← latest_map_key_of_injective hi]
    simp only [itemPuts, latest_append, latest_makeDirs, latest_cons, latest_nil]
    simp
    rfl

omit h

end Find

end Fs
end Spacegate.Config
