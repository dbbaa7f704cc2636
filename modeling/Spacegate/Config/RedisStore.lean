import Spacegate.Config.FsConfig
import Spacegate.Config.RedisConfig
import Spacegate.Foundation.Effects
import Spacegate.Model.PluginInstanceMap

/-!
# The hashes of the Redis backend

The gateways are the fields of one hash, the routes of a gateway those of a hash of its own,
and the plugins those of a third.  `retrieve_config` lists the hashes and looks every name up
again.
-/

set_option linter.dupNamespace false

namespace Spacegate.Config

open Foundation
open Foundation.Text
open Model

namespace Redis

/-- The hashes of the server, by their keys. -/
abbrev Store := String → SortedMap String (List UInt8)

def Store.apply (store : Store) : Command → Store
  | .hset key field value => Function.update store key ((store key).insert field value)
  | .hdel key field => Function.update store key ((store key).erase field)
  | .publish _ _ => store

/-- The format of the values, as far as it is used to read them. -/
structure ReadFormat (G : Type) where
  deGateway : List UInt8 → Except String G
  deRoute : List UInt8 → Except String SgRoute
  deValue : List UInt8 → Except String Json

end Redis

/-- The backend: both sides of the format, the name inside a gateway configuration, and the
order in which hash maps are iterated. -/
structure Redis (G : Type) where
  format : Redis.ConfigFormat G
  reader : Redis.ReadFormat G
  nameOf : G → String
  hashOrder : IterOrder

namespace Redis

variable {G O : Type} (redis : Redis G)

/-! ## Updating -/

/-- One call, with the commands that it sends. -/
def perform (call : Call G) : Effects Command String Unit :=
  match call.commands redis.format with
  | .ok commands => { performed := commands, result := .ok () }
  | .error e => .fail e

/-! ## Plugins -/

/-- `decode_plugin_config_value`: an envelope, a configuration in the older full form, or a
bare specification. -/
def decodePluginConfigValue (id : PluginInstanceId) (value : Json) : Except String PluginConfig :=
  if isEnvelope value then decodeStoredPluginConfig id value
  else
    match PluginConfig.fromJson value with
    | .ok config =>
      .ok { config with
        id := id
        displayName := normalizePluginDisplayName config.displayName }
    | .error _ => decodeStoredPluginConfig id value

/-- A code and a name around a separator, none of them empty. -/
def splitKey (separator key : String) (name : String → PluginInstanceName) :
    Option PluginInstanceId :=
  match splitOnceAt separator key with
  | some (code, rest) =>
    if code ≠ "" ∧ rest ≠ "" then some { code := code, name := name rest } else none
  | none => none

/-- `parse_plugin_config_key`. -/
def parsePluginConfigKey (key : String) : Option PluginInstanceId :=
  match stripEnd "-m" key with
  | some code => some { code := code, name := .mono }
  | none => (splitKey "-a-" key .anon).or (splitKey "-n-" key .named)

/-- `decode_plugin_config_entry`: the id comes from the value, or else from the field. -/
def decodePluginConfigEntry (key : String) (value : Json) : Except String PluginConfig :=
  let bare :=
    if (value.get "_spacegate_format").isSome then value.remove "_spacegate_format" else value
  let embedded := (PluginConfig.fromJson bare).toOption.map PluginConfig.id
  match embedded.or (parsePluginConfigKey key) with
  | some id => decodePluginConfigValue id value
  | none => .error ("[SG.Config] Plugin Config id parse error: " ++ key)

/-! ## Retrieving -/

variable (store : Store)

def parseGateway (config : List UInt8) : Except String G :=
  (redis.reader.deGateway config).mapError fun e => "[SG.Config] Gateway Config parse error " ++ e

def retrieveConfigItemGateway (gatewayName : String) : Except String (Option G) :=
  match (store confGatewayKey).get gatewayName with
  | none => .ok none
  | some config => (parseGateway redis config).map some

def retrieveConfigItemRoute (gatewayName routeName : String) : Except String (Option SgRoute) :=
  match (store (confHttpRouteKey ++ gatewayName)).get routeName with
  | none => .ok none
  | some config =>
    ((redis.reader.deRoute config).mapError fun e =>
      "[SG.Config] Route Config parse error " ++ e).map some

def retrieveConfigItemRouteNames (name : String) : List String :=
  redis.hashOrder.iter ((store (confHttpRouteKey ++ name)).entries.map Prod.fst)

/-- The loop over the names of the routes.  A route that cannot be parsed is passed over. -/
def collectRoutes (name : String) : List String → SortedMap String SgRoute →
    SortedMap String SgRoute
  | [], routes => routes
  | routeName :: routeNames, routes =>
    match retrieveConfigItemRoute redis store name routeName with
    | .ok (some route) => collectRoutes name routeNames (routes.insert routeName route)
    | _ => collectRoutes name routeNames routes

def retrieveConfigItemAllRoutes (name : String) : SortedMap String SgRoute :=
  collectRoutes redis store name (retrieveConfigItemRouteNames redis store name) ∅

def retrieveConfigItem (name : String) : Except String (Option (Fs.ConfigItem G)) := do
  let found ← retrieveConfigItemGateway redis store name
  match found with
  | none => .ok none
  | some gateway =>
    .ok (some { gateway := gateway, routes := retrieveConfigItemAllRoutes redis store name })

/-- `retrieve_config_names`: the names inside the values, not those of the fields. -/
def retrieveConfigNames : Except String (List String) := do
  let gateways ←
    (redis.hashOrder.iter ((store confGatewayKey).entries.map Prod.snd)).mapM (parseGateway redis)
  .ok (gateways.map redis.nameOf)

/-- The loop over the names of the gateways. -/
def collectItems : List String → SortedMap String (Fs.ConfigItem G) →
    Except String (SortedMap String (Fs.ConfigItem G))
  | [], gateways => .ok gateways
  | name :: names, gateways => do
      let found ← retrieveConfigItem redis store name
      match found with
      | some item => collectItems names (gateways.insert name item)
      | none => collectItems names gateways

def parsePlugin (entry : String × List UInt8) : Except String PluginConfig := do
  let value ← (redis.reader.deValue entry.2).mapError fun e =>
    "[SG.Config] Plugin Config parse error " ++ e
  decodePluginConfigEntry entry.1 value

def retrieveAllPlugins : Except String (List PluginConfig) :=
  (redis.hashOrder.iter (store confPluginKey).entries).mapM (parsePlugin redis)

/-- `retrieve_config` of the trait. -/
def retrieveConfig [Inhabited O] : Except String (Fs.Config G O) := do
  let names ← retrieveConfigNames redis store
  let gateways ← collectItems redis store names ∅
  let plugins ← retrieveAllPlugins redis store
  .ok
    { gateways := gateways
      plugins := SortedMap.insertAll ∅ (plugins.map fun plugin => (plugin.id, plugin.spec))
      apiPort := none
      observability := default }

/-! ## What is retrieved -/

section Retrieving

variable {G O : Type} (redis : Redis G) (store : Store)

/-- All values in the hash of the gateways can be parsed. -/
def Parses : Prop :=
  ∀ entry ∈ (store confGatewayKey).entries, ∃ gateway, redis.reader.deGateway entry.2 = .ok gateway

def foundItem (name : String) : Option (Fs.ConfigItem G) :=
  ((store confGatewayKey).get name).bind fun bytes =>
    (redis.reader.deGateway bytes).toOption.map fun gateway =>
      { gateway := gateway, routes := retrieveConfigItemAllRoutes redis store name }

variable {redis store}

theorem foundItem_of_get {name : String} {bytes : List UInt8} {gateway : G}
    (hGet : (store confGatewayKey).get name = some bytes)
    (hg : redis.reader.deGateway bytes = .ok gateway) : foundItem redis store name =
      some { gateway := gateway, routes := retrieveConfigItemAllRoutes redis store name } := by
  rw [foundItem, hGet, Option.bind_some, hg]
  rfl

theorem parseGateway_eq_ok_iff {bytes : List UInt8} {gateway : G} :
    parseGateway redis bytes = .ok gateway ↔ redis.reader.deGateway bytes = .ok gateway := by
  constructor
  · exact eq_ok_of_mapError_eq_ok
  · intro h
    rw [parseGateway, h]
    rfl

theorem retrieveConfigItem_of_parses (h : Parses redis store) (name : String) :
    retrieveConfigItem redis store name = .ok (foundItem redis store name) := by
  rw [retrieveConfigItem, retrieveConfigItemGateway, foundItem]
  cases hGet : (store confGatewayKey).get name with
  | none => rfl
  | some bytes =>
    obtain ⟨gateway, hg⟩ := h _ (SortedMap.get_eq_some_iff.mp hGet)
    simp only at hg
    simp only [parseGateway_eq_ok_iff.mpr hg, Option.bind_some, hg]
    rfl

theorem collectItems_of_parses (h : Parses redis store) (names : List String)
    (gateways : SortedMap String (Fs.ConfigItem G)) :
    collectItems redis store names gateways = .ok (gateways.insertAll (names.filterMap fun name =>
        (foundItem redis store name).map fun item => (name, item))) := by
  induction names generalizing gateways with
  | nil => rfl
  | cons name names ih =>
    rw [collectItems, retrieveConfigItem_of_parses h, List.filterMap_cons]
    cases foundItem redis store name with
    | none => exact ih gateways
    | some item => exact ih (gateways.insert name item)

end Retrieving

end Redis
end Spacegate.Config
