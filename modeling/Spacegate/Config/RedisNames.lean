import Spacegate.Config.RedisStore

/-!
# The names of the gateways in Redis

A gateway is stored under the name that the operation is given, but `retrieve_config_names`
takes the names from inside the stored values.  After any sequence of operations on gateways
the two agree exactly when the names inside the values are, in some order, those of the fields.
-/

namespace Spacegate.Config.Redis

open Foundation SortedMap List Except

/-- The operations on gateways. -/
inductive GatewayCall (G : Type) where
  | create (gatewayName : String) (gateway : G)
  | update (gatewayName : String) (gateway : G)
  | delete (gatewayName : String)

section Histories

variable {G O : Type}

def GatewayCall.call : GatewayCall G → Call G
  | .create gatewayName gateway => .createConfigItemGateway gatewayName gateway
  | .update gatewayName gateway => .updateConfigItemGateway gatewayName gateway
  | .delete gatewayName => .deleteConfigItemGateway gatewayName

/-- The hashes after one operation. -/
def stepGateway (redis : Redis G) (store : Store) (op : GatewayCall G) : Store :=
  (perform redis op.call).performed.foldl Store.apply store

/-- The gateways that were created or updated and not deleted since, by the names that the
operations were given.  An operation whose value cannot be written fails and does nothing. -/
def keepGateway (redis : Redis G) (kept : SortedMap String G) :
    GatewayCall G → SortedMap String G
  | .create gatewayName gateway | .update gatewayName gateway =>
    match redis.format.serGateway gateway with
    | .ok _ => kept.insert gatewayName gateway
    | .error _ => kept
  | .delete gatewayName => kept.erase gatewayName

/-- `retrieve_config_names` returns the names of the kept gateways, each of them once, and
`retrieve_config` returns each of these gateways under its name, and no other. -/
structure Lists (O : Type) [Inhabited O] (redis : Redis G) (store : Store)
    (kept : SortedMap String G) : Prop where
  names : ∃ names, retrieveConfigNames redis store = .ok names ∧
    names.Perm (kept.entries.map Prod.fst)
  config : ∃ config : Fs.Config G O, retrieveConfig redis store = .ok config ∧
    ∀ name, (config.gateways.get name).map Fs.ConfigItem.gateway = kept.get name

/-- The names inside the gateways are the names they are kept under, in some order. -/
def NamesAgree (redis : Redis G) (kept : SortedMap String G) : Prop :=
  (kept.entries.map fun entry => redis.nameOf entry.2).Perm (kept.entries.map Prod.fst)

/-! ## One operation -/

variable {redis : Redis G} {store : Store} {kept : SortedMap String G}

/-- The hash of the gateways holds the kept ones. -/
def Holds (redis : Redis G) (store : Store) (kept : SortedMap String G) : Prop :=
  ∀ name, Option.Rel (fun bytes gateway => redis.format.serGateway gateway = .ok bytes)
    ((store confGatewayKey).get name) (kept.get name)

variable {op : GatewayCall G}

theorem stepGateway_of_write {write : Command} (h : op.call.write redis.format = .ok write) :
    stepGateway redis store op = store.apply write := by
  simp [stepGateway, perform, Call.commands, h, bind, Except.bind, Store.apply]

theorem stepGateway_of_error {e : String}
    (h : op.call.write redis.format = .error e) : stepGateway redis store op = store := by
  simp [stepGateway, perform, Call.commands, h, bind, Except.bind, Effects.fail, Effects.ofExcept]

variable (h : Holds redis store kept)
include h

theorem Holds.hset (gatewayName : String) {gateway : G}
    {bytes : List UInt8} (hb : redis.format.serGateway gateway = .ok bytes) :
    Holds redis (store.apply (.hset confGatewayKey gatewayName bytes))
      (kept.insert gatewayName gateway) := by
  intro name
  rw [Store.apply, Function.update_self, get_insert, get_insert]
  split_ifs with hn
  · exact .some hb
  · exact h name

theorem Holds.hdel (gatewayName : String) :
    Holds redis (store.apply (.hdel confGatewayKey gatewayName)) (kept.erase gatewayName) := by
  intro name
  rw [Store.apply, Function.update_self, get_erase, get_erase]
  split_ifs with hn
  · exact .none
  · exact h name

/-- Creating and updating send the same write. -/
theorem Holds.write {gatewayName : String} {gateway : G}
    (hOp : op = .create gatewayName gateway ∨ op = .update gatewayName gateway) :
    Holds redis (stepGateway redis store op) (keepGateway redis kept op) := by
  have hw : op.call.write redis.format =
      (redis.format.serGateway gateway).map (.hset confGatewayKey gatewayName) := by
    rcases hOp with rfl | rfl <;> rfl
  have hk : keepGateway redis kept op =
      match redis.format.serGateway gateway with
      | .ok _ => kept.insert gatewayName gateway
      | .error _ => kept := by
    rcases hOp with rfl | rfl <;> rfl
  rw [hk]
  cases hSer : redis.format.serGateway gateway with
  | ok bytes =>
    rw [hSer] at hw
    rw [stepGateway_of_write hw]
    exact h.hset gatewayName hSer
  | error e =>
    rw [hSer] at hw
    rw [stepGateway_of_error hw]
    exact h

theorem Holds.step (op : GatewayCall G) :
    Holds redis (stepGateway redis store op) (keepGateway redis kept op) := by
  cases op with
  | create gatewayName gateway => exact h.write (.inl rfl)
  | update gatewayName gateway => exact h.write (.inr rfl)
  | delete gatewayName =>
    exact h.hdel gatewayName

omit h

/-- The plugins are not touched. -/
theorem stepGateway_confPluginKey (op : GatewayCall G) :
    stepGateway redis store op confPluginKey = store confPluginKey := by
  have hNe : confPluginKey ≠ confGatewayKey := by decide
  cases hw : op.call.write redis.format with
  | error e => rw [stepGateway_of_error hw]
  | ok write =>
    rw [stepGateway_of_write hw]
    cases op with
    | create gatewayName gateway =>
      obtain ⟨bytes, -, rfl⟩ := exists_of_map_eq_ok hw
      exact Function.update_of_ne hNe _ _
    | update gatewayName gateway =>
      obtain ⟨bytes, -, rfl⟩ := exists_of_map_eq_ok hw
      exact Function.update_of_ne hNe _ _
    | delete gatewayName =>
      cases ok.inj hw
      exact Function.update_of_ne hNe _ _

/-! ## Whole histories -/

/-- A database without gateways whose plugins can be read. -/
structure Fresh (redis : Redis G) (store : Store) : Prop where
  gateways : store confGatewayKey = ∅
  plugins : ∃ plugins, retrieveAllPlugins redis store = .ok plugins

theorem Fresh.holds (h : Fresh redis store) : Holds redis store ∅ := by
  intro name
  rw [h.gateways]
  exact .none

theorem Holds.run (h : Holds redis store kept) (ops : List (GatewayCall G)) :
    Holds redis (ops.foldl (stepGateway redis) store) (ops.foldl (keepGateway redis) kept) := by
  induction ops generalizing store kept with
  | nil => exact h
  | cons op ops ih => exact ih (h.step op)

theorem run_confPluginKey (ops : List (GatewayCall G)) (store : Store) :
    ops.foldl (stepGateway redis) store confPluginKey = store confPluginKey := by
  induction ops generalizing store with
  | nil => rfl
  | cons op ops ih => exact (ih _).trans (stepGateway_confPluginKey op)

/-! ## What is retrieved -/

/-- What the format wrote it reads. -/
def Reads (redis : Redis G) : Prop :=
  ∀ gateway bytes, redis.format.serGateway gateway = .ok bytes →
    redis.reader.deGateway bytes = .ok gateway

variable (h : Holds redis store kept)
include h

theorem Holds.parses (hr : Reads redis) : Parses redis store := by
  rintro ⟨name, bytes⟩ he
  have hGet := h name
  rw [get_eq_some_iff.mpr he] at hGet
  cases hk : kept.get name with
  | none =>
    rw [hk] at hGet
    cases hGet
  | some gateway =>
    rw [hk, Option.rel_some_some] at hGet
    exact ⟨gateway, hr gateway bytes hGet⟩

theorem Holds.foundItem_gateway (hr : Reads redis) (name : String) :
    (foundItem redis store name).map Fs.ConfigItem.gateway = kept.get name := by
  have hGet := h name
  cases hs : (store confGatewayKey).get name with
  | none =>
    cases hk : kept.get name with
    | none => simp [foundItem, hs]
    | some gateway =>
      rw [hs, hk] at hGet
      cases hGet
  | some bytes =>
    cases hk : kept.get name with
    | none =>
      rw [hs, hk] at hGet
      cases hGet
    | some gateway =>
      rw [hs, hk, Option.rel_some_some] at hGet
      rw [foundItem_of_get hs (hr gateway bytes hGet)]
      rfl

/-- The names are those inside the kept gateways. -/
theorem Holds.retrieveConfigNames (hr : Reads redis) :
    ∃ names, retrieveConfigNames redis store = .ok names ∧
      names.Perm (kept.entries.map fun entry => redis.nameOf entry.2) := by
  have he := forall₂_entries h
  have hp : ((store confGatewayKey).entries.map Prod.snd).mapM (parseGateway redis) =
      .ok (kept.entries.map Prod.snd) := by
    apply mapM_of_forall₂
    rw [forall₂_map_left_iff, forall₂_map_right_iff]
    refine he.imp ?_
    intro stored entry hEntry
    exact parseGateway_eq_ok_iff.mpr (hr _ _ hEntry.2)
  obtain ⟨gateways, hg, hPerm⟩ := exists_mapM_of_perm (redis.hashOrder.perm _).symm hp
  refine ⟨gateways.map redis.nameOf, ?_, ?_⟩
  · rw [Redis.retrieveConfigNames, hg]
    rfl
  · have hn := (hPerm.map redis.nameOf).symm
    rwa [map_map] at hn

omit h

/-- **Names of gateways in Redis.**  After every sequence of creations, updates and deletions
of gateways in a database without gateways, `retrieve_config_names` and `retrieve_config`
return the kept gateways under the names given to the operations exactly when the names inside
the kept values are these names in some order. -/
theorem lists_iff_namesAgree [Inhabited O] (redis : Redis G) (hReads : Reads redis)
    (store : Store) (hFresh : Fresh redis store) (ops : List (GatewayCall G)) :
    Lists O redis (ops.foldl (stepGateway redis) store) (ops.foldl (keepGateway redis) ∅) ↔
      NamesAgree redis (ops.foldl (keepGateway redis) ∅) := by
  have hh := hFresh.holds.run ops
  obtain ⟨plugins, hp⟩ := hFresh.plugins
  set after := ops.foldl (stepGateway redis) store with ha
  set kept := ops.foldl (keepGateway redis) ∅
  obtain ⟨names, hn, hPerm⟩ := hh.retrieveConfigNames hReads
  constructor
  · rintro ⟨⟨names', hn', hk⟩, -⟩
    rw [hn] at hn'
    cases hn'
    exact hPerm.symm.trans hk
  · intro hAgree
    have hk : names.Perm (kept.entries.map Prod.fst) := hPerm.trans hAgree
    have hap : retrieveAllPlugins redis after = .ok plugins := by
      rw [retrieveAllPlugins, ha, run_confPluginKey]
      exact hp
    have hc : ∃ config : Fs.Config G O, retrieveConfig redis after = .ok config ∧
        config.gateways = (∅ : SortedMap String (Fs.ConfigItem G)).insertAll
          (names.filterMap fun name =>
            (foundItem redis after name).map fun item => (name, item)) := by
      rw [retrieveConfig, hn]
      simp only [bind, bind, collectItems_of_parses (hh.parses hReads), hap]
      exact ⟨_, rfl, rfl⟩
    obtain ⟨config, hc, hg⟩ := hc
    refine ⟨⟨names, hn, hk⟩, config, hc, ?_⟩
    intro name
    rw [hg, get_insertAll_empty, WriteHistory.latest_found]
    split_ifs with hMem
    · exact hh.foundItem_gateway hReads name
    · -- a name that is not listed is not kept
      cases hGet : kept.get name with
      | none => rfl
      | some gateway =>
        refine absurd (hk.mem_iff.mpr ?_) hMem
        exact mem_map.mpr ⟨_, get_eq_some_iff.mp hGet, rfl⟩

end Histories

/-! ## Two gateways -/

/-- Two gateways, with the names `shop` and `edge` inside, each written as one byte. -/
def twoRedis : Redis Bool where
  format :=
    { serGateway := fun gateway => .ok [if gateway then 1 else 0]
      serRoute := fun _ => .error "no route"
      serValue := fun _ => .error "no value" }
  reader :=
    { deGateway := fun bytes => .ok (bytes == [1])
      deRoute := fun _ => .error "no route"
      deValue := fun _ => .error "no value" }
  nameOf := fun gateway => if gateway then "edge" else "shop"
  hashOrder := .unchanged

def emptyStore : Store := fun _ => ∅

theorem twoRedis_reads : Reads twoRedis := by
  intro gateway bytes h
  cases h
  cases gateway <;> rfl

theorem emptyStore_fresh : Fresh twoRedis emptyStore := ⟨rfl, [], rfl⟩

/-- Both gateways under each other's names, and one of them deleted and created again. -/
def swapNames : List (GatewayCall Bool) :=
  [.create "edge" true, .update "edge" false, .create "shop" true, .delete "shop",
    .create "shop" true]

theorem swapNames_listed :
    Lists Unit twoRedis (swapNames.foldl (stepGateway twoRedis) emptyStore)
      (swapNames.foldl (keepGateway twoRedis) ∅) := by
  refine (lists_iff_namesAgree twoRedis twoRedis_reads emptyStore emptyStore_fresh swapNames).mpr ?_
  show ["shop", "edge"].Perm ["edge", "shop"]
  decide

/-- A gateway that is created under another name than its own is listed under its own, and
`retrieve_config` does not return it. -/
theorem misnamed_not_listed :
    retrieveConfigNames twoRedis (stepGateway twoRedis emptyStore (.create "edge" false)) =
        .ok ["shop"] ∧
      (retrieveConfig twoRedis (stepGateway twoRedis emptyStore (.create "edge" false))).map
        (fun config : Fs.Config Bool Unit => config.gateways.entries.map Prod.fst) = .ok [] ∧
      ¬ Lists Unit twoRedis (stepGateway twoRedis emptyStore (.create "edge" false))
        (keepGateway twoRedis ∅ (.create "edge" false)) := by
  refine ⟨rfl, rfl, ?_⟩
  rintro ⟨⟨names, hn, hp⟩, -⟩
  cases ok.inj (show ok ["shop"] = ok names from hn)
  exact absurd hp (by decide)

end Spacegate.Config.Redis
