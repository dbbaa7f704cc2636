import Spacegate.Config.ConfigEvent
import Spacegate.Foundation.Registry
import Spacegate.Foundation.Trace
import Spacegate.Shell.CreateListeners

/-!
# Handling configuration events

The shell's handler creates, replaces and removes gateways as the configuration changes.  A
gateway runs from its creation until its token is cancelled, which is what `shutdown` does; it
is not shut down by leaving the global store, and so not by being replaced in it.

What the backend answers and what a gateway is built with may differ from event to event.
-/

namespace Spacegate.Shell

open Foundation Kernel Model Config Registry

variable {Regex X Out Cert Key : Type}

/-- What the handler finds at an event. -/
structure Surroundings (Regex X Out Cert Key : Type) where
  env : ShellEnv Regex X Out
  rt : Runtime Regex X Out
  sort : SortUnstable
  order : HashOrder
  lib : TlsLibrary Cert Key
  /-- The listener with this number of the gateway can be bound to its address. -/
  binds : (gatewayName : String) → ℕ → Bool
  retrieveConfigItem : String → Except String (Option ConfigItem)
  retrieveConfigItemAllRoutes : String → Except String RouteMap
  /-- The gateways of `retrieve_config`. -/
  retrieveConfig : Except String (SortedMap String ConfigItem)

/-- A gateway and its listeners, with those that could be bound. -/
structure Launched (Regex X Out Cert Key : Type) where
  gateway : RunningSgGateway Regex X Out
  listens : List (SgListen Cert Key × Bool)

/-- The gateways that were started, and the global store. -/
abbrev Gateways (Regex X Out Cert Key : Type) := Registry String (Launched Regex X Out Cert Key)

namespace Gateways

variable (w : Surroundings Regex X Out Cert Key) (r : Gateways Regex X Out Cert Key)

def launch (name : String) (item : ConfigItem) :
    Except CreateError (Launched Regex X Out Cert Key) :=
  (create w.env w.rt w.sort w.order w.lib item).map fun created =>
    { gateway := created.1
      listens := created.2.mapIdx fun i listen => (listen, w.binds name i) }

/-- `create`, followed by `global_save` if it succeeds; there is no result if it panics. -/
def createAndSave (name : String) (item : ConfigItem) : Option (Gateways Regex X Out Cert Key) :=
  match launch w name item with
  | .ok launched => some (r.save name launched)
  | .error (.service .panicked) => none
  | .error _ => some r

/-- The gateways of `global_init`, in the order of their names. -/
def globalInit (gateways : List (String × ConfigItem)) : Option (Gateways Regex X Out Cert Key) :=
  gateways.foldlM (fun r entry => createAndSave w r entry.1 entry.2) r

def withRouter (router : RouterService Regex X Out) (launched : Launched Regex X Out Cert Key) :
    Launched Regex X Out Cert Key :=
  { launched with gateway := { launched.gateway with router := router } }

/-- `global_update`: the reloader of the stored gateway gets a new router. -/
def globalUpdate (gatewayName : String) (httpRoutes : RouteMap) :
    Option (Gateways Regex X Out Cert Key) :=
  match createRouterService w.env w.rt w.sort w.order httpRoutes with
  | .error .panicked => none
  | .error _ => some r
  | .ok router =>
    match r.store.get gatewayName with
    | some i => some (r.modify i (withRouter router))
    | none => some r

/-- `handler`.  Events of plugins only change what later gateways are built with. -/
def handle : ConfigEvent → Option (Gateways Regex X Out Cert Key)
  | (.gateway name, .create) =>
    match w.retrieveConfigItem name with
    | .ok (some item) => createAndSave w r name item
    | _ => some r
  | (.gateway name, .update) =>
    match w.retrieveConfigItem name with
    | .ok (some item) => createAndSave w (r.remove name) name item
    | _ => some r
  | (.gateway name, .delete) => some (r.remove name)
  | (.route gatewayName _, _) =>
    match w.retrieveConfigItemAllRoutes gatewayName with
    | .ok routes => globalUpdate w r gatewayName routes
    | .error _ => some r
  | (.plugin _, _) => some r
  | (.global, _) =>
    match w.retrieveConfig with
    | .ok gateways => globalInit w r.reset gateways.entries
    | .error _ => some r

/-- The state in which the shell enters its loop. -/
def startup (gateways : SortedMap String ConfigItem) : Option (Gateways Regex X Out Cert Key) :=
  globalInit w .empty gateways.entries

variable (s : Option (Gateways Regex X Out Cert Key))

/-- One round of the loop; after a panic there is none. -/
def step
    (event : Surroundings Regex X Out Cert Key × ConfigEvent) :
    Option (Gateways Regex X Out Cert Key) :=
  s.bind fun r => handle event.1 r event.2

/-- A process that has panicked runs nothing and stores nothing. -/
def current : Gateways Regex X Out Cert Key :=
  s.getD .empty

/-- A gateway is created only under a name that is not in the store. -/
def CreatesNew (event : Surroundings Regex X Out Cert Key × ConfigEvent) : Prop :=
  match event with
  | (w, .gateway name, .create) =>
    ∀ item launched, w.retrieveConfigItem name = .ok (some item) →
      launch w name item = .ok launched → (current s).store.get name = none
  | _ => True

/-! ## Events -/

variable {w r}

theorem createAndSave_cases (name : String) (item : ConfigItem) :
    (∃ launched, launch w name item = .ok launched ∧
        createAndSave w r name item = some (r.save name launched)) ∨
      createAndSave w r name item = none ∨ createAndSave w r name item = some r := by
  unfold createAndSave
  split
  · rename_i launched hl
    exact .inl ⟨launched, hl, rfl⟩
  · exact .inr (.inl rfl)
  · exact .inr (.inr rfl)

variable {r' : Gateways Regex X Out Cert Key} {name gatewayName : String}
  {s : Option (Gateways Regex X Out Cert Key)}
  {event : Surroundings Regex X Out Cert Key × ConfigEvent}

theorem inStep_createAndSave (h : r.InStep) {item : ConfigItem}
    (hf : ∀ launched, launch w name item = .ok launched → r.store.get name = none)
    (hc : createAndSave w r name item = some r') : r'.InStep := by
  rcases @createAndSave_cases _ _ _ _ _ w r name item with
    ⟨launched, hl, hs⟩ | hn | hSame
  · rw [hs] at hc
    cases hc
    exact h.save (hf launched hl) launched
  · rw [hn] at hc
    cases hc
  · rw [hSame] at hc
    cases hc
    exact h

theorem get_store_createAndSave {name' : String} (hn : name ≠ name') {item : ConfigItem}
    (hc : createAndSave w r name item = some r') : r'.store.get name' = r.store.get name' := by
  rcases @createAndSave_cases _ _ _ _ _ w r name item with ⟨launched, -, hs⟩ | hNone | hSame
  · rw [hs] at hc
    cases hc
    exact r.store.get_insert_ne hn _
  · rw [hNone] at hc
    cases hc
  · rw [hSame] at hc
    cases hc
    rfl

theorem inStep_globalInit (h : r.InStep) {gateways : List (String × ConfigItem)}
    (hn : gateways.Pairwise fun a b => a.1 < b.1)
    (hf : ∀ entry ∈ gateways, r.store.get entry.1 = none)
    (hi : globalInit w r gateways = some r') : r'.InStep := by
  induction gateways generalizing r with
  | nil =>
    cases hi
    exact h
  | cons entry gateways ih =>
    obtain ⟨hFirst, hr⟩ := List.pairwise_cons.mp hn
    obtain ⟨next, hc, hi⟩ := Option.bind_eq_some_iff.mp hi
    have hNext := inStep_createAndSave h (fun _ _ => hf entry List.mem_cons_self) hc
    refine ih hNext hr ?_ hi
    intro later hl
    rw [get_store_createAndSave (hFirst later hl).ne hc]
    exact hf later (List.mem_cons_of_mem _ hl)

theorem inStep_globalUpdate (h : r.InStep) {httpRoutes : RouteMap}
    (hu : globalUpdate w r gatewayName httpRoutes = some r') : r'.InStep := by
  unfold globalUpdate at hu
  split at hu
  · cases hu
  · cases hu
    exact h
  · split at hu
    · cases hu
      exact h.modify _ _
    · cases hu
      exact h

theorem inStep_handle (h : r.InStep) {event : ConfigEvent} (hNew : CreatesNew (some r) (w, event))
    (hh : handle w r event = some r') : r'.InStep := by
  obtain ⟨config, kind⟩ := event
  cases config with
  | gateway name =>
    cases kind with
    | create =>
      rw [handle] at hh
      split at hh
      · rename_i item hi
        refine inStep_createAndSave h ?_ hh
        intro launched hl
        exact hNew item launched hi hl
      · cases hh
        exact h
    | update =>
      rw [handle] at hh
      split at hh
      · refine inStep_createAndSave (h.remove name) ?_ hh
        intro launched _
        rw [get_store_remove, if_pos rfl]
      · cases hh
        exact h
    | delete =>
      cases hh
      exact h.remove name
  | route gatewayName name =>
    rw [handle] at hh
    split at hh
    · exact inStep_globalUpdate h hh
    · cases hh
      exact h
  | plugin id =>
    cases hh
    exact h
  | global =>
    rw [handle] at hh
    split at hh
    · rename_i gateways hc
      exact inStep_globalInit h.reset gateways.sorted (fun _ _ => rfl) hh
    · cases hh
      exact h

/-! ## Runs -/

theorem inStep_current (h : ∀ r, s = some r → r.InStep) : (current s).InStep := by
  cases s with
  | none => exact inStep_empty
  | some r => exact h r rfl

theorem inStep_step (h : (current s).InStep) (hNew : CreatesNew s event) :
    (current (step s event)).InStep := by
  apply inStep_current
  intro r' hs
  obtain ⟨r, rfl, hh⟩ := Option.bind_eq_some_iff.mp hs
  exact inStep_handle h hNew hh

/-- Creating a gateway over a stored one leaves the stored one running. -/
theorem createsNew_of_inSync (h : (current s).InStep) (hs : (current (step s event)).InSync) :
    CreatesNew s event := by
  obtain ⟨w, config, kind⟩ := event
  unfold CreatesNew
  split
  · rename_i w' name he
    cases he
    intro item launched hi hl
    cases s with
    | none => rfl
    | some r =>
      have hStep : step (some r) (w, .gateway name, .create) = some (r.save name launched) := by
        show handle w r (.gateway name, .create) = _
        simp [handle, hi, createAndSave, hl]
      rw [hStep] at hs
      exact h.get_eq_none_of_inSync_save hs
  · trivial

/-- **The global store.**  For every configuration that the shell starts with and every sequence
of events, whatever the backend answers, the gateways that are running are those of the store,
one for each name, in every state that is reached, exactly if no gateway is created under the
name of one that is stored. -/
theorem inSync_iff_createsNew (w : Surroundings Regex X Out Cert Key)
    (gateways : SortedMap String ConfigItem)
    (events : List (Surroundings Regex X Out Cert Key × ConfigEvent)) :
    (∀ earlier later, events = earlier ++ later →
        (current (earlier.foldl step (startup w gateways))).InSync) ↔
      Trace.Along step CreatesNew (startup w gateways) events := by
  have hs : (current (startup w gateways)).InStep := by
    apply inStep_current
    intro r hi
    exact inStep_globalInit inStep_empty gateways.sorted (fun _ _ => rfl) hi
  have hg : ∀ s : Option (Gateways Regex X Out Cert Key),
      (current s).InStep → (current s).InSync := fun s h => h.inSync
  refine Trace.reached_iff_along hg ?_ ?_ hs
  · intro s event h hNew
    exact inStep_step h hNew
  · intro s event h hSync
    exact createsNew_of_inSync h hSync

/-- A backend with one answer for every gateway. -/
def answering (lib : TlsLibrary String String) (item : ConfigItem) :
    Surroundings LiteralRegex Unit Unit String String where
  env := plainEnv
  rt := plainRuntime
  sort := insertionSortUnstable
  order := hashOrderId
  lib := lib
  binds := fun _ _ => true
  retrieveConfigItem := fun _ => .ok (some item)
  retrieveConfigItemAllRoutes := fun _ => .ok item.routes
  retrieveConfig := .ok ∅

/-- A gateway that is created twice runs twice. -/
theorem createdTwice_not_inSync :
    let w := answering plainTlsLibrary (gatewayItem [])
    let s := current ([(w, .gateway "gw", .create), (w, .gateway "gw", .create)].foldl step
      (startup w ∅))
    s.running 0 = some "gw" ∧ s.running 1 = some "gw" ∧ ¬ s.InSync := by
  intro w s
  have hf : s.running 0 = some "gw" := rfl
  have hs : s.running 1 = some "gw" := rfl
  refine ⟨hf, hs, ?_⟩
  intro hSync
  exact absurd (hSync.unique 0 1 "gw" hf hs) (by decide)

/-! ## A failing replacement -/

/-- The replacement cannot be retrieved, built or started. -/
def ReplacementFails (w : Surroundings Regex X Out Cert Key) (name : String) : Prop :=
  match w.retrieveConfigItem name with
  | .ok (some item) =>
    match launch w name item with
    | .ok launched => ∃ listen ∈ launched.listens, listen.2 = false
    | .error _ => True
  | _ => True

/-- If the replacement fails then the gateway that was running is running and stored. -/
def KeepsRunning (w : Surroundings Regex X Out Cert Key) (r : Gateways Regex X Out Cert Key)
    (name : String) : Prop :=
  ReplacementFails w name → ∀ i, r.store.get name = some i → r.running i = some name →
    let after := current (step (some r) (w, .gateway name, .update))
    after.running i = some name ∧ after.store.get name = some i

/-- A gateway is only replaced by one that can be built and started. -/
def ReplacedBySound (w : Surroundings Regex X Out Cert Key) (r : Gateways Regex X Out Cert Key)
    (name : String) : Prop :=
  ∀ i, r.store.get name = some i → r.running i = some name →
    ∀ item, w.retrieveConfigItem name = .ok (some item) →
      ∃ launched, launch w name item = .ok launched ∧ ∀ listen ∈ launched.listens, listen.2 = true

/-- The gateway has left the store and was shut down before its replacement is built. -/
theorem running_createAndSave_remove {i : ℕ} (hs : r.store.get name = some i)
    (hr : r.running i = some name) (item : ConfigItem) :
    (current (createAndSave w (r.remove name) name item)).running i = none := by
  have hRemoved : (r.remove name).running i = none := by
    rw [running_remove, if_pos hs]
  rcases @createAndSave_cases _ _ _ _ _ w (r.remove name) name item with
    ⟨launched, -, hSave⟩ | hn | hSame
  · rw [hSave]
    show ((r.remove name).save name launched).running i = none
    have hOld : i ≠ (r.remove name).started.length := by
      rw [length_started_remove]
      rintro rfl
      rw [running_eq_none_of_le le_rfl] at hr
      cases hr
    rw [running_save, if_neg hOld, hRemoved]
  · rw [hn]
    rfl
  · rw [hSame]
    exact hRemoved

/-- **Replacing a gateway.**  At every update of a gateway, with every new configuration and
whatever fails, the gateway that was running is kept if its replacement fails, exactly if there
was none or a replacement that is retrieved can also be built and started. -/
theorem keepsRunning_iff_replacedBySound (w : Surroundings Regex X Out Cert Key)
    (r : Gateways Regex X Out Cert Key) (name : String) :
    KeepsRunning w r name ↔ ReplacedBySound w r name := by
  constructor
  · intro hk i hStored hr item hi
    have hStep : step (some r) (w, .gateway name, .update) =
        createAndSave w (r.remove name) name item := by
      show handle w r (.gateway name, .update) = _
      simp only [handle, hi]
    have hg := @running_createAndSave_remove _ _ _ _ _ w r name i hStored hr item
    have hs : ¬ ReplacementFails w name := by
      intro hf
      have ha := (hk hf i hStored hr).1
      rw [hStep, hg] at ha
      cases ha
    simp only [ReplacementFails, hi] at hs
    cases hl : launch w name item with
    | error e =>
      rw [hl] at hs
      exact absurd trivial hs
    | ok launched =>
      rw [hl] at hs
      refine ⟨launched, rfl, ?_⟩
      intro listen hListen
      by_contra hu
      exact hs ⟨listen, hListen, Bool.eq_false_of_not_eq_true hu⟩
  · intro hs hf i hStored hr
    -- a replacement that is retrieved does not fail, so nothing was retrieved
    have hn : handle w r (.gateway name, .update) = some r := by
      rw [handle]
      split
      · rename_i item hi
        obtain ⟨launched, hl, hb⟩ := hs i hStored hr item hi
        simp only [ReplacementFails, hi, hl] at hf
        obtain ⟨listen, hListen, hu⟩ := hf
        rw [hb listen hListen] at hu
        cases hu
      · rfl
    have hStep : step (some r) (w, .gateway name, .update) = some r := hn
    simp only [hStep]
    exact ⟨hr, hStored⟩

def tlsListener : SgListener where
  name := "https"
  ip := none
  port := 443
  protocol := .https { mode := .terminate, key := "K", cert := "C", http2 := none }
  hostname := none

/-- The certificate of the new configuration does not belong to its key: the gateway is shut
down, and nothing takes its place. -/
theorem badCertificate_not_keepsRunning :
    let w := answering plainTlsLibrary (gatewayItem [])
    let w' := answering
      { plainTlsLibrary with withSingleCert := fun _ _ => .error "keys do not match" }
      (gatewayItem [tlsListener])
    let r := current (step (startup w ∅) (w, .gateway "gw", .create))
    let after := current (step (some r) (w', .gateway "gw", .update))
    r.store.get "gw" = some 0 ∧ r.running 0 = some "gw" ∧ ReplacementFails w' "gw" ∧
      after.running 0 = none ∧ after.store.get "gw" = none ∧ ¬ KeepsRunning w' r "gw" := by
  intro w w' r after
  have hs : r.store.get "gw" = some 0 := rfl
  have hr : r.running 0 = some "gw" := rfl
  have hf : ReplacementFails w' "gw" := trivial
  have ha : after.running 0 = none := rfl
  refine ⟨hs, hr, hf, ha, rfl, ?_⟩
  intro hKeeps
  have hk := (hKeeps hf 0 hs hr).1
  rw [show (current (step (some r) (w', .gateway "gw", .update))).running 0 = none from ha] at hk
  cases hk

end Gateways

end Spacegate.Shell
