import Spacegate.Config.K8sListeners
import Spacegate.Foundation.Trace

/-!
# Secrets that gateways share

The secret of a certificate is named after its key, so two gateways with the same key refer to
the same secret.  The operations on a gateway do not ask who else does: a gateway that is deleted
takes the secret along, and one that is updated puts its own certificate in it.

A secret that an operation deletes or replaces is one that the gateway itself refers to.  So a
gateway that shares no secret can be changed without harm to the others.
-/

namespace Spacegate.Config.Kube

open Foundation Foundation.Text Kernel Model List Option

/-- The Gateway and Secret objects in the namespace of the backend. -/
structure Store where
  gateways : String → Option Gateway
  secrets : String → Option Secret

/-- An empty namespace. -/
def Store.empty : Store where
  gateways _ := none
  secrets _ := none

/-- A request to the API server that changes an object. -/
inductive Mutation where
  | createGateway (gateway : Gateway)
  | replaceGateway (name : String) (gateway : Gateway)
  | deleteGateway (name : String)
  | createSecret (secret : Secret)
  | replaceSecret (secret : Secret)
  | deleteSecret (name : String)

/-- `ResourceExt::name_any`. -/
def ObjectMeta.nameAny (metadata : ObjectMeta) : String :=
  metadata.name.getD ""

namespace Store

variable (s : Store)

def setGateway (name : String) (gateway : Option Gateway) : Store :=
  { s with gateways := Function.update s.gateways name gateway }

def setSecret (name : String) (secret : Option Secret) : Store :=
  { s with secrets := Function.update s.secrets name secret }

theorem secrets_setSecret_self (name : String) (secret : Option Secret) :
    (s.setSecret name secret).secrets name = secret := by
  simp [setSecret]

theorem secrets_setSecret_of_ne {name key : String} (h : key ≠ name) (secret : Option Secret) :
    (s.setSecret name secret).secrets key = s.secrets key := by
  simp [setSecret, h]

/-- What the API server does, unless it refuses. -/
def apply : Mutation → Option Store
  | .createGateway gateway =>
    let name := gateway.metadata.nameAny
    if (s.gateways name).isSome then none else some (s.setGateway name (some gateway))
  | .replaceGateway name gateway =>
    if gateway.metadata.name = some name ∧ (s.gateways name).isSome then
      some (s.setGateway name (some gateway))
    else none
  | .deleteGateway name =>
    if (s.gateways name).isSome then some (s.setGateway name none) else none
  | .createSecret secret =>
    let name := secret.metadata.nameAny
    if (s.secrets name).isSome then none else some (s.setSecret name (some secret))
  | .replaceSecret secret =>
    let name := secret.metadata.nameAny
    if (s.secrets name).isSome then some (s.setSecret name (some secret)) else none
  | .deleteSecret name =>
    if (s.secrets name).isSome then some (s.setSecret name none) else none

/-- An operation ends with the first request that is refused. -/
def applyAll : List Mutation → Store → Store
  | [], s => s
  | m :: ms, s =>
    match s.apply m with
    | none => s
    | some s' => applyAll ms s'

end Store

/-- What a `K8s` backend is made with, and the hash of the standard library. -/
structure Backend where
  hash : KeyHash
  ns : String
  gatewayClassName : String

inductive Operation where
  | create (gateway : SgGateway)
  | update (name : String) (gateway : SgGateway)
  | delete (name : String)

/-- The gateway that is operated on. -/
def Operation.target : Operation → String
  | .create gateway => gateway.name
  | .update name _ => name
  | .delete name => name

namespace Backend

variable (b : Backend) (s : Store)

/-- The listeners of `retrieve_config_item_gateway`; the secrets are looked up by name. -/
def retrieveListeners (name : String) : Except RetrieveError (Option (List SgListener)) :=
  match s.gateways name with
  | none => .ok none
  | some gateway =>
    if gateway.gatewayClassName = b.gatewayClassName then
      (retrieveConfigItemListeners { getOpt := fun name => .ok (s.secrets name) }
        gateway.listeners).map some
    else .ok none

/-- The secret that `to_kube_gateway` makes of the listeners. -/
def secretOf (listeners : List SgListener) : Option Secret :=
  (toKubeListeners b.hash b.ns none listeners).2

/-- What `update_config_item_gateway` does with the old and the new secret. -/
def secretChanges : Option Secret → Option Secret → List Mutation
  | some old, some new =>
    if old.metadata.nameAny = new.metadata.nameAny then [.replaceSecret new]
    else [.createSecret new]
  | some old, none => [.deleteSecret old.metadata.nameAny]
  | none, some new => [.createSecret new]
  | none, none => []

/-- The requests of `create_config_item_gateway`, `update_config_item_gateway` and
`delete_config_item_gateway` on gateways and secrets, in their order. -/
def mutations : Operation → List Mutation
  | .create gateway =>
    .createGateway (toKubeGateway b.hash b.ns b.gatewayClassName gateway).1 ::
      (b.secretOf gateway.listeners).toList.map .createSecret
  | .update name gateway =>
    match b.retrieveListeners s name with
    | .ok (some old) =>
      .replaceGateway name (toKubeGateway b.hash b.ns b.gatewayClassName gateway).1 ::
        secretChanges (b.secretOf old) (b.secretOf gateway.listeners)
    | _ => []
  | .delete name =>
    match b.retrieveListeners s name with
    | .ok (some old) =>
      ((b.secretOf old).toList.map fun secret => .deleteSecret secret.metadata.nameAny) ++
        [.deleteGateway name]
    | _ => []

/-- An operation, of which as many requests are made as the environment lets succeed; the
requests to other objects may fail, too. -/
structure Performed where
  operation : Operation
  requests : ℕ

def perform (s : Store) (p : Performed) : Store :=
  Store.applyAll ((b.mutations s p.operation).take p.requests) s

end Backend

/-- The secrets that the listeners of a gateway refer to. -/
def Gateway.secretNames (gateway : Gateway) : List String :=
  gateway.listeners.flatMap fun listener =>
    ((listener.tls.bind GatewayTlsConfig.certificateRefs).getD []).map SecretObjectReference.name

/-- No secret of another gateway is deleted or changed. -/
def Backend.SparesOthers (b : Backend) (s : Store) (p : Backend.Performed) : Prop :=
  ∀ other ≠ p.operation.target, ∀ gateway, (b.perform s p).gateways other = some gateway →
    ∀ key ∈ gateway.secretNames, ∀ secret, s.secrets key = some secret →
      (b.perform s p).secrets key = some secret

/-- A gateway that is updated or deleted shares no secret with another one. -/
def SharesNothing (s : Store) (p : Backend.Performed) : Prop :=
  match p.operation with
  | .create _ => True
  | .update name _ | .delete name =>
    ∀ gateway, s.gateways name = some gateway → ∀ other ≠ name, ∀ gateway',
      s.gateways other = some gateway' → ∀ key ∈ gateway.secretNames, key ∉ gateway'.secretNames

/-! ## What the requests of an operation change -/

/-- The secrets that a stored gateway refers to. -/
def Store.secretNamesOf (s : Store) (name : String) : List String :=
  ((s.gateways name).map Gateway.secretNames).getD []

/-- The secrets that an operation may delete or replace. -/
def Operation.ownSecrets (s : Store) : Operation → List String
  | .create _ => []
  | .update name _ => s.secretNamesOf name
  | .delete name => s.secretNamesOf name

namespace Backend

variable (b : Backend)

/-- Every secret is named after the key that is in it. -/
def NamedByKey (s : Store) : Prop :=
  ∀ key secret, s.secrets key = some secret →
    ∃ tls, secret = tlsSecret b.hash b.ns tls ∧ secretName b.hash tls = key

/-- The requests that an operation on a gateway with the given secrets makes. -/
def Permitted (target : String) (keys : List String) : Mutation → Prop
  | .createGateway gateway => gateway.metadata.nameAny = target
  | .replaceGateway name _ => name = target
  | .deleteGateway name => name = target
  | .createSecret secret => ∃ tls, secret = tlsSecret b.hash b.ns tls
  | .replaceSecret secret =>
    ∃ tls, secret = tlsSecret b.hash b.ns tls ∧ secretName b.hash tls ∈ keys
  | .deleteSecret name => name ∈ keys

/-- Other gateways and secrets stay, and the secrets are named after their keys. -/
structure Confined (target : String) (keys : List String) (s s' : Store) : Prop where
  gateways : ∀ other ≠ target, s'.gateways other = s.gateways other
  secrets : ∀ key ∉ keys, ∀ secret, s.secrets key = some secret → s'.secrets key = some secret
  named : b.NamedByKey s → b.NamedByKey s'

variable {b} {s : Store} {target : String} {keys : List String}

theorem confined_setGateway (gateway : Option Gateway) :
    b.Confined target keys s (s.setGateway target gateway) where
  gateways := fun _ ho => Function.update_of_ne ho _ _
  secrets := fun _ _ _ hs => hs
  named := id

theorem confined_setSecret {name : String} {value : Option Secret}
    (hk : s.secrets name = none ∨ name ∈ keys) (hv : ∀ secret, value = some secret →
      ∃ tls, secret = tlsSecret b.hash b.ns tls ∧ secretName b.hash tls = name) :
    b.Confined target keys s (s.setSecret name value) where
  gateways := fun _ _ => rfl
  secrets := by
    intro key hKey secret hs
    have hNe : key ≠ name := by
      rintro rfl
      rcases hk with hNone | hMem
      · cases hNone.symm.trans hs
      · exact hKey hMem
    rw [Store.secrets_setSecret_of_ne s hNe]
    exact hs
  named := by
    intro hn key secret hs
    by_cases hKey : key = name
    · subst hKey
      rw [Store.secrets_setSecret_self] at hs
      exact hv secret hs
    · rw [Store.secrets_setSecret_of_ne s hKey] at hs
      exact hn key secret hs

theorem confined_apply {m : Mutation} {s' : Store} (hp : b.Permitted target keys m)
    (h : s.apply m = some s') : b.Confined target keys s s' := by
  cases m with
  | createGateway _ | replaceGateway _ _ | deleteGateway _ =>
    obtain rfl : _ = target := hp
    simp only [Store.apply] at h
    split_ifs at h
    cases h
    exact confined_setGateway _
  | createSecret secret =>
    obtain ⟨tls, rfl⟩ := hp
    simp only [Store.apply] at h
    split_ifs at h with hf
    cases h
    refine confined_setSecret (.inl (by simpa using hf)) ?_
    rintro _ ⟨⟩
    exact ⟨tls, rfl, rfl⟩
  | replaceSecret secret =>
    obtain ⟨tls, rfl, hn⟩ := hp
    simp only [Store.apply] at h
    split_ifs at h
    cases h
    refine confined_setSecret (.inr hn) ?_
    rintro _ ⟨⟩
    exact ⟨tls, rfl, rfl⟩
  | deleteSecret name =>
    simp only [Store.apply] at h
    split_ifs at h
    cases h
    exact confined_setSecret (.inr hp) (by simp)

theorem confined_applyAll {ms : List Mutation} (h : ∀ m ∈ ms, b.Permitted target keys m) :
    b.Confined target keys s (Store.applyAll ms s) := by
  induction ms generalizing s with
  | nil => exact ⟨fun _ _ => rfl, fun _ _ _ hs => hs, id⟩
  | cons m ms ih =>
    rw [Store.applyAll]
    cases ha : s.apply m with
    | none => exact ⟨fun _ _ => rfl, fun _ _ _ hs => hs, id⟩
    | some s' =>
      have hf := confined_apply (h m mem_cons_self) ha
      have hr := ih (fun m' hm' => h m' (mem_cons_of_mem m hm')) (s := s')
      refine ⟨?_, ?_, fun hn => hr.named (hf.named hn)⟩
      · intro other ho
        rw [hr.gateways other ho, hf.gateways other ho]
      · intro key hKey secret hs
        exact hr.secrets key hKey secret (hf.secrets key hKey secret hs)

/-! ## The requests of an operation -/

theorem secretOf_eq (listeners : List SgListener) : b.secretOf listeners =
      (listeners.filterMap certificateOf).getLast?.map (tlsSecret b.hash b.ns) := by
  rw [secretOf, toKubeListeners_snd, or_none]

/-- A certificate that is read comes from a secret that the listener refers to. -/
theorem secretName_of_read (hn : b.NamedByKey s) {gateway : Gateway} {listener : Listener}
    (hl : listener ∈ gateway.listeners) {read : SgListener} {tls : SgTlsConfig}
    (hr : retrieveListener { getOpt := fun name => .ok (s.secrets name) } listener = .ok read)
    (hTls : certificateOf read = some tls) : secretName b.hash tls ∈ gateway.secretNames := by
  obtain ⟨protocol, hp, rfl⟩ := exists_of_map_eq_ok hr
  obtain rfl : protocol = .https tls := certificateOf_eq_some_iff.mp hTls
  rw [retrieveProtocol] at hp
  split_ifs at hp
  · cases hp
  rcases httpsProtocol_eq_ok hp with ⟨-, hh⟩ | ⟨found, crt, key, hHas, ht, hf⟩
  · cases hh
  cases hf
  obtain ⟨config, refs, ref, secret, data, hc, hRefs, hs, hd, -, hKey⟩ := hHas.exists_secret
  obtain ⟨written, rfl, hName⟩ := hn _ _ (Except.ok.inj hs)
  cases hd
  obtain rfl : strBytes (trim written.key) = key := by simpa [List.lookup_cons] using hKey
  -- the key is read as it was written, so it has the same hash
  have hsk : trim written.key = tls.key := some.inj ((fromUTF8?_strBytes _).symm.trans ht.2)
  have hsn : secretName b.hash tls = secretName b.hash written := by
    rw [secretName, secretName, ← hsk, trim_trim]
  rw [hsn, hName]
  refine mem_flatMap.mpr ⟨listener, hl, mem_map.mpr ⟨ref, ?_, rfl⟩⟩
  rw [hc, bind_some, hRefs]
  exact mem_cons_self

theorem secretOf_retrieved (hn : b.NamedByKey s) {name : String} {old : List SgListener}
    (hOld : b.retrieveListeners s name = .ok (some old)) {secret : Secret}
    (hs : b.secretOf old = some secret) :
    ∃ tls, secret = tlsSecret b.hash b.ns tls ∧ secretName b.hash tls ∈ s.secretNamesOf name := by
  rw [secretOf_eq] at hs
  obtain ⟨tls, hLast, rfl⟩ := map_eq_some_iff.mp hs
  refine ⟨tls, rfl, ?_⟩
  obtain ⟨read, hMem, hTls⟩ := mem_filterMap.mp (mem_of_getLast? hLast)
  rw [retrieveListeners] at hOld
  split at hOld
  next => cases hOld
  next gateway hg =>
    split_ifs at hOld
    swap
    · cases hOld
    obtain ⟨listeners, hl, hSome⟩ := exists_of_map_eq_ok hOld
    cases hSome
    obtain ⟨listener, hListener, hr⟩ := exists_mem_of_forall₂ (forall₂_of_mapM_ok hl).flip hMem
    rw [Store.secretNamesOf, hg]
    exact secretName_of_read hn hListener hr hTls

theorem permitted_mutations (hNamed : b.NamedByKey s) (op : Operation) :
    ∀ m ∈ b.mutations s op, b.Permitted op.target (op.ownSecrets s) m := by
  have hNew : ∀ {listeners secret}, b.secretOf listeners = some secret →
      ∃ tls, secret = tlsSecret b.hash b.ns tls := by
    intro listeners secret hs
    rw [secretOf_eq] at hs
    obtain ⟨tls, -, rfl⟩ := map_eq_some_iff.mp hs
    exact ⟨tls, rfl⟩
  intro m hm
  cases op with
  | create gateway =>
    rcases mem_cons.mp hm with rfl | hm
    · rfl
    · obtain ⟨secret, hs, rfl⟩ := mem_map.mp hm
      exact hNew (mem_toList.mp hs)
  | update name gateway =>
    simp only [mutations] at hm
    split at hm
    next old hOld =>
      rcases mem_cons.mp hm with rfl | hm
      · rfl
      cases hs : b.secretOf old with
      | none =>
        cases hs' : b.secretOf gateway.listeners with
        | none => simp [secretChanges, hs, hs'] at hm
        | some new =>
          simp only [secretChanges, hs, hs', mem_singleton] at hm
          exact hm ▸ hNew hs'
      | some secret =>
        obtain ⟨tls, rfl, hn⟩ := secretOf_retrieved hNamed hOld hs
        cases hs' : b.secretOf gateway.listeners with
        | none =>
          simp only [secretChanges, hs, hs', mem_singleton] at hm
          exact hm ▸ hn
        | some new =>
          obtain ⟨tls', rfl⟩ := hNew hs'
          simp only [secretChanges, hs, hs'] at hm
          split_ifs at hm with hSame
          · have hSame : secretName b.hash tls = secretName b.hash tls' := hSame
            rw [mem_singleton.mp hm]
            exact ⟨tls', rfl, hSame ▸ hn⟩
          · rw [mem_singleton.mp hm]
            exact ⟨tls', rfl⟩
    next => cases hm
  | delete name =>
    simp only [mutations] at hm
    split at hm
    next old hOld =>
      rcases mem_append.mp hm with hm | hm
      · obtain ⟨secret, hs, rfl⟩ := mem_map.mp hm
        obtain ⟨tls, rfl, hn⟩ := secretOf_retrieved hNamed hOld (mem_toList.mp hs)
        exact hn
      · rw [mem_singleton.mp hm]
        rfl
    next => cases hm

theorem confined_perform (hn : b.NamedByKey s) (p : Performed) :
    b.Confined p.operation.target (p.operation.ownSecrets s) s (b.perform s p) :=
  confined_applyAll fun m hm => permitted_mutations hn p.operation m (mem_of_mem_take hm)

/-! ## Whole runs -/

theorem sparesOthers_of_named (hNamed : b.NamedByKey s) {p : Performed}
    (hs : SharesNothing s p) : b.SparesOthers s p := by
  have hc := confined_perform hNamed p
  intro other ho gateway hg key hKey secret hSecret
  rw [hc.gateways other ho] at hg
  refine hc.secrets key ?_ secret hSecret
  have ha : ∀ name, other ≠ name → (∀ own, s.gateways name = some own →
      ∀ key ∈ own.secretNames, key ∉ gateway.secretNames) → key ∉ s.secretNamesOf name := by
    intro name _ hOwn hMem
    cases hn : s.gateways name with
    | none => simp [Store.secretNamesOf, hn] at hMem
    | some own =>
      rw [Store.secretNamesOf, hn] at hMem
      exact hOwn own hn key hMem hKey
  obtain ⟨op, requests⟩ := p
  cases op with
  | create _ => exact not_mem_nil
  | update name _ =>
    exact ha name ho fun own hn => hs own hn other ho gateway hg
  | delete name =>
    exact ha name ho fun own hn => hs own hn other ho gateway hg

/-- From an empty namespace on, the operations spare the secrets of other gateways if those that
change a gateway share no secret. -/
theorem sparesOthers_of_sharesNothing (b : Backend) (ps : List Performed)
    (h : Trace.Along b.perform SharesNothing .empty ps) :
    Trace.Along b.perform b.SparesOthers .empty ps := by
  have hn : b.NamedByKey .empty := fun key secret hs => by
    cases hs
  revert h hn
  generalize Store.empty = s
  induction ps generalizing s with
  | nil => exact fun _ _ => trivial
  | cons p ps ih =>
    intro h hn
    exact ⟨sparesOthers_of_named hn h.1, ih _ h.2 ((confined_perform hn p).named hn)⟩

def keyed : Backend where
  hash := sipHash
  ns := "default"
  gatewayClassName := "spacegate"

/-- A gateway with one listener with the key of the listener `a` above. -/
def oneListener : SgGateway where
  name := "h"
  parameters := { enableXRequestId := none }
  listeners := [httpsListener "a" "key-a" "cert-a"]
  plugins := []

/-- Another gateway, with another key. -/
def otherKey : SgGateway :=
  { oneListener with name := "g", listeners := [httpsListener "b" "key-b" "cert-b"] }

/-- The gateway `h` comes and goes while `g` keeps its secret. -/
theorem created_and_deleted :
    Trace.Along keyed.perform keyed.SparesOthers .empty
      [⟨.create otherKey, 2⟩, ⟨.create oneListener, 2⟩, ⟨.delete "h", 2⟩] := by
  refine sparesOthers_of_sharesNothing keyed _ ⟨trivial, trivial, ?_, trivial⟩
  intro gateway hg other ho gateway' hg'
  have he : keyed.NamedByKey .empty := fun key secret hs => by
    cases hs
  have hFirst := confined_perform he ⟨.create otherKey, 2⟩
  -- besides `h` there is no gateway but `g`
  obtain rfl : other = "g" := by
    by_contra hne
    rw [(confined_perform (hFirst.named he) ⟨.create oneListener, 2⟩).gateways other ho,
      hFirst.gateways other hne] at hg'
    cases hg'
  have hh : gateway.secretNames = ["b48e098edc410076"] := by
    cases hg
    decide +kernel
  have hg : gateway'.secretNames = ["8dac4d97aef15075"] := by
    cases hg'
    decide +kernel
  rw [hh, hg]
  decide

/-- The gateway `g` refers to the secret of its listener `a`, but only `h` creates it, and the
deletion of `h` deletes it. -/
theorem shared_not_spared :
    ¬ Trace.Along keyed.perform keyed.SparesOthers .empty
      [⟨.create twoListeners, 2⟩, ⟨.create oneListener, 2⟩, ⟨.delete "h", 2⟩] := by
  rintro ⟨-, -, hs, -⟩
  let before := keyed.perform (keyed.perform .empty ⟨.create twoListeners, 2⟩)
    ⟨.create oneListener, 2⟩
  have hg : ((keyed.perform before ⟨.delete "h", 2⟩).gateways "g").map Gateway.secretNames =
      some ["b48e098edc410076", "8dac4d97aef15075"] := by
    decide +kernel
  have hb : (before.secrets "b48e098edc410076").isSome = true := by decide +kernel
  have ha : ((keyed.perform before ⟨.delete "h", 2⟩).secrets "b48e098edc410076").isNone = true := by
    decide +kernel
  obtain ⟨gateway, hGet, hn⟩ := map_eq_some_iff.mp hg
  obtain ⟨secret, hSecret⟩ := isSome_iff_exists.mp hb
  have hk := hs "g" (by decide) gateway hGet _ (hn ▸ mem_cons_self) secret hSecret
  rw [hk] at ha
  exact Bool.false_ne_true ha

end Backend
end Spacegate.Config.Kube
