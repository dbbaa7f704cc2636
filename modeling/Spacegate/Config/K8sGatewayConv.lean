import Spacegate.Foundation.Traverse
import Spacegate.Model.Gateway

/-!
# Gateways as Kubernetes objects

`to_kube_gateway` makes a Gateway object of a configured gateway.  Certificates do
not stand in a Gateway object: an HTTPS listener refers to a secret, whose name is a
hash of the private key, and the secret is returned next to the object.  There is
room for one secret, so what a reference leads to depends on the other listeners.

The hash is the one of the standard library's `DefaultHasher`, which is not
specified further, and is a parameter.  The annotations of the object are left out.
-/

namespace Spacegate.Config.Kube

open Foundation Foundation.Text Kernel Model List Option

structure ObjectMeta where
  name : Option String
  «namespace» : Option String

structure SecretObjectReference where
  kind : Option String
  name : String
  «namespace» : Option String

structure GatewayTlsConfig where
  mode : Option String
  certificateRefs : Option (List SecretObjectReference)
  options : Option (List (String × String))

structure Listener where
  name : String
  hostname : Option String
  port : UInt16
  protocol : String
  tls : Option GatewayTlsConfig

structure Gateway where
  metadata : ObjectMeta
  gatewayClassName : String
  listeners : List Listener

structure Secret where
  metadata : ObjectMeta
  type : Option String
  data : Option (List (String × List UInt8))

/-- `DefaultHasher` on one `write`. -/
abbrev KeyHash := List UInt8 → UInt64

/-- `format!("{:016x}", n)`. -/
def hex016 (n : UInt64) : String :=
  String.ofList (lowerHex 16 n.toNat)

/-- `Display for SgProtocolConfig`. -/
def protocolText : SgProtocolConfig → String
  | .http => "http"
  | .https _ => "https"

/-- `SgTlsMode::to_pascal_case`. -/
def toPascalCase : SgTlsMode → String
  | .terminate => "Terminate"
  | .passthrough => "Passthrough"

section ToKube

variable (hash : KeyHash) («namespace» : String)

def secretName (tls : SgTlsConfig) : String :=
  hex016 (hash (strBytes (trim tls.key)))

def tlsSecret (tls : SgTlsConfig) : Secret where
  metadata := { name := some (secretName hash tls), «namespace» := some «namespace» }
  type := some "kubernetes.io/tls"
  data := some
    [("tls.crt", strBytes (trim tls.cert)), ("tls.key", strBytes (trim tls.key))]

def tlsConfig (tls : SgTlsConfig) : GatewayTlsConfig where
  mode := some (toPascalCase tls.mode)
  certificateRefs := some
    [{ kind := some "Secret"
       name := secretName hash tls
       «namespace» := some «namespace» }]
  options := some [("http2", toString (tls.http2.getD false))]

/-- One turn of the map over the listeners, with the secret that is noted so far. -/
def toKubeListener (secret : Option Secret) (l : SgListener) : Listener × Option Secret :=
  let tls : Option GatewayTlsConfig × Option Secret :=
    match l.protocol with
    | .http => (none, secret)
    -- the secret of an earlier listener is overwritten
    | .https tls => (some (tlsConfig hash «namespace» tls), some (tlsSecret hash «namespace» tls))
  ({ name := l.name
     hostname := l.hostname
     port := l.port
     protocol := protocolText l.protocol
     tls := tls.1 }, tls.2)

def toKubeListeners : Option Secret → List SgListener → List Listener × Option Secret
  | secret, [] => ([], secret)
  | secret, l :: ls =>
    let converted := toKubeListener hash «namespace» secret l
    let rest := toKubeListeners converted.2 ls
    (converted.1 :: rest.1, rest.2)

def toKubeGateway (gatewayClassName : String) (gateway : SgGateway) :
    Gateway × Option Secret × List PluginBinding :=
  let converted := toKubeListeners hash «namespace» none gateway.listeners
  ({ metadata := { name := some gateway.name, «namespace» := some «namespace» }
     gatewayClassName := gatewayClassName
     listeners := converted.1 }, converted.2, gateway.plugins)

end ToKube

/-! ## What a reference leads to -/

/-- The secret holds the certificate and the key of a configuration, both up to the
white space around them. -/
def Secret.Holds (secret : Secret) (tls : SgTlsConfig) : Prop :=
  ∃ data, secret.data = some data ∧ data.lookup "tls.crt" = some (strBytes (trim tls.cert)) ∧
    data.lookup "tls.key" = some (strBytes (trim tls.key))

/-- Each certificate reference of the listener names a returned secret, which holds
the certificate and the key that were configured. -/
def RefsResolve (secrets : Option Secret) (configured : SgListener) (listener : Listener) : Prop :=
  ∀ tls, listener.tls = some tls → ∀ refs, tls.certificateRefs = some refs → ∀ ref ∈ refs,
    ∃ secret ∈ secrets, secret.metadata.name = some ref.name ∧
      secret.metadata.namespace = ref.namespace ∧
      ∃ config, configured.protocol = .https config ∧ secret.Holds config

/-- Two listeners that both have a certificate have the same one. -/
def SameCertificate (l l' : SgListener) : Prop :=
  ∀ tls tls', l.protocol = .https tls → l'.protocol = .https tls' →
    trim tls.key = trim tls'.key ∧ trim tls.cert = trim tls'.cert

def certificateOf (l : SgListener) : Option SgTlsConfig :=
  match l.protocol with
  | .http => none
  | .https tls => some tls

theorem certificateOf_eq_some_iff {l : SgListener} {tls : SgTlsConfig} :
    certificateOf l = some tls ↔ l.protocol = .https tls := by
  unfold certificateOf
  cases l.protocol <;> simp

section Resolve

variable (hash : KeyHash) («namespace» : String) (secret : Option Secret)

theorem toKubeListener_fst_tls (l : SgListener) : (toKubeListener hash «namespace» secret l).1.tls =
      (certificateOf l).map (tlsConfig hash «namespace») := by
  unfold toKubeListener certificateOf
  cases l.protocol <;> rfl

theorem toKubeListener_snd (l : SgListener) : (toKubeListener hash «namespace» secret l).2 =
      ((certificateOf l).map (tlsSecret hash «namespace»)).or secret := by
  unfold toKubeListener certificateOf
  cases l.protocol <;> rfl

theorem toKubeListeners_snd (ls : List SgListener) :
    (toKubeListeners hash «namespace» secret ls).2 =
      ((ls.filterMap certificateOf).getLast?.map (tlsSecret hash «namespace»)).or secret := by
  induction ls generalizing secret with
  | nil => rfl
  | cons l ls ih =>
    simp only [toKubeListeners, ih, toKubeListener_snd]
    cases hTls : certificateOf l with
    | none => simp [hTls]
    | some tls =>
      rw [filterMap_cons_some hTls, getLast?_cons]
      cases (ls.filterMap certificateOf).getLast? <;> rfl

theorem forall₂_toKubeListeners (ls : List SgListener) :
    List.Forall₂ (fun l k => k.tls = (certificateOf l).map (tlsConfig hash «namespace»)) ls
      (toKubeListeners hash «namespace» secret ls).1 := by
  induction ls generalizing secret with
  | nil => exact .nil
  | cons l ls ih => exact .cons (toKubeListener_fst_tls hash «namespace» secret l) (ih _)

variable {hash «namespace»}

theorem tlsSecret_holds_iff {tls tls' : SgTlsConfig} : (tlsSecret hash «namespace» tls).Holds tls' ↔
      trim tls'.key = trim tls.key ∧ trim tls'.cert = trim tls.cert := by
  constructor
  · rintro ⟨data, hd, hc, hKey⟩
    cases hd
    have hc' : strBytes (trim tls.cert) = strBytes (trim tls'.cert) := some.inj hc
    have hk' : strBytes (trim tls.key) = strBytes (trim tls'.key) := some.inj hKey
    exact ⟨(strBytes_inj.mp hk').symm, (strBytes_inj.mp hc').symm⟩
  · rintro ⟨hKey, hc⟩
    refine ⟨_, rfl, ?_, ?_⟩
    · rw [hc]
      rfl
    · rw [hKey]
      rfl

/-- A reference is resolved when the listener has the certificate of the one secret
that is returned. -/
theorem refsResolve_iff {secrets : Option Secret} {l : SgListener} {k : Listener}
    (hTls : k.tls = (certificateOf l).map (tlsConfig hash «namespace»)) {last : Option SgTlsConfig}
    (hs : secrets = last.map (tlsSecret hash «namespace»)) : RefsResolve secrets l k ↔
      ∀ tls, certificateOf l = some tls →
        ∃ tls' ∈ last, trim tls.key = trim tls'.key ∧ trim tls.cert = trim tls'.cert := by
  subst hs
  constructor
  · intro h tls hl
    rw [hl] at hTls
    obtain ⟨secret, hSecret, -, -, config, hc, hh⟩ := h _ hTls _ rfl _ (mem_singleton_self _)
    obtain ⟨tls', hLast, rfl⟩ := map_eq_some_iff.mp hSecret
    cases certificateOf_eq_some_iff.mpr hc ▸ hl
    exact ⟨tls', hLast, tlsSecret_holds_iff.mp hh⟩
  · intro h tls hk refs hr ref hRef
    rw [hTls] at hk
    obtain ⟨config, hl, rfl⟩ := map_eq_some_iff.mp hk
    cases hr
    cases mem_singleton.mp hRef
    obtain ⟨tls', hLast, hKey, hCert⟩ := h config hl
    refine ⟨tlsSecret hash «namespace» tls', map_eq_some_iff.mpr ⟨tls', hLast, rfl⟩, ?_, rfl,
      config, certificateOf_eq_some_iff.mp hl, tlsSecret_holds_iff.mpr ⟨hKey, hCert⟩⟩
    -- the name is computed from the key alone
    simp [tlsSecret, secretName, hKey]

end Resolve

/-- Every certificate reference is resolved exactly when all listeners that have a
certificate have the same one. -/
theorem toKubeGateway_refsResolve_iff (hash : KeyHash) («namespace» gatewayClassName : String)
    (gateway : SgGateway) :
    List.Forall₂
        (RefsResolve (toKubeGateway hash «namespace» gatewayClassName gateway).2.1)
        gateway.listeners
        (toKubeGateway hash «namespace» gatewayClassName gateway).1.listeners ↔
      ∀ l ∈ gateway.listeners, ∀ l' ∈ gateway.listeners, SameCertificate l l' := by
  have hs : (toKubeGateway hash «namespace» gatewayClassName gateway).2.1 =
      (gateway.listeners.filterMap certificateOf).getLast?.map (tlsSecret hash «namespace») := by
    simp [toKubeGateway, toKubeListeners_snd]
  have hAll := forall₂_toKubeListeners hash «namespace» none gateway.listeners
  refine (forall₂_iff_of_forall₂ hAll fun l k hTls => refsResolve_iff hTls hs).trans ?_
  constructor
  · intro h l hl l' hl' tls tls' hTls ht'
    obtain ⟨last, hLast, hKey, hc⟩ := h l hl tls (certificateOf_eq_some_iff.mpr hTls)
    obtain ⟨last', hLast', hk', hc'⟩ := h l' hl' tls' (certificateOf_eq_some_iff.mpr ht')
    cases mem_unique hLast hLast'
    exact ⟨hKey.trans hk'.symm, hc.trans hc'.symm⟩
  · intro h l hl tls hTls
    have hMem : tls ∈ gateway.listeners.filterMap certificateOf :=
      mem_filterMap.mpr ⟨l, hl, hTls⟩
    obtain ⟨last, hLast⟩ := getLast?_isSome.mpr (ne_nil_of_mem hMem) |>
      isSome_iff_exists.mp
    obtain ⟨l', hl', ht'⟩ := mem_filterMap.mp (mem_of_getLast? hLast)
    exact ⟨last, hLast, h l hl l' hl' tls last (certificateOf_eq_some_iff.mp hTls)
      (certificateOf_eq_some_iff.mp ht')⟩

/-! ## Two listeners with a certificate each -/

def httpsListener (name key cert : String) : SgListener where
  name := name
  ip := none
  port := 443
  protocol := .https { mode := .terminate, key := key, cert := cert, http2 := none }
  hostname := some name

def twoListeners : SgGateway where
  name := "g"
  parameters := { enableXRequestId := none }
  listeners := [httpsListener "a" "key-a" "cert-a", httpsListener "b" "key-b" "cert-b"]
  plugins := []

/-- The values of `DefaultHasher` on the two keys. -/
def sipHash : KeyHash := fun bytes =>
  if bytes = strBytes "key-a" then 0xb48e098edc410076
  else if bytes = strBytes "key-b" then 0x8dac4d97aef15075
  else 0

/-- The secret of listener `a` is not returned. -/
theorem twoListeners_not_refsResolve :
    ¬ List.Forall₂ (RefsResolve (toKubeGateway sipHash "default" "spacegate" twoListeners).2.1)
      twoListeners.listeners
      (toKubeGateway sipHash "default" "spacegate" twoListeners).1.listeners := by
  intro h
  cases h with
  | cons hf _ =>
    obtain ⟨secret, hs, hn, -⟩ := hf _ rfl _ rfl _ (mem_singleton_self _)
    cases hs
    exact absurd hn (by decide)

end Spacegate.Config.Kube
