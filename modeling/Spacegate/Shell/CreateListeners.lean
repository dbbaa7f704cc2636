import Spacegate.Config.K8sListeners
import Spacegate.Shell.GatewayReload

/-!
# From declared listeners to served sockets

`RunningSgGateway::create` builds the gateway's service and then one socket per
listener: a listener configured for HTTP gets the plain service, one configured for
HTTPS a TLS service or none.  Together with the retrieval of a Kubernetes gateway
this tells how a listener that is declared as HTTPS is served in every state of the
cluster: with the referenced certificate, not at all, or, when there is no
certificate to be found, in plain text.
-/

namespace Spacegate.Shell

open Foundation Kernel Model Config List
open Kube (Listener Secret)

section Create

variable {Cert Key : Type}

/-- `rustls_pemfile::Item`, the kinds that are no private keys being one. -/
inductive PemItem (Key : Type) where
  | pkcs1Key (key : Key)
  | pkcs8Key (key : Key)
  | sec1Key (key : Key)
  | other

inductive PrivateKeyDer (Key : Type) where
  | pkcs1 (key : Key)
  | pkcs8 (key : Key)
  | sec1 (key : Key)
  deriving DecidableEq

/-- What `create` asks `rustls` and `rustls_pemfile` for. -/
structure TlsLibrary (Cert Key : Type) where
  /-- `certs`, without the entries that fail to parse. -/
  certs : String → List Cert
  /-- `read_all`, without the entries that fail to parse. -/
  readAll : String → List (PemItem Key)
  /-- `load_private_key` and `ResolvesServerCertUsingSni::add`. -/
  addSni : (hostname : String) → List Cert → PrivateKeyDer Key → Except String Unit
  /-- `with_single_cert`. -/
  withSingleCert : List Cert → PrivateKeyDer Key → Except String Unit

structure ServerConfig (Cert Key : Type) where
  sniHostname : Option String
  certs : List Cert
  key : PrivateKeyDer Key
  alpnProtocols : List String
  ignoreClientOrder : Bool
  enableSecretExtraction : Bool

/-- The services that `create` adds to a socket. -/
inductive ListenService (Cert Key : Type) where
  | http (gatewayName : String)
  | https (config : ServerConfig Cert Key) (gatewayName : String)

structure SgListen (Cert Key : Type) where
  socketAddr : IpAddr × UInt16
  services : List (ListenService Cert Key)

def PemItem.privateKey : PemItem Key → Option (PrivateKeyDer Key)
  | .pkcs1Key key => some (.pkcs1 key)
  | .pkcs8Key key => some (.pkcs8 key)
  | .sec1Key key => some (.sec1 key)
  | .other => none

variable (lib : TlsLibrary Cert Key)

/-- The first private key of a PEM text. -/
def findPrivateKey (text : String) : Option (PrivateKeyDer Key) :=
  (lib.readAll text).findSome? PemItem.privateKey

def tlsServerConfig (hostname : Option String) (certs : List Cert)
    (key : PrivateKeyDer Key) : Except String (ServerConfig Cert Key) :=
  let accepted :=
    match hostname with
    | some hostname => lib.addSni hostname certs key
    | none => lib.withSingleCert certs key
  accepted.map fun _ =>
    { sniHostname := hostname
      certs := certs
      key := key
      alpnProtocols := ["http/1.1", "h2"]
      ignoreClientOrder := true
      enableSecretExtraction := true }

/-- The services of one listener.  Without a private key, and in passthrough mode, the
socket is opened without any. -/
def listenServices (gatewayName : String) (listener : SgListener) :
    Except String (List (ListenService Cert Key)) :=
  match listener.protocol with
  | .http => .ok [.http gatewayName]
  | .https tls =>
    if tls.mode = .terminate then
      match findPrivateKey lib tls.key with
      | some key =>
        (tlsServerConfig lib listener.hostname (lib.certs tls.cert) key).map fun config =>
          [.https config gatewayName]
      | none => .ok []
    else .ok []

/-- `Ipv4Addr::UNSPECIFIED`. -/
def unspecified : IpAddr :=
  .v4 ⟨0, Nat.two_pow_pos 32⟩

def createListen (gatewayName : String) (listener : SgListener) :
    Except String (SgListen Cert Key) :=
  (listenServices lib gatewayName listener).map fun services =>
    { socketAddr := (listener.ip.getD unspecified, listener.port)
      services := services }

inductive CreateError where
  | service (e : ServiceError)
  | tls (message : String)

/-- `RunningSgGateway::create`: the gateway and its sockets. -/
def create {Regex X Out : Type} (env : ShellEnv Regex X Out) (rt : Runtime Regex X Out)
    (sort : SortUnstable) (order : HashOrder) (lib : TlsLibrary Cert Key) (item : ConfigItem) :
    Except CreateError (RunningSgGateway Regex X Out × List (SgListen Cert Key)) := do
  let running ← (createService env rt sort order item).mapError .service
  let listens ←
    (item.gateway.listeners.mapM (createListen lib item.gateway.name)).mapError .tls
  return (running, listens)

/-! ## How a listener is served -/

/-- The socket speaks HTTP without TLS. -/
def SgListen.IsPlain (listen : SgListen Cert Key) : Prop :=
  ∃ gatewayName, .http gatewayName ∈ listen.services

/-- The TLS service uses the certificate that the listener refers to. -/
def UsesCertificate (cluster : Cluster) (lib : TlsLibrary Cert Key) (listener : Listener)
    (config : ServerConfig Cert Key) : Prop :=
  ∃ tls tlsCrt tlsKey, HasCertificate cluster listener tlsCrt tlsKey ∧
    IsTextOf tls tlsCrt tlsKey ∧ config.certs = lib.certs tls.cert ∧
    findPrivateKey lib tls.key = some config.key

/-- An HTTPS listener has at most one service.  It is served in plain text exactly when it
lacks a certificate, and its TLS service uses the certificate it refers to. -/
structure HttpsServed (cluster : Cluster) (lib : TlsLibrary Cert Key) (listener : Listener)
    (listen : SgListen Cert Key) : Prop where
  plain_iff : listen.IsPlain ↔ LacksCertificate cluster listener
  tls : ∀ config gatewayName, .https config gatewayName ∈ listen.services →
    UsesCertificate cluster lib listener config
  services : listen.IsPlain ∧ listen.services.length = 1 ∨ listen.services = [] ∨
    ∃ config gatewayName, listen.services = [.https config gatewayName]

variable {lib : TlsLibrary Cert Key}

theorem listenServices_https {gatewayName : String} {listener : SgListener} {tls : SgTlsConfig}
    (hp : listener.protocol = .https tls) {services : List (ListenService Cert Key)}
    (h : listenServices lib gatewayName listener = .ok services) :
    services = [] ∨ ∃ config, services = [.https config gatewayName] ∧
      config.certs = lib.certs tls.cert ∧ findPrivateKey lib tls.key = some config.key := by
  simp only [listenServices, hp] at h
  split at h
  · split at h
    · rename_i key hKey
      obtain ⟨config, hc, rfl⟩ := exists_of_map_eq_ok h
      obtain ⟨-, -, rfl⟩ := exists_of_map_eq_ok hc
      exact .inr ⟨_, rfl, rfl, hKey⟩
    · exact .inl (Except.ok.inj h).symm
  · exact .inl (Except.ok.inj h).symm

/-- One listener, from its declaration to its socket. -/
theorem httpsServed_of_retrieveListener {cluster : Cluster} {gatewayName : String}
    {listener : Listener} {sgListener : SgListener} {listen : SgListen Cert Key}
    (hh : listener.DeclaresHttps) (hr : retrieveListener cluster listener = .ok sgListener)
    (hCreate : createListen lib gatewayName sgListener = .ok listen) :
    HttpsServed cluster lib listener listen := by
  obtain ⟨services, hs, rfl⟩ := exists_of_map_eq_ok hCreate
  rcases httpsProtocol_eq_ok (retrieveListener_eq_ok hh hr) with
    ⟨hl, hp⟩ | ⟨tls, tlsCrt, tlsKey, hc, ht, hp⟩
  · -- no certificate: the plain service is the only one
    simp only [listenServices, hp] at hs
    cases Except.ok.inj hs
    exact
      { plain_iff := ⟨fun _ => hl, fun _ => ⟨gatewayName, mem_singleton_self _⟩⟩
        tls := by simp
        services := .inl ⟨⟨gatewayName, mem_singleton_self _⟩, rfl⟩ }
  · -- a certificate: the protocol is HTTPS, and the plain service is not among its services
    have hnp : ¬ LacksCertificate cluster listener :=
      fun hl => not_hasCertificate_of_lacks hl tlsCrt tlsKey hc
    rcases listenServices_https hp hs with rfl | ⟨config, rfl, hCerts, hKey⟩
    · exact
        { plain_iff := ⟨by simp [SgListen.IsPlain], fun hl => absurd hl hnp⟩
          tls := by simp
          services := .inr (.inl rfl) }
    · refine
        { plain_iff := ⟨by simp [SgListen.IsPlain], fun hl => absurd hl hnp⟩
          tls := ?_
          services := .inr (.inr ⟨config, gatewayName, rfl⟩) }
      intro config' gatewayName' hMem
      obtain ⟨rfl, -⟩ := ListenService.https.inj (mem_singleton.mp hMem)
      exact ⟨tls, tlsCrt, tlsKey, hc, ht, hCerts, hKey⟩

theorem forall₂_of_create {Regex X Out : Type} {env : ShellEnv Regex X Out}
    {rt : Runtime Regex X Out} {sort : SortUnstable} {order : HashOrder} {item : ConfigItem}
    {running : RunningSgGateway Regex X Out} {listens : List (SgListen Cert Key)}
    (h : create env rt sort order lib item = .ok (running, listens)) :
    List.Forall₂ (fun listener listen => createListen lib item.gateway.name listener = .ok listen)
      item.gateway.listeners listens := by
  obtain ⟨running', -, h⟩ := exists_of_bind_eq_ok h
  obtain ⟨listens', hl, h⟩ := exists_of_bind_eq_ok h
  obtain ⟨-, rfl⟩ := Prod.mk.inj (Except.ok.inj h)
  exact forall₂_of_mapM_ok (eq_ok_of_mapError_eq_ok hl)

/-- **HTTPS listeners of a Kubernetes gateway.**  In every state of the cluster, when
the listeners of a Gateway object are retrieved and the gateway is created, each
listener declared as HTTPS is served in plain text exactly when its TLS block, a
certificate reference, the secret or one of the secret's two keys is missing; any TLS
service it has uses the certificate it refers to. -/
theorem create_httpsServed {Regex X Out : Type} (cluster : Cluster) (listeners : List Listener)
    (env : ShellEnv Regex X Out) (rt : Runtime Regex X Out) (sort : SortUnstable)
    (order : HashOrder) (lib : TlsLibrary Cert Key) (item : ConfigItem)
    (running : RunningSgGateway Regex X Out) (listens : List (SgListen Cert Key))
    (hRetrieve : retrieveConfigItemListeners cluster listeners = .ok item.gateway.listeners)
    (hCreate : create env rt sort order lib item = .ok (running, listens)) :
    List.Forall₂ (fun listener listen =>
      listener.DeclaresHttps → HttpsServed cluster lib listener listen) listeners listens := by
  refine forall₂_trans ?_ (forall₂_of_mapM_ok hRetrieve) (forall₂_of_create hCreate)
  intro listener sgListener listen hl hListen hh
  exact httpsServed_of_retrieveListener hh hl hListen

end Create

/-! ## A gateway with one HTTPS listener -/

/-- Every text is one certificate and one private key, and all of them are accepted. -/
def plainTlsLibrary : TlsLibrary String String where
  certs text := [text]
  readAll text := [.pkcs8Key text]
  addSni _ _ _ := .ok ()
  withSingleCert _ _ := .ok ()

def httpsListener : Listener where
  name := "https"
  hostname := none
  port := 443
  protocol := "HTTPS"
  tls := some
    { mode := some "Terminate"
      certificateRefs := some [{ kind := none, name := "cert", «namespace» := none }]
      options := none }

/-- A cluster with at most the secret `cert`. -/
def clusterWith (secret : Option Secret) : Cluster where
  getOpt name := .ok (if name = "cert" then secret else none)

/-- The configuration of a gateway with given listeners and no routes. -/
def gatewayItem (listeners : List SgListener) : ConfigItem where
  gateway := { plainGateway with listeners := listeners }
  routes := { entries := [], sorted := .nil }

/-- The certificate is `C` and its key is `K`. -/
def certSecret : Secret where
  metadata := { name := some "cert", «namespace» := none }
  type := some "kubernetes.io/tls"
  data := some [("tls.crt", [67]), ("tls.key", [75])]

theorem httpsListener_served :
    ∃ sgListeners running listens,
      httpsListener.DeclaresHttps ∧
      retrieveConfigItemListeners (clusterWith (some certSecret)) [httpsListener] =
        .ok sgListeners ∧
      create plainEnv plainRuntime insertionSortUnstable hashOrderId plainTlsLibrary
        (gatewayItem sgListeners) = .ok (running, listens) ∧
      List.Forall₂ (fun listener listen => listener.DeclaresHttps →
          HttpsServed (clusterWith (some certSecret)) plainTlsLibrary listener listen)
        [httpsListener] listens := by
  refine ⟨_, _, _, by decide, rfl, rfl, ?_⟩
  exact create_httpsServed _ _ plainEnv plainRuntime insertionSortUnstable hashOrderId
    plainTlsLibrary (gatewayItem _) _ _ rfl rfl

/-- Without its secret the listener on port 443 is served in plain text. -/
theorem httpsListener_plain_without_secret :
    ∃ sgListeners running listen,
      httpsListener.DeclaresHttps ∧
      retrieveConfigItemListeners (clusterWith none) [httpsListener] = .ok sgListeners ∧
      create plainEnv plainRuntime insertionSortUnstable hashOrderId plainTlsLibrary
        (gatewayItem sgListeners) = .ok (running, [listen]) ∧
      listen.socketAddr.2 = 443 ∧ listen.services = [.http "gw"] ∧ listen.IsPlain := by
  refine ⟨_, _, _, by decide, rfl, rfl, rfl, rfl, "gw", mem_singleton_self _⟩

end Spacegate.Shell
